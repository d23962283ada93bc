import HarnessMem.Reading.Delivery
import HarnessMem.Archive.ProjectionCache
import HarnessMem.Archive.Recapture
import HarnessMem.Archive.Pruning
import HarnessMem.Lifecycle.ChunkLease
import HarnessMem.Lifecycle.Fairness
import HarnessMem.Lifecycle.Consistency
import HarnessMem.Lifecycle.Coherence
import HarnessMem.Lifecycle.Rebalance
import HarnessMem.Lifecycle.RecoveryBudget
import HarnessMem.Projection.Incremental
import HarnessMem.Scanning.Coverage
import HarnessMem.Canonical.Store
import HarnessMem.Canonical.Transactions
import HarnessMem.Canonical.Normalization
import HarnessMem.Canonical.ExactlyOnce
import HarnessMem.Knowledge.Payloads
import HarnessMem.Library.Programs
import HarnessMem.Knowledge.Access
import HarnessMem.Knowledge.Store
import HarnessMem.Library.Regex
import HarnessMem.Projection.Labels
import HarnessMem.Projection.Conversation
import HarnessMem.Library.Text
import HarnessMem.Library.JsonMembers
import HarnessMem.Library.Calendar
import HarnessMem.Verbatim.Scope
import HarnessMem.Background.Retirement
import HarnessMem.Background.Exclusion
import HarnessMem.Background.Wakeup
import HarnessMem.Library.Histories
import HarnessMem.Structured.Operations
import HarnessMem.Structured.Supersede
import HarnessMem.Structured.Tracking
import HarnessMem.Structured.Recovery
import HarnessMem.Structured.Listings
import HarnessMem.Review.Finalization
import HarnessMem.Erasure.Verification
import HarnessMem.Native.Ranking
import HarnessMem.ArchiveDistill.Recorded
import HarnessMem.Archive.Identity
import HarnessMem.Migration.Restored
import HarnessMem.Migration.Rerun
import HarnessMem.Migration.Coverage
import HarnessMem.Chunking.Lossless
import HarnessMem.Review.Challenge
import HarnessMem.Projection.OutlineIndex
import HarnessMem.Knowledge.Deletion
import HarnessMem.Erasure.Exactness
import HarnessMem.Maintenance.Exclusion
import HarnessMem.Assimilation.Agreement
import HarnessMem.Dream.Refinement
import HarnessMem.Sessions.Completion
import HarnessMem.Context.Receipt
import HarnessMem.Context.ResponseBudget
import HarnessMem.Dream.Verification
import HarnessMem.Dream.Resume
import HarnessMem.Confirming.Undo
import HarnessMem.Adapters.Authority
import HarnessMem.Adapters.Export
import HarnessMem.Vectors.Sidecar
import HarnessMem.Verbatim.RegexSearch
import HarnessMem.JobWorkspace.Attempts
import HarnessMem.Autonomous.Lossless
import HarnessMem.Temporal.Reads
import HarnessMem.Review.CompactResult
import HarnessMem.Adapters.Redaction
import HarnessMem.Assimilation.OwnPredecessors
import HarnessMem.Erasure.References
import HarnessMem.Notes.Latest
import HarnessMem.Tracing.Paths
import HarnessMem.Searching.Order
import HarnessMem.Searching.Titles
import HarnessMem.Searching.Results
