import HarnessMem.Schemas.Values

/-! The transcript source, its immutable captured revisions and their chunks. -/

set_option autoImplicit false

namespace HarnessMem

inductive TranscriptSourceStatus where
  | discovered | syncing | synced | changed | missing | failed | legacyPartial
  deriving DecidableEq, Repr

inductive TranscriptCoverage where
  | complete | incomplete | unknown
  deriving DecidableEq, Repr

structure TranscriptSource where
  id : String
  projectName : String
  projectRoot : String
  client : String
  sessionId : String
  sourceKind : String
  sourceUri : String
  sourceRevision : String
  rawSha256 : String
  normalizedSha256 : String
  rawSizeBytes : Nat := 0
  normalizedSizeBytes : Nat := 0
  mtimeNs : Option Int := none
  parserVersion : String := "transcript-v1"
  status : TranscriptSourceStatus := .discovered
  coverage : TranscriptCoverage := .unknown
  chunkCount : Nat := 0
  sequenceCount : Nat := 0
  metadata : Dict := []
  error : Option String := none
  createdAt : Time
  updatedAt : Time
  syncedAt : Option Time := none

/-- The UNIQUE column group of `transcript_sources`. -/
def TranscriptSource.identity (source : TranscriptSource) : String × String × String × String :=
  (source.projectName, source.client, source.sessionId, source.sourceUri)

structure TranscriptSourceRevision where
  sourceId : String
  sourceRevision : String
  projectName : String
  projectRoot : String
  client : String
  sessionId : String
  sourceKind : String
  sourceUri : String
  rawSha256 : String
  normalizedSha256 : String
  rawSizeBytes : Nat
  normalizedSizeBytes : Nat
  mtimeNs : Option Int := none
  parserVersion : String := "transcript-v1"
  coverage : TranscriptCoverage := .complete
  chunkCount : Nat := 0
  sequenceCount : Nat := 0
  metadata : Dict := []
  capturedAt : Time

inductive BoundaryStrategy where
  | newline | logicalUnit | hardLimit
  deriving DecidableEq, Repr

structure TranscriptChunk where
  id : String
  sourceId : String
  projectName : String
  client : String
  sessionId : String
  sourceRevision : String
  chunkIndex : Int
  charStart : Int
  charEnd : Int
  sequenceStart : Option Nat := none
  sequenceEnd : Option Nat := none
  rawContent : String
  contentSha256 : String
  sizeBytes : Nat
  startsOnBoundary : Bool := true
  endsOnBoundary : Bool := true
  boundaryStrategy : BoundaryStrategy := .newline
  logicalUnitIds : List String := []
  logicalUnitKinds : List String := []
  startsWithContinuation : Bool := false
  endsWithContinuation : Bool := false
  createdAt : Time

end HarnessMem

/-! The resumable distillation job and the checkpoint of one of its chunks.
Defaults are those of the record schema; `createdAt` and `updatedAt` are set by
the caller because their default is the clock.
-/

namespace HarnessMem

inductive DistillJobStatus where
  | queued | processing | reviewing | completed | retryable | parked | failed | stale
  deriving DecidableEq, Repr

inductive DistillJobPhase where
  | chunks | review | promotion | done
  deriving DecidableEq, Repr

inductive DistillChunkStatus where
  | pending | processing | completed | retryable | failed
  deriving DecidableEq, Repr

inductive DrainerLane where
  | recent | oldest
  deriving DecidableEq, Repr

inductive CompletionDisposition where
  | promoted | noCandidate | deferred | handoff | conflict
  deriving DecidableEq, Repr

inductive SourceCleanupStatus where
  | retained | deleted | partialFailure | unsupported
  deriving DecidableEq, Repr

namespace DistillJobStatus

/-- The statuses `_mark_older_jobs_stale_locked` and `count_pending` select. -/
def active : DistillJobStatus → Bool
  | .queued | .processing | .reviewing | .retryable | .parked => true
  | .completed | .failed | .stale => false

/-- The set `terminal` of `reconcile`. -/
def terminal : DistillJobStatus → Bool
  | .completed | .failed | .stale => true
  | .queued | .processing | .reviewing | .retryable | .parked => false

theorem terminal_eq_not_active (status : DistillJobStatus) : status.terminal = !status.active := by
  cases status <;> rfl

theorem failed_or_stale {status : DistillJobStatus} (terminal : status.terminal) (unfinished : status ≠ .completed) :
    status = .failed ∨ status = .stale := by
  cases status <;> simp_all [DistillJobStatus.terminal]

end DistillJobStatus

structure SessionDistillJob where
  id : String
  idempotencyKey : String
  projectName : String
  projectRoot : String
  client : String
  sessionId : String
  sourceId : String
  sourceRevision : String
  pipelineVersion : String := "lossless-distill-v1"
  status : DistillJobStatus := .queued
  phase : DistillJobPhase := .chunks
  expectedChunkCount : Nat := 0
  completedChunkCount : Nat := 0
  outputCandidateIds : List String := []
  structuralAudit : Dict := []
  semanticReview : Dict := []
  zeroCandidateChallengeVersion : Option String := none
  completionDisposition : Option CompletionDisposition := none
  completionReasonCodes : List String := []
  promotionSummary : Dict := []
  sourceCleanupStatus : Option SourceCleanupStatus := none
  sourceCleanupReceiptId : Option String := none
  retainSource : Bool := false
  manualOnly : Bool := false
  error : Option String := none
  attemptCount : Nat := 0
  retryAfter : Option Time := none
  drainerLane : Option DrainerLane := none
  drainerSelectedAt : Option Time := none
  agentOfferDay : Option Nat := none
  agentOfferCount : Nat := 0
  lastAgentOfferedAt : Option Time := none
  reviewLeaseOwner : Option String := none
  reviewLeaseUntil : Option Time := none
  reviewAttemptCount : Nat := 0
  reviewExecutionSource : Option String := none
  lastReviewHeartbeatAt : Option Time := none
  recoveryCount : Nat := 0
  recoveryBudget : Int := 3
  recoveryReasonCodes : List String := []
  lastRecoveryAt : Option Time := none
  lastProgressAt : Option Time := none
  recoveryExhaustedAt : Option Time := none
  createdAt : Time
  updatedAt : Time
  completedAt : Option Time := none

structure DistillChunkCheckpoint where
  jobId : String
  chunkId : String
  chunkIndex : Int
  status : DistillChunkStatus := .pending
  attemptCount : Nat := 0
  leaseOwner : Option String := none
  leaseUntil : Option Time := none
  result : Dict := []
  error : Option String := none
  updatedAt : Time
  completedAt : Option Time := none

def DistillChunkCheckpoint.key (checkpoint : DistillChunkCheckpoint) : String × String :=
  (checkpoint.jobId, checkpoint.chunkId)

end HarnessMem
