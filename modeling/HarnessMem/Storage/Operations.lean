import HarnessMem.Library.Execution
import HarnessMem.Storage.Distill.Queue
import HarnessMem.Storage.Distill.Review
import HarnessMem.Storage.Transcript.Capture
import HarnessMem.Storage.Transcript.Erasure

/-! The calls that write the ledger, and the runs of a ledger that many callers
share. Every call is one transaction under the store's lock, so a run is a
sequence of calls in any order; a call that raises leaves the ledger as it was.
-/

set_option autoImplicit false

namespace HarnessMem.Storage

open Library

inductive LedgerOp where
  | saveSnapshot (source : TranscriptSource) (chunks : List TranscriptChunk) (rawBytes : Option (List UInt8))
  | refreshSource (source : TranscriptSource)
  | markSourcesMissing (scan : Scan TranscriptSource) (projectName client : String) (observed : List String)
  | saveDistillProjection (record : Dict)
  | pruneCompletedDistillEvidence (jobId receiptId : String)
  | hardDeleteRevisions (scan : Scan RevisionRow) (request : HardDelete) (freshId : String)
  | saveDeletionReceipt (receipt : Dict)
  | enqueue (scan : Scan QueueRow) (request : EnqueueRequest)
  | freezeManualSelection (selects : SessionDistillJob → Bool) (publish : Except StoreError Dict)
  | enableZeroCandidateChallenge (jobId : String)
  | retainSource (jobId : String)
  | reserveManual (jobId : String)
  | claimReview (jobId leaseOwner executionSource : String) (leaseSeconds : Int)
      (frozen : Except StoreError Bool)
  | renewReviewLease (jobId leaseOwner : String) (leaseSeconds : Int)
  | releaseReviewLease (jobId leaseOwner : String)
  | reconcile (projectName : Option String) (recoveryBudget : Option Int)
      (manualJobIds jobIds : Option (List String))
  | rebalance (scan : Scan QueueRow) (projectName : String) (targetActive : Int) (recentFirst : Bool)
  | markAgentOffered (projectName : String) (jobIds : List String)
  | activateParkedForAgent (jobId : String)
  | claimChunks (jobId leaseOwner : String) (limit : Option Int) (leaseSeconds : Int) (executionSource : String)
      (frozen : Except StoreError Bool)
  | checkpointChunk (jobId chunkId leaseOwner : String) (result : Dict)
  | finalize (jobId : String) (review : Dict) (outputs : List String) (reviewLeaseOwner : Option String)
  | deferJob (jobId error : String)
  | recordCompletionOutcome (jobId : String) (disposition : Option CompletionDisposition)
      (reasonCodes : List String) (promotionSummary : Dict) (sourceCleanupStatus : SourceCleanupStatus)
      (sourceCleanupReceiptId : Option String)
  | backfillSessionSummary (jobId sessionSummary : String)
  | markHistoricalSummaryUnavailable (jobId reason : String)

inductive Response where
  | done
  | flag (granted : Bool)
  | count (number : Nat)
  | payload (fields : Dict)
  | job (job : SessionDistillJob)
  | review (granted : Option SessionDistillJob)
  | chunks (claimed : List (TranscriptChunk × DistillChunkCheckpoint))
  | sources (missing : List TranscriptSource)
  | reconciled (summary : Ledger.ReconcileSummary)
  | rebalanced (summary : RebalanceSummary)
  | pruned (counts : PruneCounts)

/-- A call that returned: its answer, the drainer selections it made, the ledger it committed. -/
structure Outcome where
  response : Response
  selections : List Selection := []
  ledger : Ledger

namespace LedgerOp

def run (hashes : Hashes) (ledger : Ledger) (now : Time) : LedgerOp → Except StoreError Outcome
  | saveSnapshot source chunks rawBytes =>
    (ledger.saveSnapshot hashes source chunks rawBytes now).map fun saved => { response := .done, ledger := saved }
  | refreshSource source =>
    (ledger.refreshSource source now).map fun saved => { response := .done, ledger := saved }
  | markSourcesMissing scan projectName client observed =>
    let (missing, marked) := ledger.markSourcesMissingFromInventory scan projectName client observed now
    .ok { response := .sources missing, ledger := marked }
  | saveDistillProjection record =>
    (ledger.saveDistillProjection record now).map fun saved => { response := .done, ledger := saved }
  | pruneCompletedDistillEvidence jobId receiptId =>
    (ledger.pruneCompletedDistillEvidence hashes jobId receiptId now).map fun (counts, pruned) =>
      { response := .pruned counts, ledger := pruned }
  | hardDeleteRevisions scan request freshId =>
    (ledger.hardDeleteRevisions hashes scan request freshId now).map fun (audit, erased) =>
      { response := .payload audit, ledger := erased }
  | saveDeletionReceipt receipt =>
    (ledger.saveDeletionReceipt receipt now).map fun (payload, saved) => { response := .payload payload, ledger := saved }
  | enqueue scan request =>
    (ledger.enqueue hashes scan request now).map fun (job, selections, queued) =>
      { response := .job job, selections, ledger := queued }
  | freezeManualSelection selects publish =>
    (ledger.freezeManualSelection selects publish now).map fun (manifest, frozen) =>
      { response := .payload manifest, ledger := frozen }
  | enableZeroCandidateChallenge jobId =>
    (ledger.enableZeroCandidateChallenge jobId now).map fun (job, next) => { response := .job job, ledger := next }
  | retainSource jobId =>
    (ledger.retainSource jobId now).map fun (job, next) => { response := .job job, ledger := next }
  | reserveManual jobId =>
    (ledger.reserveManual jobId now).map fun (job, next) => { response := .job job, ledger := next }
  | claimReview jobId leaseOwner executionSource leaseSeconds frozen =>
    (ledger.claimReview jobId leaseOwner executionSource leaseSeconds frozen now).map fun (granted, next) =>
      { response := .review granted, ledger := next }
  | renewReviewLease jobId leaseOwner leaseSeconds =>
    let (granted, next) := ledger.renewReviewLease jobId leaseOwner leaseSeconds now
    .ok { response := .flag granted, ledger := next }
  | releaseReviewLease jobId leaseOwner =>
    let (granted, next) := ledger.releaseReviewLease jobId leaseOwner now
    .ok { response := .flag granted, ledger := next }
  | reconcile projectName recoveryBudget manualJobIds jobIds =>
    let (summary, next) := ledger.reconcile projectName recoveryBudget manualJobIds jobIds now
    .ok { response := .reconciled summary, ledger := next }
  | rebalance scan projectName targetActive recentFirst =>
    let (plan, next) := ledger.rebalance scan projectName targetActive recentFirst now
    .ok { response := .rebalanced plan.summary, selections := plan.selections, ledger := next }
  | markAgentOffered projectName jobIds =>
    let (number, next) := ledger.markAgentOffered projectName jobIds now
    .ok { response := .count number, ledger := next }
  | activateParkedForAgent jobId =>
    (ledger.activateParkedForAgent jobId now).map fun (job, next) => { response := .job job, ledger := next }
  | claimChunks jobId leaseOwner limit leaseSeconds executionSource frozen =>
    (ledger.claimChunks jobId leaseOwner limit leaseSeconds executionSource frozen now).map fun (claimed, next) =>
      { response := .chunks claimed, ledger := next }
  | checkpointChunk jobId chunkId leaseOwner result =>
    (ledger.checkpointChunk jobId chunkId leaseOwner result now).map fun (job, next) =>
      { response := .job job, ledger := next }
  | finalize jobId review outputs reviewLeaseOwner =>
    (ledger.finalize hashes jobId review outputs reviewLeaseOwner now).map fun (job, next) =>
      { response := .job job, ledger := next }
  | deferJob jobId error =>
    (ledger.deferJob jobId error now).map fun (job, next) => { response := .job job, ledger := next }
  | recordCompletionOutcome jobId disposition reasonCodes promotionSummary status receiptId =>
    (ledger.recordCompletionOutcome jobId disposition reasonCodes promotionSummary status receiptId now).map
      fun (job, next) => { response := .job job, ledger := next }
  | backfillSessionSummary jobId sessionSummary =>
    (ledger.backfillSessionSummary jobId sessionSummary now).map fun (job, next) =>
      { response := .job job, ledger := next }
  | markHistoricalSummaryUnavailable jobId reason =>
    (ledger.markHistoricalSummaryUnavailable jobId reason now).map fun (job, next) =>
      { response := .job job, ledger := next }

def apply (hashes : Hashes) (ledger : Ledger) (now : Time) (op : LedgerOp) : Ledger :=
  match op.run hashes ledger now with
  | .ok outcome => outcome.ledger
  | .error _ => ledger

theorem apply_cases (hashes : Hashes) (ledger : Ledger) (now : Time) (op : LedgerOp) :
    (∃ outcome, op.run hashes ledger now = .ok outcome ∧ op.apply hashes ledger now = outcome.ledger) ∨
      op.apply hashes ledger now = ledger := by
  unfold apply
  cases op.run hashes ledger now with
  | ok outcome => exact .inl ⟨outcome, rfl, rfl⟩
  | error failure => exact .inr rfl

end LedgerOp

/-! ### Runs -/

structure World where
  ledger : Ledger
  clock : Time

structure Event where
  time : Time
  op : LedgerOp

def Step (hashes : Hashes) (before : World) (event : Event) (after : World) : Prop :=
  before.clock ≤ event.time ∧ after = ⟨event.op.apply hashes before.ledger event.time, event.time⟩

def World.initial : World := ⟨.empty, 0⟩

def Reachable (hashes : Hashes) (world : World) : Prop := Reaches (Step hashes) .initial world

/-! Runs given by their events, for evaluation. -/

def World.after (hashes : Hashes) (start : World) (events : List Event) : World :=
  events.foldl (fun world event => ⟨event.op.apply hashes world.ledger event.time, event.time⟩) start

def inOrder : Time → List Event → Bool
  | _, [] => true
  | clock, event :: rest => clock ≤ event.time && inOrder event.time rest

theorem exec_inOrder {σ : Type} {step : σ → Event → σ → Prop} {next : σ → Event → σ} {clock : σ → Time}
    (moves : ∀ state event, clock state ≤ event.time → step state event (next state event))
    (ticks : ∀ state event, clock (next state event) = event.time) {start : σ} {events : List Event}
    (ordered : inOrder (clock start) events) : Exec step start events (events.foldl next start) := by
  induction events generalizing start with
  | nil => exact .nil start
  | cons event rest ih =>
    rw [inOrder, Bool.and_eq_true, decide_eq_true_eq] at ordered
    exact .cons (moves start event ordered.1) (ih (ticks start event ▸ ordered.2))

theorem exec_after {hashes : Hashes} {start : World} {events : List Event}
    (ordered : inOrder start.clock events) : Exec (Step hashes) start events (start.after hashes events) := by
  apply @exec_inOrder _ (Step hashes) _ World.clock
  · exact fun _ _ later => ⟨later, rfl⟩
  · exact fun _ _ => rfl
  · exact ordered

theorem reachable_after {hashes : Hashes} {events : List Event} (ordered : inOrder 0 events) :
    Reachable hashes (World.initial.after hashes events) :=
  ⟨events, exec_after ordered⟩

def sampleChunks (hashes : Hashes) (sourceId revision : String) : Nat → Nat → List String → List TranscriptChunk
  | _, _, [] => []
  | index, start, text :: rest =>
    { id := revision ++ "#" ++ text
      sourceId := sourceId
      projectName := "project"
      client := "codex"
      sessionId := sourceId
      sourceRevision := revision
      chunkIndex := index
      charStart := start
      charEnd := start + text.toList.length
      rawContent := text
      contentSha256 := hashes.sha256Text text
      sizeBytes := (encodeUtf8 text).length
      createdAt := 0 } ::
      sampleChunks hashes sourceId revision (index + 1) (start + text.toList.length) rest

def sampleSource (hashes : Hashes) (sourceId : String) (texts : List String) : TranscriptSource :=
  let bytes := encodeUtf8 (String.join texts)
  { id := sourceId
    projectName := "project"
    projectRoot := "/project"
    client := "codex"
    sessionId := sourceId
    sourceKind := "jsonl"
    sourceUri := sourceId
    sourceRevision := hashes.transcriptBytesRevision bytes
    rawSha256 := hashes.sha256Bytes bytes
    normalizedSha256 := hashes.sha256Bytes bytes
    rawSizeBytes := bytes.length
    normalizedSizeBytes := bytes.length
    createdAt := 0
    updatedAt := 0 }

def sampleCapture (hashes : Hashes) (sourceId : String) (texts : List String) : LedgerOp :=
  .saveSnapshot (sampleSource hashes sourceId texts)
    (sampleChunks hashes sourceId (sampleSource hashes sourceId texts).sourceRevision 0 0 texts) none

/-- `enqueue` with the defaults of the adapters. -/
def sampleEnqueue (sourceId : String) : LedgerOp := .enqueue .insertion { sourceId }

def sampleJob (hashes : Hashes) (sourceId : String) (texts : List String) : String :=
  distillJobId hashes (sourceId ++ ":" ++ hashes.transcriptBytesRevision (encodeUtf8 (String.join texts)) ++
    ":lossless-distill-v1")

/-- `claim_chunks` of the `interactive_agent` for all open chunks of a job. -/
def sampleClaim (jobId owner : String) : LedgerOp :=
  .claimChunks jobId owner none 300 "interactive_agent" (.ok false)

end HarnessMem.Storage
