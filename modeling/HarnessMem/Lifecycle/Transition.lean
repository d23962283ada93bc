import HarnessMem.Storage.Integrity
import Mathlib.Logic.Relation

/-! What one call can do to one job and its checkpoints. A call moves each job
by steps of this relation, so what every step preserves, every run preserves.
-/

set_option autoImplicit false

namespace HarnessMem.Lifecycle

open Storage Library

structure Standing where
  identity : JobIdentity
  status : DistillJobStatus
  phase : DistillJobPhase
  completedChunkCount : Nat
  manualOnly : Bool
  attemptCount : Nat
  retryAfter : Option Time
  reviewLeaseOwner : Option String
  reviewLeaseUntil : Option Time
  reviewExecutionSource : Option String
  recoveryCount : Nat
  recoveryBudget : Int

def standing (job : SessionDistillJob) : Standing where
  identity := job.identity
  status := job.status
  phase := job.phase
  completedChunkCount := job.completedChunkCount
  manualOnly := job.manualOnly
  attemptCount := job.attemptCount
  retryAfter := job.retryAfter
  reviewLeaseOwner := job.reviewLeaseOwner
  reviewLeaseUntil := job.reviewLeaseUntil
  reviewExecutionSource := job.reviewExecutionSource
  recoveryCount := job.recoveryCount
  recoveryBudget := job.recoveryBudget

/-- The job `enqueue` finds under its idempotency key. -/
def requeued (ledger : Ledger) : LedgerOp → Option SessionDistillJob
  | .enqueue _ request =>
    (ledger.getSource request.sourceId).bind fun source =>
      ledger.findJob (idempotencyKey source request.pipelineVersion)
  | _ => none

/-- `enqueue` with `manual_recheck`. -/
def manualRecheck : LedgerOp → Bool
  | .enqueue _ request => request.manualRecheck
  | _ => false

def completedOf (checkpoints : List DistillChunkCheckpoint) : Nat :=
  checkpoints.countP fun checkpoint => checkpoint.status = .completed

def handsBudget : LedgerOp → Option Int → Prop
  | .reconcile _ given _ _, budget => budget = given
  | .claimChunks .., budget => budget = none
  | _, _ => False

/-- The steps of a call at `now` on a ledger, job by job. -/
inductive JobStep (hashes : Hashes) (ledger : Ledger) (now : Time) : LedgerOp → JobView → JobView → Prop where
  | annotate {op : LedgerOp} {job job' : SessionDistillJob} {checkpoints : List DistillChunkCheckpoint}
      (same : standing job' = standing job) :
      JobStep hashes ledger now op ⟨job, checkpoints⟩ ⟨job', checkpoints⟩
  | markStale {scan : Scan QueueRow} {request : EnqueueRequest} {job : SessionDistillJob}
      {checkpoints : List DistillChunkCheckpoint} (active : job.status.active) :
      JobStep hashes ledger now (.enqueue scan request) ⟨job, checkpoints⟩ ⟨job.markStale now, checkpoints⟩
  | recheck {op : LedgerOp} {job : SessionDistillJob} {checkpoints : List DistillChunkCheckpoint}
      (manual : manualRecheck op) (existing : requeued ledger op = some job) :
      JobStep hashes ledger now op ⟨job, checkpoints⟩ ⟨job.recheckManual, checkpoints⟩
  | claimManual {op : LedgerOp} {job : SessionDistillJob} {checkpoints : List DistillChunkCheckpoint}
      (idle : job.backgroundLease now = false) :
      JobStep hashes ledger now op ⟨job, checkpoints⟩ ⟨job.claimManual now, checkpoints⟩
  | place {op : LedgerOp} {job : SessionDistillJob} {checkpoints : List DistillChunkCheckpoint}
      {status : DistillJobStatus} {lane : Option DrainerLane} {selectedAt : Option Time} {updatedAt : Time}
      (schedulable : job.schedulable) (ready : job.waitsForRetry now = false)
      (placed : status = .queued ∨ status = .parked) :
      JobStep hashes ledger now op ⟨job, checkpoints⟩
        ⟨{ job with status, drainerLane := lane, drainerSelectedAt := selectedAt, updatedAt }, checkpoints⟩
  | activate {jobId : String} {job : SessionDistillJob} {checkpoints : List DistillChunkCheckpoint}
      (parked : job.status = .parked) :
      JobStep hashes ledger now (.activateParkedForAgent jobId) ⟨job, checkpoints⟩
        ⟨{ offered now job with status := .queued }, checkpoints⟩
  | leaseChunks {jobId owner source : String} {limit : Option Int} {leaseSeconds : Int}
      {frozen : Except StoreError Bool} {job : SessionDistillJob} {checkpoints : List DistillChunkCheckpoint}
      {selected : List String} (mine : job.id = jobId) (named : hasVisible owner)
      (open_ : job.status.terminal = false) (scheduled : job.status ≠ .parked)
      (ready : job.waitsForRetry now = false)
      (settled : ∀ checkpoint ∈ checkpoints, checkpoint.leaseExpired now = false)
      (claimable : ∀ checkpoint ∈ checkpoints, checkpoint.chunkId ∈ selected → checkpoint.claimable)
      (some_ : ∃ checkpoint ∈ checkpoints, checkpoint.chunkId ∈ selected) :
      JobStep hashes ledger now (.claimChunks jobId owner limit leaseSeconds source frozen) ⟨job, checkpoints⟩
        ⟨job.startChunks now, checkpoints.map fun checkpoint =>
          if checkpoint.chunkId ∈ selected then
            checkpoint.lease now owner (now + seconds (max 1 leaseSeconds).toNat)
          else checkpoint⟩
  | recover {op : LedgerOp} {job : SessionDistillJob} {checkpoints : List DistillChunkCheckpoint}
      {budget : Option Int} (open_ : job.status.terminal = false)
      (expired : ∃ checkpoint ∈ checkpoints, checkpoint.leaseExpired now) (handed : handsBudget op budget)
      (spared : (job.noteRecovery now budget "expired_chunk_lease").recoveryExhausted = false) :
      JobStep hashes ledger now op ⟨job, checkpoints⟩
        ⟨(job.noteRecovery now budget "expired_chunk_lease").retryLater now,
          checkpoints.map (·.recoverExpired now)⟩
  | recoverFailed {op : LedgerOp} {job : SessionDistillJob} {checkpoints : List DistillChunkCheckpoint}
      {budget : Option Int} (open_ : job.status.terminal = false)
      (expired : ∃ checkpoint ∈ checkpoints, checkpoint.leaseExpired now)
      (exhausted : (job.noteRecovery now budget "expired_chunk_lease").recoveryExhausted) (handed : handsBudget op budget) :
      JobStep hashes ledger now op ⟨job, checkpoints⟩
        ⟨{ (job.noteRecovery now budget "expired_chunk_lease").failRecovery now with retryAfter := none },
          checkpoints.map (·.recoverFailed now)⟩
  | completeChunk {jobId chunkId owner : String} {result : Dict} {job : SessionDistillJob}
      {checkpoints : List DistillChunkCheckpoint} {checkpoint : DistillChunkCheckpoint} {expiry : Time}
      (viewed : ledger.view jobId = some ⟨job, checkpoints⟩) (member : checkpoint ∈ checkpoints)
      (named : checkpoint.chunkId = chunkId) (processing : checkpoint.status = .processing)
      (owned : checkpoint.leaseOwner = some owner) (until_ : checkpoint.leaseUntil = some expiry)
      (live : now ≤ expiry) :
      JobStep hashes ledger now (.checkpointChunk jobId chunkId owner result) ⟨job, checkpoints⟩
        ⟨job.countChunks now (completedOf (checkpoints.map fun checkpoint =>
            if checkpoint.chunkId = chunkId then checkpoint.complete now result else checkpoint)),
          checkpoints.map fun checkpoint =>
            if checkpoint.chunkId = chunkId then checkpoint.complete now result else checkpoint⟩
  | advance {op : LedgerOp} {job : SessionDistillJob} {checkpoints : List DistillChunkCheckpoint}
      (open_ : job.status.terminal = false) (complete : completedOf checkpoints = job.expectedChunkCount) :
      JobStep hashes ledger now op ⟨job, checkpoints⟩ ⟨job.advance now (completedOf checkpoints), checkpoints⟩
  | loseWorker {op : LedgerOp} {job : SessionDistillJob} {checkpoints : List DistillChunkCheckpoint}
      {budget : Option Int} (processing : job.status = .processing) (handed : handsBudget op budget)
      (spared : (job.noteRecovery now budget "processing_without_active_lease").recoveryExhausted = false) :
      JobStep hashes ledger now op ⟨job, checkpoints⟩
        ⟨(job.noteRecovery now budget "processing_without_active_lease").retryLater now, checkpoints⟩
  | loseWorkerFailed {op : LedgerOp} {job : SessionDistillJob} {checkpoints : List DistillChunkCheckpoint}
      {budget : Option Int} (processing : job.status = .processing)
      (exhausted : (job.noteRecovery now budget "processing_without_active_lease").recoveryExhausted)
      (handed : handsBudget op budget) :
      JobStep hashes ledger now op ⟨job, checkpoints⟩
        ⟨(job.noteRecovery now budget "processing_without_active_lease").failRecovery now,
          checkpoints.map (·.exhaustOpen now)⟩
  | grantReview {jobId owner source : String} {leaseSeconds : Int} {frozen : Except StoreError Bool}
      {job : SessionDistillJob} {checkpoints : List DistillChunkCheckpoint} (mine : job.id = jobId)
      (admitted : refusesBackground job source frozen = .ok false) (reviewing : job.status = .reviewing)
      (free : job.ownedByOther owner = false ∨ job.reviewLeaseUnexpired now = false)
      (granted : ∃ claimed next,
        ledger.claimReview jobId owner source leaseSeconds frozen now = .ok (some claimed, next))
      (spared : job.ownedByOther owner → (job.noteTakeover now).recoveryExhausted = false) :
      JobStep hashes ledger now (.claimReview jobId owner source leaseSeconds frozen) ⟨job, checkpoints⟩
        ⟨(if job.ownedByOther owner then job.noteTakeover now else job).grantReview now owner source
          (reviewLeaseEnd now leaseSeconds), checkpoints⟩
  | failReview {jobId owner source : String} {leaseSeconds : Int} {frozen : Except StoreError Bool}
      {job : SessionDistillJob} {checkpoints : List DistillChunkCheckpoint} (mine : job.id = jobId)
      (reviewing : job.status = .reviewing) (free : job.reviewLeaseUnexpired now = false)
      (exhausted : (job.noteTakeover now).recoveryExhausted) :
      JobStep hashes ledger now (.claimReview jobId owner source leaseSeconds frozen) ⟨job, checkpoints⟩
        ⟨(job.noteTakeover now).failReview now, checkpoints⟩
  | renewReview {jobId owner : String} {leaseSeconds : Int} {job : SessionDistillJob}
      {checkpoints : List DistillChunkCheckpoint} (mine : job.id = jobId) (reviewing : job.status = .reviewing)
      (owned : job.reviewLeaseOwner = some owner) (live : job.reviewLeaseUnexpired now)
      (granted : (ledger.renewReviewLease jobId owner leaseSeconds now).1) :
      JobStep hashes ledger now (.renewReviewLease jobId owner leaseSeconds) ⟨job, checkpoints⟩
        ⟨job.renewReview now (reviewLeaseEnd now leaseSeconds), checkpoints⟩
  | releaseReview {jobId owner : String} {job : SessionDistillJob} {checkpoints : List DistillChunkCheckpoint}
      (mine : job.id = jobId) (owned : job.reviewLeaseOwner = some owner)
      (granted : (ledger.releaseReviewLease jobId owner now).1) :
      JobStep hashes ledger now (.releaseReviewLease jobId owner) ⟨job, checkpoints⟩ ⟨job.releaseReview now, checkpoints⟩
  | staleAtFinalize {jobId : String} {review : Dict} {outputs : List String} {owner : Option String}
      {job : SessionDistillJob} {checkpoints : List DistillChunkCheckpoint} (mine : job.id = jobId)
      (unfinished : job.status ≠ .completed) (admitted : job.finalizeRefusal now owner = none)
      (returned : ∃ result, ledger.finalize hashes jobId review outputs owner now = .ok result) :
      JobStep hashes ledger now (.finalize jobId review outputs owner) ⟨job, checkpoints⟩
        ⟨job.staleAtFinalize now, checkpoints⟩
  | finalize {jobId text : String} {review : Dict} {outputs : List String}
      {owner : Option String} {job : SessionDistillJob} {checkpoints : List DistillChunkCheckpoint}
      (viewed : ledger.view jobId = some ⟨job, checkpoints⟩) (unfinished : job.status ≠ .completed)
      (admitted : job.finalizeRefusal now owner = none)
      (current : ∃ source, ledger.getSource job.sourceId = some source ∧
        source.sourceRevision = job.sourceRevision)
      (complete : completedOf checkpoints = job.expectedChunkCount)
      (read : ledger.reconstruct hashes job.sourceId job.sourceRevision = .ok text)
      (returned : ∃ result, ledger.finalize hashes jobId review outputs owner now = .ok result) :
      JobStep hashes ledger now (.finalize jobId review outputs owner) ⟨job, checkpoints⟩
        ⟨job.finalized now hashes review outputs text (completedOf checkpoints), checkpoints⟩
  | defer {jobId error : String} {job : SessionDistillJob} {checkpoints : List DistillChunkCheckpoint}
      (mine : job.id = jobId) (open_ : job.status.terminal = false)
      (returned : ∃ result, ledger.deferJob jobId error now = .ok result) :
      JobStep hashes ledger now (.deferJob jobId error) ⟨job, checkpoints⟩
        ⟨job.deferred now error, checkpoints.map fun checkpoint =>
          if checkpoint.status = .processing then checkpoint.giveBack now (sliceTo 512 error) else checkpoint⟩
  | prune {jobId receiptId : String} {job : SessionDistillJob} {checkpoints : List DistillChunkCheckpoint} :
      JobStep hashes ledger now (.pruneCompletedDistillEvidence jobId receiptId) ⟨job, checkpoints⟩
        ⟨prunedJob receiptId now job, []⟩

abbrev JobSteps (hashes : Hashes) (ledger : Ledger) (now : Time) (op : LedgerOp) : JobView → JobView → Prop :=
  Relation.ReflTransGen (JobStep hashes ledger now op)

/-- The views `enqueue` starts a job in. -/
inductive Created (hashes : Hashes) (ledger : Ledger) (now : Time) : LedgerOp → JobView → Prop where
  | enqueue {scan : Scan QueueRow} {request : EnqueueRequest} {source : TranscriptSource}
      {chunks : List TranscriptChunk} (accepted : ledger.enqueueInput hashes request = .ok (source, chunks)) :
      Created hashes ledger now (.enqueue scan request)
        ⟨request.newJob hashes source chunks.length now,
          chunks.map (newCheckpoint (request.newJob hashes source chunks.length now).id now)⟩

/-! ### The identity of a job never changes -/

theorem JobStep.identity {hashes : Hashes} {ledger : Ledger} {now : Time} {op : LedgerOp} {before after : JobView}
    (step : JobStep hashes ledger now op before after) : after.job.identity = before.job.identity := by
  cases step with
  | annotate same => exact congrArg Standing.identity same
  | grantReview => simp only; split <;> rfl
  | completeChunk => simp only [SessionDistillJob.countChunks]; split <;> rfl
  | _ => rfl

theorem JobSteps.identity {hashes : Hashes} {ledger : Ledger} {now : Time} {op : LedgerOp} {before after : JobView}
    (steps : JobSteps hashes ledger now op before after) : after.job.identity = before.job.identity := by
  induction steps with
  | refl => rfl
  | tail _ step ih => exact step.identity.trans ih

end HarnessMem.Lifecycle
