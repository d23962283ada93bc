import HarnessMem.Storage.Ledger

/-! Leases, their expiry, and the recovery of jobs whose workers vanished. -/

set_option autoImplicit false

namespace HarnessMem

/-! ### Chunk leases -/

namespace DistillChunkCheckpoint

variable (checkpoint : DistillChunkCheckpoint) (now : Time)

def leaseExpired : Bool :=
  checkpoint.status = .processing && checkpoint.leaseUntil.any fun expiry => expiry ≤ now

def leaseLive : Bool :=
  checkpoint.status = .processing && checkpoint.leaseUntil.any fun expiry => now < expiry

def claimable : Bool := checkpoint.status = .pending || checkpoint.status = .retryable

def lease (owner : String) (expiry : Time) : DistillChunkCheckpoint :=
  { checkpoint with
    status := .processing
    attemptCount := checkpoint.attemptCount + 1
    leaseOwner := some owner
    leaseUntil := some expiry
    error := none
    updatedAt := now }

def complete (result : Dict) : DistillChunkCheckpoint :=
  { checkpoint with
    status := .completed
    result := result
    error := none
    leaseOwner := none
    leaseUntil := none
    completedAt := some now
    updatedAt := now }

def giveBack (error : String) : DistillChunkCheckpoint :=
  { checkpoint with
    status := .retryable
    leaseOwner := none
    leaseUntil := none
    error := some error
    updatedAt := now }

def exhaust : DistillChunkCheckpoint :=
  { checkpoint with
    status := .failed
    leaseOwner := none
    leaseUntil := none
    error := some "recovery budget exhausted"
    updatedAt := now }

def recoverExpired : DistillChunkCheckpoint :=
  if checkpoint.leaseExpired now then checkpoint.giveBack now "chunk lease expired during recovery"
  else checkpoint

def exhaustOpen : DistillChunkCheckpoint :=
  if checkpoint.status = .completed then checkpoint else checkpoint.exhaust now

theorem key_recoverExpired : (checkpoint.recoverExpired now).key = checkpoint.key := by
  unfold recoverExpired
  split <;> rfl

theorem key_exhaustOpen : (checkpoint.exhaustOpen now).key = checkpoint.key := by
  unfold exhaustOpen
  split <;> rfl

def recoverFailed : DistillChunkCheckpoint := (checkpoint.recoverExpired now).exhaustOpen now

theorem key_recoverFailed : (checkpoint.recoverFailed now).key = checkpoint.key :=
  (key_exhaustOpen _ now).trans (key_recoverExpired checkpoint now)

end DistillChunkCheckpoint

/-! ### Review leases and the recovery budget -/

namespace SessionDistillJob

variable (job : SessionDistillJob) (now : Time)

/-- `bool(job.review_lease_owner)`: an empty name counts as no owner. -/
def hasReviewOwner : Bool := job.reviewLeaseOwner.any fun owner => owner ≠ ""

def reviewLeaseUnexpired : Bool := job.reviewLeaseUntil.any fun expiry => now < expiry

def activeReviewLease : Bool := job.hasReviewOwner && job.reviewLeaseUnexpired now

/-- The lease that `reserve_manual` and `freeze_manual_selection` refuse to override. -/
def backgroundLease : Bool :=
  job.activeReviewLease now && job.reviewExecutionSource ≠ some "interactive_agent"

def waitsForRetry : Bool := job.retryAfter.any fun instant => now < instant

def recoveryExhausted : Bool := max 1 job.recoveryBudget ≤ (job.recoveryCount : Int)

end SessionDistillJob

/-- The delay after the `count`-th failure: five minutes, doubling up to six hours. -/
def backoff (count : Nat) : Time := seconds (min (6 * 3600) (300 * 2 ^ min (count - 1) 7))

theorem backoff_pos (count : Nat) : 0 < backoff count := by
  have power : 0 < 2 ^ min (count - 1) 7 := Nat.two_pow_pos _
  unfold backoff seconds
  exact Nat.mul_pos (Nat.lt_min.mpr ⟨by decide, Nat.mul_pos (by decide) power⟩) (by decide)

theorem any_later {now instant : Time} (later : now < instant) :
    ((some instant).any fun other => decide (now < other)) = true :=
  decide_eq_true later

theorem lt_add_backoff (now : Time) (count : Nat) : now < now + backoff count :=
  Nat.lt_add_of_pos_right (backoff_pos count)

namespace SessionDistillJob

variable (job : SessionDistillJob) (now : Time)

def noteRecovery (recoveryBudget : Option Int) (reason : String) : SessionDistillJob :=
  { job with
    recoveryCount := job.recoveryCount + 1
    recoveryBudget := recoveryBudget.elim job.recoveryBudget (max 1)
    recoveryReasonCodes := (job.recoveryReasonCodes ++ [reason]).eraseDups
    lastRecoveryAt := some now
    lastProgressAt := some now
    updatedAt := now }

def failRecovery : SessionDistillJob :=
  { job with
    status := .failed
    error := some "distill recovery budget exhausted"
    recoveryExhaustedAt := some now }

def retryLater : SessionDistillJob :=
  { job with status := .retryable, retryAfter := some (now + backoff job.recoveryCount) }

theorem waits_retryLater : (job.retryLater now).waitsForRetry now := by
  unfold waitsForRetry retryLater
  exact any_later (lt_add_backoff now _)

def advance (completedCount : Nat) : SessionDistillJob :=
  { job with
    status := .reviewing
    phase := if job.status = .reviewing then job.phase else .review
    completedChunkCount := completedCount
    lastProgressAt := some now
    updatedAt := now
    retryAfter := none }

end SessionDistillJob

namespace Storage.Ledger

open Library

/-- `_recover_expired_checkpoints_locked`; `none` is the answer `False`. The checkpoints the
callers pass are the ones the ledger holds for the job. -/
def recoverExpiredCheckpointsLocked (ledger : Ledger) (job : SessionDistillJob) (now : Time)
    (recoveryBudget : Option Int) : Option (SessionDistillJob × Ledger) :=
  if (ledger.checkpointsOf job.id).any fun checkpoint => checkpoint.leaseExpired now then
    let noted := job.noteRecovery now recoveryBudget "expired_chunk_lease"
    if noted.recoveryExhausted then
      let failed := { noted.failRecovery now with retryAfter := none }
      some (failed,
        (ledger.updateCheckpoints job.id (·.recoverFailed now) (·.key_recoverFailed now)).setJob failed)
    else
      let retryable := noted.retryLater now
      some (retryable,
        (ledger.updateCheckpoints job.id (·.recoverExpired now) (·.key_recoverExpired now)).setJob retryable)
  else none

/-! ### Reconciliation -/

structure ReconcileSummary where
  inspected : Nat := 0
  recovered : Nat := 0
  advancedToReview : Nat := 0
  failedRecoveryBudget : Nat := 0
  deriving DecidableEq, Repr

def ReconcileSummary.add (first second : ReconcileSummary) : ReconcileSummary where
  inspected := first.inspected + second.inspected
  recovered := first.recovered + second.recovered
  advancedToReview := first.advancedToReview + second.advancedToReview
  failedRecoveryBudget := first.failedRecoveryBudget + second.failedRecoveryBudget

/-- The part of the loop of `reconcile` after the expired leases were taken back. `expired` says
whether there were any. -/
def settleJob (ledger : Ledger) (job : SessionDistillJob) (expired : Bool) (current : Time)
    (recoveryBudget : Option Int) : ReconcileSummary × Ledger :=
  let checkpoints := ledger.checkpointsOf job.id
  let completedCount := checkpoints.countP fun checkpoint => checkpoint.status = .completed
  if job.status.terminal then ({}, ledger)
  else if completedCount = job.expectedChunkCount ∧ 0 < job.expectedChunkCount then
    -- a failed review waits out its backoff although every chunk is complete
    if job.status = .retryable ∧ job.waitsForRetry current then ({}, ledger)
    else
      ({ advancedToReview := if job.status = .reviewing then 0 else 1 },
        ledger.setJob (job.advance current completedCount))
  else if job.status = .processing then
    let active := checkpoints.any fun checkpoint => checkpoint.leaseLive current
    let pending := checkpoints.any fun checkpoint => checkpoint.claimable
    if !active && pending && !expired then
      let noted := job.noteRecovery current recoveryBudget "processing_without_active_lease"
      if noted.recoveryExhausted then
        ({ recovered := 1, failedRecoveryBudget := 1 },
          (ledger.updateCheckpoints job.id (·.exhaustOpen current) (·.key_exhaustOpen current)).setJob
            (noted.failRecovery current))
      else ({ recovered := 1 }, ledger.setJob (noted.retryLater current))
    else ({}, ledger)
  else ({}, ledger)

/-- One turn of the loop of `reconcile`. -/
def reconcileJob (ledger : Ledger) (job : SessionDistillJob) (current : Time)
    (recoveryBudget : Option Int) : ReconcileSummary × Ledger :=
  if job.status.terminal then ({ inspected := 1 }, ledger)
  else
    match ledger.recoverExpiredCheckpointsLocked job current recoveryBudget with
    | none =>
      let (summary, settled) := ledger.settleJob job false current recoveryBudget
      (ReconcileSummary.add { inspected := 1 } summary, settled)
    | some (recovered, taken) =>
      let expired := (ledger.checkpointsOf job.id).countP fun checkpoint => checkpoint.leaseExpired current
      let (summary, settled) := taken.settleJob recovered true current recoveryBudget
      (ReconcileSummary.add
        { inspected := 1, recovered := expired,
          failedRecoveryBudget := if recovered.status = .failed then 1 else 0 } summary, settled)

/-- The jobs one call of `reconcile` looks at. -/
def reconciled (projectName : Option String) (manualJobIds jobIds : Option (List String))
    (job : SessionDistillJob) : Bool :=
  projectName.all (· = job.projectName) && jobIds.all (job.id ∈ ·) &&
    manualJobIds.all fun manual => !(job.manualOnly || job.id ∈ manual)

def reconcile (ledger : Ledger) (projectName : Option String) (recoveryBudget : Option Int)
    (manualJobIds jobIds : Option (List String)) (current : Time) : ReconcileSummary × Ledger :=
  (ledger.jobs.rows.filter (reconciled projectName manualJobIds jobIds)).foldl
    (fun (summary, ledger) job =>
      let (turn, next) := ledger.reconcileJob job current recoveryBudget
      (summary.add turn, next))
    ({}, ledger)

end Storage.Ledger

end HarnessMem

/-! Reading the chunks of a job: claims under a lease, results, and deferral. -/

namespace HarnessMem

namespace SessionDistillJob

variable (job : SessionDistillJob) (now : Time)

def startChunks : SessionDistillJob :=
  { job with
    status := .processing
    phase := .chunks
    attemptCount := job.attemptCount + 1
    retryAfter := none
    lastProgressAt := some now
    updatedAt := now }

def countChunks (count : Nat) : SessionDistillJob :=
  let counted := { job with completedChunkCount := count, lastProgressAt := some now, updatedAt := now }
  if count = job.expectedChunkCount then { counted with status := .reviewing, phase := .review } else counted

def deferred (error : String) : SessionDistillJob :=
  { job with
    status := .retryable
    error := some (Library.sliceTo 512 error)
    reviewLeaseOwner := none
    reviewLeaseUntil := none
    retryAfter := some (now + backoff (max 1 job.attemptCount))
    lastProgressAt := some now
    updatedAt := now }

end SessionDistillJob

namespace Storage

open Library

/-- `_manual_job_check`: the job's own flag first, then what the frozen manual batches say at
this moment. Their files lie outside the ledger, so their answer is an input. -/
def manualJobCheck (job : SessionDistillJob) (frozen : Except StoreError Bool) : Except StoreError Bool :=
  if job.manualOnly then .ok true else frozen

def refusesBackground (job : SessionDistillJob) (executionSource : String)
    (frozen : Except StoreError Bool) : Except StoreError Bool :=
  if executionSource = "interactive_agent" then .ok false else manualJobCheck job frozen

namespace Ledger

/-- `eligible` of `claim_chunks`, cut to the limit. -/
def selectChunks (ledger : Ledger) (jobId : String) (limit : Option Int) : List DistillChunkCheckpoint :=
  let eligible := (ledger.listCheckpoints jobId).filter fun checkpoint => checkpoint.claimable
  limit.elim eligible fun count => eligible.take (max 1 count).toNat

/-- The write of `claim_chunks` for the selected checkpoints. -/
def leaseChunks (ledger : Ledger) (jobId : String) (selected : List String) (owner : String)
    (expiry now : Time) : Ledger :=
  ledger.updateCheckpoints jobId
    (fun checkpoint => if checkpoint.chunkId ∈ selected then checkpoint.lease now owner expiry else checkpoint)
    fun checkpoint => by split <;> rfl

def claimedRows (ledger : Ledger) (owner : String) (expiry now : Time) :
    List DistillChunkCheckpoint → Except StoreError (List (TranscriptChunk × DistillChunkCheckpoint))
  | [] => .ok []
  | checkpoint :: rest =>
    match ledger.chunks.get? checkpoint.chunkId with
    | none => .error (.valueError ("distill input chunk is missing: " ++ checkpoint.chunkId))
    | some chunk =>
      match ledger.claimedRows owner expiry now rest with
      | .error failure => .error failure
      | .ok claimed => .ok ((chunk, checkpoint.lease now owner expiry) :: claimed)

def claimChunks (ledger : Ledger) (jobId leaseOwner : String) (limit : Option Int) (leaseSeconds : Int)
    (executionSource : String) (frozen : Except StoreError Bool) (now : Time) :
    Except StoreError (List (TranscriptChunk × DistillChunkCheckpoint) × Ledger) :=
  if !hasVisible leaseOwner then .error (.valueError "lease_owner is required")
  else
    let leaseUntil := now + seconds (max 1 leaseSeconds).toNat
    match ledger.getJob jobId with
    | none => .error (.keyError jobId)
    | some job =>
      match refusesBackground job executionSource frozen with
      | .error failure => .error failure
      | .ok true => .ok ([], ledger)
      | .ok false =>
        if job.status.terminal || job.status = .parked then .ok ([], ledger)
        else
          match ledger.recoverExpiredCheckpointsLocked job now none with
          | some (_, recovered) => .ok ([], recovered)
          | none =>
            if job.waitsForRetry now then .ok ([], ledger)
            else
              let selected := ledger.selectChunks jobId limit
              match ledger.claimedRows leaseOwner leaseUntil now selected with
              | .error failure => .error failure
              | .ok [] => .ok ([], ledger)
              | .ok (first :: claimed) =>
                .ok (first :: claimed,
                  (ledger.leaseChunks jobId (selected.map (·.chunkId)) leaseOwner leaseUntil now).setJob
                    (job.startChunks now))

/-- The write of `checkpoint_chunk` to the checkpoint row. -/
def completeChunk (ledger : Ledger) (jobId chunkId : String) (result : Dict) (now : Time) : Ledger :=
  ledger.updateCheckpoints jobId
    (fun checkpoint => if checkpoint.chunkId = chunkId then checkpoint.complete now result else checkpoint)
    fun checkpoint => by split <;> rfl

def completedCount (ledger : Ledger) (jobId : String) : Nat :=
  (ledger.checkpointsOf jobId).countP fun checkpoint => checkpoint.status = .completed

def checkpointChunk (ledger : Ledger) (jobId chunkId leaseOwner : String) (result : Dict) (now : Time) :
    Except StoreError (SessionDistillJob × Ledger) :=
  match ledger.getJob jobId with
  | none => .error (.keyError jobId)
  | some job =>
    match ledger.checkpoints.get? (jobId, chunkId) with
    | none => .error (.keyError (jobId ++ ":" ++ chunkId))
    | some checkpoint =>
      if checkpoint.status = .completed then .ok (job, ledger)
      else if checkpoint.status ≠ .processing ∨ checkpoint.leaseOwner ≠ some leaseOwner then
        .error (.permissionError "distill chunk lease is not owned by this caller")
      else if checkpoint.leaseUntil.all fun expiry => expiry < now then
        .error (.timeoutError "distill chunk lease has expired")
      else
        let written := ledger.completeChunk jobId chunkId result now
        let updated := job.countChunks now (written.completedCount jobId)
        .ok (updated, written.setJob updated)

/-- `defer`: open leases are given back and the job waits behind healthy work. -/
def deferJob (ledger : Ledger) (jobId error : String) (now : Time) :
    Except StoreError (SessionDistillJob × Ledger) :=
  match ledger.getJob jobId with
  | none => .error (.keyError jobId)
  | some job =>
    if job.status.terminal then .ok (job, ledger)
    else
      let released := ledger.updateCheckpoints jobId
        (fun checkpoint =>
          if checkpoint.status = .processing then checkpoint.giveBack now (sliceTo 512 error) else checkpoint)
        fun checkpoint => by split <;> rfl
      let deferred := job.deferred now error
      .ok (deferred, released.setJob deferred)

end Ledger

end Storage

end HarnessMem
