import HarnessMem.Storage.Distill.Recovery

/-! The review phase of a job: its lease, finalization, and the receipts written
on a completed job.
-/

set_option autoImplicit false

namespace HarnessMem

namespace SessionDistillJob

variable (job : SessionDistillJob) (now : Time)

def ownedByOther (leaseOwner : String) : Bool := job.hasReviewOwner && job.reviewLeaseOwner ≠ some leaseOwner

def noteTakeover : SessionDistillJob :=
  { job with
    recoveryCount := job.recoveryCount + 1
    recoveryReasonCodes := (job.recoveryReasonCodes ++ ["expired_review_lease"]).eraseDups
    lastRecoveryAt := some now }

def failReview : SessionDistillJob :=
  { job with
    status := .failed
    error := some "distill review recovery budget exhausted"
    recoveryExhaustedAt := some now
    reviewLeaseOwner := none
    reviewLeaseUntil := none
    updatedAt := now }

def grantReview (leaseOwner executionSource : String) (leaseUntil : Time) : SessionDistillJob :=
  { job with
    reviewLeaseOwner := some leaseOwner
    reviewLeaseUntil := some leaseUntil
    reviewAttemptCount := job.reviewAttemptCount + 1
    reviewExecutionSource := some (Library.sliceTo 80 executionSource)
    lastReviewHeartbeatAt := some now
    lastProgressAt := some now
    updatedAt := now }

def renewReview (leaseUntil : Time) : SessionDistillJob :=
  { job with
    reviewLeaseUntil := some leaseUntil
    lastReviewHeartbeatAt := some now
    lastProgressAt := some now
    updatedAt := now }

def releaseReview : SessionDistillJob :=
  { job with
    reviewLeaseOwner := none
    reviewLeaseUntil := none
    lastReviewHeartbeatAt := some now
    updatedAt := now }

def staleAtFinalize : SessionDistillJob :=
  { job with
    status := .stale
    error := some "source revision changed before finalization"
    updatedAt := now }

/-- The job row `finalize` writes when everything is complete. -/
def finalized (hashes : Hashes) (review : Dict) (outputs : List String) (reconstructed : String)
    (completeCount : Nat) : SessionDistillJob :=
  { job with
    structuralAudit := [
      ("coverage", .str "complete"),
      ("expected_chunks", .num job.expectedChunkCount),
      ("completed_chunks", .num completeCount),
      ("normalized_sha256", .str (hashes.sha256Text reconstructed)),
      ("source_revision_current", .bool true)]
    semanticReview := review
    outputCandidateIds := outputs.eraseDups
    completedChunkCount := completeCount
    status := .completed
    phase := .done
    error := none
    reviewLeaseOwner := none
    reviewLeaseUntil := none
    completedAt := some now
    lastProgressAt := some now
    updatedAt := now }

/-- The lease checks of `finalize`: `none` lets the call pass. -/
def finalizeRefusal (reviewLeaseOwner : Option String) : Option StoreError :=
  if reviewLeaseOwner.isSome ∧ job.reviewLeaseOwner ≠ reviewLeaseOwner then
    some (.permissionError "distill review lease is not owned by this caller")
  else if reviewLeaseOwner.isSome ∧ !job.reviewLeaseUnexpired now then
    some (.timeoutError "distill review lease has expired")
  else if job.activeReviewLease now ∧ job.reviewLeaseOwner ≠ reviewLeaseOwner then
    some (.permissionError "distill review lease is not owned by this caller")
  else none

end SessionDistillJob

namespace Storage

open Library

/-- `now + timedelta(seconds=max(30, lease_seconds))`. -/
def reviewLeaseEnd (now : Time) (leaseSeconds : Int) : Time := now + seconds (max 30 leaseSeconds).toNat

namespace Ledger

/-- `claim_review`; the answer `None` is also given when the recovery budget runs out here. -/
def claimReview (ledger : Ledger) (jobId leaseOwner executionSource : String) (leaseSeconds : Int)
    (frozen : Except StoreError Bool) (now : Time) : Except StoreError (Option SessionDistillJob × Ledger) :=
  match ledger.getJob jobId with
  | none => .error (.keyError jobId)
  | some job =>
    match refusesBackground job executionSource frozen with
    | .error failure => .error failure
    | .ok true => .ok (none, ledger)
    | .ok false =>
      if job.status ≠ .reviewing then .ok (none, ledger)
      else if job.ownedByOther leaseOwner && job.reviewLeaseUnexpired now then .ok (none, ledger)
      else
        let taken := if job.ownedByOther leaseOwner then job.noteTakeover now else job
        if job.ownedByOther leaseOwner && taken.recoveryExhausted then
          .ok (none, ledger.setJob (taken.failReview now))
        else
          let claimed := taken.grantReview now leaseOwner executionSource (reviewLeaseEnd now leaseSeconds)
          .ok (some claimed, ledger.setJob claimed)

def renewReviewLease (ledger : Ledger) (jobId leaseOwner : String) (leaseSeconds : Int) (now : Time) :
    Bool × Ledger :=
  match ledger.getJob jobId with
  | none => (false, ledger)
  | some job =>
    if job.status ≠ .reviewing ∨ job.reviewLeaseOwner ≠ some leaseOwner ∨ !job.reviewLeaseUnexpired now then
      (false, ledger)
    else (true, ledger.setJob (job.renewReview now (reviewLeaseEnd now leaseSeconds)))

def releaseReviewLease (ledger : Ledger) (jobId leaseOwner : String) (now : Time) : Bool × Ledger :=
  match ledger.getJob jobId with
  | none => (false, ledger)
  | some job =>
    if job.reviewLeaseOwner ≠ some leaseOwner then (false, ledger)
    else (true, ledger.setJob (job.releaseReview now))

/-- `finalize` with a review that `SessionSemanticReview` accepted. Of the terminal statuses only
`completed` is looked at. -/
def finalize (hashes : Hashes) (ledger : Ledger) (jobId : String) (review : Dict) (outputs : List String)
    (reviewLeaseOwner : Option String) (now : Time) : Except StoreError (SessionDistillJob × Ledger) :=
  match ledger.getJob jobId with
  | none => .error (.keyError jobId)
  | some job =>
    if job.status = .completed then .ok (job, ledger)
    else
      match job.finalizeRefusal now reviewLeaseOwner with
      | some failure => .error failure
      | none =>
        match ledger.getSource job.sourceId with
        | none => .error (.valueError "distill source no longer exists")
        | some source =>
          if source.sourceRevision ≠ job.sourceRevision then
            .ok (job.staleAtFinalize now, ledger.setJob (job.staleAtFinalize now))
          else if ledger.completedCount jobId ≠ job.expectedChunkCount then
            .error (.valueError "not all distill chunks are complete")
          else
            match reconstruct hashes ledger job.sourceId job.sourceRevision with
            | .error failure => .error failure
            | .ok reconstructed =>
              let completed := job.finalized now hashes review outputs reconstructed (ledger.completedCount jobId)
              .ok (completed, ledger.setJob completed)

/-! ### Receipts on a completed job -/

def onCompleted (ledger : Ledger) (jobId refusal : String) (write : SessionDistillJob → SessionDistillJob) :
    Except StoreError (SessionDistillJob × Ledger) :=
  match ledger.getJob jobId with
  | none => .error (.keyError jobId)
  | some job =>
    if job.status ≠ .completed then .error (.valueError refusal)
    else .ok (write job, ledger.setJob (write job))

def recordCompletionOutcome (ledger : Ledger) (jobId : String)
    (disposition : Option CompletionDisposition) (reasonCodes : List String) (promotionSummary : Dict)
    (sourceCleanupStatus : SourceCleanupStatus) (sourceCleanupReceiptId : Option String) (now : Time) :
    Except StoreError (SessionDistillJob × Ledger) :=
  ledger.onCompleted jobId "completion outcome requires a completed distill job" fun job =>
    { job with
      completionDisposition := disposition
      completionReasonCodes := reasonCodes.eraseDups
      promotionSummary := promotionSummary
      sourceCleanupStatus := some sourceCleanupStatus
      sourceCleanupReceiptId := sourceCleanupReceiptId
      lastProgressAt := some now
      updatedAt := now }

def unrecoverableSessionSummary : String :=
  "The session topic could not be recovered from the available evidence."

def isMeaningfulSessionSummary (value : String) : Bool :=
  let summary := collapseSpaces value
  12 ≤ summary.length && summary ≠ unrecoverableSessionSummary

def backfillSessionSummary (ledger : Ledger) (jobId sessionSummary : String) (now : Time) :
    Except StoreError (SessionDistillJob × Ledger) :=
  let summary := sliceTo 2000 (stripped sessionSummary)
  if summary.length < 12 then .error (.valueError "session_summary must contain at least 12 characters")
  else
    ledger.onCompleted jobId "session summary backfill requires a completed job" fun job =>
      if isMeaningfulSessionSummary (stripped (job.semanticReview.text "session_summary")) then job
      else
        { job with
          semanticReview := ((job.semanticReview.pop "historical_summary_status").pop
            "historical_summary_reason").set "session_summary" (.str summary)
          updatedAt := now }

def markHistoricalSummaryUnavailable (ledger : Ledger) (jobId reason : String) (now : Time) :
    Except StoreError (SessionDistillJob × Ledger) :=
  let boundedReason := sliceTo 160 (stripped reason)
  if boundedReason = "" then .error (.valueError "historical summary unavailable reason is required")
  else
    ledger.onCompleted jobId "historical summary status requires a completed job" fun job =>
      if isMeaningfulSessionSummary (job.semanticReview.text "session_summary") then job
      else
        { job with
          semanticReview := (job.semanticReview.set "historical_summary_status" (.str "unavailable")).set
            "historical_summary_reason" (.str boundedReason)
          updatedAt := now }

end Ledger

end Storage

end HarnessMem
