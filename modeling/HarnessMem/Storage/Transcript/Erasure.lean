import HarnessMem.Storage.Ledger

/-! Removing evidence: the redaction of a processed source, the hard delete of
selected revisions, and their durable receipts.
-/

set_option autoImplicit false

namespace HarnessMem.Storage

open Library

/-! ### Processed sources -/

structure PruneCounts where
  revisionsPruned : Nat
  rawBytesPruned : Nat
  chunksDeleted : Nat
  checkpointsDeleted : Nat
  semanticProjectionsDeleted : Nat
  completedJobsRetained : Nat
  deriving DecidableEq, Repr

def prunedMetadata (receiptId : String) : Dict :=
  [("evidence_state", .str "source_pruned"), ("cleanup_receipt_id", .str receiptId)]

def prunedRevision (hashes : Hashes) (receiptId : String) (row : RevisionRow) : RevisionRow :=
  { row with
    rawSha256 := hashes.sha256Bytes []
    normalizedSha256 := hashes.sha256Bytes []
    rawSizeBytes := 0
    normalizedSizeBytes := 0
    rawBytes := []
    data := { row.data with
      projectRoot := ""
      sessionId := ""
      sourceUri := ""
      rawSha256 := hashes.sha256Bytes []
      normalizedSha256 := hashes.sha256Bytes []
      rawSizeBytes := 0
      normalizedSizeBytes := 0
      mtimeNs := none
      chunkCount := 0
      sequenceCount := 0
      metadata := prunedMetadata receiptId } }

def pruneRow (hashes : Hashes) (receiptId sourceId : String) (row : RevisionRow) : RevisionRow :=
  if row.sourceId = sourceId then prunedRevision hashes receiptId row else row

theorem key_pruneRow (hashes : Hashes) (receiptId sourceId : String) (row : RevisionRow) :
    (pruneRow hashes receiptId sourceId row).key = row.key := by
  unfold pruneRow
  split <;> rfl

def prunedSource (hashes : Hashes) (receiptId : String) (source : TranscriptSource) : TranscriptSource :=
  { source with
    projectRoot := ""
    sessionId := ""
    sourceUri := "processed-source://" ++ source.id
    rawSha256 := hashes.sha256Bytes []
    normalizedSha256 := hashes.sha256Bytes []
    rawSizeBytes := 0
    normalizedSizeBytes := 0
    mtimeNs := none
    status := .missing
    coverage := .complete
    chunkCount := 0
    sequenceCount := 0
    error := none
    metadata := prunedMetadata receiptId }

/-- `sanitized_review`: the verdicts and the compact summary stay, the evidence goes. -/
def sanitizedReview (review : Dict) : Dict :=
  let verdicts : Dict := [
    ("last_turn_status", (review.get? "last_turn_status").getD (.str "unknown")),
    ("evidence_status", (review.get? "evidence_status").getD (.str "not_applicable")),
    ("promotion_decision", (review.get? "promotion_decision").getD (.str "no_promotion")),
    ("contradiction_count", .num (review.count "contradictions")),
    ("unfinished_work_count", .num (review.count "unfinished_work")),
    ("evidence_state", .str "source_pruned")]
  let summary := stripped (review.text "session_summary")
  if 12 ≤ summary.length then verdicts.set "session_summary" (.str (sliceTo 2000 summary))
  else if review.text "historical_summary_status" = "unavailable" ∧ review.text "historical_summary_reason" ≠ "" then
    (verdicts.set "historical_summary_status" (.str "unavailable")).set "historical_summary_reason"
      (.str (sliceTo 160 (review.text "historical_summary_reason")))
  else verdicts

def prunedJob (receiptId : String) (now : Time) (job : SessionDistillJob) : SessionDistillJob :=
  { job with
    projectRoot := ""
    sessionId := ""
    semanticReview := sanitizedReview job.semanticReview
    sourceCleanupStatus := some .deleted
    sourceCleanupReceiptId := some receiptId
    updatedAt := now }

namespace Ledger

def jobsOfSource (ledger : Ledger) (sourceId : String) : List SessionDistillJob :=
  ledger.jobs.rows.filter fun job => job.sourceId = sourceId

def outsideSource (ledger : Ledger) (sourceId : String) (checkpoint : DistillChunkCheckpoint) : Bool :=
  !(ledger.jobsOfSource sourceId).any fun job => job.id = checkpoint.jobId

def pruneCompletedDistillEvidence (hashes : Hashes) (ledger : Ledger) (jobId receiptId : String) (now : Time) :
    Except StoreError (PruneCounts × Ledger) :=
  match ledger.getJob jobId with
  | none => .error (.keyError jobId)
  | some job =>
    if job.status ≠ .completed then
      .error (.valueError "processed-source cleanup requires a completed distill job")
    else
      let revisions := ledger.revisions.rows.filter fun row => row.sourceId = job.sourceId
      if revisions.isEmpty then .error (.valueError "distill source revision no longer exists")
      else
        match ledger.getSource job.sourceId with
        | none => .error (.valueError "distill source no longer exists")
        | some source =>
          let chunks := ledger.chunks.rows.filter fun chunk => chunk.sourceId = job.sourceId
          let kept := ledger.checkpoints.filter (ledger.outsideSource job.sourceId)
          -- the checkpoints of the source's own jobs are gone before the chunks go
          if kept.rows.any fun checkpoint => chunks.any fun chunk => chunk.id = checkpoint.chunkId then
            .error (.integrityError "FOREIGN KEY distill_job_chunks(chunk_id)")
          else if source.sourceRevision ≠ job.sourceRevision then
            .error (.valueError "transcript source changed before processed-source cleanup")
          else
            let cleared := { ledger with
              checkpoints := kept
              chunks := ledger.chunks.filter fun chunk => chunk.sourceId ≠ job.sourceId
              projections := ledger.projections.filter fun row => row.sourceId ≠ job.sourceId
              revisions := ledger.revisions.mapRows (pruneRow hashes receiptId job.sourceId)
                (key_pruneRow hashes receiptId job.sourceId) }
            match cleared.upsertSourceLocked (prunedSource hashes receiptId source) with
            | .error failure => .error failure
            | .ok pointed =>
              .ok ({
                revisionsPruned := revisions.length
                rawBytesPruned := (revisions.map (·.rawBytes.length)).sum
                chunksDeleted := chunks.length
                checkpointsDeleted := ledger.checkpoints.rows.length - kept.rows.length
                semanticProjectionsDeleted :=
                  ledger.projections.rows.countP fun row => row.sourceId = job.sourceId
                completedJobsRetained :=
                  (ledger.jobsOfSource job.sourceId).countP fun other => other.status = .completed },
                { pointed with
                  jobs := pointed.jobs.mapRows
                    (fun other => if other.sourceId = job.sourceId then prunedJob receiptId now other else other)
                    fun other => by split <;> rfl })

end Ledger

/-! ### Hard delete -/

structure HardDelete where
  revisionKeys : List (String × String)
  projectName : String
  reason : String
  auditCounts : Dict := []
  receipt : Dict := []

structure DeletionCounts where
  revisions : Nat := 0
  chunks : Nat := 0
  distillJobs : Nat := 0
  semanticProjections : Nat := 0
  deriving DecidableEq, Repr

def DeletionCounts.add (first second : DeletionCounts) : DeletionCounts where
  revisions := first.revisions + second.revisions
  chunks := first.chunks + second.chunks
  distillJobs := first.distillJobs + second.distillJobs
  semanticProjections := first.semanticProjections + second.semanticProjections

def restoredSource (revision : TranscriptSourceRevision) (now : Time) (source : TranscriptSource) : TranscriptSource :=
  { source with
    sourceRevision := revision.sourceRevision
    rawSha256 := revision.rawSha256
    normalizedSha256 := revision.normalizedSha256
    rawSizeBytes := revision.rawSizeBytes
    normalizedSizeBytes := revision.normalizedSizeBytes
    chunkCount := revision.chunkCount
    sequenceCount := revision.sequenceCount
    mtimeNs := revision.mtimeNs
    parserVersion := revision.parserVersion
    updatedAt := now
    metadata := source.metadata.set "restored_after_hard_delete" (.str revision.sourceRevision) }

namespace Ledger

def jobsOfRevision (ledger : Ledger) (sourceId sourceRevision : String) : List SessionDistillJob :=
  ledger.jobs.rows.filter fun job => job.sourceId = sourceId ∧ job.sourceRevision = sourceRevision

def eraseRevision (ledger : Ledger) (sourceId sourceRevision : String) :
    Except StoreError (DeletionCounts × Ledger) :=
  let jobs := ledger.jobsOfRevision sourceId sourceRevision
  let chunks := ledger.chunksOf sourceId sourceRevision
  let kept := ledger.checkpoints.filter fun checkpoint => !(jobs.any fun job => job.id = checkpoint.jobId)
  if kept.rows.any fun checkpoint => chunks.any fun chunk => chunk.id = checkpoint.chunkId then
    .error (.integrityError "FOREIGN KEY distill_job_chunks(chunk_id)")
  else
    .ok ({
      revisions := ledger.revisions.rows.countP fun row => row.key = (sourceId, sourceRevision)
      chunks := chunks.length
      distillJobs := jobs.length
      semanticProjections := ledger.projections.rows.countP fun row =>
        row.sourceId = sourceId ∧ row.sourceRevision = sourceRevision },
      { ledger with
        jobs := ledger.jobs.filter fun job => !(decide (job.sourceId = sourceId ∧ job.sourceRevision = sourceRevision))
        checkpoints := kept
        revisions := ledger.revisions.filter fun row => row.key ≠ (sourceId, sourceRevision)
        chunks := ledger.chunks.filter fun chunk =>
          !(decide (chunk.sourceId = sourceId ∧ chunk.sourceRevision = sourceRevision))
        projections := ledger.projections.filter fun row =>
          !(decide (row.sourceId = sourceId ∧ row.sourceRevision = sourceRevision)) })

def eraseRevisions (ledger : Ledger) : List (String × String) → Except StoreError (DeletionCounts × Ledger)
  | [] => .ok ({}, ledger)
  | key :: rest =>
    match ledger.eraseRevision key.1 key.2 with
    | .error failure => .error failure
    | .ok (counts, erased) =>
      match erased.eraseRevisions rest with
      | .error failure => .error failure
      | .ok (more, final) => .ok (counts.add more, final)

def latestFirst (ledger : Ledger) (scan : Scan RevisionRow) (sourceId : String) : List RevisionRow :=
  (scan.order (ledger.revisions.rows.filter fun row => row.sourceId = sourceId)).insertionSort
    fun first second => second.capturedAt ≤ first.capturedAt

def latestRevision (ledger : Ledger) (scan : Scan RevisionRow) (sourceId : String) : Option RevisionRow :=
  (ledger.latestFirst scan sourceId).head?

theorem mem_latestFirst {ledger : Ledger} {scan : Scan RevisionRow} {sourceId : String} {row : RevisionRow} :
    row ∈ ledger.latestFirst scan sourceId ↔ row ∈ ledger.revisions.rows ∧ row.sourceId = sourceId := by
  unfold latestFirst
  rw [(List.perm_insertionSort _ _).mem_iff, scan.mem_order, List.mem_filter, decide_eq_true_eq]

theorem latestRevision_none {ledger : Ledger} {scan : Scan RevisionRow} {sourceId : String}
    (gone : ledger.latestRevision scan sourceId = none) : ∀ row ∈ ledger.revisions.rows, row.sourceId ≠ sourceId := by
  intro row member mine
  have listed : row ∈ ledger.latestFirst scan sourceId := mem_latestFirst.mpr ⟨member, mine⟩
  rw [List.head?_eq_none_iff.mp gone] at listed
  cases listed

theorem latestRevision_some {ledger : Ledger} {scan : Scan RevisionRow} {sourceId : String} {row : RevisionRow}
    (found : ledger.latestRevision scan sourceId = some row) :
    row ∈ ledger.revisions.rows ∧ row.sourceId = sourceId :=
  mem_latestFirst.mp (List.mem_of_head? found)

/-- One affected source after the deletes: dropped with its last revision, or pointed at the
latest one left. The answer counts dropped source rows. -/
def restoreSource (ledger : Ledger) (scan : Scan RevisionRow) (sourceId : String) (now : Time) :
    Except StoreError (Nat × Ledger) :=
  match ledger.latestRevision scan sourceId with
  | none =>
    .ok (ledger.sources.rows.countP fun source => source.id = sourceId,
      { ledger with sources := ledger.sources.filter fun source => source.id ≠ sourceId })
  | some row =>
    match ledger.getSource sourceId with
    | none => .ok (0, ledger)
    | some source =>
      match ledger.upsertSourceLocked (restoredSource row.data now source) with
      | .error failure => .error failure
      | .ok restored => .ok (0, restored)

def restoreSources (ledger : Ledger) (scan : Scan RevisionRow) (now : Time) :
    List String → Except StoreError (Nat × Ledger)
  | [] => .ok (0, ledger)
  | sourceId :: rest =>
    match ledger.restoreSource scan sourceId now with
    | .error failure => .error failure
    | .ok (dropped, restored) =>
      match restored.restoreSources scan now rest with
      | .error failure => .error failure
      | .ok (more, final) => .ok (dropped + more, final)

/-- INSERT OR REPLACE into `transcript_deletion_audit`. -/
def saveAudit (ledger : Ledger) (audit : DeletionAudit) : Ledger :=
  { ledger with deletionAudit := ledger.deletionAudit.upsert audit }

end Ledger

def HardDelete.audit (hashes : Hashes) (request : HardDelete) (keys : List (String × String))
    (counts : DeletionCounts) (sources : Nat) (freshId : String) (now : Time) : DeletionAudit :=
  let id := if request.receipt.isEmpty then freshId else (request.receipt.text? "id").getD "None"
  let summary : Dict := Dict.merge [
    ("revisions", .num counts.revisions),
    ("chunks", .num counts.chunks),
    ("distill_jobs", .num counts.distillJobs),
    ("semantic_projections", .num counts.semanticProjections),
    ("sources", .num sources)] request.auditCounts
  { id := id
    projectName := request.projectName
    deletedAt := .instant now
    reason := request.reason
    data := Dict.merge request.receipt [
      ("id", .str id),
      ("project_name", .str request.projectName),
      ("reason", .str request.reason),
      ("counts", .obj summary),
      ("target_digests", .arr (keys.map fun key => .str (hashes.sha256Text (key.1 ++ "@" ++ key.2)))),
      ("deleted_at", .instant now)] }

namespace Ledger

/-- `hard_delete_revisions`; `freshId` is the identifier `uuid4` would give. -/
def hardDeleteRevisions (hashes : Hashes) (ledger : Ledger) (scan : Scan RevisionRow) (request : HardDelete)
    (freshId : String) (now : Time) : Except StoreError (Dict × Ledger) :=
  let keys := request.revisionKeys.eraseDups
  match ledger.eraseRevisions keys with
  | .error failure => .error failure
  | .ok (counts, erased) =>
    match erased.restoreSources scan now (keys.map (·.1)).eraseDups with
    | .error failure => .error failure
    | .ok (sources, restored) =>
      let audit := request.audit hashes keys counts sources freshId now
      .ok (audit.data, restored.saveAudit audit)

/-! ### Receipts -/

def saveDeletionReceipt (ledger : Ledger) (receipt : Dict) (now : Time) : Except StoreError (Dict × Ledger) :=
  let id := receipt.text "id"
  let projectName := receipt.text "project_name"
  let reason := receipt.text "reason"
  if id = "" ∨ projectName = "" ∨ reason = "" then
    .error (.valueError "deletion receipt requires id, project_name, and reason")
  else
    let payload := ((receipt.set "id" (.str id)).set "project_name" (.str projectName)).set "reason" (.str reason)
    let deletedAt := ((receipt.get? "completed_at").or (receipt.get? "requested_at")).getD (.instant now)
    .ok (payload, ledger.saveAudit ⟨id, projectName, deletedAt, reason, payload⟩)

end Ledger

end HarnessMem.Storage
