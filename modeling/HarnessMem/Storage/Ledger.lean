import HarnessMem.Chunking.Chunker
import HarnessMem.Library.Table
import HarnessMem.Schemas.SessionDistill

/-! The tables of the transcript ledger, reading them, and the row writes the
store operations share. A call either commits a ledger or raises, and a call
that raises is rolled back: it has no ledger to return.
-/

set_option autoImplicit false

namespace HarnessMem.Storage

open Library TranscriptChunking

/-- A row of `transcript_source_revisions`: the columns and the JSON record beside them. -/
structure RevisionRow where
  sourceId : String
  sourceRevision : String
  rawSha256 : String
  normalizedSha256 : String
  rawSizeBytes : Nat
  normalizedSizeBytes : Nat
  rawBytes : List UInt8
  capturedAt : Time
  data : TranscriptSourceRevision

def RevisionRow.key (row : RevisionRow) : String × String := (row.sourceId, row.sourceRevision)

structure SemanticProjection where
  sourceId : String
  sourceRevision : String
  recordVersion : String
  projectionSha256 : String
  updatedAt : Time
  data : Dict

def SemanticProjection.key (row : SemanticProjection) : String × String × String :=
  (row.sourceId, row.sourceRevision, row.recordVersion)

structure DeletionAudit where
  id : String
  projectName : String
  deletedAt : Json
  reason : String
  data : Dict

structure Ledger where
  sources : Table TranscriptSource.id
  revisions : Table RevisionRow.key
  chunks : Table TranscriptChunk.id
  projections : Table SemanticProjection.key
  jobs : Table SessionDistillJob.id
  checkpoints : Table DistillChunkCheckpoint.key
  deletionAudit : Table DeletionAudit.id

namespace Ledger

def empty : Ledger :=
  ⟨.empty, .empty, .empty, .empty, .empty, .empty, .empty⟩

/-! ### Reading -/

def getSource (ledger : Ledger) (sourceId : String) : Option TranscriptSource :=
  ledger.sources.get? sourceId

def getRevision (ledger : Ledger) (sourceId sourceRevision : String) : Option RevisionRow :=
  ledger.revisions.get? (sourceId, sourceRevision)

def chunksOf (ledger : Ledger) (sourceId sourceRevision : String) : List TranscriptChunk :=
  ledger.chunks.rows.filter fun chunk => chunk.sourceId = sourceId ∧ chunk.sourceRevision = sourceRevision

def listChunks (ledger : Ledger) (sourceId sourceRevision : String) : List TranscriptChunk :=
  inOrder (ledger.chunksOf sourceId sourceRevision)

def getJob (ledger : Ledger) (jobId : String) : Option SessionDistillJob := ledger.jobs.get? jobId

def checkpointsOf (ledger : Ledger) (jobId : String) : List DistillChunkCheckpoint :=
  ledger.checkpoints.rows.filter fun checkpoint => checkpoint.jobId = jobId

def listCheckpoints (ledger : Ledger) (jobId : String) : List DistillChunkCheckpoint :=
  (ledger.checkpointsOf jobId).insertionSort fun first second => first.chunkIndex ≤ second.chunkIndex

/-- `reconstruct` for a given revision identifier. -/
def reconstruct (hashes : Hashes) (ledger : Ledger) (sourceId sourceRevision : String) :
    Except StoreError String :=
  match ledger.getRevision sourceId sourceRevision with
  | none => .error (.keyError (sourceId ++ "@" ++ sourceRevision))
  | some revision =>
    let chunks := ledger.listChunks sourceId sourceRevision
    if chunks = [] ∧ revision.data.normalizedSizeBytes = 0 then .ok ""
    else reconstructTranscript hashes chunks (some revision.data.normalizedSha256)

/-- `reconstruct_raw` for a given revision identifier. -/
def reconstructRaw (hashes : Hashes) (ledger : Ledger) (sourceId sourceRevision : String) :
    Except StoreError (List UInt8) :=
  match ledger.getRevision sourceId sourceRevision with
  | none => .error (.keyError (sourceId ++ "@" ++ sourceRevision))
  | some revision =>
    if hashes.sha256Bytes revision.rawBytes ≠ revision.rawSha256 then
      .error (.valueError "stored transcript source bytes failed hash validation")
    else .ok revision.rawBytes

/-! ### Row writes -/

/-- `_upsert_job_locked` for a job the transaction has read: the conflict branch is taken. -/
def setJob (ledger : Ledger) (job : SessionDistillJob) : Ledger :=
  { ledger with jobs := ledger.jobs.upsert job }

/-- `_upsert_checkpoint_locked` over the checkpoints of one job that the transaction has read. -/
def updateCheckpoints (ledger : Ledger) (jobId : String)
    (change : DistillChunkCheckpoint → DistillChunkCheckpoint)
    (same : ∀ checkpoint, (change checkpoint).key = checkpoint.key) : Ledger :=
  { ledger with
    checkpoints := ledger.checkpoints.mapRows
      (fun checkpoint => if checkpoint.jobId = jobId then change checkpoint else checkpoint)
      fun checkpoint => by split <;> simp [same] }

/-- `_upsert_source_locked`; the UNIQUE group may reject a row of another source. -/
def upsertSourceLocked (ledger : Ledger) (source : TranscriptSource) : Except StoreError Ledger :=
  if ledger.sources.rows.any fun other => other.id ≠ source.id ∧ other.identity = source.identity then
    .error (.integrityError "UNIQUE transcript_sources(project_name, client, session_id, source_uri)")
  else .ok { ledger with sources := ledger.sources.upsert source }

/-! ### One job with its checkpoints -/

end Ledger

structure JobView where
  job : SessionDistillJob
  checkpoints : List DistillChunkCheckpoint

namespace Ledger

def view (ledger : Ledger) (jobId : String) : Option JobView :=
  (ledger.getJob jobId).map fun job => ⟨job, ledger.checkpointsOf jobId⟩

variable {ledger : Ledger} {jobId : String}

theorem view_eq_some {view : JobView} :
    ledger.view jobId = some view ↔
      ledger.getJob jobId = some view.job ∧ ledger.checkpointsOf jobId = view.checkpoints := by
  cases view with | mk job checkpoints =>
    simp [Ledger.view]

variable {job : SessionDistillJob}

theorem view_of_getJob (found : ledger.getJob jobId = some job) :
    ledger.view jobId = some ⟨job, ledger.checkpointsOf jobId⟩ := by
  simp [Ledger.view, found]

theorem view_eq_none :
    ledger.view jobId = none ↔ ledger.getJob jobId = none := by
  simp [Ledger.view]

theorem id_of_getJob (found : ledger.getJob jobId = some job) : job.id = jobId :=
  Table.key_of_get? found

theorem jobId_of_checkpointsOf {checkpoint : DistillChunkCheckpoint}
    (member : checkpoint ∈ ledger.checkpointsOf jobId) : checkpoint.jobId = jobId := by
  simpa using (List.mem_filter.mp member).2

theorem mem_listCheckpoints {checkpoint : DistillChunkCheckpoint} :
    checkpoint ∈ ledger.listCheckpoints jobId ↔ checkpoint ∈ ledger.checkpointsOf jobId :=
  (List.perm_insertionSort _ _).mem_iff

theorem getJob_setJob (ledger : Ledger) (job : SessionDistillJob) (jobId : String) :
    (ledger.setJob job).getJob jobId = if job.id = jobId then some job else ledger.getJob jobId :=
  Table.get?_upsert _ _ _

@[simp] theorem checkpointsOf_setJob (ledger : Ledger) (job : SessionDistillJob) (jobId : String) :
    (ledger.setJob job).checkpointsOf jobId = ledger.checkpointsOf jobId := rfl

@[simp] theorem getJob_updateCheckpoints (ledger : Ledger) (owner : String)
    (change : DistillChunkCheckpoint → DistillChunkCheckpoint)
    (same : ∀ checkpoint, (change checkpoint).key = checkpoint.key) (jobId : String) :
    (ledger.updateCheckpoints owner change same).getJob jobId = ledger.getJob jobId := rfl

theorem checkpointsOf_updateCheckpoints (ledger : Ledger) (owner : String)
    (change : DistillChunkCheckpoint → DistillChunkCheckpoint)
    (same : ∀ checkpoint, (change checkpoint).key = checkpoint.key) (jobId : String) :
    (ledger.updateCheckpoints owner change same).checkpointsOf jobId =
      if jobId = owner then (ledger.checkpointsOf jobId).map change else ledger.checkpointsOf jobId := by
  have jobs : ∀ checkpoint, (change checkpoint).jobId = checkpoint.jobId := fun checkpoint =>
    congrArg Prod.fst (same checkpoint)
  have pointwise : ∀ checkpoint : DistillChunkCheckpoint,
      (if checkpoint.jobId = owner then change checkpoint else checkpoint).jobId = checkpoint.jobId := by
    intro checkpoint
    split
    · exact jobs checkpoint
    · rfl
  simp only [checkpointsOf, updateCheckpoints, Table.rows_mapRows, List.filter_map, Function.comp_def,
    pointwise]
  split
  · next here =>
    subst here
    apply List.map_congr_left
    intro checkpoint member
    have mine : checkpoint.jobId = jobId := by simpa using (List.mem_filter.mp member).2
    rw [if_pos mine]
  · next elsewhere =>
    conv_rhs => rw [← List.map_id (ledger.checkpoints.rows.filter _)]
    apply List.map_congr_left
    intro checkpoint member
    have mine : checkpoint.jobId = jobId := by simpa using (List.mem_filter.mp member).2
    rw [if_neg fun other => elsewhere (mine.symm.trans other), id]

theorem view_setJob_self :
    (ledger.setJob job).view job.id = some ⟨job, ledger.checkpointsOf job.id⟩ := by
  simp [view, getJob_setJob]

theorem view_setJob_other (other : job.id ≠ jobId) : (ledger.setJob job).view jobId = ledger.view jobId := by
  simp [view, getJob_setJob, other]

theorem view_updateCheckpoints_other {owner : String}
    {change : DistillChunkCheckpoint → DistillChunkCheckpoint}
    {same : ∀ checkpoint, (change checkpoint).key = checkpoint.key} (other : owner ≠ jobId) :
    (ledger.updateCheckpoints owner change same).view jobId = ledger.view jobId := by
  simp [view, checkpointsOf_updateCheckpoints, Ne.symm other]

end Ledger

end HarnessMem.Storage
