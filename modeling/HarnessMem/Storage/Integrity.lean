import HarnessMem.Storage.Operations

/-! Referential integrity of the ledger. The queue calls rewrite job and
checkpoint rows in place, so they keep the shape of the ledger and with it every
reference; the calls that add or remove rows are treated one by one.
-/

set_option autoImplicit false

namespace HarnessMem

structure JobIdentity where
  id : String
  idempotencyKey : String
  projectName : String
  sourceId : String
  sourceRevision : String
  pipelineVersion : String
  expectedChunkCount : Nat
  createdAt : Time
  deriving DecidableEq

def SessionDistillJob.identity (job : SessionDistillJob) : JobIdentity where
  id := job.id
  idempotencyKey := job.idempotencyKey
  projectName := job.projectName
  sourceId := job.sourceId
  sourceRevision := job.sourceRevision
  pipelineVersion := job.pipelineVersion
  expectedChunkCount := job.expectedChunkCount
  createdAt := job.createdAt

namespace Storage

open Library

/-! ### Shape -/

/-- The two ledgers hold the same rows up to the fields that jobs and checkpoints change. -/
structure SameShape (before after : Ledger) : Prop where
  sources : after.sources = before.sources
  revisions : after.revisions = before.revisions
  chunks : after.chunks = before.chunks
  jobs : after.jobs.rows.map (·.identity) = before.jobs.rows.map (·.identity)
  checkpoints : after.checkpoints.rows.map (·.key) = before.checkpoints.rows.map (·.key)

namespace SameShape

theorem refl (ledger : Ledger) : SameShape ledger ledger := ⟨rfl, rfl, rfl, rfl, rfl⟩

theorem trans {first second third : Ledger} (left : SameShape first second) (right : SameShape second third) :
    SameShape first third where
  sources := right.sources.trans left.sources
  revisions := right.revisions.trans left.revisions
  chunks := right.chunks.trans left.chunks
  jobs := right.jobs.trans left.jobs
  checkpoints := right.checkpoints.trans left.checkpoints

variable {old : SessionDistillJob}

theorem setJob {ledger : Ledger} {job : SessionDistillJob} (found : ledger.getJob old.id = some old)
    (same : job.identity = old.identity) : SameShape ledger (ledger.setJob job) := by
  have id_eq : job.id = old.id := congrArg JobIdentity.id same
  refine ⟨rfl, rfl, rfl, ?_, rfl⟩
  refine Table.map_upsert_known _ ?_ same
  rw [id_eq]
  exact found

theorem updateCheckpoints (ledger : Ledger) (jobId : String)
    (change : DistillChunkCheckpoint → DistillChunkCheckpoint)
    (same : ∀ checkpoint, (change checkpoint).key = checkpoint.key) :
    SameShape ledger (ledger.updateCheckpoints jobId change same) := by
  refine ⟨rfl, rfl, rfl, rfl, ?_⟩
  rw [Ledger.updateCheckpoints, Table.rows_mapRows, List.map_map]
  apply List.map_congr_left
  intro checkpoint _
  rw [Function.comp_apply]
  split
  · exact same checkpoint
  · rfl

theorem mapJobs (ledger : Ledger) (change : SessionDistillJob → SessionDistillJob)
    (key : ∀ job, (change job).id = job.id)
    (same : ∀ job ∈ ledger.jobs.rows, (change job).identity = job.identity) :
    SameShape ledger { ledger with jobs := ledger.jobs.mapRows change key } := by
  refine ⟨rfl, rfl, rfl, ?_, rfl⟩
  rw [Table.rows_mapRows, List.map_map]
  exact List.map_congr_left same

variable {before after : Ledger} (shape : SameShape before after)

include shape

theorem exists_job {job : SessionDistillJob} (member : job ∈ after.jobs.rows) :
    ∃ old ∈ before.jobs.rows, old.identity = job.identity := by
  have listed : job.identity ∈ after.jobs.rows.map (·.identity) := List.mem_map_of_mem member
  rw [shape.jobs] at listed
  exact List.mem_map.mp listed

theorem exists_job_after (member : old ∈ before.jobs.rows) :
    ∃ job ∈ after.jobs.rows, job.identity = old.identity := by
  have listed : old.identity ∈ before.jobs.rows.map (·.identity) := List.mem_map_of_mem member
  rw [← shape.jobs] at listed
  exact List.mem_map.mp listed

theorem exists_checkpoint {checkpoint : DistillChunkCheckpoint} (member : checkpoint ∈ after.checkpoints.rows) :
    ∃ old ∈ before.checkpoints.rows, old.key = checkpoint.key := by
  have listed : checkpoint.key ∈ after.checkpoints.rows.map (·.key) := List.mem_map_of_mem member
  rw [shape.checkpoints] at listed
  exact List.mem_map.mp listed

theorem getSource (sourceId : String) : after.getSource sourceId = before.getSource sourceId := by
  rw [Ledger.getSource, shape.sources, Ledger.getSource]

theorem getRevision (sourceId sourceRevision : String) :
    after.getRevision sourceId sourceRevision = before.getRevision sourceId sourceRevision := by
  rw [Ledger.getRevision, shape.revisions, Ledger.getRevision]

theorem getJob_isSome (jobId : String) : (after.getJob jobId).isSome = (before.getJob jobId).isSome := by
  have ids : after.jobs.rows.map (·.id) = before.jobs.rows.map (·.id) := by
    have mapped := congrArg (List.map JobIdentity.id) shape.jobs
    rwa [List.map_map, List.map_map] at mapped
  rw [Bool.eq_iff_iff, Ledger.getJob, Ledger.getJob, Table.get?_isSome, Table.get?_isSome, ids]

theorem getJob_after {jobId : String} (found : before.getJob jobId = some old) :
    ∃ job, after.getJob jobId = some job ∧ job.identity = old.identity := by
  obtain ⟨job, member, same⟩ := shape.exists_job_after (Table.mem_of_get? found)
  have id_eq : job.id = old.id := congrArg JobIdentity.id same
  refine ⟨job, ?_, same⟩
  rw [← Ledger.id_of_getJob found, ← id_eq]
  exact Table.get?_of_mem member

end SameShape

/-! ### References -/

def Ledger.Backed (ledger : Ledger) (checkpoint : DistillChunkCheckpoint) : Prop :=
  ∃ job chunk, ledger.getJob checkpoint.jobId = some job ∧ ledger.chunks.get? checkpoint.chunkId = some chunk ∧
    chunk.sourceId = job.sourceId ∧ chunk.sourceRevision = job.sourceRevision

/-- The references between the tables, and the derived columns of jobs and revisions. -/
structure References (hashes : Hashes) (ledger : Ledger) : Prop where
  jobId : ∀ job ∈ ledger.jobs.rows, job.id = distillJobId hashes job.idempotencyKey
  jobKey : ∀ job ∈ ledger.jobs.rows,
    job.idempotencyKey = job.sourceId ++ ":" ++ job.sourceRevision ++ ":" ++ job.pipelineVersion
  jobRevision : ∀ job ∈ ledger.jobs.rows, (ledger.getRevision job.sourceId job.sourceRevision).isSome
  backed : ∀ checkpoint ∈ ledger.checkpoints.rows, ledger.Backed checkpoint
  chunkRevision : ∀ chunk ∈ ledger.chunks.rows, (ledger.getRevision chunk.sourceId chunk.sourceRevision).isSome
  revisionSource : ∀ row ∈ ledger.revisions.rows, (ledger.getSource row.sourceId).isSome
  revisionData : ∀ row ∈ ledger.revisions.rows, row.data.sourceRevision = row.sourceRevision
  sourceIdentity : ∀ first ∈ ledger.sources.rows, ∀ second ∈ ledger.sources.rows,
    first.identity = second.identity → first = second

def Pointers (ledger : Ledger) : Prop :=
  ∀ source ∈ ledger.sources.rows, (ledger.getRevision source.id source.sourceRevision).isSome

structure Integrity (hashes : Hashes) (ledger : Ledger) : Prop where
  references : References hashes ledger
  pointers : Pointers ledger

namespace References

variable {hashes : Hashes}

variable {before after : Ledger}

theorem of_shape (sound : References hashes before) (shape : SameShape before after) :
    References hashes after where
  jobId := by
    intro job member
    obtain ⟨old, present, same⟩ := shape.exists_job member
    have kept := sound.jobId old present
    rwa [show old.id = job.id from congrArg JobIdentity.id same,
      show old.idempotencyKey = job.idempotencyKey from congrArg JobIdentity.idempotencyKey same] at kept
  jobKey := by
    intro job member
    obtain ⟨old, present, same⟩ := shape.exists_job member
    have kept := sound.jobKey old present
    rwa [show old.sourceId = job.sourceId from congrArg JobIdentity.sourceId same,
      show old.sourceRevision = job.sourceRevision from congrArg JobIdentity.sourceRevision same,
      show old.pipelineVersion = job.pipelineVersion from congrArg JobIdentity.pipelineVersion same,
      show old.idempotencyKey = job.idempotencyKey from congrArg JobIdentity.idempotencyKey same] at kept
  jobRevision := by
    intro job member
    obtain ⟨old, present, same⟩ := shape.exists_job member
    have kept := sound.jobRevision old present
    rwa [show old.sourceId = job.sourceId from congrArg JobIdentity.sourceId same,
      show old.sourceRevision = job.sourceRevision from congrArg JobIdentity.sourceRevision same,
      ← shape.getRevision] at kept
  backed := by
    intro checkpoint member
    obtain ⟨old, present, same⟩ := shape.exists_checkpoint member
    obtain ⟨job, chunk, found, read, source, revision⟩ := sound.backed old present
    obtain ⟨job', found', identity⟩ := shape.getJob_after found
    refine ⟨job', chunk, ?_, ?_, ?_, ?_⟩
    · rw [← show old.jobId = checkpoint.jobId from congrArg Prod.fst same]
      exact found'
    · rw [← show old.chunkId = checkpoint.chunkId from congrArg Prod.snd same, shape.chunks]
      exact read
    · exact source.trans (congrArg JobIdentity.sourceId identity).symm
    · exact revision.trans (congrArg JobIdentity.sourceRevision identity).symm
  chunkRevision := by
    intro chunk member
    rw [shape.chunks] at member
    rw [shape.getRevision]
    exact sound.chunkRevision chunk member
  revisionSource := by
    intro row member
    rw [shape.revisions] at member
    rw [shape.getSource]
    exact sound.revisionSource row member
  revisionData := by
    rw [shape.revisions]
    exact sound.revisionData
  sourceIdentity := by
    rw [shape.sources]
    exact sound.sourceIdentity

/-! Sources and revisions are only added or rewritten under their keys. -/

theorem upsertSource {source : TranscriptSource} (sound : References hashes before)
    (ran : before.upsertSourceLocked source = .ok after) : References hashes after := by
  unfold Ledger.upsertSourceLocked at ran
  split at ran
  · cases ran
  · next unique =>
    cases ran
    refine { sound with revisionSource := ?_, sourceIdentity := ?_ }
    · intro row member
      unfold Ledger.getSource
      rw [Table.get?_upsert]
      split
      · rfl
      · exact sound.revisionSource row member
    · have others : ∀ other ∈ before.sources.rows, other.identity = source.identity → other.id = source.id := by
        intro other member same
        by_contra differs
        exact unique (List.any_eq_true.mpr ⟨other, member, decide_eq_true ⟨differs, same⟩⟩)
      intro first left second right same
      rcases (Table.mem_upsert _ _ _).mp left with rfl | ⟨old, first_id⟩ <;>
        rcases (Table.mem_upsert _ _ _).mp right with rfl | ⟨old', second_id⟩
      · rfl
      · exact absurd (others second old' same.symm) second_id
      · exact absurd (others first old same) first_id
      · exact sound.sourceIdentity first old second old' same

theorem insertRevision {row : RevisionRow} (sound : References hashes before)
    (source : (before.getSource row.sourceId).isSome) (data : row.data.sourceRevision = row.sourceRevision) :
    References hashes (before.insertRevision row) := by
  unfold Ledger.insertRevision
  split
  · next fresh =>
    have grows : ∀ sourceId sourceRevision, (before.getRevision sourceId sourceRevision).isSome →
        ((before.revisions.insert row fresh).get? (sourceId, sourceRevision)).isSome := by
      intro sourceId sourceRevision stored
      rw [Table.get?_insert]
      split
      · rfl
      · exact stored
    refine { sound with jobRevision := ?_, chunkRevision := ?_, revisionSource := ?_, revisionData := ?_ }
    · exact fun job member => grows _ _ (sound.jobRevision job member)
    · exact fun chunk member => grows _ _ (sound.chunkRevision chunk member)
    · intro other member
      rcases List.mem_append.mp member with old | new
      · exact sound.revisionSource other old
      · rw [List.mem_singleton.mp new]
        exact source
    · intro other member
      rcases List.mem_append.mp member with old | new
      · exact sound.revisionData other old
      · rw [List.mem_singleton.mp new]
        exact data
  · exact sound

variable {sourceId : String}

theorem deleteChunks {sourceRevision : String}
    (sound : References hashes before) (ran : before.deleteChunks sourceId sourceRevision = .ok after) :
    References hashes after := by
  unfold Ledger.deleteChunks at ran
  split at ran
  · cases ran
  · next unreferenced =>
    cases ran
    refine { sound with backed := ?_, chunkRevision := ?_ }
    · intro checkpoint member
      obtain ⟨job, chunk, found, read, source, revision⟩ := sound.backed checkpoint member
      refine ⟨job, chunk, found, ?_, source, revision⟩
      refine (Table.get?_filter _ _ _).trans ?_
      rw [read]
      have kept : ¬ (chunk.sourceId = sourceId ∧ chunk.sourceRevision = sourceRevision) := by
        intro deleted
        refine unreferenced (List.any_eq_true.mpr ⟨checkpoint, member, List.any_eq_true.mpr ⟨chunk, ?_, ?_⟩⟩)
        · exact List.mem_filter.mpr ⟨Table.mem_of_get? read, decide_eq_true deleted⟩
        · exact decide_eq_true (Table.key_of_get? read)
      rw [Option.filter_some, decide_eq_false kept]
      rfl
    · exact fun chunk member => sound.chunkRevision chunk (List.mem_filter.mp member).1

theorem insertChunk {chunk : TranscriptChunk} (sound : References hashes before)
    (ran : before.insertChunkLocked chunk = .ok after) : References hashes after := by
  unfold Ledger.insertChunkLocked at ran
  split at ran
  · next fresh =>
    split at ran
    · cases ran
    · split at ran
      · cases ran
      · next stored =>
        cases ran
        refine { sound with backed := ?_, chunkRevision := ?_ }
        · intro checkpoint member
          obtain ⟨job, other, found, read, source, revision⟩ := sound.backed checkpoint member
          refine ⟨job, other, found, (Table.get?_insert _ _ fresh _).trans ?_, source, revision⟩
          rw [if_neg]
          · exact read
          · intro same
            rw [same] at fresh
            rw [fresh] at read
            cases read
        · intro other member
          rcases List.mem_append.mp member with old | new
          · exact sound.chunkRevision other old
          · rw [List.mem_singleton.mp new]
            exact Option.isSome_iff_ne_none.mpr fun gone => stored (Option.isNone_iff_eq_none.mpr gone)
  · cases ran

theorem insertChunks {chunks : List TranscriptChunk} (sound : References hashes before)
    (ran : before.insertChunks chunks = .ok after) : References hashes after := by
  induction chunks generalizing before with
  | nil =>
    cases ran
    exact sound
  | cons chunk rest ih =>
    unfold Ledger.insertChunks at ran
    split at ran
    · cases ran
    · next written => exact ih (sound.insertChunk written) ran

/-! Erasure drops rows together with everything that refers to them. -/

theorem eraseRevision {sourceRevision : String} {counts : DeletionCounts}
    (sound : References hashes before) (ran : before.eraseRevision sourceId sourceRevision = .ok (counts, after)) :
    References hashes after := by
  unfold Ledger.eraseRevision at ran
  dsimp only at ran
  split at ran
  · cases ran
  · next unreferenced =>
    cases ran
    have revisions : ∀ owner revision, ¬ (owner = sourceId ∧ revision = sourceRevision) →
        (before.getRevision owner revision).isSome →
        ((before.revisions.filter fun row => row.key ≠ (sourceId, sourceRevision)).get? (owner, revision)).isSome := by
      intro owner revision other stored
      obtain ⟨row, found⟩ := Option.isSome_iff_exists.mp stored
      rw [Table.get?_filter, show before.revisions.get? (owner, revision) = some row from found,
        Option.filter_some, if_pos]
      · rfl
      · rw [decide_eq_true_eq, Table.key_of_get? found]
        exact fun same => other ⟨congrArg Prod.fst same, congrArg Prod.snd same⟩
    refine { sound with
      jobId := fun job member => sound.jobId job (List.mem_filter.mp member).1
      jobKey := fun job member => sound.jobKey job (List.mem_filter.mp member).1
      jobRevision := ?_
      backed := ?_
      chunkRevision := ?_
      revisionSource := fun row member => sound.revisionSource row (List.mem_filter.mp member).1
      revisionData := fun row member => sound.revisionData row (List.mem_filter.mp member).1 }
    · intro job member
      have kept := List.mem_filter.mp member
      exact revisions _ _ (not_and_or.mpr (by simpa using kept.2)) (sound.jobRevision job kept.1)
    · intro checkpoint member
      have kept := List.mem_filter.mp member
      obtain ⟨job, chunk, found, read, source, revision⟩ := sound.backed checkpoint kept.1
      have stays : ¬ (job.sourceId = sourceId ∧ job.sourceRevision = sourceRevision) := by
        intro erased
        have orphan := kept.2
        rw [Bool.not_eq_true', List.any_eq_false] at orphan
        exact orphan job (List.mem_filter.mpr ⟨Table.mem_of_get? found, decide_eq_true erased⟩)
          (decide_eq_true (Ledger.id_of_getJob found))
      refine ⟨job, chunk, ?_, ?_, source, revision⟩
      · refine (Table.get?_filter _ _ _).trans ?_
        rw [show before.jobs.get? checkpoint.jobId = some job from found, Option.filter_some, decide_eq_false stays]
        rfl
      · refine (Table.get?_filter _ _ _).trans ?_
        rw [read, Option.filter_some, source, revision, decide_eq_false stays]
        rfl
    · intro chunk member
      have kept := List.mem_filter.mp member
      exact revisions _ _ (not_and_or.mpr (by simpa using kept.2)) (sound.chunkRevision chunk kept.1)

theorem eraseRevisions {keys : List (String × String)} {counts : DeletionCounts}
    (sound : References hashes before) (ran : before.eraseRevisions keys = .ok (counts, after)) :
    References hashes after := by
  induction keys generalizing before counts with
  | nil =>
    cases ran
    exact sound
  | cons key rest ih =>
    unfold Ledger.eraseRevisions at ran
    split at ran
    · cases ran
    · next step =>
      split at ran
      · cases ran
      · next others =>
        cases ran
        exact ih (sound.eraseRevision step) others

theorem restoreSource {scan : Scan RevisionRow} {now : Time}
    {dropped : Nat} (sound : References hashes before)
    (ran : before.restoreSource scan sourceId now = .ok (dropped, after)) : References hashes after := by
  unfold Ledger.restoreSource at ran
  split at ran
  · next none_ =>
    cases ran
    refine { sound with revisionSource := ?_, sourceIdentity := ?_ }
    · intro row member
      obtain ⟨source, found⟩ := Option.isSome_iff_exists.mp (sound.revisionSource row member)
      refine Option.isSome_iff_exists.mpr ⟨source, (Table.get?_filter _ _ _).trans ?_⟩
      have kept : source.id ≠ sourceId := fun same =>
        Ledger.latestRevision_none none_ row member ((Table.key_of_get? found).symm.trans same)
      rw [show before.sources.get? row.sourceId = some source from found, Option.filter_some, if_pos]
      exact decide_eq_true kept
    · intro first left second right
      exact sound.sourceIdentity first (List.mem_filter.mp left).1 second (List.mem_filter.mp right).1
  · split at ran
    · cases ran
      exact sound
    · split at ran
      · cases ran
      · next written =>
        cases ran
        exact sound.upsertSource written

theorem restoreSources {scan : Scan RevisionRow} {sourceIds : List String} {now : Time}
    {dropped : Nat} (sound : References hashes before)
    (ran : before.restoreSources scan now sourceIds = .ok (dropped, after)) : References hashes after := by
  induction sourceIds generalizing before dropped with
  | nil =>
    cases ran
    exact sound
  | cons sourceId rest ih =>
    unfold Ledger.restoreSources at ran
    split at ran
    · cases ran
    · next step =>
      split at ran
      · cases ran
      · next others =>
        cases ran
        exact ih (sound.restoreSource step) others

end References

/-! ### The calls outside the queue -/

namespace Integrity

variable {hashes : Hashes}

theorem empty : Integrity hashes .empty := by
  refine ⟨?_, ?_⟩
  · constructor <;> simp [Ledger.empty]
  · simp [Pointers, Ledger.empty]

variable {before after : Ledger}

theorem of_shape (sound : Integrity hashes before) (shape : SameShape before after) :
    Integrity hashes after := by
  refine ⟨sound.references.of_shape shape, ?_⟩
  intro source member
  rw [shape.sources] at member
  rw [shape.getRevision]
  exact sound.pointers source member

variable {source : TranscriptSource}

theorem upsertSource (sound : Integrity hashes before)
    (stored : (before.getRevision source.id source.sourceRevision).isSome)
    (ran : before.upsertSourceLocked source = .ok after) : Integrity hashes after := by
  refine ⟨sound.references.upsertSource ran, ?_⟩
  unfold Ledger.upsertSourceLocked at ran
  split at ran
  · cases ran
  · cases ran
    intro other member
    rcases (Table.mem_upsert _ _ _).mp member with rfl | ⟨old, _⟩
    · exact stored
    · exact sound.pointers other old

variable {now : Time}

theorem refreshSource (sound : Integrity hashes before) (ran : before.refreshSource source now = .ok after) :
    Integrity hashes after := by
  unfold Ledger.refreshSource at ran
  split at ran
  · cases ran
    exact sound
  · next existing found =>
    split at ran
    · next unchanged =>
      have member := List.mem_of_find?_eq_some found
      have identity : existing.identity = source.identity := by simpa using List.find?_some found
      have same : existing.id = source.id := by
        by_contra differs
        have ran' := ran
        unfold Ledger.saveSource Ledger.upsertSourceLocked at ran'
        rw [if_pos] at ran'
        · cases ran'
        · exact List.any_eq_true.mpr ⟨existing, member, decide_eq_true ⟨differs, identity⟩⟩
      refine sound.upsertSource ?_ ran
      have stored := sound.pointers existing member
      rwa [same, unchanged.1] at stored
    · cases ran
      exact sound

theorem mapSources {change : TranscriptSource → TranscriptSource}
    {key : ∀ source, (change source).id = source.id} (sound : Integrity hashes before)
    (revision : ∀ source, (change source).sourceRevision = source.sourceRevision)
    (identity : ∀ source, (change source).identity = source.identity) :
    Integrity hashes { before with sources := before.sources.mapRows change key } := by
  refine ⟨{ sound.references with revisionSource := ?_, sourceIdentity := ?_ }, ?_⟩
  · intro row member
    unfold Ledger.getSource
    rw [Table.get?_mapRows, Option.isSome_map]
    exact sound.references.revisionSource row member
  · intro first left second right same
    obtain ⟨old, present, rfl⟩ := List.mem_map.mp left
    obtain ⟨old', present', rfl⟩ := List.mem_map.mp right
    rw [identity, identity] at same
    rw [sound.references.sourceIdentity old present old' present' same]
  · intro source member
    obtain ⟨old, present, rfl⟩ := List.mem_map.mp member
    rw [key, revision]
    exact sound.pointers old present

theorem markSourcesMissing {scan : Scan TranscriptSource} {projectName client : String}
    {observed : List String} (sound : Integrity hashes before) :
    Integrity hashes (before.markSourcesMissingFromInventory scan projectName client observed now).2 := by
  refine sound.mapSources ?_ ?_
  · intro source
    split <;> rfl
  · intro source
    split <;> rfl

theorem getRevision_insertRevision {row : RevisionRow} {sourceId sourceRevision : String}
    (stored : (before.getRevision sourceId sourceRevision).isSome ∨ row.key = (sourceId, sourceRevision)) :
    ((before.insertRevision row).getRevision sourceId sourceRevision).isSome := by
  unfold Ledger.insertRevision
  split
  · next fresh =>
    unfold Ledger.getRevision
    rw [Table.get?_insert]
    split
    · rfl
    · next differs => exact stored.resolve_right differs
  · next known =>
    rcases stored with old | same
    · exact old
    · rw [Ledger.getRevision, ← same]
      exact Option.isSome_iff_ne_none.mpr known

variable {chunks : List TranscriptChunk}

theorem revisions_of_insertChunks (ran : before.insertChunks chunks = .ok after) :
    after.revisions = before.revisions ∧ after.sources = before.sources := by
  induction chunks generalizing before with
  | nil =>
    cases ran
    exact ⟨rfl, rfl⟩
  | cons chunk rest ih =>
    unfold Ledger.insertChunks at ran
    split at ran
    · cases ran
    · next inserted written =>
      have kept : inserted.revisions = before.revisions ∧ inserted.sources = before.sources := by
        unfold Ledger.insertChunkLocked at written
        split at written
        · split at written
          · cases written
          · split at written
            · cases written
            · cases written
              exact ⟨rfl, rfl⟩
        · cases written
      exact ⟨(ih ran).1.trans kept.1, (ih ran).2.trans kept.2⟩

theorem revisions_of_deleteChunks {sourceId sourceRevision : String}
    (ran : before.deleteChunks sourceId sourceRevision = .ok after) :
    after.revisions = before.revisions ∧ after.sources = before.sources := by
  unfold Ledger.deleteChunks at ran
  split at ran
  · cases ran
  · cases ran
    exact ⟨rfl, rfl⟩

theorem sources_of_insertRevision (before : Ledger) (row : RevisionRow) :
    (before.insertRevision row).sources = before.sources := by
  unfold Ledger.insertRevision
  split <;> rfl

/-- `save_snapshot` in its steps. -/
theorem saveSnapshot_steps {rawBytes : Option (List UInt8)}
    (ran : before.saveSnapshot hashes source chunks rawBytes now = .ok after) :
    ∃ normalized pointed cleared,
      validateSnapshot hashes source chunks (nativeBytes chunks rawBytes) = .ok normalized ∧
      before.incompatibleRevision hashes source normalized = none ∧
      before.upsertSourceLocked (syncedSource source chunks now) = .ok pointed ∧
      (pointed.insertRevision (revisionRow source chunks (nativeBytes chunks rawBytes) now)).deleteChunks
        source.id source.sourceRevision = .ok cleared ∧
      cleared.insertChunks chunks = .ok after := by
  unfold Ledger.saveSnapshot at ran
  dsimp only at ran
  split at ran
  · cases ran
  · next normalized valid =>
    split at ran
    · cases ran
    · next compatible =>
      split at ran
      · cases ran
      · next pointed written =>
        split at ran
        · cases ran
        · next cleared deleted => exact ⟨normalized, pointed, cleared, valid, compatible, written, deleted, ran⟩

theorem saveSnapshot {rawBytes : Option (List UInt8)} (sound : Integrity hashes before)
    (ran : before.saveSnapshot hashes source chunks rawBytes now = .ok after) : Integrity hashes after := by
  obtain ⟨normalized, pointed, cleared, _, _, written, deleted, inserted⟩ := saveSnapshot_steps ran
  have first := sound.references.upsertSource written
  unfold Ledger.upsertSourceLocked at written
  split at written
  · cases written
  · cases written
    have present : ((before.sources.upsert (syncedSource source chunks now)).get? source.id).isSome := by
      rw [Table.get?_upsert]
      simp [syncedSource]
    have second := References.insertRevision first (show (Ledger.getSource _
      (revisionRow source chunks (nativeBytes chunks rawBytes) now).sourceId).isSome from present) rfl
    refine ⟨(second.deleteChunks deleted).insertChunks inserted, ?_⟩
    -- the source points at the inserted revision, the others where they did before
    intro other member
    rw [(revisions_of_insertChunks inserted).2, (revisions_of_deleteChunks deleted).2,
      sources_of_insertRevision] at member
    unfold Ledger.getRevision
    rw [(revisions_of_insertChunks inserted).1, (revisions_of_deleteChunks deleted).1]
    refine getRevision_insertRevision ?_
    rcases (Table.mem_upsert _ _ _).mp member with rfl | ⟨old, _⟩
    · exact .inr rfl
    · exact .inl (sound.pointers other old)

/-! A hard delete may leave a pointer dangling until its source is restored. -/

def PointersBut (sourceIds : List String) (ledger : Ledger) : Prop :=
  ∀ source ∈ ledger.sources.rows, source.id ∉ sourceIds →
    (ledger.getRevision source.id source.sourceRevision).isSome

theorem eraseRevisions_pointers {keys : List (String × String)} {counts : DeletionCounts}
    {sourceIds : List String} (covered : ∀ key ∈ keys, key.1 ∈ sourceIds)
    (loose : PointersBut sourceIds before)
    (ran : before.eraseRevisions keys = .ok (counts, after)) : PointersBut sourceIds after := by
  induction keys generalizing before counts with
  | nil =>
    cases ran
    exact loose
  | cons key rest ih =>
    unfold Ledger.eraseRevisions at ran
    split at ran
    · cases ran
    · next erased step =>
      split at ran
      · cases ran
      · next others =>
        cases ran
        refine ih (fun other member => covered other (List.mem_cons_of_mem _ member)) ?_ others
        unfold Ledger.eraseRevision at step
        dsimp only at step
        split at step
        · cases step
        · cases step
          intro source member outside
          obtain ⟨row, found⟩ := Option.isSome_iff_exists.mp (loose source member outside)
          refine Option.isSome_iff_exists.mpr ⟨row, (Table.get?_filter _ _ _).trans ?_⟩
          rw [show before.revisions.get? (source.id, source.sourceRevision) = some row from found,
            Option.filter_some, if_pos]
          have other : row.key ≠ (key.1, key.2) := by
            intro same
            rw [Table.key_of_get? found] at same
            have listed := covered key List.mem_cons_self
            rw [← show source.id = key.1 from congrArg Prod.fst same] at listed
            exact outside listed
          simpa using other

theorem restoreSources_pointers {scan : Scan RevisionRow} {dropped : Nat}
    {sourceIds : List String} (sound : References hashes before) (loose : PointersBut sourceIds before)
    (ran : before.restoreSources scan now sourceIds = .ok (dropped, after)) : Pointers after := by
  induction sourceIds generalizing before dropped with
  | nil =>
    cases ran
    exact fun source member => loose source member List.not_mem_nil
  | cons sourceId rest ih =>
    unfold Ledger.restoreSources at ran
    split at ran
    · cases ran
    · next count restored step =>
      split at ran
      · cases ran
      · next others =>
        cases ran
        refine ih (sound.restoreSource step) ?_ others
        unfold Ledger.restoreSource at step
        split at step
        · cases step
          intro source member outside
          have kept := List.mem_filter.mp member
          have away : source.id ≠ sourceId := by simpa using kept.2
          exact loose source kept.1 fun listed => (List.mem_cons.mp listed).elim away outside
        · next row latest =>
          obtain ⟨stored, mine⟩ := Ledger.latestRevision_some latest
          split at step
          · next absent =>
            cases step
            intro source member outside
            refine loose source member fun listed => (List.mem_cons.mp listed).elim (fun same => ?_) outside
            exact (Table.get?_eq_none _ _).mp absent source member same
          · next old found =>
            split at step
            · cases step
            · next written =>
              cases step
              unfold Ledger.upsertSourceLocked at written
              split at written
              · cases written
              · cases written
                intro source member outside
                have old_id : old.id = sourceId := Table.key_of_get? found
                rcases (Table.mem_upsert _ _ _).mp member with rfl | ⟨present, differs⟩
                · have key : row.key = (old.id, row.data.sourceRevision) := by
                    rw [sound.revisionData row stored, old_id, ← mine]
                    rfl
                  have read := Table.get?_of_mem stored
                  rw [key] at read
                  exact Option.isSome_iff_exists.mpr ⟨row, read⟩
                · refine loose source present fun listed => (List.mem_cons.mp listed).elim (fun same => ?_) outside
                  exact differs (same.trans old_id.symm)

theorem hardDeleteRevisions {scan : Scan RevisionRow} {request : HardDelete}
    {freshId : String} {audit : Dict} (sound : Integrity hashes before)
    (ran : before.hardDeleteRevisions hashes scan request freshId now = .ok (audit, after)) :
    Integrity hashes after := by
  unfold Ledger.hardDeleteRevisions at ran
  dsimp only at ran
  split at ran
  · cases ran
  · next counts erased deleted =>
    split at ran
    · cases ran
    · next sources restored written =>
      cases ran
      have references := sound.references.eraseRevisions deleted
      have loose : PointersBut (request.revisionKeys.eraseDups.map (·.1)).eraseDups erased := by
        refine eraseRevisions_pointers ?_ (fun source member _ => sound.pointers source member) deleted
        intro key member
        exact List.mem_eraseDups.mpr (List.mem_map_of_mem member)
      have restoring : Integrity hashes restored :=
        ⟨references.restoreSources written, restoreSources_pointers references loose written⟩
      exact restoring.of_shape ⟨rfl, rfl, rfl, rfl, rfl⟩

theorem prunedRows (sound : Integrity hashes before) (receiptId sourceId : String) :
    Integrity hashes { before with
      checkpoints := before.checkpoints.filter (before.outsideSource sourceId)
      chunks := before.chunks.filter fun chunk => chunk.sourceId ≠ sourceId
      projections := before.projections.filter fun row => row.sourceId ≠ sourceId
      revisions := before.revisions.mapRows (pruneRow hashes receiptId sourceId)
        (key_pruneRow hashes receiptId sourceId) } := by
  have stays : ∀ owner revision, (before.getRevision owner revision).isSome →
      ((before.revisions.mapRows (pruneRow hashes receiptId sourceId)
        (key_pruneRow hashes receiptId sourceId)).get? (owner, revision)).isSome := by
    intro owner revision stored
    rw [Table.get?_mapRows, Option.isSome_map]
    exact stored
  refine ⟨{ sound.references with
    jobRevision := fun job member => stays _ _ (sound.references.jobRevision job member)
    backed := ?_
    chunkRevision := fun chunk member => stays _ _ (sound.references.chunkRevision chunk (List.mem_filter.mp member).1)
    revisionSource := ?_
    revisionData := ?_ }, fun source member => stays _ _ (sound.pointers source member)⟩
  · intro checkpoint member
    have kept := List.mem_filter.mp member
    obtain ⟨job, chunk, found, read, source, revision⟩ := sound.references.backed checkpoint kept.1
    refine ⟨job, chunk, found, (Table.get?_filter _ _ _).trans ?_, source, revision⟩
    have away : chunk.sourceId ≠ sourceId := by
      intro mine
      have outside := kept.2
      unfold Ledger.outsideSource at outside
      rw [Bool.not_eq_true', List.any_eq_false] at outside
      exact outside job (List.mem_filter.mpr ⟨Table.mem_of_get? found, decide_eq_true (source.symm.trans mine)⟩)
        (decide_eq_true (Ledger.id_of_getJob found))
    rw [read, Option.filter_some, if_pos (by simpa using away)]
  · intro row member
    obtain ⟨old, present, rfl⟩ := List.mem_map.mp member
    have stored := sound.references.revisionSource old present
    unfold pruneRow
    split <;> exact stored
  · intro row member
    obtain ⟨old, present, rfl⟩ := List.mem_map.mp member
    have data := sound.references.revisionData old present
    unfold pruneRow
    split <;> exact data

theorem pruneCompletedDistillEvidence {jobId receiptId : String}
    {counts : PruneCounts} (sound : Integrity hashes before)
    (ran : before.pruneCompletedDistillEvidence hashes jobId receiptId now = .ok (counts, after)) :
    Integrity hashes after := by
  unfold Ledger.pruneCompletedDistillEvidence at ran
  split at ran
  · cases ran
  · next owner _ =>
    split at ran
    · cases ran
    · dsimp only at ran
      split at ran
      · cases ran
      · split at ran
        · cases ran
        · next source found =>
          split at ran
          · cases ran
          · split at ran
            · cases ran
            · split at ran
              · cases ran
              · next pointed written =>
                cases ran
                have rows := sound.prunedRows receiptId owner.sourceId
                have stored := rows.pointers source (Table.mem_of_get? found)
                have pointing : Integrity hashes pointed := rows.upsertSource (by exact stored) written
                exact pointing.of_shape (SameShape.mapJobs _ _ _ fun other _ => by split <;> rfl)

end Integrity

end Storage

end HarnessMem
