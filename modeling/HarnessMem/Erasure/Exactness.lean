import HarnessMem.Library.Lists
import HarnessMem.Lifecycle.Runs

/-! What a hard delete of revisions takes and what it leaves, row by row, and where it leaves the
pointers of the sources.
-/

set_option autoImplicit false

namespace HarnessMem.Erasure

open Library Storage

variable {hashes : Hashes}

abbrev RevisionKeys := List (String × String)

/-! ### The rows that go -/

/-- Every table after the deletes: the rows of the listed revisions are gone, the others stay. -/
structure LedgerErased (keys : RevisionKeys) (before after : Ledger) : Prop where
  revisions : after.revisions.rows = before.revisions.rows.filter fun row => row.key ∉ keys
  chunks : after.chunks.rows = before.chunks.rows.filter fun chunk => (chunk.sourceId, chunk.sourceRevision) ∉ keys
  projections : after.projections.rows = before.projections.rows.filter fun row => (row.sourceId, row.sourceRevision) ∉ keys
  jobs : after.jobs.rows = before.jobs.rows.filter fun job => (job.sourceId, job.sourceRevision) ∉ keys
  checkpoints : ∀ checkpoint, checkpoint ∈ after.checkpoints.rows ↔ checkpoint ∈ before.checkpoints.rows ∧
    ∀ job ∈ before.jobs.rows, job.id = checkpoint.jobId → (job.sourceId, job.sourceRevision) ∉ keys

theorem LedgerErased.refl (ledger : Ledger) : LedgerErased [] ledger ledger := by
  constructor <;> simp

theorem filter_notMem_append {α : Type} (rows : List α) (key : α → String × String) (first second : RevisionKeys) :
    (rows.filter fun row => key row ∉ first).filter (fun row => key row ∉ second) =
      rows.filter fun row => key row ∉ first ++ second := by
  rw [List.filter_filter]
  refine List.filter_congr fun row _ => ?_
  simp [not_or, Bool.and_comm]

variable {before after : Ledger}

theorem LedgerErased.trans {first second : RevisionKeys} {middle : Ledger} (earlier : LedgerErased first before middle)
    (later : LedgerErased second middle after) : LedgerErased (first ++ second) before after where
  revisions := by
    rw [later.revisions, earlier.revisions]
    exact filter_notMem_append _ RevisionRow.key _ _
  chunks := by
    rw [later.chunks, earlier.chunks]
    exact filter_notMem_append _ (fun chunk : TranscriptChunk => (chunk.sourceId, chunk.sourceRevision)) _ _
  projections := by
    rw [later.projections, earlier.projections]
    exact filter_notMem_append _ (fun row : SemanticProjection => (row.sourceId, row.sourceRevision)) _ _
  jobs := by
    rw [later.jobs, earlier.jobs]
    exact filter_notMem_append _ (fun job : SessionDistillJob => (job.sourceId, job.sourceRevision)) _ _
  checkpoints checkpoint := by
    rw [later.checkpoints, earlier.checkpoints, earlier.jobs]
    constructor
    · rintro ⟨⟨held, away⟩, apart⟩
      refine ⟨held, fun job member mine listed => ?_⟩
      rcases List.mem_append.mp listed with inFirst | inSecond
      · exact away job member mine inFirst
      · exact apart job (List.mem_filter.mpr ⟨member, decide_eq_true (away job member mine)⟩) mine inSecond
    · rintro ⟨held, away⟩
      refine ⟨⟨held, fun job member mine listed => away job member mine (List.mem_append_left _ listed)⟩, ?_⟩
      exact fun job member mine listed => away job (List.mem_filter.mp member).1 mine (List.mem_append_right _ listed)

theorem LedgerErased.congr {first second : RevisionKeys} (same : ∀ key, key ∈ first ↔ key ∈ second)
    (erased : LedgerErased first before after) : LedgerErased second before after where
  revisions := by rw [erased.revisions]; simp only [same]
  chunks := by rw [erased.chunks]; simp only [same]
  projections := by rw [erased.projections]; simp only [same]
  jobs := by rw [erased.jobs]; simp only [same]
  checkpoints := by simpa only [same] using erased.checkpoints

variable {sourceId : String}

theorem erased_eraseRevision {sourceRevision : String} {counts : DeletionCounts}
    (ran : before.eraseRevision sourceId sourceRevision = .ok (counts, after)) :
    LedgerErased [(sourceId, sourceRevision)] before after ∧ after.sources = before.sources := by
  unfold Ledger.eraseRevision at ran
  dsimp only at ran
  split at ran
  · cases ran
  · cases ran
    refine ⟨?_, rfl⟩
    constructor
    · simp [Table.rows_filter]
    · simp [Table.rows_filter]
    · simp [Table.rows_filter]
    · simp [Table.rows_filter]
    · intro checkpoint
      simp only [Table.rows_filter, List.mem_filter, Ledger.jobsOfRevision, Bool.not_eq_true', List.any_eq_false,
        decide_eq_true_eq, List.mem_singleton, Prod.mk.injEq]
      exact and_congr_right fun _ => ⟨fun none_ job member mine listed => none_ job ⟨member, listed⟩ mine,
        fun none_ job member mine => none_ job member.1 mine member.2⟩

variable {keys : RevisionKeys}

theorem erased_eraseRevisions {counts : DeletionCounts}
    (ran : before.eraseRevisions keys = .ok (counts, after)) : LedgerErased keys before after ∧ after.sources = before.sources := by
  induction keys generalizing before counts with
  | nil =>
    cases ran
    exact ⟨.refl _, rfl⟩
  | cons key rest ih =>
    unfold Ledger.eraseRevisions at ran
    split at ran
    · cases ran
    · next step =>
      split at ran
      · cases ran
      · next others =>
        cases ran
        obtain ⟨first, sources⟩ := erased_eraseRevision step
        obtain ⟨second, sources'⟩ := ih others
        exact ⟨first.trans second, sources'.trans sources⟩

/-! ### The pointers -/

def restored (ledger : Ledger) (scan : Scan RevisionRow) (now : Time) (sourceId : String) : Option TranscriptSource :=
  match ledger.latestRevision scan sourceId with
  | none => none
  | some row => (ledger.getSource sourceId).map (restoredSource row.data now)

theorem restored_some {ledger : Ledger} {scan : Scan RevisionRow} {now : Time} {sourceId : String} {row : RevisionRow}
    {source : TranscriptSource} (latest : ledger.latestRevision scan sourceId = some row)
    (found : ledger.getSource sourceId = some source) :
    restored ledger scan now sourceId = some (restoredSource row.data now source) := by
  unfold restored
  rw [latest, found]
  rfl

variable {scan : Scan RevisionRow} {now : Time}

theorem restoreSource_ok {dropped : Nat}
    (ran : before.restoreSource scan sourceId now = .ok (dropped, after)) :
    after = { before with sources := after.sources } ∧
      ∀ id, after.getSource id = if id = sourceId then restored before scan now sourceId else before.getSource id := by
  unfold Ledger.restoreSource at ran
  unfold restored
  cases latest : before.latestRevision scan sourceId with
  | none =>
    rw [latest] at ran
    cases ran
    refine ⟨rfl, fun id => (Table.get?_filter _ _ _).trans ?_⟩
    cases found : before.sources.get? id with
    | none =>
      split
      · rfl
      · exact found.symm
    | some source =>
      have named := Table.key_of_get? found
      rw [Option.filter_some, named]
      by_cases mine : id = sourceId
      · simp [mine]
      · simp [mine, Ledger.getSource, found]
  | some row =>
    rw [latest] at ran
    dsimp only at ran ⊢
    cases found : before.getSource sourceId with
    | none =>
      rw [found] at ran
      cases ran
      refine ⟨rfl, fun id => ?_⟩
      split
      · next mine => rw [mine, found]; rfl
      · rfl
    | some source =>
      rw [found] at ran
      unfold Ledger.upsertSourceLocked at ran
      dsimp only at ran
      split at ran
      · cases ran
      · next written =>
        split at written
        · cases written
        · cases written
          cases ran
          refine ⟨rfl, fun id => (Table.get?_upsert _ _ _).trans ?_⟩
          have named : source.id = sourceId := Table.key_of_get? found
          change (if source.id = id then _ else _) = _
          rw [named]
          by_cases mine : sourceId = id
          · rw [if_pos mine, if_pos mine.symm]
            rfl
          · rw [if_neg mine, if_neg (Ne.symm mine)]
            rfl

theorem restored_congr {first second : Ledger} (revisions : first.revisions.rows = second.revisions.rows)
    (source : first.getSource sourceId = second.getSource sourceId) (scan : Scan RevisionRow) (now : Time) :
    restored first scan now sourceId = restored second scan now sourceId := by
  unfold restored Ledger.latestRevision Ledger.latestFirst
  rw [revisions, source]

theorem restoreSources_ok {sourceIds : List String}
    {dropped : Nat} (distinct : sourceIds.Nodup) (ran : before.restoreSources scan now sourceIds = .ok (dropped, after)) :
    after = { before with sources := after.sources } ∧
      ∀ id, after.getSource id = if id ∈ sourceIds then restored before scan now id else before.getSource id := by
  induction sourceIds generalizing before dropped with
  | nil =>
    cases ran
    exact ⟨rfl, fun id => by rw [if_neg List.not_mem_nil]⟩
  | cons sourceId rest ih =>
    unfold Ledger.restoreSources at ran
    split at ran
    · cases ran
    · next middle step =>
      split at ran
      · cases ran
      · next others =>
        cases ran
        rw [List.nodup_cons] at distinct
        obtain ⟨first, here⟩ := restoreSource_ok step
        obtain ⟨second, later⟩ := ih distinct.2 others
        refine ⟨second.trans (by rw [first]), fun id => ?_⟩
        rw [later, here]
        by_cases mine : id = sourceId
        · rw [if_neg (mine ▸ distinct.1), if_pos mine, if_pos (mine ▸ List.mem_cons_self), mine]
        · rw [if_neg mine]
          by_cases listed : id ∈ rest
          · rw [if_pos listed, if_pos (List.mem_cons_of_mem _ listed)]
            exact restored_congr (by rw [first]) (by rw [here, if_neg mine]) scan now
          · rw [if_neg listed, if_neg fun inside => (List.mem_cons.mp inside).elim mine listed]

def without (ledger : Ledger) (keys : RevisionKeys) : Ledger :=
  { ledger with revisions := ledger.revisions.filter fun row => row.key ∉ keys }

/-- What a call that returns leaves. -/
structure Deleted (scan : Scan RevisionRow) (keys : RevisionKeys) (now : Time) (before after : Ledger) : Prop where
  erased : LedgerErased keys before after
  sources : ∀ id, after.getSource id =
    if id ∈ keys.map (·.1) then restored (without before keys) scan now id else before.getSource id

theorem deleted_hardDeleteRevisions {request : HardDelete} {freshId : String} {audit : Dict} (ran : before.hardDeleteRevisions hashes scan request freshId now = .ok (audit, after)) :
    Deleted scan request.revisionKeys now before after := by
  unfold Ledger.hardDeleteRevisions at ran
  dsimp only at ran
  split at ran
  · cases ran
  · next middle erasing =>
    split at ran
    · cases ran
    · next final restoring =>
      cases ran
      obtain ⟨erased, sources⟩ := erased_eraseRevisions erasing
      obtain ⟨same, pointed⟩ := restoreSources_ok (nodup_eraseDups _) restoring
      have listed : ∀ key, key ∈ request.revisionKeys.eraseDups ↔ key ∈ request.revisionKeys := fun key => List.mem_eraseDups
      constructor
      · have final_erased : LedgerErased request.revisionKeys.eraseDups before final := by
          rw [same]
          exact { erased with }
        exact { final_erased.congr listed with }
      · intro id
        refine (pointed id).trans ?_
        have ids : id ∈ (request.revisionKeys.eraseDups.map (·.1)).eraseDups ↔ id ∈ request.revisionKeys.map (·.1) := by
          simp only [List.mem_eraseDups, List.mem_map, listed]
        have revisions : middle.revisions.rows = (without before request.revisionKeys).revisions.rows := by
          rw [erased.revisions]
          simp only [listed]
          rfl
        simp only [ids, restored_congr revisions (congrArg (Table.get? · id) sources), Ledger.getSource, sources]

/-! ### Exact deletion -/

/-- The listed revisions are gone with what belongs to them, and nothing else is. -/
structure Exact (keys : RevisionKeys) (before after : Ledger) : Prop where
  revisions : ∀ row, row ∈ after.revisions.rows ↔ row ∈ before.revisions.rows ∧ row.key ∉ keys
  chunks : ∀ chunk, chunk ∈ after.chunks.rows ↔ chunk ∈ before.chunks.rows ∧ (chunk.sourceId, chunk.sourceRevision) ∉ keys
  projections : ∀ row, row ∈ after.projections.rows ↔ row ∈ before.projections.rows ∧ (row.sourceId, row.sourceRevision) ∉ keys
  jobs : ∀ job, job ∈ after.jobs.rows ↔ job ∈ before.jobs.rows ∧ (job.sourceId, job.sourceRevision) ∉ keys
  checkpoints : ∀ checkpoint, checkpoint ∈ after.checkpoints.rows ↔ checkpoint ∈ before.checkpoints.rows ∧
    ∀ job ∈ before.jobs.rows, job.id = checkpoint.jobId → (job.sourceId, job.sourceRevision) ∉ keys
  others : ∀ id ∉ keys.map (·.1), after.getSource id = before.getSource id
  dropped : ∀ id, after.getSource id = none ↔
    before.getSource id = none ∨ ∀ row ∈ before.revisions.rows, row.sourceId = id → row.key ∈ keys
  pointers : ∀ id old kept, before.getSource id = some old → after.getSource id = some kept →
    kept.sourceRevision ≠ old.sourceRevision → (id, old.sourceRevision) ∈ keys

/-- A listed source that keeps the revision it points at points at the revision captured last of
those it keeps. -/
def PointsAtLatest (scan : Scan RevisionRow) (keys : RevisionKeys) (ledger : Ledger) : Prop :=
  ∀ id source, ledger.getSource id = some source → id ∈ keys.map (·.1) → (id, source.sourceRevision) ∉ keys →
    ∃ row, (without ledger keys).latestRevision scan id = some row ∧ row.sourceRevision = source.sourceRevision

theorem latestRevision_isNone_iff {ledger : Ledger} :
    ledger.latestRevision scan sourceId = none ↔ ∀ row ∈ ledger.revisions.rows, row.sourceId ≠ sourceId := by
  refine ⟨Ledger.latestRevision_none, fun none_ => ?_⟩
  cases latest : ledger.latestRevision scan sourceId with
  | none => rfl
  | some row =>
    obtain ⟨member, mine⟩ := Ledger.latestRevision_some latest
    exact absurd mine (none_ row member)

theorem mem_without {ledger : Ledger} {row : RevisionRow} :
    row ∈ (without ledger keys).revisions.rows ↔ row ∈ ledger.revisions.rows ∧ row.key ∉ keys := by
  rw [without, Table.rows_filter, List.mem_filter, decide_eq_true_eq]

theorem Deleted.dropped (sound : Integrity hashes before) (deleted : Deleted scan keys now before after) (id : String) :
    after.getSource id = none ↔
      before.getSource id = none ∨ ∀ row ∈ before.revisions.rows, row.sourceId = id → row.key ∈ keys := by
  rw [deleted.sources]
  by_cases listed : id ∈ keys.map (·.1)
  · rw [if_pos listed]
    unfold restored
    cases latest : (without before keys).latestRevision scan id with
    | none =>
      have gone := latestRevision_isNone_iff.mp latest
      refine ⟨fun _ => .inr fun row member mine => ?_, fun _ => rfl⟩
      by_contra kept
      exact gone row (mem_without.mpr ⟨member, kept⟩) mine
    | some row =>
      obtain ⟨member, mine⟩ := Ledger.latestRevision_some latest
      obtain ⟨member, kept⟩ := mem_without.mp member
      simp only [Option.map_eq_none_iff]
      exact ⟨.inl, fun either => either.elim (fun absent => absent) fun gone => absurd (gone row member mine) kept⟩
  · rw [if_neg listed]
    refine ⟨.inl, fun either => either.elim (fun absent => absent) fun gone => ?_⟩
    -- a source no key names has its current revision
    cases found : before.getSource id with
    | none => rfl
    | some source =>
      have named : source.id = id := Table.key_of_get? found
      obtain ⟨row, stored⟩ := Option.isSome_iff_exists.mp (sound.pointers source (Table.mem_of_get? found))
      have key : row.key = (source.id, source.sourceRevision) := Table.key_of_get? stored
      have inside := gone row (Table.mem_of_get? stored) ((congrArg Prod.fst key).trans named)
      rw [key, named] at inside
      exact absurd (List.mem_map_of_mem inside) listed

theorem Deleted.exact_iff (sound : Integrity hashes before) (deleted : Deleted scan keys now before after) :
    Exact keys before after ↔ PointsAtLatest scan keys before := by
  have data : ∀ id row, (without before keys).latestRevision scan id = some row →
      row.data.sourceRevision = row.sourceRevision := fun id row latest =>
    sound.references.revisionData row (mem_without.mp (Ledger.latestRevision_some latest).1).1
  constructor
  · intro exact id source found listed kept
    cases latest : (without before keys).latestRevision scan id with
    | none =>
      obtain ⟨row, stored⟩ := Option.isSome_iff_exists.mp (sound.pointers source (Table.mem_of_get? found))
      have key : row.key = (source.id, source.sourceRevision) := Table.key_of_get? stored
      have named : source.id = id := Table.key_of_get? found
      rw [← named, ← key] at kept
      exact absurd ((congrArg Prod.fst key).trans named)
        (latestRevision_isNone_iff.mp latest row (mem_without.mpr ⟨Table.mem_of_get? stored, kept⟩))
    | some row =>
      refine ⟨row, rfl, ?_⟩
      by_contra differs
      have pointed : after.getSource id = some (restoredSource row.data now source) := by
        rw [deleted.sources, if_pos listed]
        exact restored_some latest found
      refine kept (exact.pointers id source _ found pointed ?_)
      rw [← data id row latest] at differs
      exact differs
  · intro latest
    refine {
      revisions := fun row => by rw [deleted.erased.revisions, List.mem_filter, decide_eq_true_eq]
      chunks := fun chunk => by rw [deleted.erased.chunks, List.mem_filter, decide_eq_true_eq]
      projections := fun row => by rw [deleted.erased.projections, List.mem_filter, decide_eq_true_eq]
      jobs := fun job => by rw [deleted.erased.jobs, List.mem_filter, decide_eq_true_eq]
      checkpoints := deleted.erased.checkpoints
      others := fun id other => by rw [deleted.sources, if_neg other]
      dropped := deleted.dropped sound
      pointers := fun id old kept found left differs => ?_ }
    by_contra stays
    rw [deleted.sources] at left
    by_cases listed : id ∈ keys.map (·.1)
    · obtain ⟨row, last, same⟩ := latest id old found listed stays
      rw [if_pos listed, @restored_some (without before keys) _ _ _ _ _ last found] at left
      cases left
      exact differs ((data id row last).trans same)
    · rw [if_neg listed, found] at left
      cases left
      exact differs rfl

/-- The row of a listed source that stays is rewritten from its last captured revision, whether or not the
revision it points at was deleted. -/
theorem Deleted.rewritten
    (deleted : Deleted scan keys now before after) {id : String} {source kept : TranscriptSource} (listed : id ∈ keys.map (·.1))
    (found : before.getSource id = some source) (left : after.getSource id = some kept) :
    ∃ row, (without before keys).latestRevision scan id = some row ∧ kept = restoredSource row.data now source := by
  rw [deleted.sources, if_pos listed] at left
  cases latest : (without before keys).latestRevision scan id with
  | none =>
    unfold restored at left
    rw [latest] at left
    cases left
  | some row =>
    rw [@restored_some (without before keys) _ _ _ _ _ latest found] at left
    cases left
    exact ⟨row, rfl, rfl⟩

/-- A call that raises leaves the ledger, and one that returns is exact as long as no listed source
points at a revision it keeps that is not the last captured one. -/
theorem hard_delete_exact_iff {world : World} (reached : Reachable hashes world) (scan : Scan RevisionRow) (request : HardDelete)
    (freshId : String) (now : Time) :
    (∀ failure, (LedgerOp.hardDeleteRevisions scan request freshId).run hashes world.ledger now = .error failure →
      (LedgerOp.hardDeleteRevisions scan request freshId).apply hashes world.ledger now = world.ledger) ∧
    ∀ outcome, (LedgerOp.hardDeleteRevisions scan request freshId).run hashes world.ledger now = .ok outcome →
      (Exact request.revisionKeys world.ledger outcome.ledger ↔ PointsAtLatest scan request.revisionKeys world.ledger) ∧
      ∀ id ∈ request.revisionKeys.map (·.1), ∀ source kept, world.ledger.getSource id = some source →
        outcome.ledger.getSource id = some kept → ∃ row, (without world.ledger request.revisionKeys).latestRevision scan id = some row ∧
          kept = restoredSource row.data now source := by
  constructor
  · intro failure raised
    unfold LedgerOp.apply
    rw [raised]
  · intro outcome ran
    obtain ⟨_, inner, rfl⟩ := Lifecycle.map_ok ran
    have deleted := deleted_hardDeleteRevisions inner
    exact ⟨deleted.exact_iff (Lifecycle.reachable_integrity reached), fun id listed source kept found left =>
      deleted.rewritten listed found left⟩

/-! ### A transcript that returns to its first content -/

def returningEvents : List Event :=
  [⟨1, sampleCapture .spelled "s" ["a"]⟩, ⟨2, sampleCapture .spelled "s" ["b"]⟩, ⟨3, sampleCapture .spelled "s" ["c"]⟩,
    ⟨4, sampleCapture .spelled "s" ["a"]⟩]

def returningWorld : World := World.initial.after .spelled returningEvents

theorem reachable_returningWorld : Reachable .spelled returningWorld := reachable_after (by decide)

def erasing (sourceRevision : String) : HardDelete := ⟨[("s", sourceRevision)], "project", "user_requested_erasure", [], []⟩

def eraseFrom (world : World) (sourceRevision : String) : Except StoreError Storage.Outcome :=
  (LedgerOp.hardDeleteRevisions .insertion (erasing sourceRevision) "f").run .spelled world.ledger 5

def pointerAfter (result : Except StoreError Storage.Outcome) : Option String :=
  match result with
  | .ok outcome => (outcome.ledger.getSource "s").map (·.sourceRevision)
  | .error _ => none

theorem ok_of_pointerAfter {result : Except StoreError Storage.Outcome} {revision : String} (points : pointerAfter result = some revision) :
    ∃ outcome source, result = .ok outcome ∧ outcome.ledger.getSource "s" = some source ∧ source.sourceRevision = revision := by
  cases result with
  | error failure => cases points
  | ok outcome =>
    obtain ⟨source, found, same⟩ := Option.map_eq_some_iff.mp points
    exact ⟨outcome, source, rfl, found, same⟩

/-- The current revision is deleted: the source points at the one captured last. -/
theorem erasing_current : ∃ outcome, eraseFrom returningWorld "sha256:a" = .ok outcome ∧
    (Exact [("s", "sha256:a")] returningWorld.ledger outcome.ledger ↔
      PointsAtLatest .insertion [("s", "sha256:a")] returningWorld.ledger) := by
  obtain ⟨outcome, source, ran, -⟩ := @ok_of_pointerAfter (eraseFrom returningWorld "sha256:a") "sha256:c" (by decide +kernel)
  exact ⟨outcome, ran, (hard_delete_exact_iff reachable_returningWorld .insertion (erasing "sha256:a") "f" 5).2 outcome ran |>.1⟩

/-- A revision is deleted that the source no longer points at, and the source leaves the one it points at. -/
theorem hard_delete_moves_pointer : ¬ ∀ (hashes : Hashes) (world : World) (scan : Scan RevisionRow) (request : HardDelete)
    (freshId : String) (now : Time) (outcome : Storage.Outcome), Reachable hashes world →
      (LedgerOp.hardDeleteRevisions scan request freshId).run hashes world.ledger now = .ok outcome →
      Exact request.revisionKeys world.ledger outcome.ledger := by
  intro all
  obtain ⟨outcome, kept, ran, left, moved⟩ :=
    @ok_of_pointerAfter (eraseFrom returningWorld "sha256:c") "sha256:b" (by decide +kernel)
  have before : (returningWorld.ledger.getSource "s").map (·.sourceRevision) = some "sha256:a" := by decide +kernel
  obtain ⟨old, found, current⟩ := Option.map_eq_some_iff.mp before
  have exact := all .spelled returningWorld .insertion (erasing "sha256:c") "f" 5 outcome reachable_returningWorld ran
  have listed := exact.pointers "s" old kept found left (by rw [moved, current]; decide)
  rw [current] at listed
  exact absurd listed (by decide)

end HarnessMem.Erasure
