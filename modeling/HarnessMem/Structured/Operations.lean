import HarnessMem.Library.Scripts
import HarnessMem.Structured.Records

/-! The operations of the structured store, write by write, in the order the code makes
its writes: a call that is cut off leaves the store between two of them.
-/

set_option autoImplicit false

namespace HarnessMem.Structured

open Library

abbrev StoreScript := Script StructuredStore

/-! ### Single writes -/

/-- `write_record_payload`. -/
def writeTruth (truth : Truth) : StoreScript Unit :=
  .write fun store => { store with truths := store.truths.upsert truth }

def writeCandidate (candidate : SupersedeCandidate) : StoreScript Unit :=
  .write fun store => { store with candidates := store.candidates.upsert candidate }

/-- `index.upsert`. -/
def upsertRow (row : IndexRow) : StoreScript Unit :=
  .write fun store => { store with index := store.index.upsert row }

structure RowUpdate where
  change : IndexRow → IndexRow
  same : ∀ row, (change row).key = row.key

def updatedIndex (index : Table IndexRow.key) (place : TruthCollection × String) (update : RowUpdate) : Table IndexRow.key :=
  index.mapRows (fun row => if row.key = place then update.change row else row) fun row => by
    split
    · exact update.same row
    · rfl

/-- `index.update`, which tells whether there was a row. -/
def updateRow (collection : TruthCollection) (entityId : String) (update : RowUpdate) : StoreScript Bool := do
  let known ← .query fun store => (store.index.get? (collection, entityId)).isSome
  .write fun store => { store with index := updatedIndex store.index (collection, entityId) update }
  pure known

def RowUpdate.status (status : String) : RowUpdate where
  change row := { row with columns := row.columns.withStatus status }
  same row := by cases row with | mk id projectName columns => cases columns <;> rfl

def RowUpdate.compacted : RowUpdate where
  change row := { row with columns := row.columns.withCompacted }
  same row := by cases row with | mk id projectName columns => cases columns <;> rfl

def RowUpdate.links (data : Truth) : RowUpdate where
  change row :=
    { row with
      validTo := data.validTo.map DateTime.isoformat
      supersedes := data.supersedes
      supersededBy := data.supersededBy }
  same _ := rfl

/-! ### Truths -/

/-- `save_memory_entry`, `save_relation_fact`. -/
def saveTruth (truth : Truth) : StoreScript Unit := do
  writeTruth truth
  upsertRow truth.indexRow

/-- `update_memory_entry_status`, `update_relation_fact_status`. -/
def updateStatus (collection : TruthCollection) (entityId status : String) : StoreScript Bool := do
  if status ∈ governanceStatuses then
    match ← .query fun store => store.truth? collection entityId with
    | none => pure false
    | some data =>
      if validateStatusTransition data.status status then
        writeTruth (data.withStatus status)
        let _ ← updateRow collection entityId (.status status)
        pure true
      else pure false
  else pure false

def updateMemoryEntryStatus : String → String → StoreScript Bool := updateStatus .memoryEntries

def updateRelationFactStatus : String → String → StoreScript Bool := updateStatus .relationFacts

def softDeleteMemoryEntry (entityId : String) : StoreScript Bool := do
  match ← .query fun store => store.truth? .memoryEntries entityId with
  | none => pure false
  | some data =>
    writeTruth data.withCompacted
    let _ ← updateRow .memoryEntries entityId .compacted
    pure true

/-- `hard_delete_record` of a truth collection: the index row goes first. -/
def hardDeleteRecord (collection : TruthCollection) (entityId : String) : StoreScript Bool := do
  let existed ← .query fun store => (store.truth? collection entityId).isSome
  .write fun store => { store with index := store.index.filter fun row => row.key ≠ (collection, entityId) }
  bif existed then do
    .write fun store =>
      { store with truths := store.truths.filter fun truth => ¬ (truth.collection = collection ∧ truth.id = entityId) }
    pure true
  else pure false

/-! ### Supersede candidates -/

/-- `save_supersede_candidate`. The INSERT refuses an id that the index holds, when the payload is written
already: `none` stands for the exception. -/
def saveSupersedeCandidate (candidate : SupersedeCandidate) : StoreScript (Option String) := do
  writeCandidate candidate
  bif ← .query fun store => (store.candidateIndex.get? candidate.id).isSome then pure none
  else do
    .write fun store => { store with candidateIndex := store.candidateIndex.upsert candidate.id }
    pure (some candidate.id)

def updateSupersedeCandidateStatus (entityId status : String) : StoreScript Bool := do
  match ← .query fun store => store.candidate? entityId with
  | none => pure false
  | some data =>
    if validateMaintenanceReviewTransition data.status status then
      -- of the index row nothing is read again, so its update changes nothing here
      bif ← .query fun store => (store.candidateIndex.get? entityId).isSome then do
        .write id
        writeCandidate { data with status := status }
        pure true
      else pure false
    else pure false

/-- `persist_snapshot`: the payload is written before the index is found to have no row. -/
def persistSnapshot (data : Truth) : StoreScript Bool := do
  bif ← .query fun store => (store.truth? data.collection data.id).isSome then do
    writeTruth data
    updateRow data.collection data.id (.links data)
  else pure false

/-- `TruthStore.load`; an unknown type raises, which the caller treats as no record. -/
def StructuredStore.load? (store : StructuredStore) (truthType truthId : String) : Option Truth :=
  (TruthCollection.forType? truthType).bind fun collection => store.truth? collection truthId

/-- What `confirm_supersede_candidate` loads before it writes: the candidate, its target and its replacement. -/
def StructuredStore.confirmable? (store : StructuredStore) (candidateId : String) :
    Option (SupersedeCandidate × Truth × Truth) :=
  (store.candidate? candidateId).bind fun candidate =>
    if candidate.status ≠ "pending" then none
    else if candidate.targetType = candidate.replacementType ∧ candidate.targetId = candidate.replacementId then none
    else (store.load? candidate.targetType candidate.targetId).bind fun target =>
      (store.load? candidate.replacementType candidate.replacementId).map fun replacement => (candidate, target, replacement)

def confirmSupersedeCandidate (candidateId : String) (reviewedAt : DateTime) : StoreScript (Option SupersedeCandidate) := do
  match ← .query fun store => store.confirmable? candidateId with
  | none => pure none
  | some (candidate, targetOriginal, replacementOriginal) =>
    let targetUpdated := targetOriginal.applySupersedeUpdates (some reviewedAt) none (some candidate.replacementId)
    let replacementUpdated := replacementOriginal.applySupersedeUpdates none (some candidate.targetId) none
    bif ← persistSnapshot targetUpdated then do
      bif ← persistSnapshot replacementUpdated then do
        bif ← updateSupersedeCandidateStatus candidateId "user_confirmed" then
          .query fun store => store.candidate? candidateId
        else do
          let _ ← persistSnapshot replacementOriginal
          let _ ← persistSnapshot targetOriginal
          pure none
      else do
        let _ ← persistSnapshot targetOriginal
        pure none
    else pure none

end HarnessMem.Structured

/-! What a confirmation of a supersede candidate writes, and in what order: both truths and the
candidate where the index has their rows, and the originals again where it lacks one.
-/

namespace HarnessMem.Structured

open Library

namespace StructuredStore

def indexed (store : StructuredStore) (truth : Truth) : Bool :=
  (store.index.get? (truth.collection, truth.id)).isSome

theorem indexed_of_mem {store : StructuredStore} {truth : Truth} {row : IndexRow} (listed : row ∈ store.index.rows)
    (place : row.key = (truth.collection, truth.id)) : store.indexed truth = true := by
  rw [indexed, ← place, Table.get?_of_mem listed, Option.isSome_some]

theorem row_of_indexed {store : StructuredStore} {truth : Truth} (known : store.indexed truth = true) :
    ∃ row ∈ store.index.rows, row.key = (truth.collection, truth.id) := by
  obtain ⟨row, found⟩ := Option.isSome_iff_exists.mp known
  exact ⟨row, Table.mem_of_get? found, Table.key_of_get? found⟩

end StructuredStore

theorem saveSupersedeCandidate_final (candidate : SupersedeCandidate) (store : StructuredStore) :
    (saveSupersedeCandidate candidate store).final.truths = store.truths ∧
      (saveSupersedeCandidate candidate store).final.index = store.index := by
  simp only [saveSupersedeCandidate, writeCandidate, Script.bind_apply, Script.write_apply, Script.query_apply,
    Script.cond_apply]
  cases (store.candidateIndex.get? candidate.id).isSome <;> exact ⟨rfl, rfl⟩

theorem forType?_injective {first second : String} {collection : TruthCollection}
    (left : TruthCollection.forType? first = some collection) (right : TruthCollection.forType? second = some collection) :
    first = second := by
  unfold TruthCollection.forType? at left right
  grind

structure Confirmable (store : StructuredStore) (candidateId : String) (candidate : SupersedeCandidate)
    (target replacement : Truth) : Prop where
  present : store.candidate? candidateId = some candidate
  candidateId : candidate.id = candidateId
  pending : candidate.status = "pending"
  targetFound : store.truth? target.collection target.id = some target
  replacementFound : store.truth? replacement.collection replacement.id = some replacement
  targetId : candidate.targetId = target.id
  replacementId : candidate.replacementId = replacement.id
  differ : target.collection = replacement.collection → target.id ≠ replacement.id

theorem load?_spec {store : StructuredStore} {truthType truthId : String} {truth : Truth}
    (loaded : store.load? truthType truthId = some truth) :
    TruthCollection.forType? truthType = some truth.collection ∧ truthId = truth.id ∧
      store.truth? truth.collection truth.id = some truth := by
  obtain ⟨collection, known, found⟩ := Option.bind_eq_some_iff.mp loaded
  obtain ⟨_, rfl, rfl⟩ := StructuredStore.mem_of_truth? found
  exact ⟨known, rfl, found⟩

theorem confirmable?_spec {store : StructuredStore} {candidateId : String} {candidate : SupersedeCandidate}
    {target replacement : Truth} (found : store.confirmable? candidateId = some (candidate, target, replacement)) :
    Confirmable store candidateId candidate target replacement := by
  obtain ⟨known, present, guarded⟩ := Option.bind_eq_some_iff.mp found
  split at guarded
  · cases guarded
  · next pending =>
    split at guarded
    · cases guarded
    · next differ =>
      obtain ⟨old, oldLoaded, rest⟩ := Option.bind_eq_some_iff.mp guarded
      obtain ⟨new, newLoaded, same⟩ := Option.map_eq_some_iff.mp rest
      cases same
      obtain ⟨oldType, oldId, oldFound⟩ := load?_spec oldLoaded
      obtain ⟨newType, newId, newFound⟩ := load?_spec newLoaded
      refine ⟨present, (StructuredStore.mem_of_candidate? present).2, not_not.mp pending, oldFound, newFound, oldId, newId,
        fun collections ids => differ ⟨?_, ?_⟩⟩
      · exact forType?_injective oldType (collections ▸ newType)
      · rw [oldId, newId, ids]

def StructuredStore.rewriting (store : StructuredStore) (data : Truth) : StructuredStore :=
  { store with truths := store.truths.upsert data }

def StructuredStore.persisted (store : StructuredStore) (data : Truth) : StructuredStore :=
  { store with
    truths := store.truths.upsert data
    index := updatedIndex store.index (data.collection, data.id) (.links data) }

def StructuredStore.Rewrites (store : StructuredStore) (data : Truth) : Prop :=
  ∃ old ∈ store.truths.rows, data.key = old.key ∧ data.id = old.id

theorem StructuredStore.Rewrites.present {store : StructuredStore} {data : Truth} (again : store.Rewrites data) :
    (store.truth? data.collection data.id).isSome = true := by
  obtain ⟨old, known, keys, ids⟩ := again
  rw [Option.isSome_iff_ne_none, Ne, StructuredStore.truth?_eq_none]
  intro none
  exact none old known (congrArg Prod.fst keys).symm ids.symm

theorem StructuredStore.Rewrites.persisted {store : StructuredStore} {first second : Truth} (again : store.Rewrites second)
    (written : store.Rewrites first) : (store.persisted first).Rewrites second := by
  obtain ⟨old, known, keys, ids⟩ := again
  by_cases same : old.key = first.key
  · obtain ⟨other, otherKnown, otherKeys, otherIds⟩ := written
    have one : old = other := store.truths.eq_of_key known otherKnown (same.trans otherKeys)
    exact ⟨first, (Table.mem_upsert _ _ _).mpr (.inl rfl), keys.trans same, by rw [ids, one, otherIds]⟩
  · exact ⟨old, (Table.mem_upsert _ _ _).mpr (.inr ⟨known, same⟩), keys, ids⟩

theorem persistSnapshot_course {store : StructuredStore} {data : Truth} (again : store.Rewrites data) :
    persistSnapshot data store =
      ⟨[store, store.rewriting data], store.persisted data, store.indexed data⟩ := by
  simp [persistSnapshot, again.present, writeTruth, updateRow, StructuredStore.rewriting, StructuredStore.persisted,
    StructuredStore.indexed]

theorem indexed_persisted (store : StructuredStore) (data truth : Truth) :
    (store.persisted data).indexed truth = store.indexed truth := by
  simp [StructuredStore.indexed, StructuredStore.persisted, updatedIndex, Table.get?_mapRows]

theorem updateSupersedeCandidateStatus_course {store : StructuredStore} {candidateId : String} {candidate : SupersedeCandidate}
    (present : store.candidate? candidateId = some candidate) (pending : candidate.status = "pending") :
    updateSupersedeCandidateStatus candidateId "user_confirmed" store =
      bif (store.candidateIndex.get? candidateId).isSome then
        ⟨[store, store], { store with candidates := store.candidates.upsert { candidate with status := "user_confirmed" } }, true⟩
      else ⟨[], store, false⟩ := by
  have transition : validateMaintenanceReviewTransition "pending" "user_confirmed" = true := by decide
  cases listed : (store.candidateIndex.get? candidateId).isSome <;>
    simp [updateSupersedeCandidateStatus, present, pending, transition, listed, writeCandidate]

def Truth.supersededAs (target replacement : Truth) (reviewedAt : DateTime) : Truth :=
  target.applySupersedeUpdates (some reviewedAt) none (some replacement.id)

def Truth.superseding (replacement target : Truth) : Truth :=
  replacement.applySupersedeUpdates none (some target.id) none

/-! ### The courses of a confirmation -/

section

variable {store : StructuredStore} {candidateId : String} {candidate : SupersedeCandidate} {target replacement : Truth}
  {reviewedAt : DateTime}

def StructuredStore.targetWritten (store : StructuredStore) (target replacement : Truth) (reviewedAt : DateTime) :
    StructuredStore :=
  store.persisted (target.supersededAs replacement reviewedAt)

def StructuredStore.bothWritten (store : StructuredStore) (target replacement : Truth) (reviewedAt : DateTime) :
    StructuredStore :=
  (store.targetWritten target replacement reviewedAt).persisted (replacement.superseding target)

def StructuredStore.confirming (store : StructuredStore) (target replacement : Truth) (reviewedAt : DateTime) :
    List StructuredStore :=
  [store, store.rewriting (target.supersededAs replacement reviewedAt), store.targetWritten target replacement reviewedAt,
    (store.targetWritten target replacement reviewedAt).rewriting (replacement.superseding target)]

/-- The states before the writes of a confirmation, by what the index lacks: the row of the target, that of the
replacement, that of the candidate, or nothing. -/
def StructuredStore.confirmStates (store : StructuredStore) (candidate : SupersedeCandidate) (target replacement : Truth)
    (reviewedAt : DateTime) : List StructuredStore :=
  let both := store.bothWritten target replacement reviewedAt
  bif store.indexed target then
    store.confirming target replacement reviewedAt ++
      bif store.indexed replacement then
        bif (store.candidateIndex.get? candidate.id).isSome then [both, both]
        else [both, both.rewriting replacement, both.persisted replacement, (both.persisted replacement).rewriting target]
      else [both, both.rewriting target]
  else [store, store.rewriting (target.supersededAs replacement reviewedAt)]

def StructuredStore.confirmFinal (store : StructuredStore) (candidate : SupersedeCandidate) (target replacement : Truth)
    (reviewedAt : DateTime) : StructuredStore :=
  let both := store.bothWritten target replacement reviewedAt
  bif store.indexed target then
    bif store.indexed replacement then
      bif (store.candidateIndex.get? candidate.id).isSome then
        { both with candidates := store.candidates.upsert { candidate with status := "user_confirmed" } }
      else (both.persisted replacement).persisted target
    else both.persisted target
  else store.targetWritten target replacement reviewedAt

theorem confirm_course (state : Confirmable store candidateId candidate target replacement)
    (found : store.confirmable? candidateId = some (candidate, target, replacement)) :
    (confirmSupersedeCandidate candidateId reviewedAt store).before =
        store.confirmStates candidate target replacement reviewedAt ∧
      (confirmSupersedeCandidate candidateId reviewedAt store).final =
        store.confirmFinal candidate target replacement reviewedAt := by
  have targetKnown := (StructuredStore.mem_of_truth? state.targetFound).1
  have replacementKnown := (StructuredStore.mem_of_truth? state.replacementFound).1
  -- each snapshot is of a record that is there
  have one : store.Rewrites (target.supersededAs replacement reviewedAt) := ⟨target, targetKnown, rfl, rfl⟩
  have two : (store.targetWritten target replacement reviewedAt).Rewrites (replacement.superseding target) :=
    StructuredStore.Rewrites.persisted ⟨replacement, replacementKnown, rfl, rfl⟩ one
  have undo : ∀ old ∈ store.truths.rows, (store.bothWritten target replacement reviewedAt).Rewrites old :=
    fun old known => (StructuredStore.Rewrites.persisted ⟨old, known, rfl, rfl⟩ one).persisted two
  have undoBoth : ((store.bothWritten target replacement reviewedAt).persisted replacement).Rewrites target :=
    (undo target targetKnown).persisted (undo replacement replacementKnown)
  have first : persistSnapshot (target.supersededAs replacement reviewedAt) store =
      ⟨_, store.targetWritten target replacement reviewedAt, store.indexed target⟩ := persistSnapshot_course one
  have second : persistSnapshot (replacement.superseding target) (store.targetWritten target replacement reviewedAt) =
      ⟨[store.targetWritten target replacement reviewedAt,
        (store.targetWritten target replacement reviewedAt).rewriting (replacement.superseding target)],
        store.bothWritten target replacement reviewedAt, store.indexed replacement⟩ := by
    rw [← indexed_persisted store (target.supersededAs replacement reviewedAt)]
    exact persistSnapshot_course two
  have status := @updateSupersedeCandidateStatus_course (store.bothWritten target replacement reviewedAt) candidateId candidate
    state.present state.pending
  have undoTarget := persistSnapshot_course (undo target targetKnown)
  have undoReplacement := persistSnapshot_course (undo replacement replacementKnown)
  have undoAfter := persistSnapshot_course undoBoth
  have listed : (store.bothWritten target replacement reviewedAt).candidateIndex.get? candidateId =
      store.candidateIndex.get? candidate.id := by rw [state.candidateId]; rfl
  rw [listed] at status
  simp only [Truth.supersededAs, Truth.superseding] at first second
  -- the snapshots one by one, and which of them tells that a row is missing
  cases targetRow : store.indexed target <;> cases replacementRow : store.indexed replacement <;>
    cases listed' : (store.candidateIndex.get? candidate.id).isSome <;>
    simp [confirmSupersedeCandidate, found, state.replacementId, state.targetId, first, second, targetRow, replacementRow,
      status, listed', undoTarget, undoReplacement, undoAfter, StructuredStore.confirmStates, StructuredStore.confirmFinal,
      StructuredStore.confirming, Truth.supersededAs, Truth.superseding]
  rfl

end

end HarnessMem.Structured
