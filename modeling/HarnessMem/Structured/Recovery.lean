import HarnessMem.Library.Execution
import HarnessMem.Structured.Tracking

/-! Histories of calls that may be cut off between their writes, and the listings once the store
has been opened again.
-/

set_option autoImplicit false

namespace HarnessMem.Structured

open Library

/-! ### Histories -/

inductive StoreCall where
  | save (truth : Truth) (entry : truth.collection ≠ .confirmedRules)
  | updateMemoryEntryStatus (entityId status : String)
  | updateRelationFactStatus (entityId status : String)
  | softDeleteMemoryEntry (entityId : String)
  | saveSupersedeCandidate (candidate : SupersedeCandidate)
  | confirmSupersedeCandidate (candidateId : String) (reviewedAt : DateTime)
  | hardDeleteRecord (collection : TruthCollection) (entityId : String)

/-- A call, and the number of writes after which it is cut off if it is. -/
structure CutCall where
  call : StoreCall
  cut : Option Nat

def CutCall.leaves (event : CutCall) (store : StructuredStore) : Option StructuredStore :=
  match event.call with
  | .save truth _ => (saveTruth truth).leaves store event.cut
  | .updateMemoryEntryStatus entityId status => (updateMemoryEntryStatus entityId status).leaves store event.cut
  | .updateRelationFactStatus entityId status => (updateRelationFactStatus entityId status).leaves store event.cut
  | .softDeleteMemoryEntry entityId => (softDeleteMemoryEntry entityId).leaves store event.cut
  | .saveSupersedeCandidate candidate => (saveSupersedeCandidate candidate).leaves store event.cut
  | .confirmSupersedeCandidate candidateId reviewedAt =>
    (Structured.confirmSupersedeCandidate candidateId reviewedAt).leaves store event.cut
  | .hardDeleteRecord collection entityId => (Structured.hardDeleteRecord collection entityId).leaves store event.cut

def CutCall.Step (store : StructuredStore) (event : CutCall) (after : StructuredStore) : Prop :=
  event.leaves store = some after

/-! ### The condition -/

/-- A save after which the listings can be right: of a record that shares its id with none of another project, whose
end of validity is not given west of UTC, and which is not cut off where an older index row tells otherwise, or
where there is no id to find it by. -/
structure CarefulSave (store : StructuredStore) (truth : Truth) (cut : Option Nat) : Prop where
  alone : store.Alone truth
  plain : truth.Plain
  shown : cut = some 1 → ∀ row ∈ store.index.rows, row.key = (truth.collection, truth.id) → Shows row truth
  named : cut = some 1 → (∀ row ∈ store.index.rows, row.key ≠ (truth.collection, truth.id)) → truth.id ≠ ""

/-- A change of status is not cut off between payload and index row, unless it changes nothing, the record is
soft-deleted, or the index has no row for it. -/
def CarefulStatus (store : StructuredStore) (collection : TruthCollection) (entityId status : String) (cut : Option Nat) : Prop :=
  cut = some 1 → ∀ data, store.truth? collection entityId = some data →
    data.withStatus status = data ∨ data.body.compacted = true ∨ store.indexed data = false

/-- A confirmation supersedes its target by a name, and where the index makes it undo its writes, it is not cut
off between the payload and the index row of the target. -/
def CarefulConfirmation (store : StructuredStore) (candidate : SupersedeCandidate) (target replacement : Truth)
    (cut : Option Nat) : Prop :=
  target.supersededBy ≠ [] ∨ replacement.id ≠ "" ∧
    (store.indexed replacement = false → cut ≠ some 5) ∧
    (store.candidateIndex.get? candidate.id = none → cut ≠ some 7)

def CutCall.Careful (store : StructuredStore) (event : CutCall) : Prop :=
  match event.call with
  | .save truth _ => CarefulSave store truth event.cut
  | .updateMemoryEntryStatus entityId status => CarefulStatus store .memoryEntries entityId status event.cut
  | .updateRelationFactStatus entityId status => CarefulStatus store .relationFacts entityId status event.cut
  | .softDeleteMemoryEntry _ | .saveSupersedeCandidate _ => True
  | .confirmSupersedeCandidate candidateId _ => ∀ candidate target replacement,
      store.confirmable? candidateId = some (candidate, target, replacement) →
        CarefulConfirmation store candidate target replacement event.cut
  | .hardDeleteRecord _ entityId => event.cut = some 1 → entityId ≠ ""

/-! ### Calls that keep track -/

section

variable {collection : TruthCollection} {store after : StructuredStore} {cut : Option Nat}

theorem Tracked.of_same (tracked : Tracked collection store) (truths : after.truths = store.truths)
    (index : after.index = store.index) : Tracked collection after := by
  cases store
  cases after
  cases truths
  cases index
  exact ⟨tracked.unique, tracked.plain, tracked.owned, tracked.named⟩

theorem Tracked.save (tracked : Tracked collection store) {truth : Truth} (careful : CarefulSave store truth cut)
    (left : (saveTruth truth).leaves store cut = some after) : Tracked collection after := by
  have states : (saveTruth truth store).before = [store, store.rewriting truth] := rfl
  rcases Script.leaves_of_pair states left with ⟨rfl, rfl⟩ | ⟨rfl, rfl⟩ | ⟨rfl, rfl⟩
  · exact tracked.saved fun _ => ⟨careful.alone, careful.plain⟩
  · exact tracked
  · apply tracked.written rfl
    · intro row _
      exact Iff.rfl
    · intro here
      subst here
      exact ⟨careful.alone, careful.plain, careful.shown rfl, careful.named rfl⟩

theorem updateStatus_course (store : StructuredStore) (entries : TruthCollection) (entityId status : String) :
    (updateStatus entries entityId status store).before = [] ∧ (updateStatus entries entityId status store).final = store ∨
      ∃ data, store.truth? entries entityId = some data ∧
        (updateStatus entries entityId status store).before = [store, store.rewriting (data.withStatus status)] ∧
        (updateStatus entries entityId status store).final = { store with
          truths := store.truths.upsert (data.withStatus status)
          index := updatedIndex store.index (entries, entityId) (.status status) } := by
  unfold updateStatus
  split
  · cases found : store.truth? entries entityId with
    | none => simp [found]
    | some data =>
      by_cases transition : validateStatusTransition data.status status = true
      · simp [found, transition, writeTruth, updateRow, StructuredStore.rewriting]
      · simp [found, transition]
  · exact .inl ⟨rfl, rfl⟩

theorem Truth.Plain.withStatus {truth : Truth} (plain : truth.Plain) (status : String) : (truth.withStatus status).Plain := by
  cases truth with
  | mk id projectName body => cases body <;> exact plain

theorem Shows.status {row : IndexRow} {truth : Truth} (shows : Shows row truth) (status : String) :
    Shows ((RowUpdate.status status).change row) (truth.withStatus status) := by
  rcases shows with compacted | ⟨project, columns, current⟩
  · cases truth with
    | mk id projectName body => cases body <;> exact .inl compacted
  · right
    refine ⟨project, ?_, current⟩
    change row.columns.withStatus status = _
    rw [columns]
    cases truth with
    | mk id projectName body => cases body <;> rfl

theorem Tracked.updateStatus (tracked : Tracked collection store) {entries : TruthCollection} {entityId status : String}
    (careful : CarefulStatus store entries entityId status cut)
    (left : (Structured.updateStatus entries entityId status).leaves store cut = some after) : Tracked collection after := by
  rcases updateStatus_course store entries entityId status with ⟨none, same⟩ | ⟨data, found, states, final⟩
  · rw [Script.leaves_of_nil none left, same]
    exact tracked
  · obtain ⟨member, rfl, rfl⟩ := StructuredStore.mem_of_truth? found
    have keys : (data.withStatus status).key = data.key := by rw [Truth.key, Truth.collection_withStatus]; rfl
    have plain : (data.withStatus status).collection = collection → (data.withStatus status).Plain := by
      intro here
      rw [Truth.collection_withStatus] at here
      exact (tracked.plain data member here).withStatus status
    rcases Script.leaves_of_pair states left with ⟨rfl, rfl⟩ | ⟨rfl, rfl⟩ | ⟨rfl, rfl⟩
    · rw [final]
      have kept := tracked.updated member keys rfl plain (.status status) fun _ row shows => shows.status status
      rwa [Truth.collection_withStatus] at kept
    · exact tracked
    · -- the row still has the old status
      apply tracked.rewritten member keys rfl plain
      intro here row listed place shows
      rcases careful rfl data found with same | compacted | unlisted
      · rw [same]
        exact shows
      · left
        cases data with
        | mk id projectName body => cases body <;> exact compacted
      · have here : data.collection = collection := (Truth.collection_withStatus status data).symm.trans here
        rw [StructuredStore.indexed_of_mem listed (place.trans (by rw [here]))] at unlisted
        cases unlisted

theorem softDelete_course (store : StructuredStore) (entityId : String) :
    (softDeleteMemoryEntry entityId store).before = [] ∧ (softDeleteMemoryEntry entityId store).final = store ∨
      ∃ data, store.truth? .memoryEntries entityId = some data ∧
        (softDeleteMemoryEntry entityId store).before = [store, store.rewriting data.withCompacted] ∧
        (softDeleteMemoryEntry entityId store).final = { store with
          truths := store.truths.upsert data.withCompacted
          index := updatedIndex store.index (.memoryEntries, entityId) .compacted } := by
  unfold softDeleteMemoryEntry
  cases found : store.truth? .memoryEntries entityId with
  | none => simp [found]
  | some data => simp [found, writeTruth, updateRow, StructuredStore.rewriting]

theorem Tracked.softDelete (tracked : Tracked collection store) {entityId : String}
    (left : (softDeleteMemoryEntry entityId).leaves store cut = some after) : Tracked collection after := by
  rcases softDelete_course store entityId with ⟨none, same⟩ | ⟨data, found, states, final⟩
  · rw [Script.leaves_of_nil none left, same]
    exact tracked
  · obtain ⟨member, entry, rfl⟩ := StructuredStore.mem_of_truth? found
    have keys : data.withCompacted.key = data.key := by rw [Truth.key, Truth.collection_withCompacted]; rfl
    have compacted : data.withCompacted.body.compacted = true := by
      cases data with
      | mk id projectName body =>
        cases body with
        | memoryEntry category status gone tier => rfl
        | relationFact source target type status => cases entry
        | confirmedRule => cases entry
    rcases Script.leaves_of_pair states left with ⟨rfl, rfl⟩ | ⟨rfl, rfl⟩ | ⟨rfl, rfl⟩
    · rw [final]
      have kept := tracked.updated member keys rfl (fun _ => .inl compacted) .compacted fun _ _ _ => .inl compacted
      rwa [Truth.collection_withCompacted, entry] at kept
    · exact tracked
    · exact tracked.rewritten member keys rfl (fun _ => .inl compacted) fun _ _ _ _ _ => .inl compacted

/-! ### Deletion -/

def StructuredStore.unlisted (store : StructuredStore) (place : TruthCollection × String) : StructuredStore :=
  { store with index := store.index.filter fun row => row.key ≠ place }

def StructuredStore.deleted (store : StructuredStore) (place : TruthCollection × String) : StructuredStore :=
  { store.unlisted place with
    truths := store.truths.filter fun truth => ¬ (truth.collection = place.1 ∧ truth.id = place.2) }

theorem hardDelete_course (store : StructuredStore) (entries : TruthCollection) (entityId : String) :
    (store.truth? entries entityId = none ∧ (hardDeleteRecord entries entityId store).before = [store] ∧
        (hardDeleteRecord entries entityId store).final = store.unlisted (entries, entityId)) ∨
      (hardDeleteRecord entries entityId store).before = [store, store.unlisted (entries, entityId)] ∧
        (hardDeleteRecord entries entityId store).final = store.deleted (entries, entityId) := by
  unfold hardDeleteRecord
  cases found : store.truth? entries entityId with
  | none => simp [found, StructuredStore.unlisted]
  | some data => simp [found, StructuredStore.unlisted, StructuredStore.deleted]

theorem Tracked.unlisted (tracked : Tracked collection store) {place : TruthCollection × String}
    (named : (∀ truth ∈ store.truths.rows, (truth.collection, truth.id) ≠ place) ∨ place.2 ≠ "") :
    Tracked collection (store.unlisted place) := by
  refine ⟨tracked.unique, tracked.plain, ?_, ?_⟩
  · intro row listed here
    exact tracked.owned row (List.mem_filter.mp listed).1 here
  · intro truth member here none
    by_cases same : (collection, truth.id) = place
    · rcases named with absent | visible
      · rw [← here] at same
        exact absurd same (absent truth member)
      · rw [← same] at visible
        exact visible
    · apply tracked.named truth member here
      intro row listed at_
      apply none row _ at_
      apply List.mem_filter.mpr
      exact ⟨listed, by rw [at_]; exact decide_eq_true same⟩

theorem Tracked.deleted (tracked : Tracked collection store) (place : TruthCollection × String) :
    Tracked collection (store.deleted place) := by
  have members : ∀ truth, truth ∈ (store.deleted place).truths.rows ↔
      truth ∈ store.truths.rows ∧ (truth.collection, truth.id) ≠ place := by
    intro truth
    simp [StructuredStore.deleted, Prod.ext_iff, not_and]
    intro _
    tauto
  have rows : ∀ row, row ∈ (store.deleted place).index.rows ↔ row ∈ store.index.rows ∧ row.key ≠ place := by
    intro row
    simp [StructuredStore.deleted, StructuredStore.unlisted]
  refine ⟨?_, ?_, ?_, ?_⟩
  · intro first firstMember second secondMember
    exact tracked.unique first ((members first).mp firstMember).1 second ((members second).mp secondMember).1
  · intro truth member
    exact tracked.plain truth ((members truth).mp member).1
  · intro row listed here
    obtain ⟨before, differs⟩ := (rows row).mp listed
    obtain ⟨truth, member, there, ids, shows⟩ := tracked.owned row before here
    refine ⟨truth, (members truth).mpr ⟨member, ?_⟩, there, ids, shows⟩
    rw [there, ids, ← here]
    exact differs
  · intro truth member here none
    obtain ⟨before, differs⟩ := (members truth).mp member
    apply tracked.named truth before here
    intro row listed at_
    exact none row ((rows row).mpr ⟨listed, by rw [at_, ← here]; exact differs⟩) at_

theorem Tracked.hardDelete (tracked : Tracked collection store) {entries : TruthCollection} {entityId : String}
    (careful : cut = some 1 → entityId ≠ "") (left : (hardDeleteRecord entries entityId).leaves store cut = some after) :
    Tracked collection after := by
  rcases hardDelete_course store entries entityId with ⟨absent, states, final⟩ | ⟨states, final⟩
  · rcases Script.leaves_cases left with ⟨rfl, rfl⟩ | ⟨writes, rfl, at_⟩
    · rw [final]
      apply tracked.unlisted
      left
      intro truth member same
      cases same
      exact StructuredStore.truth?_eq_none.mp absent truth member rfl rfl
    · rw [states] at at_
      match writes, at_ with
      | 0, at_ =>
        cases at_
        exact tracked
  · rcases Script.leaves_of_pair states left with ⟨rfl, rfl⟩ | ⟨rfl, rfl⟩ | ⟨rfl, rfl⟩
    · rw [final]
      exact tracked.deleted _
    · exact tracked
    · exact tracked.unlisted (.inr (careful rfl))

/-! ### Confirmation -/

theorem Tracked.persisted (tracked : Tracked collection store) {old data : Truth} (member : old ∈ store.truths.rows)
    (ids : data.id = old.id) (projects : data.projectName = old.projectName) (bodies : data.body = old.body)
    (plain : data.collection = collection → data.Plain) : Tracked collection (store.persisted data) := by
  have keys : data.key = old.key := by rw [Truth.key, Truth.key, Truth.collection, Truth.collection, ids, projects, bodies]
  apply tracked.updated member keys ids plain (.links data)
  intro _ row shows
  rcases shows with compacted | ⟨project, columns, _⟩
  · exact .inl (bodies ▸ compacted)
  · right
    refine ⟨project.trans projects.symm, columns.trans (by rw [bodies]), ?_⟩
    by_cases superseded : data.supersededBy = []
    · exact .inr ⟨superseded, rfl⟩
    · exact .inl superseded

theorem Tracked.rewriting (tracked : Tracked collection store) {old data : Truth} (member : old ∈ store.truths.rows)
    (ids : data.id = old.id) (projects : data.projectName = old.projectName) (bodies : data.body = old.body)
    (plain : data.collection = collection → data.Plain)
    (current : data.supersededBy ≠ [] ∨ data.supersededBy = old.supersededBy ∧ data.validTo = old.validTo) :
    Tracked collection (store.rewriting data) := by
  have keys : data.key = old.key := by rw [Truth.key, Truth.key, Truth.collection, Truth.collection, ids, projects, bodies]
  apply tracked.rewritten member keys ids plain
  intro _ row _ _ shows
  rcases shows with compacted | ⟨project, columns, valid⟩
  · exact .inl (bodies ▸ compacted)
  · right
    refine ⟨project.trans projects.symm, columns.trans (by rw [bodies]), ?_⟩
    rcases current with superseded | ⟨links, times⟩
    · exact .inl superseded
    · rw [links, times]
      exact valid

structure Confirming (collection : TruthCollection) (store : StructuredStore) (target replacement : Truth)
    (reviewedAt : DateTime) : Prop where
  targetPayload : Tracked collection (store.rewriting (target.supersededAs replacement reviewedAt))
  targetWritten : Tracked collection (store.targetWritten target replacement reviewedAt)
  replacementPayload : Tracked collection
    ((store.targetWritten target replacement reviewedAt).rewriting (replacement.superseding target))
  bothWritten : Tracked collection (store.bothWritten target replacement reviewedAt)
  targetUndone : Tracked collection ((store.bothWritten target replacement reviewedAt).persisted target)
  replacementPayloadUndone : Tracked collection ((store.bothWritten target replacement reviewedAt).rewriting replacement)
  replacementUndone : Tracked collection ((store.bothWritten target replacement reviewedAt).persisted replacement)
  bothUndone : Tracked collection (((store.bothWritten target replacement reviewedAt).persisted replacement).persisted target)
  targetPayloadUndone : target.supersededBy ≠ [] →
    Tracked collection ((store.bothWritten target replacement reviewedAt).rewriting target) ∧
      Tracked collection (((store.bothWritten target replacement reviewedAt).persisted replacement).rewriting target)

theorem Tracked.confirming (tracked : Tracked collection store) {target replacement : Truth} {reviewedAt : DateTime}
    (targetKnown : target ∈ store.truths.rows) (replacementKnown : replacement ∈ store.truths.rows)
    (differ : target ≠ replacement) (named : target.supersededBy ≠ [] ∨ replacement.id ≠ "") :
    Confirming collection store target replacement reviewedAt := by
  -- the target is superseded from the first write on
  have superseded : (target.supersededAs replacement reviewedAt).supersededBy ≠ [] := by
    rcases named with before | visible
    · obtain ⟨link, linked⟩ := List.exists_mem_of_ne_nil _ before
      exact List.ne_nil_of_mem (Truth.mem_addLink.mpr (.inl linked))
    · exact List.ne_nil_of_mem (Truth.mem_addLink.mpr (.inr ⟨rfl, visible⟩))
  have keys : replacement.key ≠ target.key := fun same => differ (store.truths.eq_of_key replacementKnown targetKnown same).symm
  have targetPlain : target.collection = collection → target.Plain := tracked.plain target targetKnown
  have replacementPlain : replacement.collection = collection → replacement.Plain := tracked.plain replacement replacementKnown
  have first : Tracked collection (store.targetWritten target replacement reviewedAt) :=
    tracked.persisted targetKnown rfl rfl rfl fun _ => .inr (.inl superseded)
  have replacementThere : replacement ∈ (store.targetWritten target replacement reviewedAt).truths.rows :=
    (Table.mem_upsert _ _ _).mpr (.inr ⟨replacementKnown, keys⟩)
  have second : Tracked collection (store.bothWritten target replacement reviewedAt) :=
    first.persisted replacementThere rfl rfl rfl replacementPlain
  have targetThere : target.supersededAs replacement reviewedAt ∈ (store.bothWritten target replacement reviewedAt).truths.rows :=
    (Table.mem_upsert _ _ _).mpr (.inr ⟨(Table.mem_upsert _ _ _).mpr (.inl rfl), keys.symm⟩)
  have replacementThere' : replacement.superseding target ∈ (store.bothWritten target replacement reviewedAt).truths.rows :=
    (Table.mem_upsert _ _ _).mpr (.inl rfl)
  have third : Tracked collection ((store.bothWritten target replacement reviewedAt).persisted replacement) :=
    second.persisted replacementThere' rfl rfl rfl replacementPlain
  have targetThere' : target.supersededAs replacement reviewedAt ∈
      ((store.bothWritten target replacement reviewedAt).persisted replacement).truths.rows :=
    (Table.mem_upsert _ _ _).mpr (.inr ⟨targetThere, keys.symm⟩)
  refine ⟨?_, first, ?_, second, ?_, ?_, third, ?_, fun before => ⟨?_, ?_⟩⟩
  · exact tracked.rewriting targetKnown rfl rfl rfl (fun _ => .inr (.inl superseded)) (.inl superseded)
  · exact first.rewriting replacementThere rfl rfl rfl replacementPlain (.inr ⟨rfl, rfl⟩)
  · exact second.persisted targetThere rfl rfl rfl targetPlain
  · exact second.rewriting replacementThere' rfl rfl rfl replacementPlain (.inr ⟨rfl, rfl⟩)
  · exact third.persisted targetThere' rfl rfl rfl targetPlain
  · exact second.rewriting targetThere rfl rfl rfl targetPlain (.inl before)
  · exact third.rewriting targetThere' rfl rfl rfl targetPlain (.inl before)

theorem getElem?_cons {first found : StructuredStore} {rest : List StructuredStore} {index : Nat}
    (there : (first :: rest)[index]? = some found) :
    index = 0 ∧ first = found ∨ ∃ before, index = before + 1 ∧ rest[before]? = some found := by
  cases index with
  | zero => exact .inl ⟨rfl, Option.some.inj there⟩
  | succ before => exact .inr ⟨before, rfl, there⟩

theorem Tracked.confirm (tracked : Tracked collection store) {candidateId : String} {reviewedAt : DateTime}
    (careful : ∀ candidate target replacement, store.confirmable? candidateId = some (candidate, target, replacement) →
      CarefulConfirmation store candidate target replacement cut)
    (left : (confirmSupersedeCandidate candidateId reviewedAt).leaves store cut = some after) : Tracked collection after := by
  cases found : store.confirmable? candidateId with
  | none =>
    have same : confirmSupersedeCandidate candidateId reviewedAt store = ⟨[], store, none⟩ := by
      simp [confirmSupersedeCandidate, found]
    rw [Script.leaves_of_nil (by rw [same]) left, same]
    exact tracked
  | some loaded =>
    obtain ⟨candidate, target, replacement⟩ := loaded
    have state := confirmable?_spec found
    have condition := careful candidate target replacement found
    obtain ⟨states, final⟩ := @confirm_course store candidateId candidate target replacement reviewedAt state found
    have differ : target ≠ replacement := fun same => state.differ (congrArg Truth.collection same) (congrArg Truth.id same)
    have kept : Confirming collection store target replacement reviewedAt :=
      tracked.confirming (StructuredStore.mem_of_truth? state.targetFound).1
        (StructuredStore.mem_of_truth? state.replacementFound).1 differ (condition.imp_right And.left)
    rw [StructuredStore.confirmStates, StructuredStore.confirming] at states
    rw [StructuredStore.confirmFinal] at final
    cases targetRow : store.indexed target with
    | false =>
      rw [targetRow] at states final
      rcases Script.leaves_of_pair states left with ⟨rfl, rfl⟩ | ⟨rfl, rfl⟩ | ⟨rfl, rfl⟩
      · rw [final]
        exact kept.targetWritten
      · exact tracked
      · exact kept.targetPayload
    | true =>
      rw [targetRow] at states final
      cases replacementRow : store.indexed replacement with
      | false =>
        rw [replacementRow] at states final
        rcases Script.leaves_cases left with ⟨rfl, rfl⟩ | ⟨writes, rfl, there⟩
        · rw [final]
          exact kept.targetUndone
        · rw [states] at there
          simp only [cond_true, cond_false, List.cons_append, List.nil_append] at there
          rcases getElem?_cons there with ⟨rfl, rfl⟩ | ⟨_, rfl, next⟩
          · exact tracked
          rcases getElem?_cons next with ⟨rfl, rfl⟩ | ⟨_, rfl, third⟩
          · exact kept.targetPayload
          rcases getElem?_cons third with ⟨rfl, rfl⟩ | ⟨_, rfl, fourth⟩
          · exact kept.targetWritten
          rcases getElem?_cons fourth with ⟨rfl, rfl⟩ | ⟨_, rfl, fifth⟩
          · exact kept.replacementPayload
          rcases getElem?_cons fifth with ⟨rfl, rfl⟩ | ⟨_, rfl, sixth⟩
          · exact kept.bothWritten
          rcases getElem?_cons sixth with ⟨rfl, rfl⟩ | ⟨_, rfl, seventh⟩
          · rcases condition with before | ⟨_, whole, _⟩
            · exact (kept.targetPayloadUndone before).1
            · exact absurd rfl (whole replacementRow)
          cases seventh
      | true =>
        rw [replacementRow] at states final
        cases listed : store.candidateIndex.get? candidate.id with
        | none =>
          rw [listed] at states final
          rcases Script.leaves_cases left with ⟨rfl, rfl⟩ | ⟨writes, rfl, there⟩
          · rw [final]
            exact kept.bothUndone
          · rw [states] at there
            simp only [cond_true, List.cons_append, List.nil_append] at there
            rcases getElem?_cons there with ⟨rfl, rfl⟩ | ⟨_, rfl, next⟩
            · exact tracked
            rcases getElem?_cons next with ⟨rfl, rfl⟩ | ⟨_, rfl, third⟩
            · exact kept.targetPayload
            rcases getElem?_cons third with ⟨rfl, rfl⟩ | ⟨_, rfl, fourth⟩
            · exact kept.targetWritten
            rcases getElem?_cons fourth with ⟨rfl, rfl⟩ | ⟨_, rfl, fifth⟩
            · exact kept.replacementPayload
            rcases getElem?_cons fifth with ⟨rfl, rfl⟩ | ⟨_, rfl, sixth⟩
            · exact kept.bothWritten
            rcases getElem?_cons sixth with ⟨rfl, rfl⟩ | ⟨_, rfl, seventh⟩
            · exact kept.replacementPayloadUndone
            rcases getElem?_cons seventh with ⟨rfl, rfl⟩ | ⟨_, rfl, eighth⟩
            · exact kept.replacementUndone
            rcases getElem?_cons eighth with ⟨rfl, rfl⟩ | ⟨_, rfl, ninth⟩
            · rcases condition with before | ⟨_, _, whole⟩
              · exact (kept.targetPayloadUndone before).2
              · exact absurd rfl (whole listed)
            cases ninth
        | some row =>
          rw [listed] at states final
          rcases Script.leaves_cases left with ⟨rfl, rfl⟩ | ⟨writes, rfl, there⟩
          · rw [final]
            exact kept.bothWritten.of_same rfl rfl
          · rw [states] at there
            simp only [Option.isSome_some, cond_true, List.cons_append, List.nil_append] at there
            rcases getElem?_cons there with ⟨rfl, rfl⟩ | ⟨_, rfl, next⟩
            · exact tracked
            rcases getElem?_cons next with ⟨rfl, rfl⟩ | ⟨_, rfl, third⟩
            · exact kept.targetPayload
            rcases getElem?_cons third with ⟨rfl, rfl⟩ | ⟨_, rfl, fourth⟩
            · exact kept.targetWritten
            rcases getElem?_cons fourth with ⟨rfl, rfl⟩ | ⟨_, rfl, fifth⟩
            · exact kept.replacementPayload
            rcases getElem?_cons fifth with ⟨rfl, rfl⟩ | ⟨_, rfl, sixth⟩
            · exact kept.bothWritten
            rcases getElem?_cons sixth with ⟨rfl, rfl⟩ | ⟨_, rfl, seventh⟩
            · exact kept.bothWritten
            cases seventh

theorem Tracked.saveCandidate (tracked : Tracked collection store) {candidate : SupersedeCandidate}
    (left : (saveSupersedeCandidate candidate).leaves store cut = some after) : Tracked collection after := by
  have same : Script.Keeps (fun state => state.truths = store.truths ∧ state.index = store.index)
      (saveSupersedeCandidate candidate) := by
    apply Script.Keeps.bind
    · exact Script.Keeps.write fun _ held => held
    · intro _
      apply Script.Keeps.bind
      · exact Script.Keeps.query _
      · intro known
        cases known with
        | true => exact Script.Keeps.pure _
        | false =>
          apply Script.Keeps.bind
          · exact Script.Keeps.write fun _ held => held
          · exact fun _ => Script.Keeps.pure _
  obtain ⟨truths, index⟩ := same.leaves ⟨rfl, rfl⟩ left
  exact tracked.of_same truths index

theorem Tracked.step (tracked : Tracked collection store) {event : CutCall} (step : event.Step store after)
    (careful : event.Careful store) : Tracked collection after := by
  obtain ⟨call, cut⟩ := event
  cases call with
  | save truth entry => exact tracked.save careful step
  | updateMemoryEntryStatus entityId status => exact tracked.updateStatus careful step
  | updateRelationFactStatus entityId status => exact tracked.updateStatus careful step
  | softDeleteMemoryEntry entityId => exact tracked.softDelete step
  | saveSupersedeCandidate candidate => exact tracked.saveCandidate step
  | confirmSupersedeCandidate candidateId reviewedAt => exact tracked.confirm careful step
  | hardDeleteRecord entries entityId => exact tracked.hardDelete careful step

end

end HarnessMem.Structured
