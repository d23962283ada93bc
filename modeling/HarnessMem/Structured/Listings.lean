import HarnessMem.Structured.Recovery
import Mathlib.Data.List.Perm.Subperm

/-! The repair of the index when the store is opened, and the listings from an index that
keeps track of the payloads and has a row for each of them.
-/

set_option autoImplicit false

namespace HarnessMem.Structured

open Library

/-! ### The repair -/

def Complete (collection : TruthCollection) (store : StructuredStore) : Prop :=
  ∀ truth ∈ store.truths.rows, truth.collection = collection → store.indexed truth = true

def StructuredStore.places (store : StructuredStore) : List ((TruthCollection × String) × String) :=
  store.truths.rows.map fun truth => (truth.key, truth.id)

def StructuredStore.saved (store : StructuredStore) (data : Truth) : StructuredStore :=
  { store with truths := store.truths.upsert data, index := store.index.upsert data.indexRow }

@[simp] theorem Truth.key_onLoad (truth : Truth) : truth.onLoad.key = truth.key := by
  rw [Truth.key, Truth.collection_onLoad]
  rfl

section

variable {collection : TruthCollection} {store : StructuredStore} {payload : Truth}

theorem replayTruth_final (payload : Truth) (store : StructuredStore) :
    (replayTruth payload store).final = store ∧ (payload.id = "" ∨ store.indexed payload = true) ∨
      (replayTruth payload store).final = store.saved payload.onLoad := by
  unfold replayTruth
  by_cases unnamed : payload.id = ""
  · rw [if_pos unnamed]
    exact .inl ⟨rfl, .inl unnamed⟩
  · rw [if_neg unnamed]
    cases known : store.indexed payload with
    | true =>
      unfold StructuredStore.indexed at known
      simp [known]
    | false =>
      unfold StructuredStore.indexed at known
      simp [known, saveTruth, writeTruth, upsertRow, StructuredStore.saved]

theorem indexed_saved {truth : Truth} (data : Truth)
    (known : store.indexed truth = true ∨ truth.collection = data.collection ∧ truth.id = data.id) :
    (store.saved data).indexed truth = true := by
  unfold StructuredStore.indexed StructuredStore.saved at *
  rw [Table.get?_upsert, Truth.indexRow_key]
  split
  · rfl
  · next differs =>
    rcases known with before | ⟨collections, ids⟩
    · exact before
    · exact absurd (by rw [collections, ids]) differs

theorem indexed_replayTruth {truth : Truth} (known : store.indexed truth = true) :
    (replayTruth payload store).final.indexed truth = true := by
  rcases replayTruth_final payload store with ⟨same, _⟩ | saved
  · rw [same]
    exact known
  · rw [saved]
    exact indexed_saved _ (.inl known)

theorem indexed_replayed (named : payload.id ≠ "") : (replayTruth payload store).final.indexed payload = true := by
  rcases replayTruth_final payload store with ⟨same, unnamed | known⟩ | saved
  · exact absurd unnamed named
  · rw [same]
    exact known
  · rw [saved]
    exact indexed_saved _ (.inr ⟨(Truth.collection_onLoad payload).symm, rfl⟩)

theorem places_replayTruth (there : (payload.key, payload.id) ∈ store.places) :
    (replayTruth payload store).final.places = store.places := by
  rcases replayTruth_final payload store with ⟨same, _⟩ | saved
  · rw [same]
  · rw [saved]
    obtain ⟨old, known, same⟩ := List.mem_map.mp there
    obtain ⟨keys, ids⟩ := Prod.mk.inj same
    have found : store.truths.get? payload.onLoad.key = some old :=
      (Table.get?_eq_some _ _ _).mpr ⟨known, by rw [Truth.key_onLoad, keys]⟩
    apply Table.map_upsert_known _ found
    rw [Truth.key_onLoad, keys, ids]
    rfl

theorem Truth.Plain.onLoad (plain : payload.Plain) : payload.onLoad.Plain := by
  cases payload with
  | mk id projectName body => cases body <;> exact plain

theorem Tracked.replay (tracked : Tracked collection store)
    (own : payload.collection = collection → (payload.key, payload.id) ∈ store.places ∧ payload.Plain) :
    Tracked collection (replayTruth payload store).final := by
  rcases replayTruth_final payload store with ⟨same, _⟩ | saved
  · rw [same]
    exact tracked
  · rw [saved]
    apply tracked.saved
    intro here
    rw [Truth.collection_onLoad] at here
    obtain ⟨there, plain⟩ := own here
    obtain ⟨old, known, same⟩ := List.mem_map.mp there
    obtain ⟨keys, ids⟩ := Prod.mk.inj same
    refine ⟨tracked.alone known ?_ ?_ ?_, plain.onLoad⟩
    · rw [Truth.key_onLoad, keys]
    · exact ids.symm
    · rw [Truth.collection_onLoad, here]

theorem forEach_keeps {α : Type} {inv : StructuredStore → Prop} {body : α → StoreScript Unit} {items : List α}
    (step : ∀ item ∈ items, ∀ state, inv state → inv (body item state).final) :
    ∀ state, inv state → inv (forEach body items state).final := by
  induction items with
  | nil => exact fun _ held => held
  | cons item rest ih =>
    intro state held
    exact ih (fun other member => step other (List.mem_cons_of_mem _ member)) _ (step item List.mem_cons_self state held)

theorem indexed_forEach {items : List Truth} (payload : Truth) (member : payload ∈ items) (named : payload.id ≠ "")
    (store : StructuredStore) : (forEach replayTruth items store).final.indexed payload = true := by
  induction items generalizing store with
  | nil => cases member
  | cons item rest ih =>
    rcases List.mem_cons.mp member with rfl | later
    · change (forEach replayTruth rest (replayTruth payload store).final).final.indexed payload = true
      exact @forEach_keeps Truth (fun state => state.indexed payload = true) replayTruth rest
        (fun _ _ _ known => indexed_replayTruth known) _ (indexed_replayed named)
    · exact ih later _

theorem mem_payloads {truth : Truth} :
    truth ∈ store.payloads collection ↔ truth ∈ store.truths.rows ∧ truth.collection = collection := by
  rw [StructuredStore.payloads, List.mem_insertionSort, List.mem_filter, decide_eq_true_eq]

theorem Tracked.replayAll (tracked : Tracked collection store) :
    Tracked collection (forEach replayTruth (store.payloads collection) store).final ∧
      Complete collection (forEach replayTruth (store.payloads collection) store).final := by
  have held : Tracked collection (forEach replayTruth (store.payloads collection) store).final ∧
      (forEach replayTruth (store.payloads collection) store).final.places = store.places := by
    apply @forEach_keeps Truth (fun state => Tracked collection state ∧ state.places = store.places)
    · intro payload member state kept
      obtain ⟨known, _⟩ := mem_payloads.mp member
      have there : (payload.key, payload.id) ∈ state.places := by
        rw [kept.2]
        exact List.mem_map_of_mem known
      exact ⟨kept.1.replay fun here => ⟨there, tracked.plain payload known here⟩,
        (places_replayTruth there).trans kept.2⟩
    · exact ⟨tracked, rfl⟩
  refine ⟨held.1, ?_⟩
  intro truth member here
  -- the record was there before, under the same id
  have there : (truth.key, truth.id) ∈ store.places := by
    rw [← held.2]
    exact List.mem_map_of_mem member
  obtain ⟨payload, known, same⟩ := List.mem_map.mp there
  obtain ⟨keys, ids⟩ := Prod.mk.inj same
  have collections : payload.collection = truth.collection := congrArg Prod.fst keys
  by_cases named : payload.id = ""
  · by_contra unlisted
    apply held.1.named truth member here _ (ids ▸ named)
    intro row listed place
    exact unlisted (StructuredStore.indexed_of_mem listed (place.trans (by rw [here])))
  · have replayed := indexed_forEach payload (mem_payloads.mpr ⟨known, collections.trans here⟩) named store
    unfold StructuredStore.indexed at replayed ⊢
    rwa [collections, ids] at replayed

theorem nodup_indexIds (store : StructuredStore) (collection : TruthCollection) :
    ((store.index.rows.filter fun row => row.columns.collection = collection).map IndexRow.id).Nodup := by
  apply List.Nodup.map_on
  · intro first firstMember second secondMember ids
    obtain ⟨firstKnown, firstHere⟩ := List.mem_filter.mp firstMember
    obtain ⟨secondKnown, secondHere⟩ := List.mem_filter.mp secondMember
    apply store.index.eq_of_key firstKnown secondKnown
    exact Prod.ext ((of_decide_eq_true firstHere).trans (of_decide_eq_true secondHere).symm) ids
  · exact (List.Nodup.of_map _ store.index.nodup).filter _

theorem Tracked.complete_of_count (tracked : Tracked collection store)
    (enough : (store.payloads collection).length ≤
      (store.index.rows.filter fun row => row.columns.collection = collection).length) : Complete collection store := by
  have owned : (store.index.rows.filter fun row => row.columns.collection = collection).map IndexRow.id ⊆
      (store.payloads collection).map Truth.id := by
    intro id member
    obtain ⟨row, listedRow, rfl⟩ := List.mem_map.mp member
    obtain ⟨known, here⟩ := List.mem_filter.mp listedRow
    obtain ⟨truth, there, collections, ids, _⟩ := tracked.owned row known (of_decide_eq_true here)
    exact ids ▸ List.mem_map_of_mem (mem_payloads.mpr ⟨there, collections⟩)
  have same := (List.subperm_of_subset (nodup_indexIds store collection) owned).perm_of_length_le (by rw [List.length_map, List.length_map]; exact enough)
  intro truth member here
  have id := same.mem_iff.mpr (List.mem_map_of_mem (mem_payloads.mpr ⟨member, here⟩))
  obtain ⟨row, listedRow, ids⟩ := List.mem_map.mp id
  obtain ⟨known, rowHere⟩ := List.mem_filter.mp listedRow
  exact StructuredStore.indexed_of_mem known (Prod.ext ((of_decide_eq_true rowHere).trans here.symm) ids)

theorem syncMissingRows_final (entries : TruthCollection) (store : StructuredStore) :
    (syncMissingRows entries store).final =
      bif store.rowsSuffice entries then store else (forEach replayTruth (store.payloads entries) store).final := by
  simp only [syncMissingRows, Script.bind_apply, Script.query_apply, Script.cond_apply]
  cases store.rowsSuffice entries <;> rfl

theorem Tracked.sync (tracked : Tracked collection store) :
    Tracked collection (syncMissingRows collection store).final ∧ Complete collection (syncMissingRows collection store).final := by
  rw [syncMissingRows_final]
  cases enough : store.rowsSuffice collection with
  | true => exact ⟨tracked, tracked.complete_of_count (of_decide_eq_true enough)⟩
  | false => exact tracked.replayAll

theorem Tracked.sync_other (tracked : Tracked collection store) (entries : TruthCollection) (other : entries ≠ collection) :
    Tracked collection (syncMissingRows entries store).final := by
  rw [syncMissingRows_final]
  cases store.rowsSuffice entries with
  | true => exact tracked
  | false =>
    apply forEach_keeps
    · intro payload member state kept
      exact kept.replay fun here => absurd ((mem_payloads.mp member).2.symm.trans here) other
    · exact tracked

theorem Complete.sync_other (complete : Complete collection store) (entries : TruthCollection) :
    Complete collection (syncMissingRows entries store).final := by
  rw [syncMissingRows_final]
  cases store.rowsSuffice entries with
  | true => exact complete
  | false =>
    apply @forEach_keeps Truth (Complete collection)
    · intro payload member state kept truth there here
      rcases replayTruth_final payload state with ⟨same, _⟩ | saved
      · rw [same] at there ⊢
        exact kept truth there here
      · rw [saved] at there ⊢
        apply indexed_saved
        rcases (Table.mem_upsert _ _ _).mp there with rfl | ⟨before, _⟩
        · exact .inr ⟨rfl, rfl⟩
        · exact .inl (kept truth before here)
    · exact complete

theorem syncMissingCandidates_final (store : StructuredStore) :
    (syncMissingCandidates store).final.truths = store.truths ∧ (syncMissingCandidates store).final.index = store.index := by
  have replayed : ∀ candidate (state : StructuredStore), state.truths = store.truths ∧ state.index = store.index →
      (replayCandidate candidate state).final.truths = store.truths ∧
        (replayCandidate candidate state).final.index = store.index := by
    intro candidate state kept
    unfold replayCandidate
    split
    · exact kept
    · simp only [Script.bind_apply, Script.query_apply, Script.cond_apply]
      cases (state.candidateIndex.get? candidate.id).isSome with
      | true => exact kept
      | false =>
        have same := saveSupersedeCandidate_final candidate state
        exact ⟨same.1.trans kept.1, same.2.trans kept.2⟩
  simp only [syncMissingCandidates, Script.bind_apply, Script.query_apply, Script.cond_apply]
  cases decide (store.candidates.rows.length ≤ store.candidateIndex.rows.length) with
  | true => exact ⟨rfl, rfl⟩
  | false =>
    apply @forEach_keeps SupersedeCandidate (fun state => state.truths = store.truths ∧ state.index = store.index)
    · exact fun candidate _ => replayed candidate
    · exact ⟨rfl, rfl⟩

theorem Complete.of_same (complete : Complete collection store) {after : StructuredStore} (truths : after.truths = store.truths)
    (index : after.index = store.index) : Complete collection after := by
  intro truth member here
  rw [truths] at member
  unfold StructuredStore.indexed
  rw [index]
  exact complete truth member here

theorem initRuntime_final (store : StructuredStore) :
    (initRuntime store).final =
      (syncMissingRows .relationFacts (syncMissingRows .confirmedRules (syncMissingCandidates
        (syncMissingRows .memoryEntries store).final).final).final).final := by
  simp only [initRuntime, Script.bind_apply]

theorem initRuntime_repairs (entries : Tracked .memoryEntries store) (facts : Tracked .relationFacts store) :
    (Tracked .memoryEntries (initRuntime store).final ∧ Complete .memoryEntries (initRuntime store).final) ∧
      Tracked .relationFacts (initRuntime store).final ∧ Complete .relationFacts (initRuntime store).final := by
  obtain ⟨entries, complete⟩ := entries.sync
  have facts := facts.sync_other .memoryEntries nofun
  have same := syncMissingCandidates_final (syncMissingRows .memoryEntries store).final
  have entries := (entries.of_same same.1 same.2).sync_other .confirmedRules nofun
  have complete := (complete.of_same same.1 same.2).sync_other .confirmedRules
  have facts := (facts.of_same same.1 same.2).sync_other .confirmedRules nofun
  rw [initRuntime_final]
  exact ⟨⟨entries.sync_other .relationFacts nofun, complete.sync_other .relationFacts⟩, facts.sync⟩

end

/-! ### The listings -/

section

variable {store : StructuredStore} {listing : Listing}

theorem Tracked.truth?_of_mem {collection : TruthCollection} (tracked : Tracked collection store) {truth : Truth}
    (member : truth ∈ store.truths.rows) (here : truth.collection = collection) :
    store.truth? collection truth.id = some truth := by
  cases found : store.truth? collection truth.id with
  | none => exact absurd rfl (StructuredStore.truth?_eq_none.mp found truth member here)
  | some other =>
    obtain ⟨known, there, ids⟩ := StructuredStore.mem_of_truth? found
    rw [tracked.unique other known truth member there here ids]

theorem clause_collection {statuses : List String} {columns : Columns} (passes : listing.clause statuses columns = true) :
    columns.collection = listing.collection := by
  cases listing <;> cases columns <;> first | rfl | cases passes

theorem ids_perm {collection : TruthCollection} (tracked : Tracked collection store) (complete : Complete collection store) :
    ((store.index.rows.filter fun row => row.columns.collection = collection).map IndexRow.id).Perm
      ((store.truths.rows.filter fun truth => truth.collection = collection).map Truth.id) := by
  have distinct : ((store.truths.rows.filter fun truth => truth.collection = collection).map Truth.id).Nodup := by
    apply List.Nodup.map_on
    · intro first firstMember second secondMember
      obtain ⟨firstKnown, firstHere⟩ := List.mem_filter.mp firstMember
      obtain ⟨secondKnown, secondHere⟩ := List.mem_filter.mp secondMember
      exact tracked.unique first firstKnown second secondKnown (of_decide_eq_true firstHere) (of_decide_eq_true secondHere)
    · exact (List.Nodup.of_map _ store.truths.nodup).filter _
  apply (List.perm_ext_iff_of_nodup (nodup_indexIds store collection) distinct).mpr
  intro id
  simp only [List.mem_map, List.mem_filter, decide_eq_true_eq]
  constructor
  · rintro ⟨row, ⟨listed, here⟩, rfl⟩
    obtain ⟨truth, member, there, ids, _⟩ := tracked.owned row listed here
    exact ⟨truth, ⟨member, there⟩, ids⟩
  · rintro ⟨truth, ⟨member, here⟩, rfl⟩
    obtain ⟨row, listed, place⟩ := StructuredStore.row_of_indexed (complete truth member here)
    exact ⟨row, ⟨listed, (congrArg Prod.fst place).trans here⟩, congrArg Prod.snd place⟩

variable (scan : Scan IndexRow) (projectName : String) (filter : ListFilter) (now : UtcTime)

def readVisible (store : StructuredStore) (listing : Listing) (id : String) : Option Truth :=
  (store.truth? listing.collection id).bind fun data =>
    if visible projectName filter now listing data then some data.onLoad else none

theorem listTruths_eq (tracked : Tracked listing.collection store) :
    (listTruths store scan projectName filter now listing).Perm
      (((store.index.rows.filter fun row => row.columns.collection = listing.collection).map IndexRow.id).filterMap
        (readVisible projectName filter now store listing)) := by
  unfold listTruths
  apply ((scan.perm _).filterMap _).trans
  rw [List.filterMap_filter, List.filterMap_map, List.filterMap_filter]
  apply List.Perm.of_eq
  apply List.filterMap_congr
  intro row listed
  by_cases here : row.columns.collection = listing.collection
  · obtain ⟨truth, member, there, ids, shows⟩ := tracked.owned row listed here
    have found : store.truth? listing.collection row.id = some truth := ids ▸ tracked.truth?_of_mem member there
    have both := row_and_payload projectName filter now listing (tracked.plain truth member there) shows
    simp only [here, decide_true, if_true, Function.comp_apply, readVisible, found, Option.bind_some]
    rw [← both]
    generalize (row.projectName = projectName && listing.clause filter.statuses row.columns &&
      (filter.includeHistory || currentOnlyClause now row) : Bool) = passes
    cases passes <;> rfl
  · rw [if_neg, if_neg (by simpa using here)]
    intro passes
    exact here (clause_collection (Bool.and_eq_true_iff.mp (Bool.and_eq_true_iff.mp passes).1).2)

theorem listTruths_perm (tracked : Tracked listing.collection store) (complete : Complete listing.collection store) :
    (listTruths store scan projectName filter now listing).Perm (visibleTruths store projectName filter now listing) := by
  apply (listTruths_eq scan projectName filter now tracked).trans
  apply ((ids_perm tracked complete).filterMap _).trans
  apply List.Perm.of_eq
  rw [List.filterMap_map, List.filterMap_filter, visibleTruths, ← List.filterMap_eq_map, List.filterMap_filter]
  apply List.filterMap_congr
  intro truth member
  by_cases here : truth.collection = listing.collection
  · simp only [here, decide_true, if_true, Function.comp_apply, readVisible, tracked.truth?_of_mem member here, Option.bind_some]
  · have hidden : visible projectName filter now listing truth = false := by
      by_contra shown
      rw [Bool.not_eq_false] at shown
      have passes := (Bool.and_eq_true_iff.mp (Bool.and_eq_true_iff.mp (Bool.and_eq_true_iff.mp shown).1).1).2
      exact here ((Body.collection_columns truth.body).symm.trans (clause_collection passes))
    rw [hidden, if_neg (by simpa using here), if_neg Bool.false_ne_true]

end

/-! ### Runs -/

/-- No memory entries and no relation facts, in the payloads and in the index. -/
structure StructuredStore.Fresh (store : StructuredStore) : Prop where
  truths : ∀ truth ∈ store.truths.rows, truth.collection = .confirmedRules
  index : ∀ row ∈ store.index.rows, row.columns.collection = .confirmedRules

theorem StructuredStore.Fresh.tracked {store : StructuredStore} (fresh : store.Fresh) {collection : TruthCollection}
    (listed : collection ≠ .confirmedRules) : Tracked collection store := by
  refine ⟨?_, ?_, ?_, ?_⟩
  · intro first member _ _ here
    exact absurd (here.symm.trans (fresh.truths first member)) listed
  · intro truth member here
    exact absurd (here.symm.trans (fresh.truths truth member)) listed
  · intro row member here
    exact absurd (here.symm.trans (fresh.index row member)) listed
  · intro truth member here
    exact absurd (here.symm.trans (fresh.truths truth member)) listed

/-- Where every call is careful, the store once it is opened again lists what its payloads make visible. -/
theorem listings_recover {start final : StructuredStore} {events : List CutCall} (fresh : start.Fresh)
    (run : Exec (Restrict CutCall.Step fun store event => event.Careful store) start events final)
    (scan : Scan IndexRow) (projectName : String) (filter : ListFilter) (now : UtcTime) :
    (∀ category deepRecall,
      (listMemoryEntries (initRuntime final).final scan projectName filter now category deepRecall).Perm
        (visibleTruths (initRuntime final).final projectName filter now (.memoryEntries category deepRecall))) ∧
      ∀ source target type,
        (listRelationFacts (initRuntime final).final scan projectName filter now source target type).Perm
          (visibleTruths (initRuntime final).final projectName filter now (.relationFacts source target type)) := by
  have kept : ∀ collection, collection ≠ .confirmedRules → Tracked collection final := by
    intro collection listed
    apply run.invariant (Tracked collection) _ (fresh.tracked listed)
    intro store event after tracked step
    exact tracked.step step.1 step.2
  obtain ⟨⟨entries, entriesComplete⟩, facts, factsComplete⟩ :=
    initRuntime_repairs (kept .memoryEntries nofun) (kept .relationFacts nofun)
  constructor
  · intro category deepRecall
    exact listTruths_perm scan projectName filter now entries entriesComplete
  · intro source target type
    exact listTruths_perm scan projectName filter now facts factsComplete

theorem fresh_emptyStore : emptyStore.Fresh := ⟨nofun, nofun⟩

def defaultFilter : ListFilter := ⟨"readable_truth", false, false⟩

def sampleNow : UtcTime := ⟨sampleMoment, rfl⟩

/-- A first save that was cut off before its index write is listed once the store is opened. -/
theorem listings_recover_first_save :
    (listMemoryEntries (initRuntime (emptyStore.rewriting (sampleEntry "m1" "user_confirmed"))).final .insertion "p" defaultFilter
      sampleNow none false).Perm
      (visibleTruths (initRuntime (emptyStore.rewriting (sampleEntry "m1" "user_confirmed"))).final "p" defaultFilter sampleNow
        (.memoryEntries none false)) := by
  have careful : CutCall.Careful emptyStore ⟨.save (sampleEntry "m1" "user_confirmed") nofun, some 1⟩ :=
    ⟨nofun, .inr (.inr nofun), fun _ => nofun, fun _ _ => by decide⟩
  have step : CutCall.Step emptyStore ⟨.save (sampleEntry "m1" "user_confirmed") nofun, some 1⟩
      (emptyStore.rewriting (sampleEntry "m1" "user_confirmed")) := rfl
  exact (listings_recover fresh_emptyStore (.cons ⟨step, careful⟩ (.nil _)) .insertion "p" defaultFilter sampleNow).1 none false

def cutConfirmation : List CutCall :=
  [⟨.save (sampleEntry "m1" "pending") nofun, none⟩, ⟨.updateMemoryEntryStatus "m1" "user_confirmed", some 1⟩]

/-- The entry is confirmed by its payload and never listed, since the index does not lack a row. -/
theorem listings_recover_fails : ¬ ∀ (start final : StructuredStore) (events : List CutCall), start.Fresh →
    Exec CutCall.Step start events final →
    ∀ (scan : Scan IndexRow) (projectName : String) (filter : ListFilter) (now : UtcTime),
      (∀ category deepRecall,
        (listMemoryEntries (initRuntime final).final scan projectName filter now category deepRecall).Perm
          (visibleTruths (initRuntime final).final projectName filter now (.memoryEntries category deepRecall))) ∧
        ∀ source target type,
          (listRelationFacts (initRuntime final).final scan projectName filter now source target type).Perm
            (visibleTruths (initRuntime final).final projectName filter now (.relationFacts source target type)) := by
  intro all
  have first : CutCall.Step emptyStore ⟨.save (sampleEntry "m1" "pending") nofun, none⟩
      (emptyStore.saved (sampleEntry "m1" "pending")) := rfl
  have second : CutCall.Step (emptyStore.saved (sampleEntry "m1" "pending"))
      ⟨.updateMemoryEntryStatus "m1" "user_confirmed", some 1⟩
      ((emptyStore.saved (sampleEntry "m1" "pending")).rewriting (sampleEntry "m1" "user_confirmed")) := by
    have found : (emptyStore.saved (sampleEntry "m1" "pending")).truth? .memoryEntries "m1" = some (sampleEntry "m1" "pending") := by
      decide +kernel
    have allowed : "user_confirmed" ∈ governanceStatuses ∧
        validateStatusTransition (sampleEntry "m1" "pending").status "user_confirmed" = true := by decide +kernel
    simp [CutCall.Step, CutCall.leaves, Script.leaves, updateMemoryEntryStatus, updateStatus, found, allowed.1, allowed.2,
      writeTruth, updateRow]
    rfl
  have run : Exec CutCall.Step emptyStore cutConfirmation
      ((emptyStore.saved (sampleEntry "m1" "pending")).rewriting (sampleEntry "m1" "user_confirmed")) :=
    .cons first (.cons second (.nil _))
  have same := ((all _ _ _ fresh_emptyStore run .insertion "p" defaultFilter sampleNow).1 none false).length_eq
  have differ : (listMemoryEntries (initRuntime ((emptyStore.saved (sampleEntry "m1" "pending")).rewriting
      (sampleEntry "m1" "user_confirmed"))).final .insertion "p" defaultFilter sampleNow none false).length ≠
    (visibleTruths (initRuntime ((emptyStore.saved (sampleEntry "m1" "pending")).rewriting
      (sampleEntry "m1" "user_confirmed"))).final "p" defaultFilter sampleNow (.memoryEntries none false)).length := by decide +kernel
  exact differ same

end HarnessMem.Structured
