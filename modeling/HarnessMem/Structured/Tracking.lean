import HarnessMem.Structured.Operations

/-! Listing through the index and the repair of the index when the store is opened. A listing
selects index rows first and then tests the payload under each of them.
-/

set_option autoImplicit false

namespace HarnessMem.Structured

open Library

/-! ### Filters -/

abbrev UtcTime : Type := { time : DateTime // time.offset = some 0 }

/-- `_current_only_clause`: texts are compared. -/
def currentOnlyClause (now : UtcTime) (row : IndexRow) : Bool :=
  (match row.validTo with
    | none => true
    | some text => now.1.isoformat < text) && row.supersededBy.isEmpty

/-- `_is_current_data`: times are compared. -/
def isCurrentData (now : UtcTime) (data : Truth) : Bool :=
  data.supersededBy.isEmpty &&
    match data.validTo with
    | none => true
    | some time => now.1.instant < time.instant

def tierVisible (deepRecall : Bool) (tier : Tier) : Bool := deepRecall || tier ∈ [Tier.hot, .warm]

def matchesFilter (given : Option String) (value : String) : Bool :=
  match given with
  | none => true
  | some wanted => wanted = "" || value = wanted

structure ListFilter where
  status : String
  includeHistory : Bool
  includeProvisional : Bool

def ListFilter.statuses (filter : ListFilter) : List String :=
  statusesForListFilter filter.status filter.includeProvisional filter.includeHistory

/-- What is asked of a record beside its project and its place in time. -/
inductive Listing where
  | memoryEntries (category : Option String) (deepRecall : Bool)
  | relationFacts (sourceEntity targetEntity relationType : Option String)

namespace Listing

def collection : Listing → TruthCollection
  | .memoryEntries .. => .memoryEntries
  | .relationFacts .. => .relationFacts

def clause (statuses : List String) : Listing → Columns → Bool
  | .memoryEntries category _, .memoryEntry rowCategory status compacted =>
    !compacted && statuses.contains status && matchesFilter category rowCategory
  | .relationFacts source target type, .relationFact rowSource rowTarget rowType status =>
    statuses.contains status && matchesFilter source rowSource && matchesFilter target rowTarget && matchesFilter type rowType
  | _, _ => false

/-- The tests of a payload in the loop over the rows. The filters of the WHERE clause alone are not repeated. -/
def check (statuses : List String) : Listing → Body → Bool
  | .memoryEntries _ deepRecall, .memoryEntry _ status compacted tier =>
    !compacted && statuses.contains status && tierVisible deepRecall tier
  | .relationFacts .., .relationFact _ _ _ status => statuses.contains status
  | _, _ => false

end Listing

variable (store : StructuredStore) (scan : Scan IndexRow) (projectName : String) (filter : ListFilter) (now : UtcTime)

/-- The listing of a collection: index rows in an order of the engine, and the payload of each that passes. -/
def listTruths (listing : Listing) : List Truth :=
  (scan.order (store.index.rows.filter fun row => row.projectName = projectName && listing.clause filter.statuses row.columns &&
      (filter.includeHistory || currentOnlyClause now row))).filterMap fun row =>
    (store.truth? listing.collection row.id).bind fun data =>
      if listing.check filter.statuses data.body && (filter.includeHistory || isCurrentData now data) then some data.onLoad
      else none

/-- `list_memory_entries` without an effective limit. -/
def listMemoryEntries (category : Option String) (deepRecall : Bool) : List Truth :=
  listTruths store scan projectName filter now (.memoryEntries category deepRecall)

/-- `list_relation_facts` without an effective limit. -/
def listRelationFacts (sourceEntity targetEntity relationType : Option String) : List Truth :=
  listTruths store scan projectName filter now (.relationFacts sourceEntity targetEntity relationType)

def visible (listing : Listing) (data : Truth) : Bool :=
  data.projectName = projectName && listing.clause filter.statuses data.body.columns &&
    listing.check filter.statuses data.body && (filter.includeHistory || isCurrentData now data)

def visibleTruths (listing : Listing) : List Truth :=
  (store.truths.rows.filter (visible projectName filter now listing)).map Truth.onLoad

/-! ### Opening the store -/

/-- `_replay_canonical_payload` of a payload whose id the index does not hold. -/
def replayTruth (payload : Truth) : StoreScript Unit :=
  if payload.id = "" then pure ()
  else do
    bif ← .query fun store => (store.index.get? (payload.collection, payload.id)).isSome then pure ()
    else saveTruth payload.onLoad

def replayCandidate (payload : SupersedeCandidate) : StoreScript Unit :=
  if payload.id = "" then pure ()
  else do
    bif ← .query fun store => (store.candidateIndex.get? payload.id).isSome then pure ()
    else do
      let _ ← saveSupersedeCandidate payload
      pure ()

def forEach {α : Type} (body : α → StoreScript Unit) : List α → StoreScript Unit
  | [] => pure ()
  | item :: rest => do
    body item
    forEach body rest

/-- `list_payloads` in the order of project and id. -/
def StructuredStore.payloads (collection : TruthCollection) : List Truth :=
  (store.truths.rows.filter fun truth => truth.collection = collection).insertionSort fun first second =>
    [first.projectName, first.id] ≤ [second.projectName, second.id]

def StructuredStore.rowsSuffice (collection : TruthCollection) : Bool :=
  (store.payloads collection).length ≤ (store.index.rows.filter fun row => row.columns.collection = collection).length

/-- `_sync_missing_index_rows_from_canonical` for one collection: the payloads are gone through only where
the index has fewer rows. -/
def syncMissingRows (collection : TruthCollection) : StoreScript Unit := do
  bif ← .query fun store => store.rowsSuffice collection then pure ()
  else do
    let payloads ← .query fun store => store.payloads collection
    forEach replayTruth payloads

def syncMissingCandidates : StoreScript Unit := do
  bif ← .query fun store => decide (store.candidates.rows.length ≤ store.candidateIndex.rows.length) then pure ()
  else do
    let payloads ← .query fun store => store.candidates.rows.insertionSort fun first second =>
      [first.projectName, first.id] ≤ [second.projectName, second.id]
    forEach replayCandidate payloads

/-- `init_runtime`, the collections in their order. -/
def initRuntime : StoreScript Unit := do
  syncMissingRows .memoryEntries
  syncMissingCandidates
  syncMissingRows .confirmedRules
  syncMissingRows .relationFacts

end HarnessMem.Structured

/-! When the index keeps track of the payloads: what a row shows of its payload, and the writes
after which it still shows enough for the listings.
-/

namespace HarnessMem.Structured

open Library

/-! ### What a row shows -/

def Body.compacted : Body → Bool
  | .memoryEntry _ _ compacted _ => compacted
  | _ => false

/-- The end of validity is not given west of UTC, where its text runs ahead of its time, or does not matter. -/
def Truth.Plain (truth : Truth) : Prop :=
  truth.body.compacted = true ∨ truth.supersededBy ≠ [] ∨ ∀ time ∈ truth.validTo, 0 ≤ time.offset.getD 0

/-- The row has what the WHERE clauses read of the payload, unless the tests of the payload hide it anyway. -/
def Shows (row : IndexRow) (truth : Truth) : Prop :=
  truth.body.compacted = true ∨
    row.projectName = truth.projectName ∧ row.columns = truth.body.columns ∧
      (truth.supersededBy ≠ [] ∨ row.supersededBy = [] ∧ row.validTo = truth.validTo.map DateTime.isoformat)

theorem shows_indexRow (truth : Truth) : Shows truth.indexRow truth := by
  by_cases superseded : truth.supersededBy = []
  · exact .inr ⟨rfl, rfl, .inr ⟨superseded, rfl⟩⟩
  · exact .inr ⟨rfl, rfl, .inl superseded⟩

theorem isoformat_lt_of_instant {now : UtcTime} {time : DateTime} (later : now.1.instant < time.instant)
    (east : 0 ≤ time.offset.getD 0) : now.1.isoformat < time.isoformat := by
  apply DateTime.isoformat_lt_iff.mpr
  have utc : now.1.offset.getD 0 = 0 := by rw [now.2, Option.getD_some]
  unfold DateTime.instant at later
  rw [utc] at later
  omega

theorem currentOnlyClause_of_shown {now : UtcTime} {row : IndexRow} {truth : Truth} (plain : truth.Plain)
    (compacted : truth.body.compacted ≠ true) (shows : Shows row truth) (current : isCurrentData now truth = true) :
    currentOnlyClause now row = true := by
  obtain ⟨free, valid⟩ := Bool.and_eq_true_iff.mp current
  have empty : truth.supersededBy = [] := List.isEmpty_iff.mp free
  obtain ⟨_, _, superseded | ⟨rowFree, same⟩⟩ := shows.resolve_left compacted
  · exact absurd empty superseded
  · have east := (plain.resolve_left compacted).resolve_left (not_not.mpr empty)
    rw [currentOnlyClause, rowFree, same]
    cases ends : truth.validTo with
    | none => rfl
    | some time =>
      rw [ends] at valid
      simpa using isoformat_lt_of_instant (of_decide_eq_true valid) (east time ends)

theorem check_compacted {statuses : List String} {listing : Listing} {body : Body} (compacted : body.compacted = true) :
    listing.check statuses body = false := by
  cases body with
  | memoryEntry category status gone tier =>
    cases listing with
    | memoryEntries wanted deepRecall =>
      have gone : gone = true := compacted
      simp [Listing.check, gone]
    | relationFacts source target type => rfl
  | relationFact source target type status => cases compacted
  | confirmedRule => cases compacted

theorem row_and_payload (projectName : String) (filter : ListFilter) (now : UtcTime) (listing : Listing) {row : IndexRow}
    {truth : Truth} (plain : truth.Plain) (shows : Shows row truth) :
    ((row.projectName = projectName && listing.clause filter.statuses row.columns &&
        (filter.includeHistory || currentOnlyClause now row)) &&
      (listing.check filter.statuses truth.body && (filter.includeHistory || isCurrentData now truth))) =
    visible projectName filter now listing truth := by
  unfold visible
  by_cases compacted : truth.body.compacted = true
  · simp [check_compacted compacted]
  · obtain ⟨sameProject, sameColumns, _⟩ := shows.resolve_left compacted
    rw [sameProject, sameColumns]
    have current : isCurrentData now truth = true → currentOnlyClause now row = true :=
      currentOnlyClause_of_shown plain compacted shows
    rw [Bool.eq_iff_iff]
    simp only [Bool.and_eq_true, Bool.or_eq_true, decide_eq_true_eq]
    tauto

/-! ### The invariant -/

def StructuredStore.Alone (store : StructuredStore) (data : Truth) : Prop :=
  ∀ other ∈ store.truths.rows, other.key = data.key ∨ other.collection = data.collection ∧ other.id = data.id →
    other.key = data.key ∧ other.id = data.id

/-- In a collection ids are used once, every index row shows the payload of its id, and a payload that
has no row has an id. -/
structure Tracked (collection : TruthCollection) (store : StructuredStore) : Prop where
  unique : ∀ first ∈ store.truths.rows, ∀ second ∈ store.truths.rows, first.collection = collection →
    second.collection = collection → first.id = second.id → first = second
  plain : ∀ truth ∈ store.truths.rows, truth.collection = collection → truth.Plain
  owned : ∀ row ∈ store.index.rows, row.columns.collection = collection →
    ∃ truth ∈ store.truths.rows, truth.collection = collection ∧ truth.id = row.id ∧ Shows row truth
  named : ∀ truth ∈ store.truths.rows, truth.collection = collection →
    (∀ row ∈ store.index.rows, row.key ≠ (collection, truth.id)) → truth.id ≠ ""

/-! ### Writes that keep it -/

section

variable {collection : TruthCollection} {store after : StructuredStore} {data old : Truth}

theorem Tracked.shows (tracked : Tracked collection store) {truth : Truth} (member : truth ∈ store.truths.rows)
    {row : IndexRow} (listed : row ∈ store.index.rows) (same : row.key = (collection, truth.id))
    (here : truth.collection = collection) : Shows row truth := by
  obtain ⟨owner, known, there, ids, shows⟩ := tracked.owned row listed (congrArg Prod.fst same)
  have owns : owner = truth := tracked.unique owner known truth member there here (ids.trans (congrArg Prod.snd same))
  exact owns ▸ shows

theorem Tracked.alone (tracked : Tracked collection store) (member : old ∈ store.truths.rows) (keys : data.key = old.key)
    (ids : data.id = old.id) (here : data.collection = collection) : store.Alone data := by
  intro other known either
  rw [keys, ids]
  have oldHere : old.collection = collection := (congrArg Prod.fst keys).symm.trans here
  have same : other = old := by
    rcases either with sameKey | ⟨sameCollection, sameId⟩
    · exact store.truths.eq_of_key known member (sameKey.trans keys)
    · exact tracked.unique other known old member (sameCollection.trans here) oldHere (sameId.trans ids)
  rw [same]
  exact ⟨rfl, rfl⟩

theorem Tracked.written (tracked : Tracked collection store) (truths : after.truths = store.truths.upsert data)
    (others : ∀ row, row.key ≠ (data.collection, data.id) → (row ∈ after.index.rows ↔ row ∈ store.index.rows))
    (own : data.collection = collection → store.Alone data ∧ data.Plain ∧
      (∀ row ∈ after.index.rows, row.key = (collection, data.id) → Shows row data) ∧
      ((∀ row ∈ after.index.rows, row.key ≠ (collection, data.id)) → data.id ≠ "")) :
    Tracked collection after := by
  have members : ∀ truth, truth ∈ after.truths.rows ↔ truth = data ∨ truth ∈ store.truths.rows ∧ truth.key ≠ data.key := by
    intro truth
    rw [truths, Table.mem_upsert]
  -- another record of the collection has another id than the written one
  have apart : ∀ truth ∈ store.truths.rows, truth.collection = collection → truth.key ≠ data.key →
      data.collection = collection → truth.id ≠ data.id := by
    intro truth member here keys dataHere ids
    exact keys ((own dataHere).1 truth member (.inr ⟨here.trans dataHere.symm, ids⟩)).1
  -- its index row is not the one of the written id
  have elsewhere : ∀ truth ∈ store.truths.rows, truth.collection = collection → truth.key ≠ data.key →
      ∀ row : IndexRow, row.key = (collection, truth.id) → row.key ≠ (data.collection, data.id) := by
    intro truth member here keys row place same
    rw [place] at same
    obtain ⟨collections, ids⟩ := Prod.mk.inj same
    exact apart truth member here keys collections.symm ids
  refine ⟨?_, ?_, ?_, ?_⟩
  · intro first firstMember second secondMember firstHere secondHere ids
    rcases (members first).mp firstMember with rfl | ⟨firstOld, firstKey⟩
    · rcases (members second).mp secondMember with rfl | ⟨secondOld, secondKey⟩
      · rfl
      · exact absurd ids.symm (apart second secondOld secondHere secondKey firstHere)
    · rcases (members second).mp secondMember with rfl | ⟨secondOld, secondKey⟩
      · exact absurd ids (apart first firstOld firstHere firstKey secondHere)
      · exact tracked.unique first firstOld second secondOld firstHere secondHere ids
  · intro truth member here
    rcases (members truth).mp member with rfl | ⟨before, _⟩
    · exact (own here).2.1
    · exact tracked.plain truth before here
  · intro row listed here
    by_cases place : row.key = (data.collection, data.id)
    · have dataHere : data.collection = collection := (congrArg Prod.fst place).symm.trans here
      exact ⟨data, (members data).mpr (.inl rfl), dataHere, (congrArg Prod.snd place).symm,
        (own dataHere).2.2.1 row listed (dataHere ▸ place)⟩
    · obtain ⟨truth, before, there, ids, shows⟩ := tracked.owned row ((others row place).mp listed) here
      have keys : truth.key ≠ data.key := by
        intro same
        have dataHere : data.collection = collection := (congrArg Prod.fst same).symm.trans there
        have sameId := ((own dataHere).1 truth before (.inl same)).2
        exact place (Prod.ext (here.trans dataHere.symm) (ids.symm.trans sameId))
      exact ⟨truth, (members truth).mpr (.inr ⟨before, keys⟩), there, ids, shows⟩
  · intro truth member here unlisted
    rcases (members truth).mp member with rfl | ⟨before, keys⟩
    · exact (own here).2.2.2 unlisted
    · apply tracked.named truth before here
      intro row listed place
      exact unlisted row ((others row (elsewhere truth before here keys row place)).mpr listed) place

theorem Tracked.updated (tracked : Tracked collection store) (member : old ∈ store.truths.rows) (keys : data.key = old.key)
    (ids : data.id = old.id) (plain : data.collection = collection → data.Plain) (update : RowUpdate)
    (shows : data.collection = collection → ∀ row, Shows row old → Shows (update.change row) data) :
    Tracked collection { store with
      truths := store.truths.upsert data
      index := updatedIndex store.index (data.collection, data.id) update } := by
  have rows : ∀ row, row ∈ (updatedIndex store.index (data.collection, data.id) update).rows ↔
      ∃ before ∈ store.index.rows, (if before.key = (data.collection, data.id) then update.change before else before) = row :=
    fun row => List.mem_map
  apply tracked.written rfl
  · intro row place
    rw [rows]
    constructor
    · rintro ⟨before, listed, rfl⟩
      split at place
      · next same => exact absurd ((update.same before).trans same) place
      · next differs => rwa [if_neg differs]
    · intro listed
      exact ⟨row, listed, if_neg place⟩
  · intro here
    have oldHere : old.collection = collection := (congrArg Prod.fst keys).symm.trans here
    refine ⟨tracked.alone member keys ids here, plain here, ?_, ?_⟩
    · intro row listed place
      obtain ⟨before, listedBefore, rfl⟩ := (rows row).mp listed
      split at place
      · next same =>
        rw [if_pos same]
        exact shows here before (tracked.shows member listedBefore (by rw [same, here, ids]) oldHere)
      · next differs => exact absurd (here ▸ place) differs
    · intro unlisted
      rw [ids]
      apply tracked.named old member oldHere
      intro row listed place
      have same : row.key = (data.collection, data.id) := by rw [place, here, ids]
      exact unlisted (update.change row) ((rows _).mpr ⟨row, listed, if_pos same⟩)
        ((update.same row).trans (by rw [place, ids]))

theorem Tracked.rewritten (tracked : Tracked collection store) (member : old ∈ store.truths.rows) (keys : data.key = old.key)
    (ids : data.id = old.id) (plain : data.collection = collection → data.Plain)
    (shows : data.collection = collection → ∀ row ∈ store.index.rows, row.key = (collection, old.id) → Shows row old →
      Shows row data) :
    Tracked collection { store with truths := store.truths.upsert data } := by
  apply tracked.written rfl
  · intro row _
    exact Iff.rfl
  · intro here
    have oldHere : old.collection = collection := (congrArg Prod.fst keys).symm.trans here
    refine ⟨tracked.alone member keys ids here, plain here, ?_, ?_⟩
    · intro row listed place
      rw [ids] at place
      exact shows here row listed place (tracked.shows member listed place oldHere)
    · rw [ids]
      exact tracked.named old member oldHere

theorem Tracked.saved (tracked : Tracked collection store)
    (own : data.collection = collection → store.Alone data ∧ data.Plain) :
    Tracked collection { store with truths := store.truths.upsert data, index := store.index.upsert data.indexRow } := by
  apply tracked.written rfl
  · intro row place
    rw [Table.mem_upsert, Truth.indexRow_key]
    constructor
    · rintro (rfl | ⟨listed, _⟩)
      · exact absurd data.indexRow_key place
      · exact listed
    · intro listed
      exact .inr ⟨listed, place⟩
  · intro here
    refine ⟨(own here).1, (own here).2, ?_, ?_⟩
    · intro row listed place
      rcases (Table.mem_upsert _ _ _).mp listed with rfl | ⟨_, differs⟩
      · exact shows_indexRow data
      · rw [Truth.indexRow_key, here] at differs
        exact absurd place differs
    · intro unlisted
      exact absurd (by rw [Truth.indexRow_key, here]) (unlisted data.indexRow ((Table.mem_upsert _ _ _).mpr (.inl rfl)))

end

end HarnessMem.Structured
