import HarnessMem.Library.JsonText
import HarnessMem.Library.Scripts
import HarnessMem.Structured.Operations
import HarnessMem.Structured.Records

/-! The confirmation of a supersede candidate on payloads as they lie in the canonical store, whose keys
may be missing, and on the rows of the derived index, which may be missing too.
-/

set_option autoImplicit false

namespace HarnessMem.Confirming

open Library
open Structured (TruthCollection validateMaintenanceReviewTransition)

/-- A payload of a truth collection: the keys a confirmation writes, each of which an older payload may lack.
What else the payload has is carried along and left out here. -/
structure TruthPayload where
  validTo : Option (Option String) := none
  supersedes : Option (List String) := none
  supersededBy : Option (List String) := none
  deriving DecidableEq

structure TruthRow where
  validTo : Option String
  supersedes : String
  supersededBy : String
  deriving DecidableEq

structure CandidatePayload where
  targetType : String
  targetId : String
  replacementType : String
  replacementId : String
  status : Option String := none
  reviewedAt : Option String := none
  reviewerId : Option String := none
  deriving DecidableEq

structure CandidateRow where
  status : String
  reviewedAt : Option String
  reviewerId : Option String
  deriving DecidableEq

abbrev Place := TruthCollection × String

structure Stores where
  truths : Place → Option TruthPayload
  rows : Place → Option TruthRow
  candidates : String → Option CandidatePayload
  candidateRows : String → Option CandidateRow

abbrev StoreScript := Script Stores

/-! ### What is current -/

/-- `_is_current_data`, where `later` tells which times the clock has yet to reach. -/
def TruthPayload.isCurrent (later : String → Bool) (data : TruthPayload) : Bool :=
  data.supersededBy.getD [] = [] && ((data.validTo.join.getD "") = "" || later (data.validTo.join.getD ""))

/-- `_current_only_clause`. -/
def TruthRow.isCurrent (later : String → Bool) (row : TruthRow) : Bool :=
  ((row.validTo.getD "") = "" || later (row.validTo.getD "")) && (row.supersededBy = "" || row.supersededBy = "[]")

/-! ### Snapshots -/

/-- `value.isoformat()`. -/
def stamp (time : DateTime) : String := String.ofList time.isoformat

def applySupersedeUpdates (data : TruthPayload) (validTo : Option DateTime) (addSupersedes addSupersededBy : String) : TruthPayload :=
  let withLink (links : Option (List String)) (link : String) : Option (List String) :=
    if link = "" then links
    else some (if link ∈ links.getD [] then links.getD [] else links.getD [] ++ [link])
  { validTo := if validTo.isSome then some (validTo.map stamp) else data.validTo
    supersedes := withLink data.supersedes addSupersedes
    supersededBy := withLink data.supersededBy addSupersededBy }

def spelledLinks (links : List String) : String :=
  String.ofList (JsonValue.dumpsSpaced true (.arr (links.map .str)))

/-- `SQLiteIndex.update` of a row with those of the three keys that the data has. -/
def TruthRow.updated (data : TruthPayload) (row : TruthRow) : TruthRow where
  validTo := data.validTo.getD row.validTo
  supersedes := (data.supersedes.map spelledLinks).getD row.supersedes
  supersededBy := (data.supersededBy.map spelledLinks).getD row.supersededBy

def TruthPayload.isBare (data : TruthPayload) : Bool := data.validTo.isNone && data.supersedes.isNone && data.supersededBy.isNone

/-- `write_record_payload`. -/
def writeTruth (place : Place) (data : TruthPayload) : StoreScript Unit :=
  .write fun store => { store with truths := Function.update store.truths place (some data) }

/-- `index.update` of a truth, which tells whether there was a row. -/
def updateRow (place : Place) (data : TruthPayload) : StoreScript Bool := do
  let known ← .query fun store => (store.rows place).isSome
  .write fun store => { store with rows := Function.update store.rows place ((store.rows place).map (·.updated data)) }
  return known

def persistSnapshot (place : Place) (data : TruthPayload) : StoreScript Bool := do
  bif ← .query fun store => (store.truths place).isSome then do
    writeTruth place data
    bif data.isBare then return true
    else updateRow place data
  else return false

/-! ### The candidate -/

def CandidatePayload.currentStatus (data : CandidatePayload) : String := data.status.getD "pending"

def updateSupersedeCandidateStatus (id status : String) (reviewedAt : DateTime) (reviewerId : Option String) : StoreScript Bool := do
  match ← .query fun store => store.candidates id with
  | none => return false
  | some data =>
    if validateMaintenanceReviewTransition data.currentStatus status then
      bif ← .query fun store => (store.candidateRows id).isSome then do
        let row : CandidateRow := ⟨status, some (stamp reviewedAt), reviewerId⟩
        let reviewed := { data with status := some status, reviewedAt := some (stamp reviewedAt), reviewerId := reviewerId }
        .write fun store => { store with candidateRows := Function.update store.candidateRows id (some row) }
        .write fun store => { store with candidates := Function.update store.candidates id (some reviewed) }
        return true
      else return false
    else return false

def placeOf (truthType truthId : String) : Option Place := (TruthCollection.forType? truthType).map fun collection => (collection, truthId)

def Stores.load? (store : Stores) (truthType truthId : String) : Option (Place × TruthPayload) :=
  (placeOf truthType truthId).bind fun place => (store.truths place).map fun data => (place, data)

/-- What `confirm_supersede_candidate` goes on with. -/
structure Loaded where
  candidate : CandidatePayload
  target : Place
  targetOriginal : TruthPayload
  replacement : Place
  replacementOriginal : TruthPayload

/-- The guards of `confirm_supersede_candidate`. -/
def Stores.loaded? (store : Stores) (id : String) : Option Loaded := do
  let candidate ← store.candidates id
  if candidate.currentStatus ≠ "pending" then none
  else if candidate.targetType = candidate.replacementType ∧ candidate.targetId = candidate.replacementId then none
  else
    let target ← store.load? candidate.targetType candidate.targetId
    let replacement ← store.load? candidate.replacementType candidate.replacementId
    return ⟨candidate, target.1, target.2, replacement.1, replacement.2⟩

def Loaded.targetUpdated (loaded : Loaded) (reviewedAt : DateTime) : TruthPayload :=
  applySupersedeUpdates loaded.targetOriginal (some reviewedAt) "" loaded.candidate.replacementId

def Loaded.replacementUpdated (loaded : Loaded) : TruthPayload :=
  applySupersedeUpdates loaded.replacementOriginal none loaded.candidate.targetId ""

def confirmSupersedeCandidate (id : String) (reviewedAt : DateTime) (reviewerId : Option String) :
    StoreScript (Option CandidatePayload) := do
  match ← .query fun store => store.loaded? id with
  | none => return none
  | some loaded =>
    bif ← persistSnapshot loaded.target (loaded.targetUpdated reviewedAt) then do
      bif ← persistSnapshot loaded.replacement loaded.replacementUpdated then do
        bif ← updateSupersedeCandidateStatus id "user_confirmed" reviewedAt reviewerId then
          .query fun store => store.candidates id
        else do
          let _ ← persistSnapshot loaded.replacement loaded.replacementOriginal
          let _ ← persistSnapshot loaded.target loaded.targetOriginal
          return none
      else do
        let _ ← persistSnapshot loaded.target loaded.targetOriginal
        return none
    else return none

end HarnessMem.Confirming

/-! What a confirmation leaves behind when it does not succeed. -/

namespace HarnessMem.Confirming

open Library
open Structured (TruthCollection validateMaintenanceReviewTransition)

/-! ### One snapshot -/

def Stores.persisted (store : Stores) (place : Place) (data : TruthPayload) : Stores :=
  { store with
    truths := Function.update store.truths place (some data)
    rows := Function.update store.rows place ((store.rows place).map (·.updated data)) }

section
variable (store : Stores) (place other : Place) (data : TruthPayload)

@[simp] theorem persisted_truths_self : (store.persisted place data).truths place = some data := Function.update_self ..

@[simp] theorem persisted_rows_self : (store.persisted place data).rows place = (store.rows place).map (·.updated data) :=
  Function.update_self ..

theorem persisted_truths_of_ne {other} (apart : other ≠ place) : (store.persisted place data).truths other = store.truths other :=
  Function.update_of_ne apart ..

theorem persisted_rows_of_ne {other} (apart : other ≠ place) : (store.persisted place data).rows other = store.rows other :=
  Function.update_of_ne apart ..

@[simp] theorem persisted_candidates : (store.persisted place data).candidates = store.candidates := rfl

@[simp] theorem persisted_candidateRows : (store.persisted place data).candidateRows = store.candidateRows := rfl

end

theorem updated_bare {data : TruthPayload} (bare : data.isBare = true) (row : TruthRow) : row.updated data = row := by
  simp only [TruthPayload.isBare, Bool.and_eq_true, Option.isNone_iff_eq_none] at bare
  simp [TruthRow.updated, bare]

theorem persistSnapshot_spec {store : Stores} {place : Place} {data : TruthPayload} (known : (store.truths place).isSome = true) :
    (persistSnapshot place data store).final = store.persisted place data ∧
      (persistSnapshot place data store).value = (data.isBare || (store.rows place).isSome) := by
  cases bare : data.isBare with
  | true =>
    have same : (store.rows place).map (·.updated data) = store.rows place := by
      cases store.rows place with
      | none => rfl
      | some row => exact congrArg some (updated_bare bare row)
    simp [persistSnapshot, writeTruth, known, bare, Stores.persisted, same]
  | false => simp [persistSnapshot, writeTruth, updateRow, known, bare, Stores.persisted]

/-! ### What a confirmation goes on with -/

/-- The records a confirmation has loaded. -/
structure Found (store : Stores) (id : String) (loaded : Loaded) : Prop where
  candidate : store.candidates id = some loaded.candidate
  pending : loaded.candidate.currentStatus = "pending"
  targetPlace : placeOf loaded.candidate.targetType loaded.candidate.targetId = some loaded.target
  target : store.truths loaded.target = some loaded.targetOriginal
  replacementPlace : placeOf loaded.candidate.replacementType loaded.candidate.replacementId = some loaded.replacement
  replacement : store.truths loaded.replacement = some loaded.replacementOriginal
  apart : loaded.target ≠ loaded.replacement

theorem load?_eq_some {store : Stores} {truthType truthId : String} {found : Place × TruthPayload}
    (loads : store.load? truthType truthId = some found) :
    placeOf truthType truthId = some found.1 ∧ store.truths found.1 = some found.2 := by
  obtain ⟨place, named, loads⟩ := Option.bind_eq_some_iff.mp loads
  obtain ⟨data, there, rfl⟩ := Option.map_eq_some_iff.mp loads
  exact ⟨named, there⟩

theorem placeOf_injective {firstType firstId secondType secondId : String} {place : Place}
    (first : placeOf firstType firstId = some place) (second : placeOf secondType secondId = some place) :
    firstType = secondType ∧ firstId = secondId := by
  obtain ⟨collection, known, rfl⟩ := Option.map_eq_some_iff.mp first
  obtain ⟨other, also, same⟩ := Option.map_eq_some_iff.mp second
  obtain ⟨rfl, rfl⟩ := Prod.mk.injEq .. ▸ same
  exact ⟨Structured.forType?_injective known also, rfl⟩

theorem loaded?_eq_some {store : Stores} {id : String} {loaded : Loaded} (found : store.loaded? id = some loaded) :
    Found store id loaded := by
  obtain ⟨candidate, present, found⟩ := Option.bind_eq_some_iff.mp found
  split at found
  · cases found
  rename_i pending
  split at found
  · cases found
  rename_i differ
  obtain ⟨target, targetLoads, found⟩ := Option.bind_eq_some_iff.mp found
  obtain ⟨replacement, replacementLoads, found⟩ := Option.bind_eq_some_iff.mp found
  cases found
  obtain ⟨targetPlace, targetThere⟩ := load?_eq_some targetLoads
  obtain ⟨replacementPlace, replacementThere⟩ := load?_eq_some replacementLoads
  refine ⟨present, not_not.mp pending, targetPlace, targetThere, replacementPlace, replacementThere, fun same => differ ?_⟩
  rw [show target.1 = replacement.1 from same] at targetPlace
  exact placeOf_injective targetPlace replacementPlace

/-! ### The ways a confirmation ends -/

section
variable (store : Stores) (id : String) (loaded : Loaded) (reviewedAt : DateTime) (reviewerId : Option String)

def targetWritten : Stores := store.persisted loaded.target (loaded.targetUpdated reviewedAt)

def bothWritten : Stores := (targetWritten store loaded reviewedAt).persisted loaded.replacement loaded.replacementUpdated

def confirmedPayload : CandidatePayload :=
  { loaded.candidate with status := some "user_confirmed", reviewedAt := some (stamp reviewedAt), reviewerId := reviewerId }

def confirmedIn (stores : Stores) : Stores :=
  { stores with
    candidateRows := Function.update stores.candidateRows id (some ⟨"user_confirmed", some (stamp reviewedAt), reviewerId⟩)
    candidates := Function.update stores.candidates id (some (confirmedPayload loaded reviewedAt reviewerId)) }

/-- The stores and the answer, by the index row that is missing. -/
inductive Ended : Stores → Option CandidatePayload → Prop where
  | targetUnlisted : store.rows loaded.target = none → Ended (targetWritten store loaded reviewedAt) none
  | replacementUnlisted : store.rows loaded.target ≠ none → loaded.replacementUpdated.isBare = false →
      store.rows loaded.replacement = none →
      Ended ((bothWritten store loaded reviewedAt).persisted loaded.target loaded.targetOriginal) none
  | candidateUnlisted : store.rows loaded.target ≠ none →
      (loaded.replacementUpdated.isBare = true ∨ store.rows loaded.replacement ≠ none) → store.candidateRows id = none →
      Ended (((bothWritten store loaded reviewedAt).persisted loaded.replacement loaded.replacementOriginal).persisted
        loaded.target loaded.targetOriginal) none
  | confirmed : store.rows loaded.target ≠ none →
      (loaded.replacementUpdated.isBare = true ∨ store.rows loaded.replacement ≠ none) → store.candidateRows id ≠ none →
      Ended (confirmedIn id loaded reviewedAt reviewerId (bothWritten store loaded reviewedAt))
        (some (confirmedPayload loaded reviewedAt reviewerId))

end

section
variable {store : Stores} {id : String} {loaded : Loaded} {reviewedAt : DateTime} {reviewerId : Option String}

theorem targetUpdated_not_bare : (loaded.targetUpdated reviewedAt).isBare = false := by
  simp [Loaded.targetUpdated, applySupersedeUpdates, TruthPayload.isBare]

theorem updateStatus_spec (present : store.candidates id = some loaded.candidate) (pending : loaded.candidate.currentStatus = "pending") :
    (updateSupersedeCandidateStatus id "user_confirmed" reviewedAt reviewerId store).final =
        (bif (store.candidateRows id).isSome then confirmedIn id loaded reviewedAt reviewerId store else store) ∧
      (updateSupersedeCandidateStatus id "user_confirmed" reviewedAt reviewerId store).value = (store.candidateRows id).isSome := by
  have transition : validateMaintenanceReviewTransition "pending" "user_confirmed" = true := by decide
  cases listed : (store.candidateRows id).isSome <;>
    simp [updateSupersedeCandidateStatus, present, pending, transition, listed, confirmedIn, confirmedPayload]

theorem confirm_ended (found : Found store id loaded) (loads : store.loaded? id = some loaded) :
    Ended store id loaded reviewedAt reviewerId (confirmSupersedeCandidate id reviewedAt reviewerId store).final
      (confirmSupersedeCandidate id reviewedAt reviewerId store).value := by
  have first := @persistSnapshot_spec store loaded.target (loaded.targetUpdated reviewedAt) (by rw [found.target]; rfl)
  have second := @persistSnapshot_spec (targetWritten store loaded reviewedAt) loaded.replacement loaded.replacementUpdated
    (by rw [targetWritten, persisted_truths_of_ne _ _ _ found.apart.symm, found.replacement]; rfl)
  have undoTarget := @persistSnapshot_spec (bothWritten store loaded reviewedAt) loaded.target loaded.targetOriginal
    (by rw [bothWritten, persisted_truths_of_ne _ _ _ found.apart, targetWritten, persisted_truths_self]; rfl)
  have undoReplacement := @persistSnapshot_spec (bothWritten store loaded reviewedAt) loaded.replacement loaded.replacementOriginal
    (by rw [bothWritten, persisted_truths_self]; rfl)
  have undoAfter := @persistSnapshot_spec ((bothWritten store loaded reviewedAt).persisted loaded.replacement loaded.replacementOriginal)
    loaded.target loaded.targetOriginal
    (by rw [persisted_truths_of_ne _ _ _ found.apart, bothWritten, persisted_truths_of_ne _ _ _ found.apart, targetWritten,
      persisted_truths_self]; rfl)
  rw [targetUpdated_not_bare, Bool.false_or] at first
  rw [targetWritten, persisted_rows_of_ne _ _ _ found.apart.symm, ← targetWritten] at second
  have status := @updateStatus_spec (bothWritten store loaded reviewedAt) id loaded reviewedAt reviewerId found.candidate found.pending
  have written : (bothWritten store loaded reviewedAt).candidateRows = store.candidateRows := rfl
  rw [written] at status
  unfold confirmSupersedeCandidate
  simp only [Script.bind_apply, Script.query_apply, loads]
  cases targetRow : store.rows loaded.target with
  | none =>
    rw [targetRow] at first
    simp only [Script.bind_apply, first, Script.cond_apply, Option.isSome_none, cond_false, Script.pure_apply]
    exact .targetUnlisted targetRow
  | some row =>
    have targetListed : store.rows loaded.target ≠ none := by simp [targetRow]
    rw [targetRow] at first
    simp only [first, Script.cond_apply, Option.isSome_some, cond_true]
    rw [← targetWritten, ← bothWritten] at *
    cases written : loaded.replacementUpdated.isBare || (store.rows loaded.replacement).isSome with
    | false =>
      rw [written] at second
      simp only [Bool.or_eq_false_iff, Option.isSome_eq_false_iff, Option.isNone_iff_eq_none] at written
      simp only [Script.bind_apply, second, Script.cond_apply, cond_false, undoTarget, Script.pure_apply]
      exact .replacementUnlisted targetListed written.1 written.2
    | true =>
      rw [written] at second
      simp only [Bool.or_eq_true, Option.isSome_iff_ne_none] at written
      simp only [Script.bind_apply, second, Script.cond_apply, cond_true, status]
      cases candidateRow : store.candidateRows id with
      | none =>
        simp only [Option.isSome_none, cond_false, undoReplacement, undoAfter, Script.pure_apply]
        exact .candidateUnlisted targetListed written candidateRow
      | some listed =>
        simp only [Option.isSome_some, cond_true, Script.query_apply]
        have kept : (confirmedIn id loaded reviewedAt reviewerId (bothWritten store loaded reviewedAt)).candidates id =
            some (confirmedPayload loaded reviewedAt reviewerId) := Function.update_self ..
        rw [kept]
        exact .confirmed targetListed written (by simp [candidateRow])

theorem confirm_nothing (loads : store.loaded? id = none) :
    (confirmSupersedeCandidate id reviewedAt reviewerId store).final = store ∧
      (confirmSupersedeCandidate id reviewedAt reviewerId store).value = none := by
  simp [confirmSupersedeCandidate, loads]

end

/-! ### All or nothing -/

def CandidatePayload.places (candidate : CandidatePayload) : List Place :=
  (placeOf candidate.targetType candidate.targetId).toList ++ (placeOf candidate.replacementType candidate.replacementId).toList

/-- The candidate, its target and its replacement are as they were, in both stores. -/
structure Unchanged (before after : Stores) (id : String) : Prop where
  candidate : after.candidates id = before.candidates id
  candidateRow : after.candidateRows id = before.candidateRows id
  truths : ∀ candidate ∈ before.candidates id, ∀ place ∈ candidate.places,
    after.truths place = before.truths place ∧ after.rows place = before.rows place

/-- From the review on the target is current in neither store, the replacement lists it, and the candidate is confirmed. -/
structure Superseded (before after : Stores) (id : String) (reviewedAt : DateTime) (result : CandidatePayload) : Prop where
  truths : ∃ candidate ∈ before.candidates id, ∃ target ∈ placeOf candidate.targetType candidate.targetId,
    ∃ replacement ∈ placeOf candidate.replacementType candidate.replacementId,
      (∃ data ∈ after.truths target, ∀ later : String → Bool, later (stamp reviewedAt) = false → data.isCurrent later = false) ∧
      (∃ row ∈ after.rows target, ∀ later : String → Bool, later (stamp reviewedAt) = false → row.isCurrent later = false) ∧
      ∃ data ∈ after.truths replacement, ∃ links, data.supersedes = some links ∧ candidate.targetId ∈ links ∧
        ∃ row ∈ after.rows replacement, row.supersedes = spelledLinks links
  candidate : after.candidates id = some result ∧ result.status = some "user_confirmed"
  candidateRow : ∃ row ∈ after.candidateRows id, row.status = "user_confirmed"

/-- What a confirmation promises of the stores it begins in. -/
structure AllOrNothing (store : Stores) (id : String) (reviewedAt : DateTime) (reviewerId : Option String) : Prop where
  nothing : (confirmSupersedeCandidate id reviewedAt reviewerId store).value = none →
    Unchanged store (confirmSupersedeCandidate id reviewedAt reviewerId store).final id
  all : ∀ result, (confirmSupersedeCandidate id reviewedAt reviewerId store).value = some result →
    Superseded store (confirmSupersedeCandidate id reviewedAt reviewerId store).final id reviewedAt result

/-- Writing the original again gives an index row back: it agrees with the original on the keys that has, and else with
what the confirmation writes. -/
structure Restorable (original updated : TruthPayload) (row : TruthRow) : Prop where
  validTo : (original.validTo.or updated.validTo).getD row.validTo = row.validTo
  supersedes : ((original.supersedes.or updated.supersedes).map spelledLinks).getD row.supersedes = row.supersedes
  supersededBy : ((original.supersededBy.or updated.supersededBy).map spelledLinks).getD row.supersededBy = row.supersededBy

theorem getD_getD {α : Type} (first second : Option α) (third : α) : first.getD (second.getD third) = (first.or second).getD third := by
  cases first <;> rfl

theorem restorable_iff {original updated : TruthPayload} {row : TruthRow} :
    (row.updated updated).updated original = row ↔ Restorable original updated row := by
  have columns : (row.updated updated).updated original =
      ⟨(original.validTo.or updated.validTo).getD row.validTo,
        ((original.supersedes.or updated.supersedes).map spelledLinks).getD row.supersedes,
        ((original.supersededBy.or updated.supersededBy).map spelledLinks).getD row.supersededBy⟩ := by
    simp only [TruthRow.updated, getD_getD, Option.map_or]
  rw [columns]
  constructor
  · intro same
    exact ⟨congrArg TruthRow.validTo same, congrArg TruthRow.supersedes same, congrArg TruthRow.supersededBy same⟩
  · intro holds
    rw [holds.validTo, holds.supersedes, holds.supersededBy]

/-- The writes of a confirmation that is refused change nothing or can be taken back, and those of one that goes
through name the target. -/
structure Recoverable (store : Stores) (id : String) (reviewedAt : DateTime) (loaded : Loaded) : Prop where
  target : store.rows loaded.target = none → loaded.targetUpdated reviewedAt = loaded.targetOriginal
  replacement : store.rows loaded.target ≠ none → loaded.replacementUpdated.isBare = false → store.rows loaded.replacement = none →
    loaded.replacementUpdated = loaded.replacementOriginal ∧
      ∀ row ∈ store.rows loaded.target, Restorable loaded.targetOriginal (loaded.targetUpdated reviewedAt) row
  candidate : store.rows loaded.target ≠ none → (loaded.replacementUpdated.isBare = true ∨ store.rows loaded.replacement ≠ none) →
    store.candidateRows id = none →
      (∀ row ∈ store.rows loaded.target, Restorable loaded.targetOriginal (loaded.targetUpdated reviewedAt) row) ∧
        ∀ row ∈ store.rows loaded.replacement, Restorable loaded.replacementOriginal loaded.replacementUpdated row
  named : store.rows loaded.target ≠ none → (loaded.replacementUpdated.isBare = true ∨ store.rows loaded.replacement ≠ none) →
    store.candidateRows id ≠ none →
      loaded.candidate.targetId ≠ "" ∨ loaded.candidate.targetId ∈ loaded.replacementOriginal.supersedes.getD []

section
variable {store : Stores} {id : String} {loaded : Loaded} {reviewedAt : DateTime} {reviewerId : Option String}

theorem Found.places (found : Found store id loaded) : loaded.candidate.places = [loaded.target, loaded.replacement] := by
  rw [CandidatePayload.places, found.targetPlace, found.replacementPlace]
  rfl

theorem unchanged_iff (found : Found store id loaded) (after : Stores) (candidates : after.candidates = store.candidates)
    (candidateRows : after.candidateRows = store.candidateRows) :
    Unchanged store after id ↔
      (after.truths loaded.target = store.truths loaded.target ∧ after.rows loaded.target = store.rows loaded.target) ∧
        after.truths loaded.replacement = store.truths loaded.replacement ∧
          after.rows loaded.replacement = store.rows loaded.replacement := by
  constructor
  · intro same
    have truths := same.truths loaded.candidate found.candidate
    rw [found.places] at truths
    exact ⟨truths _ (by simp), truths _ (by simp)⟩
  · rintro ⟨target, replacement⟩
    refine ⟨by rw [candidates], by rw [candidateRows], fun candidate present place member => ?_⟩
    obtain rfl := Option.some.inj (found.candidate.symm.trans present)
    rw [found.places] at member
    rcases List.mem_pair.mp member with rfl | rfl
    · exact target
    · exact replacement

theorem map_eq_self {row : Option TruthRow} {change : TruthRow → TruthRow} : row.map change = row ↔ ∀ each ∈ row, change each = each := by
  cases row with
  | none => simp
  | some each => simp

theorem map_updated_eq_iff {row : Option TruthRow} {original updated : TruthPayload} :
    (row.map (·.updated updated)).map (·.updated original) = row ↔ ∀ each ∈ row, Restorable original updated each := by
  rw [Option.map_map, map_eq_self]
  simp only [Function.comp, restorable_iff]

theorem unchanged_targetUnlisted (found : Found store id loaded) (unlisted : store.rows loaded.target = none) :
    Unchanged store (targetWritten store loaded reviewedAt) id ↔ loaded.targetUpdated reviewedAt = loaded.targetOriginal := by
  refine (unchanged_iff found (targetWritten store loaded reviewedAt) rfl rfl).trans ?_
  rw [targetWritten, persisted_truths_self, persisted_rows_self, unlisted,
    persisted_truths_of_ne _ _ _ found.apart.symm, persisted_rows_of_ne _ _ _ found.apart.symm, found.target]
  simp

theorem unchanged_replacementUnlisted (found : Found store id loaded) (unlisted : store.rows loaded.replacement = none) :
    Unchanged store ((bothWritten store loaded reviewedAt).persisted loaded.target loaded.targetOriginal) id ↔
      loaded.replacementUpdated = loaded.replacementOriginal ∧
        ∀ row ∈ store.rows loaded.target, Restorable loaded.targetOriginal (loaded.targetUpdated reviewedAt) row := by
  refine (unchanged_iff found ((bothWritten store loaded reviewedAt).persisted loaded.target loaded.targetOriginal) rfl rfl).trans ?_
  rw [persisted_truths_self, persisted_rows_self, persisted_truths_of_ne _ _ _ found.apart.symm,
    persisted_rows_of_ne _ _ _ found.apart.symm, bothWritten, persisted_truths_self, persisted_rows_self,
    persisted_rows_of_ne _ _ _ found.apart, targetWritten, persisted_rows_self, persisted_rows_of_ne _ _ _ found.apart.symm,
    map_updated_eq_iff, found.target, found.replacement, unlisted]
  simp [and_comm]

theorem unchanged_candidateUnlisted (found : Found store id loaded) :
    Unchanged store (((bothWritten store loaded reviewedAt).persisted loaded.replacement loaded.replacementOriginal).persisted
        loaded.target loaded.targetOriginal) id ↔
      (∀ row ∈ store.rows loaded.target, Restorable loaded.targetOriginal (loaded.targetUpdated reviewedAt) row) ∧
        ∀ row ∈ store.rows loaded.replacement, Restorable loaded.replacementOriginal loaded.replacementUpdated row := by
  refine (unchanged_iff found (((bothWritten store loaded reviewedAt).persisted loaded.replacement loaded.replacementOriginal).persisted loaded.target
    loaded.targetOriginal) rfl rfl).trans ?_
  rw [persisted_truths_self, persisted_rows_self, persisted_truths_of_ne _ _ _ found.apart.symm,
    persisted_rows_of_ne _ _ _ found.apart.symm, persisted_truths_self, persisted_rows_self, persisted_rows_of_ne _ _ _ found.apart,
    bothWritten, persisted_rows_self, persisted_rows_of_ne _ _ _ found.apart, targetWritten, persisted_rows_self,
    persisted_rows_of_ne _ _ _ found.apart.symm, map_updated_eq_iff, map_updated_eq_iff, found.target, found.replacement]
  simp

theorem stamp_ne_empty (time : DateTime) : stamp time ≠ "" := by
  intro empty
  have length := congrArg (fun text => text.toList.length) empty
  simp only [stamp, String.toList_ofList, DateTime.isoformat, List.length_append, DateTime.length_clockText] at length
  simp at length

theorem targetUpdated_not_current {later : String → Bool} (reached : later (stamp reviewedAt) = false) :
    (loaded.targetUpdated reviewedAt).isCurrent later = false := by
  simp [Loaded.targetUpdated, applySupersedeUpdates, TruthPayload.isCurrent, stamp_ne_empty, reached]

theorem updated_not_current {later : String → Bool} (reached : later (stamp reviewedAt) = false) (row : TruthRow) :
    (row.updated (loaded.targetUpdated reviewedAt)).isCurrent later = false := by
  simp [Loaded.targetUpdated, applySupersedeUpdates, TruthRow.updated, TruthRow.isCurrent, stamp_ne_empty, reached]

theorem replacementUpdated_links : (∃ links, loaded.replacementUpdated.supersedes = some links ∧ loaded.candidate.targetId ∈ links) ↔
    loaded.candidate.targetId ≠ "" ∨ loaded.candidate.targetId ∈ loaded.replacementOriginal.supersedes.getD [] := by
  simp only [Loaded.replacementUpdated, applySupersedeUpdates]
  by_cases unnamed : loaded.candidate.targetId = ""
  · simp only [unnamed, if_true, ne_eq, not_true_eq_false, false_or]
    cases loaded.replacementOriginal.supersedes <;> simp
  · simp only [unnamed, if_false, ne_eq, not_false_eq_true, true_or, iff_true]
    refine ⟨_, rfl, ?_⟩
    split
    · assumption
    · simp

theorem confirmed_superseded (found : Found store id loaded) (targetListed : store.rows loaded.target ≠ none)
    (replacementWritten : loaded.replacementUpdated.isBare = true ∨ store.rows loaded.replacement ≠ none) :
    Superseded store (confirmedIn id loaded reviewedAt reviewerId (bothWritten store loaded reviewedAt)) id reviewedAt
        (confirmedPayload loaded reviewedAt reviewerId) ↔
      loaded.candidate.targetId ≠ "" ∨ loaded.candidate.targetId ∈ loaded.replacementOriginal.supersedes.getD [] := by
  have targetData : (bothWritten store loaded reviewedAt).truths loaded.target = some (loaded.targetUpdated reviewedAt) := by
    rw [bothWritten, persisted_truths_of_ne _ _ _ found.apart, targetWritten, persisted_truths_self]
  have replacementData : (bothWritten store loaded reviewedAt).truths loaded.replacement = some loaded.replacementUpdated := by
    rw [bothWritten, persisted_truths_self]
  rw [← replacementUpdated_links]
  constructor
  · intro superseded
    obtain ⟨candidate, present, target, -, replacement, place, -, -, data, there, links, linked, names, -⟩ := superseded.truths
    obtain rfl := Option.some.inj (found.candidate.symm.trans present)
    obtain rfl := Option.some.inj (found.replacementPlace.symm.trans place)
    obtain rfl := Option.some.inj (replacementData.symm.trans there)
    exact ⟨links, linked, names⟩
  · rintro ⟨links, linked, names⟩
    obtain ⟨row, listed⟩ := Option.ne_none_iff_exists'.mp targetListed
    have written : store.rows loaded.replacement ≠ none := by
      rcases replacementWritten with bare | written
      · simp [TruthPayload.isBare, linked] at bare
      · exact written
    obtain ⟨other, otherListed⟩ := Option.ne_none_iff_exists'.mp written
    have targetRow : (bothWritten store loaded reviewedAt).rows loaded.target = some (row.updated (loaded.targetUpdated reviewedAt)) := by
      rw [bothWritten, persisted_rows_of_ne _ _ _ found.apart, targetWritten, persisted_rows_self, listed, Option.map_some]
    have replacementRow : (bothWritten store loaded reviewedAt).rows loaded.replacement =
        some (other.updated loaded.replacementUpdated) := by
      rw [bothWritten, persisted_rows_self, targetWritten, persisted_rows_of_ne _ _ _ found.apart.symm, otherListed, Option.map_some]
    refine ⟨⟨loaded.candidate, found.candidate, loaded.target, found.targetPlace, loaded.replacement, found.replacementPlace,
      ⟨_, targetData, fun later reached => targetUpdated_not_current reached⟩,
      ⟨_, targetRow, fun later reached => updated_not_current reached row⟩,
      _, replacementData, links, linked, names, _, replacementRow, ?_⟩, ⟨Function.update_self .., rfl⟩, _, Function.update_self .., rfl⟩
    simp [TruthRow.updated, linked]

theorem Ended.all_or_nothing {final : Stores} {value : Option CandidatePayload} (found : Found store id loaded)
    (ended : Ended store id loaded reviewedAt reviewerId final value) :
    ((value = none → Unchanged store final id) ∧ ∀ result, value = some result → Superseded store final id reviewedAt result) ↔
      Recoverable store id reviewedAt loaded := by
  cases ended with
  | targetUnlisted unlisted =>
    have same := @unchanged_targetUnlisted store id loaded reviewedAt found unlisted
    constructor
    · rintro ⟨nothing, -⟩
      exact ⟨fun _ => same.mp (nothing rfl), fun listed => absurd unlisted listed, fun listed => absurd unlisted listed,
        fun listed => absurd unlisted listed⟩
    · intro recoverable
      exact ⟨fun _ => same.mpr (recoverable.target unlisted), fun _ impossible => (by cases impossible)⟩
  | replacementUnlisted listed keyed unlisted =>
    have same := @unchanged_replacementUnlisted store id loaded reviewedAt found unlisted
    have unwritten : ¬ (loaded.replacementUpdated.isBare = true ∨ store.rows loaded.replacement ≠ none) := by simp [keyed, unlisted]
    constructor
    · rintro ⟨nothing, -⟩
      exact ⟨fun missing => absurd missing listed, fun _ _ _ => same.mp (nothing rfl), fun _ written => absurd written unwritten,
        fun _ written => absurd written unwritten⟩
    · intro recoverable
      exact ⟨fun _ => same.mpr (recoverable.replacement listed keyed unlisted), fun _ impossible => (by cases impossible)⟩
  | candidateUnlisted listed written unlisted =>
    have same := @unchanged_candidateUnlisted store id loaded reviewedAt found
    constructor
    · rintro ⟨nothing, -⟩
      refine ⟨fun missing => absurd missing listed, fun _ keyed missing => ?_, fun _ _ _ => same.mp (nothing rfl),
        fun _ _ known => absurd unlisted known⟩
      simp [keyed, missing] at written
    · intro recoverable
      exact ⟨fun _ => same.mpr (recoverable.candidate listed written unlisted), fun _ impossible => (by cases impossible)⟩
  | confirmed listed written known =>
    have names := @confirmed_superseded store id loaded reviewedAt reviewerId found listed written
    constructor
    · rintro ⟨-, all⟩
      refine ⟨fun missing => absurd missing listed, fun _ keyed missing => ?_, fun _ _ unlisted => absurd unlisted known,
        fun _ _ _ => names.mp (all _ rfl)⟩
      simp [keyed, missing] at written
    · intro recoverable
      refine ⟨fun impossible => (by cases impossible), fun result same => ?_⟩
      obtain rfl := Option.some.inj same
      exact names.mpr (recoverable.named listed written known)

/-- A confirmation is all or nothing exactly where nothing is loaded, or the rows it finds let it take its writes back. -/
theorem confirm_all_or_nothing_iff : AllOrNothing store id reviewedAt reviewerId ↔
    ∀ loaded, store.loaded? id = some loaded → Recoverable store id reviewedAt loaded := by
  cases loads : store.loaded? id with
  | none =>
    obtain ⟨final, value⟩ := @confirm_nothing store id reviewedAt reviewerId loads
    refine ⟨fun _ loaded impossible => (by cases impossible), fun _ => ⟨fun _ => ?_, fun result answers => ?_⟩⟩
    · rw [final]
      exact ⟨rfl, rfl, fun _ _ _ _ => ⟨rfl, rfl⟩⟩
    · rw [value] at answers
      cases answers
  | some loaded =>
    have found := loaded?_eq_some loads
    have ended := @confirm_ended store id loaded reviewedAt reviewerId found loads
    constructor
    · rintro ⟨nothing, all⟩ other same
      obtain rfl := Option.some.inj same
      exact (ended.all_or_nothing found).mp ⟨nothing, all⟩
    · intro recoverable
      obtain ⟨nothing, all⟩ := (ended.all_or_nothing found).mpr (recoverable loaded rfl)
      exact ⟨nothing, all⟩

end

/-! ### A target without an index row -/

def oldTruth : Place := (.memoryEntries, "old")

def newTruth : Place := (.memoryEntries, "new")

/-- Both truths and the candidate are in the canonical store; the index has lost the row of the old truth. -/
def unlistedStore : Stores where
  truths place := if place = oldTruth ∨ place = newTruth then some { validTo := some none, supersedes := some [], supersededBy := some [] } else none
  rows place := if place = newTruth then some ⟨none, "[]", "[]"⟩ else none
  candidates id := if id = "c" then some ⟨"memory_entry", "old", "memory_entry", "new", some "pending", none, none⟩ else none
  candidateRows id := if id = "c" then some ⟨"pending", none, none⟩ else none

theorem confirm_all_or_nothing_fails : ¬ AllOrNothing unlistedStore "c" Structured.sampleMoment none := by
  intro promised
  have answer : (confirmSupersedeCandidate "c" Structured.sampleMoment none unlistedStore).value = none := by decide +kernel
  have same := ((promised.nothing answer).truths _ rfl oldTruth (by decide +kernel)).1
  revert same
  decide +kernel

end HarnessMem.Confirming
