import HarnessMem.Library.Lists
import HarnessMem.Review.Schemas
import Mathlib.Data.Set.Card

/-! The exchanges that a verdict without candidates has to cite: which they are,
why each of them is named, and whether one challenge can cite them all.
-/

set_option autoImplicit false

namespace HarnessMem.Review

open Library Projection

/-! ### Exchanges with a property -/

section Positions
variable (exchanges : List Exchange) (has : Exchange → Bool)

def Shows (index : Nat) : Prop :=
  ∃ position exchange, exchanges[position]? = some exchange ∧ has exchange = true ∧ index = position + 1

def FirstShown (index : Nat) : Prop :=
  Shows exchanges has index ∧ ∀ other, Shows exchanges has other → index ≤ other

def LastShown (index : Nat) : Prop :=
  Shows exchanges has index ∧ ∀ other, Shows exchanges has other → other ≤ index

variable {exchanges has}

theorem mem_indexesOf {index : Nat} : index ∈ indexesOf exchanges has ↔ Shows exchanges has index := by
  unfold indexesOf
  rw [List.mem_filterMap]
  constructor
  · rintro ⟨⟨exchange, number⟩, inside, shown⟩
    obtain ⟨low, found⟩ := List.mem_zipIdx_iff_le_and_getElem?_sub.mp inside
    split at shown
    · next holds =>
      cases shown
      exact ⟨number - 1, exchange, found, holds, by simp only at low; omega⟩
    · cases shown
  · rintro ⟨position, exchange, found, holds, rfl⟩
    refine ⟨(exchange, position + 1), ?_, if_pos holds⟩
    exact List.mem_zipIdx_iff_le_and_getElem?_sub.mpr ⟨by simp, by simpa using found⟩

theorem indexesOf_increasing : (indexesOf exchanges has).Pairwise (· < ·) := by
  have numbered : (exchanges.zipIdx 1).Pairwise fun one other => one.2 < other.2 := by
    rw [← List.pairwise_map (R := (· < ·)), List.zipIdx_map_snd]
    exact List.pairwise_lt_range'
  refine numbered.filterMap _ fun one other before index shown next next_shown => ?_
  split at shown <;> split at next_shown <;> simp_all

theorem indexesOf_head? {index : Nat} :
    (indexesOf exchanges has).head? = some index ↔ FirstShown exchanges has index := by
  simp only [head?_of_increasing indexesOf_increasing, mem_indexesOf, FirstShown]

theorem indexesOf_getLast? {index : Nat} :
    (indexesOf exchanges has).getLast? = some index ↔ LastShown exchanges has index := by
  simp only [getLast?_of_increasing indexesOf_increasing, mem_indexesOf, LastShown]

theorem Shows.again {index : Nat} (several : 2 ≤ (indexesOf exchanges has).length) :
    ∃ other, other ≠ index ∧ Shows exchanges has other := by
  have increasing := @indexesOf_increasing exchanges has
  obtain ⟨one, other, rest, listed⟩ : ∃ one other rest, indexesOf exchanges has = one :: other :: rest := by
    match indexesOf exchanges has, several with
    | one :: other :: rest, _ => exact ⟨one, other, rest, rfl⟩
  have shown {number : Nat} (inside : number ∈ one :: other :: rest) : Shows exchanges has number :=
    mem_indexesOf.mp (listed ▸ inside)
  rw [listed] at increasing
  have before : one < other := List.rel_of_pairwise_cons increasing List.mem_cons_self
  rcases eq_or_ne one index with rfl | differs
  · exact ⟨other, before.ne', shown (by simp)⟩
  · exact ⟨one, differs, shown (by simp)⟩

theorem sole (single : (indexesOf exchanges has).length < 2) {one other : Nat} (shown : Shows exchanges has one)
    (other_shown : Shows exchanges has other) : one = other := by
  rw [← mem_indexesOf] at shown other_shown
  match listed : indexesOf exchanges has, single with
  | [], _ => exact absurd shown (by simp [listed])
  | [only], _ =>
    rw [listed, List.mem_singleton] at shown other_shown
    exact shown.trans other_shown.symm

theorem indexesOf_single {index : Nat} (first : FirstShown exchanges has index) (last : LastShown exchanges has index) :
    (indexesOf exchanges has).length < 2 := by
  by_contra several
  obtain ⟨other, differs, shown⟩ := @Shows.again exchanges has index (Nat.not_lt.mp several)
  exact differs (Nat.le_antisymm (last.2 other shown) (first.2 other shown))

theorem Shows.bounds {index : Nat} (shown : Shows exchanges has index) : 1 ≤ index ∧ index ≤ exchanges.length := by
  obtain ⟨position, exchange, found, -, rfl⟩ := shown
  have := (List.getElem?_eq_some_iff.mp found).1
  omega

end Positions

/-! ### What the manifest is for -/

def failed (exchange : Exchange) : Bool := RiskFlag.failure ∈ exchange.riskFlags

def carries (signal : MemorySignal) (exchange : Exchange) : Bool := signal ∈ exchange.memorySignals

section Purpose
variable (exchanges : List Exchange)

/-- The last exchange of all, the last one of a signal, and the first and the last failure. -/
inductive Relevant : Nat → Prop
  | final (filled : exchanges ≠ []) : Relevant exchanges.length
  | signal {index : Nat} (signal : MemorySignal) (last : LastShown exchanges (carries signal) index) : Relevant index
  | firstFailure {index : Nat} (first : FirstShown exchanges failed index) : Relevant index
  | lastFailure {index : Nat} (last : LastShown exchanges failed index) : Relevant index

/-- A reason says something about the exchange it is given for. -/
inductive Justified (index : Nat) : String → Prop
  | final (last : index = exchanges.length) : Justified index "final_exchange"
  | failure (shown : Shows exchanges failed index) (again : ∃ other, other ≠ index ∧ Shows exchanges failed other) :
    Justified index "repeated_failure"
  | signal (signal : MemorySignal) (shown : Shows exchanges (carries signal) index) : Justified index signal.name

def Complete (manifest : ChallengeManifest) : Prop :=
  ∀ index, index ∈ manifest.requiredExchangeIndexes ↔ Relevant exchanges index

def Truthful (manifest : ChallengeManifest) : Prop :=
  manifest.requiredExchangeReasons.map (·.1) = manifest.requiredExchangeIndexes ∧
    ∀ entry ∈ manifest.requiredExchangeReasons, ∀ reason ∈ entry.2, Justified exchanges entry.1 reason

def Satisfiable (manifest : ChallengeManifest) : Prop :=
  ∃ challenge : ZeroCandidateChallenge, challenge.FitsRuntime ∧
    ∀ index ∈ manifest.requiredExchangeIndexes, index ∈ challenge.inspectedExchangeRefs.map (·.exchangeIndex)

def LoneFailure : Prop :=
  ∃ index, FirstShown exchanges failed index ∧ LastShown exchanges failed index ∧ index ≠ exchanges.length ∧
    ∀ signal, ¬ LastShown exchanges (carries signal) index

end Purpose

theorem Relevant.bounds {exchanges : List Exchange} {index : Nat} (relevant : Relevant exchanges index) :
    1 ≤ index ∧ index ≤ exchanges.length := by
  cases relevant with
  | final filled => exact ⟨List.length_pos_of_ne_nil filled, le_rfl⟩
  | signal signal last => exact last.1.bounds
  | firstFailure first => exact first.1.bounds
  | lastFailure last => exact last.1.bounds

/-! ### What it asks for -/

section Manifest
variable {exchanges : List Exchange}

theorem mem_signalPriority (signal : MemorySignal) : signal ∈ signalPriority := by
  cases signal <;> decide

theorem manifest_complete (exchanges : List Exchange) :
    Complete exchanges (zeroCandidateChallengeManifest exchanges) := by
  intro index
  unfold zeroCandidateChallengeManifest
  split
  · next empty =>
    subst empty
    exact ⟨nofun, fun relevant => absurd relevant.bounds (by simp only [List.length_nil]; omega)⟩
  · next filled =>
    simp only [List.mem_mergeSort, List.mem_eraseDups, List.cons_append, List.mem_cons, List.mem_append,
      List.mem_filterMap, Option.mem_toList]
    constructor
    · rintro (rfl | ⟨⟨signal, -, last⟩ | first⟩ | last)
      · exact .final filled
      · exact .signal signal (indexesOf_getLast?.mp last)
      · exact .firstFailure (indexesOf_head?.mp first)
      · exact .lastFailure (indexesOf_getLast?.mp last)
    · intro relevant
      cases relevant with
      | final => exact .inl rfl
      | signal signal last =>
        exact .inr (.inl (.inl ⟨signal, mem_signalPriority signal, indexesOf_getLast?.mpr last⟩))
      | firstFailure first => exact .inr (.inl (.inr (indexesOf_head?.mpr first)))
      | lastFailure last => exact .inr (.inr (indexesOf_getLast?.mpr last))

theorem required_nodup (exchanges : List Exchange) :
    (zeroCandidateChallengeManifest exchanges).requiredExchangeIndexes.Nodup := by
  unfold zeroCandidateChallengeManifest
  split
  · exact List.nodup_nil
  · exact (List.mergeSort_perm _ _).nodup_iff.mpr (nodup_eraseDups _)

theorem required_length (exchanges : List Exchange) :
    (zeroCandidateChallengeManifest exchanges).requiredExchangeIndexes.length =
      {index | Relevant exchanges index}.ncard := by
  rw [← List.toFinset_card_of_nodup (required_nodup exchanges), ← Set.ncard_coe_finset]
  congr 1
  ext index
  simpa using manifest_complete exchanges index

/-! ### Why it asks for them -/

theorem mem_challengeReasons {index : Nat} {reason : String} : reason ∈ challengeReasons exchanges index ↔
    (index = exchanges.length ∧ reason = "final_exchange") ∨
    ((2 ≤ (indexesOf exchanges failed).length ∧
        (FirstShown exchanges failed index ∨ LastShown exchanges failed index)) ∧ reason = "repeated_failure") ∨
    ∃ signal : MemorySignal, LastShown exchanges (carries signal) index ∧ signal.name = reason := by
  unfold challengeReasons
  simp only [List.mem_append, List.mem_map, List.mem_filter, mem_signalPriority, true_and, decide_eq_true_eq,
    or_assoc]
  refine or_congr ?_ (or_congr ?_ (exists_congr fun signal => and_congr_left fun _ => indexesOf_getLast?))
  · split <;> simp_all
  · rw [← indexesOf_head?, ← indexesOf_getLast?]
    split
    · next repeated => exact ⟨fun inside => ⟨repeated, List.mem_singleton.mp inside⟩, fun known => by simp [known.2]⟩
    · next single => exact ⟨nofun, fun known => absurd known.1 single⟩

theorem challengeReasons_justified {index : Nat} {reason : String}
    (given : reason ∈ challengeReasons exchanges index) : Justified exchanges index reason := by
  rcases mem_challengeReasons.mp given with ⟨last, rfl⟩ | ⟨⟨several, ends⟩, rfl⟩ | ⟨signal, last, rfl⟩
  · exact .final last
  · exact .failure (ends.elim (·.1) (·.1)) (Shows.again several)
  · exact .signal signal last.1

theorem challengeReasons_eq_nil {index : Nat} (relevant : Relevant exchanges index) :
    challengeReasons exchanges index = [] ↔ FirstShown exchanges failed index ∧ LastShown exchanges failed index ∧
      index ≠ exchanges.length ∧ ∀ signal, ¬ LastShown exchanges (carries signal) index := by
  rw [List.eq_nil_iff_forall_not_mem]
  constructor
  · intro silent
    have silent {reason : String} := mt mem_challengeReasons.mpr (silent reason)
    have before : index ≠ exchanges.length := fun same => silent (.inl ⟨same, rfl⟩)
    have unsignalled (signal : MemorySignal) : ¬ LastShown exchanges (carries signal) index :=
      fun last => silent (.inr (.inr ⟨signal, last, rfl⟩))
    have single (ends : FirstShown exchanges failed index ∨ LastShown exchanges failed index) :
        (indexesOf exchanges failed).length < 2 :=
      Nat.not_le.mp fun several => silent (.inr (.inl ⟨⟨several, ends⟩, rfl⟩))
    cases relevant with
    | final => exact absurd rfl before
    | signal signal last => exact absurd last (unsignalled signal)
    | firstFailure first =>
      exact ⟨first, ⟨first.1, fun other shown => (sole (single (.inl first)) first.1 shown).ge⟩, before, unsignalled⟩
    | lastFailure last =>
      exact ⟨⟨last.1, fun other shown => (sole (single (.inr last)) last.1 shown).le⟩, last, before, unsignalled⟩
  · rintro ⟨first, last, before, unsignalled⟩ reason given
    rcases mem_challengeReasons.mp given with ⟨same, -⟩ | ⟨⟨several, -⟩, -⟩ | ⟨signal, shown, -⟩
    · exact before same
    · exact absurd several (Nat.not_le.mpr (indexesOf_single first last))
    · exact unsignalled signal shown

theorem reasons_eq (exchanges : List Exchange) :
    (zeroCandidateChallengeManifest exchanges).requiredExchangeReasons =
      (zeroCandidateChallengeManifest exchanges).requiredExchangeIndexes.map fun index =>
        (index, if (challengeReasons exchanges index).isEmpty then ["final_exchange"]
          else (challengeReasons exchanges index).mergeSort) := by
  unfold zeroCandidateChallengeManifest
  split <;> rfl

theorem Justified.last {index : Nat} (justified : Justified exchanges index "final_exchange") :
    index = exchanges.length := by
  generalize named : "final_exchange" = reason at justified
  cases justified with
  | final last => exact last
  | failure => exact absurd named (by decide)
  | signal signal => cases signal <;> exact absurd named (by decide)

theorem manifest_truthful (exchanges : List Exchange) :
    Truthful exchanges (zeroCandidateChallengeManifest exchanges) ↔ ¬ LoneFailure exchanges := by
  unfold Truthful
  rw [reasons_eq, List.map_map, List.forall_mem_map]
  constructor
  · rintro ⟨-, truthful⟩ ⟨index, first, last, before, unsignalled⟩
    have relevant : Relevant exchanges index := .firstFailure first
    have silent := (challengeReasons_eq_nil relevant).mpr ⟨first, last, before, unsignalled⟩
    have given := truthful index ((manifest_complete exchanges index).mpr relevant) "final_exchange"
    exact before (given (by simp [silent])).last
  · intro ordinary
    refine ⟨List.map_id _, fun index required reason given => ?_⟩
    have relevant := (manifest_complete exchanges index).mp required
    have reasoned : challengeReasons exchanges index ≠ [] := fun silent =>
      ordinary ⟨index, (challengeReasons_eq_nil relevant).mp silent⟩
    rw [if_neg (mt List.isEmpty_iff.mp reasoned), List.mem_mergeSort] at given
    exact challengeReasons_justified given

/-! ### Whether it can be met -/

def citing (indexes : List Nat) : ZeroCandidateChallenge where
  sourceRevision := "revision"
  evidenceFidelity := .complete
  futureUtility := .none
  checks _ := .absent
  inspectedExchangeRefs := indexes.map fun index => ⟨index, String.ofList (List.replicate 64 '0')⟩
  conclusion := .noDurableCandidate
  rationale := "Nothing to keep."

theorem citing_fits {indexes : List Nat} (few : indexes.length ≤ 8) (distinct : indexes.Nodup)
    (numbered : ∀ index ∈ indexes, 1 ≤ index) : (citing indexes).FitsRuntime := by
  have nothing (finding : Finding) (found : finding ≠ .absent) : (citing indexes).named finding = [] :=
    List.filter_eq_nil_iff.mpr fun check _ same => found (of_decide_eq_true same).symm
  have digest : ZeroCandidateChallenge.HexDigest (String.ofList (List.replicate 64 '0')) := by decide
  have named : 1 ≤ "revision".length := by decide
  refine ⟨named, fun ref cited => ?_, by simpa [citing] using few, ?_, ?_, fun _ => rfl, ?_⟩
  · obtain ⟨index, inside, rfl⟩ := List.mem_map.mp cited
    exact ⟨numbered index inside, digest⟩
  · exact (by decide : 12 ≤ "Nothing to keep.".length ∧ "Nothing to keep.".length ≤ 2000)
  · rintro (found | durable)
    · exact absurd (nothing .candidateRequired (by decide)) found
    · cases durable
  · rw [citing, List.map_map]
    exact (List.map_id indexes).symm ▸ distinct

theorem manifest_satisfiable (exchanges : List Exchange) :
    Satisfiable (zeroCandidateChallengeManifest exchanges) ↔ {index | Relevant exchanges index}.ncard ≤ 8 := by
  rw [← required_length]
  constructor
  · rintro ⟨challenge, ⟨-, -, few, -⟩, cites⟩
    have distinct := required_nodup exchanges
    have within := (List.subperm_of_subset distinct cites).length_le
    rw [List.length_map] at within
    exact within.trans few
  · intro few
    refine ⟨citing _, citing_fits few (required_nodup exchanges) fun index required => ?_, fun index required => ?_⟩
    · exact ((manifest_complete exchanges index).mp required).bounds.1
    · simpa [citing] using required

/-- **The manifest is complete, and truthful and satisfiable as far as it can be**: it fails where the
only failure has no other ground, and where more than eight exchanges are relevant. -/
theorem challenge_manifest_sound_iff (exchanges : List Exchange) :
    (Complete exchanges (zeroCandidateChallengeManifest exchanges) ∧
        Truthful exchanges (zeroCandidateChallengeManifest exchanges) ∧
        Satisfiable (zeroCandidateChallengeManifest exchanges)) ↔
      ¬ LoneFailure exchanges ∧ {index | Relevant exchanges index}.ncard ≤ 8 := by
  rw [manifest_truthful, manifest_satisfiable]
  exact and_iff_right (manifest_complete exchanges)

def flagged (risks : List RiskFlag) (signals : List MemorySignal) : Exchange :=
  ⟨["Go on.".toList], [], [], risks, signals⟩

/-- A failure in the middle is called the final exchange; nine relevant exchanges cannot be cited. -/
theorem challenge_manifest_unsound :
    ¬ Truthful [flagged [.failure] [], flagged [] []]
        (zeroCandidateChallengeManifest [flagged [.failure] [], flagged [] []]) ∧
      ¬ Satisfiable (zeroCandidateChallengeManifest (signalPriority.map (fun signal => flagged [] [signal]) ++
        [flagged [.failure] [], flagged [.failure] []])) := by
  rw [manifest_truthful, manifest_satisfiable, ← required_length, not_not]
  constructor
  · refine ⟨1, indexesOf_head?.mp (by decide), indexesOf_getLast?.mp (by decide), by decide, fun signal last => ?_⟩
    exact absurd (indexesOf_getLast?.mpr last) (by cases signal <;> decide)
  · rw [zeroCandidateChallengeManifest, if_neg (by decide)]
    simp only [List.length_mergeSort]
    decide

end Manifest

end HarnessMem.Review
