import HarnessMem.Library.Results
import Mathlib.Algebra.Order.Field.Rat
import Mathlib.Data.List.Sort

/-! Reciprocal rank fusion, weighted by confidence: the extension and the fallback. -/

set_option autoImplicit false

namespace HarnessMem.Native

/-- The arguments of a fusion but for the limit. Of the dictionaries only what they hold for a key is asked. -/
structure Fusion where
  candidateIds : List String
  ftsRank : String → Option Int
  vecRank : String → Option Int
  ftsConfidence : String → Option ℚ
  vecConfidence : String → Option ℚ
  rrfK : ℚ
  ftsWeight : ℚ
  vectorWeight : ℚ
  /-- A list has at most `sys.maxsize` elements. -/
  small : candidateIds.length < 2 ^ 63

abbrev Scored := String × ℚ

def Ahead (first second : Scored) : Prop := second.2 < first.2 ∨ (first.2 = second.2 ∧ first.1 ≤ second.1)

instance : DecidableRel Ahead := fun _ _ => inferInstanceAs (Decidable (_ ∨ _))

/-! ### The extension -/

/-- A rank that `as_u64` finds. -/
def InRange (rank : Int) : Prop := 0 ≤ rank ∧ rank < 2 ^ 64

instance (rank : Int) : Decidable (InRange rank) := inferInstanceAs (Decidable (_ ∧ _))

/-- One summand of a score, where `rank_map` kept the rank. No divisor is zero but for arguments that the fallback
refuses. -/
def nativeShare (weight k : ℚ) (rank : Option Int) (confidence : Option ℚ) : ℚ :=
  match rank with
  | some rank => if InRange rank then weight * confidence.getD 1 / (k + rank) else 0
  | none => 0

def nativeScore (fusion : Fusion) (rowId : String) : ℚ :=
  nativeShare fusion.ftsWeight fusion.rrfK (fusion.ftsRank rowId) (fusion.ftsConfidence rowId) +
    nativeShare fusion.vectorWeight fusion.rrfK (fusion.vecRank rowId) (fusion.vecConfidence rowId)

/-- `limit.as_u64()`, or the number of candidates. -/
def nativeLimit (fusion : Fusion) (limit : Int) : Nat := if InRange limit then limit.toNat else fusion.candidateIds.length

/-- `fuse_hybrid_rrf_scores`: every candidate is pushed with its score. -/
def nativeFuse (fusion : Fusion) (limit : Int) : List Scored :=
  ((fusion.candidateIds.map fun rowId => (rowId, nativeScore fusion rowId)).insertionSort Ahead).take
    (nativeLimit fusion limit)

/-! ### The fallback -/

def fallbackShare (weight k : ℚ) (rank : Option Int) (confidence : Option ℚ) : Option ℚ :=
  match rank with
  | some rank => if k + rank = 0 then none else some (weight * confidence.getD 1 / (k + rank))
  | none => some 0

def fallbackScore (fusion : Fusion) (rowId : String) : Option ℚ := do
  let fts ← fallbackShare fusion.ftsWeight fusion.rrfK (fusion.ftsRank rowId) (fusion.ftsConfidence rowId)
  let vec ← fallbackShare fusion.vectorWeight fusion.rrfK (fusion.vecRank rowId) (fusion.vecConfidence rowId)
  some (fts + vec)

/-- `fused_scores[row_id] = score`. -/
def setScore (scores : List Scored) (rowId : String) (score : ℚ) : List Scored :=
  if rowId ∈ scores.map Prod.fst then scores.map fun entry => if entry.1 = rowId then (rowId, score) else entry
  else scores ++ [(rowId, score)]

def fused (fusion : Fusion) (scores : List Scored) : List String → Option (List Scored)
  | [] => some scores
  | rowId :: rest => do
    let score ← fallbackScore fusion rowId
    fused fusion (setScore scores rowId score) rest

/-- `ranked[:limit]`. -/
def sliceTo {α : Type} (limit : Int) (items : List α) : List α :=
  if 0 ≤ limit then items.take limit.toNat else items.take (items.length - (-limit).toNat)

/-- `fuse_hybrid_rrf` without the extension. -/
def fallbackFuse (fusion : Fusion) (limit : Int) : Option (List Scored) := do
  let scores ← fused fusion [] fusion.candidateIds
  some (sliceTo limit (scores.insertionSort Ahead))

/-! ### Where they agree -/

def lostShare (weight k : ℚ) (rank : Option Int) (confidence : Option ℚ) : ℚ :=
  match rank with
  | some rank => if InRange rank then 0 else weight * confidence.getD 1 / (k + rank)
  | none => 0

def lost (fusion : Fusion) (rowId : String) : ℚ :=
  lostShare fusion.ftsWeight fusion.rrfK (fusion.ftsRank rowId) (fusion.ftsConfidence rowId) +
    lostShare fusion.vectorWeight fusion.rrfK (fusion.vecRank rowId) (fusion.vecConfidence rowId)

theorem fallbackShare_eq {weight k : ℚ} {rank : Option Int} {confidence : Option ℚ} {share : ℚ}
    (ran : fallbackShare weight k rank confidence = some share) :
    share = nativeShare weight k rank confidence + lostShare weight k rank confidence := by
  unfold nativeShare lostShare
  unfold fallbackShare at ran
  cases rank with
  | none =>
    cases ran
    exact (add_zero 0).symm
  | some rank =>
    dsimp only at *
    split at ran
    · cases ran
    · cases ran
      by_cases inside : InRange rank
      · rw [if_pos inside, if_pos inside, add_zero]
      · rw [if_neg inside, if_neg inside, zero_add]

variable {fusion : Fusion}

theorem fallbackScore_eq {rowId : String} {score : ℚ} (ran : fallbackScore fusion rowId = some score) :
    score = nativeScore fusion rowId + lost fusion rowId := by
  obtain ⟨fts, first, ran⟩ := Option.bind_eq_some_iff.mp ran
  obtain ⟨vec, second, ran⟩ := Option.bind_eq_some_iff.mp ran
  cases ran
  rw [fallbackShare_eq first, fallbackShare_eq second]
  exact add_add_add_comm _ _ _ _

/-- The dictionary of scores holds the score of each of its keys, once. -/
structure Scores (fusion : Fusion) (scores : List Scored) : Prop where
  own : ∀ entry ∈ scores, fallbackScore fusion entry.1 = some entry.2
  keys : (scores.map Prod.fst).Nodup

theorem map_fst_setScore (scores : List Scored) (rowId : String) (score : ℚ) :
    (setScore scores rowId score).map Prod.fst =
      if rowId ∈ scores.map Prod.fst then scores.map Prod.fst else scores.map Prod.fst ++ [rowId] := by
  unfold setScore
  split
  · rw [List.map_map]
    apply List.map_congr_left
    intro entry _
    change (if entry.1 = rowId then (rowId, score) else entry).1 = entry.1
    split
    · next same => exact same.symm
    · rfl
  · rw [List.map_append]
    rfl

variable {scores : List Scored}

theorem Scores.set (held : Scores fusion scores) {rowId : String} {score : ℚ}
    (ran : fallbackScore fusion rowId = some score) : Scores fusion (setScore scores rowId score) := by
  constructor
  · intro entry member
    unfold setScore at member
    split at member
    · obtain ⟨before, inside, rfl⟩ := List.mem_map.mp member
      split
      · exact ran
      · exact held.own before inside
    · rw [List.mem_append, List.mem_singleton] at member
      cases member with
      | inl inside => exact held.own entry inside
      | inr last => exact last ▸ ran
  · rw [map_fst_setScore]
    split
    · exact held.keys
    · next fresh => exact List.nodup_append.mpr ⟨held.keys, List.nodup_singleton _, fun _ inside _ last same =>
        fresh (List.mem_singleton.mp last ▸ same ▸ inside)⟩

theorem fused_spec {candidates : List String} {before : List Scored} (held : Scores fusion before)
    (ran : fused fusion before candidates = some scores) :
    Scores fusion scores ∧ ∀ rowId, rowId ∈ scores.map Prod.fst ↔ rowId ∈ before.map Prod.fst ∨ rowId ∈ candidates := by
  induction candidates generalizing before with
  | nil =>
    cases ran
    refine ⟨held, fun rowId => ?_⟩
    simp
  | cons first rest ih =>
    obtain ⟨score, scored, ran⟩ := Option.bind_eq_some_iff.mp ran
    have ⟨later, keys⟩ := ih (held.set scored) ran
    refine ⟨later, fun rowId => ?_⟩
    rw [keys, map_fst_setScore, List.mem_cons]
    split
    · next known =>
      constructor
      · rintro (inside | inside)
        · exact .inl inside
        · exact .inr (.inr inside)
      · rintro (inside | rfl | inside)
        · exact .inl inside
        · exact .inl known
        · exact .inr inside
    · rw [List.mem_append, List.mem_singleton, or_assoc]

theorem fused_keys {candidates : List String} {before : List Scored}
    (fresh : (before.map Prod.fst ++ candidates).Nodup) (ran : fused fusion before candidates = some scores) :
    scores.map Prod.fst = before.map Prod.fst ++ candidates := by
  induction candidates generalizing before with
  | nil =>
    cases ran
    exact (List.append_nil _).symm
  | cons first rest ih =>
    obtain ⟨score, -, ran⟩ := Option.bind_eq_some_iff.mp ran
    have new : first ∉ before.map Prod.fst := fun inside =>
      (List.nodup_append.mp fresh).2.2 first inside first (List.mem_cons_self ..) rfl
    have keys : (setScore before first score).map Prod.fst = before.map Prod.fst ++ [first] := by
      rw [map_fst_setScore, if_neg new]
    rw [ih (by rwa [keys, List.append_assoc]) ran, keys, List.append_assoc]
    rfl

theorem scores_nil (fusion : Fusion) : Scores fusion [] := ⟨nofun, List.nodup_nil⟩

variable {limit : Int}

theorem Fusion.take_nativeLimit (fusion : Fusion) (nonnegative : 0 ≤ limit) {items : List Scored}
    (bound : items.length ≤ fusion.candidateIds.length) :
    items.take (nativeLimit fusion limit) = items.take limit.toNat := by
  unfold nativeLimit
  split
  · rfl
  · next beyond =>
    -- a limit that `as_u64` does not find is beyond every list
    have small := fusion.small
    unfold InRange at beyond
    rw [List.take_of_length_le bound, List.take_of_length_le (by omega)]

theorem length_nativeFuse (fusion : Fusion) (limit : Int) :
    (nativeFuse fusion limit).length = min (nativeLimit fusion limit) fusion.candidateIds.length := by
  unfold nativeFuse
  rw [List.length_take, List.length_insertionSort, List.length_map]

theorem eq_map_of_keys {keys : List String} {value : String → ℚ} (same : scores.map Prod.fst = keys)
    (own : ∀ entry ∈ scores, entry.2 = value entry.1) : scores = keys.map fun key => (key, value key) := by
  rw [← same, List.map_map]
  have each : ∀ entry ∈ scores, id entry = ((fun key => (key, value key)) ∘ Prod.fst) entry := by
    intro entry member
    exact Prod.ext rfl (own entry member)
  rw [← List.map_congr_left each, List.map_id]

theorem fuse_agrees (ran : fused fusion [] fusion.candidateIds = some scores)
    (once : fusion.candidateIds.Nodup) (whole : ∀ rowId ∈ fusion.candidateIds, lost fusion rowId = 0)
    (nonnegative : 0 ≤ limit) : fallbackFuse fusion limit = some (nativeFuse fusion limit) := by
  have held := fused_spec (scores_nil fusion) ran
  have keys : scores.map Prod.fst = fusion.candidateIds := fused_keys (by simpa using once) ran
  have same : scores = fusion.candidateIds.map fun rowId => (rowId, nativeScore fusion rowId) := by
    apply eq_map_of_keys keys
    intro entry member
    have inside : entry.1 ∈ fusion.candidateIds := keys ▸ List.mem_map_of_mem member
    rw [fallbackScore_eq (held.1.own entry member), whole entry.1 inside, add_zero]
  unfold fallbackFuse nativeFuse
  rw [ran, Option.bind_eq_bind, Option.bind_some, ← same, fusion.take_nativeLimit nonnegative]
  · unfold sliceTo
    rw [if_pos nonnegative]
  · rw [List.length_insertionSort, same, List.length_map]

theorem length_fused (ran : fused fusion [] fusion.candidateIds = some scores) :
    scores.length ≤ fusion.candidateIds.length ∧
      (fusion.candidateIds.length ≤ scores.length → fusion.candidateIds.Nodup) := by
  have ⟨held, keys⟩ := fused_spec (scores_nil fusion) ran
  have inside : (scores.map Prod.fst).Subperm fusion.candidateIds := by
    apply List.subperm_of_subset held.keys
    intro rowId member
    exact ((keys rowId).mp member).resolve_left (List.not_mem_nil)
  refine ⟨by simpa using inside.length_le, ?_⟩
  intro enough
  have perm := inside.perm_of_length_le (by simpa using enough)
  exact perm.nodup_iff.mp held.keys

theorem of_fuse_agrees (ran : fused fusion [] fusion.candidateIds = some scores)
    (agrees : fallbackFuse fusion fusion.candidateIds.length = some (nativeFuse fusion fusion.candidateIds.length)) :
    fusion.candidateIds.Nodup ∧ ∀ rowId ∈ fusion.candidateIds, lost fusion rowId = 0 := by
  have ⟨held, _⟩ := fused_spec (scores_nil fusion) ran
  have small := fusion.small
  have bound : nativeLimit fusion fusion.candidateIds.length = fusion.candidateIds.length := by
    unfold nativeLimit
    rw [if_pos ⟨by omega, by omega⟩]
    rfl
  have same : (scores.insertionSort Ahead).take fusion.candidateIds.length =
      nativeFuse fusion fusion.candidateIds.length := by
    unfold fallbackFuse at agrees
    rw [ran, Option.bind_eq_bind, Option.bind_some] at agrees
    unfold sliceTo at agrees
    rw [if_pos (Int.natCast_nonneg _)] at agrees
    exact Option.some.inj agrees
  constructor
  · apply (length_fused ran).2
    have lengths := congrArg List.length same
    rw [length_nativeFuse, bound, List.length_take, List.length_insertionSort] at lengths
    omega
  · intro rowId member
    have pushed : (rowId, nativeScore fusion rowId) ∈ nativeFuse fusion fusion.candidateIds.length := by
      unfold nativeFuse
      rw [bound, List.take_of_length_le (by rw [List.length_insertionSort, List.length_map]), List.mem_insertionSort]
      exact List.mem_map_of_mem member
    rw [← same] at pushed
    have kept : (rowId, nativeScore fusion rowId) ∈ scores := (List.mem_insertionSort _).mp (List.mem_of_mem_take pushed)
    have score := fallbackScore_eq (held.own _ kept)
    exact left_eq_add.mp score

theorem fuse_negative (ran : fused fusion [] fusion.candidateIds = some scores) (negative : limit < 0) :
    fallbackFuse fusion limit = some (nativeFuse fusion limit) ↔ fusion.candidateIds = [] := by
  have bound : nativeLimit fusion limit = fusion.candidateIds.length := by
    unfold nativeLimit
    exact if_neg fun inside => absurd inside.1 (by omega)
  unfold fallbackFuse
  rw [ran, Option.bind_eq_bind, Option.bind_some]
  unfold sliceTo
  rw [if_neg (by omega)]
  have fewer := (length_fused ran).1
  constructor
  · intro agrees
    have lengths := congrArg List.length (Option.some.inj agrees)
    rw [length_nativeFuse, bound, List.length_take, List.length_insertionSort] at lengths
    apply List.eq_nil_of_length_eq_zero
    omega
  · intro empty
    have none : scores = [] := List.eq_nil_of_length_eq_zero (by rw [empty] at fewer; exact Nat.le_zero.mp fewer)
    unfold nativeFuse
    rw [none, empty]
    simp

/-- On arguments that the fallback accepts both return the same results at every limit that is not negative exactly if no
candidate repeats and no summand is lost, and at a negative limit exactly if there are no candidates. -/
theorem fuse_agree_iff (accepted : (fused fusion [] fusion.candidateIds).isSome = true) :
    ((∀ limit : Int, 0 ≤ limit → fallbackFuse fusion limit = some (nativeFuse fusion limit)) ↔
      fusion.candidateIds.Nodup ∧ ∀ rowId ∈ fusion.candidateIds, lost fusion rowId = 0) ∧
    ∀ limit : Int, limit < 0 → (fallbackFuse fusion limit = some (nativeFuse fusion limit) ↔ fusion.candidateIds = []) := by
  obtain ⟨scores, ran⟩ := Option.isSome_iff_exists.mp accepted
  refine ⟨⟨?_, ?_⟩, fun limit negative => fuse_negative ran negative⟩
  · intro agrees
    exact of_fuse_agrees ran (agrees _ (Int.natCast_nonneg _))
  · intro ⟨once, whole⟩ limit nonnegative
    exact fuse_agrees ran once whole nonnegative

end HarnessMem.Native
