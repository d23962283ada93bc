import Mathlib.Data.Finset.Card
import Mathlib.Data.List.Induction
import Mathlib.Data.List.Lex
import Mathlib.Data.List.Nodup
import Mathlib.Data.List.TakeWhile
import Mathlib.Order.Basic
import Mathlib.Order.Cover
import Mathlib.Order.Nat

/-! Lists of numbers in increasing order, lists without their repeats, and what is dropped
from the start of a list.
-/

set_option autoImplicit false

namespace HarnessMem.Library

variable {α : Type}

theorem nodup_eraseDups [BEq α] [LawfulBEq α] (items : List α) : items.eraseDups.Nodup := by
  induction size : items.length using Nat.strong_induction_on generalizing items with
  | _ bound ih =>
  cases items with
  | nil => exact List.nodup_nil
  | cons item rest =>
    rw [List.eraseDups_cons, List.nodup_cons]
    constructor
    · simp
    · apply ih _ _ _ rfl
      rw [← size, List.length_cons]
      exact Nat.lt_succ_of_le (List.length_filter_le _ _)

theorem eraseDups_eq_self [BEq α] [LawfulBEq α] {items : List α} (once : items.Nodup) : items.eraseDups = items := by
  induction items with
  | nil => rfl
  | cons item rest ih =>
    obtain ⟨fresh, later⟩ := List.nodup_cons.mp once
    have kept : (rest.filter fun other => !other == item) = rest := by
      refine List.filter_eq_self.mpr fun other member => ?_
      rw [Bool.not_eq_true', beq_eq_false_iff_ne]
      rintro rfl
      exact fresh member
    rw [List.eraseDups_cons, kept, ih later]

theorem dropWhile_append_visible (p : α → Bool) {items more : List α} (visible : ∃ item ∈ items, p item = false) :
    (items ++ more).dropWhile p = items.dropWhile p ++ more := by
  rw [List.dropWhile_append, if_neg]
  rw [List.isEmpty_iff, List.dropWhile_eq_nil_iff]
  obtain ⟨item, member, other⟩ := visible
  exact fun all => Bool.false_ne_true (other.symm.trans (all item member))

theorem head?_of_increasing {numbers : List Nat} (increasing : numbers.Pairwise (· < ·)) {number : Nat} :
    numbers.head? = some number ↔ number ∈ numbers ∧ ∀ other ∈ numbers, number ≤ other := by
  cases increasing with
  | nil => simp
  | cons least =>
    simp only [List.head?_cons, Option.some.injEq, List.mem_cons, forall_eq_or_imp]
    constructor
    · rintro rfl
      exact ⟨.inl rfl, le_rfl, fun other inside => (least other inside).le⟩
    · rintro ⟨rfl | inside, below, -⟩
      · rfl
      · exact absurd (least number inside) (by omega)

theorem getLast?_of_increasing {numbers : List Nat} (increasing : numbers.Pairwise (· < ·)) {number : Nat} :
    numbers.getLast? = some number ↔ number ∈ numbers ∧ ∀ other ∈ numbers, other ≤ number := by
  induction numbers using List.reverseRecOn with
  | nil => simp
  | append_singleton front last =>
    have greatest : ∀ other ∈ front, other < last := fun other inside =>
      (List.pairwise_append.mp increasing).2.2 other inside last (List.mem_singleton_self last)
    simp only [List.getLast?_append, List.getLast?_singleton, Option.some_or, Option.some.injEq, List.mem_append,
      List.mem_singleton]
    constructor
    · rintro rfl
      exact ⟨.inr rfl, fun other inside => inside.elim (fun early => (greatest other early).le) (·.le)⟩
    · rintro ⟨inside | rfl, above⟩
      · exact absurd (above last (.inr rfl)) (Nat.not_le.mpr (greatest number inside))
      · rfl

/-! ### The last of its kind -/

section
variable {α : Type} {p : α → Bool}

def LastOf (p : α → Bool) (items : List α) (item : α) : Prop :=
  ∃ front back, items = front ++ item :: back ∧ p item = true ∧ ∀ other ∈ back, p other = false

variable {items : List α}

theorem exists_lastOf (some : ∃ item ∈ items, p item = true) : ∃ item, LastOf p items item := by
  induction items using List.reverseRecOn with
  | nil =>
    obtain ⟨item, member, -⟩ := some
    cases member
  | append_singleton front last ih =>
    by_cases here : p last = true
    · exact ⟨last, front, [], rfl, here, by simp⟩
    · obtain ⟨item, member, holds⟩ := some
      rcases List.mem_append.mp member with before | same
      · obtain ⟨found, first, back, rfl, own, none⟩ := ih ⟨item, before, holds⟩
        refine ⟨found, first, back ++ [last], by simp, own, fun other there => ?_⟩
        rcases List.mem_append.mp there with inside | final
        · exact none other inside
        · rw [List.mem_singleton.mp final]
          exact Bool.not_eq_true _ ▸ here
      · rw [List.mem_singleton.mp same] at holds
        exact absurd holds here

theorem LastOf.unique {first second : α} (one : LastOf p items first) (two : LastOf p items second) : first = second := by
  obtain ⟨front, back, rfl, own, none⟩ := one
  obtain ⟨other, rest, same, also, nothing⟩ := two
  rcases List.append_eq_append_iff.mp same with ⟨between, rfl, tail⟩ | ⟨between, rfl, tail⟩
  · rcases between with - | ⟨head, between⟩
    · exact (List.cons.inj tail).1
    · obtain ⟨rfl, rfl⟩ := List.cons.inj tail
      have absent := none second (by simp)
      rw [also] at absent
      cases absent
  · rcases between with - | ⟨head, between⟩
    · exact (List.cons.inj tail).1.symm
    · obtain ⟨rfl, rfl⟩ := List.cons.inj tail
      have absent := nothing first (by simp)
      rw [own] at absent
      cases absent

variable {item : α}

theorem LastOf.mem (last : LastOf p items item) : item ∈ items := by
  obtain ⟨front, back, rfl, -⟩ := last
  exact List.mem_append_right _ List.mem_cons_self

theorem LastOf.of_snoc {done : List α} {last : α} (found : LastOf p (done ++ [item]) last) :
    (p item = true ∧ last = item) ∨ (p item = false ∧ LastOf p done last) := by
  cases own : p item with
  | true => exact .inl ⟨rfl, found.unique ⟨done, [], rfl, own, fun _ none => absurd none List.not_mem_nil⟩⟩
  | false =>
    obtain ⟨front, back, shape, holds, after⟩ := found
    rcases List.eq_nil_or_concat back with rfl | ⟨others, final, rfl⟩
    · obtain ⟨-, same⟩ := List.append_inj' shape rfl
      cases same
      rw [own] at holds
      cases holds
    · rw [List.concat_eq_append, ← List.cons_append, ← List.append_assoc] at shape
      obtain ⟨rfl, -⟩ := List.append_inj' shape rfl
      exact .inr ⟨rfl, front, others, rfl, holds, fun other member =>
        after other (by rw [List.concat_eq_append]; exact List.mem_append_left _ member)⟩

theorem LastOf.of_map {β : Type} {change : α → β} {q : β → Bool} {last : β}
    (found : LastOf q (items.map change) last) : ∃ item, LastOf (fun item => q (change item)) items item ∧ change item = last := by
  obtain ⟨front, back, shape, holds, after⟩ := found
  obtain ⟨before, rest, rfl, rfl, tail⟩ := List.map_eq_append_iff.mp shape
  obtain ⟨item, behind, rfl, rfl, rfl⟩ := List.map_eq_cons_iff.mp tail
  exact ⟨item, ⟨before, behind, rfl, holds, fun other member => after _ (List.mem_map_of_mem member)⟩, rfl⟩

theorem reverse_find?_iff : items.reverse.find? p = some item ↔ LastOf p items item := by
  constructor
  · intro found
    obtain ⟨holds, front, back, shape, before⟩ := List.find?_eq_some_iff_append.mp found
    refine ⟨back.reverse, front.reverse, ?_, holds, fun other member => ?_⟩
    · rw [← List.reverse_reverse items, shape]
      simp
    · have absent := before other (List.mem_reverse.mp member)
      exact Bool.not_eq_true _ ▸ (by simpa using absent)
  · rintro ⟨front, back, rfl, holds, after⟩
    refine List.find?_eq_some_iff_append.mpr ⟨holds, back.reverse, front.reverse, by simp, fun other member => ?_⟩
    rw [after other (List.mem_reverse.mp member)]
    rfl

theorem find?_of_forall₂ {β : Type} {related : α → β → Prop} {q : β → Bool} {items : List α} {results : List β}
    (rounds : List.Forall₂ related items results) (same : ∀ item result, related item result → p item = q result) {result : β}
    (found : results.find? q = some result) : ∃ item, items.find? p = some item ∧ related item result := by
  induction rounds with
  | nil => cases found
  | @cons item first rest others here _ ih =>
    cases own : q first with
    | true =>
      rw [List.find?_cons_of_pos own] at found
      cases found
      exact ⟨item, List.find?_cons_of_pos ((same item _ here).trans own), here⟩
    | false =>
      rw [List.find?_cons_of_neg (by rw [own]; exact Bool.false_ne_true)] at found
      obtain ⟨other, there, relates⟩ := ih found
      refine ⟨other, ?_, relates⟩
      rw [List.find?_cons_of_neg (by rw [same item _ here, own]; exact Bool.false_ne_true)]
      exact there

end

/-! ### Items with a key of their own -/

theorem find?_of_nodup {α β : Type} [DecidableEq β] {key : α → β} {items : List α} (unique : (items.map key).Nodup) {item : α}
    (member : item ∈ items) : items.find? (fun other => key other = key item) = some item := by
  induction items with
  | nil => cases member
  | cons first rest ih =>
    rw [List.map_cons, List.nodup_cons] at unique
    rcases List.mem_cons.mp member with rfl | later
    · exact List.find?_cons_of_pos (by simp)
    · have other : key first ≠ key item := fun same => unique.1 (same ▸ List.mem_map_of_mem later)
      rw [List.find?_cons_of_neg (by simpa using other)]
      exact ih unique.2 later

/-! ### Ranges of lists in lexicographic order -/

theorem prefix_iff_between [LinearOrder α] {last next : α} (covers : last ⋖ next) (front key : List α) :
    front ++ [last] ≤ key ∧ key < front ++ [next] ↔ front ++ [last] <+: key := by
  rw [← not_lt]
  induction front generalizing key with
  | nil =>
    cases key with
    | nil => simp
    | cons c rest =>
      simp only [List.nil_append, List.cons_lt_cons_iff, List.not_lt_nil, and_false, or_false, not_lt, List.cons_prefix_cons,
        List.nil_prefix, and_true]
      constructor
      · rintro ⟨low, high⟩
        exact low.eq_of_not_lt fun above => covers.2 above high
      · intro same
        exact ⟨same.le, same ▸ covers.lt⟩
  | cons c front ih =>
    cases key with
    | nil => simp
    | cons d rest =>
      simp only [List.cons_append, List.cons_lt_cons_iff, List.cons_prefix_cons]
      rw [← ih, not_or]
      constructor
      · rintro ⟨⟨low, later⟩, above | ⟨rfl, high⟩⟩
        · exact absurd above low
        · exact ⟨rfl, fun below => later ⟨rfl, below⟩, high⟩
      · rintro ⟨rfl, low, high⟩
        exact ⟨⟨lt_irrefl _, fun below => low below.2⟩, .inr ⟨rfl, high⟩⟩

end HarnessMem.Library

/-! Values assigned to keys one after the other, as a dict comprehension does it. Which value stays at a key
depends on the order; how many keys have a value of some kind does not, where equal keys have equal kinds.
-/

namespace HarnessMem.Library

variable {α κ β : Type} [DecidableEq κ]

def assign (key : κ) (value : β) : List (κ × β) → List (κ × β)
  | [] => [(key, value)]
  | item :: items => if item.1 = key then (key, value) :: items else item :: assign key value items

/-- `{key(item): value(item) for item in items}`. -/
def assigned (key : α → κ) (value : α → β) (items : List α) : List (κ × β) :=
  items.foldl (fun found item => assign (key item) (value item) found) []

variable {items : List (κ × β)}

theorem mem_assign {key : κ} {value : β} {item : κ × β} (member : item ∈ assign key value items) :
    item = (key, value) ∨ item ∈ items := by
  induction items with
  | nil => exact .inl (List.mem_singleton.mp member)
  | cons other items ih =>
    rw [assign] at member
    split at member
    · rcases List.mem_cons.mp member with new | old
      · exact .inl new
      · exact .inr (List.mem_cons_of_mem _ old)
    · rcases List.mem_cons.mp member with same | later
      · exact .inr (same ▸ List.mem_cons_self)
      · exact (ih later).imp_right (List.mem_cons_of_mem _)

theorem mem_keys_assign {key other : κ} {value : β} :
    other ∈ (assign key value items).map Prod.fst ↔ other = key ∨ other ∈ items.map Prod.fst := by
  induction items with
  | nil => rw [assign, List.map_singleton, List.mem_singleton, List.map_nil, iff_false_intro List.not_mem_nil, or_false]
  | cons item items ih =>
    rw [assign]
    split
    · next same => rw [List.map_cons, List.map_cons, List.mem_cons, List.mem_cons, same, or_self_left]
    · rw [List.map_cons, List.map_cons, List.mem_cons, List.mem_cons, ih, or_left_comm]

theorem nodup_assign (key : κ) (value : β) (once : (items.map Prod.fst).Nodup) :
    ((assign key value items).map Prod.fst).Nodup := by
  induction items with
  | nil => exact List.nodup_singleton _
  | cons item items ih =>
    have ⟨fresh, later⟩ := List.nodup_cons.mp (List.map_cons ▸ once)
    rw [assign]
    split
    · next same =>
      rw [List.map_cons, ← same]
      exact List.nodup_cons.mpr ⟨fresh, later⟩
    · next differs =>
      rw [List.map_cons]
      refine List.nodup_cons.mpr ⟨?_, ih later⟩
      rw [mem_keys_assign]
      rintro (same | known)
      · exact differs same
      · exact fresh known

theorem assign_eq_update {key : κ} {value : β} (once : (items.map Prod.fst).Nodup) :
    (if items.any (·.1 = key) then items.map fun item => if item.1 = key then (key, value) else item
      else items ++ [(key, value)]) = assign key value items := by
  induction items with
  | nil => rfl
  | cons item items ih =>
    have ⟨fresh, later⟩ := List.nodup_cons.mp (List.map_cons ▸ once)
    rw [assign, List.any_cons, List.map_cons, List.cons_append]
    by_cases same : item.1 = key
    · have others : items.map (fun item => if item.1 = key then (key, value) else item) = items := by
        refine (List.map_congr_left fun other member => if_neg ?_).trans (List.map_id items)
        intro again
        exact fresh (List.mem_map.mpr ⟨other, member, again.trans same.symm⟩)
      rw [if_pos same, if_pos same, others, decide_eq_true same, Bool.true_or, if_pos rfl]
    · rw [if_neg same, if_neg same, decide_eq_false same, Bool.false_or, ← ih later, apply_ite (List.cons item)]

theorem assign_perm {key : κ} {value : β} (once : (items.map Prod.fst).Nodup) :
    (assign key value items).Perm (items.filter (·.1 ≠ key) ++ [(key, value)]) := by
  induction items with
  | nil => exact List.Perm.refl _
  | cons item items ih =>
    have ⟨fresh, later⟩ := List.nodup_cons.mp (List.map_cons ▸ once)
    rw [assign, List.filter_cons]
    by_cases same : item.1 = key
    · have others : items.filter (·.1 ≠ key) = items := by
        refine List.filter_eq_self.mpr fun other member => decide_eq_true fun again => ?_
        exact fresh (List.mem_map.mpr ⟨other, member, again.trans same.symm⟩)
      rw [if_pos same, if_neg (by simpa using same), others]
      exact (List.perm_append_singleton _ _).symm
    · rw [if_neg same, if_pos (decide_eq_true same), List.cons_append]
      exact (ih later).cons item

variable {key : α → κ} {value : α → β}

theorem foldl_assign_perm {items : List α} {found : List (κ × β)} (apart : (items.map key).Nodup)
    (once : (found.map Prod.fst).Nodup) :
    (items.foldl (fun found item => assign (key item) (value item) found) found).Perm
      (found.filter (·.1 ∉ items.map key) ++ items.map fun item => (key item, value item)) := by
  induction items generalizing found with
  | nil => simp
  | cons item items ih =>
    have ⟨fresh, later⟩ := List.nodup_cons.mp (List.map_cons ▸ apart)
    have new : (item :: items).map key = key item :: items.map key := rfl
    refine (ih later (nodup_assign _ _ once)).trans ?_
    refine (((assign_perm once).filter _).append_right _).trans ?_
    rw [List.filter_append, List.filter_filter, List.filter_singleton, decide_eq_true fresh, cond_true,
      List.append_assoc, new]
    refine List.Perm.append_right _ (List.Perm.of_eq ?_)
    refine List.filter_congr fun other _ => ?_
    simp only [List.mem_cons, not_or, Bool.decide_and, Bool.and_comm]

theorem assigned_spec (items : List α) : ((assigned key value items).map Prod.fst).Nodup ∧
    (∀ other, other ∈ (assigned key value items).map Prod.fst ↔ ∃ item ∈ items, key item = other) ∧
    ∀ found ∈ assigned key value items, ∃ item ∈ items, found = (key item, value item) := by
  induction items using List.reverseRecOn with
  | nil =>
    refine ⟨List.nodup_nil, fun other => ?_, fun _ member => absurd member List.not_mem_nil⟩
    exact ⟨fun member => absurd member List.not_mem_nil, fun exist => by
      obtain ⟨_, member, _⟩ := exist
      exact absurd member List.not_mem_nil⟩
  | append_singleton items item ih =>
    obtain ⟨once, keys, values⟩ := ih
    have step : assigned key value (items ++ [item]) = assign (key item) (value item) (assigned key value items) := by
      unfold assigned
      rw [List.foldl_append, List.foldl_cons, List.foldl_nil]
    rw [step]
    refine ⟨nodup_assign _ _ once, fun other => ?_, fun found member => ?_⟩
    · rw [mem_keys_assign, keys]
      constructor
      · rintro (rfl | ⟨known, member, same⟩)
        · exact ⟨item, List.mem_append_right _ (List.mem_singleton_self _), rfl⟩
        · exact ⟨known, List.mem_append_left _ member, same⟩
      · rintro ⟨known, member, same⟩
        rcases List.mem_append.mp member with early | last
        · exact .inr ⟨known, early, same⟩
        · rw [List.mem_singleton.mp last] at same
          exact .inl same.symm
    · rcases mem_assign member with new | old
      · exact ⟨item, List.mem_append_right _ (List.mem_singleton_self _), new⟩
      · obtain ⟨known, place, shape⟩ := values found old
        exact ⟨known, List.mem_append_left _ place, shape⟩

theorem countP_assigned {kind : κ × β → Bool} {items : List α}
    (agree : ∀ one ∈ items, ∀ other ∈ items, key one = key other → kind (key one, value one) = kind (key other, value other)) :
    (assigned key value items).countP kind =
      ((items.filter fun item => kind (key item, value item)).map key).toFinset.card := by
  obtain ⟨once, keys, values⟩ := @assigned_spec α κ β _ key value items
  have kept : (((assigned key value items).filter kind).map Prod.fst).Nodup := once.sublist (List.filter_sublist.map _)
  have same : (((assigned key value items).filter kind).map Prod.fst).toFinset =
      ((items.filter fun item => kind (key item, value item)).map key).toFinset := by
    ext other
    simp only [List.mem_toFinset, List.mem_map, List.mem_filter]
    constructor
    · rintro ⟨found, ⟨member, holds⟩, rfl⟩
      obtain ⟨item, place, rfl⟩ := values found member
      exact ⟨item, ⟨place, holds⟩, rfl⟩
    · rintro ⟨item, ⟨place, holds⟩, rfl⟩
      obtain ⟨found, member, keyed⟩ := List.mem_map.mp ((keys (key item)).mpr ⟨item, place, rfl⟩)
      obtain ⟨last, known, rfl⟩ := values found member
      exact ⟨_, ⟨member, (agree last known item place keyed).trans holds⟩, keyed⟩
  rw [List.countP_eq_length_filter, ← same, List.toFinset_card_of_nodup kept, List.length_map]

theorem countP_assigned_perm {kind : κ × β → Bool} {items others : List α} (perm : items.Perm others)
    (agree : ∀ one ∈ items, ∀ other ∈ items, key one = key other → kind (key one, value one) = kind (key other, value other)) :
    (assigned key value items).countP kind = (assigned key value others).countP kind := by
  rw [countP_assigned agree, countP_assigned]
  · exact congrArg Finset.card (List.toFinset_eq_of_perm _ _ ((perm.filter _).map key))
  · exact fun one first other second => agree one (perm.mem_iff.mpr first) other (perm.mem_iff.mpr second)

end HarnessMem.Library
