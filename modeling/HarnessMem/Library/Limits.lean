import Mathlib.Data.List.Infix
import Mathlib.Data.List.Nodup
import Mathlib.Data.List.Sort
import Mathlib.Data.Prod.Lex

/-! The nearest items of a list, where ties may be broken in any way. -/

set_option autoImplicit false

namespace HarnessMem.Library

variable {α κ : Type} [LinearOrder κ]

/-- An answer holds as many items as it may, and none is left out that is nearer than one it holds. -/
structure Nearest (key : α → κ) (items : List α) (count : Nat) (found : List α) : Prop where
  nodup : found.Nodup
  subset : found ⊆ items
  length : found.length = min count items.length
  sorted : found.Pairwise fun first second => key first ≤ key second
  near : ∀ item ∈ found, ∀ other ∈ items, other ∉ found → key item ≤ key other

variable {key : α → κ} {items found : List α} {count : Nat}

def nearer (key : α → κ) (items : List α) (item : α) : Nat := items.countP fun other => key other < key item

def within (key : α → κ) (items : List α) (item : α) : Nat := items.countP fun other => key other ≤ key item

theorem Nearest.refines {ι : Type} [LinearOrder ι] {finer : α → ι} (nearest : Nearest finer items count found)
    (keeps : ∀ first second, finer first ≤ finer second → key first ≤ key second) : Nearest key items count found where
  nodup := nearest.nodup
  subset := nearest.subset
  length := nearest.length
  sorted := nearest.sorted.imp (keeps _ _)
  near item inside other member out := keeps _ _ (nearest.near item inside other member out)

theorem Nearest.nearer_lt (nearest : Nearest key items count found) (distinct : items.Nodup) {item : α} (held : item ∈ found) :
    nearer key items item < count := by
  have inside : item :: items.filter (fun other => key other < key item) ⊆ found := by
    intro other member
    rcases List.mem_cons.mp member with rfl | closer
    · exact held
    · obtain ⟨here, below⟩ := List.mem_filter.mp closer
      rw [decide_eq_true_eq] at below
      by_contra out
      exact absurd below (nearest.near item held other here out).not_gt
  have single : (item :: items.filter (fun other => key other < key item)).Nodup :=
    List.nodup_cons.mpr ⟨by simp, distinct.filter _⟩
  have length := (List.subperm_of_subset single inside).length_le
  rw [List.length_cons, ← List.countP_eq_length_filter] at length
  have bound := nearest.length
  unfold nearer
  omega

theorem Nearest.mem_of_within (nearest : Nearest key items count found) {item : α} (member : item ∈ items)
    (few : within key items item ≤ count) : item ∈ found := by
  by_contra out
  have inside : item :: found ⊆ items.filter fun other => key other ≤ key item := by
    intro other here
    rw [List.mem_filter, decide_eq_true_eq]
    rcases List.mem_cons.mp here with rfl | held
    · exact ⟨member, le_rfl⟩
    · exact ⟨nearest.subset held, nearest.near other held item member out⟩
  have whole : item :: found ⊆ items := List.cons_subset.mpr ⟨member, nearest.subset⟩
  have single : (item :: found).Nodup := List.nodup_cons.mpr ⟨out, nearest.nodup⟩
  have length := (List.subperm_of_subset single inside).length_le
  have total := (List.subperm_of_subset single whole).length_le
  rw [List.length_cons, ← List.countP_eq_length_filter] at length
  rw [List.length_cons] at total
  have bound := nearest.length
  unfold within at few
  omega

theorem nearest_take (key : α → κ) (count : Nat) (distinct : items.Nodup) :
    Nearest key items count ((items.insertionSort fun first second => key first ≤ key second).take count) := by
  have permuted := List.perm_insertionSort (fun first second => key first ≤ key second) items
  have sorted := List.pairwise_insertionSort (fun first second => key first ≤ key second) items
  refine ⟨?_, ?_, ?_, sorted.sublist (List.take_sublist _ _), ?_⟩
  · exact (permuted.nodup_iff.mpr distinct).sublist (List.take_sublist _ _)
  · exact fun item member => permuted.mem_iff.mp (List.mem_of_mem_take member)
  · rw [List.length_take, permuted.length_eq]
  · intro item held other member out
    rw [← List.take_append_drop count (items.insertionSort _), List.pairwise_append] at sorted
    refine sorted.2.2 item held other ?_
    rw [← permuted.mem_iff, ← List.take_append_drop count (items.insertionSort _), List.mem_append] at member
    exact member.resolve_left out

section
variable [DecidableEq α]

def preferred (key : α → κ) (first last item : α) : κ ×ₗ Nat :=
  toLex (key item, if item = first then 0 else if item = last then 2 else 1)

theorem preferred_refines {first last item other : α} (below : preferred key first last item ≤ preferred key first last other) :
    key item ≤ key other := by
  rcases Prod.Lex.le_iff.mp below with low | ⟨same, -⟩
  · exact low.le
  · exact same.le

theorem within_preferred (distinct : items.Nodup) (first last : α) :
    within (preferred key first last) items first ≤ nearer key items first + 1 := by
  unfold within nearer
  have inside : items.filter (fun other => preferred key first last other ≤ preferred key first last first) ⊆
      first :: items.filter fun other => key other < key first := by
    intro other member
    obtain ⟨here, below⟩ := List.mem_filter.mp member
    rw [decide_eq_true_eq, Prod.Lex.le_iff] at below
    rcases below with low | ⟨-, tied⟩
    · exact List.mem_cons_of_mem _ (List.mem_filter.mpr ⟨here, decide_eq_true low⟩)
    · by_cases same : other = first
      · exact same ▸ List.mem_cons_self
      · simp only [preferred, ofLex_toLex, if_neg same, ↓reduceIte] at tied
        split at tied <;> omega
  rw [List.countP_eq_length_filter, List.countP_eq_length_filter]
  exact (List.subperm_of_subset (distinct.filter _) inside).length_le

theorem within_le_nearer_preferred (distinct : items.Nodup) {first last : α} (different : last ≠ first) :
    within key items last ≤ nearer (preferred key first last) items last + 1 := by
  unfold within nearer
  have inside : items.filter (fun other => key other ≤ key last) ⊆
      last :: items.filter fun other => preferred key first last other < preferred key first last last := by
    intro other member
    obtain ⟨here, below⟩ := List.mem_filter.mp member
    rw [decide_eq_true_eq] at below
    by_cases same : other = last
    · exact same ▸ List.mem_cons_self
    · refine List.mem_cons_of_mem _ (List.mem_filter.mpr ⟨here, decide_eq_true (Prod.Lex.lt_iff.mpr ?_)⟩)
      rcases below.lt_or_eq with low | tied
      · exact .inl low
      · refine .inr ⟨tied, ?_⟩
        simp only [preferred, ofLex_toLex, if_neg different, if_neg same, ↓reduceIte]
        split <;> omega
  rw [List.countP_eq_length_filter, List.countP_eq_length_filter]
  exact (List.subperm_of_subset (distinct.filter _) inside).length_le

theorem exists_nearest_mem (distinct : items.Nodup) {item : α} (member : item ∈ items) (few : nearer key items item < count) :
    ∃ found, Nearest key items count found ∧ item ∈ found := by
  have taken := nearest_take (preferred key item item) count distinct
  have bound := @within_preferred _ _ _ key items _ distinct item item
  exact ⟨_, taken.refines fun _ _ => preferred_refines, taken.mem_of_within member (by omega)⟩

/-- An answer may hold one item and leave another out, if fewer are nearer than the one than it may hold, and more are at
most as far as the other. -/
theorem exists_nearest_but (distinct : items.Nodup) {item other : α} (member : item ∈ items) (different : other ≠ item)
    (few : nearer key items item < count) (many : count < within key items other) :
    ∃ found, Nearest key items count found ∧ item ∈ found ∧ other ∉ found := by
  have taken := nearest_take (preferred key item other) count distinct
  have low := @within_preferred _ _ _ key items _ distinct item other
  have high := @within_le_nearer_preferred _ _ _ key items _ distinct item other different
  refine ⟨_, taken.refines fun _ _ => preferred_refines, taken.mem_of_within member (by omega), fun held => ?_⟩
  have bound := taken.nearer_lt distinct held
  omega

end

end HarnessMem.Library

/-! A filter behind a limit. An engine orders the rows a condition selects, in any way where their ranks
are equal, and hands over the first ones; what is filtered out afterwards has taken a place.
-/

namespace HarnessMem.Library

variable {α ρ κ : Type} [LinearOrder ρ] [LinearOrder κ]

/-- An order of the rows that the engine may hand over. -/
structure Ordered (rank : α → ρ) (rows answer : List α) : Prop where
  perm : answer.Perm rows
  sorted : answer.Pairwise fun first second => rank first ≤ rank second

theorem exists_ordered {rank : α → ρ} {rows : List α} {first second : α} (held : first ∈ rows) (other : second ∈ rows)
    (apart : second ≠ first) (earlier : rank first ≤ rank second) :
    ∃ answer, Ordered rank rows answer ∧ [first, second].Sublist answer := by
  classical
  let sorted : α → α → Prop := fun one another => rank one ≤ rank another
  have : Std.Total sorted := ⟨fun one another => le_total (rank one) (rank another)⟩
  have : IsTrans α sorted := ⟨fun _ _ _ => le_trans⟩
  refine ⟨(first :: rows.erase first).insertionSort sorted, ⟨?_, List.pairwise_insertionSort _ _⟩, ?_⟩
  · exact (List.perm_insertionSort _ _).trans (List.perm_cons_erase held).symm
  · have ahead : sorted first second := earlier
    apply List.pair_sublist_insertionSort ahead
    exact List.cons_sublist_cons.mpr (List.singleton_sublist.mpr ((List.mem_erase_of_ne apart).mpr other))

theorem exists_ordered_any (rank : α → ρ) (rows : List α) : ∃ answer, Ordered rank rows answer := by
  let sorted : α → α → Prop := fun one another => rank one ≤ rank another
  have : Std.Total sorted := ⟨fun one another => le_total (rank one) (rank another)⟩
  have : IsTrans α sorted := ⟨fun _ _ _ => le_trans⟩
  exact ⟨rows.insertionSort sorted, List.perm_insertionSort _ _, List.pairwise_insertionSort _ _⟩

theorem exists_of_perm_map {β : Type} {image : α → β} {answer : List β} {items : List α} (perm : answer.Perm (items.map image)) :
    ∃ order : List α, order.Perm items ∧ answer = order.map image := by
  induction items generalizing answer with
  | nil => exact ⟨[], .refl _, perm.eq_nil⟩
  | cons item rest ih =>
    obtain ⟨front, back, rfl⟩ := List.append_of_mem (perm.symm.subset List.mem_cons_self)
    have others : (front ++ back).Perm (rest.map image) := (List.perm_middle.symm.trans perm).cons_inv
    obtain ⟨order, placed, same⟩ := ih others
    obtain ⟨left, right, rfl, rfl, rfl⟩ := List.append_eq_map_iff.mp same
    exact ⟨left ++ item :: right, List.perm_middle.trans (placed.cons item), by simp⟩

theorem filter_take {check : α → Bool} {rows : List α} (front : rows.Pairwise fun first second => check second = true → check first = true)
    (count : Nat) : (rows.take count).filter check = (rows.filter check).take count := by
  induction rows generalizing count with
  | nil => simp
  | cons row rest ih =>
    obtain ⟨first, later⟩ := List.pairwise_cons.mp front
    cases count with
    | zero => rfl
    | succ count =>
      rw [List.take_succ_cons, List.filter_cons, List.filter_cons]
      split
      · rw [List.take_succ_cons, ih later]
      · next hidden =>
        have none : rest.filter check = [] := List.filter_eq_nil_iff.mpr fun other member passes => hidden (first other member passes)
        rw [ih later, none, List.take_nil, List.take_nil]

theorem mem_take_of_sublist {rows : List α} {first second : α} {count : Nat} (distinct : rows.Nodup)
    (before : [first, second].Sublist rows) (taken : second ∈ rows.take count) : first ∈ rows.take count := by
  have apart := List.nodup_append.mp (List.take_append_drop count rows ▸ distinct)
  rw [← List.take_append_drop count rows] at before
  obtain ⟨front, back, parts, left, right⟩ := List.sublist_append_iff.mp before
  cases front with
  | nil =>
    rw [List.nil_append] at parts
    have behind : second ∈ rows.drop count := right.subset (by simp [← parts])
    exact absurd rfl (apart.2.2 second taken second behind)
  | cons item rest =>
    rw [List.cons_append, List.cons.injEq] at parts
    exact left.subset (by simp [parts.1])

theorem pair_of_pairwise {related : α → α → Prop} {rows : List α} {first second : α} (before : [first, second].Sublist rows)
    (sorted : rows.Pairwise related) : related first second := by
  have pair := List.Pairwise.sublist before sorted
  exact (List.pairwise_cons.mp pair).1 second (by simp)

section

variable {rank : α → ρ} {key : α → κ} {items : List α} {selects visible check : α → Bool}

/-- Behind the limit the nearest of the visible items are left, for every limit and every order of the engine,
exactly where the condition selects every visible item, ranks it before everything it selects besides, and ranks
the visible ones as their keys do. -/
theorem limited_iff (distinct : items.Nodup) (agrees : ∀ item ∈ items, selects item = true → check item = visible item) :
    (∀ answer, Ordered rank (items.filter selects) answer → ∀ count,
        Nearest key (items.filter visible) count ((answer.take count).filter check)) ↔
      (∀ item ∈ items, visible item = true → selects item = true) ∧
        (∀ item ∈ items, visible item = true → ∀ other ∈ items, selects other = true → visible other = false →
          rank item < rank other) ∧
        ∀ item ∈ items, visible item = true → ∀ other ∈ items, visible other = true → rank item ≤ rank other →
          key item ≤ key other := by
  have chosen := distinct.filter selects
  constructor
  · intro exact_
    -- with a limit that is no bound the answer holds all visible items
    have whole : ∀ {answer : List α} {count : Nat}, Nearest key (items.filter visible) count answer →
        (items.filter visible).length ≤ count → items.filter visible ⊆ answer := by
      intro answer count nearest enough
      have sub := List.subperm_of_subset nearest.nodup nearest.subset
      have size := nearest.length
      rw [Nat.min_eq_right enough] at size
      exact (sub.perm_of_length_le size.ge).symm.subset
    have selected : ∀ item ∈ items, visible item = true → selects item = true := by
      intro item member seen
      obtain ⟨answer, ordered⟩ := exists_ordered_any rank (items.filter selects)
      have inside := whole (exact_ answer ordered _) le_rfl (List.mem_filter.mpr ⟨member, seen⟩)
      have taken := List.mem_of_mem_take (List.mem_filter.mp inside).1
      exact (List.mem_filter.mp (ordered.perm.subset taken)).2
    refine ⟨selected, ?_, ?_⟩
    · intro item member seen other held picked hidden
      by_contra ahead
      have apart : item ≠ other := by
        rintro rfl
        exact Bool.false_ne_true (hidden.symm.trans seen)
      obtain ⟨answer, ordered, before⟩ := exists_ordered (List.mem_filter.mpr ⟨held, picked⟩)
        (List.mem_filter.mpr ⟨member, selected item member seen⟩) apart (le_of_not_gt ahead)
      have nearest := exact_ answer ordered (items.filter visible).length
      have inside := whole nearest le_rfl (List.mem_filter.mpr ⟨member, seen⟩)
      -- the answer has as many items as the limit, so the filter removes none
      have all : (answer.take (items.filter visible).length).filter check = answer.take (items.filter visible).length := by
        apply List.filter_eq_self.mpr
        apply List.length_filter_eq_length_iff.mp
        have size := nearest.length
        have bound := List.length_filter_le check (answer.take (items.filter visible).length)
        have most := List.length_take_le (items.filter visible).length answer
        omega
      have taken := mem_take_of_sublist (ordered.perm.nodup_iff.mpr chosen) before (List.mem_filter.mp inside).1
      have passes := List.filter_eq_self.mp all other taken
      rw [agrees other held picked, hidden] at passes
      exact Bool.false_ne_true passes
    · intro item member seen other held shown earlier
      by_cases same : other = item
      · rw [same]
      obtain ⟨answer, ordered, before⟩ := exists_ordered (List.mem_filter.mpr ⟨member, selected item member seen⟩)
        (List.mem_filter.mpr ⟨held, selected other held shown⟩) same earlier
      have nearest := exact_ answer ordered answer.length
      rw [List.take_length] at nearest
      have kept : [item, other].Sublist (answer.filter check) := by
        have passes : [item, other].filter check = [item, other] := by
          rw [List.filter_eq_self]
          intro row inside
          rcases List.mem_pair.mp inside with rfl | rfl
          · rw [agrees row member (selected row member seen), seen]
          · rw [agrees row held (selected row held shown), shown]
        exact passes ▸ before.filter check
      have ranked : key item ≤ key other := @pair_of_pairwise α (fun one another => key one ≤ key another) _ _ _ kept nearest.sorted
      exact ranked
  · rintro ⟨selected, ahead, ranked⟩ answer ordered count
    have read : ∀ row ∈ answer, row ∈ items ∧ selects row = true := fun row member =>
      List.mem_filter.mp (ordered.perm.subset member)
    have seen : ∀ row ∈ answer, check row = visible row := fun row member => agrees row (read row member).1 (read row member).2
    have perm : (answer.filter check).Perm (items.filter visible) := by
      refine (ordered.perm.filter check).trans (.of_eq ?_)
      rw [List.filter_filter]
      apply List.filter_congr
      intro item member
      cases picked : selects item with
      | true => rw [agrees item member picked, Bool.and_true]
      | false =>
        cases shown : visible item with
        | true => exact absurd (picked.symm.trans (selected item member shown)) Bool.false_ne_true
        | false => rw [Bool.and_false]
    have front : answer.Pairwise fun first second => check second = true → check first = true := by
      refine ordered.sorted.imp_of_mem fun {first second} left right earlier passes => ?_
      rw [seen second right] at passes
      rw [seen first left]
      by_contra hidden
      exact absurd earlier (ahead second (read second right).1 passes first (read first left).1 (read first left).2
        (Bool.eq_false_of_not_eq_true hidden)).not_ge
    have sorted : (answer.filter check).Pairwise fun first second => key first ≤ key second := by
      refine (ordered.sorted.filter check).imp_of_mem fun {first second} left right earlier => ?_
      obtain ⟨one, passes⟩ := List.mem_filter.mp left
      obtain ⟨two, goes⟩ := List.mem_filter.mp right
      exact ranked first (read first one).1 (seen first one ▸ passes) second (read second two).1 (seen second two ▸ goes) earlier
    have unique : (answer.filter check).Nodup := perm.nodup_iff.mpr (distinct.filter visible)
    rw [filter_take front]
    refine ⟨unique.sublist (List.take_sublist _ _), fun item member => perm.subset (List.mem_of_mem_take member), ?_,
      sorted.sublist (List.take_sublist _ _), ?_⟩
    · rw [List.length_take, perm.length_eq]
    · intro item taken other member out
      have inside := perm.symm.subset member
      rw [← List.take_append_drop count (answer.filter check)] at inside sorted
      exact (List.pairwise_append.mp sorted).2.2 item taken other ((List.mem_append.mp inside).resolve_left out)

end

end HarnessMem.Library
