import Mathlib.Data.Finset.Card
import Mathlib.Order.Bounds.Basic

/-! Selecting items round by round, where an item may join because of what is selected: the
least selection that nothing joins any more.
-/

set_option autoImplicit false

namespace HarnessMem.Library

variable {ι κ : Type} [DecidableEq κ] (key : ι → κ) (joins : List κ → ι → Prop) [∀ selected item, Decidable (joins selected item)]

def selectRound (selected : List κ) : List ι → List κ
  | [] => selected
  | item :: items =>
    selectRound (if key item ∉ selected ∧ joins selected item then selected ++ [key item] else selected) items

def selectRounds (items : List ι) : Nat → List κ → List κ
  | 0, selected => selected
  | rounds + 1, selected =>
    let next := selectRound key joins selected items
    if next.length = selected.length then selected else selectRounds items rounds next

def saturate (items : List ι) (selected : List κ) : List κ := selectRounds key joins items items.length selected

def Closed (items : List ι) (selected : List κ) : Prop := ∀ item ∈ items, joins selected item → key item ∈ selected

variable {key joins}

theorem exists_selectRound (items : List ι) (selected : List κ) :
    ∃ more, selectRound key joins selected items = selected ++ more ∧ ∀ other ∈ more, other ∉ selected ∧ ∃ item ∈ items, key item = other := by
  induction items generalizing selected with
  | nil => exact ⟨[], (List.append_nil _).symm, nofun⟩
  | cons item items ih =>
    unfold selectRound
    by_cases here : key item ∉ selected ∧ joins selected item
    · rw [if_pos here]
      obtain ⟨more, same, fresh⟩ := ih (selected ++ [key item])
      refine ⟨key item :: more, by rw [same, List.append_assoc]; rfl, ?_⟩
      intro other member
      cases member with
      | head => exact ⟨here.1, item, List.mem_cons_self .., rfl⟩
      | tail _ later =>
        obtain ⟨apart, which, inside, named⟩ := fresh other later
        exact ⟨fun before => apart (List.mem_append_left _ before), which, List.mem_cons_of_mem _ inside, named⟩
    · rw [if_neg here]
      obtain ⟨more, same, fresh⟩ := ih selected
      refine ⟨more, same, fun other member => ?_⟩
      obtain ⟨apart, which, inside, named⟩ := fresh other member
      exact ⟨apart, which, List.mem_cons_of_mem _ inside, named⟩

variable {items : List ι}

theorem closed_of_selectRound {selected : List κ}
    (same : (selectRound key joins selected items).length = selected.length) : Closed key joins items selected := by
  induction items with
  | nil => exact nofun
  | cons item items ih =>
    unfold selectRound at same
    by_cases here : key item ∉ selected ∧ joins selected item
    · rw [if_pos here] at same
      obtain ⟨more, longer, _⟩ := @exists_selectRound _ _ _ key joins _ items (selected ++ [key item])
      rw [longer, List.length_append, List.length_append, List.length_singleton] at same
      omega
    · rw [if_neg here] at same
      intro other member joined
      cases member with
      | head =>
        by_contra apart
        exact here ⟨apart, joined⟩
      | tail _ later => exact ih same other later joined

theorem selectRound_of_closed {selected : List κ} (closed : Closed key joins items selected) :
    selectRound key joins selected items = selected := by
  induction items with
  | nil => rfl
  | cons item items ih =>
    unfold selectRound
    rw [if_neg fun here => here.1 (closed item (List.mem_cons_self ..) here.2)]
    exact ih fun other member => closed other (List.mem_cons_of_mem _ member)

def outside (key : ι → κ) (items : List ι) (selected : List κ) : Nat := ((items.map key).toFinset \ selected.toFinset).card

theorem outside_append_lt {selected more : List κ} (filled : more ≠ [])
    (fresh : ∀ other ∈ more, other ∉ selected ∧ ∃ item ∈ items, key item = other) :
    outside key items (selected ++ more) < outside key items selected := by
  obtain ⟨other, member⟩ := List.exists_mem_of_ne_nil more filled
  obtain ⟨apart, item, inside, named⟩ := fresh other member
  apply Finset.card_lt_card
  rw [Finset.ssubset_iff_of_subset]
  · refine ⟨other, ?_, ?_⟩
    · rw [Finset.mem_sdiff, List.mem_toFinset, List.mem_toFinset]
      exact ⟨named ▸ List.mem_map_of_mem inside, apart⟩
    · rw [Finset.mem_sdiff, List.mem_toFinset, List.mem_toFinset]
      exact fun left => left.2 (List.mem_append_right _ member)
  · intro one left
    rw [Finset.mem_sdiff, List.mem_toFinset, List.mem_toFinset] at *
    exact ⟨left.1, fun before => left.2 (List.mem_append_left _ before)⟩

theorem outside_le (items : List ι) (selected : List κ) : outside key items selected ≤ items.length := by
  calc outside key items selected ≤ (items.map key).toFinset.card := Finset.card_le_card Finset.sdiff_subset
    _ ≤ (items.map key).length := List.toFinset_card_le _
    _ = items.length := List.length_map _

theorem closed_selectRounds (rounds : Nat) (selected : List κ) (enough : outside key items selected ≤ rounds) :
    Closed key joins items (selectRounds key joins items rounds selected) := by
  induction rounds generalizing selected with
  | zero =>
    intro item member _
    have none : (items.map key).toFinset ⊆ selected.toFinset :=
      Finset.sdiff_eq_empty_iff_subset.mp (Finset.card_eq_zero.mp (Nat.le_zero.mp enough))
    exact List.mem_toFinset.mp (none (List.mem_toFinset.mpr (List.mem_map_of_mem member)))
  | succ rounds ih =>
    unfold selectRounds
    dsimp only
    split
    · next same => exact closed_of_selectRound same
    · next changed =>
      apply ih
      obtain ⟨more, longer, fresh⟩ := @exists_selectRound _ _ _ key joins _ items selected
      rw [longer] at changed ⊢
      have filled : more ≠ [] := by
        rintro rfl
        exact changed (by rw [List.append_nil])
      have fewer := outside_append_lt filled fresh
      omega

theorem closed_saturate (items : List ι) (selected : List κ) : Closed key joins items (saturate key joins items selected) :=
  closed_selectRounds items.length selected (outside_le items selected)

theorem saturate_of_closed {selected : List κ} (closed : Closed key joins items selected) :
    saturate key joins items selected = selected := by
  unfold saturate
  cases items.length with
  | zero => rfl
  | succ rounds =>
    unfold selectRounds
    dsimp only
    rw [selectRound_of_closed closed, if_pos rfl]

theorem selectRound_induction {motive : κ → Prop}
    (step : ∀ selected, (∀ other ∈ selected, motive other) → ∀ item ∈ items, joins selected item → motive (key item))
    {selected : List κ} (start : ∀ other ∈ selected, motive other) : ∀ other ∈ selectRound key joins selected items, motive other := by
  induction items generalizing selected with
  | nil => exact start
  | cons item items ih =>
    unfold selectRound
    apply ih fun before holds which member => step before holds which (List.mem_cons_of_mem _ member)
    split
    · next here =>
      intro other member
      rw [List.mem_append, List.mem_singleton] at member
      cases member with
      | inl before => exact start other before
      | inr last => exact last ▸ step selected start item (List.mem_cons_self ..) here.2
    · exact start

theorem saturate_induction {motive : κ → Prop}
    (step : ∀ selected, (∀ other ∈ selected, motive other) → ∀ item ∈ items, joins selected item → motive (key item))
    {selected : List κ} (start : ∀ other ∈ selected, motive other) : ∀ other ∈ saturate key joins items selected, motive other := by
  unfold saturate
  induction items.length generalizing selected with
  | zero => exact start
  | succ rounds ih =>
    unfold selectRounds
    dsimp only
    split
    · exact start
    · exact ih (selectRound_induction step start)

/-! ### The loop, and what it computes -/

/-- A loop over the rounds that stops behind the first one that changes nothing. -/
inductive Settles (key : ι → κ) (joins : List κ → ι → Prop) [∀ selected item, Decidable (joins selected item)] (items : List ι) :
    List κ → List κ → Prop where
  | last {selected : List κ} (same : selectRound key joins selected items = selected) : Settles key joins items selected selected
  | again {selected final : List κ} (changed : selectRound key joins selected items ≠ selected)
      (rest : Settles key joins items (selectRound key joins selected items) final) : Settles key joins items selected final

theorem settles_selectRounds (rounds : Nat) (selected : List κ) (enough : outside key items selected ≤ rounds) :
    Settles key joins items selected (selectRounds key joins items rounds selected) := by
  induction rounds generalizing selected with
  | zero =>
    have closed : Closed key joins items selected := closed_selectRounds 0 selected enough
    exact .last (selectRound_of_closed closed)
  | succ rounds ih =>
    obtain ⟨more, longer, fresh⟩ := @exists_selectRound _ _ _ key joins _ items selected
    unfold selectRounds
    dsimp only
    split
    · next same =>
      rw [longer, List.length_append] at same
      have none : more = [] := List.length_eq_zero_iff.mp (by omega)
      exact .last (by rw [longer, none, List.append_nil])
    · next changed =>
      have filled : more ≠ [] := by
        rintro rfl
        exact changed (by rw [longer, List.append_nil])
      refine .again (fun same => changed (congrArg List.length same)) (ih _ ?_)
      have fewer := outside_append_lt filled fresh
      rw [longer]
      omega

theorem settles_saturate (items : List ι) (selected : List κ) : Settles key joins items selected (saturate key joins items selected) :=
  settles_selectRounds items.length selected (outside_le items selected)

theorem subset_selectRounds (rounds : Nat) (selected : List κ) :
    selected ⊆ selectRounds key joins items rounds selected := by
  induction rounds generalizing selected with
  | zero => exact fun _ => id
  | succ rounds ih =>
    obtain ⟨more, longer, -⟩ := @exists_selectRound _ _ _ key joins _ items selected
    unfold selectRounds
    dsimp only
    split
    · exact fun _ => id
    · refine List.Subset.trans ?_ (ih _)
      rw [longer]
      exact List.subset_append_left _ _

/-- What the loop selects is the least selection that holds the beginning and that nothing joins, where an item joins because of
which keys are selected, and keeps joining as more are. -/
theorem isLeast_saturate {meets : Set κ → ι → Prop} (agrees : ∀ selected item, joins selected item ↔ meets {other | other ∈ selected} item)
    (mono : ∀ {first second : Set κ} {item : ι}, first ⊆ second → meets first item → meets second item) (items : List ι)
    (selected : List κ) :
    IsLeast {selection : Set κ | (∀ other ∈ selected, other ∈ selection) ∧ ∀ item ∈ items, meets selection item → key item ∈ selection}
      {other | other ∈ saturate key joins items selected} := by
  constructor
  · refine ⟨fun other member => subset_selectRounds _ _ member, fun item member meet => ?_⟩
    exact closed_saturate items selected item member ((agrees _ item).mpr meet)
  · rintro selection ⟨start, closed⟩ other member
    refine saturate_induction (motive := (· ∈ selection)) (fun before inside item there joined => ?_) start other member
    exact closed item there (mono inside ((agrees before item).mp joined))

end HarnessMem.Library
