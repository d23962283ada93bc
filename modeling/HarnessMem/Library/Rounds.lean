import Mathlib.Data.Finset.Card
import Mathlib.Data.Finset.Lattice.Basic
import Mathlib.Order.CompleteBooleanAlgebra
import Mathlib.Order.FixedPoints
import Mathlib.Order.CompletePartialOrder

/-! Accepting items in rounds, where an item may pass because of what the accepted ones give.
A round judges every item by what was given before it. What is accepted in the end is the
least fixed point of one round.
-/

set_option autoImplicit false

namespace HarnessMem.Library

abbrev Accepted (κ τ : Type) := Finset κ × Finset τ

variable {ι κ τ : Type} [DecidableEq κ] (key : ι → κ) (gives : ι → Finset τ) (passes : Finset τ → ι → Bool)

def passing (items : List ι) (accepted : Accepted κ τ) : List ι :=
  items.filter fun item => key item ∉ accepted.1 ∧ passes accepted.2 item = true

variable {key passes}

variable {items : List ι} {accepted : Accepted κ τ}

theorem mem_passing {item : ι} :
    item ∈ passing key passes items accepted ↔ item ∈ items ∧ key item ∉ accepted.1 ∧ passes accepted.2 item = true := by
  unfold passing
  rw [List.mem_filter, decide_eq_true_eq]

variable {others : List ι}

theorem passing_perm (same : items.Perm others) (accepted : Accepted κ τ) :
    (passing key passes items accepted).Perm (passing key passes others accepted) := same.filter _

variable (key) [DecidableEq τ]

def accept (accepted : Accepted κ τ) (item : ι) : Accepted κ τ := (insert (key item) accepted.1, accepted.2 ∪ gives item)

variable {key gives}

theorem mem_foldl_accept {k : κ} :
    k ∈ (items.foldl (accept key gives) accepted).1 ↔ k ∈ accepted.1 ∨ ∃ item ∈ items, key item = k := by
  induction items generalizing accepted with
  | nil => simp
  | cons item items ih =>
    rw [List.foldl_cons, ih]
    simp only [accept, Finset.mem_insert, List.exists_mem_cons_iff]
    tauto

theorem given_foldl_accept {t : τ} :
    t ∈ (items.foldl (accept key gives) accepted).2 ↔ t ∈ accepted.2 ∨ ∃ item ∈ items, t ∈ gives item := by
  induction items generalizing accepted with
  | nil => simp
  | cons item items ih =>
    rw [List.foldl_cons, ih]
    simp only [accept, Finset.mem_union, List.exists_mem_cons_iff, or_assoc]

theorem fewer_outside (filled : passing key passes items accepted ≠ []) :
    (items.filter fun item => key item ∉ ((passing key passes items accepted).foldl (accept key gives) accepted).1).length <
      (items.filter fun item => key item ∉ accepted.1).length := by
  obtain ⟨item, passed⟩ := List.exists_mem_of_ne_nil _ filled
  have outside := mem_passing.mp passed
  have still : ∀ other, key other ∉ ((passing key passes items accepted).foldl (accept key gives) accepted).1 →
      key other ∉ accepted.1 := fun other apart known => apart (mem_foldl_accept.mpr (.inl known))
  apply lt_of_le_of_ne
  · apply List.Sublist.length_le
    apply List.monotone_filter_right
    intro other apart
    exact decide_eq_true (still other (of_decide_eq_true apart))
  · intro same
    have equal := (List.monotone_filter_right items fun other apart =>
      decide_eq_true (still other (of_decide_eq_true apart))).eq_of_length same
    have kept : item ∈ items.filter fun item => key item ∉ accepted.1 :=
      List.mem_filter.mpr ⟨outside.1, decide_eq_true outside.2.1⟩
    rw [← equal, List.mem_filter] at kept
    exact of_decide_eq_true kept.2 (mem_foldl_accept.mpr (.inr ⟨item, passed, rfl⟩))

variable (key gives passes)

def rounds (items : List ι) (accepted : Accepted κ τ) : Accepted κ τ :=
  if passing key passes items accepted = [] then accepted
  else rounds items ((passing key passes items accepted).foldl (accept key gives) accepted)
termination_by (items.filter fun item => key item ∉ accepted.1).length
decreasing_by
  apply fewer_outside
  assumption

variable {key gives passes}

theorem rounds_induction {motive : Accepted κ τ → Prop} {items : List ι}
    (step : ∀ accepted, motive accepted → motive ((passing key passes items accepted).foldl (accept key gives) accepted))
    {accepted : Accepted κ τ} (start : motive accepted) :
    motive (rounds key gives passes items accepted) ∧
      ∀ item ∈ items, passes (rounds key gives passes items accepted).2 item = true →
        key item ∈ (rounds key gives passes items accepted).1 := by
  fun_induction rounds with
  | case1 accepted nothing =>
    refine ⟨start, fun item member passed => ?_⟩
    by_contra outside
    have passed_still := mem_passing.mpr ⟨member, outside, passed⟩
    rw [nothing] at passed_still
    cases passed_still
  | case2 accepted _ ih => exact ih (step accepted start)

/-! ### Any order of the items -/

theorem foldl_accept_perm (same : items.Perm others) (accepted : Accepted κ τ) :
    items.foldl (accept key gives) accepted = others.foldl (accept key gives) accepted := by
  apply Prod.ext
  · ext k
    simp only [mem_foldl_accept, same.mem_iff]
  · ext t
    simp only [given_foldl_accept, same.mem_iff]

theorem rounds_perm (same : items.Perm others) (accepted : Accepted κ τ) :
    rounds key gives passes items accepted = rounds key gives passes others accepted := by
  fun_induction rounds key gives passes items accepted with
  | case1 accepted nothing =>
    have none : (passing key passes items accepted).Perm (passing key passes others accepted) := passing_perm same accepted
    rw [nothing] at none
    rw [rounds, if_pos none.nil_eq.symm]
  | case2 accepted something ih =>
    have alike : (passing key passes items accepted).Perm (passing key passes others accepted) := passing_perm same accepted
    have other_something : passing key passes others accepted ≠ [] := by
      intro nothing
      rw [nothing] at alike
      exact something alike.eq_nil
    rw [ih, foldl_accept_perm alike, rounds.eq_def key gives passes others accepted, if_neg other_something]

/-! ### The least fixed point -/

section Least
variable (key gives) (Passes : Set τ → ι → Prop) (grows : ∀ item, Monotone fun given => Passes given item) (items : List ι)

def given (keys : Set κ) : Set τ := {t | ∃ item ∈ items, key item ∈ keys ∧ t ∈ gives item}

variable {key gives items}

omit [DecidableEq κ] [DecidableEq τ] in
theorem given_mono : Monotone (given key gives items) := by
  rintro first second within t ⟨item, member, known, gift⟩
  exact ⟨item, member, within known, gift⟩

variable (key gives items) {Passes}

def judged : Set κ →o Set κ where
  toFun keys := {k | ∃ item ∈ items, key item = k ∧ Passes (given key gives items keys) item}
  monotone' := by
    rintro first second within k ⟨item, member, named, passed⟩
    exact ⟨item, member, named, grows item (given_mono within) passed⟩

variable {key gives items}

theorem coe_rounds (decides : ∀ given item, passes given item = true ↔ Passes ↑given item) (distinct : (items.map key).Nodup) :
    ↑(rounds key gives passes items (∅, ∅)).1 = (judged key gives grows items).lfp ∧
      ↑(rounds key gives passes items (∅, ∅)).2 = given key gives items ↑(rounds key gives passes items (∅, ∅)).1 := by
  have unique {first second : ι} (one : first ∈ items) (other : second ∈ items) (same : key first = key second) : first = second :=
    List.inj_on_of_nodup_map distinct one other same
  -- what is accepted is below every set that a round stays in, and has given all that is given
  obtain ⟨⟨below, complete⟩, closed⟩ := @rounds_induction _ _ _ _ key gives passes _
    (fun accepted => (∀ keys, judged key gives grows items keys ≤ keys → ↑accepted.1 ⊆ keys) ∧
      ↑accepted.2 = given key gives items ↑accepted.1) items
    (by
      rintro accepted ⟨below, complete⟩
      constructor
      · intro keys stays k member
        rcases mem_foldl_accept.mp (Finset.mem_coe.mp member) with before | ⟨item, passed, rfl⟩
        · exact below keys stays before
        · obtain ⟨inside, -, passed⟩ := mem_passing.mp passed
          rw [decides, complete] at passed
          exact stays ⟨item, inside, rfl, grows item (given_mono (below keys stays)) passed⟩
      · ext t
        rw [Finset.mem_coe, given_foldl_accept, ← Finset.mem_coe, complete]
        constructor
        · rintro (⟨item, inside, known, gift⟩ | ⟨item, passed, gift⟩)
          · exact ⟨item, inside, mem_foldl_accept.mpr (.inl known), gift⟩
          · exact ⟨item, (mem_passing.mp passed).1, mem_foldl_accept.mpr (.inr ⟨item, passed, rfl⟩), gift⟩
        · rintro ⟨item, inside, known, gift⟩
          rcases mem_foldl_accept.mp (Finset.mem_coe.mp known) with before | ⟨other, passed, same⟩
          · exact .inl ⟨item, inside, before, gift⟩
          · rw [unique (mem_passing.mp passed).1 inside same] at passed
            exact .inr ⟨item, passed, gift⟩)
    (∅, ∅) ⟨fun keys _ => by simp, by ext t; simp [given]⟩
  refine ⟨le_antisymm (below _ (OrderHom.map_lfp _).le) ?_, complete⟩
  apply OrderHom.lfp_le
  rintro k ⟨item, inside, rfl, passed⟩
  rw [← complete, ← decides] at passed
  exact closed item inside passed

end Least

end HarnessMem.Library
