import Mathlib.Data.Option.Basic

/-! Partial maps laid over one another, as a copy that replaces what it knows and
leaves the rest lays the source over the target. The copy undoes a change exactly
when the change brought no key of its own.
-/

set_option autoImplicit false

namespace HarnessMem.Library

variable {κ α : Type}

def layered (top bottom : κ → Option α) : κ → Option α := fun key => (top key).or (bottom key)

def Covers (top bottom : κ → Option α) : Prop := ∀ key, (bottom key).isSome → (top key).isSome

theorem layered_eq_top_iff {top bottom : κ → Option α} : layered top bottom = top ↔ Covers top bottom := by
  constructor
  · intro same key present
    have here := congrFun same key
    unfold layered at here
    cases own : top key with
    | some value => rfl
    | none =>
      rw [own, Option.none_or] at here
      rw [here] at present
      cases present
  · intro covers
    funext key
    unfold layered
    cases own : top key with
    | some value => rfl
    | none =>
      cases below : bottom key with
      | none => rfl
      | some value =>
        have present := covers key (by rw [below]; rfl)
        rw [own] at present
        cases present

theorem layered_undoes_iff {before change : κ → Option α} :
    layered before (layered change before) = before ↔ Covers before change := by
  rw [layered_eq_top_iff]
  constructor
  · intro covers key present
    apply covers key
    obtain ⟨value, own⟩ := Option.isSome_iff_exists.mp present
    rw [layered, own]
    rfl
  · intro covers key present
    unfold layered at present
    cases own : change key with
    | some value => exact covers key (by rw [own]; rfl)
    | none =>
      rw [own, Option.none_or] at present
      exact present

end HarnessMem.Library
