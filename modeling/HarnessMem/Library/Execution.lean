import Mathlib.Logic.Relation

/-! Runs of a labelled transition system and the rules that carry an invariant
along them. A guarded run is a run of the restricted step relation.
-/

set_option autoImplicit false

namespace HarnessMem.Library

variable {σ ε : Type}

/-- Runs: the start, the events in order, the state reached. -/
inductive Exec (step : σ → ε → σ → Prop) : σ → List ε → σ → Prop where
  | nil (state : σ) : Exec step state [] state
  | cons {start next final : σ} {event : ε} {events : List ε} :
      step start event next → Exec step next events final → Exec step start (event :: events) final

def Restrict (step : σ → ε → σ → Prop) (guard : σ → ε → Prop) : σ → ε → σ → Prop :=
  fun start event next => step start event next ∧ guard start event

/-- The states some run from `start` reaches. -/
def Reaches (step : σ → ε → σ → Prop) (start final : σ) : Prop :=
  ∃ events, Exec step start events final

namespace Exec

variable {step : σ → ε → σ → Prop}

variable {start : σ}

theorem single {next : σ} {event : ε} (edge : step start event next) :
    Exec step start [event] next :=
  .cons edge (.nil next)

theorem append {start middle final : σ} {first second : List ε}
    (left : Exec step start first middle) (right : Exec step middle second final) :
    Exec step start (first ++ second) final := by
  induction left with
  | nil => exact right
  | cons edge _ ih => exact .cons edge (ih right)

variable {final : σ} {events : List ε}

theorem snoc_cases {last : ε}
    (run : Exec step start (events ++ [last]) final) :
    ∃ before, Exec step start events before ∧ step before last final := by
  induction events generalizing start with
  | nil =>
    cases run with
    | cons edge rest =>
      cases rest
      exact ⟨start, .nil start, edge⟩
  | cons event events ih =>
    cases run with
    | cons edge rest =>
      obtain ⟨before, front, finish⟩ := ih rest
      exact ⟨before, .cons edge front, finish⟩

theorem mono {other : σ → ε → σ → Prop}
    (weaker : ∀ start event next, step start event next → other start event next) (run : Exec step start events final) :
    Exec other start events final := by
  induction run with
  | nil => exact .nil _
  | cons edge _ ih => exact .cons (weaker _ _ _ edge) ih

theorem unguarded {guard : σ → ε → Prop}
    (run : Exec (Restrict step guard) start events final) : Exec step start events final :=
  run.mono fun _ _ _ edge => edge.1

theorem restrict {admits : ε → Prop} (run : Exec step start events final)
    (all : ∀ event ∈ events, admits event) :
    Exec (Restrict step fun _ event => admits event) start events final := by
  induction run with
  | nil => exact .nil _
  | cons edge _ ih =>
    exact .cons ⟨edge, all _ List.mem_cons_self⟩ (ih fun event member => all event (List.mem_cons_of_mem _ member))

theorem invariant (inv : σ → Prop)
    (preserved : ∀ start event next, inv start → step start event next → inv next) (run : Exec step start events final)
    (initial : inv start) : inv final := by
  induction run with
  | nil => exact initial
  | cons edge _ ih => exact ih (preserved _ _ _ initial edge)

theorem relates (rel : σ → σ → Prop) (refl : ∀ state, rel state state)
    (extend : ∀ start event next final, step start event next → rel next final → rel start final) (run : Exec step start events final) : rel start final := by
  induction run with
  | nil => exact refl _
  | cons edge _ ih => exact extend _ _ _ _ edge ih

end Exec

namespace Reaches

variable {step : σ → ε → σ → Prop}

theorem invariant (inv : σ → Prop)
    (preserved : ∀ start event next, inv start → step start event next → inv next)
    {start final : σ} (reached : Reaches step start final) (initial : inv start) : inv final :=
  let ⟨_, run⟩ := reached
  run.invariant inv preserved initial

end Reaches

end HarnessMem.Library
