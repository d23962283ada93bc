import HarnessMem.Library.Execution
import Mathlib.Data.List.Forall2
import Mathlib.Logic.Function.Basic

/-! Programs that ask a shared store, alone or interleaved with other programs. A
program that keeps its guarantee as long as the others keep to what it relies on
does so in every interleaving.
-/

set_option autoImplicit false

namespace HarnessMem.Library

/-- A computation that asks its environment and goes on with the answers. -/
inductive Program (E : Type) (A : E → Type) (ε α : Type) where
  | ret (value : α)
  | raise (error : ε)
  | ask (effect : E) (next : A effect → Program E A ε α)

abbrev Answered {E : Type} (A : E → Type) := (effect : E) × A effect

namespace Program

variable {E : Type} {A : E → Type} {ε α β σ : Type}

def bind : Program E A ε α → (α → Program E A ε β) → Program E A ε β
  | ret value, next => next value
  | raise error, _ => raise error
  | ask effect rest, next => ask effect fun answer => (rest answer).bind next

instance : Monad (Program E A ε) where
  pure := ret
  bind := bind

instance : MonadExceptOf ε (Program E A ε) where
  throw := raise
  tryCatch body handle :=
    let rec handled : Program E A ε _ → Program E A ε _
      | ret value => ret value
      | raise error => handle error
      | ask effect rest => ask effect fun answer => handled (rest answer)
    handled body

theorem bind_assoc {γ : Type} (first : Program E A ε α) (next : α → Program E A ε β) (last : β → Program E A ε γ) :
    (first.bind next).bind last = first.bind fun value => (next value).bind last := by
  induction first with
  | ret value => rfl
  | raise error => rfl
  | ask effect rest ih => exact congrArg (ask effect) (funext ih)

def call (effect : E) : Program E A ε (A effect) := ask effect ret

def each {ι : Type} (items : List ι) (body : ι → Program E A ε β) : Program E A ε (List β) :=
  match items with
  | [] => ret []
  | item :: rest => (body item).bind fun first => (each rest body).bind fun others => ret (first :: others)

/-! ### Following a program -/

/-- What is left of a program after it was given these answers. -/
inductive Follows : Program E A ε α → List (Answered A) → Program E A ε α → Prop where
  | nil (program : Program E A ε α) : Follows program [] program
  | cons {effect : E} {next : A effect → Program E A ε α} {answer : A effect} {log : List (Answered A)}
      {rest : Program E A ε α} : Follows (next answer) log rest → Follows (ask effect next) (⟨effect, answer⟩ :: log) rest

theorem Follows.of_bind {first : Program E A ε α} {next : α → Program E A ε β} {log : List (Answered A)}
    {rest : Program E A ε β} (follows : Follows (first.bind next) log rest) :
    (∃ left, Follows first log left ∧ rest = left.bind next) ∨
      ∃ front back value, log = front ++ back ∧ Follows first front (ret value) ∧ Follows (next value) back rest := by
  induction first generalizing log with
  | ret value => exact .inr ⟨[], log, value, rfl, .nil _, follows⟩
  | raise error => exact .inl ⟨raise error, by cases follows; exact ⟨.nil _, rfl⟩⟩
  | ask effect body ih =>
    generalize shape : (ask effect body).bind next = whole at follows
    cases follows with
    | nil => exact .inl ⟨ask effect body, .nil _, shape.symm⟩
    | cons inner =>
      cases shape
      rcases ih _ inner with ⟨left, before, same⟩ | ⟨front, back, value, rfl, before, after⟩
      · exact .inl ⟨left, .cons before, same⟩
      · exact .inr ⟨_ :: front, back, value, rfl, .cons before, after⟩

def Avoids (asked : E → Prop) (program : Program E A ε α) : Prop :=
  ∀ log effect next, Follows program log (ask effect next) → ¬ asked effect

theorem Avoids.ret (asked : E → Prop) (value : α) : Avoids asked (.ret value : Program E A ε α) := by
  intro log effect next follows
  cases follows

theorem Avoids.raise (asked : E → Prop) (error : ε) : Avoids asked (.raise error : Program E A ε α) := by
  intro log effect next follows
  cases follows

variable {asked : E → Prop}

theorem Avoids.call {effect : E} (other : ¬ asked effect) :
    Avoids asked (Program.call effect : Program E A ε (A effect)) := by
  intro log later next follows
  cases follows with
  | nil => exact other
  | cons inner => cases inner

theorem Avoids.bind {first : Program E A ε α} {next : α → Program E A ε β}
    (start : Avoids asked first) (goesOn : ∀ value, Avoids asked (next value)) : Avoids asked (first.bind next) := by
  intro log effect rest follows
  rcases follows.of_bind with ⟨left, before, same⟩ | ⟨front, back, value, _, _, after⟩
  · cases left with
    | ret value =>
      have inner := goesOn value [] effect rest
      exact inner (same ▸ .nil _)
    | raise error => cases same
    | ask other body =>
      cases same
      exact start log _ _ before
  · exact goesOn value back effect rest after

theorem Avoids.each {ι : Type} {items : List ι} {body : ι → Program E A ε β}
    (step : ∀ item, Avoids asked (body item)) : Avoids asked (each items body) := by
  induction items with
  | nil => exact .ret _ _
  | cons item rest ih => exact .bind (step item) fun _ => .bind ih fun _ => .ret _ _

end Program

/-! ### Interleaving -/

variable {E O σ : Type} {A : E → Type} {ε α : Type}

end HarnessMem.Library

/-! Programs that run alone on their store, from the first question to the result. -/

namespace HarnessMem.Library.Program

variable {E σ ε α β ι : Type} {A : E → Type}

/-- A program runs from a store to another one with its result. -/
inductive Executes (answers : σ → (effect : E) → A effect → σ → Prop) : σ → Program E A ε α → σ → Except ε α → Prop where
  | ret {store : σ} {value : α} : Executes answers store (ret value) store (.ok value)
  | raise {store : σ} {error : ε} : Executes answers store (raise error) store (.error error)
  | ask {store next after : σ} {effect : E} {answer : A effect} {rest : A effect → Program E A ε α} {result : Except ε α} :
      answers store effect answer next → Executes answers next (rest answer) after result →
      Executes answers store (ask effect rest) after result

def run (answer : σ → (effect : E) → A effect × σ) : Program E A ε α → σ → Except ε α × σ
  | ret value, store => (.ok value, store)
  | raise error, store => (.error error, store)
  | ask effect rest, store => (rest (answer store effect).1).run answer (answer store effect).2

variable {answers : σ → (effect : E) → A effect → σ → Prop} {store after : σ}

theorem executes_run {answer : σ → (effect : E) → A effect × σ}
    (gives : ∀ store effect, answers store effect (answer store effect).1 (answer store effect).2)
    (program : Program E A ε α) (store : σ) :
    Executes answers store program (program.run answer store).2 (program.run answer store).1 := by
  induction program generalizing store with
  | ret value => exact .ret
  | raise error => exact .raise
  | ask effect rest ih => exact .ask (gives store effect) (ih _ _)

variable {result : Except ε α}

theorem Executes.of_ret {value : α} (run : Executes answers store (.ret value) after result) :
    after = store ∧ result = .ok value := by
  cases run
  exact ⟨rfl, rfl⟩

theorem Executes.of_raise {error : ε} (run : Executes answers store (.raise error) after result) :
    after = store ∧ result = .error error := by
  cases run
  exact ⟨rfl, rfl⟩

theorem Executes.of_call {effect : E} {result : Except ε (A effect)}
    (run : Executes answers store (call effect : Program E A ε (A effect)) after result) :
    ∃ answer, answers store effect answer after ∧ result = .ok answer := by
  cases run with
  | ask gives rest =>
    obtain ⟨rfl, rfl⟩ := rest.of_ret
    exact ⟨_, gives, rfl⟩

theorem Executes.answered {effect : E} {answer : A effect}
    (run : Executes answers store (call effect : Program E A ε (A effect)) after (.ok answer)) :
    answers store effect answer after := by
  obtain ⟨given, gives, same⟩ := run.of_call
  cases same
  exact gives

variable {first : Program E A ε α} {next : α → Program E A ε β}

theorem Executes.of_bind {result : Except ε β}
    (run : Executes answers store (first.bind next) after result) :
    (∃ middle value, Executes answers store first middle (.ok value) ∧ Executes answers middle (next value) after result) ∨
      ∃ error, Executes answers store first after (.error error) ∧ result = .error error := by
  induction first generalizing store with
  | ret value => exact .inl ⟨store, value, .ret, run⟩
  | raise error =>
    obtain ⟨rfl, rfl⟩ := run.of_raise
    exact .inr ⟨error, .raise, rfl⟩
  | ask effect rest ih =>
    cases run with
    | ask gives later =>
      rcases ih _ later with ⟨middle, value, head, tail⟩ | ⟨error, failed, rfl⟩
      · exact .inl ⟨middle, value, .ask gives head, tail⟩
      · exact .inr ⟨error, .ask gives failed, rfl⟩

theorem Executes.returned {value : β}
    (run : Executes answers store (first.bind next) after (.ok value)) :
    ∃ middle given, Executes answers store first middle (.ok given) ∧ Executes answers middle (next given) after (.ok value) := by
  rcases run.of_bind with done | ⟨error, -, failed⟩
  · exact done
  · cases failed

theorem Executes.bind {middle : σ} {value : α} {result : Except ε β}
    (head : Executes answers store first middle (.ok value)) (tail : Executes answers middle (next value) after result) :
    Executes answers store (first.bind next) after result := by
  generalize shape : Except.ok value = returned at head
  induction head with
  | ret =>
    cases shape
    exact tail
  | raise => cases shape
  | ask gives _ ih => exact .ask gives (ih tail shape)

theorem Executes.transport {asked : E → Prop} {other : σ}
    (same : ∀ effect answer next, ¬ asked effect → answers store effect answer next → next = store ∧ answers other effect answer other)
    {program : Program E A ε α} (avoids : Avoids asked program)
    (run : Executes answers store program after result) : Executes answers other program other result := by
  induction run with
  | ret => exact .ret
  | raise => exact .raise
  | ask gives _ ih =>
    obtain ⟨rfl, again⟩ := same _ _ _ (avoids [] _ _ (.nil _)) gives
    exact .ask again (ih same fun log effect next follows => avoids (_ :: log) effect next (.cons follows))

theorem Executes.unchanged {asked : E → Prop}
    (reads : ∀ store effect answer next, ¬ asked effect → answers store effect answer next → next = store)
    {program : Program E A ε α} (avoids : Avoids asked program)
    (run : Executes answers store program after result) : after = store := by
  induction run with
  | ret => rfl
  | raise => rfl
  | ask gives _ ih =>
    have here := avoids [] _ _ (.nil _)
    rw [ih fun log effect next follows => avoids (_ :: log) effect next (.cons follows)]
    exact reads _ _ _ _ here gives

theorem Executes.of_each {items : List ι} {body : ι → Program E A ε β}
    (reads : ∀ item after result, Executes answers store (body item) after result → after = store)
    {result : Except ε (List β)} (run : Executes answers store (each items body) after result) :
    after = store ∧ ∀ values, result = .ok values →
      List.Forall₂ (fun item value => Executes answers store (body item) store (.ok value)) items values := by
  induction items generalizing after result with
  | nil =>
    obtain ⟨rfl, rfl⟩ := run.of_ret
    exact ⟨rfl, fun values same => by cases same; exact .nil⟩
  | cons item rest ih =>
    rcases run.of_bind with ⟨middle, first, head, later⟩ | ⟨error, failed, rfl⟩
    · cases reads _ _ _ head
      rcases later.of_bind with ⟨last, others, tail, done⟩ | ⟨error, failed, rfl⟩
      · obtain ⟨same, each⟩ := ih tail
        cases same
        obtain ⟨rfl, rfl⟩ := done.of_ret
        exact ⟨rfl, fun values same => by cases same; exact .cons head (each others rfl)⟩
      · exact ⟨(ih failed).1, nofun⟩
    · exact ⟨reads _ _ _ failed, nofun⟩

end HarnessMem.Library.Program
