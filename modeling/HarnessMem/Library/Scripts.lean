/-! Computations over a store that may be cut off before any of their writes. -/

set_option autoImplicit false

namespace HarnessMem.Library

/-- What a computation does from a state: the state it is in before each write, the state
it ends in and its value. -/
structure Course (σ α : Type) where
  before : List σ
  final : σ
  value : α

def Script (σ α : Type) : Type := σ → Course σ α

namespace Script

variable {σ α β : Type}

def bind (first : Script σ α) (next : α → Script σ β) : Script σ β := fun state =>
  let front := first state
  let back := next front.value front.final
  ⟨front.before ++ back.before, back.final, back.value⟩

instance : Monad (Script σ) where
  pure value := fun state => ⟨[], state, value⟩
  bind := bind

def query (read : σ → α) : Script σ α := fun state => ⟨[], state, read state⟩

def write (change : σ → σ) : Script σ Unit := fun state => ⟨[state], change state, ()⟩

def leaves (body : Script σ α) (state : σ) : Option Nat → Option σ
  | none => some (body state).final
  | some writes => (body state).before[writes]?

variable (state : σ)

@[simp] theorem pure_apply (value : α) : (pure value : Script σ α) state = ⟨[], state, value⟩ := rfl

@[simp] theorem query_apply (read : σ → α) : query read state = ⟨[], state, read state⟩ := rfl

@[simp] theorem write_apply (change : σ → σ) : write change state = ⟨[state], change state, ()⟩ := rfl

@[simp] theorem bind_apply (first : Script σ α) (next : α → Script σ β) :
    (first >>= next) state =
      ⟨(first state).before ++ (next (first state).value (first state).final).before,
        (next (first state).value (first state).final).final, (next (first state).value (first state).final).value⟩ := rfl

@[simp] theorem cond_apply (condition : Bool) (first second : Script σ α) :
    (bif condition then first else second) state = bif condition then first state else second state := by
  cases condition <;> rfl

theorem leaves_cases {body : Script σ α} {state after : σ} {cut : Option Nat} (left : body.leaves state cut = some after) :
    cut = none ∧ after = (body state).final ∨ ∃ writes, cut = some writes ∧ (body state).before[writes]? = some after := by
  cases cut with
  | none => exact .inl ⟨rfl, (Option.some.inj left).symm⟩
  | some writes => exact .inr ⟨writes, rfl, left⟩

theorem leaves_congr {first : Script σ α} {second : Script σ α} {state : σ} (same : first state = second state)
    (cut : Option Nat) : first.leaves state cut = second.leaves state cut := by
  unfold leaves
  rw [same]

theorem leaves_of_nil {body : Script σ α} {state after : σ} {cut : Option Nat} (states : (body state).before = [])
    (left : body.leaves state cut = some after) : after = (body state).final := by
  rcases leaves_cases left with ⟨_, rfl⟩ | ⟨writes, _, found⟩
  · rfl
  · rw [states] at found
    cases found

theorem leaves_of_pair {body : Script σ α} {state first second after : σ} {cut : Option Nat}
    (states : (body state).before = [first, second]) (left : body.leaves state cut = some after) :
    cut = none ∧ after = (body state).final ∨ cut = some 0 ∧ after = first ∨ cut = some 1 ∧ after = second := by
  rcases leaves_cases left with whole | ⟨writes, rfl, found⟩
  · exact .inl whole
  · rw [states] at found
    match writes, found with
    | 0, found => exact .inr (.inl ⟨rfl, (Option.some.inj found).symm⟩)
    | 1, found => exact .inr (.inr ⟨rfl, (Option.some.inj found).symm⟩)

def Keeps (inv : σ → Prop) (body : Script σ α) : Prop :=
  ∀ state, inv state → (∀ earlier ∈ (body state).before, inv earlier) ∧ inv (body state).final

section

variable {inv : σ → Prop}

theorem Keeps.pure (value : α) : Keeps inv (Pure.pure value : Script σ α) := fun _ held => ⟨nofun, held⟩

theorem Keeps.query (read : σ → α) : Keeps inv (Script.query read) := fun _ held => ⟨nofun, held⟩

theorem Keeps.write {change : σ → σ} (kept : ∀ state, inv state → inv (change state)) : Keeps inv (Script.write change) :=
  fun state held => ⟨fun _ member => List.mem_singleton.mp member ▸ held, kept state held⟩

theorem Keeps.bind {first : Script σ α} {next : α → Script σ β} (start : Keeps inv first)
    (goesOn : ∀ value, Keeps inv (next value)) : Keeps inv (first >>= next) := by
  intro state held
  have front := start state held
  have back := goesOn (first state).value (first state).final front.2
  constructor
  · intro earlier member
    rcases List.mem_append.mp member with sooner | later
    · exact front.1 earlier sooner
    · exact back.1 earlier later
  · exact back.2

theorem Keeps.leaves {body : Script σ α} (kept : Keeps inv body) {state after : σ} {cut : Option Nat} (held : inv state)
    (left : body.leaves state cut = some after) : inv after := by
  cases cut with
  | none => exact Option.some.inj left ▸ (kept state held).2
  | some writes => exact (kept state held).1 after (List.mem_of_getElem? left)

end

end Script

/-! ### Computations that may raise -/

def Attempt (σ ε α : Type) : Type := Script σ (Except ε α)

namespace Attempt

variable {σ ε α β : Type}

def bind (first : Attempt σ ε α) (next : α → Attempt σ ε β) : Attempt σ ε β := fun state =>
  match (first state).value with
  | .ok value =>
    ⟨(first state).before ++ (next value (first state).final).before, (next value (first state).final).final,
      (next value (first state).final).value⟩
  | .error raised => ⟨(first state).before, (first state).final, .error raised⟩

instance : Monad (Attempt σ ε) where
  pure value := fun state => ⟨[], state, .ok value⟩
  bind := bind

def ask (read : σ → Except ε α) : Attempt σ ε α := fun state => ⟨[], state, read state⟩

def write (change : σ → σ) : Attempt σ ε Unit := fun state => ⟨[state], change state, .ok ()⟩

def each (items : List α) (body : α → Attempt σ ε Unit) : Attempt σ ε Unit :=
  match items with
  | [] => pure ()
  | item :: rest => do
    body item
    each rest body

variable {first : Attempt σ ε α} {next : α → Attempt σ ε β} {state : σ}

theorem bind_of_ok {value : α} (ran : (first state).value = .ok value) :
    (first >>= next) state =
      ⟨(first state).before ++ (next value (first state).final).before, (next value (first state).final).final,
        (next value (first state).final).value⟩ := by
  change first.bind next state = _
  unfold bind
  rw [ran]

theorem bind_of_error {error : ε} (failed : (first state).value = .error error) :
    (first >>= next) state = ⟨(first state).before, (first state).final, .error error⟩ := by
  change first.bind next state = _
  unfold bind
  rw [failed]

theorem ask_bind_of_ok {read : σ → Except ε α} {value : α} (reads : read state = .ok value) :
    (ask read >>= next) state = next value state := bind_of_ok reads

theorem ask_bind_of_error {read : σ → Except ε α} {error : ε} (fails : read state = .error error) :
    (ask read >>= next) state = ⟨[], state, .error error⟩ := bind_of_error fails

theorem write_bind {change : σ → σ} {body : Unit → Attempt σ ε β} :
    (write change >>= body) state =
      ⟨state :: (body () (change state)).before, (body () (change state)).final, (body () (change state)).value⟩ := rfl

/-! ### Computations that return -/

def Returns (body : Attempt σ ε α) (start : σ) (value : α) (final : σ) : Prop :=
  (body start).value = .ok value ∧ (body start).final = final

section

variable {start final : σ}

theorem returns_pure {value other : α} : Returns (Pure.pure value : Attempt σ ε α) start other final ↔ other = value ∧ final = start := by
  constructor
  · rintro ⟨same, ended⟩
    exact ⟨(Except.ok.inj same).symm, ended.symm⟩
  · rintro ⟨rfl, rfl⟩
    exact ⟨rfl, rfl⟩

theorem returns_ask {read : σ → Except ε α} {value : α} : Returns (ask read) start value final ↔ read start = .ok value ∧ final = start :=
  and_congr_right fun _ => eq_comm

theorem returns_bind {value : β} : Returns (first >>= next) start value final ↔
    ∃ inner middle, Returns first start inner middle ∧ Returns (next inner) middle value final := by
  constructor
  · intro returned
    cases ran : (first start).value with
    | error error =>
      have failed := @bind_of_error _ _ _ _ first next start error ran
      rw [Returns, failed] at returned
      cases returned.1
    | ok inner =>
      have course := @bind_of_ok _ _ _ _ first next start inner ran
      rw [Returns, course] at returned
      exact ⟨inner, _, ⟨ran, rfl⟩, returned⟩
  · rintro ⟨inner, middle, ⟨ran, rfl⟩, returned⟩
    have course := @bind_of_ok _ _ _ _ first next start inner ran
    rw [Returns, course]
    exact returned

theorem returns_write {change : σ → σ} {value : Unit} :
    Returns (write change : Attempt σ ε Unit) start value final ↔ final = change start :=
  ⟨fun returned => returned.2.symm, fun ended => ⟨rfl, ended.symm⟩⟩

end

/-- A computation succeeds: the state it ends in, and how many writes it takes there. -/
structure Performs (body : Attempt σ ε Unit) (state final : σ) (writes : Nat) : Prop where
  returned : (body state).value = .ok ()
  ended : (body state).final = final
  counted : (body state).before.length = writes
  start : ∀ earlier ∈ (body state).before.head?, earlier = state
  idle : writes = 0 → final = state

namespace Performs

variable {middle final : σ} {front back : Nat}

theorem pure (state : σ) : Performs (Pure.pure () : Attempt σ ε Unit) state state 0 := by
  refine ⟨rfl, rfl, rfl, ?_, fun _ => rfl⟩
  intro earlier member
  cases member

theorem write (change : σ → σ) (state : σ) : Performs (Attempt.write change : Attempt σ ε Unit) state (change state) 1 :=
  ⟨rfl, rfl, rfl, fun _ member => (Option.some.inj member).symm, fun unwritten => absurd unwritten Nat.one_ne_zero⟩

theorem ask {read : σ → Except ε α} {next : α → Attempt σ ε Unit} {value : α} (reads : read state = .ok value)
    (goesOn : Performs (next value) state final back) : Performs (Attempt.ask read >>= next) state final back := by
  obtain ⟨ran, ended, count, start, idle⟩ := goesOn
  refine ⟨?_, ?_, ?_, ?_, idle⟩
  all_goals rw [ask_bind_of_ok reads]
  · exact ran
  · exact ended
  · exact count
  · exact start

theorem bind {first : Attempt σ ε Unit} {next : Unit → Attempt σ ε Unit} (starts : Performs first state middle front)
    (goesOn : Performs (next ()) middle final back) : Performs (first >>= next) state final (front + back) := by
  have shape := @bind_of_ok _ _ _ _ first next state () starts.returned
  rw [starts.ended] at shape
  refine ⟨?_, ?_, ?_, ?_, ?_⟩
  · rw [shape]
    exact goesOn.returned
  · rw [shape]
    exact goesOn.ended
  · rw [shape, List.length_append, starts.counted, goesOn.counted]
  · rw [shape, List.head?_append]
    intro earlier member
    cases states : (first state).before with
    | nil =>
      -- nothing is written before the second part
      rw [states, List.head?_nil, Option.none_or] at member
      have unwritten : front = 0 := by rw [← starts.counted, states]; rfl
      rw [goesOn.start earlier member, starts.idle unwritten]
    | cons earliest rest =>
      rw [states] at member
      exact starts.start earlier (by rw [states]; exact member)
  · intro unwritten
    have zero := Nat.add_eq_zero_iff.mp unwritten
    rw [goesOn.idle zero.2, starts.idle zero.1]

theorem leaves_start {body : Attempt σ ε Unit} {writes : Nat} {after : σ} (performs : Performs body state final writes)
    (left : Script.leaves body state (some 0) = some after) : after = state := by
  have found : (body state).before[0]? = some after := left
  rw [← List.head?_eq_getElem?] at found
  exact performs.start after found

theorem leaves_later {first : Attempt σ ε Unit} {next : Unit → Attempt σ ε β} (starts : Performs first state middle front)
    (writes : Nat) : Script.leaves (first.bind next) state (some (front + writes)) =
      Script.leaves (next ()) middle (some writes) := by
  have shape := @bind_of_ok _ _ _ _ first next state () starts.returned
  rw [starts.ended] at shape
  refine (congrArg (fun course => course.before[front + writes]?) shape).trans ?_
  change ((first state).before ++ ((next ()) middle).before)[front + writes]? = ((next ()) middle).before[writes]?
  rw [List.getElem?_append_right (by rw [starts.counted]; exact Nat.le_add_right _ _), starts.counted, Nat.add_sub_cancel_left]

theorem leaves_return {body : Attempt σ ε Unit} {writes : Nat} (performs : Performs body state final writes) (value : β)
    (cut : Option Nat) : Script.leaves (body.bind fun _ => Pure.pure value) state cut = Script.leaves body state cut := by
  have shape := @bind_of_ok _ _ _ _ body (fun _ => Pure.pure value) state () performs.returned
  cases cut with
  | none => exact congrArg (fun course => some course.final) shape
  | some writes =>
    refine (congrArg (fun course => course.before[writes]?) shape).trans ?_
    exact congrArg (fun before => before[writes]?) (List.append_nil _)

end Performs

end Attempt

namespace Script.Keeps

variable {σ ε α β : Type} {inv : σ → Prop}

theorem attempt {first : Attempt σ ε α} {next : α → Attempt σ ε β} (start : Keeps inv first)
    (goesOn : ∀ value, Keeps inv (next value)) : Keeps inv (first.bind next) := by
  intro state held
  have front := start state held
  unfold Attempt.bind
  cases (first state).value with
  | error raised => exact front
  | ok value =>
    have back := goesOn value (first state).final front.2
    refine ⟨fun earlier member => ?_, back.2⟩
    rcases List.mem_append.mp member with sooner | later
    · exact front.1 earlier sooner
    · exact back.1 earlier later

theorem each {items : List α} {body : α → Attempt σ ε Unit} (step : ∀ item ∈ items, Keeps inv (body item)) :
    Keeps inv (Attempt.each items body) := by
  induction items with
  | nil => exact Keeps.pure _
  | cons item rest ih =>
    exact (step item List.mem_cons_self).attempt fun _ => ih fun other member => step other (List.mem_cons_of_mem _ member)

end Script.Keeps

end HarnessMem.Library
