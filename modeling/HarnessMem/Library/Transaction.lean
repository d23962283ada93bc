import Mathlib.Order.Basic

/-! Statements on a database inside one transaction. What a statement raises
leaves the tables as far as the statements before it got, until somebody
rolls the transaction back.
-/

set_option autoImplicit false

namespace HarnessMem.Library

/-- Tables, with the ones to go back to while a transaction is open. -/
structure Database (τ : Type) where
  tables : τ
  saved : Option τ

def Database.idle {τ : Type} (tables : τ) : Database τ := ⟨tables, none⟩

def Database.opened {τ : Type} (tables : τ) : Database τ := ⟨tables, some tables⟩

abbrev Session (ε τ α : Type) := EStateM ε (Database τ) α

namespace Session

variable {ε τ α β : Type}

def beginTransaction : Session ε τ Unit := fun db => .ok () (.opened db.tables)

def commit : Session ε τ Unit := fun db => .ok () (.idle db.tables)

def rollback : Session ε τ Unit := fun db => .ok () (.idle (db.saved.getD db.tables))

def statement (failure : Option ε) : Session ε τ Unit := fun db =>
  match failure with
  | none => .ok () db
  | some error => .error error db

def query (read : τ → α) : Session ε τ α := fun db => .ok (read db.tables) db

def write (change : τ → τ) : Session ε τ Unit := fun db => .ok () { db with tables := change db.tables }

/-- `except Exception`: an open transaction is rolled back and the error is raised again. -/
def rollingBack (body : Session ε τ α) : Session ε τ α := fun db =>
  match body db with
  | .ok value after => .ok value after
  | .error error after => .error error (if after.saved.isSome then .idle (after.saved.getD after.tables) else after)

def each (items : List α) (body : α → Session ε τ (List β)) : Session ε τ (List β) :=
  match items with
  | [] => pure []
  | item :: rest => do
    let first ← body item
    let others ← each rest body
    pure (first ++ others)

/-- Neither the value nor the error of the statements ends the transaction. -/
structure Inside (body : Session ε τ α) : Prop where
  ok : ∀ db value after, body db = .ok value after → after.saved = db.saved
  error : ∀ db failure after, body db = .error failure after → after.saved = db.saved

variable {db after : Database τ}

theorem bind_ok {first : Session ε τ α} {next : α → Session ε τ β} {value : β} :
    (first >>= next) db = .ok value after ↔
      ∃ middle between, first db = .ok middle between ∧ next middle between = .ok value after := by
  change EStateM.bind first next db = _ ↔ _
  unfold EStateM.bind
  cases first db with
  | ok middle between =>
    constructor
    · intro run
      exact ⟨middle, between, rfl, run⟩
    · rintro ⟨_, _, same, run⟩
      cases same
      exact run
  | error failure between => simp

theorem bind_error {first : Session ε τ α} {next : α → Session ε τ β} {failure : ε} :
    (first >>= next) db = .error failure after ↔
      first db = .error failure after ∨
        ∃ middle between, first db = .ok middle between ∧ next middle between = .error failure after := by
  change EStateM.bind first next db = _ ↔ _
  unfold EStateM.bind
  cases first db with
  | ok middle between =>
    constructor
    · intro run
      exact .inr ⟨middle, between, rfl, run⟩
    · rintro (raised | ⟨_, _, same, run⟩)
      · cases raised
      · cases same
        exact run
  | error error between => simp

theorem statement_ok {failure : Option ε} {value : Unit}
    (run : statement failure db = .ok value after) : after = db := by
  cases failure with
  | none =>
    cases run
    rfl
  | some error => cases run

theorem query_ok {read : τ → α} {value : α} (run : (query read : Session ε τ α) db = .ok value after) :
    after = db ∧ read db.tables = value := by
  cases run
  exact ⟨rfl, rfl⟩

@[simp] theorem pure_apply (value : α) (db : Database τ) : (pure value : Session ε τ α) db = .ok value db := rfl

@[simp] theorem throw_apply (failure : ε) (db : Database τ) :
    (throw failure : Session ε τ α) db = .error failure db := rfl

namespace Inside

theorem pure (value : α) : Inside (pure value : Session ε τ α) where
  ok _ _ _ run := by cases run; rfl
  error _ _ _ run := by cases run

theorem throw (failure : ε) : Inside (throw failure : Session ε τ α) where
  ok _ _ _ run := by cases run
  error _ _ _ run := by cases run; rfl

theorem bind {first : Session ε τ α} {next : α → Session ε τ β} (start : Inside first)
    (goesOn : ∀ value, Inside (next value)) : Inside (first >>= next) where
  ok db value after run := by
    obtain ⟨middle, between, left, right⟩ := bind_ok.mp run
    rw [(goesOn middle).ok between value after right, start.ok db middle between left]
  error db failure after run := by
    obtain left | ⟨middle, between, left, right⟩ := bind_error.mp run
    · exact start.error db failure after left
    · rw [(goesOn middle).error between failure after right, start.ok db middle between left]

theorem statement (failure : Option ε) : Inside (statement failure : Session ε τ Unit) := by
  cases failure with
  | none => exact pure ()
  | some error => exact throw error

theorem query (read : τ → α) : Inside (query read : Session ε τ α) where
  ok _ _ _ run := by cases run; rfl
  error _ _ _ run := by cases run

theorem write (change : τ → τ) : Inside (write change : Session ε τ Unit) where
  ok _ _ _ run := by cases run; rfl
  error _ _ _ run := by cases run

theorem each {items : List α} {body : α → Session ε τ (List β)} (step : ∀ item, Inside (body item)) :
    Inside (each items body) := by
  induction items with
  | nil => exact pure []
  | cons item rest ih => exact bind (step item) fun _ => bind ih fun _ => pure _

end Inside

/-! ### One statement for each item -/

variable {body : α → Session ε τ (List β)}

theorem each_reads {items : List α} {property : Database τ → α → Prop}
    (step : ∀ item db values after, body item db = .ok values after → after = db ∧ property db item) {values : List β} (run : each items body db = .ok values after) :
    after = db ∧ ∀ item ∈ items, property db item := by
  induction items generalizing values with
  | nil =>
    cases run
    exact ⟨rfl, fun _ member => absurd member List.not_mem_nil⟩
  | cons item rest ih =>
    obtain ⟨first, middle, head, goesOn⟩ := bind_ok.mp run
    obtain ⟨rfl, holds⟩ := step item db first middle head
    obtain ⟨others, last, tail, done⟩ := bind_ok.mp goesOn
    cases done
    obtain ⟨rfl, all⟩ := ih tail
    exact ⟨rfl, List.forall_mem_cons.mpr ⟨holds, all⟩⟩

theorem each_writes {items : List α} {change : α → τ → τ} {property : α → Prop}
    (step : ∀ item db values after, body item db = .ok values after →
      after = { db with tables := change item db.tables } ∧ property item) {values : List β} (run : each items body db = .ok values after) :
    after = { db with tables := items.foldl (fun tables item => change item tables) db.tables } ∧
      ∀ item ∈ items, property item := by
  induction items generalizing db values with
  | nil =>
    cases run
    exact ⟨rfl, fun _ member => absurd member List.not_mem_nil⟩
  | cons item rest ih =>
    obtain ⟨first, middle, head, goesOn⟩ := bind_ok.mp run
    obtain ⟨rfl, holds⟩ := step item db first middle head
    obtain ⟨others, last, tail, done⟩ := bind_ok.mp goesOn
    cases done
    obtain ⟨rfl, all⟩ := ih tail
    exact ⟨rfl, List.forall_mem_cons.mpr ⟨holds, all⟩⟩

/-! ### Rolling back -/

theorem rollingBack_error {failing : Option ε} {body : Session ε τ α} {tables : τ} {failure : ε}
    (inside : ∀ failure after, body (.opened tables) = .error failure after → after.saved = some tables)
    (run : rollingBack (do statement failing; beginTransaction; body) (.idle tables) = .error failure after) :
    after = .idle tables := by
  unfold rollingBack at run
  split at run
  · cases run
  next error left raised =>
  cases run
  cases failing with
  | none =>
    have kept := inside _ _ raised
    simp [kept]
  | some refusal =>
    -- BEGIN itself failed: no transaction is open
    cases raised
    rfl

theorem rollingBack_ok {failing : Option ε} {body : Session ε τ α} {tables : τ} {value : α}
    (run : rollingBack (do statement failing; beginTransaction; body) (.idle tables) = .ok value after) :
    body (.opened tables) = .ok value after := by
  unfold rollingBack at run
  split at run
  · next early =>
    cases run
    cases failing with
    | none => exact early
    | some refusal => cases early
  · cases run

end Session

end HarnessMem.Library
