import HarnessMem.Library.KeyMap
import HarnessMem.Library.Overlays
import HarnessMem.Library.Text
import HarnessMem.Library.Transaction
import Mathlib.Data.Multiset.MapFold
import Mathlib.Data.String.Basic

/-! A SQLite file as its schema objects and rows, and the copy of one file over
another inside a transaction. Only tables and indexes are here: nothing creates
a trigger or a view in the canonical file.
-/

set_option autoImplicit false

namespace HarnessMem.Migration

open HarnessMem.Library

inductive Cell where
  | null
  | integer (value : Int)
  | real (bits : UInt64)
  | text (value : String)
  | blob (value : List UInt8)
  deriving DecidableEq, Repr

abbrev Row := List Cell

/-- A column of a CREATE TABLE statement: its name and the rest of its definition. -/
structure Column where
  name : String
  type : String
  deriving DecidableEq, Repr

structure TableObject where
  columns : List Column
  rows : List Row
  deriving DecidableEq

structure Index where
  table : String
  columns : List String
  deriving DecidableEq, Repr

/-- `sqlite_master`, with the rows of its tables. -/
structure Objects where
  tables : KeyMap String TableObject
  indexes : KeyMap String Index
  deriving DecidableEq

namespace Objects

def empty : Objects := ⟨.empty, .empty⟩

def setTable (objects : Objects) (name : String) (table : TableObject) : Objects :=
  { objects with tables := objects.tables.set name table }

end Objects

/-- `name NOT LIKE 'sqlite_%'`. -/
def visible (name : String) : Bool := !like "sqlite_%".toList name.toList

def contents (objects : Objects) : String → Option (Multiset Row) :=
  fun name => (objects.tables.get? name).map fun table => (table.rows : Multiset Row)

/-! ### Fingerprints -/

/-- What the digest is fed with: the statements, and the sorted rows of each table. -/
structure Snapshot where
  tables : KeyMap String (List Column × Multiset Row)
  indexes : KeyMap String Index

def snapshot (objects : Objects) : Snapshot where
  tables := (objects.tables.restrict visible).mapValues fun table => (table.columns, (table.rows : Multiset Row))
  indexes := objects.indexes.restrict visible

theorem snapshot_congr {first second : Objects}
    (tables : ∀ name, visible name → (first.tables.get? name).map (fun table => (table.columns, (table.rows : Multiset Row))) =
      (second.tables.get? name).map fun table => (table.columns, (table.rows : Multiset Row)))
    (indexes : ∀ name, visible name → first.indexes.get? name = second.indexes.get? name) :
    snapshot first = snapshot second := by
  unfold snapshot
  congr 1
  · apply KeyMap.ext_get?
    intro name
    rw [KeyMap.get?_mapValues, KeyMap.get?_mapValues, KeyMap.get?_restrict, KeyMap.get?_restrict]
    split
    · next shown => exact tables name shown
    · rfl
  · apply KeyMap.ext_get?
    intro name
    rw [KeyMap.get?_restrict, KeyMap.get?_restrict]
    split
    · next shown => exact indexes name shown
    · rfl

/-- `_sqlite_connection_logical_fingerprint`. -/
def fingerprint (digest : Snapshot → String) (objects : Objects) : String := digest (snapshot objects)

/-! ### Activation -/

/-- `StorageV2MigrationError`, or anything else that is raised. -/
inductive Failure where
  | migration (message : String)
  | other (kind : String)
  deriving DecidableEq, Repr

abbrev Connection := Session Failure Objects

/-- `CREATE` for each object that the live file does not have. -/
def createMissing (staged main : Objects) : Objects where
  tables := main.tables.adopt ((staged.tables.restrict visible).mapValues fun table => { table with rows := [] }).entries
  indexes := main.indexes.adopt (staged.indexes.restrict visible).entries

/-- `DELETE FROM main.t` and `INSERT INTO main.t SELECT * FROM staged.t`. -/
def replaceRows (entry : String × TableObject) : Connection (List Unit) := do
  match ← Session.query fun objects : Objects => objects.tables.get? entry.1 with
  | none => throw (.other "OperationalError")
  | some own =>
    -- `SELECT *` has to supply as many columns as the table has
    if own.columns.length = entry.2.columns.length then
      Session.write fun objects => objects.setTable entry.1 { own with rows := entry.2.rows }
      pure []
    else throw (.other "OperationalError")

def changedMessage : String :=
  "Canonical SQLite changed while migration staging was built; activation aborted to preserve concurrent writes. Retry the migration."

def copyStaged (digest : Snapshot → String) (failing : Option Failure) (staged : Objects) (expected : Option String) : Connection Unit := do
  let live ← Session.query (fingerprint digest)
  if some live = expected then
    Session.write (createMissing staged)
    discard (Session.each (staged.tables.restrict visible).entries replaceRows)
    Session.statement failing
    Session.commit
  else throw (.migration changedMessage)

/-- `_activate_staging_transactionally`. A failure is one of any statement: each is rolled back alike. -/
def activateStaging (digest : Snapshot → String) (failing : Option Failure) (staged : Objects) (expected : Option String) :
    Connection Unit :=
  Session.rollingBack do
    Session.statement none
    Session.beginTransaction
    copyStaged digest failing staged expected

/-! ### What a copy leaves -/

theorem replaceRows_ok {entry : String × TableObject} {db : Database Objects} {own : TableObject}
    (found : db.tables.tables.get? entry.1 = some own) (fits : own.columns.length = entry.2.columns.length) :
    replaceRows entry db = .ok [] { db with tables := db.tables.setTable entry.1 { own with rows := entry.2.rows } } := by
  unfold replaceRows
  apply Session.bind_ok.mpr
  refine ⟨some own, db, ?_, ?_⟩
  · rw [← found]
    rfl
  · simp only [if_pos fits]
    rfl

theorem each_replaceRows {entries : List (String × TableObject)} {db : Database Objects}
    (distinct : (entries.map (·.1)).Nodup)
    (fits : ∀ entry ∈ entries, ∃ own, db.tables.tables.get? entry.1 = some own ∧ own.columns.length = entry.2.columns.length) :
    ∃ values objects, Session.each entries replaceRows db = .ok values { db with tables := objects } ∧
      objects.indexes = db.tables.indexes ∧
      (∀ entry ∈ entries, ∀ own, db.tables.tables.get? entry.1 = some own →
        objects.tables.get? entry.1 = some { own with rows := entry.2.rows }) ∧
      ∀ name, name ∉ entries.map (·.1) → objects.tables.get? name = db.tables.tables.get? name := by
  induction entries generalizing db with
  | nil => exact ⟨[], db.tables, rfl, rfl, fun _ member => absurd member List.not_mem_nil, fun _ _ => rfl⟩
  | cons entry rest ih =>
    rw [List.map_cons, List.nodup_cons] at distinct
    obtain ⟨own, found, same⟩ := fits entry (List.mem_cons_self ..)
    let next : Database Objects := { db with tables := db.tables.setTable entry.1 { own with rows := entry.2.rows } }
    have head : replaceRows entry db = .ok [] next := replaceRows_ok found same
    have untouched : ∀ name, name ≠ entry.1 → next.tables.tables.get? name = db.tables.tables.get? name :=
      fun name differs => KeyMap.get?_set_of_ne _ _ differs
    have apart : ∀ later ∈ rest, later.1 ≠ entry.1 := fun later member equal =>
      distinct.1 (equal ▸ List.mem_map_of_mem member)
    obtain ⟨values, objects, run, indexes, written, others⟩ := @ih next distinct.2 fun later member => by
      rw [untouched later.1 (apart later member)]
      exact fits later (List.mem_cons_of_mem _ member)
    refine ⟨[] ++ values, objects, ?_, indexes, ?_, ?_⟩
    · exact Session.bind_ok.mpr ⟨[], next, head, Session.bind_ok.mpr ⟨values, _, run, rfl⟩⟩
    · intro later member own' found'
      cases member with
      | head =>
        have unique : own' = own := Option.some.inj (found'.symm.trans found)
        rw [others entry.1 distinct.1, unique]
        exact KeyMap.get?_set_self _ _ _
      | tail _ there =>
        apply written later there
        rw [untouched later.1 (apart later there), found']
    · intro name other
      rw [List.map_cons, List.mem_cons, not_or] at other
      rw [others name other.2, untouched name other.1]

/-- The live file after the copy of another. -/
structure Activated (staged main after : Objects) : Prop where
  tables : ∀ name table, visible name → staged.tables.get? name = some table →
    after.tables.get? name = some { (main.tables.get? name).getD table with rows := table.rows }
  others : ∀ name, (visible name → staged.tables.get? name = none) → after.tables.get? name = main.tables.get? name
  indexes : ∀ name, after.indexes.get? name =
    (main.indexes.get? name).or (if visible name then staged.indexes.get? name else none)

def Alike (staged main : Objects) : Prop :=
  ∀ name table own, staged.tables.get? name = some table → main.tables.get? name = some own → own.columns = table.columns

theorem createMissing_get? (staged main : Objects) (name : String) :
    (createMissing staged main).tables.get? name = (main.tables.get? name).or
      (if visible name then (staged.tables.get? name).map fun table => { table with rows := [] } else none) := by
  unfold createMissing
  rw [KeyMap.get?_adopt, KeyMap.get?_mapValues, KeyMap.get?_restrict]
  split <;> rfl

theorem copyRows {staged main : Objects} {saved : Option Objects} (alike : Alike staged main) :
    ∃ values after, Activated staged main after ∧
      Session.each (staged.tables.restrict visible).entries replaceRows ⟨createMissing staged main, saved⟩ =
        .ok values ⟨after, saved⟩ := by
  have known : ∀ {name : String} {table : TableObject}, (name, table) ∈ (staged.tables.restrict visible).entries →
      visible name ∧ staged.tables.get? name = some table := by
    intro name table member
    have found := KeyMap.get?_eq_some.mpr member
    rw [KeyMap.get?_restrict] at found
    split at found
    · next shown => exact ⟨shown, found⟩
    · cases found
  have ready : ∀ {name : String} {table : TableObject}, visible name → staged.tables.get? name = some table →
      (createMissing staged main).tables.get? name = some ((main.tables.get? name).getD { table with rows := [] }) := by
    intro name table shown found
    rw [createMissing_get?, if_pos shown, found]
    cases main.tables.get? name <;> rfl
  obtain ⟨values, after, run, indexes, written, others⟩ := @each_replaceRows _ ⟨createMissing staged main, saved⟩
    (staged.tables.restrict visible).nodup_keys (by
      rintro ⟨name, table⟩ member
      obtain ⟨shown, found⟩ := known member
      refine ⟨_, ready shown found, ?_⟩
      cases own : main.tables.get? name with
      | none => rfl
      | some mine => exact congrArg List.length (alike name table mine found own))
  refine ⟨values, after, ?_, run⟩
  constructor
  case tables =>
    intro name table shown found
    have member : (name, table) ∈ (staged.tables.restrict visible).entries := by
      rw [← KeyMap.get?_eq_some, KeyMap.get?_restrict, if_pos shown, found]
    rw [written (name, table) member _ (ready shown found)]
    cases main.tables.get? name <;> rfl
  case others =>
    intro name missing
    rw [others name, createMissing_get?]
    · split
      · next shown =>
        rw [missing shown]
        exact Option.or_none
      · exact Option.or_none
    · intro member
      obtain ⟨⟨_, table⟩, there, rfl⟩ := List.mem_map.mp member
      obtain ⟨shown, found⟩ := known there
      rw [missing shown] at found
      cases found
  case indexes =>
    intro name
    rw [indexes]
    unfold createMissing
    rw [KeyMap.get?_adopt, KeyMap.get?_restrict]

theorem activateStaging_ok (digest : Snapshot → String) {staged main : Objects} (alike : Alike staged main) :
    ∃ after, Activated staged main after ∧
      activateStaging digest none staged (some (fingerprint digest main)) (.idle main) = .ok () (.idle after) := by
  obtain ⟨values, after, activated, run⟩ := @copyRows staged main (some main) alike
  refine ⟨after, activated, ?_⟩
  have body : (do Session.statement none; Session.beginTransaction; copyStaged digest none staged (some (fingerprint digest main)) :
      Connection Unit) (.idle main) = .ok () (.idle after) := by
    refine Session.bind_ok.mpr ⟨(), .idle main, rfl, Session.bind_ok.mpr ⟨(), .opened main, rfl, ?_⟩⟩
    unfold copyStaged
    refine Session.bind_ok.mpr ⟨fingerprint digest main, .opened main, rfl, ?_⟩
    rw [if_pos rfl]
    refine Session.bind_ok.mpr ⟨(), ⟨createMissing staged main, some main⟩, rfl, ?_⟩
    refine Session.bind_ok.mpr ⟨(), ⟨after, some main⟩, ?_, rfl⟩
    exact Session.bind_ok.mpr ⟨values, _, run, rfl⟩
  unfold activateStaging Session.rollingBack
  rw [body]

theorem activateStaging_failed (digest : Snapshot → String) (failure : Failure) {staged main : Objects} (alike : Alike staged main) :
    activateStaging digest (some failure) staged (some (fingerprint digest main)) (.idle main) = .error failure (.idle main) := by
  obtain ⟨values, after, _, run⟩ := @copyRows staged main (some main) alike
  have body : (do Session.statement none; Session.beginTransaction; copyStaged digest (some failure) staged (some (fingerprint digest main)) :
      Connection Unit) (.idle main) = .error failure ⟨after, some main⟩ := by
    refine Session.bind_error.mpr (.inr ⟨(), .idle main, rfl, Session.bind_error.mpr (.inr ⟨(), .opened main, rfl, ?_⟩)⟩)
    unfold copyStaged
    refine Session.bind_error.mpr (.inr ⟨fingerprint digest main, .opened main, rfl, ?_⟩)
    rw [if_pos rfl]
    refine Session.bind_error.mpr (.inr ⟨(), ⟨createMissing staged main, some main⟩, rfl, ?_⟩)
    refine Session.bind_error.mpr (.inr ⟨(), ⟨after, some main⟩, ?_, ?_⟩)
    · exact Session.bind_ok.mpr ⟨values, _, run, rfl⟩
    · exact Session.bind_error.mpr (.inl rfl)
  unfold activateStaging Session.rollingBack
  rw [body]
  rfl

theorem Activated.contents {staged main after : Objects} (activated : Activated staged main after)
    (hidden : ∀ name, visible name = false → staged.tables.get? name = main.tables.get? name) :
    contents after = layered (contents staged) (contents main) := by
  funext name
  unfold layered Migration.contents
  cases there : staged.tables.get? name with
  | none =>
    rw [activated.others name fun _ => there]
    exact Option.none_or.symm
  | some table =>
    cases shown : visible name with
    | true =>
      rw [activated.tables name table shown there]
      rfl
    | false =>
      rw [activated.others name fun wrong => absurd (shown.symm.trans wrong) Bool.false_ne_true,
        ← hidden name shown, there]
      rfl

end HarnessMem.Migration
