import Mathlib.Data.List.Nodup

/-! Rows under a unique key, in insertion order: the tables of an embedded
relational store. A value of `Table key` cannot hold two rows with one key.
-/

set_option autoImplicit false

namespace HarnessMem.Library

structure Table {ρ κ : Type} (key : ρ → κ) where
  rows : List ρ
  nodup : (rows.map key).Nodup

/-- The rows of a query without an ORDER BY: all of them, in an order the engine chooses. -/
structure Scan (ρ : Type) where
  order : List ρ → List ρ
  perm : ∀ rows, (order rows).Perm rows

def Scan.insertion {ρ : Type} : Scan ρ := ⟨id, fun _ => .refl _⟩

theorem Scan.mem_order {ρ : Type} (scan : Scan ρ) (rows : List ρ) (row : ρ) :
    row ∈ scan.order rows ↔ row ∈ rows :=
  (scan.perm rows).mem_iff

namespace Table

variable {ρ κ : Type} {key : ρ → κ}

def empty : Table key := ⟨[], List.nodup_nil⟩

theorem eq_of_rows {first second : Table key} (same : first.rows = second.rows) : first = second := by
  cases first
  cases second
  simpa using same

theorem eq_of_key (table : Table key) {first second : ρ} (left : first ∈ table.rows)
    (right : second ∈ table.rows) (same : key first = key second) : first = second :=
  List.inj_on_of_nodup_map table.nodup left right same

def filter (table : Table key) (keep : ρ → Bool) : Table key where
  rows := table.rows.filter keep
  nodup := (List.filter_sublist.map key).nodup table.nodup

def mapRows (table : Table key) (change : ρ → ρ) (same : ∀ row, key (change row) = key row) :
    Table key where
  rows := table.rows.map change
  nodup := by
    have keys : (table.rows.map change).map key = table.rows.map key := by
      rw [List.map_map]
      exact List.map_congr_left fun row _ => same row
    rw [keys]
    exact table.nodup

@[simp] theorem rows_empty : (empty : Table key).rows = [] := rfl

@[simp] theorem rows_filter (table : Table key) (keep : ρ → Bool) :
    (table.filter keep).rows = table.rows.filter keep := rfl

@[simp] theorem rows_mapRows (table : Table key) (change : ρ → ρ)
    (same : ∀ row, key (change row) = key row) :
    (table.mapRows change same).rows = table.rows.map change := rfl

variable [DecidableEq κ]

def get? (table : Table key) (k : κ) : Option ρ :=
  table.rows.find? fun row => decide (key row = k)

theorem get?_eq_some (table : Table key) (k : κ) (row : ρ) :
    table.get? k = some row ↔ row ∈ table.rows ∧ key row = k := by
  constructor
  · intro found
    exact ⟨List.mem_of_find?_eq_some found, by simpa using List.find?_some found⟩
  · rintro ⟨member, rfl⟩
    cases found : table.get? (key row) with
    | none => simpa using List.find?_eq_none.mp found row member
    | some other =>
      have same : key other = key row := by simpa using List.find?_some found
      rw [table.eq_of_key (List.mem_of_find?_eq_some found) member same]

theorem get?_eq_none (table : Table key) (k : κ) :
    table.get? k = none ↔ ∀ row ∈ table.rows, key row ≠ k := by
  simp [get?]

variable {table : Table key} {row : ρ}

theorem mem_of_get? {k : κ} (found : table.get? k = some row) :
    row ∈ table.rows :=
  ((table.get?_eq_some k row).mp found).1

theorem key_of_get? {table : Table key} {k : κ} {row : ρ} (found : table.get? k = some row) :
    key row = k :=
  ((table.get?_eq_some k row).mp found).2

theorem get?_of_mem {table : Table key} {row : ρ} (member : row ∈ table.rows) :
    table.get? (key row) = some row :=
  (table.get?_eq_some _ _).mpr ⟨member, rfl⟩

theorem get?_isSome (table : Table key) (k : κ) :
    (table.get? k).isSome ↔ k ∈ table.rows.map key := by
  simp [get?, List.find?_isSome]

def insert (table : Table key) (row : ρ) (fresh : table.get? (key row) = none) : Table key where
  rows := table.rows ++ [row]
  nodup := by
    rw [List.map_append, List.map_singleton, List.nodup_append]
    refine ⟨table.nodup, List.nodup_singleton _, ?_⟩
    intro k member other single
    obtain ⟨old, oldMember, rfl⟩ := List.mem_map.mp member
    rw [List.mem_singleton.mp single]
    exact (table.get?_eq_none _).mp fresh old oldMember

def upsert (table : Table key) (row : ρ) : Table key :=
  if fresh : table.get? (key row) = none then table.insert row fresh
  else table.mapRows (fun old => if key old = key row then row else old) fun old => by
    split
    · next same => exact same.symm
    · rfl

@[simp] theorem rows_insert (table : Table key) (row : ρ) (fresh : table.get? (key row) = none) :
    (table.insert row fresh).rows = table.rows ++ [row] := rfl

theorem rows_upsert_fresh (fresh : table.get? (key row) = none) :
    (table.upsert row).rows = table.rows ++ [row] := by
  simp [upsert, fresh]

theorem rows_upsert_known {old : ρ} (found : table.get? (key row) = some old) :
    (table.upsert row).rows = table.rows.map fun other => if key other = key row then row else other := by
  simp [upsert, found]

theorem mem_upsert (table : Table key) (row other : ρ) :
    other ∈ (table.upsert row).rows ↔ other = row ∨ (other ∈ table.rows ∧ key other ≠ key row) := by
  cases found : table.get? (key row) with
  | none =>
    have absent := (table.get?_eq_none _).mp found
    rw [rows_upsert_fresh found, List.mem_append, List.mem_singleton]
    constructor
    · rintro (member | same)
      · exact .inr ⟨member, absent other member⟩
      · exact .inl same
    · rintro (same | ⟨member, _⟩)
      · exact .inr same
      · exact .inl member
  | some old =>
    rw [rows_upsert_known found, List.mem_map]
    constructor
    · rintro ⟨source, member, rfl⟩
      by_cases same : key source = key row
      · exact .inl (if_pos same)
      · rw [if_neg same]
        exact .inr ⟨member, same⟩
    · rintro (rfl | ⟨member, differs⟩)
      · exact ⟨old, mem_of_get? found, if_pos (key_of_get? found)⟩
      · exact ⟨other, member, if_neg differs⟩

theorem get?_insert (table : Table key) (row : ρ) (fresh : table.get? (key row) = none) (k : κ) :
    (table.insert row fresh).get? k = if key row = k then some row else table.get? k := by
  split
  · next same => exact (get?_eq_some _ _ _).mpr ⟨by simp, same⟩
  · next differs => simp [get?, List.find?_append, differs]

theorem get?_upsert (table : Table key) (row : ρ) (k : κ) :
    (table.upsert row).get? k = if key row = k then some row else table.get? k := by
  split
  · next same => exact (get?_eq_some _ _ _).mpr ⟨(table.mem_upsert row row).mpr (.inl rfl), same⟩
  · next differs =>
    apply Option.ext
    intro other
    rw [get?_eq_some, get?_eq_some, mem_upsert]
    constructor
    · rintro ⟨rfl | ⟨member, _⟩, same⟩
      · exact absurd same differs
      · exact ⟨member, same⟩
    · rintro ⟨member, same⟩
      exact ⟨.inr ⟨member, fun clash => differs (clash ▸ same)⟩, same⟩

theorem get?_mapRows (table : Table key) (change : ρ → ρ)
    (same : ∀ row, key (change row) = key row) (k : κ) :
    (table.mapRows change same).get? k = (table.get? k).map change := by
  simp only [get?, rows_mapRows, List.find?_map, Function.comp_def, same]

theorem get?_filter (table : Table key) (keep : ρ → Bool) (k : κ) :
    (table.filter keep).get? k = (table.get? k).filter keep := by
  apply Option.ext
  intro row
  rw [get?_eq_some, Option.filter_eq_some_iff, get?_eq_some, rows_filter, List.mem_filter]
  exact and_right_comm

theorem map_upsert_known {β : Type} {old : ρ} (column : ρ → β)
    (found : table.get? (key row) = some old) (same : column row = column old) :
    (table.upsert row).rows.map column = table.rows.map column := by
  rw [rows_upsert_known found, List.map_map]
  apply List.map_congr_left
  intro other member
  rw [Function.comp_apply]
  split
  · next clash =>
    have known : some other = some old := by rw [← found, ← clash, get?_of_mem member]
    rw [Option.some.inj known, same]
  · rfl

theorem rows_foldl_upsert (table : Table key) (rows : List ρ) (distinct : (rows.map key).Nodup)
    (fresh : ∀ row ∈ rows, table.get? (key row) = none) :
    (rows.foldl (fun current row => current.upsert row) table).rows = table.rows ++ rows := by
  induction rows generalizing table with
  | nil => simp
  | cons row rest ih =>
    rw [List.map_cons, List.nodup_cons] at distinct
    have first := fresh row List.mem_cons_self
    rw [List.foldl_cons, ih (table.upsert row) distinct.2, rows_upsert_fresh first, List.append_assoc]
    · rfl
    · intro other member
      have differs : key row ≠ key other := fun same => distinct.1 (same ▸ List.mem_map_of_mem member)
      rw [get?_upsert, if_neg differs]
      exact fresh other (List.mem_cons_of_mem _ member)

theorem filter_rows_upsert (table : Table key) (row : ρ) (select : κ → Bool)
    (outside : select (key row) = false) :
    (table.upsert row).rows.filter (fun other => select (key other)) =
      table.rows.filter fun other => select (key other) := by
  cases found : table.get? (key row) with
  | none => simp [rows_upsert_fresh found, outside]
  | some old =>
    rw [rows_upsert_known found, List.filter_map]
    have pointwise : ∀ other : ρ, select (key (if key other = key row then row else other)) =
        select (key other) := by
      intro other
      split
      · next same => rw [same]
      · rfl
    simp only [Function.comp_def, pointwise]
    conv_rhs => rw [← List.map_id (table.rows.filter fun other => select (key other))]
    apply List.map_congr_left
    intro other member
    have selected : select (key other) = true := (List.mem_filter.mp member).2
    rw [if_neg]
    · rfl
    · intro same
      rw [same, outside] at selected
      exact Bool.noConfusion selected

end Table

end HarnessMem.Library

/-! Rows put into a table and keys removed from it, one after another. -/

namespace HarnessMem.Library

variable {ρ κ : Type}

inductive Write {ρ κ : Type} (key : ρ → κ) where
  | put (row : ρ)
  | remove (k : κ)

namespace Write

variable {key : ρ → κ}

def place : Write key → κ
  | put row => key row
  | remove k => k

def row? : Write key → Option ρ
  | put row => some row
  | remove _ => none

end Write

namespace Table

variable {key : ρ → κ} [DecidableEq κ]

def perform (table : Table key) : Write key → Table key
  | .put row => table.upsert row
  | .remove k => table.filter fun row => key row ≠ k

def performAll (table : Table key) (writes : List (Write key)) : Table key := writes.foldl perform table

theorem get?_perform (table : Table key) (write : Write key) (k : κ) :
    (table.perform write).get? k = if write.place = k then write.row? else table.get? k := by
  cases write with
  | put row => exact get?_upsert table row k
  | remove removed =>
    rw [perform, get?_filter, Write.place, Write.row?]
    split
    · next same =>
      apply Option.filter_eq_none_iff.mpr
      intro row found
      simp [key_of_get? found, same]
    · next differs =>
      cases found : table.get? k with
      | none => rfl
      | some row => simp [key_of_get? found, Ne.symm differs]

variable {table : Table key} {writes : List (Write key)}

theorem get?_performAll_of_notMem {k : κ}
    (untouched : k ∉ writes.map Write.place) : (table.performAll writes).get? k = table.get? k := by
  induction writes generalizing table with
  | nil => rfl
  | cons write rest ih =>
    rw [List.map_cons, List.mem_cons, not_or] at untouched
    have first := get?_perform table write k
    rw [if_neg (Ne.symm untouched.1)] at first
    exact (ih untouched.2).trans first

theorem get?_performAll_of_mem {write : Write key}
    (distinct : (writes.map Write.place).Nodup) (member : write ∈ writes) :
    (table.performAll writes).get? write.place = write.row? := by
  induction writes generalizing table with
  | nil => cases member
  | cons head rest ih =>
    rw [List.map_cons, List.nodup_cons] at distinct
    rcases List.mem_cons.mp member with rfl | later
    · have kept : ((table.perform write).performAll rest).get? write.place = (table.perform write).get? write.place :=
        get?_performAll_of_notMem distinct.1
      have first := get?_perform table write write.place
      rw [if_pos rfl] at first
      exact kept.trans first
    · exact ih distinct.2 later

theorem mem_performAll {row : ρ}
    (member : row ∈ (table.performAll writes).rows) : row ∈ table.rows ∨ .put row ∈ writes := by
  induction writes generalizing table with
  | nil => exact .inl member
  | cons write rest ih =>
    rcases @ih (table.perform write) member with early | late
    · cases write with
      | put other =>
        rcases (mem_upsert table other row).mp early with rfl | ⟨old, -⟩
        · exact .inr List.mem_cons_self
        · exact .inl old
      | remove k =>
        rw [perform, rows_filter, List.mem_filter] at early
        exact .inl early.1
    · exact .inr (List.mem_cons_of_mem _ late)

theorem mem_removeAll (removes : ∀ write ∈ writes, ∃ k, write = .remove k)
    {row : ρ} : row ∈ (table.performAll writes).rows ↔ row ∈ table.rows ∧ .remove (key row) ∉ writes := by
  induction writes generalizing table with
  | nil => simp [performAll]
  | cons write rest ih =>
    obtain ⟨k, rfl⟩ := removes write List.mem_cons_self
    have later := @ih (table.perform (.remove k)) fun other inside => removes other (List.mem_cons_of_mem _ inside)
    rw [performAll, List.foldl_cons, ← performAll, later, perform, rows_filter, List.mem_filter, List.mem_cons, not_or,
      Write.remove.injEq, decide_eq_true_eq, and_assoc]

end Table

end HarnessMem.Library
