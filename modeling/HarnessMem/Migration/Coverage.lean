import HarnessMem.Migration.Restored
import HarnessMem.Migration.Scan
import Mathlib.Data.List.Pairwise

/-! What a canonical build does with each legacy identity. A row counts as present when its table has its
entity id, whatever the collection and the project of the row that is there.
-/

set_option autoImplicit false

namespace HarnessMem.Migration

open HarnessMem.Library

def rowsOf (objects : Objects) (name : String) : List Row := ((objects.tables.get? name).map (·.rows)).getD []

def canonicalCell (row : Row) (name : String) : Cell := TableObject.cell ⟨canonicalColumns, []⟩ row name

namespace LegacyPayloadRow

def table (legacy : LegacyPayloadRow) : String := canonicalTableForCollection legacy.collection

def Named (legacy : LegacyPayloadRow) (row : Row) : Prop :=
  canonicalCell row "collection" = .text legacy.collection ∧ canonicalCell row "project_id" = optionalText legacy.projectName ∧
    canonicalCell row "entity_id" = .text legacy.entityId

def Present (legacy : LegacyPayloadRow) (objects : Objects) : Prop := ∃ row ∈ rowsOf objects legacy.table, legacy.Named row

def Stored (legacy : LegacyPayloadRow) (objects : Objects) : Prop :=
  ∃ row ∈ rowsOf objects legacy.table, legacy.Named row ∧ canonicalCell row "payload_json" = .text legacy.payloadJson

def Taken (legacy : LegacyPayloadRow) (objects : Objects) : Prop :=
  ∃ row ∈ rowsOf objects legacy.table, canonicalCell row "entity_id" = .text legacy.entityId

def Meets (first second : LegacyPayloadRow) : Prop := first.table = second.table ∧ first.entityId = second.entityId

/-- Nothing in its table has its entity id, and no other legacy row goes there under it. -/
def Free (legacy : LegacyPayloadRow) (rows : List LegacyPayloadRow) (objects : Objects) : Prop :=
  ¬legacy.Taken objects ∧ ∀ other ∈ rows, legacy.Meets other → other = legacy

end LegacyPayloadRow

/-- Every legacy identity is accounted for: it has a row, no row of before has changed, and an identity that had
no row has its payload now.
-/
structure Accounted (rows : List LegacyPayloadRow) (before after : Objects) : Prop where
  present : ∀ legacy ∈ rows, legacy.Present after
  unchanged : ∀ name ∈ canonicalEntityTables, rowsOf before name <+: rowsOf after name
  imported : ∀ legacy ∈ rows, ¬legacy.Present before → legacy.Stored after

/-! ### The schema -/

def Awaits (name : String) (rows : List Row) (objects : Objects) : Prop :=
  objects.tables.get? name = some ⟨canonicalColumns, rows⟩ ∨ objects.tables.get? name = none ∧ rows = []

section schema

variable {name : String} {rows : List Row} {objects : Objects}

theorem Awaits.of_same {after : Objects} (awaits : Awaits name rows objects)
    (same : after.tables.get? name = objects.tables.get? name) : Awaits name rows after := by
  unfold Awaits
  rwa [same]

theorem Awaits.createTable {other : String} {columns : List Column} (awaits : Awaits name rows objects)
    (canonical : other = name → columns = canonicalColumns) : Awaits name rows (objects.createTable other columns) := by
  by_cases same : other = name
  · subst same
    rw [canonical rfl]
    rcases awaits with there | ⟨absent, rfl⟩
    · exact .inl (createTable_kept there _ _)
    · exact .inl (createTable_new absent _)
  · exact awaits.of_same ((Grows.createTable (List.mem_singleton_self other) objects columns).others name
      fun member => same (List.mem_singleton.mp member).symm)

theorem initializeCanonicalSchema_kept {ready : Objects} (awaits : Awaits name rows objects) (entity : name ∈ canonicalEntityTables)
    (done : initializeCanonicalSchema objects = .ok ready) : ready.tables.get? name = some ⟨canonicalColumns, rows⟩ := by
  have apart : ∀ table ∈ canonicalEntityTables, metaTable ≠ table ∧ recordsTable ≠ table := by decide
  have present := (initializeCanonicalSchema_spec done).2 name (List.mem_cons_of_mem _ (List.mem_cons_of_mem _ entity))
  unfold initializeCanonicalSchema at done
  obtain ⟨versioned, first, done⟩ := bind_eq_ok.mp done
  obtain ⟨contracted, second, done⟩ := bind_eq_ok.mp done
  obtain ⟨noMeta, noRecords⟩ := apart name entity
  have elsewhere : name ∉ [metaTable] := fun member => noMeta (List.mem_singleton.mp member).symm
  have made := @Awaits.createTable name rows objects metaTable [⟨"key", "TEXT PRIMARY KEY"⟩, ⟨"value", "TEXT NOT NULL"⟩] awaits
    fun same => absurd same noMeta
  have versions := made.of_same ((Grows.upsert (List.mem_singleton_self metaTable) first).others name elsewhere)
  have contracts := versions.of_same ((Grows.upsert (List.mem_singleton_self metaTable) second).others name elsewhere)
  have tables : ∀ (names : List String) (objects : Objects), Awaits name rows objects →
      Awaits name rows (names.foldl createEntityTable objects) := by
    intro names
    induction names with
    | nil => exact fun _ awaits => awaits
    | cons table rest ih => exact fun objects awaits => ih _ (awaits.createTable fun _ => rfl)
  have same := Except.ok.inj done
  subst same
  have last := fun columns => @Awaits.createTable name rows _ recordsTable columns (tables canonicalEntityTables contracted contracts)
    fun same => absurd same noRecords
  rcases last _ with there | ⟨absent, _⟩
  · exact there
  · rw [absent] at present
    cases present

end schema

/-! ### Imported rows -/

abbrev Import := LegacyPayloadRow × List (String × Cell)

def importCells (migratedAt : String) (item : Import) : Row :=
  TableObject.row ⟨canonicalColumns, []⟩ (canonicalValues item.1 item.2 migratedAt)

/-- The names of `corpus_id` to `decay_score`. -/
def derivedColumns : List String :=
  ["corpus_id", "type", "truth_status", "confidence", "created_at", "valid_from", "valid_to", "tier", "last_accessed_at", "access_count",
    "decay_score"]

section cells

variable (legacy : LegacyPayloadRow) (migratedAt : String) {derived : List (String × Cell)}

theorem cell_importCells {name : String} (column : name ∈ canonicalColumns.map (·.name)) (item : Import) :
    canonicalCell (importCells migratedAt item) name = ((canonicalValues item.1 item.2 migratedAt).lookup name).getD .null := by
  simp only [canonicalColumns, List.map_cons, List.map_nil, List.mem_cons, List.not_mem_nil, or_false] at column
  unfold canonicalCell importCells
  generalize canonicalValues item.1 item.2 migratedAt = values
  rcases column with rfl | rfl | rfl | rfl | rfl | rfl | rfl | rfl | rfl | rfl | rfl | rfl | rfl | rfl | rfl | rfl | rfl | rfl | rfl | rfl <;>
    simp [TableObject.cell, TableObject.row, canonicalColumns, List.lookup_cons]

theorem importCells_named : legacy.Named (importCells migratedAt (legacy, derived)) := by
  refine ⟨?_, ?_, ?_⟩
  all_goals
    rw [cell_importCells migratedAt (by decide)]
    simp [canonicalValues, List.lookup_cons]

theorem importCells_key : canonicalCell (importCells migratedAt (legacy, derived)) "row_key" = .text legacy.rowKey := by
  rw [cell_importCells migratedAt (by decide)]
  simp [canonicalValues]

theorem importCells_payload (columns : derived.map (·.1) ⊆ derivedColumns) :
    canonicalCell (importCells migratedAt (legacy, derived)) "payload_json" = .text legacy.payloadJson := by
  have other : derived.lookup "payload_json" = none := by
    rw [List.lookup_eq_none_iff]
    intro column member
    have known := columns (List.mem_map_of_mem member)
    rw [bne_iff_ne]
    intro same
    rw [← same] at known
    revert known
    decide
  rw [cell_importCells migratedAt (by decide)]
  simp [canonicalValues, List.lookup_cons, List.lookup_append, other]

end cells

/-! ### The loop -/

/-- After some legacy rows: the tables hold their rows of before and the imports, one for each entity id of a table
that nothing had.
-/
structure Course (before : Objects) (migratedAt : String) (done : List LegacyPayloadRow) (imports : List Import) (objects : Objects) :
    Prop where
  tables : ∀ name ∈ canonicalEntityTables, objects.tables.get? name =
    some ⟨canonicalColumns, rowsOf before name ++ (imports.filter (·.1.table = name)).map (importCells migratedAt)⟩
  origin : ∀ item ∈ imports, item.1 ∈ done ∧ item.2.map (·.1) ⊆ derivedColumns
  apart : imports.Pairwise fun first second => ¬first.1.Meets second.1
  free : ∀ item ∈ imports, ¬item.1.Taken before
  covered : ∀ legacy ∈ done, legacy.Taken before ∨ ∃ item ∈ imports, legacy.Meets item.1

section loop

variable {outside : Outside} {before : Objects} {stamp : Stamp} {done : List LegacyPayloadRow} {imports : List Import}

theorem mem_filter_table {name : String} {item : Import} :
    item ∈ imports.filter (·.1.table = name) ↔ item ∈ imports ∧ item.1.table = name := by
  rw [List.mem_filter, decide_eq_true_eq]

theorem LegacyPayloadRow.table_mem (legacy : LegacyPayloadRow) : legacy.table ∈ canonicalEntityTables :=
  canonicalTableForCollection_mem legacy.collection

theorem Course.rows {objects : Objects} (course : Course before stamp.migratedAt done imports objects) (legacy : LegacyPayloadRow) :
    rowsOf objects legacy.table =
      rowsOf before legacy.table ++ (imports.filter (·.1.table = legacy.table)).map (importCells stamp.migratedAt) := by
  conv_lhs => unfold rowsOf
  rw [course.tables _ legacy.table_mem]
  rfl

theorem Course.taken_iff {objects : Objects} (course : Course before stamp.migratedAt done imports objects) (legacy : LegacyPayloadRow) :
    legacy.Taken objects ↔ legacy.Taken before ∨ ∃ item ∈ imports, legacy.Meets item.1 := by
  unfold LegacyPayloadRow.Taken
  rw [course.rows]
  simp only [List.mem_append, or_and_right, exists_or, List.mem_map, exists_exists_and_eq_and]
  refine or_congr Iff.rfl (exists_congr fun item => ?_)
  rw [mem_filter_table, and_assoc]
  refine and_congr_right fun _ => and_congr eq_comm ?_
  rw [(importCells_named item.1 stamp.migratedAt).2.2, Cell.text.injEq, eq_comm]

/-- A row that goes in goes in at the end, where keys tell entity ids apart. -/
theorem Course.importRow {so next : Imported} {legacy : LegacyPayloadRow}
    (course : Course before stamp.migratedAt done imports so.objects) (ran : importRow outside stamp so legacy = .ok next)
    (derives : ∀ columns, outside.derived legacy = .ok columns → columns.map (·.1) ⊆ derivedColumns)
    (keyed : ∀ row ∈ rowsOf before legacy.table, canonicalCell row "row_key" = .text legacy.rowKey →
      canonicalCell row "entity_id" = .text legacy.entityId)
    (fresh : legacy.rowKey ∉ done.map (·.rowKey)) :
    ∃ imports, Course before stamp.migratedAt (done ++ [legacy]) imports next.objects := by
  have taken := course.taken_iff legacy
  have rows := course.rows legacy
  have found := course.tables _ legacy.table_mem
  rw [← rows] at found
  unfold Migration.importRow at ran
  obtain ⟨derived, made, ran⟩ := bind_eq_ok.mp ran
  dsimp only at ran
  rw [show canonicalTableForCollection legacy.collection = legacy.table from rfl, found] at ran
  dsimp only at ran
  split at ran
  · next known =>
    cases ran
    obtain ⟨row, there, named⟩ := List.any_eq_true.mp known
    refine ⟨imports, course.tables, fun item member => ?_, course.apart, course.free, fun other member => ?_⟩
    · exact ⟨List.mem_append_left _ (course.origin item member).1, (course.origin item member).2⟩
    · rcases List.mem_append.mp member with earlier | last
      · exact course.covered other earlier
      · rw [List.mem_singleton.mp last, ← taken]
        exact ⟨row, there, of_decide_eq_true named⟩
  · next unknown =>
    have untaken : ¬legacy.Taken so.objects := by
      rintro ⟨row, there, named⟩
      exact unknown (List.any_eq_true.mpr ⟨row, there, decide_eq_true named⟩)
    have lone : ∀ row ∈ rowsOf so.objects legacy.table, canonicalCell row "row_key" ≠ .text legacy.rowKey := by
      intro row member same
      rw [rows] at member
      rcases List.mem_append.mp member with there | there
      · exact untaken (taken.mpr (.inl ⟨row, there, keyed row there same⟩))
      · obtain ⟨item, inside, rfl⟩ := List.mem_map.mp there
        rw [importCells_key, Cell.text.injEq] at same
        exact fresh (List.mem_map.mpr ⟨item.1, (course.origin item (mem_filter_table.mp inside).1).1, same⟩)
    obtain ⟨objects, written, ran⟩ := bind_eq_ok.mp ran
    cases ran
    rw [taken, not_or] at untaken
    unfold Objects.upsert at written
    rw [found] at written
    dsimp only at written
    split at written
    · split at written
      · next clash =>
        obtain ⟨row, there, same⟩ := List.any_eq_true.mp clash
        exact absurd (of_decide_eq_true same) (lone row there)
      · cases written
        refine ⟨imports ++ [(legacy, derived)], fun name entity => ?_, fun item member => ?_, ?_, fun item member => ?_, fun other member => ?_⟩
        · rw [List.filter_append, List.filter_singleton]
          by_cases same : legacy.table = name
          · subst same
            rw [decide_eq_true rfl, cond_true, List.map_append, ← List.append_assoc, ← rows]
            exact KeyMap.get?_set_self _ _ _
          · rw [decide_eq_false same, cond_false, List.append_nil, ← course.tables name entity]
            exact KeyMap.get?_set_of_ne _ _ (Ne.symm same)
        · rcases List.mem_append.mp member with earlier | last
          · exact ⟨List.mem_append_left _ (course.origin item earlier).1, (course.origin item earlier).2⟩
          · rw [List.mem_singleton.mp last]
            exact ⟨List.mem_append_right _ (List.mem_singleton_self _), derives derived made⟩
        · refine List.pairwise_append.mpr ⟨course.apart, List.pairwise_singleton _ _, fun item inside last member meets => ?_⟩
          rw [List.mem_singleton.mp member] at meets
          exact untaken.2 ⟨item, inside, meets.1.symm, meets.2.symm⟩
        · rcases List.mem_append.mp member with earlier | last
          · exact course.free item earlier
          · rw [List.mem_singleton.mp last]
            exact untaken.1
        · rcases List.mem_append.mp member with earlier | last
          · rcases course.covered other earlier with here | ⟨item, inside, meets⟩
            · exact .inl here
            · exact .inr ⟨item, List.mem_append_left _ inside, meets⟩
          · rw [List.mem_singleton.mp last]
            exact .inr ⟨_, List.mem_append_right _ (List.mem_singleton_self _), rfl, rfl⟩
    · cases written

end loop

/-- Row keys tell the rows apart: of a legacy store, and of a legacy row and what its table has. -/
structure KeysApart (rows : List LegacyPayloadRow) (before : Objects) : Prop where
  legacy : (rows.map (·.rowKey)).Nodup
  stored : ∀ legacy ∈ rows, ∀ row ∈ rowsOf before legacy.table, canonicalCell row "row_key" = .text legacy.rowKey →
    canonicalCell row "entity_id" = .text legacy.entityId

/-- They do where stored keys are digests of identities too, and no collection or project holds the separator. -/
theorem Keyed.keysApart {sha256 : String → String} {rows : List LegacyPayloadRow} {before : Objects} (keyed : Keyed sha256 rows)
    (injective : Function.Injective sha256) (plain : Identity → Prop)
    (apart : ∀ identity, plain identity → '\x00' ∉ identity.collection.toList ∧ '\x00' ∉ identity.project.toList)
    (own : ∀ row ∈ rows, plain row.entry.1) (distinct : (rows.map fun row => row.entry.1).Nodup)
    (stored : ∀ legacy ∈ rows, ∀ row ∈ rowsOf before legacy.table, ∃ identity, plain identity ∧
      canonicalCell row "row_key" = .text (sha256 identity.keyText) ∧ canonicalCell row "entity_id" = .text identity.entityId) :
    KeysApart rows before where
  legacy := keyed.keys_nodup injective (fun row member => (apart _ (own row member)).1) (fun row member => (apart _ (own row member)).2) distinct
  stored legacy member row there same := by
    obtain ⟨identity, clean, key, entityId⟩ := stored legacy member row there
    have alike := injective ((Cell.text.inj (key.symm.trans same)).trans (keyed legacy member))
    have cleanToo := own legacy member
    have identical := Identity.keyText_injective ⟨(apart _ clean).1, (apart _ cleanToo).1⟩ ⟨(apart _ clean).2, (apart _ cleanToo).2⟩ alike
    rw [entityId, identical]
    rfl

section build

variable {outside : Outside} {containerRepr : PyValue → String} {files : List LegacyFile} {stamp : Stamp} {before after : Objects}
  {matched : Bool}

theorem buildCanonicalStore_course {legacy : Legacy} (done : buildCanonicalStore outside legacy stamp before = .ok (after, matched))
    (columns : ∀ name ∈ canonicalEntityTables, ∀ table, before.tables.get? name = some table → table.columns = canonicalColumns)
    (derives : ∀ row columns, outside.derived row = .ok columns → columns.map (·.1) ⊆ derivedColumns)
    (apart : KeysApart legacy.rows before) : ∃ imports, Course before stamp.migratedAt legacy.rows imports after := by
  unfold buildCanonicalStore at done
  dsimp only at done
  split at done
  · cases done
  obtain ⟨ready, schema, done⟩ := bind_eq_ok.mp done
  obtain ⟨last, run, done⟩ := bind_eq_ok.mp done
  cases done
  have awaits : ∀ name ∈ canonicalEntityTables, Awaits name (rowsOf before name) before := by
    intro name entity
    unfold Awaits rowsOf
    cases found : before.tables.get? name with
    | none => exact .inr ⟨rfl, rfl⟩
    | some table =>
      rw [← columns name entity table found]
      exact .inl rfl
  have course := foldlM_ok (fun done so => done <+: legacy.rows → ∃ imports, Course before stamp.migratedAt done imports so.objects)
    ?keeps ?starts run
  · exact course (List.prefix_refl _)
  · intro done item so next held step within
    obtain ⟨imports, course⟩ := held ((List.prefix_append done [item]).trans within)
    have member : item ∈ legacy.rows := within.subset (List.mem_append_right _ (List.mem_singleton_self _))
    have distinct := (within.map (·.rowKey)).sublist.nodup apart.legacy
    rw [List.map_append, List.nodup_append] at distinct
    refine course.importRow step (derives item) (apart.stored item member) fun known => ?_
    exact distinct.2.2 _ known _ (List.mem_singleton_self _) rfl
  · intro _
    refine ⟨[], fun name entity => ?_, fun item none => absurd none List.not_mem_nil, List.Pairwise.nil,
      fun item none => absurd none List.not_mem_nil, fun legacy none => absurd none List.not_mem_nil⟩
    rw [List.filter_nil, List.map_nil, List.append_nil]
    exact initializeCanonicalSchema_kept (awaits name entity) entity schema

theorem optionalText_injective : Function.Injective optionalText := by
  intro first second same
  cases first <;> cases second <;> simp_all [optionalText]

theorem Course.present_iff {rows : List LegacyPayloadRow} {imports : List Import}
    (course : Course before stamp.migratedAt rows imports after) (keyed : Keyed outside.sha256 rows) (once : (rows.map (·.rowKey)).Nodup)
    {legacy : LegacyPayloadRow} (member : legacy ∈ rows) (absent : ¬legacy.Present before) :
    legacy.Present after ↔ ∃ item ∈ imports, item.1 = legacy := by
  unfold LegacyPayloadRow.Present
  rw [course.rows]
  constructor
  · rintro ⟨row, there, named⟩
    rcases List.mem_append.mp there with old | new
    · exact absurd ⟨row, old, named⟩ absent
    · obtain ⟨item, inside, rfl⟩ := List.mem_map.mp new
      have place := (mem_filter_table.mp inside).1
      obtain ⟨collection, project, entityId⟩ := importCells_named item.1 stamp.migratedAt
      refine ⟨item, place, List.inj_on_of_nodup_map once (course.origin item place).1 member ?_⟩
      rw [keyed _ (course.origin item place).1, keyed _ member]
      have sameCollection := Cell.text.inj (collection.symm.trans named.1)
      have sameProject := optionalText_injective (project.symm.trans named.2.1)
      have sameId := Cell.text.inj (entityId.symm.trans named.2.2)
      unfold LegacyPayloadRow.entry
      rw [sameCollection, sameProject, sameId]
  · rintro ⟨item, inside, rfl⟩
    exact ⟨importCells stamp.migratedAt item, List.mem_append_right _ (List.mem_map_of_mem (mem_filter_table.mpr ⟨inside, rfl⟩)),
      importCells_named item.1 stamp.migratedAt⟩

end build

/-! ### Entries of two projects under one id -/

def memoryFile (project : String) : LegacyFile :=
  ⟨"memory_entries", "m1", "structured/memory_entries/m1-" ++ project ++ ".json", some [("project_name", .str project)], 2⟩

def builtFrom (files : List LegacyFile) : Except Failure (Objects × Bool) :=
  buildCanonicalStore Attempt.sampleOutside (scanLegacyPayloads id (fun _ => "") files) ⟨"t1", "r1"⟩ .empty

def builtObjects (files : List LegacyFile) : Objects := ((builtFrom files).toOption.map (·.1)).getD .empty

theorem builtFrom_of_flag {files : List LegacyFile} (completed : (builtFrom files).toOption.map (·.2) = some true) :
    builtFrom files = .ok (builtObjects files, true) := by
  unfold builtObjects
  cases result : builtFrom files with
  | error failure =>
    rw [result] at completed
    cases completed
  | ok built =>
    rw [result] at completed
    exact congrArg Except.ok (Prod.ext rfl (Option.some.inj completed))

end HarnessMem.Migration
