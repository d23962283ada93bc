import HarnessMem.Library.Results
import HarnessMem.Migration.Database
import Mathlib.Data.List.Infix

/-! The two imports that make up the staging file: the payload table of
`apply_store_v2_migration` and the entity tables of `build_canonical_store`.
-/

set_option autoImplicit false

namespace HarnessMem.Migration

open HarnessMem.Library

structure LegacyPayloadRow where
  rowKey : String
  collection : String
  entityId : String
  projectName : Option String
  sourceRelpath : String
  payloadJson : String
  payloadSha256 : String
  sizeBytes : Nat

/-- `scan_legacy_payloads`: the rows in their order, and the files that are no JSON object. -/
structure Legacy where
  rows : List LegacyPayloadRow
  invalid : List String

structure Outside where
  fingerprint : Snapshot → String
  sha256 : String → String
  /-- `str` of a stored value. -/
  str : Cell → String
  /-- The mode that `read_runtime_state` finds in the file. -/
  mode : List UInt8 → Option String
  /-- The columns `corpus_id` to `decay_score` of `canonical_row_from_legacy`, which come out of the payload. -/
  derived : LegacyPayloadRow → Except Failure (List (String × Cell))

structure Stamp where
  migratedAt : String
  runId : String

/-! ### Statements -/

namespace TableObject

def row (table : TableObject) (values : List (String × Cell)) : Row :=
  table.columns.map fun column => (values.lookup column.name).getD .null

def cell (table : TableObject) (row : Row) (name : String) : Cell :=
  (((table.columns.map (·.name)).zip row).lookup name).getD .null

/-- The row with `SET name=excluded.name` for every value. -/
def updated (table : TableObject) (row : Row) (values : List (String × Cell)) : Row :=
  (table.columns.zip row).map fun entry => (values.lookup entry.1.name).getD entry.2

def conflicts (table : TableObject) (key : String) (values : List (String × Cell)) (row : Row) : Bool :=
  table.cell row key = (values.lookup key).getD .null

def takes (table : TableObject) (values : List (String × Cell)) : Bool :=
  values.all fun value => value.1 ∈ table.columns.map (·.name)

end TableObject

namespace Objects

/-- `CREATE TABLE IF NOT EXISTS`. -/
def createTable (objects : Objects) (name : String) (columns : List Column) : Objects :=
  { objects with tables := objects.tables.adopt [(name, ⟨columns, []⟩)] }

/-- `CREATE INDEX IF NOT EXISTS`. -/
def createIndex (objects : Objects) (name : String) (index : Index) : Objects :=
  { objects with indexes := objects.indexes.adopt [(name, index)] }

/-- `INSERT INTO name (..) VALUES (..)`, with the column of the primary key. -/
def insert (objects : Objects) (name key : String) (values : List (String × Cell)) : Except Failure Objects :=
  match objects.tables.get? name with
  | none => .error (.other "OperationalError")
  | some table =>
    if table.takes values then
      if table.rows.any (table.conflicts key values) then .error (.other "IntegrityError")
      else .ok (objects.setTable name { table with rows := table.rows ++ [table.row values] })
    else .error (.other "OperationalError")

/-- `INSERT .. ON CONFLICT(key) DO UPDATE SET ..`. -/
def upsert (objects : Objects) (name key : String) (values : List (String × Cell)) : Except Failure Objects :=
  match objects.tables.get? name with
  | none => .error (.other "OperationalError")
  | some table =>
    if table.takes values then
      if table.rows.any (table.conflicts key values) then
        let rows := table.rows.map fun row => if table.conflicts key values row then table.updated row values else row
        .ok (objects.setTable name { table with rows := rows })
      else .ok (objects.setTable name { table with rows := table.rows ++ [table.row values] })
    else .error (.other "OperationalError")

end Objects

/-! ### Checksums -/

/-- What a checksum sees of a row: its identity, with no project as the empty one, and its content. -/
structure Identity where
  collection : String
  project : String
  entityId : String
  deriving DecidableEq

abbrev Entry := Identity × String

def LegacyPayloadRow.entry (row : LegacyPayloadRow) : Entry :=
  (⟨row.collection, row.projectName.getD "", row.entityId⟩, row.payloadSha256)

def Identity.before (first second : Identity) : Prop :=
  ((compare first.collection second.collection).then
    ((compare first.project second.project).then (compare first.entityId second.entityId))) ≠ .gt

instance : DecidableRel Identity.before := fun first second => by unfold Identity.before; infer_instance

def logicalChecksum (outside : Outside) (entries : List Entry) : String :=
  let sorted := entries.insertionSort fun first second => first.1.before second.1
  outside.sha256 (String.join (sorted.map fun entry =>
    entry.1.collection ++ "\t" ++ entry.1.project ++ "\t" ++ entry.1.entityId ++ "\t" ++ entry.2 ++ "\n"))

def tableEntries (outside : Outside) (objects : Objects) (project : String) (name : String) : List Entry :=
  match objects.tables.get? name with
  | none => []
  | some table => table.rows.map fun row =>
    let owner := match table.cell row project with
      | .null => ""
      | owner => outside.str owner
    (⟨outside.str (table.cell row "collection"), owner, outside.str (table.cell row "entity_id")⟩,
      outside.str (table.cell row "payload_sha256"))

/-! ### The payload table -/

def payloadsTable : String := "storage_v2_payloads"

def runsTable : String := "storage_v2_migration_runs"

def migrationTables : List String := [payloadsTable, runsTable]

def payloadColumns : List Column :=
  [⟨"row_key", "TEXT PRIMARY KEY"⟩, ⟨"collection", "TEXT NOT NULL"⟩, ⟨"entity_id", "TEXT NOT NULL"⟩, ⟨"project_name", "TEXT"⟩,
    ⟨"source_relpath", "TEXT NOT NULL"⟩, ⟨"payload_json", "TEXT NOT NULL"⟩, ⟨"payload_sha256", "TEXT NOT NULL"⟩,
    ⟨"size_bytes", "INTEGER NOT NULL"⟩, ⟨"migrated_at", "TEXT NOT NULL"⟩]

def runColumns : List Column :=
  [⟨"run_id", "TEXT PRIMARY KEY"⟩, ⟨"project_name", "TEXT"⟩, ⟨"migrated_at", "TEXT NOT NULL"⟩, ⟨"row_count", "INTEGER NOT NULL"⟩,
    ⟨"before_checksum", "TEXT NOT NULL"⟩, ⟨"after_checksum", "TEXT NOT NULL"⟩, ⟨"checksum_match", "INTEGER NOT NULL"⟩]

def initSchema (objects : Objects) : Objects :=
  ((objects.createTable payloadsTable payloadColumns).createIndex "idx_storage_v2_payloads_project"
    ⟨payloadsTable, ["project_name", "collection"]⟩).createTable runsTable runColumns

def optionalText : Option String → Cell
  | none => .null
  | some value => .text value

def payloadValues (row : LegacyPayloadRow) (migratedAt : String) : List (String × Cell) :=
  [("row_key", .text row.rowKey), ("collection", .text row.collection), ("entity_id", .text row.entityId),
    ("project_name", optionalText row.projectName), ("source_relpath", .text row.sourceRelpath), ("payload_json", .text row.payloadJson),
    ("payload_sha256", .text row.payloadSha256), ("size_bytes", .integer row.sizeBytes), ("migrated_at", .text migratedAt)]

/-- `apply_store_v2_migration` on the staging file, over all projects: the file, and whether the checksums match. -/
def applyStoreV2Migration (outside : Outside) (legacy : Legacy) (stamp : Stamp) (staging : Objects) : Except Failure (Objects × Bool) := do
  if legacy.invalid ≠ [] then
    throw (.migration s!"Cannot apply Storage v2 migration with invalid JSON files: {legacy.invalid.length}")
  let before := logicalChecksum outside (legacy.rows.map (·.entry))
  let loaded ← legacy.rows.foldlM
    (fun objects row => objects.upsert payloadsTable "row_key" (payloadValues row stamp.migratedAt)) (initSchema staging)
  let after := logicalChecksum outside (tableEntries outside loaded "project_name" payloadsTable)
  let recorded ← loaded.insert runsTable "run_id"
    [("run_id", .text ("storage-v2-" ++ stamp.runId)), ("project_name", .null), ("migrated_at", .text stamp.migratedAt),
      ("row_count", .integer legacy.rows.length), ("before_checksum", .text before), ("after_checksum", .text after),
      ("checksum_match", .integer (if before = after then 1 else 0))]
  pure (recorded, before = after)

/-! ### The entity tables -/

def canonicalEntityTables : List String :=
  ["observations", "memory_entries", "knowledge_entries", "knowledge_sources", "rules", "skills", "relations", "candidates", "signals",
    "task_handoffs", "metabolism_runs", "dream_runs"]

def metaTable : String := "canonical_store_meta"

def recordsTable : String := "canonical_transaction_records"

def canonicalTables : List String := metaTable :: recordsTable :: canonicalEntityTables

def collectionToTable : List (String × String) :=
  [("observations", "observations"), ("memory_entries", "memory_entries"), ("knowledge_entries", "knowledge_entries"),
    ("knowledge_sources", "knowledge_sources"), ("confirmed_rules", "rules"), ("skills", "skills"), ("relation_facts", "relations"),
    ("retrieval_signals", "signals"), ("task_handoffs", "task_handoffs"), ("rule_candidates", "candidates"),
    ("supersede_candidates", "candidates"), ("merge_suggestion_candidates", "candidates"),
    ("stale_truth_suggestion_candidates", "candidates"), ("procedural_candidates", "candidates"),
    ("metabolism_runs", "metabolism_runs"), ("dream_runs", "dream_runs")]

def canonicalTableForCollection (collection : String) : String :=
  match collectionToTable.lookup collection with
  | some table => table
  | none =>
    if "_candidates".toList <:+ collection.toList ∨ "candidate".toList <:+: collection.toList then "candidates"
    else "memory_entries"

def canonicalColumns : List Column :=
  [⟨"row_key", "TEXT PRIMARY KEY"⟩, ⟨"collection", "TEXT NOT NULL"⟩, ⟨"entity_id", "TEXT NOT NULL"⟩, ⟨"project_id", "TEXT"⟩,
    ⟨"corpus_id", "TEXT NOT NULL DEFAULT 'default'"⟩, ⟨"type", "TEXT NOT NULL"⟩, ⟨"truth_status", "TEXT NOT NULL DEFAULT 'unknown'"⟩,
    ⟨"confidence", "REAL"⟩, ⟨"created_at", "TEXT"⟩, ⟨"valid_from", "TEXT"⟩, ⟨"valid_to", "TEXT"⟩,
    ⟨"tier", "TEXT NOT NULL DEFAULT 'hot'"⟩, ⟨"last_accessed_at", "TEXT"⟩, ⟨"access_count", "INTEGER NOT NULL DEFAULT 0"⟩,
    ⟨"decay_score", "REAL NOT NULL DEFAULT 0.0"⟩, ⟨"source_relpath", "TEXT NOT NULL"⟩, ⟨"payload_json", "TEXT NOT NULL"⟩,
    ⟨"payload_sha256", "TEXT NOT NULL"⟩, ⟨"size_bytes", "INTEGER NOT NULL DEFAULT 0"⟩, ⟨"migrated_at", "TEXT NOT NULL"⟩]

def createEntityTable (objects : Objects) (table : String) : Objects :=
  (((objects.createTable table canonicalColumns).createIndex ("idx_" ++ table ++ "_metadata")
    ⟨table, ["project_id", "corpus_id", "type", "truth_status", "tier"]⟩).createIndex ("idx_" ++ table ++ "_validity")
    ⟨table, ["valid_from", "valid_to", "created_at"]⟩).createIndex ("idx_" ++ table ++ "_payload_sha") ⟨table, ["payload_sha256"]⟩

def initializeCanonicalSchema (objects : Objects) : Except Failure Objects := do
  let withMeta := objects.createTable metaTable [⟨"key", "TEXT PRIMARY KEY"⟩, ⟨"value", "TEXT NOT NULL"⟩]
  let versioned ← withMeta.upsert metaTable "key" [("key", .text "schema_version"), ("value", .text "7")]
  let contracted ← versioned.upsert metaTable "key" [("key", .text "contract_version"), ("value", .text "canonical-store-v7.0.0")]
  pure ((canonicalEntityTables.foldl createEntityTable contracted).createTable recordsTable
    [⟨"idempotency_key", "TEXT PRIMARY KEY"⟩, ⟨"request_sha256", "TEXT NOT NULL"⟩, ⟨"result_json", "TEXT NOT NULL"⟩,
      ⟨"committed_at", "TEXT NOT NULL"⟩])

/-- The columns of `canonical_row_from_legacy`. -/
def canonicalValues (row : LegacyPayloadRow) (derived : List (String × Cell)) (migratedAt : String) : List (String × Cell) :=
  [("row_key", .text row.rowKey), ("collection", .text row.collection), ("entity_id", .text row.entityId),
    ("project_id", optionalText row.projectName)] ++ derived ++
  [("source_relpath", .text row.sourceRelpath), ("payload_json", .text row.payloadJson), ("payload_sha256", .text row.payloadSha256),
    ("size_bytes", .integer row.sizeBytes), ("migrated_at", .text migratedAt)]

/-- The staging file with the rows imported and preserved so far. -/
structure Imported where
  objects : Objects
  imported : Nat
  preserved : Nat

def importRow (outside : Outside) (stamp : Stamp) (so : Imported) (row : LegacyPayloadRow) : Except Failure Imported := do
  let derived ← outside.derived row
  let name := canonicalTableForCollection row.collection
  match so.objects.tables.get? name with
  | none => throw (.other "OperationalError")
  | some table =>
    if table.rows.any fun known => table.cell known "entity_id" = .text row.entityId then
      pure { so with preserved := so.preserved + 1 }
    else
      let objects ← so.objects.upsert name "row_key" (canonicalValues row derived stamp.migratedAt)
      pure { so with objects := objects, imported := so.imported + 1 }

/-- `build_canonical_store` on the staging file: the file, and whether every legacy row is accounted for. -/
def buildCanonicalStore (outside : Outside) (legacy : Legacy) (stamp : Stamp) (staging : Objects) : Except Failure (Objects × Bool) := do
  if legacy.invalid ≠ [] then
    throw (.migration s!"Cannot build canonical store with invalid JSON files: {legacy.invalid.length}")
  let ready ← initializeCanonicalSchema staging
  let done ← legacy.rows.foldlM (importRow outside stamp) ⟨ready, 0, 0⟩
  pure (done.objects, done.imported + done.preserved = legacy.rows.length)

/-! ### The relation of the two stores -/

inductive Relation where
  | invalidLegacy
  | legacyMissingInCanonical
  | contentConflict
  | canonicalSupersetExpected
  | exactMatch
  deriving DecidableEq, Repr

def lastOf (entries : List Entry) (key : Identity) : Option String := entries.reverse.lookup key

/-- `canonical_checksum_relation` for a file that exists. -/
def canonicalChecksumRelation (outside : Outside) (legacy : Legacy) (mode : Option String) (objects : Objects) : Relation :=
  if legacy.invalid ≠ [] then .invalidLegacy
  else
    let old := legacy.rows.map (·.entry)
    let new := canonicalEntityTables.flatMap (tableEntries outside objects "project_id")
    if old.any fun entry => lastOf new entry.1 = none then .legacyMissingInCanonical
    else
      let changed := old.any fun entry => lastOf new entry.1 ≠ lastOf old entry.1
      if changed ∧ mode ≠ some "canonical" then .contentConflict
      else if changed ∨ new.any (fun entry => lastOf old entry.1 = none) then .canonicalSupersetExpected
      else .exactMatch

end HarnessMem.Migration

/-! An import only adds to the staging file: objects that were there stay, tables
of others are not touched, and each run leaves a row of its own behind.
-/

namespace HarnessMem.Migration

open HarnessMem.Library

/-- Statements on some tables, none of which drops or alters anything. -/
structure Grows (names : List String) (before after : Objects) : Prop where
  others : ∀ name, name ∉ names → after.tables.get? name = before.tables.get? name
  kept : ∀ name own, before.tables.get? name = some own →
    ∃ table, after.tables.get? name = some table ∧ table.columns = own.columns
  indexes : ∀ name index, before.indexes.get? name = some index → after.indexes.get? name = some index

namespace Grows

variable {names : List String} {before middle after : Objects}

theorem refl (names : List String) (objects : Objects) : Grows names objects objects where
  others _ _ := rfl
  kept _ own found := ⟨own, found, rfl⟩
  indexes _ _ found := found

theorem trans (first : Grows names before middle) (second : Grows names middle after) : Grows names before after where
  others name other := (second.others name other).trans (first.others name other)
  kept name own found := by
    obtain ⟨table, there, same⟩ := first.kept name own found
    obtain ⟨last, here, alike⟩ := second.kept name table there
    exact ⟨last, here, alike.trans same⟩
  indexes name index found := second.indexes name index (first.indexes name index found)

theorem mono {more : List String} (within : names ⊆ more) (grows : Grows names before after) : Grows more before after :=
  { grows with others := fun name other => grows.others name fun member => other (within member) }

variable {name : String}

theorem present (grows : Grows names before after) (there : (before.tables.get? name).isSome) :
    (after.tables.get? name).isSome := by
  obtain ⟨own, found⟩ := Option.isSome_iff_exists.mp there
  obtain ⟨table, here, _⟩ := grows.kept name own found
  rw [here]
  rfl

theorem alike (grows : Grows names before after) : Alike after before := by
  intro name table own found mine
  obtain ⟨other, here, same⟩ := grows.kept name own mine
  rw [Option.some.inj (found.symm.trans here), same]

/-! ### Statements -/

theorem createTable {name : String} (member : name ∈ names) (objects : Objects) (columns : List Column) :
    Grows names objects (objects.createTable name columns) where
  others other free := by
    apply KeyMap.get?_adopt_of_notMem
    rw [List.map_cons, List.map_nil, List.mem_singleton]
    exact fun same => free (same ▸ member)
  kept other own found := by
    refine ⟨own, ?_, rfl⟩
    rw [← found]
    exact KeyMap.get?_adopt_of_isSome (by rw [found]; rfl)
  indexes _ _ found := found

theorem createIndex (names : List String) (objects : Objects) (name : String) (index : Index) :
    Grows names objects (objects.createIndex name index) where
  others _ _ := rfl
  kept _ own found := ⟨own, found, rfl⟩
  indexes other own found := by
    rw [← found]
    exact KeyMap.get?_adopt_of_isSome (by rw [found]; rfl)

theorem setTable {table : TableObject} {objects : Objects} (member : name ∈ names)
    (found : objects.tables.get? name = some table) (rows : List Row) :
    Grows names objects (objects.setTable name { table with rows := rows }) where
  others other free := KeyMap.get?_set_of_ne _ _ fun same => free (same ▸ member)
  kept other own there := by
    by_cases same : other = name
    · subst same
      rw [found] at there
      cases there
      exact ⟨_, KeyMap.get?_set_self _ _ _, rfl⟩
    · exact ⟨own, (KeyMap.get?_set_of_ne _ _ same).trans there, rfl⟩
  indexes _ _ there := there

theorem upsert {key : String} {values : List (String × Cell)} {objects : Objects} (member : name ∈ names)
    (done : objects.upsert name key values = .ok after) : Grows names objects after := by
  unfold Objects.upsert at done
  split at done
  · cases done
  next table found =>
  split at done
  · split at done
    · cases done
      exact setTable member found _
    · cases done
      exact setTable member found _
  · cases done

theorem foldlM {α σ : Type} {items : List α} {step : σ → α → Except Failure σ} {file : σ → Objects}
    (grows : ∀ start item next, item ∈ items → step start item = .ok next → Grows names (file start) (file next))
    {start last : σ} (run : items.foldlM step start = .ok last) : Grows names (file start) (file last) := by
  induction items generalizing start with
  | nil =>
    cases run
    exact refl _ _
  | cons item rest ih =>
    rw [List.foldlM_cons] at run
    cases first : step start item with
    | error failure =>
      rw [first] at run
      cases run
    | ok next =>
      rw [first] at run
      exact (grows start item next (List.mem_cons_self ..) first).trans
        (ih (fun start item next member => grows start item next (List.mem_cons_of_mem _ member)) run)

end Grows

theorem createTable_present (objects : Objects) (name : String) (columns : List Column) :
    ((objects.createTable name columns).tables.get? name).isSome := by
  have alone : (objects.createTable name columns).tables =
      if (objects.tables.get? name).isSome then objects.tables else objects.tables.set name ⟨columns, []⟩ := rfl
  rw [alone]
  split
  · assumption
  · rw [KeyMap.get?_set_self]
    rfl

variable {objects : Objects} {name : String}

theorem createTable_new (absent : objects.tables.get? name = none) (columns : List Column) :
    (objects.createTable name columns).tables.get? name = some ⟨columns, []⟩ := by
  have alone : (objects.createTable name columns).tables =
      if (objects.tables.get? name).isSome then objects.tables else objects.tables.set name ⟨columns, []⟩ := rfl
  rw [alone, absent]
  exact KeyMap.get?_set_self _ _ _

theorem createTable_kept {known : String} {own : TableObject} (found : objects.tables.get? known = some own)
    (name : String) (columns : List Column) : (objects.createTable name columns).tables.get? known = some own := by
  rw [← found]
  exact KeyMap.get?_adopt_of_isSome (by rw [found]; rfl)

variable {after : Objects}

theorem insert_cases {key : String} {values : List (String × Cell)}
    (done : objects.insert name key values = .ok after) :
    ∃ table, objects.tables.get? name = some table ∧
      after = objects.setTable name { table with rows := table.rows ++ [table.row values] } := by
  unfold Objects.insert at done
  split at done
  · cases done
  next table found =>
  split at done
  · split at done
    · cases done
    · cases done
      exact ⟨table, found, rfl⟩
  · cases done

/-! ### The payload table -/

theorem initSchema_grows (objects : Objects) : Grows migrationTables objects (initSchema objects) :=
  ((Grows.createTable (List.mem_cons_self ..) _ _).trans (Grows.createIndex _ _ _ _)).trans
    (Grows.createTable (List.mem_cons_of_mem _ (List.mem_singleton_self _)) _ _)

theorem initSchema_present (objects : Objects) (member : name ∈ migrationTables) :
    ((initSchema objects).tables.get? name).isSome := by
  rcases List.mem_cons.mp member with same | last
  · rw [same]
    exact (Grows.createTable (List.mem_singleton_self runsTable) _ _).present
      (createTable_present objects payloadsTable payloadColumns)
  · rw [List.mem_singleton.mp last]
    exact createTable_present _ _ _

variable {outside : Outside} {stamp : Stamp}

theorem applyStoreV2Migration_cases {legacy : Legacy} {staging : Objects} {matched : Bool}
    (done : applyStoreV2Migration outside legacy stamp staging = .ok (after, matched)) :
    legacy.invalid = [] ∧ ∃ loaded table values, Grows [payloadsTable] (initSchema staging) loaded ∧
      loaded.tables.get? runsTable = some table ∧
      after = loaded.setTable runsTable { table with rows := table.rows ++ [table.row values] } := by
  unfold applyStoreV2Migration at done
  dsimp only at done
  split at done
  · cases done
  next valid =>
  refine ⟨not_not.mp valid, ?_⟩
  obtain ⟨loaded, run, done⟩ := bind_eq_ok.mp done
  obtain ⟨recorded, inserted, done⟩ := bind_eq_ok.mp done
  cases done
  obtain ⟨table, found, rfl⟩ := insert_cases inserted
  refine ⟨loaded, table, _, ?_, found, rfl⟩
  exact @Grows.foldlM _ _ _ _ _ id (fun _ _ _ _ step => Grows.upsert (List.mem_singleton_self _) step) _ _ run

section payload

variable {outside : Outside} {legacy : Legacy} {stamp : Stamp} {staging after : Objects} {matched : Bool}

theorem applyStoreV2Migration_grows (done : applyStoreV2Migration outside legacy stamp staging = .ok (after, matched)) :
    Grows migrationTables staging after := by
  obtain ⟨_, loaded, table, values, grows, found, rfl⟩ := applyStoreV2Migration_cases done
  have filled : Grows migrationTables (initSchema staging) loaded := grows.mono (List.cons_subset_cons _ (List.nil_subset _))
  have recorded := Grows.setTable (List.mem_cons_of_mem payloadsTable (List.mem_singleton_self runsTable)) found
  exact ((initSchema_grows staging).trans filled).trans (recorded _)

theorem applyStoreV2Migration_present (done : applyStoreV2Migration outside legacy stamp staging = .ok (after, matched))
    {name : String} (member : name ∈ migrationTables) : (after.tables.get? name).isSome := by
  obtain ⟨_, loaded, table, values, grows, found, rfl⟩ := applyStoreV2Migration_cases done
  have there := grows.present (initSchema_present staging member)
  exact (Grows.setTable (List.mem_singleton_self runsTable) found _).present there

theorem applyStoreV2Migration_records (done : applyStoreV2Migration outside legacy stamp staging = .ok (after, matched)) :
    contents after runsTable ≠ contents staging runsTable := by
  obtain ⟨_, loaded, table, values, grows, found, rfl⟩ := applyStoreV2Migration_cases done
  have written : contents (loaded.setTable runsTable { table with rows := table.rows ++ [table.row values] }) runsTable =
      some ((table.rows ++ [table.row values] : List Row) : Multiset Row) := by
    unfold contents
    rw [Objects.setTable, KeyMap.get?_set_self]
    rfl
  rw [written]
  unfold contents
  cases earlier : staging.tables.get? runsTable with
  | none => exact fun same => nomatch same
  | some own =>
    have ready : (initSchema staging).tables.get? runsTable = some own :=
      createTable_kept (createTable_kept earlier payloadsTable payloadColumns) _ _
    have still : loaded.tables.get? runsTable = some own := by
      rw [grows.others runsTable (by decide), ready]
    rw [still] at found
    cases found
    intro same
    have sizes := congrArg Multiset.card (Option.some.inj same)
    rw [Multiset.coe_card, Multiset.coe_card, List.length_append, List.length_singleton] at sizes
    omega

end payload

/-! ### The entity tables -/

theorem lookup_mem {κ α : Type} [BEq κ] {entries : List (κ × α)} {key : κ} {value : α} (found : entries.lookup key = some value) :
    value ∈ entries.map (·.2) := by
  induction entries with
  | nil => cases found
  | cons entry rest ih =>
    rw [List.lookup_cons] at found
    split at found
    · cases found
      exact List.mem_cons_self ..
    · exact List.mem_cons_of_mem _ (ih found)

theorem canonicalTableForCollection_mem (collection : String) : canonicalTableForCollection collection ∈ canonicalEntityTables := by
  have known : ∀ table ∈ collectionToTable.map (·.2), table ∈ canonicalEntityTables := by decide
  unfold canonicalTableForCollection
  split
  · next table found => exact known table (lookup_mem found)
  · split
    · decide
    · decide

theorem createEntityTable_grows {table : String} (member : table ∈ canonicalEntityTables) (objects : Objects) :
    Grows canonicalTables objects (createEntityTable objects table) := by
  have named : table ∈ canonicalTables := List.mem_cons_of_mem _ (List.mem_cons_of_mem _ member)
  exact (((Grows.createTable named _ _).trans (Grows.createIndex _ _ _ _)).trans (Grows.createIndex _ _ _ _)).trans
    (Grows.createIndex _ _ _ _)

theorem createEntityTables_grows {tables : List String} (known : tables ⊆ canonicalEntityTables) (objects : Objects) :
    Grows canonicalTables objects (tables.foldl createEntityTable objects) := by
  induction tables generalizing objects with
  | nil => exact .refl _ _
  | cons table rest ih =>
    have ⟨member, later⟩ := List.cons_subset.mp known
    exact (createEntityTable_grows member objects).trans (ih later _)

theorem createEntityTables_present {tables : List String} (known : tables ⊆ canonicalEntityTables) (objects : Objects)
    (member : name ∈ tables) : ((tables.foldl createEntityTable objects).tables.get? name).isSome := by
  induction tables generalizing objects with
  | nil => cases member
  | cons table rest ih =>
    have ⟨_, later⟩ := List.cons_subset.mp known
    rcases List.mem_cons.mp member with rfl | there
    · exact (createEntityTables_grows later _).present (createTable_present objects name canonicalColumns)
    · exact ih later _ there

theorem initializeCanonicalSchema_spec (done : initializeCanonicalSchema objects = .ok after) :
    Grows canonicalTables objects after ∧ ∀ name ∈ canonicalTables, (after.tables.get? name).isSome := by
  unfold initializeCanonicalSchema at done
  obtain ⟨versioned, first, done⟩ := bind_eq_ok.mp done
  obtain ⟨contracted, second, done⟩ := bind_eq_ok.mp done
  have same := Except.ok.inj done
  subst same
  have metaMember : metaTable ∈ canonicalTables := List.mem_cons_self ..
  have recordsMember : recordsTable ∈ canonicalTables := List.mem_cons_of_mem _ (List.mem_cons_self ..)
  have upserts := (Grows.upsert metaMember first).trans (Grows.upsert metaMember second)
  have tables := createEntityTables_grows (List.Subset.refl canonicalEntityTables) contracted
  have records := fun columns => Grows.createTable recordsMember (canonicalEntityTables.foldl createEntityTable contracted) columns
  constructor
  · exact (((Grows.createTable metaMember _ _).trans upserts).trans tables).trans (records _)
  · intro name member
    rcases List.mem_cons.mp member with rfl | member
    · exact ((upserts.trans tables).trans (records _)).present (createTable_present objects metaTable _)
    · rcases List.mem_cons.mp member with rfl | entity
      · exact createTable_present _ _ _
      · exact (records _).present (createEntityTables_present (List.Subset.refl _) contracted entity)

theorem importRow_grows {so next : Imported} {row : LegacyPayloadRow}
    (done : importRow outside stamp so row = .ok next) : Grows canonicalTables so.objects next.objects := by
  unfold importRow at done
  obtain ⟨derived, _, done⟩ := bind_eq_ok.mp done
  simp only at done
  split at done
  · cases done
  split at done
  · cases done
    exact .refl _ _
  · obtain ⟨objects, written, done⟩ := bind_eq_ok.mp done
    cases done
    exact Grows.upsert (List.mem_cons_of_mem _ (List.mem_cons_of_mem _ (canonicalTableForCollection_mem row.collection))) written

theorem buildCanonicalStore_spec {legacy : Legacy} {staging : Objects} {matched : Bool}
    (done : buildCanonicalStore outside legacy stamp staging = .ok (after, matched)) :
    Grows canonicalTables staging after ∧ ∀ name ∈ canonicalTables, (after.tables.get? name).isSome := by
  unfold buildCanonicalStore at done
  dsimp only at done
  split at done
  · cases done
  obtain ⟨ready, schema, done⟩ := bind_eq_ok.mp done
  obtain ⟨last, run, done⟩ := bind_eq_ok.mp done
  cases done
  obtain ⟨grown, there⟩ := initializeCanonicalSchema_spec schema
  have imported := @Grows.foldlM canonicalTables _ _ _ _ Imported.objects (fun _ _ _ _ step => importRow_grows step) _ _ run
  exact ⟨grown.trans imported, fun name member => imported.present (there name member)⟩

end HarnessMem.Migration
