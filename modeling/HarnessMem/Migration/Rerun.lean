import HarnessMem.Library.Lists
import HarnessMem.Migration.Restored
import HarnessMem.Migration.Scan

/-! The payload import run again as the legacy store changes. Rows are put in and never taken out, while
the checksum is over all of them.
-/

set_option autoImplicit false

namespace HarnessMem.Migration

open HarnessMem.Library

/-! ### What the tables hold -/

def payloadCells (row : LegacyPayloadRow) (migratedAt : String) : Row :=
  [.text row.rowKey, .text row.collection, .text row.entityId, optionalText row.projectName, .text row.sourceRelpath,
    .text row.payloadJson, .text row.payloadSha256, .integer row.sizeBytes, .text migratedAt]

abbrev Payload := String × LegacyPayloadRow × String

def Payload.cells (payload : Payload) : Row := payloadCells payload.2.1 payload.2.2

def Payload.entry (payload : Payload) : Entry := payload.2.1.entry

/-- The database after runs of these ids: its payload table holds just these payloads. -/
structure Holds (held : List Payload) (runIds : List String) (objects : Objects) : Prop where
  payloads : objects.tables.get? payloadsTable = some ⟨payloadColumns, held.map Payload.cells⟩
  keyed : ∀ payload ∈ held, payload.1 = payload.2.1.rowKey
  once : (held.map (·.1)).Nodup
  runs : ∃ rows, objects.tables.get? runsTable = some ⟨runColumns, rows⟩ ∧
    ∀ row ∈ rows, ∃ runId ∈ runIds, TableObject.cell ⟨runColumns, rows⟩ row "run_id" = .text ("storage-v2-" ++ runId)

def merged (rows : List LegacyPayloadRow) (migratedAt : String) (held : List Payload) : List Payload :=
  rows.foldl (fun held row => assign row.rowKey (row, migratedAt) held) held

def stale (rows : List LegacyPayloadRow) (held : List Payload) : List Payload :=
  held.filter (·.1 ∉ rows.map (·.rowKey))

variable {held : List Payload} {runIds : List String} {objects : Objects}

theorem initSchema_fresh (noPayloads : objects.tables.get? payloadsTable = none) (noRuns : objects.tables.get? runsTable = none) :
    Holds [] [] (initSchema objects) where
  payloads := createTable_kept (createTable_new noPayloads payloadColumns) _ _
  keyed payload member := absurd member List.not_mem_nil
  once := List.nodup_nil
  runs := by
    have others := (Grows.createTable (List.mem_singleton_self payloadsTable) objects payloadColumns).others runsTable (by decide)
    exact ⟨[], createTable_new (others.trans noRuns) _, fun row member => absurd member List.not_mem_nil⟩

theorem Holds.ready (holds : Holds held runIds objects) : Holds held runIds (initSchema objects) := by
  obtain ⟨rows, found, known⟩ := holds.runs
  exact ⟨createTable_kept (createTable_kept holds.payloads _ _) _ _, holds.keyed, holds.once, rows,
    createTable_kept (createTable_kept found _ _) _ _, known⟩

/-! ### One row -/

section row

variable (row : LegacyPayloadRow) (migratedAt : String)

theorem takes_payload (rows : List Row) : TableObject.takes ⟨payloadColumns, rows⟩ (payloadValues row migratedAt) = true := by
  simp [TableObject.takes, payloadColumns, payloadValues]

theorem row_payload (rows : List Row) :
    TableObject.row ⟨payloadColumns, rows⟩ (payloadValues row migratedAt) = payloadCells row migratedAt := by
  simp [TableObject.row, payloadColumns, payloadValues, payloadCells, List.lookup_cons]

theorem updated_payload (rows : List Row) (payload : Payload) :
    TableObject.updated ⟨payloadColumns, rows⟩ payload.cells (payloadValues row migratedAt) = payloadCells row migratedAt := by
  simp [TableObject.updated, payloadColumns, payloadValues, payloadCells, Payload.cells, List.lookup_cons]

theorem conflicts_payload (rows : List Row) (payload : Payload) :
    TableObject.conflicts ⟨payloadColumns, rows⟩ "row_key" (payloadValues row migratedAt) payload.cells =
      decide (payload.2.1.rowKey = row.rowKey) := by
  simp [TableObject.conflicts, TableObject.cell, payloadColumns, payloadValues, payloadCells, Payload.cells]

theorem Holds.upsert (holds : Holds held runIds objects) :
    ∃ next, objects.upsert payloadsTable "row_key" (payloadValues row migratedAt) = .ok next ∧
      Holds (assign row.rowKey (row, migratedAt) held) runIds next := by
  obtain ⟨others, found, known⟩ := holds.runs
  have conflicting : (held.map Payload.cells).any (TableObject.conflicts ⟨payloadColumns, held.map Payload.cells⟩ "row_key"
      (payloadValues row migratedAt)) = held.any (·.1 = row.rowKey) := by
    rw [List.any_map]
    refine Bool.eq_iff_iff.mpr ?_
    simp only [List.any_eq_true, Function.comp_apply, conflicts_payload]
    exact exists_congr fun payload => and_congr_right fun member => by rw [holds.keyed payload member]
  have written : objects.upsert payloadsTable "row_key" (payloadValues row migratedAt) =
      .ok (objects.setTable payloadsTable ⟨payloadColumns, (assign row.rowKey (row, migratedAt) held).map Payload.cells⟩) := by
    unfold Objects.upsert
    rw [holds.payloads]
    simp only [takes_payload, if_true, conflicting, ← assign_eq_update holds.once]
    split
    · refine congrArg (fun rows => Except.ok (objects.setTable payloadsTable ⟨payloadColumns, rows⟩)) ?_
      rw [List.map_map, List.map_map]
      refine List.map_congr_left fun payload member => ?_
      rw [Function.comp_apply, Function.comp_apply, conflicts_payload, holds.keyed payload member]
      by_cases same : payload.2.1.rowKey = row.rowKey
      · rw [if_pos (decide_eq_true same), if_pos same]
        exact updated_payload row migratedAt _ payload
      · rw [if_neg (by simpa using same), if_neg same]
    · rw [List.map_append, row_payload]
      rfl
  refine ⟨_, written, KeyMap.get?_set_self _ _ _, fun payload member => ?_, nodup_assign _ _ holds.once, others, ?_, known⟩
  · rcases mem_assign member with rfl | there
    · rfl
    · exact holds.keyed payload there
  · exact (KeyMap.get?_set_of_ne _ _ (by decide)).trans found

end row

theorem Holds.load (rows : List LegacyPayloadRow) (migratedAt : String) (holds : Holds held runIds objects) :
    ∃ loaded, rows.foldlM (fun objects row => objects.upsert payloadsTable "row_key" (payloadValues row migratedAt)) objects = .ok loaded ∧
      Holds (merged rows migratedAt held) runIds loaded := by
  induction rows generalizing held objects with
  | nil => exact ⟨objects, rfl, holds⟩
  | cons row rest ih =>
    obtain ⟨next, written, after⟩ := holds.upsert row migratedAt
    obtain ⟨loaded, run, last⟩ := ih after
    exact ⟨loaded, by rw [List.foldlM_cons, written, ok_bind, run], last⟩

theorem Holds.record {runId : String} (holds : Holds held runIds objects) (fresh : runId ∉ runIds) (rest : List (String × Cell))
    (takes : ∀ rows, TableObject.takes ⟨runColumns, rows⟩ (("run_id", .text ("storage-v2-" ++ runId)) :: rest) = true) :
    ∃ after, objects.insert runsTable "run_id" (("run_id", .text ("storage-v2-" ++ runId)) :: rest) = .ok after ∧
      Holds held (runId :: runIds) after := by
  obtain ⟨rows, found, known⟩ := holds.runs
  have alone : rows.any (TableObject.conflicts ⟨runColumns, rows⟩ "run_id" (("run_id", .text ("storage-v2-" ++ runId)) :: rest)) = false := by
    rw [List.any_eq_false]
    intro row member same
    obtain ⟨other, there, named⟩ := known row member
    rw [TableObject.conflicts, named, List.lookup_cons_self, decide_eq_true_eq, Option.getD_some, Cell.text.injEq,
      String.append_right_inj] at same
    exact fresh (same ▸ there)
  refine ⟨objects.setTable runsTable ⟨runColumns, rows ++ [_]⟩, ?_, ?_, holds.keyed, holds.once,
    rows ++ [TableObject.row ⟨runColumns, rows⟩ (("run_id", .text ("storage-v2-" ++ runId)) :: rest)], KeyMap.get?_set_self _ _ _, ?_⟩
  · unfold Objects.insert
    rw [found]
    simp only [takes, alone, if_true, Bool.false_eq_true, if_false]
  · exact (KeyMap.get?_set_of_ne _ _ (by decide)).trans holds.payloads
  · intro row member
    rcases List.mem_append.mp member with before | last
    · obtain ⟨other, there, named⟩ := known row before
      exact ⟨other, List.mem_cons_of_mem _ there, named⟩
    · refine ⟨runId, List.mem_cons_self, ?_⟩
      rw [List.mem_singleton.mp last]
      simp [TableObject.cell, TableObject.row, runColumns]

/-! ### The checksum -/

def entryLine (entry : Entry) : String :=
  entry.1.collection ++ "\t" ++ entry.1.project ++ "\t" ++ entry.1.entityId ++ "\t" ++ entry.2 ++ "\n"

variable {outside : Outside}

theorem logicalChecksum_eq_iff (injective : Function.Injective outside.sha256) {entries others more : List Entry}
    (perm : others.Perm (more ++ entries)) (distinct : (entries.map (·.1)).Nodup) :
    logicalChecksum outside entries = logicalChecksum outside others ↔ more = [] := by
  constructor
  · intro same
    have texts := congrArg String.length (injective same)
    have sorted : ∀ entries : List Entry, ((entries.insertionSort fun first second => first.1.before second.1).map entryLine).Perm
        (entries.map entryLine) := fun entries => (List.perm_insertionSort _ entries).map entryLine
    change (String.join ((entries.insertionSort _).map entryLine)).length = (String.join ((others.insertionSort _).map entryLine)).length at texts
    rw [String.length_join, String.length_join, ((sorted entries).map _).sum_nat, ((sorted others).map _).sum_nat,
      ((perm.map entryLine).map _).sum_nat, List.map_append, List.map_append, List.sum_append] at texts
    cases more with
    | nil => rfl
    | cons entry rest =>
      have newline : "\n".length = 1 := by decide
      have filled : 0 < (entryLine entry).length := by
        unfold entryLine
        rw [String.length_append, newline]
        exact Nat.succ_pos _
      rw [List.map_cons, List.map_cons, List.sum_cons] at texts
      omega
  · rintro rfl
    rw [List.nil_append] at perm
    unfold logicalChecksum
    rw [sorted_perm perm.symm distinct]

theorem Holds.entries (reads : ∀ text, outside.str (.text text) = text) (holds : Holds held runIds objects) :
    tableEntries outside objects "project_name" payloadsTable = held.map Payload.entry := by
  unfold tableEntries
  rw [holds.payloads]
  dsimp only
  rw [List.map_map]
  refine List.map_congr_left fun payload _ => ?_
  cases named : payload.2.1.projectName with
  | none => simp [TableObject.cell, Payload.cells, Payload.entry, LegacyPayloadRow.entry, payloadCells, payloadColumns, optionalText, named, reads,
      List.lookup_cons]
  | some project =>
    simp [TableObject.cell, Payload.cells, Payload.entry, LegacyPayloadRow.entry, payloadCells, payloadColumns, optionalText, named, reads,
      List.lookup_cons]

theorem merged_perm {rows : List LegacyPayloadRow} (apart : (rows.map (·.rowKey)).Nodup) (once : (held.map (·.1)).Nodup) (migratedAt : String) :
    ((merged rows migratedAt held).map Payload.entry).Perm ((stale rows held).map Payload.entry ++ rows.map (·.entry)) := by
  have whole := (@foldl_assign_perm _ _ _ _ LegacyPayloadRow.rowKey (fun row => (row, migratedAt)) rows held apart once).map Payload.entry
  rw [List.map_append, List.map_map] at whole
  exact whole

theorem identities_nodup {sha256 : String → String} {rows : List LegacyPayloadRow} (keyed : Keyed sha256 rows)
    (apart : (rows.map (·.rowKey)).Nodup) : ((rows.map (·.entry)).map (·.1)).Nodup := by
  have same : rows.map (·.rowKey) = ((rows.map (·.entry)).map (·.1)).map fun identity => sha256 identity.keyText := by
    rw [List.map_map, List.map_map]
    exact List.map_congr_left keyed
  rw [same] at apart
  exact apart.of_map _

/-! ### Runs -/

theorem mem_keys_merged {rows : List LegacyPayloadRow} {migratedAt : String} {key : String} :
    key ∈ (merged rows migratedAt held).map (·.1) ↔ key ∈ held.map (·.1) ∨ key ∈ rows.map (·.rowKey) := by
  unfold merged
  induction rows generalizing held with
  | nil => simp
  | cons row rest ih => rw [List.foldl_cons, ih, mem_keys_assign, List.map_cons, List.mem_cons, or_comm (a := key = row.rowKey), or_assoc]

theorem Holds.apply (injective : Function.Injective outside.sha256) (reads : ∀ text, outside.str (.text text) = text)
    {legacy : Legacy} {stamp : Stamp} (ready : Holds held runIds (initSchema objects)) (valid : legacy.invalid = [])
    (keyed : Keyed outside.sha256 legacy.rows) (apart : (legacy.rows.map (·.rowKey)).Nodup) (fresh : stamp.runId ∉ runIds) :
    ∃ after matched, applyStoreV2Migration outside legacy stamp objects = .ok (after, matched) ∧
      Holds (merged legacy.rows stamp.migratedAt held) (stamp.runId :: runIds) after ∧
      (matched = true ↔ ∀ key ∈ held.map (·.1), key ∈ legacy.rows.map (·.rowKey)) ∧
      (matched = true ↔ (tableEntries outside after "project_name" payloadsTable).Perm (legacy.rows.map (·.entry))) := by
  obtain ⟨loaded, run, filled⟩ := ready.load legacy.rows stamp.migratedAt
  have perm := merged_perm apart ready.once stamp.migratedAt
  have same := logicalChecksum_eq_iff injective perm (identities_nodup keyed apart)
  rw [← filled.entries reads] at same perm
  obtain ⟨after, recorded, holds⟩ := filled.record fresh
    [("project_name", .null), ("migrated_at", .text stamp.migratedAt), ("row_count", .integer legacy.rows.length),
      ("before_checksum", .text (logicalChecksum outside (legacy.rows.map (·.entry)))),
      ("after_checksum", .text (logicalChecksum outside (tableEntries outside loaded "project_name" payloadsTable))),
      ("checksum_match", .integer (if logicalChecksum outside (legacy.rows.map (·.entry)) =
        logicalChecksum outside (tableEntries outside loaded "project_name" payloadsTable) then 1 else 0))]
    (fun rows => by simp [TableObject.takes, runColumns])
  refine ⟨after, decide (logicalChecksum outside (legacy.rows.map (·.entry)) =
    logicalChecksum outside (tableEntries outside loaded "project_name" payloadsTable)), ?_, holds, ?_, ?_⟩
  · unfold applyStoreV2Migration
    dsimp only
    rw [if_neg (not_not.mpr valid), run, ok_bind, recorded, ok_bind]
    rfl
  · rw [decide_eq_true_eq, same, List.map_eq_nil_iff, stale, List.filter_eq_nil_iff, List.forall_mem_map]
    exact forall₂_congr fun payload _ => by rw [decide_eq_true_eq, not_not]
  · have still : tableEntries outside after "project_name" payloadsTable = tableEntries outside loaded "project_name" payloadsTable := by
      rw [holds.entries reads, filled.entries reads]
    rw [decide_eq_true_eq, same, still]
    refine ⟨fun none => ?_, fun alike => ?_⟩
    · rw [none] at perm
      exact perm
    · have sizes := (perm.symm.trans alike).length_eq
      rw [List.length_append] at sizes
      exact List.length_eq_zero_iff.mp (by omega)

variable (outside) (containerRepr : PyValue → String)

/-- `apply_store_v2_migration` on one legacy store after the other: the database and the report of each run. -/
def applyRuns : List (List LegacyFile × Stamp) → Objects → Except Failure (List (Objects × Bool))
  | [], _ => pure []
  | (files, stamp) :: rest, objects => do
    let done ← applyStoreV2Migration outside (scanLegacyPayloads outside.sha256 containerRepr files) stamp objects
    let results ← applyRuns rest done.1
    pure (done :: results)

def legacyRows (files : List LegacyFile) : List LegacyPayloadRow := (scanLegacyPayloads outside.sha256 containerRepr files).rows

def legacyKeys (files : List LegacyFile) : List String := (legacyRows outside containerRepr files).map (·.rowKey)

/-- The table that a run verified has the entries of its legacy store, or the run reported a mismatch. -/
def Represents (run : List LegacyFile × Stamp) (result : Objects × Bool) : Prop :=
  result.2 = true ↔ (tableEntries outside result.1 "project_name" payloadsTable).Perm
    ((legacyRows outside containerRepr run.1).map (·.entry))

variable {outside containerRepr}

theorem Holds.applyRuns (injective : Function.Injective outside.sha256) (reads : ∀ text, outside.str (.text text) = text)
    {runs : List (List LegacyFile × Stamp)} (valid : ∀ run ∈ runs, ∀ file ∈ run.1, file.payload.isSome)
    (apart : ∀ run ∈ runs, (legacyKeys outside containerRepr run.1).Nodup) (ids : (runs.map (·.2.runId)).Nodup)
    (others : ∀ run ∈ runs, run.2.runId ∉ runIds) (ready : Holds held runIds (initSchema objects)) :
    ∃ results, applyRuns outside containerRepr runs objects = .ok results ∧
      List.Forall₂ (Represents outside containerRepr) runs results ∧
      ((∀ result ∈ results, result.2 = true) ↔
        (∀ run ∈ runs, ∀ key ∈ held.map (·.1), key ∈ legacyKeys outside containerRepr run.1) ∧
        runs.Pairwise fun earlier later =>
          ∀ key ∈ legacyKeys outside containerRepr earlier.1, key ∈ legacyKeys outside containerRepr later.1) := by
  induction runs generalizing held runIds objects with
  | nil => exact ⟨[], rfl, .nil, by simp⟩
  | cons run rest ih =>
    obtain ⟨files, stamp⟩ := run
    obtain ⟨own, later⟩ := List.forall_mem_cons.mp valid
    obtain ⟨once, distinct⟩ := List.forall_mem_cons.mp apart
    obtain ⟨unused, unique⟩ := List.nodup_cons.mp ids
    obtain ⟨free, unseen⟩ := List.forall_mem_cons.mp others
    obtain ⟨after, matched, applied, holds, reported, represents⟩ := ready.apply injective reads (scanLegacyPayloads_valid own)
      (scanLegacyPayloads_keyed files) once free
    have fresh : ∀ run ∈ rest, run.2.runId ∉ stamp.runId :: runIds := by
      intro run member
      rw [List.mem_cons, not_or]
      exact ⟨fun same => unused (List.mem_map.mpr ⟨run, member, same⟩), unseen run member⟩
    obtain ⟨results, ran, all, whole⟩ := ih later distinct unique fresh holds.ready
    refine ⟨(after, matched) :: results, ?_, .cons represents all, ?_⟩
    · rw [Migration.applyRuns, applied, ok_bind, ran, ok_bind]
      rfl
    · rw [List.forall_mem_cons, whole, reported, List.forall_mem_cons, List.pairwise_cons]
      simp only [mem_keys_merged, or_imp, forall_and]
      unfold legacyKeys legacyRows
      tauto

/-- Runs on one database all match if no store lacks a key of an earlier one, and a run that matches has verified
the entries of its own store.
-/
theorem reruns_match_iff (injective : Function.Injective outside.sha256) (reads : ∀ text, outside.str (.text text) = text)
    {runs : List (List LegacyFile × Stamp)} (valid : ∀ run ∈ runs, ∀ file ∈ run.1, file.payload.isSome)
    (apart : ∀ run ∈ runs, (legacyKeys outside containerRepr run.1).Nodup) (ids : (runs.map (·.2.runId)).Nodup) {start : Objects}
    (noPayloads : start.tables.get? payloadsTable = none) (noRuns : start.tables.get? runsTable = none) :
    ∃ results, applyRuns outside containerRepr runs start = .ok results ∧
      List.Forall₂ (Represents outside containerRepr) runs results ∧
      ((∀ result ∈ results, result.2 = true) ↔ runs.Pairwise fun earlier later =>
        ∀ key ∈ legacyKeys outside containerRepr earlier.1, key ∈ legacyKeys outside containerRepr later.1) := by
  obtain ⟨results, ran, all, whole⟩ := Holds.applyRuns injective reads valid apart ids
    (fun _ _ => List.not_mem_nil) (initSchema_fresh noPayloads noRuns)
  refine ⟨results, ran, all, whole.trans (and_iff_right ?_)⟩
  exact fun _ _ _ none => absurd none List.not_mem_nil

/-! ### Files added and edited, and a file taken out -/

def observationFile (payload : List (String × JsonValue)) : LegacyFile := ⟨"observations", "o1", "verbatim/o1.json", some payload, 2⟩

def ruleFile : LegacyFile := ⟨"confirmed_rules", "r1", "structured/confirmed_rules/r1.json", some [("id", .str "r1")], 12⟩

def growingRuns : List (List LegacyFile × Stamp) :=
  [([observationFile []], ⟨"t1", "r1"⟩), ([observationFile [("text", .str "new")], ruleFile], ⟨"t2", "r2"⟩)]

theorem growing_keys : ∀ run ∈ growingRuns, (legacyKeys Attempt.sampleOutside (fun _ => "") run.1).Nodup := by decide

theorem growing_pairwise : growingRuns.Pairwise fun earlier later => ∀ key ∈ legacyKeys Attempt.sampleOutside (fun _ => "") earlier.1,
    key ∈ legacyKeys Attempt.sampleOutside (fun _ => "") later.1 := by decide

theorem reruns_match_growing : ∃ results, applyRuns Attempt.sampleOutside (fun _ => "") growingRuns .empty = .ok results ∧
    ∀ result ∈ results, result.2 = true := by
  obtain ⟨results, ran, _, whole⟩ := @reruns_match_iff Attempt.sampleOutside (fun _ => "") Function.injective_id (fun _ => rfl) growingRuns
    (by decide) growing_keys (by decide +kernel) .empty rfl rfl
  exact ⟨results, ran, whole.mpr growing_pairwise⟩

/-- The second run finds the row of the first one, and reports a mismatch for a store without files. -/
theorem reruns_mismatch_removed : (applyRuns Attempt.sampleOutside (fun _ => "")
    [([observationFile []], ⟨"t1", "r1"⟩), ([], ⟨"t2", "r2"⟩)] .empty).toOption.map (·.map (·.2)) = some [true, false] := by
  decide +kernel

end HarnessMem.Migration
