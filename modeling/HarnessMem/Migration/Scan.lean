import HarnessMem.Library.JsonAccess
import HarnessMem.Migration.Import
import Mathlib.Data.Prod.Lex

/-! The scan of the legacy store: one row for every JSON file, under a key of its identity. -/

set_option autoImplicit false

namespace HarnessMem.Migration

open HarnessMem.Library JsonValue

/-- A `.json` file of a collection, with the object that `json.loads` reads from it. -/
structure LegacyFile where
  collection : String
  stem : String
  relpath : String
  payload : Option (List (String × JsonValue))
  sizeBytes : Nat

section scan

variable (sha256 : String → String) (containerRepr : PyValue → String)

def filledText (value : Option JsonValue) : Option String := (value.bind asStr?).filter (· ≠ "")

def payloadProjectName (payload : List (String × JsonValue)) : Option String :=
  (filledText (member? payload "project_name")).or
    (match member? payload "metadata" with
      | some (.obj metadata) => filledText (member? metadata "project_name")
      | _ => none)

/-- `str(payload.get("id") or path.stem)`. -/
def payloadEntityId (payload : List (String × JsonValue)) (stem : String) : String :=
  match (member? payload "id").filter JsonValue.truthy with
  | some id => id.pyStr containerRepr
  | none => stem

def stableJson (payload : List (String × JsonValue)) : String := String.ofList ((obj payload).sortKeys.dumps true)

/-- What `_row_key` takes the digest of. -/
def Identity.keyText (identity : Identity) : String :=
  identity.collection ++ "\x00" ++ identity.project ++ "\x00" ++ identity.entityId

def rowKey (collection : String) (projectName : Option String) (entityId : String) : String :=
  sha256 (Identity.keyText ⟨collection, projectName.getD "", entityId⟩)

def legacyRow (file : LegacyFile) (payload : List (String × JsonValue)) : LegacyPayloadRow where
  rowKey := rowKey sha256 file.collection (payloadProjectName payload) (payloadEntityId containerRepr payload file.stem)
  collection := file.collection
  entityId := payloadEntityId containerRepr payload file.stem
  projectName := payloadProjectName payload
  sourceRelpath := file.relpath
  payloadJson := stableJson payload
  payloadSha256 := sha256 (stableJson payload)
  sizeBytes := file.sizeBytes

/-- `scan_legacy_payloads` over all projects, with the files in the order of `_legacy_json_paths`. -/
def scanLegacyPayloads (files : List LegacyFile) : Legacy where
  rows := (files.filterMap fun file => file.payload.map (legacyRow sha256 containerRepr file)).insertionSort
    fun first second => first.entry.1.before second.entry.1
  invalid := (files.filter (·.payload.isNone)).map (·.relpath)

end scan

/-! ### Keys -/

def Keyed (sha256 : String → String) (rows : List LegacyPayloadRow) : Prop :=
  ∀ row ∈ rows, row.rowKey = sha256 row.entry.1.keyText

variable {sha256 : String → String} {containerRepr : PyValue → String}

theorem scanLegacyPayloads_keyed (files : List LegacyFile) : Keyed sha256 (scanLegacyPayloads sha256 containerRepr files).rows := by
  intro row member
  unfold scanLegacyPayloads at member
  rw [List.mem_insertionSort, List.mem_filterMap] at member
  obtain ⟨file, _, made⟩ := member
  obtain ⟨payload, _, rfl⟩ := Option.map_eq_some_iff.mp made
  rfl

theorem scanLegacyPayloads_valid {files : List LegacyFile} (valid : ∀ file ∈ files, file.payload.isSome) :
    (scanLegacyPayloads sha256 containerRepr files).invalid = [] := by
  unfold scanLegacyPayloads
  rw [List.map_eq_nil_iff, List.filter_eq_nil_iff]
  intro file member none
  rw [Option.isNone_iff_eq_none] at none
  have some := valid file member
  rw [none] at some
  cases some

namespace Identity

theorem keyText_injective {first second : Identity} (named : '\x00' ∉ first.collection.toList ∧ '\x00' ∉ second.collection.toList)
    (plain : '\x00' ∉ first.project.toList ∧ '\x00' ∉ second.project.toList) (same : first.keyText = second.keyText) :
    first = second := by
  have cut : ∀ {left right more rest : List Char}, '\x00' ∉ left → '\x00' ∉ right → left ++ '\x00' :: more = right ++ '\x00' :: rest →
      left = right ∧ more = rest := by
    intro left right more rest here there joined
    rcases List.append_eq_append_iff.mp joined with ⟨_ | ⟨c, between⟩, shape, tail⟩ | ⟨_ | ⟨c, between⟩, shape, tail⟩
    · rw [List.append_nil] at shape
      exact ⟨shape.symm, (List.cons.inj tail).2⟩
    · rw [shape, (List.cons.inj tail).1] at there
      exact absurd (List.mem_append_right _ List.mem_cons_self) there
    · rw [List.append_nil] at shape
      exact ⟨shape, (List.cons.inj tail).2.symm⟩
    · rw [shape, (List.cons.inj tail).1] at here
      exact absurd (List.mem_append_right _ List.mem_cons_self) here
  have zero : "\x00".toList = ['\x00'] := by decide
  have spelled := congrArg String.toList same
  simp only [keyText, String.toList_append, zero, List.append_assoc, List.singleton_append] at spelled
  obtain ⟨collection, spelled⟩ := cut named.1 named.2 spelled
  obtain ⟨project, entityId⟩ := cut plain.1 plain.2 spelled
  cases first
  cases second
  rw [Identity.mk.injEq]
  exact ⟨String.toList_injective collection, String.toList_injective project, String.toList_injective entityId⟩

def rank (identity : Identity) : String ×ₗ String ×ₗ String :=
  toLex (identity.collection, toLex (identity.project, identity.entityId))

theorem rank_injective : Function.Injective rank := by
  intro first second same
  cases first
  cases second
  simpa [rank] using same

theorem before_iff {first second : Identity} : first.before second ↔ first.rank ≤ second.rank := by
  simp only [before, rank, Prod.Lex.toLex_le_toLex]
  rcases lt_trichotomy first.collection second.collection with lower | level | higher
  · rw [compare_lt_iff_lt.mpr lower]
    simp [lower]
  · rw [compare_eq_iff_eq.mpr level]
    rcases lt_trichotomy first.project second.project with lower | same | higher
    · rw [compare_lt_iff_lt.mpr lower]
      simp [level, lower]
    · rw [compare_eq_iff_eq.mpr same]
      simp [level, same, ← compare_le_iff_le]
    · rw [compare_gt_iff_gt.mpr higher]
      simp [level, higher.ne', higher.not_gt]
  · rw [compare_gt_iff_gt.mpr higher]
    simp [higher.ne', higher.not_gt]

end Identity

theorem sorted_perm {entries others : List Entry} (perm : entries.Perm others) (distinct : (entries.map (·.1)).Nodup) :
    entries.insertionSort (fun first second => first.1.before second.1) =
      others.insertionSort fun first second => first.1.before second.1 := by
  have total : Std.Total fun first second : Entry => first.1.before second.1 :=
    ⟨fun first second => by rw [Identity.before_iff, Identity.before_iff]; exact le_total _ _⟩
  have trans : IsTrans Entry fun first second => first.1.before second.1 :=
    ⟨fun _ _ _ one two => Identity.before_iff.mpr ((Identity.before_iff.mp one).trans (Identity.before_iff.mp two))⟩
  have sorted := List.perm_insertionSort (fun first second : Entry => first.1.before second.1) entries
  have other := List.perm_insertionSort (fun first second : Entry => first.1.before second.1) others
  apply List.Perm.eq_of_pairwise _ (List.pairwise_insertionSort _ entries) (List.pairwise_insertionSort _ others)
    (sorted.trans (perm.trans other.symm))
  intro one two here there below above
  have same := Identity.rank_injective (le_antisymm (Identity.before_iff.mp below) (Identity.before_iff.mp above))
  exact List.inj_on_of_nodup_map distinct (sorted.mem_iff.mp here) (perm.mem_iff.mpr (other.mem_iff.mp there)) same

theorem Keyed.keys_nodup {rows : List LegacyPayloadRow} (keyed : Keyed sha256 rows) (injective : Function.Injective sha256)
    (named : ∀ row ∈ rows, '\x00' ∉ row.entry.1.collection.toList) (plain : ∀ row ∈ rows, '\x00' ∉ row.entry.1.project.toList)
    (distinct : (rows.map fun row => row.entry.1).Nodup) : (rows.map (·.rowKey)).Nodup := by
  have apart := (List.nodup_map_iff_inj_on (List.Nodup.of_map _ distinct)).mp distinct
  refine (List.nodup_map_iff_inj_on (List.Nodup.of_map _ distinct)).mpr fun first here second there same => ?_
  rw [keyed first here, keyed second there] at same
  exact apart first here second there (Identity.keyText_injective ⟨named first here, named second there⟩
    ⟨plain first here, plain second there⟩ (injective same))

theorem scan_perm {files others : List LegacyFile} (perm : files.Perm others)
    (distinct : ((scanLegacyPayloads sha256 containerRepr files).rows.map fun row => row.entry.1).Nodup) :
    (scanLegacyPayloads sha256 containerRepr files).rows = (scanLegacyPayloads sha256 containerRepr others).rows := by
  unfold scanLegacyPayloads at distinct ⊢
  set rows := files.filterMap fun file => file.payload.map (legacyRow sha256 containerRepr file)
  have read := perm.filterMap fun file => file.payload.map (legacyRow sha256 containerRepr file)
  have total : Std.Total fun first second : LegacyPayloadRow => first.entry.1.before second.entry.1 :=
    ⟨fun _ _ => by rw [Identity.before_iff, Identity.before_iff]; exact le_total _ _⟩
  have trans : IsTrans LegacyPayloadRow fun first second => first.entry.1.before second.entry.1 :=
    ⟨fun _ _ _ one two => Identity.before_iff.mpr ((Identity.before_iff.mp one).trans (Identity.before_iff.mp two))⟩
  have sorted := List.perm_insertionSort (fun first second : LegacyPayloadRow => first.entry.1.before second.entry.1) rows
  have other := List.perm_insertionSort (fun first second : LegacyPayloadRow => first.entry.1.before second.entry.1)
    (others.filterMap fun file => file.payload.map (legacyRow sha256 containerRepr file))
  apply List.Perm.eq_of_pairwise _ (List.pairwise_insertionSort _ _) (List.pairwise_insertionSort _ _)
    (sorted.trans (read.trans other.symm))
  intro one two here there below above
  have same := Identity.rank_injective (le_antisymm (Identity.before_iff.mp below) (Identity.before_iff.mp above))
  exact List.inj_on_of_nodup_map distinct here (sorted.mem_iff.mpr (read.mem_iff.mpr (other.mem_iff.mp there))) same

/-- Where no collection or project holds the separator, the keys of a scan are as distinct as the identities in it, and
where those are distinct, the order the files are found in does not show. -/
theorem scan_tells_identities (injective : Function.Injective sha256) (files : List LegacyFile)
    (plain : ∀ row ∈ (scanLegacyPayloads sha256 containerRepr files).rows,
      '\x00' ∉ row.entry.1.collection.toList ∧ '\x00' ∉ row.entry.1.project.toList) :
    (((scanLegacyPayloads sha256 containerRepr files).rows.map (·.rowKey)).Nodup ↔
      ((scanLegacyPayloads sha256 containerRepr files).rows.map fun row => row.entry.1).Nodup) ∧
    (((scanLegacyPayloads sha256 containerRepr files).rows.map fun row => row.entry.1).Nodup → ∀ others : List LegacyFile,
      files.Perm others →
        (scanLegacyPayloads sha256 containerRepr files).rows = (scanLegacyPayloads sha256 containerRepr others).rows) := by
  have keyed : Keyed sha256 (scanLegacyPayloads sha256 containerRepr files).rows := scanLegacyPayloads_keyed files
  refine ⟨⟨fun apart => ?_, ?_⟩, fun distinct others perm => scan_perm perm distinct⟩
  · refine (List.nodup_map_iff_inj_on (List.Nodup.of_map _ apart)).mpr fun first here second there same => ?_
    refine List.inj_on_of_nodup_map apart here there ?_
    rw [keyed first here, keyed second there, same]
  · exact keyed.keys_nodup injective (fun row member => (plain row member).1) fun row member => (plain row member).2

theorem scan_tells_two :
    let files : List LegacyFile := [⟨"truths", "b", "truths/b.json", some [], 2⟩, ⟨"truths", "a", "truths/a.json", some [], 2⟩]
    (scanLegacyPayloads id (fun _ => "") files).rows = (scanLegacyPayloads id (fun _ => "") files.reverse).rows :=
  (scan_tells_identities Function.injective_id _ (by decide)).2 (by decide) _ (List.reverse_perm _).symm

end HarnessMem.Migration
