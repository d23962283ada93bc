import HarnessMem.Canonical.Normalization
import HarnessMem.Schemas.Knowledge

/-! The payloads of knowledge rows. Different entries and sources have different digests. -/

set_option autoImplicit false

namespace HarnessMem.Knowledge

open Library Canonical

/-- The text of an instant, `datetime.isoformat`. -/
structure Isoformat where
  text : Time → String
  text_injective : Function.Injective text

variable (iso : Isoformat)

/-- `SourceReport.model_dump(mode="json")`. -/
def reportDict (report : SourceReport) : PyDict :=
  [("speaker", .str report.speaker.value), ("period", .str report.period.text),
    ("session_id", .str report.sessionId.text), ("source_id", .str report.sourceId.text),
    ("source_revision", .str report.sourceRevision.text),
    ("exchange_indexes", .list (report.exchangeIndexes.map fun index : Nat => .int (index : Int))), ("text", .str report.text.text)]

/-- `KnowledgeEntry.to_dict`. -/
def entryDict (entry : KnowledgeEntry) : PyDict :=
  [("id", .str entry.id), ("project_name", .str entry.projectName.text),
    ("module_path", .list (entry.modulePath.map fun part => .str part.text)), ("title", .str entry.title.text),
    ("statement", .str entry.statement.text),
    ("verified_at", (entry.verifiedAt.map fun time => PyValue.str (iso.text time)).getD .none),
    ("created_at", .str (iso.text entry.createdAt)), ("updated_at", .str (iso.text entry.updatedAt))] ++
  match entry.sourceReport with
  | some report => [("source_report", .dict (reportDict report))]
  | none => []

/-- `KnowledgeSource.to_dict`. -/
def sourceDict (source : KnowledgeSource) : PyDict :=
  [("id", .str source.id), ("knowledge_id", .str source.knowledgeId.text),
    ("project_name", .str source.projectName.text), ("source_kind", .str source.sourceKind.text),
    ("locator", .str source.locator.text),
    ("content_sha256", (source.contentSha256.map fun digest => PyValue.str digest.text).getD .none),
    ("verified_at", .str (iso.text source.verifiedAt))]

inductive KnowledgePayload where
  | entry (entry : KnowledgeEntry)
  | source (source : KnowledgeSource)
  deriving DecidableEq

namespace KnowledgePayload

def dict : KnowledgePayload → PyDict
  | entry value => entryDict iso value
  | source value => sourceDict iso value

def id : KnowledgePayload → String
  | entry value => value.id
  | source value => value.id

def projectName : KnowledgePayload → SingleLine
  | entry value => value.projectName
  | source value => value.projectName

end KnowledgePayload

def KnowledgePayload.freeze (payload : KnowledgePayload) : FrozenPayload := .freeze (payload.dict iso)

def knowledgeCodec (columns : Collection → PyDict → Except CanonicalError DerivedColumns) :
    PayloadCodec KnowledgePayload :=
  (payloadCodec columns).along (KnowledgePayload.freeze iso)

/-! ### Different payloads are stored differently -/

theorem toJsonFields_eq (fields : PyDict) :
    PyValue.toJsonFields fields = fields.map fun field => (field.1, field.2.toJson) := by
  induction fields with
  | nil => rfl
  | cons field fields ih => rw [PyValue.toJsonFields, ih, List.map_cons]

theorem toJsonItems_eq (items : List PyValue) : PyValue.toJsonItems items = items.map PyValue.toJson := by
  induction items with
  | nil => rfl
  | cons item items ih => rw [PyValue.toJsonItems, ih, List.map_cons]

theorem mem_freeze {fields : PyDict} (distinct : (fields.map (·.1)).Nodup) (key : String) (value : JsonValue) :
    (key, value) ∈ (FrozenPayload.freeze fields).fields ↔
      ∃ given, (key, given) ∈ fields ∧ given.toJson.sortKeys = value := by
  have keys : ((([] : List (String × JsonValue)) ++ PyValue.toJsonFields fields).map (·.1)).Nodup := by
    rw [List.nil_append, toJsonFields_eq, List.map_map]
    exact distinct
  rw [FrozenPayload.freeze, List.mem_insertionSort, foldl_setField [] keys, List.nil_append,
    JsonValue.sortKeysFields_eq, toJsonFields_eq]
  simp only [List.map_map, List.mem_map, Function.comp_apply, Prod.mk.injEq]
  constructor
  · rintro ⟨⟨_, given⟩, member, rfl, rfl⟩
    exact ⟨given, member, rfl⟩
  · rintro ⟨given, member, rfl⟩
    exact ⟨(key, given), member, rfl, rfl⟩

theorem freeze_agrees {first second : PyDict} (left : (first.map (·.1)).Nodup) (right : (second.map (·.1)).Nodup)
    (same : FrozenPayload.freeze first = FrozenPayload.freeze second) {key : String} {value : PyValue}
    (member : (key, value) ∈ first) : ∃ other, (key, other) ∈ second ∧ other.toJson.sortKeys = value.toJson.sortKeys := by
  have stored := (mem_freeze left key value.toJson.sortKeys).mpr ⟨value, member, rfl⟩
  rw [same] at stored
  exact (mem_freeze right key _).mp stored

theorem freeze_agrees_at {first second : PyDict} (left : (first.map (·.1)).Nodup) (right : (second.map (·.1)).Nodup)
    (same : FrozenPayload.freeze first = FrozenPayload.freeze second) (key : String) {value other : PyValue}
    (member : (key, value) ∈ first) (found : (key, other) ∈ second) : value.toJson.sortKeys = other.toJson.sortKeys := by
  obtain ⟨held, inside, equal⟩ := freeze_agrees left right same member
  have one := List.inj_on_of_nodup_map right inside found rfl
  rw [← equal, (Prod.mk.inj one).2]

theorem reportDict_keys (report : SourceReport) : ((reportDict report).map (·.1)).Nodup := by
  simp [reportDict]

theorem entryDict_keys (entry : KnowledgeEntry) : ((entryDict iso entry).map (·.1)).Nodup := by
  unfold entryDict
  cases entry.sourceReport <;> simp

theorem sourceDict_keys (source : KnowledgeSource) : ((sourceDict iso source).map (·.1)).Nodup := by
  simp [sourceDict]

/-! ### The readings of the codec -/

theorem ofJsonFields_eq (fields : List (String × JsonValue)) :
    PyValue.ofJsonFields fields = fields.map fun field => (field.1, PyValue.ofJson field.2) := by
  induction fields with
  | nil => rfl
  | cons field fields ih => rw [PyValue.ofJsonFields, ih, List.map_cons]

theorem get?_of_mem {fields : PyDict} (distinct : (fields.map (·.1)).Nodup) {key : String} {value : PyValue}
    (member : (key, value) ∈ fields) : fields.get? key = some value := by
  unfold PyDict.get?
  cases found : fields.reverse.find? fun field => field.1 = key with
  | none => simpa using List.find?_eq_none.mp found (key, value) (List.mem_reverse.mpr member)
  | some other =>
    have named : other.1 = key := by simpa using List.find?_some found
    rw [List.inj_on_of_nodup_map distinct (List.mem_reverse.mp (List.mem_of_find?_eq_some found)) member named]
    rfl

theorem freeze_get? {fields : PyDict} (distinct : (fields.map (·.1)).Nodup) {key text : String}
    (member : (key, .str text) ∈ fields) : (FrozenPayload.freeze fields).toPy.get? key = some (.str text) := by
  have stored := (mem_freeze distinct key (.str text)).mpr ⟨.str text, member, rfl⟩
  have keys : ((FrozenPayload.freeze fields).toPy.map (·.1)).Nodup := by
    have whole := (FrozenPayload.freeze fields).distinct
    rw [JsonValue.distinct, Bool.and_eq_true, decide_eq_true_eq] at whole
    rw [FrozenPayload.toPy, ofJsonFields_eq, List.map_map]
    exact whole.1
  apply get?_of_mem keys
  rw [FrozenPayload.toPy, ofJsonFields_eq]
  exact List.mem_map.mpr ⟨_, stored, rfl⟩

variable {columns : Collection → PyDict → Except CanonicalError DerivedColumns}

theorem knowledgeCodec_projectId (payload : KnowledgePayload) :
    (knowledgeCodec iso columns).projectId payload = some payload.projectName.text := by
  have found : (payload.freeze iso).toPy.get? "project_name" = some (.str payload.projectName.text) := by
    cases payload with
    | entry entry => exact freeze_get? (entryDict_keys iso entry) (by simp [entryDict, KnowledgePayload.projectName])
    | source source => exact freeze_get? (sourceDict_keys iso source) (by simp [sourceDict, KnowledgePayload.projectName])
  have filled := payload.projectName.filled
  change payloadProjectId (payload.freeze iso).toPy = _
  simp [payloadProjectId, PyDict.get, found, filled]

end HarnessMem.Knowledge
