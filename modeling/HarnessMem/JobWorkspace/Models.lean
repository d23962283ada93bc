import HarnessMem.JobWorkspace.Files
import HarnessMem.Knowledge.Payloads
import HarnessMem.Library.Calendar
import HarnessMem.Library.JsonAccess
import HarnessMem.Library.Lists
import HarnessMem.Library.Results
import HarnessMem.Staging.Points

/-! The candidate and evidence models: the dictionaries they are written as, and what
their schemas make of a dictionary that is read. A candidate is written as it is, also
where a value was assigned that its schema refuses.
-/

set_option autoImplicit false

namespace HarnessMem.JobWorkspace

open Library Canonical
open Review (EvidenceBasis)
open Staging (EvidenceRef EvidenceRole VerificationOutcome)

/-! ### Fields of a model -/

/-- What the schema library makes of values: a date field given something that is no text, an integer field
given any value, a new identifier, and the present moment. -/
structure Schemas where
  timestamp : JsonValue → Option DateTime
  laxInt : JsonValue → Option Int
  laxInt_int : ∀ n : Int, laxInt (.int n) = some n
  freshId : String
  now : DateTime

variable (schemas : Schemas)

def field {α : Type} (fields : List (String × JsonValue)) (key : String) (missing : Option α)
    (read : JsonValue → Option α) : Option α :=
  match member? fields key with
  | none => missing
  | some value => read value

/-- A field that may be `None`. -/
def nullable {α : Type} (read : JsonValue → Option α) : JsonValue → Option (Option α)
  | .null => some none
  | value => (read value).map some

/-- A `Literal`. -/
def literal? {α : Type} (values : List (String × α)) : JsonValue → Option α
  | .str text => (values.find? fun known => known.1 = text).map (·.2)
  | _ => none

/-- `list[...]`. -/
def list? {α : Type} (read : JsonValue → Option α) : JsonValue → Option (List α)
  | .arr items => items.mapM read
  | _ => none

/-- `dict[str, Any]`. -/
def dict? : JsonValue → Option FrozenPayload
  | .obj fields => some (.freeze (PyValue.ofJsonFields fields))
  | _ => none

/-- A date field after `_deserialize_datetimes`. -/
def datetime? : JsonValue → Option DateTime
  | .str text => DateTime.fromisoformat text.toList
  | value => schemas.timestamp value

def index? (least : Nat) (value : JsonValue) : Option Nat :=
  match schemas.laxInt value with
  | some (.ofNat index) => if least ≤ index then some index else none
  | _ => none

def forbidsExtra (known : List String) (fields : List (String × JsonValue)) : Bool :=
  fields.all fun field => field.1 ∈ known

def nameIn {α : Type} [DecidableEq α] (values : List (String × α)) (value : α) : String :=
  ((values.find? fun known => known.2 = value).map (·.1)).getD ""

def speakers : List (String × Speaker) := [("user", .user), ("assistant", .assistant)]

def candidateTypes : List (String × CandidateType) := [("memory", .memory), ("rule", .rule), ("relation", .relation)]

def statuses : List (String × CandidateStatus) :=
  [("pending", .pending), ("deferred", .deferred), ("conflict", .conflict), ("rejected", .rejected),
    ("assimilated", .assimilated)]

/-! ### Source reports -/

/-- `SourceReport.single_line`. -/
def reportLine? : JsonValue → Option SingleLine
  | .str text => if '\n' ∈ text.toList ∨ '\r' ∈ text.toList then none else SingleLine.ofText? text
  | _ => none

/-- `SourceReport.valid_exchanges`. -/
def exchanges? (value : JsonValue) : Option (List Nat) := do
  let indexes ← list? (index? schemas 1) value
  if indexes.Nodup then some (indexes.insertionSort (· ≤ ·)) else none

def SourceReport.make? (speaker : Speaker) (period sessionId sourceId sourceRevision : SingleLine) (indexes : List Nat)
    (text : SingleLine) : Option SourceReport :=
  if cited : indexes ≠ [] ∧ (∀ index ∈ indexes, 1 ≤ index) ∧ indexes.Pairwise (· < ·) then
    some { speaker, period, sessionId, sourceId, sourceRevision, exchangeIndexes := indexes, text, cited }
  else none

def reportKeys : List String :=
  ["speaker", "period", "session_id", "source_id", "source_revision", "exchange_indexes", "text"]

/-- `SourceReport.model_validate`. -/
def report? : JsonValue → Option SourceReport
  | .obj fields => do
    if !forbidsExtra reportKeys fields then none
    let speaker ← field fields "speaker" none (literal? speakers)
    let period ← field fields "period" none reportLine?
    let sessionId ← field fields "session_id" none reportLine?
    let sourceId ← field fields "source_id" none reportLine?
    let sourceRevision ← field fields "source_revision" none reportLine?
    let indexes ← field fields "exchange_indexes" none (exchanges? schemas)
    let text ← field fields "text" none reportLine?
    SourceReport.make? speaker period sessionId sourceId sourceRevision indexes text
  | _ => none

/-! ### Candidates -/

/-- The fields of `KnowledgeCandidate` but those the workspace looks at. The disposition, the reason and the
title are what was assigned. -/
structure Proposal where
  candidateType : CandidateType
  statement : String
  sourceReport : Option SourceReport := none
  assimilationDisposition : PyValue := .none
  assimilationReason : PyValue := .none
  assimilationTargetIds : List String := []
  assimilationTargets : List FrozenPayload := []
  canonicalTitle : PyValue := .none
  topicPath : List String := []
  createdAt : DateTime
  updatedAt : DateTime
  filled : statement ≠ ""

/-- `KnowledgeCandidate.to_dict`. -/
def candidateDict (candidate : Candidate Proposal) : PyDict :=
  [("id", .str candidate.id), ("project_name", .str candidate.projectName),
    ("candidate_type", .str (nameIn candidateTypes candidate.fields.candidateType)),
    ("statement", .str candidate.fields.statement), ("status", .str (nameIn statuses candidate.status)),
    ("assimilation_disposition", candidate.fields.assimilationDisposition),
    ("assimilation_reason", candidate.fields.assimilationReason),
    ("assimilation_target_ids", .list (candidate.fields.assimilationTargetIds.map .str)),
    ("assimilation_targets", .list (candidate.fields.assimilationTargets.map fun target => .dict target.toPy)),
    ("canonical_title", candidate.fields.canonicalTitle), ("topic_path", .list (candidate.fields.topicPath.map .str)),
    ("created_at", .str (String.ofList candidate.fields.createdAt.isoformat)),
    ("updated_at", .str (String.ofList candidate.fields.updatedAt.isoformat))] ++
  match candidate.fields.sourceReport with
  | some report => [("source_report", .dict (Knowledge.reportDict report))]
  | none => []

def candidateKeys : List String :=
  ["id", "project_name", "candidate_type", "statement", "source_report", "status", "assimilation_disposition",
    "assimilation_reason", "assimilation_target_ids", "assimilation_targets", "canonical_title", "topic_path",
    "created_at", "updated_at"]

/-- The values of `AssimilationDisposition`, as they are written. -/
def disposition? : JsonValue → Option PyValue
  | .null => some .none
  | .str text => if text ∈ Staging.dispositions then some (.str text) else none
  | _ => none

def optionalText? : JsonValue → Option PyValue
  | .null => some .none
  | .str text => some (.str text)
  | _ => none

/-- `assimilation_target_ids`, where an older record has one `assimilation_target_id`. -/
def targetIds? (containerRepr : PyValue → String) (fields : List (String × JsonValue)) : Option (List String) :=
  match member? fields "assimilation_target_ids" with
  | none =>
    let legacy := stripped ((PyValue.ofJson ((member? fields "assimilation_target_id").getD .null)).orEmpty containerRepr)
    some (if legacy = "" then [] else [legacy])
  | some .null => some []
  | some value => list? JsonValue.asStr? value

def Proposal.make? (candidateType : CandidateType) (statement : String) (sourceReport : Option SourceReport)
    (disposition reason : PyValue) (targetIds : List String) (targets : List FrozenPayload) (title : PyValue)
    (topicPath : List String) (createdAt updatedAt : DateTime) : Option Proposal :=
  if filled : statement ≠ "" then
    some { candidateType, statement, sourceReport, assimilationDisposition := disposition, assimilationReason := reason,
           assimilationTargetIds := targetIds, assimilationTargets := targets, canonicalTitle := title, topicPath,
           createdAt, updatedAt, filled }
  else none

/-- `KnowledgeCandidate.from_dict`. -/
def candidate? (containerRepr : PyValue → String) (fields : List (String × JsonValue)) : Option (Candidate Proposal) := do
  let targetIds ← targetIds? containerRepr fields
  if !forbidsExtra ("assimilation_target_id" :: candidateKeys) fields then none
  let id ← field fields "id" (some schemas.freshId) JsonValue.asStr?
  let projectName ← field fields "project_name" none JsonValue.asStr?
  let candidateType ← field fields "candidate_type" none (literal? candidateTypes)
  let statement ← field fields "statement" none JsonValue.asStr?
  let sourceReport ← field fields "source_report" (some none) (nullable (report? schemas))
  let status ← field fields "status" (some .pending) (literal? statuses)
  let disposition ← field fields "assimilation_disposition" (some .none) disposition?
  let reason ← field fields "assimilation_reason" (some .none) optionalText?
  let targets ← field fields "assimilation_targets" (some []) (list? dict?)
  let title ← field fields "canonical_title" (some .none) optionalText?
  let topicPath ← field fields "topic_path" (some []) (list? JsonValue.asStr?)
  let createdAt ← field fields "created_at" (some schemas.now) (datetime? schemas)
  let updatedAt ← field fields "updated_at" (some schemas.now) (datetime? schemas)
  let proposal ← Proposal.make? candidateType statement sourceReport disposition reason targetIds targets title topicPath
    createdAt updatedAt
  return { id, projectName, status, fields := proposal }

/-! ### Evidence -/

/-- A reference as `EvidenceRef` leaves it: exchanges count from one, and a locator has its digest. -/
structure CheckedRef where
  ref : EvidenceRef
  checked : (∀ index ∈ ref.exchangeIndex, 1 ≤ index) ∧ (ref.locator.getD "" ≠ "" → ref.locatorSha256.getD "" ≠ "")

structure EvidenceFields where
  evidenceBasis : EvidenceBasis
  verificationOutcome : VerificationOutcome
  verificationRefs : List CheckedRef := []
  verificationReasonCodes : List String := []
  verifiedAt : Option DateTime := none
  createdAt : DateTime

def optional {α : Type} (write : α → PyValue) (value : Option α) : PyValue := (value.map write).getD .none

/-- `EvidenceRef.to_dict`. -/
def refDict (ref : EvidenceRef) : PyDict :=
  [("kind", .str (nameIn Staging.bases ref.kind)), ("locator", optional .str ref.locator),
    ("locator_sha256", optional .str ref.locatorSha256), ("content_sha256", optional .str ref.contentSha256),
    ("exchange_index", optional (fun index : Nat => .int (index : Int)) ref.exchangeIndex),
    ("chunk_index", optional (fun index : Nat => .int (index : Int)) ref.chunkIndex),
    ("role", optional (fun role => .str (nameIn Staging.roles role)) ref.role)]

/-- `KnowledgeEvidence.to_dict`. -/
def evidenceDict (evidence : Evidence EvidenceFields) : PyDict :=
  [("id", .str evidence.id), ("project_name", .str evidence.projectName), ("candidate_id", .str evidence.candidateId),
    ("distill_job_id", optional .str evidence.distillJobId),
    ("evidence_basis", .str (nameIn Staging.bases evidence.fields.evidenceBasis)),
    ("verification_outcome", .str (nameIn Staging.outcomes evidence.fields.verificationOutcome)),
    ("verification_refs", .list (evidence.fields.verificationRefs.map fun ref => .dict (refDict ref.ref))),
    ("verification_reason_codes", .list (evidence.fields.verificationReasonCodes.map .str)),
    ("verified_at", optional (fun time : DateTime => .str (String.ofList time.isoformat)) evidence.fields.verifiedAt),
    ("created_at", .str (String.ofList evidence.fields.createdAt.isoformat))]

def CheckedRef.make? (hashes : Hashes) (ref : EvidenceRef) : Option CheckedRef :=
  let located := ref.locator.getD "" ≠ "" ∧ ref.locatorSha256.getD "" = ""
  let whole := if located then { ref with locatorSha256 := ref.locator.map hashes.sha256Text } else ref
  if checked : (∀ index ∈ whole.exchangeIndex, 1 ≤ index) ∧ (whole.locator.getD "" ≠ "" → whole.locatorSha256.getD "" ≠ "") then
    some ⟨whole, checked⟩
  else none

/-- `EvidenceRef.from_dict` with `model_post_init`. -/
def ref? (hashes : Hashes) : JsonValue → Option CheckedRef
  | .obj fields => do
    if !forbidsExtra Staging.refKeys fields then none
    let kind ← field fields "kind" none (literal? Staging.bases)
    let locator ← field fields "locator" (some none) (nullable JsonValue.asStr?)
    let locatorSha256 ← field fields "locator_sha256" (some none) (nullable JsonValue.asStr?)
    let contentSha256 ← field fields "content_sha256" (some none) (nullable JsonValue.asStr?)
    let exchangeIndex ← field fields "exchange_index" (some none) (nullable (index? schemas 1))
    let chunkIndex ← field fields "chunk_index" (some none) (nullable (index? schemas 0))
    let role ← field fields "role" (some none) (nullable (literal? Staging.roles))
    CheckedRef.make? hashes { kind, locator, locatorSha256, contentSha256, exchangeIndex, chunkIndex, role }
  | _ => none

def evidenceKeys : List String :=
  ["id", "project_name", "candidate_id", "distill_job_id", "evidence_basis", "verification_outcome",
    "verification_refs", "verification_reason_codes", "verified_at", "created_at"]

def refs? (hashes : Hashes) (value : JsonValue) : Option (List CheckedRef) :=
  if value.truthy then list? (ref? schemas hashes) value else some []

/-- `KnowledgeEvidence.from_dict`. -/
def evidence? (hashes : Hashes) (fields : List (String × JsonValue)) : Option (Evidence EvidenceFields) := do
  if !forbidsExtra evidenceKeys fields then none
  let id ← field fields "id" (some schemas.freshId) JsonValue.asStr?
  let projectName ← field fields "project_name" none JsonValue.asStr?
  let candidateId ← field fields "candidate_id" none JsonValue.asStr?
  let distillJobId ← field fields "distill_job_id" (some none) (nullable JsonValue.asStr?)
  let evidenceBasis ← field fields "evidence_basis" none (literal? Staging.bases)
  let verificationOutcome ← field fields "verification_outcome" none (literal? Staging.outcomes)
  let verificationRefs ← field fields "verification_refs" (some []) (refs? schemas hashes)
  let verificationReasonCodes ← field fields "verification_reason_codes" (some []) (list? JsonValue.asStr?)
  let verifiedAt ← field fields "verified_at" (some none) (nullable (datetime? schemas))
  let createdAt ← field fields "created_at" (some schemas.now) (datetime? schemas)
  return { id, projectName, candidateId, distillJobId
           fields := { evidenceBasis, verificationOutcome, verificationRefs, verificationReasonCodes, verifiedAt, createdAt } }

/-! ### What is read of a dictionary that was written -/

theorem freeze_keys (fields : PyDict) : ((FrozenPayload.freeze fields).fields.map (·.1)).Nodup := by
  have whole := (FrozenPayload.freeze fields).distinct
  rw [JsonValue.distinct, Bool.and_eq_true, decide_eq_true_eq] at whole
  exact whole.1

theorem member?_freeze {fields : PyDict} (distinct : (fields.map (·.1)).Nodup) {key : String} {value : PyValue}
    (member : (key, value) ∈ fields) : member? (FrozenPayload.freeze fields).fields key = some value.toJson.sortKeys :=
  member?_of_mem (freeze_keys fields) ((Knowledge.mem_freeze distinct key _).mpr ⟨value, member, rfl⟩)

theorem member?_freeze_missing {fields : PyDict} (distinct : (fields.map (·.1)).Nodup) {key : String}
    (missing : key ∉ fields.map (·.1)) : member? (FrozenPayload.freeze fields).fields key = none := by
  unfold member?
  rw [Option.map_eq_none_iff, List.find?_eq_none]
  intro other member
  obtain ⟨given, inside, _⟩ := (Knowledge.mem_freeze distinct other.1 other.2).mp member
  simp only [decide_eq_true_eq]
  intro named
  exact missing (List.mem_map.mpr ⟨_, inside, named⟩)

theorem field_written {fields : PyDict} (distinct : (fields.map (·.1)).Nodup) (key : String) (value : PyValue)
    (member : (key, value) ∈ fields) {α : Type} {missing : Option α} {read : JsonValue → Option α} {result : Option α}
    (reads : read value.toJson.sortKeys = result) : field (FrozenPayload.freeze fields).fields key missing read = result := by
  unfold field
  rw [member?_freeze distinct member]
  exact reads

theorem forbidsExtra_freeze {fields : PyDict} (distinct : (fields.map (·.1)).Nodup) {known : List String}
    (within : fields.map (·.1) ⊆ known) : forbidsExtra known (FrozenPayload.freeze fields).fields = true := by
  unfold forbidsExtra
  rw [List.all_eq_true]
  intro other member
  obtain ⟨given, inside, _⟩ := (Knowledge.mem_freeze distinct other.1 other.2).mp member
  exact decide_eq_true (within (List.mem_map.mpr ⟨_, inside, rfl⟩))

theorem mapM_of_map {α β : Type} {write : α → β} {read : β → Option α} {values : List α}
    (back : ∀ value ∈ values, read (write value) = some value) : (values.map write).mapM read = some values := by
  induction values with
  | nil => rfl
  | cons value rest ih =>
    obtain ⟨first, later⟩ := List.forall_mem_cons.mp back
    rw [List.map_cons, List.mapM_cons, first, ih later]
    rfl

theorem list?_written {α : Type} {write : α → PyValue} {read : JsonValue → Option α} {values : List α}
    (back : ∀ value ∈ values, read (write value).toJson.sortKeys = some value) :
    list? read (PyValue.list (values.map write)).toJson.sortKeys = some values := by
  rw [PyValue.toJson, JsonValue.sortKeys, Knowledge.toJsonItems_eq, JsonValue.sortKeysItems_eq, List.map_map, List.map_map]
  exact mapM_of_map back

theorem texts_written (texts : List String) :
    list? JsonValue.asStr? (PyValue.list (texts.map .str)).toJson.sortKeys = some texts :=
  list?_written fun _ _ => rfl

theorem optional_written {α : Type} {write : α → PyValue} {read : JsonValue → Option α}
    (filled : ∀ value, (write value).toJson.sortKeys ≠ .null)
    {value : Option α} (back : ∀ inner ∈ value, read (write inner).toJson.sortKeys = some inner) :
    nullable read (optional write value).toJson.sortKeys = some value := by
  cases value with
  | none => rfl
  | some inner =>
    have given : nullable read (write inner).toJson.sortKeys = (read (write inner).toJson.sortKeys).map some := by
      cases shape : (write inner).toJson.sortKeys with
      | null => exact absurd shape (filled inner)
      | bool | int | float | str | arr | obj => rfl
    exact given.trans (congrArg (Option.map some) (back inner rfl))

theorem datetime_written (time : DateTime) : datetime? schemas (.str (String.ofList time.isoformat)) = some time := by
  change DateTime.fromisoformat (String.ofList time.isoformat).toList = some time
  rw [String.toList_ofList]
  exact DateTime.fromisoformat_isoformat time

theorem index_written {least index : Nat} (bound : least ≤ index) : index? schemas least (.int (index : Int)) = some index := by
  unfold index?
  rw [schemas.laxInt_int]
  exact if_pos bound

theorem line_written (line : SingleLine) : reportLine? (.str line.text) = some line := by
  have read : reportLine? (.str line.text) = SingleLine.ofText? line.text := if_neg (not_or.mpr line.unbroken)
  have shape : stripped line.text ≠ "" ∧ '\n' ∉ (stripped line.text).toList ∧ '\r' ∉ (stripped line.text).toList := by
    rw [line.stripped]
    exact ⟨line.filled, line.unbroken⟩
  rw [read]
  exact (dif_pos shape).trans (congrArg some (SingleLine.eq_of_text line.stripped))

theorem indexes_written {indexes : List Nat} (positive : ∀ index ∈ indexes, 1 ≤ index) (sorted : indexes.Pairwise (· < ·)) :
    exchanges? schemas (PyValue.list (indexes.map fun index : Nat => .int (index : Int))).toJson.sortKeys = some indexes := by
  have read : list? (index? schemas 1) (PyValue.list (indexes.map fun index : Nat => .int (index : Int))).toJson.sortKeys =
      some indexes := list?_written fun index member => index_written schemas (positive index member)
  have distinct : indexes.Nodup := sorted.imp fun less => less.ne
  have ordered : indexes.insertionSort (· ≤ ·) = indexes := (sorted.imp fun less => less.le).insertionSort_eq
  unfold exchanges?
  rw [read, Option.bind_eq_bind, Option.bind_some, if_pos distinct, ordered]

theorem speaker_written (speaker : Speaker) : literal? speakers (.str speaker.value) = some speaker := by
  cases speaker with
  | user => decide
  | assistant => decide

theorem sortKeys_dict (fields : PyDict) : (PyValue.dict fields).toJson.sortKeys = .obj (FrozenPayload.freeze fields).fields := rfl

theorem nullable_obj {α : Type} (read : JsonValue → Option α) (fields : List (String × JsonValue)) :
    nullable read (.obj fields) = (read (.obj fields)).map some := rfl

theorem report_written (report : SourceReport) :
    report? schemas (PyValue.dict (Knowledge.reportDict report)).toJson.sortKeys = some report := by
  have distinct := Knowledge.reportDict_keys report
  rw [sortKeys_dict]
  have known : forbidsExtra reportKeys (FrozenPayload.freeze (Knowledge.reportDict report)).fields = true :=
    forbidsExtra_freeze distinct (by simp [Knowledge.reportDict, reportKeys])
  unfold report?
  dsimp only
  rw [known,
    field_written distinct "speaker" (.str report.speaker.value) (by simp [Knowledge.reportDict]) (speaker_written _),
    field_written distinct "period" (.str report.period.text) (by simp [Knowledge.reportDict]) (line_written _),
    field_written distinct "session_id" (.str report.sessionId.text) (by simp [Knowledge.reportDict]) (line_written _),
    field_written distinct "source_id" (.str report.sourceId.text) (by simp [Knowledge.reportDict]) (line_written _),
    field_written distinct "source_revision" (.str report.sourceRevision.text) (by simp [Knowledge.reportDict]) (line_written _),
    field_written distinct "exchange_indexes" (.list (report.exchangeIndexes.map fun index : Nat => .int (index : Int)))
      (by simp [Knowledge.reportDict]) (indexes_written schemas report.cited.2.1 report.cited.2.2),
    field_written distinct "text" (.str report.text.text) (by simp [Knowledge.reportDict]) (line_written _)]
  exact dif_pos report.cited

/-! ### Candidates are read as they were written, or refused -/

theorem candidateDict_keys (candidate : Candidate Proposal) : ((candidateDict candidate).map (·.1)).Nodup := by
  unfold candidateDict
  cases candidate.fields.sourceReport <;> simp

theorem candidateType_written (kind : CandidateType) :
    literal? candidateTypes (.str (nameIn candidateTypes kind)) = some kind := by
  cases kind <;> decide

theorem status_written (status : CandidateStatus) : literal? statuses (.str (nameIn statuses status)) = some status := by
  cases status <;> decide

theorem dict_written (payload : FrozenPayload) : dict? (PyValue.dict payload.toPy).toJson.sortKeys = some payload := by
  have again : (PyValue.dict payload.toPy).toJson = .obj payload.fields := PyValue.toJson_ofJson (.obj payload.fields) payload.distinct
  rw [again, payload.sorted]
  apply congrArg some
  apply FrozenPayload.eq_of_fields
  have frozen := (sortKeys_dict payload.toPy).symm
  rw [again, payload.sorted] at frozen
  exact JsonValue.obj.inj frozen

theorem Proposal.make?_parts (proposal : Proposal) (disposition reason title : PyValue) :
    make? proposal.candidateType proposal.statement proposal.sourceReport disposition reason proposal.assimilationTargetIds
      proposal.assimilationTargets title proposal.topicPath proposal.createdAt proposal.updatedAt =
    some { proposal with assimilationDisposition := disposition, assimilationReason := reason, canonicalTitle := title } :=
  dif_pos proposal.filled

/-- What `from_dict` makes of a candidate that was written: only the values that were assigned can be refused. -/
theorem candidate_written (containerRepr : PyValue → String) (candidate : Candidate Proposal) :
    candidate? schemas containerRepr (FrozenPayload.freeze (candidateDict candidate)).fields =
      (do
        let disposition ← disposition? candidate.fields.assimilationDisposition.toJson.sortKeys
        let reason ← optionalText? candidate.fields.assimilationReason.toJson.sortKeys
        let title ← optionalText? candidate.fields.canonicalTitle.toJson.sortKeys
        return { candidate with
          fields := { candidate.fields with
            assimilationDisposition := disposition, assimilationReason := reason, canonicalTitle := title } }) := by
  have distinct := candidateDict_keys candidate
  have known : forbidsExtra ("assimilation_target_id" :: candidateKeys) (FrozenPayload.freeze (candidateDict candidate)).fields = true := by
    apply forbidsExtra_freeze distinct
    unfold candidateDict candidateKeys
    cases candidate.fields.sourceReport <;> simp
  have targetIds : targetIds? containerRepr (FrozenPayload.freeze (candidateDict candidate)).fields =
      some candidate.fields.assimilationTargetIds := by
    unfold targetIds?
    have given : ("assimilation_target_ids", PyValue.list (candidate.fields.assimilationTargetIds.map .str)) ∈
        candidateDict candidate := by simp [candidateDict]
    rw [member?_freeze distinct given]
    exact texts_written _
  have report : field (FrozenPayload.freeze (candidateDict candidate)).fields "source_report" (some none)
      (nullable (report? schemas)) = some candidate.fields.sourceReport := by
    cases given : candidate.fields.sourceReport with
    | none =>
      unfold field
      rw [member?_freeze_missing distinct (by simp [candidateDict, given])]
    | some report =>
      apply field_written distinct "source_report" (.dict (Knowledge.reportDict report)) (by simp [candidateDict, given])
      have read := report_written schemas report
      rw [sortKeys_dict] at read ⊢
      rw [nullable_obj, read]
      rfl
  have plain : ∀ {key : String} {value : PyValue}, (key, value) ∈ candidateDict candidate → ∀ {α : Type}
      {missing : Option α} {read : JsonValue → Option α} {result : Option α}, read value.toJson.sortKeys = result →
      field (FrozenPayload.freeze (candidateDict candidate)).fields key missing read = result :=
    fun member => field_written distinct _ _ member
  have id : ("id", PyValue.str candidate.id) ∈ candidateDict candidate := by simp [candidateDict]
  have project : ("project_name", PyValue.str candidate.projectName) ∈ candidateDict candidate := by simp [candidateDict]
  have kind : ("candidate_type", PyValue.str (nameIn candidateTypes candidate.fields.candidateType)) ∈ candidateDict candidate := by
    simp [candidateDict]
  have statement : ("statement", PyValue.str candidate.fields.statement) ∈ candidateDict candidate := by simp [candidateDict]
  have status : ("status", PyValue.str (nameIn statuses candidate.status)) ∈ candidateDict candidate := by simp [candidateDict]
  have disposition : ("assimilation_disposition", candidate.fields.assimilationDisposition) ∈ candidateDict candidate := by
    simp [candidateDict]
  have reason : ("assimilation_reason", candidate.fields.assimilationReason) ∈ candidateDict candidate := by
    simp [candidateDict]
  have targets : ("assimilation_targets", PyValue.list (candidate.fields.assimilationTargets.map fun target => .dict target.toPy)) ∈
      candidateDict candidate := by simp [candidateDict]
  have title : ("canonical_title", candidate.fields.canonicalTitle) ∈ candidateDict candidate := by simp [candidateDict]
  have topic : ("topic_path", PyValue.list (candidate.fields.topicPath.map .str)) ∈ candidateDict candidate := by
    simp [candidateDict]
  have created : ("created_at", PyValue.str (String.ofList candidate.fields.createdAt.isoformat)) ∈ candidateDict candidate := by
    simp [candidateDict]
  have updated : ("updated_at", PyValue.str (String.ofList candidate.fields.updatedAt.isoformat)) ∈ candidateDict candidate := by
    simp [candidateDict]
  unfold candidate?
  rw [targetIds, known, report, plain id rfl, plain project rfl, plain kind (candidateType_written _), plain statement rfl,
    plain status (status_written _), plain disposition rfl, plain reason rfl,
    plain targets (list?_written fun target _ => dict_written target), plain title rfl, plain topic (texts_written _),
    plain created (datetime_written schemas _), plain updated (datetime_written schemas _)]
  cases disposition? candidate.fields.assimilationDisposition.toJson.sortKeys with
  | none => rfl
  | some disposition =>
    cases optionalText? candidate.fields.assimilationReason.toJson.sortKeys with
    | none => rfl
    | some reason =>
      cases optionalText? candidate.fields.canonicalTitle.toJson.sortKeys with
      | none => rfl
      | some title =>
        exact congrArg (fun made : Option Proposal => made.bind fun proposal =>
          some (⟨candidate.id, candidate.projectName, candidate.status, proposal⟩ : Candidate Proposal))
          (candidate.fields.make?_parts disposition reason title)

mutual

def isEncodable : PyValue → Bool
  | .list items => areEncodable items
  | .dict fields => fieldsEncodable fields
  | .object _ _ => false
  | _ => true

def areEncodable : List PyValue → Bool
  | [] => true
  | item :: items => isEncodable item && areEncodable items

def fieldsEncodable : List (String × PyValue) → Bool
  | [] => true
  | (_, value) :: fields => isEncodable value && fieldsEncodable fields

end

def isDisposition : PyValue → Bool
  | .none => true
  | .str text => text ∈ Staging.dispositions
  | _ => false

def isOptionalText : PyValue → Bool
  | .none | .str _ => true
  | _ => false

theorem disposition_written {value : PyValue} (encodable : isEncodable value = true) :
    disposition? value.toJson.sortKeys = if isDisposition value then some value else none := by
  cases value with
  | none => rfl
  | str text =>
    change (if text ∈ Staging.dispositions then some (PyValue.str text) else none) = _
    simp only [isDisposition, decide_eq_true_eq]
  | bool | int | float | list | dict => rfl
  | object => cases encodable

theorem optionalText_written {value : PyValue} (encodable : isEncodable value = true) :
    optionalText? value.toJson.sortKeys = if isOptionalText value then some value else none := by
  cases value with
  | none | str | bool | int | float | list | dict => rfl
  | object => cases encodable

def Proposal.isValid (proposal : Proposal) : Bool :=
  isDisposition proposal.assimilationDisposition && isOptionalText proposal.assimilationReason &&
    isOptionalText proposal.canonicalTitle

def Proposal.encodes (proposal : Proposal) : Bool :=
  isEncodable proposal.assimilationDisposition && isEncodable proposal.assimilationReason &&
    isEncodable proposal.canonicalTitle

/-- `json.dump` of a candidate, if its values have a JSON form. -/
def candidateText (candidate : Candidate Proposal) : Option (List Char) :=
  if candidate.fields.encodes then some ((FrozenPayload.freeze (candidateDict candidate)).json.dumps false) else none

/-- `KnowledgeCandidate.from_dict` of what `json.loads` reads. -/
def readCandidate (containerRepr : PyValue → String) (text : List Char) : Except JobError (Candidate Proposal) :=
  match loads text with
  | some (.obj fields) =>
    match candidate? schemas containerRepr fields with
    | some candidate => .ok candidate
    | none => .error (.validationError "KnowledgeCandidate")
  | _ => .error (.valueError "invalid knowledge job record")

theorem readCandidate_written (containerRepr : PyValue → String) {candidate : Candidate Proposal} {text : List Char}
    (written : candidateText candidate = some text) :
    readCandidate schemas containerRepr text =
      if candidate.fields.isValid then .ok candidate else .error (.validationError "KnowledgeCandidate") := by
  unfold candidateText at written
  split at written
  · next encodes =>
    cases written
    simp only [Proposal.encodes, Bool.and_eq_true] at encodes
    have loaded : loads ((FrozenPayload.freeze (candidateDict candidate)).json.dumps false) =
        some (.obj (FrozenPayload.freeze (candidateDict candidate)).fields) :=
      loads_dumps false (FrozenPayload.freeze (candidateDict candidate)).distinct
    unfold readCandidate Proposal.isValid
    rw [loaded]
    dsimp only
    rw [candidate_written, disposition_written encodes.1.1, optionalText_written encodes.1.2, optionalText_written encodes.2]
    cases isDisposition candidate.fields.assimilationDisposition with
    | false => rfl
    | true =>
      cases isOptionalText candidate.fields.assimilationReason with
      | false => rfl
      | true =>
        cases isOptionalText candidate.fields.canonicalTitle with
        | false => rfl
        | true => rfl
  · cases written

def candidateSchema (containerRepr : PyValue → String) : Schema (Candidate Proposal) where
  encodes candidate := candidate.fields.encodes
  reread candidate :=
    match candidateText candidate with
    | some text => readCandidate schemas containerRepr text
    | none => .error .encodingError
  faithful := by
    intro value read reads
    cases written : candidateText value with
    | none =>
      rw [written] at reads
      cases reads
    | some text =>
      rw [written] at reads
      dsimp only at reads
      rw [readCandidate_written schemas containerRepr written] at reads
      split at reads
      · exact (Except.ok.inj reads).symm
      · cases reads

theorem candidateSchema_reread (containerRepr : PyValue → String) {candidate : Candidate Proposal}
    (encodes : candidate.fields.encodes = true) : (candidateSchema schemas containerRepr).reread candidate =
      if candidate.fields.isValid then .ok candidate else .error (.validationError "KnowledgeCandidate") := by
  have written : candidateText candidate = some ((FrozenPayload.freeze (candidateDict candidate)).json.dumps false) :=
    if_pos encodes
  change (match candidateText candidate with
    | some text => readCandidate schemas containerRepr text
    | none => .error .encodingError) = _
  rw [written]
  exact readCandidate_written schemas containerRepr written

/-! ### Evidence is read as it was written -/

theorem basis_written (basis : EvidenceBasis) : literal? Staging.bases (.str (nameIn Staging.bases basis)) = some basis := by
  cases basis <;> decide

theorem outcome_written (outcome : VerificationOutcome) :
    literal? Staging.outcomes (.str (nameIn Staging.outcomes outcome)) = some outcome := by
  cases outcome <;> decide

theorem role_written (role : EvidenceRole) : literal? Staging.roles (.str (nameIn Staging.roles role)) = some role := by
  cases role <;> decide

theorem refDict_keys (ref : EvidenceRef) : ((refDict ref).map (·.1)).Nodup := by simp [refDict]

theorem evidenceDict_keys (evidence : Evidence EvidenceFields) : ((evidenceDict evidence).map (·.1)).Nodup := by
  simp [evidenceDict]

theorem CheckedRef.make?_ref (hashes : Hashes) (ref : CheckedRef) : make? hashes ref.ref = some ref := by
  have unchanged : ¬ (ref.ref.locator.getD "" ≠ "" ∧ ref.ref.locatorSha256.getD "" = "") :=
    fun located => ref.checked.2 located.1 located.2
  unfold make?
  simp only [if_neg unchanged]
  exact dif_pos ref.checked

theorem optionalStr_written (value : Option String) :
    nullable JsonValue.asStr? (optional .str value).toJson.sortKeys = some value :=
  optional_written (fun _ same => by cases same) fun _ _ => rfl

theorem optionalIndex_written {least : Nat} {value : Option Nat} (bound : ∀ index ∈ value, least ≤ index) :
    nullable (index? schemas least) (optional (fun index : Nat => PyValue.int (index : Int)) value).toJson.sortKeys = some value :=
  optional_written (fun _ same => by cases same) fun index member => index_written schemas (bound index member)

theorem ref_written (hashes : Hashes) (ref : CheckedRef) :
    ref? schemas hashes (PyValue.dict (refDict ref.ref)).toJson.sortKeys = some ref := by
  have distinct := refDict_keys ref.ref
  have known : forbidsExtra Staging.refKeys (FrozenPayload.freeze (refDict ref.ref)).fields = true :=
    forbidsExtra_freeze distinct (by simp [refDict, Staging.refKeys])
  have role : nullable (literal? Staging.roles)
      (optional (fun role => PyValue.str (nameIn Staging.roles role)) ref.ref.role).toJson.sortKeys = some ref.ref.role :=
    optional_written (fun _ same => by cases same) fun role _ => role_written role
  rw [sortKeys_dict]
  unfold ref?
  dsimp only
  rw [known,
    field_written distinct "kind" (.str (nameIn Staging.bases ref.ref.kind)) (by simp [refDict]) (basis_written _),
    field_written distinct "locator" (optional .str ref.ref.locator) (by simp [refDict]) (optionalStr_written _),
    field_written distinct "locator_sha256" (optional .str ref.ref.locatorSha256) (by simp [refDict]) (optionalStr_written _),
    field_written distinct "content_sha256" (optional .str ref.ref.contentSha256) (by simp [refDict]) (optionalStr_written _),
    field_written distinct "exchange_index" (optional (fun index : Nat => .int (index : Int)) ref.ref.exchangeIndex)
      (by simp [refDict]) (optionalIndex_written schemas ref.checked.1),
    field_written distinct "chunk_index" (optional (fun index : Nat => .int (index : Int)) ref.ref.chunkIndex)
      (by simp [refDict]) (optionalIndex_written schemas fun index _ => Nat.zero_le index),
    field_written distinct "role" (optional (fun role => .str (nameIn Staging.roles role)) ref.ref.role) (by simp [refDict]) role]
  exact CheckedRef.make?_ref hashes ref

theorem refs_written (hashes : Hashes) (refs : List CheckedRef) :
    refs? schemas hashes (PyValue.list (refs.map fun ref => .dict (refDict ref.ref))).toJson.sortKeys = some refs := by
  cases refs with
  | nil => rfl
  | cons ref rest =>
    have read := @list?_written _ (fun ref : CheckedRef => .dict (refDict ref.ref)) (ref? schemas hashes) (ref :: rest)
      fun ref _ => ref_written schemas hashes ref
    have filled : (PyValue.list ((ref :: rest).map fun ref => .dict (refDict ref.ref))).toJson.sortKeys.truthy = true := by
      rw [List.map_cons, PyValue.toJson, PyValue.toJsonItems, JsonValue.sortKeys, JsonValue.sortKeysItems, JsonValue.truthy]
      rfl
    unfold refs?
    rw [filled]
    exact read

theorem evidence_written (hashes : Hashes) (evidence : Evidence EvidenceFields) :
    evidence? schemas hashes (FrozenPayload.freeze (evidenceDict evidence)).fields = some evidence := by
  have distinct := evidenceDict_keys evidence
  have known : forbidsExtra evidenceKeys (FrozenPayload.freeze (evidenceDict evidence)).fields = true :=
    forbidsExtra_freeze distinct (by simp [evidenceDict, evidenceKeys])
  have verified : nullable (datetime? schemas)
      (optional (fun time : DateTime => PyValue.str (String.ofList time.isoformat)) evidence.fields.verifiedAt).toJson.sortKeys =
        some evidence.fields.verifiedAt :=
    optional_written (fun _ same => by cases same) fun time _ => datetime_written schemas time
  unfold evidence?
  rw [known,
    field_written distinct "id" (.str evidence.id) (by simp [evidenceDict]) rfl,
    field_written distinct "project_name" (.str evidence.projectName) (by simp [evidenceDict]) rfl,
    field_written distinct "candidate_id" (.str evidence.candidateId) (by simp [evidenceDict]) rfl,
    field_written distinct "distill_job_id" (optional .str evidence.distillJobId) (by simp [evidenceDict]) (optionalStr_written _),
    field_written distinct "evidence_basis" (.str (nameIn Staging.bases evidence.fields.evidenceBasis))
      (by simp [evidenceDict]) (basis_written _),
    field_written distinct "verification_outcome" (.str (nameIn Staging.outcomes evidence.fields.verificationOutcome))
      (by simp [evidenceDict]) (outcome_written _),
    field_written distinct "verification_refs" (.list (evidence.fields.verificationRefs.map fun ref => .dict (refDict ref.ref)))
      (by simp [evidenceDict]) (refs_written schemas hashes _),
    field_written distinct "verification_reason_codes" (.list (evidence.fields.verificationReasonCodes.map .str))
      (by simp [evidenceDict]) (texts_written _),
    field_written distinct "verified_at" (optional (fun time : DateTime => .str (String.ofList time.isoformat)) evidence.fields.verifiedAt)
      (by simp [evidenceDict]) verified,
    field_written distinct "created_at" (.str (String.ofList evidence.fields.createdAt.isoformat))
      (by simp [evidenceDict]) (datetime_written schemas _)]
  rfl

/-- `KnowledgeEvidence.from_dict` of what `json.loads` reads. -/
def readEvidence (hashes : Hashes) (text : List Char) : Except JobError (Evidence EvidenceFields) :=
  match loads text with
  | some (.obj fields) =>
    match evidence? schemas hashes fields with
    | some evidence => .ok evidence
    | none => .error (.validationError "KnowledgeEvidence")
  | _ => .error (.valueError "invalid knowledge job record")

def evidenceText (evidence : Evidence EvidenceFields) : List Char :=
  (FrozenPayload.freeze (evidenceDict evidence)).json.dumps false

theorem readEvidence_written (hashes : Hashes) (evidence : Evidence EvidenceFields) :
    readEvidence schemas hashes (evidenceText evidence) = .ok evidence := by
  have loaded : loads (evidenceText evidence) = some (.obj (FrozenPayload.freeze (evidenceDict evidence)).fields) :=
    loads_dumps false (FrozenPayload.freeze (evidenceDict evidence)).distinct
  unfold readEvidence
  rw [loaded]
  dsimp only
  rw [evidence_written]

def evidenceSchema (hashes : Hashes) : Schema (Evidence EvidenceFields) where
  encodes _ := true
  reread evidence := readEvidence schemas hashes (evidenceText evidence)
  faithful := by
    intro value read reads
    rw [readEvidence_written] at reads
    exact (Except.ok.inj reads).symm

theorem evidenceSchema_reread (hashes : Hashes) (evidence : Evidence EvidenceFields) :
    (evidenceSchema schemas hashes).reread evidence = .ok evidence := by
  unfold evidenceSchema
  dsimp only
  exact readEvidence_written schemas hashes evidence

end HarnessMem.JobWorkspace
