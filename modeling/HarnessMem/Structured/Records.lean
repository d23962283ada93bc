import HarnessMem.Library.Calendar
import HarnessMem.Library.Table
import Mathlib.Data.List.Lex
import Mathlib.Data.List.Sort
import Mathlib.Data.String.Basic

/-! The structured store: canonical payloads, the rows of the derived index that reads
start from, and what both say about a record.
-/

set_option autoImplicit false

namespace HarnessMem.Structured

open Library

/-! ### Governance statuses -/

def governanceStatuses : List String :=
  ["pending", "deferred", "rejected", "auto_confirmed", "provisional", "user_confirmed", "superseded"]

def truthLayerFullWeight : List String := ["auto_confirmed", "user_confirmed"]

def normalizeStatusOnLoad (status : String) : String := if status = "" then "pending" else status

/-- The statuses that `validate_status_transition` lets a status change to. -/
def statusTargets (status : String) : List String :=
  if status = "pending" then ["auto_confirmed", "provisional", "deferred", "rejected", "user_confirmed"]
  else if status = "auto_confirmed" then ["user_confirmed", "superseded", "rejected"]
  else if status = "provisional" then ["user_confirmed", "superseded", "rejected"]
  else if status = "user_confirmed" then ["superseded", "rejected"]
  else if status = "deferred" then ["pending", "rejected", "user_confirmed"]
  else []

def validateStatusTransition (fromStatus toStatus : String) : Bool :=
  fromStatus = toStatus ||
    (fromStatus ∈ governanceStatuses && toStatus ∈ governanceStatuses) && toStatus ∈ statusTargets fromStatus

def validateMaintenanceReviewTransition (fromStatus toStatus : String) : Bool :=
  fromStatus = toStatus || fromStatus = "pending" && toStatus ∈ ["user_confirmed", "rejected"]

/-- `statuses_for_list_filter`, whose `READABLE_TRUTH_FILTER` is `"readable_truth"`. -/
def statusesForListFilter (status : String) (includeProvisional includeSuperseded : Bool) : List String :=
  if status = "readable_truth" then
    truthLayerFullWeight ++ (if includeProvisional then ["provisional"] else []) ++
      (if includeSuperseded then ["superseded"] else [])
  else [status]

/-! ### Payloads -/

/-- `TruthStore._COLLECTIONS`. -/
inductive TruthCollection where
  | memoryEntries | relationFacts | confirmedRules
  deriving DecidableEq, Repr

/-- `collection_for_type`. -/
def TruthCollection.forType? (truthType : String) : Option TruthCollection :=
  if truthType = "memory_entry" then some .memoryEntries
  else if truthType = "relation_fact" then some .relationFacts
  else if truthType = "confirmed_rule" then some .confirmedRules
  else none

inductive Tier where
  | hot | warm | cold | archive
  deriving DecidableEq, Repr

/-- What the payloads of a collection hold beside the fields all of them have. -/
inductive Body where
  | memoryEntry (category status : String) (compacted : Bool) (tier : Tier)
  | relationFact (sourceEntity targetEntity relationType status : String)
  | confirmedRule
  deriving DecidableEq

def Body.collection : Body → TruthCollection
  | .memoryEntry .. => .memoryEntries
  | .relationFact .. => .relationFacts
  | .confirmedRule => .confirmedRules

/-- A canonical payload of a truth collection, as `to_dict` writes it: links that are missing in
a payload are empty lists here, which the code treats alike. -/
structure Truth where
  id : String
  projectName : String
  body : Body
  validTo : Option DateTime
  supersedes : List String
  supersededBy : List String
  deriving DecidableEq

namespace Truth

def collection (truth : Truth) : TruthCollection := truth.body.collection

/-- The table of a payload and what `_row_key` digests: project and id beside the collection. -/
def key (truth : Truth) : TruthCollection × String :=
  (truth.collection, truth.projectName ++ "\x00" ++ truth.id)

/-- `MemoryEntry.from_dict`, `RelationFact.from_dict`. -/
def onLoad (truth : Truth) : Truth :=
  { truth with
    body := match truth.body with
      | .memoryEntry category status compacted tier => .memoryEntry category (normalizeStatusOnLoad status) compacted tier
      | .relationFact source target type status => .relationFact source target type (normalizeStatusOnLoad status)
      | .confirmedRule => .confirmedRule }

/-- `data["status"] = status`. -/
def withStatus (status : String) (truth : Truth) : Truth :=
  { truth with
    body := match truth.body with
      | .memoryEntry category _ compacted tier => .memoryEntry category status compacted tier
      | .relationFact source target type _ => .relationFact source target type status
      | .confirmedRule => .confirmedRule }

/-- `data["compacted"] = True`. -/
def withCompacted (truth : Truth) : Truth :=
  { truth with
    body := match truth.body with
      | .memoryEntry category status _ tier => .memoryEntry category status true tier
      | other => other }

/-- `data.get("status", "pending")`. -/
def status (truth : Truth) : String :=
  match truth.body with
  | .memoryEntry _ status _ _ | .relationFact _ _ _ status => status
  | .confirmedRule => "pending"

def addLink (added : Option String) (links : List String) : List String :=
  match added with
  | none => links
  | some link => if link = "" ∨ link ∈ links then links else links ++ [link]

def applySupersedeUpdates (validTo : Option DateTime) (addSupersedes addSupersededBy : Option String) (data : Truth) : Truth :=
  { data with
    validTo := validTo.or data.validTo
    supersedes := addLink addSupersedes data.supersedes
    supersededBy := addLink addSupersededBy data.supersededBy }

theorem mem_addLink {added link : String} {links : List String} :
    link ∈ addLink (some added) links ↔ link ∈ links ∨ link = added ∧ added ≠ "" := by
  change (link ∈ if added = "" ∨ added ∈ links then links else links ++ [added]) ↔ _
  split
  · next skipped =>
    constructor
    · exact .inl
    · intro either
      rcases either with member | ⟨rfl, visible⟩
      · exact member
      · exact skipped.resolve_left visible
  · next new =>
    have visible : added ≠ "" := fun empty => new (.inl empty)
    simp [visible]

@[simp] theorem collection_onLoad (truth : Truth) : truth.onLoad.collection = truth.collection := by
  cases truth with
  | mk id projectName body => cases body <;> rfl

@[simp] theorem collection_withStatus (status : String) (truth : Truth) :
    (truth.withStatus status).collection = truth.collection := by
  cases truth with
  | mk id projectName body => cases body <;> rfl

@[simp] theorem collection_withCompacted (truth : Truth) : truth.withCompacted.collection = truth.collection := by
  cases truth with
  | mk id projectName body => cases body <;> rfl

end Truth

/-! ### Index rows -/

inductive Columns where
  | memoryEntry (category status : String) (compacted : Bool)
  | relationFact (sourceEntity targetEntity relationType status : String)
  | confirmedRule
  deriving DecidableEq

namespace Columns

def collection : Columns → TruthCollection
  | .memoryEntry .. => .memoryEntries
  | .relationFact .. => .relationFacts
  | .confirmedRule => .confirmedRules

def withStatus (status : String) : Columns → Columns
  | .memoryEntry category _ compacted => .memoryEntry category status compacted
  | .relationFact source target type _ => .relationFact source target type status
  | .confirmedRule => .confirmedRule

def withCompacted : Columns → Columns
  | .memoryEntry category status _ => .memoryEntry category status true
  | other => other

end Columns

def Body.columns : Body → Columns
  | .memoryEntry category status compacted _ => .memoryEntry category status compacted
  | .relationFact source target type status => .relationFact source target type status
  | .confirmedRule => .confirmedRule

@[simp] theorem Body.collection_columns (body : Body) : body.columns.collection = body.collection := by
  cases body <;> rfl

/-- A row of the derived index. `valid_to` holds the ISO text, or nothing; the JSON text of the
links is `[]` exactly where there are none. -/
structure IndexRow where
  id : String
  projectName : String
  columns : Columns
  validTo : Option (List Char)
  supersedes : List String
  supersededBy : List String
  deriving DecidableEq

def IndexRow.key (row : IndexRow) : TruthCollection × String := (row.columns.collection, row.id)

def Truth.indexRow (truth : Truth) : IndexRow :=
  ⟨truth.id, truth.projectName, truth.body.columns, truth.validTo.map DateTime.isoformat, truth.supersedes, truth.supersededBy⟩

@[simp] theorem Truth.indexRow_key (truth : Truth) : truth.indexRow.key = (truth.collection, truth.id) := by
  simp [Truth.indexRow, IndexRow.key, Truth.collection]

/-! ### Supersede candidates -/

/-- A canonical payload of `supersede_candidates`. -/
structure SupersedeCandidate where
  id : String
  projectName : String
  targetType : String
  targetId : String
  replacementType : String
  replacementId : String
  status : String
  deriving DecidableEq

def SupersedeCandidate.key (candidate : SupersedeCandidate) : String := candidate.projectName ++ "\x00" ++ candidate.id

/-! ### The store -/

structure StructuredStore where
  truths : Table Truth.key
  candidates : Table SupersedeCandidate.key
  index : Table IndexRow.key
  /-- The ids of the index rows of `supersede_candidates`. -/
  candidateIndex : Table (id : String → String)

def firstByProject {ρ : Type} (projectName : ρ → String) (rows : List ρ) : Option ρ :=
  (rows.insertionSort fun first second => projectName first ≤ projectName second).head?

namespace StructuredStore

/-- `read_record_payload`: of the records with an id, that of the first project. -/
def truth? (store : StructuredStore) (collection : TruthCollection) (entityId : String) : Option Truth :=
  firstByProject Truth.projectName (store.truths.rows.filter fun truth => truth.collection = collection ∧ truth.id = entityId)

def candidate? (store : StructuredStore) (entityId : String) : Option SupersedeCandidate :=
  firstByProject SupersedeCandidate.projectName (store.candidates.rows.filter fun candidate => candidate.id = entityId)

end StructuredStore

/-! ### Small facts -/

theorem mem_of_firstByProject {ρ : Type} {projectName : ρ → String} {rows : List ρ} {row : ρ}
    (first : firstByProject projectName rows = some row) : row ∈ rows :=
  (List.perm_insertionSort _ rows).mem_iff.mp (List.mem_of_mem_head? first)

theorem firstByProject_eq_none {ρ : Type} {projectName : ρ → String} {rows : List ρ} :
    firstByProject projectName rows = none ↔ rows = [] := by
  rw [firstByProject, List.head?_eq_none_iff]
  constructor
  · intro empty
    have same := (List.perm_insertionSort (fun first second => projectName first ≤ projectName second) rows).length_eq
    rw [empty] at same
    exact List.length_eq_zero_iff.mp same.symm
  · intro empty
    rw [empty]
    rfl

namespace StructuredStore

variable {store : StructuredStore}

theorem mem_of_truth? {collection : TruthCollection} {entityId : String} {truth : Truth}
    (found : store.truth? collection entityId = some truth) :
    truth ∈ store.truths.rows ∧ truth.collection = collection ∧ truth.id = entityId := by
  simpa using mem_of_firstByProject found

theorem truth?_eq_none {collection : TruthCollection} {entityId : String} :
    store.truth? collection entityId = none ↔
      ∀ truth ∈ store.truths.rows, truth.collection = collection → truth.id ≠ entityId := by
  simp [truth?, firstByProject_eq_none]

theorem mem_of_candidate? {entityId : String} {candidate : SupersedeCandidate}
    (found : store.candidate? entityId = some candidate) :
    candidate ∈ store.candidates.rows ∧ candidate.id = entityId := by
  simpa using mem_of_firstByProject found

end StructuredStore

/-! ### Samples -/

def sampleEntry (id status : String) : Truth := ⟨id, "p", .memoryEntry "decision" status false .hot, none, [], []⟩

def emptyStore : StructuredStore := ⟨.empty, .empty, .empty, .empty⟩

def sampleMoment : DateTime where
  year := 2026
  month := 1
  day := 1
  hour := 0
  minute := 0
  second := 0
  microsecond := 0
  offset := some 0
  date := DateTime.newYear_date
  clock := DateTime.midnight_clock
  zone := DateTime.utc_zone

end HarnessMem.Structured
