import HarnessMem.Erasure.References
import HarnessMem.Library.KeyMap
import HarnessMem.Storage.Transcript.Erasure

/-! Erasing what was remembered of selected evidence: the plan, its execution and the
verification of what is left.
-/

set_option autoImplicit false

namespace HarnessMem.Erasure

open Library Storage

/-! ### The backend -/

/-- The derived indexes, of which only the ids of their rows are asked: the rows and embeddings of the verbatim index, the
rows and embeddings of the structured index, and the postings of trigrams. -/
structure Index where
  observations : List String
  observationTrigrams : List String
  verbatimEmbeddings : List String
  entities : List Target
  structuredEmbeddings : List String

/-- The stores. An observation and a structured record are files under their ids. -/
structure Backend (repr : Repr) where
  ledger : Ledger
  observations : Table fun payload : Payload => textOf repr payload "id"
  records : Table (Record.key repr)
  index : Index

structure Selector where
  projectName : String
  sessionId : Option String
  sourceId : Option String
  before : Option Time

/-- `_validate_delete_scope`: a whole project is not erased. -/
def Selector.Scope (selector : Selector) : Prop :=
  selector.sessionId ≠ none ∨ selector.sourceId ≠ none ∨ selector.before ≠ none

instance (selector : Selector) : Decidable selector.Scope := inferInstanceAs (Decidable (_ ∨ _))

def Selector.WholeSession (selector : Selector) : Prop :=
  selector.sessionId ≠ none ∧ selector.sourceId = none ∧ selector.before = none

instance (selector : Selector) : Decidable selector.WholeSession := inferInstanceAs (Decidable (_ ∧ _))

/-! ### The plan of the ledger -/

def Selector.selects (selector : Selector) (ledger : Ledger) (row : RevisionRow) : Bool :=
  match ledger.getSource row.sourceId with
  | some source =>
    source.projectName = selector.projectName && selector.sessionId.all (source.sessionId = ·) &&
      selector.sourceId.all (row.sourceId = ·) && selector.before.all (row.capturedAt < ·)
  | none => false

structure LedgerPlan where
  revisionKeys : List (String × String)
  sourceIds : List String
  sessionIds : List String
  jobIds : List String
  chunkCount : Nat
  semanticProjectionCount : Nat

def projectionCount (ledger : Ledger) (key : String × String) : Nat :=
  ledger.projections.rows.countP fun row => row.sourceId = key.1 ∧ row.sourceRevision = key.2

def Selector.revisions (selector : Selector) (ledger : Ledger) (scan : Scan RevisionRow) : List RevisionRow :=
  (scan.order (ledger.revisions.rows.filter (selector.selects ledger))).insertionSort fun first second =>
    first.capturedAt ≤ second.capturedAt

/-- `plan_hard_delete` of the transcript store. -/
def planLedger (ledger : Ledger) (scan : Scan RevisionRow) (selector : Selector) : LedgerPlan :=
  let revisions := selector.revisions ledger scan
  let keys := revisions.map RevisionRow.key
  { revisionKeys := keys
    sourceIds := sortedSet (revisions.map (·.sourceId))
    sessionIds := sortedSet (revisions.filterMap fun row => (ledger.getSource row.sourceId).map (·.sessionId))
    jobIds := sortedSet (keys.flatMap fun key => (ledger.jobsOfRevision key.1 key.2).map (·.id))
    chunkCount := (keys.map fun key => (ledger.chunksOf key.1 key.2).length).sum
    semanticProjectionCount := (keys.map (projectionCount ledger)).sum }

/-! ### The plan of all stores -/

structure ObservationFields where
  id : String
  sessionId : String
  projectName : String
  transcriptSourceId : String
  sourceRevision : String

/-- `_observation_lifecycle_fields`. -/
def observationFields (repr : Repr) (payload : Payload) : ObservationFields :=
  let metadata : Payload := match member? payload "metadata" with
    | some (.obj metadata) => metadata
    | _ => []
  { id := textOf repr payload "id"
    sessionId := textOf repr payload "session_id"
    projectName := textOf repr metadata "project_name"
    transcriptSourceId := textOf repr metadata "transcript_source_id"
    sourceRevision := textOf repr metadata "source_revision" }

structure IndexCounts where
  entityRows : Nat
  embeddingRows : Nat
  trigramRows : Nat

/-- `_count_sqlite_rows`. -/
def countRows {α : Type} [DecidableEq α] (rows ids : List α) : Nat := rows.countP fun row => row ∈ ids

def countIndexArtifacts (index : Index) (observationIds : List String) (targets : List Target) : IndexCounts :=
  let entryIds := observationIds ++ targets.map Prod.snd
  { entityRows := countRows index.observations observationIds + countRows index.entities targets
    embeddingRows := countRows index.verbatimEmbeddings entryIds + countRows index.structuredEmbeddings entryIds
    trigramRows := countRows index.observationTrigrams observationIds }

structure Plan where
  ledger : LedgerPlan
  observationIds : List String
  targets : List Target
  indexCounts : IndexCounts

def Selector.sessionFallbackIds (selector : Selector) (plan : LedgerPlan) : List String :=
  if selector.WholeSession then plan.sessionIds ++ selector.sessionId.toList.filter (· ≠ "") else []

def Selector.selectsObservation (selector : Selector) (plan : LedgerPlan) (fields : ObservationFields) : Bool :=
  fields.projectName = selector.projectName &&
    (fields.transcriptSourceId ∈ plan.sourceIds &&
        (fields.transcriptSourceId, fields.sourceRevision) ∈ plan.revisionKeys ||
      fields.sessionId ∈ selector.sessionFallbackIds plan && fields.transcriptSourceId = "")

variable {repr : Repr}

def plannedObservations (backend : Backend repr) (selector : Selector) (plan : LedgerPlan) : List String :=
  sortedSet (((backend.observations.rows.map (observationFields repr)).filter (selector.selectsObservation plan)).map (·.id))

def Selector.evidence (selector : Selector) (backend : Backend repr) (plan : LedgerPlan) : Evidence where
  jobIds := plan.jobIds
  sessionIds := selector.sessionFallbackIds plan
  observationIds := plannedObservations backend selector plan

/-- `plan_hard_delete`, for a scope that is accepted. -/
def planHardDelete (backend : Backend repr) (scan : Scan RevisionRow) (selector : Selector) : Plan :=
  let ledger := planLedger backend.ledger scan selector
  let evidence := selector.evidence backend ledger
  let targets := linkedStructuredRecords repr backend.records.rows selector.projectName evidence [] []
  { ledger, targets
    observationIds := evidence.observationIds
    indexCounts := countIndexArtifacts backend.index evidence.observationIds targets }

def Plan.Empty (plan : Plan) : Prop :=
  plan.ledger.revisionKeys = [] ∧ plan.ledger.chunkCount = 0 ∧ plan.ledger.jobIds = [] ∧
    plan.ledger.semanticProjectionCount = 0 ∧ plan.observationIds = [] ∧ plan.targets = [] ∧
    plan.indexCounts.entityRows = 0 ∧ plan.indexCounts.embeddingRows = 0 ∧ plan.indexCounts.trigramRows = 0

instance (plan : Plan) : Decidable plan.Empty := inferInstanceAs (Decidable (_ ∧ _))

/-! ### Verification -/

structure Remaining where
  revisions : Nat
  chunks : Nat
  distillJobs : Nat
  semanticProjections : Nat
  observations : Nat
  candidates : Nat
  structuredTruth : Nat
  indexes : Nat
  indexArtifacts : Nat
  deriving DecidableEq

def Remaining.none : Remaining := ⟨0, 0, 0, 0, 0, 0, 0, 0, 0⟩

def verifyHardDelete (backend : Backend repr) (scan : Scan RevisionRow) (selector : Selector) (plan : Plan) : Remaining :=
  let residual := planHardDelete backend scan selector
  let revisionKeys := (plan.ledger.revisionKeys ++ residual.ledger.revisionKeys).dedup
  let jobIds := sortedSet (plan.ledger.jobIds ++ residual.ledger.jobIds)
  let observationIds := (plan.observationIds ++ residual.observationIds).dedup
  let preselected := (plan.targets ++ residual.targets).dedup
  let targets := linkedStructuredRecords repr backend.records.rows selector.projectName
    { jobIds, observationIds, sessionIds := selector.sessionId.toList }
    (preselected.filter fun target => (backend.records.get? target).isSome)
    (observationIds ++ jobIds ++ preselected.map Prod.snd)
  let indexCounts := countIndexArtifacts backend.index observationIds targets
  { revisions := (revisionKeys.map fun key => backend.ledger.revisions.rows.countP fun row => row.key = key).sum
    chunks := (revisionKeys.map fun key => (backend.ledger.chunksOf key.1 key.2).length).sum
    distillJobs := (jobIds.map fun jobId => backend.ledger.jobs.rows.countP fun job => job.id = jobId).sum
    semanticProjections := (revisionKeys.map (projectionCount backend.ledger)).sum
    observations := observationIds.countP fun observationId => (backend.observations.get? observationId).isSome
    candidates := targets.countP fun target => target.1.isCandidate
    structuredTruth := targets.countP fun target => !target.1.isCandidate
    indexes := indexCounts.entityRows
    indexArtifacts := indexCounts.entityRows + indexCounts.embeddingRows + indexCounts.trigramRows }

/-! ### Execution -/

/-- `hard_delete_record`: the rows of the structured index go with the file. -/
def Backend.deleteRecord (backend : Backend repr) (target : Target) : Backend repr :=
  { backend with
    records := backend.records.filter fun record => record.key repr ≠ target
    index := { backend.index with
      entities := backend.index.entities.filter (· ≠ target)
      structuredEmbeddings := backend.index.structuredEmbeddings.filter (· ≠ target.2) } }

/-- `delete` of the verbatim store. -/
def Backend.deleteObservation (backend : Backend repr) (observationId : String) : Backend repr :=
  { backend with
    observations := backend.observations.filter fun payload => textOf repr payload "id" ≠ observationId
    index := { backend.index with
      observations := backend.index.observations.filter (· ≠ observationId)
      verbatimEmbeddings := backend.index.verbatimEmbeddings.filter (· ≠ observationId)
      observationTrigrams := backend.index.observationTrigrams.filter (· ≠ observationId) } }

inductive Status where
  | skipped
  | succeeded
  | partialFailure
  deriving DecidableEq

def Status.text : Status → String
  | .skipped => "skipped"
  | .succeeded => "succeeded"
  | .partialFailure => "partial_failure"

inductive Outcome where
  | refused
  | receiptFailed (failure : StoreError)
  | skipped
  | finished (status : Status) (remaining : Remaining) (raised : Option StoreError)

/-- What one call is given beside the stores: how it is named and reasoned, when it runs, and how many native sources are
left over by the cleanup of them, where one was asked for. -/
structure Request where
  receiptId : String
  reason : String
  now : Time
  nativeIncomplete : Option Nat

def Request.receipt (request : Request) (projectName status : String) : Dict :=
  [("id", .str request.receiptId), ("kind", .str "hard_delete"), ("status", .str status),
    ("project_name", .str projectName), ("reason", .str request.reason), ("requested_at", .instant request.now)]

def Backend.saveReceipt (backend : Backend repr) (request : Request) (projectName : String) (status : Status) : Backend repr :=
  match backend.ledger.saveDeletionReceipt (request.receipt projectName status.text) request.now with
  | .ok (_, ledger) => { backend with ledger }
  | .error _ => backend

/-- `hard_delete` with `apply`. An error of the ledger rolls the ledger back, and what is left is verified. -/
def hardDelete (hashes : Hashes) (scan : Scan RevisionRow) (backend : Backend repr) (selector : Selector) (request : Request) :
    Outcome × Backend repr :=
  if ¬ selector.Scope then (.refused, backend)
  else
    let plan := planHardDelete backend scan selector
    match backend.ledger.saveDeletionReceipt (request.receipt selector.projectName "in_progress") request.now with
    | .error failure => (.receiptFailed failure, backend)
    | .ok (_, ledger) =>
      let begun : Backend repr := { backend with ledger }
      if plan.Empty then (.skipped, begun.saveReceipt request selector.projectName .skipped)
      else
        let erased := plan.observationIds.foldl Backend.deleteObservation (plan.targets.foldl Backend.deleteRecord begun)
        let deletion : HardDelete := {
          revisionKeys := plan.ledger.revisionKeys
          projectName := selector.projectName
          reason := request.reason
          receipt := request.receipt selector.projectName "in_progress" }
        match erased.ledger.hardDeleteRevisions hashes scan deletion request.receiptId request.now with
        | .error failure =>
          (.finished .partialFailure (verifyHardDelete erased scan selector plan) (some failure),
            erased.saveReceipt request selector.projectName .partialFailure)
        | .ok (_, ledger) =>
          let final : Backend repr := { erased with ledger }
          let remaining := verifyHardDelete final scan selector plan
          let status : Status :=
            if remaining = .none ∧ request.nativeIncomplete.getD 0 = 0 then .succeeded else .partialFailure
          (.finished status remaining none, final.saveReceipt request selector.projectName status)

end HarnessMem.Erasure
