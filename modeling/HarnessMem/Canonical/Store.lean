import HarnessMem.Library.Table
import HarnessMem.Library.Transaction
import HarnessMem.Schemas.Values

/-! The canonical entity store: rows under the digest of collection, project and id,
and transactions of payload mutations that are recorded under an idempotency key.
-/

set_option autoImplicit false

namespace HarnessMem.Canonical

open Library Library.Session

/-! ### Rows and records -/

/-- `CANONICAL_ENTITY_TABLES`. -/
inductive EntityTable where
  | observations | memoryEntries | knowledgeEntries | knowledgeSources | rules | skills | relations
  | candidates | signals | taskHandoffs | metabolismRuns | dreamRuns
  deriving DecidableEq, Repr

/-- The keys of `_COLLECTION_TO_TABLE`. -/
inductive Collection where
  | observations | memoryEntries | knowledgeEntries | knowledgeSources | confirmedRules | skills
  | relationFacts | retrievalSignals | taskHandoffs | ruleCandidates | supersedeCandidates
  | mergeSuggestionCandidates | staleTruthSuggestionCandidates | proceduralCandidates
  | metabolismRuns | dreamRuns
  deriving DecidableEq, Repr

namespace Collection

def value : Collection → String
  | observations => "observations"
  | memoryEntries => "memory_entries"
  | knowledgeEntries => "knowledge_entries"
  | knowledgeSources => "knowledge_sources"
  | confirmedRules => "confirmed_rules"
  | skills => "skills"
  | relationFacts => "relation_facts"
  | retrievalSignals => "retrieval_signals"
  | taskHandoffs => "task_handoffs"
  | ruleCandidates => "rule_candidates"
  | supersedeCandidates => "supersede_candidates"
  | mergeSuggestionCandidates => "merge_suggestion_candidates"
  | staleTruthSuggestionCandidates => "stale_truth_suggestion_candidates"
  | proceduralCandidates => "procedural_candidates"
  | metabolismRuns => "metabolism_runs"
  | dreamRuns => "dream_runs"

def all : List Collection :=
  [observations, memoryEntries, knowledgeEntries, knowledgeSources, confirmedRules, skills, relationFacts,
    retrievalSignals, taskHandoffs, ruleCandidates, supersedeCandidates, mergeSuggestionCandidates,
    staleTruthSuggestionCandidates, proceduralCandidates, metabolismRuns, dreamRuns]

/-- `collection in _COLLECTION_TO_TABLE`. -/
def ofValue? (text : String) : Option Collection := all.find? fun collection => collection.value = text

/-- `canonical_table_for_collection`. -/
def table : Collection → EntityTable
  | observations => .observations
  | memoryEntries => .memoryEntries
  | knowledgeEntries => .knowledgeEntries
  | knowledgeSources => .knowledgeSources
  | confirmedRules => .rules
  | skills => .skills
  | relationFacts => .relations
  | retrievalSignals => .signals
  | taskHandoffs => .taskHandoffs
  | ruleCandidates | supersedeCandidates | mergeSuggestionCandidates | staleTruthSuggestionCandidates
  | proceduralCandidates => .candidates
  | metabolismRuns => .metabolismRuns
  | dreamRuns => .dreamRuns

theorem ofValue_value (collection : Collection) : ofValue? collection.value = some collection := by
  cases collection <;> rfl

theorem value_injective : Function.Injective value := by
  intro first second same
  have read := congrArg ofValue? same
  rwa [ofValue_value, ofValue_value, Option.some.injEq] at read

def defaultSourceRelpath (collection : Collection) (entityId : String) : String :=
  match collection with
  | observations => "verbatim/" ++ entityId ++ ".json"
  | other => "structured/" ++ other.value ++ "/" ++ entityId ++ ".json"

end Collection

/-- The exceptions of a transaction with their messages. `operationalError` is the database
refusing a statement. -/
inductive CanonicalError where
  | typeError (message : String)
  | valueError (message : String)
  | idempotencyError (message : String)
  | preconditionError (message : String)
  | operationalError (message : String)
  deriving DecidableEq, Repr

abbrev DerivedColumns := List (String × String)

variable {π : Type}

structure CanonicalEntityRow (π : Type) where
  rowKey : String
  collection : Collection
  entityId : String
  projectId : Option String
  columns : DerivedColumns
  sourceRelpath : String
  payload : π
  payloadSha256 : String
  migratedAt : Time
  deriving DecidableEq

def CanonicalEntityRow.key (row : CanonicalEntityRow π) : EntityTable × String :=
  (row.collection.table, row.rowKey)

inductive AppliedMutation where
  | upsert (collection : Collection) (entityId payloadSha256 : String)
  | delete (collection : Collection) (projectName entityId : String) (deleted : Bool)
  deriving DecidableEq, Repr

structure TransactionResult where
  idempotencyKey : String
  requestSha256 : String
  mutations : List AppliedMutation
  replayed : Bool
  deriving DecidableEq, Repr

structure TransactionRecord where
  idempotencyKey : String
  requestSha256 : String
  result : TransactionResult
  committedAt : Time
  deriving DecidableEq, Repr

structure CanonicalTables (π : Type) where
  rows : Table (CanonicalEntityRow.key : CanonicalEntityRow π → EntityTable × String)
  records : Table TransactionRecord.idempotencyKey

def CanonicalTables.empty : CanonicalTables π := ⟨.empty, .empty⟩

/-! ### Mutations -/

inductive Operation (π : Type) where
  | upsert (payload : π) (sourceRelpath : Option String)
  | delete
  | assert
  deriving DecidableEq

/-- A mutation as `_normalize_payload_mutation` returns it. The expected digest is absent,
`None` where the row has to be missing, or the digest of the row. -/
structure Mutation (π : Type) where
  operation : Operation π
  collection : Collection
  entityId : String
  projectName : String
  expectedSha256 : Option (Option String)
  deriving DecidableEq

def Mutation.map {π' : Type} (form : π → π') (mutation : Mutation π) : Mutation π' where
  operation := match mutation.operation with
    | .upsert payload sourceRelpath => .upsert (form payload) sourceRelpath
    | .delete => .delete
    | .assert => .assert
  collection := mutation.collection
  entityId := mutation.entityId
  projectName := mutation.projectName
  expectedSha256 := mutation.expectedSha256

def Mutation.target (mutation : Mutation π) : Collection × String × String :=
  (mutation.collection, mutation.projectName, mutation.entityId)

structure PayloadCodec (π : Type) where
  /-- `_stable_json`. -/
  text : π → String
  /-- `_payload_project_id`. -/
  projectId : π → Option String
  /-- `_stable_json_value` of a normalized request. -/
  requestText : List (Mutation π) → String
  /-- The columns of `canonical_row_from_legacy`, whose number conversions may raise. -/
  columns : Collection → π → Except CanonicalError DerivedColumns

def PayloadCodec.along {π' : Type} (codec : PayloadCodec π') (form : π → π') : PayloadCodec π where
  text payload := codec.text (form payload)
  projectId payload := codec.projectId (form payload)
  requestText mutations := codec.requestText (mutations.map (Mutation.map form))
  columns collection payload := codec.columns collection (form payload)

inductive Statement where
  | beginImmediate
  | lookup
  | read (target : Collection × String × String)
  | write (target : Collection × String × String)
  | record
  | commit
  deriving DecidableEq

structure Conditions where
  failure : Statement → Option CanonicalError
  clock : Statement → Time

section

variable (hashes : Hashes) (codec : PayloadCodec π)

def rowKey (collection : Collection) (projectName : Option String) (entityId : String) : String :=
  hashes.sha256Text (collection.value ++ "\x00" ++ projectName.getD "" ++ "\x00" ++ entityId)

def Mutation.statedKey (mutation : Mutation π) : EntityTable × String :=
  (mutation.collection.table, rowKey hashes mutation.collection (some mutation.projectName) mutation.entityId)

/-- `get_row` with a project. -/
def getRow (tables : CanonicalTables π) (collection : Collection) (entityId projectName : String) :
    Option (CanonicalEntityRow π) :=
  tables.rows.get? (collection.table, rowKey hashes collection (some projectName) entityId)

/-- `expected!r`. -/
def digestRepr : Option String → String
  | none => "None"
  | some digest => "'" ++ digest ++ "'"

def checkPrecondition (conditions : Conditions) (mutation : Mutation π) :
    Session CanonicalError (CanonicalTables π) (List Unit) :=
  match mutation.expectedSha256 with
  | none => pure []
  | some expected => do
    statement (conditions.failure (.read mutation.target))
    let current ← query fun tables => getRow hashes tables mutation.collection mutation.entityId mutation.projectName
    let actual := current.map (·.payloadSha256)
    if actual = expected then pure []
    else throw (.preconditionError
      ("payload SHA precondition failed for " ++ mutation.collection.value ++ ":" ++ mutation.entityId ++
        ": expected " ++ digestRepr expected ++ ", found " ++ digestRepr actual))

def upsertedRow (migratedAt : Time) (mutation : Mutation π) (payload : π) (sourceRelpath : Option String) :
    Except CanonicalError (CanonicalEntityRow π) := do
  let columns ← codec.columns mutation.collection payload
  pure {
    rowKey := rowKey hashes mutation.collection (codec.projectId payload) mutation.entityId
    collection := mutation.collection
    entityId := mutation.entityId
    projectId := codec.projectId payload
    columns
    sourceRelpath := match sourceRelpath with
      | some path => if path = "" then mutation.collection.defaultSourceRelpath mutation.entityId else path
      | none => mutation.collection.defaultSourceRelpath mutation.entityId
    payload
    payloadSha256 := hashes.sha256Text (codec.text payload)
    migratedAt }

def applyMutation (conditions : Conditions) (mutation : Mutation π) :
    Session CanonicalError (CanonicalTables π) (List AppliedMutation) :=
  match mutation.operation with
  -- the row of an assertion is compared above and never rewritten
  | .assert => pure []
  | .delete => do
    let key := mutation.statedKey hashes
    statement (conditions.failure (.write mutation.target))
    let found ← query fun tables => tables.rows.get? key
    write fun tables => { tables with rows := tables.rows.filter fun row => row.key ≠ key }
    pure [.delete mutation.collection mutation.projectName mutation.entityId found.isSome]
  | .upsert payload sourceRelpath =>
    match upsertedRow hashes codec (conditions.clock (.write mutation.target)) mutation payload sourceRelpath with
    | .error error => throw error
    | .ok row => do
      statement (conditions.failure (.write mutation.target))
      write fun tables => { tables with rows := tables.rows.upsert row }
      pure [.upsert mutation.collection mutation.entityId row.payloadSha256]

/-- INSERT into `canonical_transaction_records`. -/
def insertRecord (record : TransactionRecord) : Session CanonicalError (CanonicalTables π) Unit := do
  let known ← query fun tables => (tables.records.get? record.idempotencyKey).isSome
  if known then throw (.operationalError "UNIQUE constraint failed: canonical_transaction_records.idempotency_key")
  else write fun tables => { tables with records := tables.records.upsert record }

def requestSha256 (mutations : List (Mutation π)) : String := hashes.sha256Text (codec.requestText mutations)

def replayRecord (record : TransactionRecord) (mutations : List (Mutation π)) :
    Session CanonicalError (CanonicalTables π) TransactionResult :=
  if record.requestSha256 = requestSha256 hashes codec mutations then do
    rollback
    pure { record.result with replayed := true }
  else throw (.idempotencyError "idempotency key was already committed for a different request")

def firstUse (conditions : Conditions) (key : String) (mutations : List (Mutation π)) :
    Session CanonicalError (CanonicalTables π) TransactionResult := do
  let _ ← each mutations (checkPrecondition hashes conditions)
  let applied ← each mutations (applyMutation hashes codec conditions)
  let result : TransactionResult :=
    { idempotencyKey := key
      requestSha256 := requestSha256 hashes codec mutations
      mutations := applied
      replayed := false }
  statement (conditions.failure .record)
  insertRecord ⟨key, result.requestSha256, result, conditions.clock .record⟩
  statement (conditions.failure .commit)
  commit
  pure result

def transactionBody (conditions : Conditions) (key : String) (mutations : List (Mutation π)) :
    Session CanonicalError (CanonicalTables π) TransactionResult := do
  statement (conditions.failure .lookup)
  let replay ← query fun tables => tables.records.get? key
  match replay with
  | some record => replayRecord hashes codec record mutations
  | none => firstUse hashes codec conditions key mutations

/-- `apply_payload_transaction` from the normalized mutations on. -/
def applyNormalized (conditions : Conditions) (idempotencyKey : String) (mutations : List (Mutation π)) :
    Session CanonicalError (CanonicalTables π) TransactionResult :=
  if mutations = [] then throw (.valueError "mutations must contain at least one operation")
  else if ¬ (mutations.map Mutation.target).Nodup then
    throw (.valueError "one transaction cannot mutate the same target twice")
  else rollingBack do
    statement (conditions.failure .beginImmediate)
    beginTransaction
    transactionBody hashes codec conditions idempotencyKey mutations

def payloadTransactionResult (tables : CanonicalTables π) (idempotencyKey : String) : Option TransactionResult :=
  (tables.records.get? idempotencyKey).map (·.result)

end

end HarnessMem.Canonical
