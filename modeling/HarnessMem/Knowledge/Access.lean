import HarnessMem.Canonical.Transactions
import HarnessMem.Knowledge.Payloads
import HarnessMem.Library.Programs

/-! The payload access of the structured store in canonical mode: reading rows by id
alone, listing a collection, and one transaction.
-/

set_option autoImplicit false

namespace HarnessMem.Knowledge

open Library Canonical

variable {π : Type}

/-- A mutation as the knowledge store states it. The project may be left to the payload. -/
structure StatedMutation (π : Type) where
  operation : Operation π
  collection : Collection
  entityId : String
  projectName : Option String
  expectedSha256 : Option (Option String)
  deriving DecidableEq

/-- The calls of `LocalStructuredStore`. -/
inductive StoreCall (π : Type) where
  | payloadExists (collection : Collection) (entityId : String)
  | readPayload (collection : Collection) (entityId : String)
  | payloadSha256 (collection : Collection) (entityId : String) (projectName : Option String)
  | listPayloads (collection : Collection) (projectName : Option String)
  | transaction (idempotencyKey : String) (mutations : List (StatedMutation π))
  | transactionResult (idempotencyKey : String)

@[reducible] def StoreCall.Answer : StoreCall π → Type
  | .payloadExists _ _ => Bool
  | .readPayload _ _ => Option π
  | .payloadSha256 _ _ _ => Option String
  | .listPayloads _ _ => List π
  | .transaction _ _ => Except CanonicalError TransactionResult
  | .transactionResult _ => Option TransactionResult

section

variable (hashes : Hashes) (codec : PayloadCodec π)

def RowOrder (first second : CanonicalEntityRow π) : Prop :=
  first.projectId.getD "" < second.projectId.getD "" ∨
    first.projectId.getD "" = second.projectId.getD "" ∧ first.entityId ≤ second.entityId

instance : DecidableRel (RowOrder : CanonicalEntityRow π → CanonicalEntityRow π → Prop) :=
  fun first second => inferInstanceAs (Decidable (_ ∨ _ ∧ _))

def listRows (tables : CanonicalTables π) (collection : Collection) (projectName : Option String) :
    List (CanonicalEntityRow π) :=
  (tables.rows.rows.filter fun row => row.collection = collection &&
    (projectName.isNone || row.projectId = projectName)).insertionSort RowOrder

/-- `get_row` without a project: the first of the rows with this id. -/
def rowById (tables : CanonicalTables π) (collection : Collection) (entityId : String) : Option (CanonicalEntityRow π) :=
  (listRows tables collection none).find? fun row => row.entityId = entityId

def digestOf (tables : CanonicalTables π) (collection : Collection) (entityId : String) (projectName : Option String) :
    Option String :=
  let row := match projectName with
    | none => rowById tables collection entityId
    | some project => getRow hashes tables collection entityId project
  row.map (·.payloadSha256)

/-- `_normalize_payload_mutation` on typed values. A stated digest comes from a row, where it is valid. -/
def StatedMutation.normalize (mutation : StatedMutation π) : Except CanonicalError (Mutation π) :=
  let entityId := stripped mutation.entityId
  if entityId = "" then .error (.valueError "mutation collection and entity_id must be non-empty")
  else
    match mutation.operation with
    | .upsert payload sourceRelpath =>
      let projectName := (codec.projectId payload).getD ""
      if mutation.projectName.any (· ≠ projectName) then .error (.valueError "upsert project_name must match its payload")
      else .ok ⟨.upsert payload sourceRelpath, mutation.collection, entityId, projectName, mutation.expectedSha256⟩
    | operation =>
      let projectName := stripped (mutation.projectName.getD "")
      if mutation.operation matches .assert && mutation.expectedSha256.join.isNone then
        .error (.valueError "assert operation requires an existing payload SHA-256")
      else if projectName = "" then .error (.valueError "delete mutation requires project_name")
      else .ok ⟨operation, mutation.collection, entityId, projectName, mutation.expectedSha256⟩

/-- `apply_payload_transaction` on typed payloads. -/
def applyStated (conditions : Conditions) (idempotencyKey : String) (mutations : List (StatedMutation π)) :
    Session CanonicalError (CanonicalTables π) TransactionResult :=
  if stripped idempotencyKey = "" then throw (.valueError "idempotency_key must be non-empty")
  else
    match mutations.mapM (StatedMutation.normalize codec) with
    | .error error => throw error
    | .ok normalized => applyNormalized hashes codec conditions (stripped idempotencyKey) normalized

def storeAnswers (tables : CanonicalTables π) : (call : StoreCall π) → call.Answer → CanonicalTables π → Prop
  | .payloadExists collection entityId, answer, after =>
    after = tables ∧ answer = (rowById tables collection entityId).isSome
  | .readPayload collection entityId, answer, after =>
    after = tables ∧ answer = (rowById tables collection entityId).map (·.payload)
  | .payloadSha256 collection entityId projectName, answer, after =>
    after = tables ∧ answer = digestOf hashes tables collection entityId projectName
  | .listPayloads collection projectName, answer, after =>
    after = tables ∧ answer = (listRows tables collection projectName).map (·.payload)
  | .transaction key mutations, answer, after => ∃ conditions,
    match applyStated hashes codec conditions key mutations (.idle tables) with
    | .ok result db => answer = .ok result ∧ after = db.tables
    | .error error db => answer = .error error ∧ after = db.tables
  | .transactionResult key, answer, after =>
    after = tables ∧ answer = payloadTransactionResult tables (stripped key)

end

end HarnessMem.Knowledge

/-! Rows of knowledge payloads, and what a committed transaction of one project does to them. -/

namespace HarnessMem.Knowledge

open Library Canonical

abbrev KnowledgeTables := CanonicalTables KnowledgePayload

def KnowledgePayload.collection : KnowledgePayload → Collection
  | .entry _ => .knowledgeEntries
  | .source _ => .knowledgeSources

section

variable (hashes : Hashes) (codec : PayloadCodec KnowledgePayload)

def keyAt (collection : Collection) (project : SingleLine) (entityId : String) : EntityTable × String :=
  (collection.table, rowKey hashes collection (some project.text) (stripped entityId))

def keyOf (payload : KnowledgePayload) : EntityTable × String := keyAt hashes payload.collection payload.projectName payload.id

/-- A row as the transaction writes it for its payload. -/
structure WellFormed (row : CanonicalEntityRow KnowledgePayload) : Prop where
  collection : row.collection = row.payload.collection
  entityId : row.entityId = stripped row.payload.id
  projectId : row.projectId = some row.payload.projectName.text
  rowKey : row.rowKey = rowKey hashes row.collection row.projectId row.entityId
  digest : row.payloadSha256 = hashes.sha256Text (codec.text row.payload)

def Sound (tables : KnowledgeTables) : Prop := ∀ row ∈ tables.rows.rows, WellFormed hashes codec row

end

def Holds (tables : KnowledgeTables) (payload : KnowledgePayload) : Prop :=
  ∃ row ∈ tables.rows.rows, row.payload = payload

variable {hashes : Hashes} {codec : PayloadCodec KnowledgePayload} {tables : KnowledgeTables}

theorem WellFormed.key {row : CanonicalEntityRow KnowledgePayload} (formed : WellFormed hashes codec row) :
    row.key = keyOf hashes row.payload := by
  unfold CanonicalEntityRow.key keyOf keyAt
  rw [formed.rowKey, formed.collection, formed.projectId, formed.entityId]

theorem Sound.holds_get? (sound : Sound hashes codec tables) {payload : KnowledgePayload} (holds : Holds tables payload) :
    ∃ row, tables.rows.get? (keyOf hashes payload) = some row ∧ row.payload = payload ∧ WellFormed hashes codec row := by
  obtain ⟨row, member, rfl⟩ := holds
  refine ⟨row, ?_, rfl, sound row member⟩
  rw [← (sound row member).key]
  exact Table.get?_of_mem member

theorem Sound.holds_unique (sound : Sound hashes codec tables) {first second : KnowledgePayload}
    (left : Holds tables first) (right : Holds tables second) (same : keyOf hashes first = keyOf hashes second) :
    first = second := by
  obtain ⟨row, found, rfl, _⟩ := sound.holds_get? left
  obtain ⟨other, found', rfl, _⟩ := sound.holds_get? right
  rw [same, found'] at found
  cases found
  rfl

/-! ### Reading rows -/

theorem mem_listRows {collection : Collection} {projectName : Option String} {row : CanonicalEntityRow KnowledgePayload} :
    row ∈ listRows tables collection projectName ↔
      row ∈ tables.rows.rows ∧ row.collection = collection ∧ (projectName = none ∨ row.projectId = projectName) := by
  simp [listRows]

theorem rowById_some {collection : Collection} {entityId : String} {row : CanonicalEntityRow KnowledgePayload}
    (found : rowById tables collection entityId = some row) :
    row ∈ tables.rows.rows ∧ row.collection = collection ∧ row.entityId = entityId := by
  have listed := mem_listRows.mp (List.mem_of_find?_eq_some found)
  exact ⟨listed.1, listed.2.1, by simpa using List.find?_some found⟩

/-! ### Keys of one project -/

theorem collection_of_table {first second : KnowledgePayload} (same : first.collection.table = second.collection.table) :
    first.collection = second.collection := by
  cases first <;> cases second <;> first | rfl | cases same

end HarnessMem.Knowledge
