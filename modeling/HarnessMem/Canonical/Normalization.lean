import HarnessMem.Canonical.Store
import HarnessMem.Library.Python

/-! Mutations as callers state them, the checks that turn them into normalized ones,
and the JSON payloads of the rows.
-/

set_option autoImplicit false

namespace HarnessMem.Canonical

open Library

/-- `_stable_json` and `_stable_json_value`. -/
def stableJson (value : JsonValue) : String := String.ofList (value.sortKeys.dumps true)

def payloadProjectId (payload : PyDict) : Option String :=
  let named (fields : PyDict) : Option String :=
    match fields.get "project_name" with
    | .str project => if project = "" then none else some project
    | _ => none
  match named payload with
  | some project => some project
  | none =>
    match payload.get "metadata" with
    | .dict metadata => named metadata
    | _ => none

theorem stableJson_inj {first second : JsonValue} (left : first.distinct = true) (right : second.distinct = true)
    (same : stableJson first = stableJson second) : first.sortKeys = second.sortKeys :=
  dumps_injective true (first.sortKeys_distinct left) (second.sortKeys_distinct right) (String.ofList_injective same)

/-- A payload that went through its JSON text: no caller holds on to it. -/
structure FrozenPayload where
  fields : List (String × JsonValue)
  distinct : (JsonValue.obj fields).distinct = true
  sorted : (JsonValue.obj fields).sortKeys = .obj fields

namespace FrozenPayload

def json (payload : FrozenPayload) : JsonValue := .obj payload.fields

/-- The dictionary `json.loads` returns. -/
def toPy (payload : FrozenPayload) : PyDict := PyValue.ofJsonFields payload.fields

theorem eq_of_fields {first second : FrozenPayload} (same : first.fields = second.fields) : first = second := by
  cases first
  cases second
  simpa using same

/-- `json.loads(_stable_json(payload))`. -/
def freeze (payload : PyDict) : FrozenPayload where
  fields := (JsonValue.sortKeysFields ((PyValue.toJsonFields payload).foldl setField [])).insertionSort JsonValue.KeyOrder
  distinct := JsonValue.sortKeys_distinct _ (PyValue.toJson_distinct (.dict payload))
  sorted := JsonValue.sortKeys_sortKeys (PyValue.dict payload).toJson

end FrozenPayload

/-! ### Normalizing -/

namespace Mutation

def expectedFields (mutation : Mutation FrozenPayload) : List (String × JsonValue) :=
  match mutation.expectedSha256 with
  | none => []
  | some none => [("expected_sha256", .null)]
  | some (some digest) => [("expected_sha256", .str digest)]

def payloadFields (mutation : Mutation FrozenPayload) : List (String × JsonValue) :=
  match mutation.operation with
  | .upsert payload _ => [("payload", payload.json)]
  | _ => []

def relpathFields (mutation : Mutation FrozenPayload) : List (String × JsonValue) :=
  match mutation.operation with
  | .upsert _ (some path) => [("source_relpath", .str path)]
  | _ => []

def operationName (mutation : Mutation FrozenPayload) : String :=
  match mutation.operation with
  | .upsert _ _ => "upsert"
  | .delete => "delete"
  | .assert => "assert"

/-- The dictionary `_normalize_payload_mutation` returns, its keys sorted. -/
def fields (mutation : Mutation FrozenPayload) : List (String × JsonValue) :=
  [("collection", .str mutation.collection.value), ("entity_id", .str mutation.entityId)] ++ mutation.expectedFields ++
    [("operation", .str mutation.operationName)] ++ mutation.payloadFields ++
    [("project_name", .str mutation.projectName)] ++ mutation.relpathFields

def toJson (mutation : Mutation FrozenPayload) : JsonValue := .obj mutation.fields

def keys : List String :=
  ["collection", "entity_id", "expected_sha256", "operation", "payload", "project_name", "source_relpath"]

theorem keys_ordered : keys.Pairwise (· ≤ ·) ∧ keys.Nodup := by decide

theorem fields_keys (mutation : Mutation FrozenPayload) : (mutation.fields.map (·.1)).Sublist keys := by
  obtain ⟨operation, collection, entityId, projectName, expected⟩ := mutation
  rcases expected with _ | _ | digest <;> rcases operation with ⟨payload, _ | path⟩ | _ | _ <;>
    simp [fields, expectedFields, payloadFields, relpathFields, keys]

theorem fields_values (mutation : Mutation FrozenPayload) :
    ∀ field ∈ mutation.fields, field.2.sortKeys = field.2 ∧ field.2.distinct = true := by
  obtain ⟨operation, collection, entityId, projectName, expected⟩ := mutation
  have scalar : ∀ text : String, (JsonValue.str text).sortKeys = .str text ∧ (JsonValue.str text).distinct = true :=
    fun _ => ⟨rfl, rfl⟩
  have absent : JsonValue.null.sortKeys = .null ∧ JsonValue.null.distinct = true := ⟨rfl, rfl⟩
  have payloads : ∀ payload : FrozenPayload, payload.json.sortKeys = payload.json ∧ payload.json.distinct = true :=
    fun payload => ⟨payload.sorted, payload.distinct⟩
  rcases expected with _ | _ | digest <;> rcases operation with ⟨payload, _ | path⟩ | _ | _ <;>
    simp [fields, expectedFields, payloadFields, relpathFields, scalar, absent, payloads]

theorem toJson_sorted (mutation : Mutation FrozenPayload) : mutation.toJson.sortKeys = mutation.toJson := by
  have settled : ∀ field ∈ mutation.fields, (field.1, field.2.sortKeys) = field := by
    intro field member
    rw [(mutation.fields_values field member).1]
  have named : (mutation.fields.map (·.1)).Pairwise (· ≤ ·) := keys_ordered.1.sublist mutation.fields_keys
  have ordered : mutation.fields.Pairwise fun first second => first.1 ≤ second.1 := List.pairwise_map.mp named
  rw [toJson, JsonValue.sortKeys, JsonValue.sortKeysFields_eq, List.map_congr_left settled, List.map_id']
  exact congrArg JsonValue.obj (List.Pairwise.insertionSort_eq ordered)

theorem toJson_distinct (mutation : Mutation FrozenPayload) : mutation.toJson.distinct = true := by
  have names : (mutation.fields.map (·.1)).Nodup := keys_ordered.2.sublist mutation.fields_keys
  have values := fun field member => (mutation.fields_values field member).2
  simp only [toJson, JsonValue.distinct, Bool.and_eq_true, JsonValue.distinctFields_iff]
  exact ⟨decide_eq_true names, values⟩

theorem lookup_fields (mutation : Mutation FrozenPayload) :
    mutation.fields.lookup "collection" = some (.str mutation.collection.value) ∧
    mutation.fields.lookup "entity_id" = some (.str mutation.entityId) ∧
    mutation.fields.lookup "expected_sha256" = mutation.expectedSha256.map (fun expected => (expected.map .str).getD .null) ∧
    mutation.fields.lookup "operation" = some (.str mutation.operationName) ∧
    mutation.fields.lookup "payload" = mutation.payloadFields.lookup "payload" ∧
    mutation.fields.lookup "project_name" = some (.str mutation.projectName) ∧
    mutation.fields.lookup "source_relpath" = mutation.relpathFields.lookup "source_relpath" := by
  obtain ⟨operation, collection, entityId, projectName, expected⟩ := mutation
  rcases expected with _ | _ | digest <;> rcases operation with ⟨payload, _ | path⟩ | _ | _ <;>
    simp [fields, expectedFields, payloadFields, relpathFields, operationName, List.lookup_cons]

theorem toJson_injective : Function.Injective toJson := by
  intro first second same
  have lookups := JsonValue.obj.inj same
  obtain ⟨collection, entityId, expected, name, payload, projectName, relpath⟩ := lookup_fields first
  obtain ⟨collection', entityId', expected', name', payload', projectName', relpath'⟩ := lookup_fields second
  rw [lookups] at collection entityId expected name payload projectName relpath
  replace collection := Collection.value_injective (JsonValue.str.inj (Option.some.inj (collection'.symm.trans collection)))
  replace entityId := JsonValue.str.inj (Option.some.inj (entityId'.symm.trans entityId))
  replace projectName := JsonValue.str.inj (Option.some.inj (projectName'.symm.trans projectName))
  replace expected := expected'.symm.trans expected
  replace name := JsonValue.str.inj (Option.some.inj (name'.symm.trans name))
  replace payload := payload'.symm.trans payload
  replace relpath := relpath'.symm.trans relpath
  clear same lookups collection' entityId' projectName' expected' name' payload' relpath'
  obtain ⟨operation, _, _, _, stated⟩ := first
  obtain ⟨operation', _, _, _, stated'⟩ := second
  have sameExpected : stated = stated' := by
    rcases stated with _ | _ | digest <;> rcases stated' with _ | _ | digest' <;> simp_all
  have sameOperation : operation = operation' := by
    cases operation with
    | upsert frozen path =>
      cases operation' with
      | upsert frozen' path' =>
        simp only [payloadFields, List.lookup_cons_self, Option.some.injEq] at payload
        rw [FrozenPayload.eq_of_fields (JsonValue.obj.inj payload)]
        cases path <;> cases path' <;> simp_all [relpathFields]
      | delete | assert => exact absurd name (by simp [operationName])
    | delete => cases operation' <;> first | rfl | exact absurd name (by simp [operationName])
    | assert => cases operation' <;> first | rfl | exact absurd name (by simp [operationName])
  dsimp only at collection entityId projectName
  rw [sameExpected, sameOperation, collection, entityId, projectName]

end Mutation

section

variable (containerRepr : PyValue → String)

/-- `expected_sha256` when it is stated. -/
def normalizeExpected (mutation : PyDict) : Except CanonicalError (Option (Option String)) :=
  match mutation.get? "expected_sha256" with
  | none => .ok none
  | some .none => .ok (some none)
  | some value =>
    let expected := (stripped (value.toStr containerRepr)).toLower
    if expected.toList.length ≠ 64 || expected.toList.any fun c => c ∉ "0123456789abcdef".toList then
      .error (.valueError "expected_sha256 must be a lowercase SHA-256 or None")
    else .ok (some (some expected))

def normalizeUpsert (mutation : PyDict) : Except CanonicalError (Operation FrozenPayload × String) :=
  match mutation.get "payload" with
  | .dict payload =>
    let projectName := (payloadProjectId payload).getD ""
    let mismatch := match mutation.get "project_name" with
      | .none => false
      | supplied => supplied.toStr containerRepr ≠ projectName
    if mismatch then .error (.valueError "upsert project_name must match its payload")
    else
      let sourceRelpath := match mutation.get "source_relpath" with
        | .none => none
        | path => some (path.toStr containerRepr)
      .ok (.upsert (.freeze payload) sourceRelpath, projectName)
  | _ => .error (.typeError "upsert mutation payload must be a dictionary")

def normalizeStated (operation : Operation FrozenPayload) (mutation : PyDict) :
    Except CanonicalError (Operation FrozenPayload × String) :=
  let projectName := stripped ((mutation.get "project_name").orEmpty containerRepr)
  if projectName = "" then .error (.valueError "delete mutation requires project_name")
  else if (mutation.get? "payload").isSome || (mutation.get? "source_relpath").isSome then
    .error (.valueError "delete mutation cannot include payload or source_relpath")
  else .ok (operation, projectName)

def allowedFields (upsert : Bool) : List String :=
  ["operation", "collection", "entity_id", "expected_sha256", "project_name"] ++
    if upsert then ["payload", "source_relpath"] else []

def unexpectedFields (mutation : PyDict) (upsert : Bool) : List String :=
  (((mutation.map (·.1)).dedup).filter fun key => key ∉ allowedFields upsert).insertionSort (· ≤ ·)

/-- `_normalize_payload_mutation` on a dictionary. -/
def normalizeFields (mutation : PyDict) : Except CanonicalError (Mutation FrozenPayload) := do
  -- `lower` beyond ASCII makes none of the words and digits looked for
  let operation := (stripped ((mutation.get "operation").orEmpty containerRepr)).toLower
  if operation ∉ ["upsert", "delete", "assert"] then
    throw (.valueError "mutation operation must be 'upsert', 'delete' or 'assert'")
  let collectionText := stripped ((mutation.get "collection").orEmpty containerRepr)
  let entityId := stripped ((mutation.get "entity_id").orEmpty containerRepr)
  if collectionText = "" || entityId = "" then
    throw (.valueError "mutation collection and entity_id must be non-empty")
  match Collection.ofValue? collectionText with
  | none => throw (.valueError ("unsupported canonical collection: " ++ collectionText))
  | some collection =>
    let expectedSha256 ← normalizeExpected containerRepr mutation
    if operation = "assert" && (expectedSha256.join).isNone then
      throw (.valueError "assert operation requires an existing payload SHA-256")
    let (part, projectName) ←
      if operation = "upsert" then normalizeUpsert containerRepr mutation
      else normalizeStated containerRepr (if operation = "delete" then .delete else .assert) mutation
    let unexpected := unexpectedFields mutation (operation = "upsert")
    if unexpected ≠ [] then
      throw (.valueError ("unsupported mutation fields: " ++ ", ".intercalate unexpected))
    pure { operation := part, collection, entityId, projectName, expectedSha256 }

def normalizePayloadMutation : PyValue → Except CanonicalError (Mutation FrozenPayload)
  | .dict mutation => normalizeFields containerRepr mutation
  | _ => .error (.typeError "each mutation must be a dictionary")

def payloadCodec (columns : Collection → PyDict → Except CanonicalError DerivedColumns) : PayloadCodec FrozenPayload where
  text payload := stableJson payload.json
  projectId payload := payloadProjectId payload.toPy
  requestText mutations := stableJson (.arr (mutations.map Mutation.toJson))
  columns collection payload := columns collection payload.toPy

theorem requestText_injective (columns : Collection → PyDict → Except CanonicalError DerivedColumns) :
    Function.Injective (payloadCodec columns).requestText := by
  intro first second same
  have distinct : ∀ mutations : List (Mutation FrozenPayload),
      (JsonValue.arr (mutations.map Mutation.toJson)).distinct = true := by
    intro mutations
    apply (JsonValue.distinctItems_iff _).mpr
    rw [List.forall_mem_map]
    exact fun mutation _ => mutation.toJson_distinct
  have sorted : ∀ mutations : List (Mutation FrozenPayload),
      (JsonValue.arr (mutations.map Mutation.toJson)).sortKeys = .arr (mutations.map Mutation.toJson) := by
    intro mutations
    rw [JsonValue.sortKeys, JsonValue.sortKeysItems_eq, List.map_map]
    exact congrArg JsonValue.arr (List.map_congr_left fun mutation _ => mutation.toJson_sorted)
  have values := stableJson_inj (distinct first) (distinct second) same
  rw [sorted, sorted, JsonValue.arr.injEq] at values
  exact Mutation.toJson_injective.list_map values

/-- One call of `apply_payload_transaction` and the conditions it meets. -/
structure TransactionCall where
  idempotencyKey : String
  mutations : List PyValue
  conditions : Conditions

def TransactionCall.key (call : TransactionCall) : String := stripped call.idempotencyKey

def TransactionCall.normalized (call : TransactionCall) : Except CanonicalError (List (Mutation FrozenPayload)) :=
  call.mutations.mapM (normalizePayloadMutation containerRepr)

variable (hashes : Hashes) (columns : Collection → PyDict → Except CanonicalError DerivedColumns)

def applyPayloadTransaction (call : TransactionCall) :
    Session CanonicalError (CanonicalTables FrozenPayload) TransactionResult :=
  if call.key = "" then throw (.valueError "idempotency_key must be non-empty")
  else
    match call.normalized containerRepr with
    | .error error => throw error
    | .ok mutations => applyNormalized hashes (payloadCodec columns) call.conditions call.key mutations

end

end HarnessMem.Canonical
