import HarnessMem.Canonical.Normalization
import HarnessMem.Canonical.Transactions
import HarnessMem.Library.Execution

/-! Calls of the transaction one after another: a key takes effect once, and the rows
change only as its request says.
-/

set_option autoImplicit false

namespace HarnessMem.Canonical

open Library

abbrev CanonicalStore := CanonicalTables FrozenPayload

def Mutation.rowProject (mutation : Mutation FrozenPayload) : String :=
  match mutation.operation with
  | .upsert payload _ => (payloadProjectId payload.toPy).getD ""
  | _ => mutation.projectName

section

variable (containerRepr : PyValue → String) (hashes : Hashes)
  (columns : Collection → PyDict → Except CanonicalError DerivedColumns)

namespace TransactionCall

def outcome (call : TransactionCall) (store : CanonicalStore) :
    EStateM.Result CanonicalError (Database CanonicalStore) TransactionResult :=
  applyPayloadTransaction containerRepr hashes columns call (.idle store)

def Calm (call : TransactionCall) : Prop := ∀ statement, call.conditions.failure statement = none

/-- Every precondition is checked on the row its mutation is about, and no row is written twice. -/
def Addressed (call : TransactionCall) : Prop :=
  ∀ mutations, call.normalized containerRepr = .ok mutations →
    (∀ mutation ∈ mutations, mutation.expectedSha256.isSome → mutation.rowProject = mutation.projectName) ∧
    ((mutations.filter Mutation.isWriting).map (Mutation.rowKey hashes (payloadCodec columns))).Nodup

instance (call : TransactionCall) : Decidable (call.Addressed containerRepr hashes columns) :=
  match normalized : call.normalized containerRepr with
  | .error _ => .isTrue fun _ same => nomatch normalized.symm.trans same
  | .ok mutations =>
    decidable_of_iff
      ((∀ mutation ∈ mutations, mutation.expectedSha256.isSome → mutation.rowProject = mutation.projectName) ∧
        ((mutations.filter Mutation.isWriting).map (Mutation.rowKey hashes (payloadCodec columns))).Nodup)
      ⟨fun holds _ same => Except.ok.inj (normalized.symm.trans same) ▸ holds, fun addressed => addressed mutations normalized⟩

end TransactionCall

/-- The rows after every mutation of a request, and after nothing else. -/
structure Applied (mutations : List (Mutation FrozenPayload)) (before after : CanonicalStore) : Prop where
  expected : ∀ mutation ∈ mutations,
    mutation.Expects (before.rows.get? (mutation.rowKey hashes (payloadCodec columns)))
  upserted : ∀ mutation ∈ mutations, ∀ payload sourceRelpath, mutation.operation = .upsert payload sourceRelpath →
    ∃ time row, upsertedRow hashes (payloadCodec columns) time mutation payload sourceRelpath = .ok row ∧
      after.rows.get? (mutation.rowKey hashes (payloadCodec columns)) = some row
  deleted : ∀ mutation ∈ mutations, mutation.operation = .delete →
    after.rows.get? (mutation.rowKey hashes (payloadCodec columns)) = none
  others : ∀ key, (∀ mutation ∈ mutations, mutation.isWriting = true → mutation.rowKey hashes (payloadCodec columns) ≠ key) →
    after.rows.get? key = before.rows.get? key

def callStep (store : CanonicalStore) (call : TransactionCall) (next : CanonicalStore) : Prop :=
  (∃ result, call.outcome containerRepr hashes columns store = .ok result (.idle next)) ∨
    ∃ error, call.outcome containerRepr hashes columns store = .error error (.idle next)

/-- What a call does on the store the calls of `history` led to from `start`. -/
structure ExactlyOnce (start : CanonicalStore) (history : List TransactionCall) (store : CanonicalStore)
    (call : TransactionCall) : Prop where
  raises : ∀ error db, call.outcome containerRepr hashes columns store = .error error db → db = .idle store
  applies : ∀ mutations result db, call.normalized containerRepr = .ok mutations →
    store.records.get? call.key = none → call.outcome containerRepr hashes columns store = .ok result db →
    ∃ next, db = .idle next ∧ Applied hashes columns mutations store next ∧
      next.records = store.records.upsert
        ⟨call.key, requestSha256 hashes (payloadCodec columns) mutations, result, call.conditions.clock .record⟩
  replays : ∀ mutations record result db, call.normalized containerRepr = .ok mutations →
    store.records.get? call.key = some record → call.outcome containerRepr hashes columns store = .ok result db →
    record.requestSha256 = requestSha256 hashes (payloadCodec columns) mutations ∧
      result = { record.result with replayed := true } ∧ db = .idle store
  /-- A call of the history that returned decides every later call under its key. -/
  repeats : ∀ front earlier back before first after, history = front ++ earlier :: back →
    Exec (callStep containerRepr hashes columns) start front before →
    earlier.outcome containerRepr hashes columns before = .ok first (.idle after) →
    Exec (callStep containerRepr hashes columns) after back store → earlier.key = call.key →
    (call.normalized containerRepr = earlier.normalized containerRepr → call.Calm →
      call.outcome containerRepr hashes columns store = .ok { first with replayed := true } (.idle store)) ∧
    (call.normalized containerRepr ≠ earlier.normalized containerRepr →
      ∃ error, call.outcome containerRepr hashes columns store = .error error (.idle store))

end

variable {containerRepr : PyValue → String} {hashes : Hashes}
  {columns : Collection → PyDict → Except CanonicalError DerivedColumns}

/-! ### One call -/

namespace TransactionCall

variable {call : TransactionCall} {store next : CanonicalStore} {db : Database CanonicalStore} {result : TransactionResult}

theorem outcome_eq (call : TransactionCall) (store : CanonicalStore) {mutations : List (Mutation FrozenPayload)}
    (keyed : call.key ≠ "") (normalized : call.normalized containerRepr = .ok mutations) :
    call.outcome containerRepr hashes columns store =
      applyNormalized hashes (payloadCodec columns) call.conditions call.key mutations (.idle store) := by
  rw [outcome, applyPayloadTransaction, if_neg keyed, normalized]

theorem outcome_cases (call : TransactionCall) :
    (∃ error, ∀ store, call.outcome containerRepr hashes columns store = .error error (.idle store)) ∨
      ∃ mutations, call.key ≠ "" ∧ call.normalized containerRepr = .ok mutations ∧ ∀ store,
        call.outcome containerRepr hashes columns store =
          applyNormalized hashes (payloadCodec columns) call.conditions call.key mutations (.idle store) := by
  by_cases keyed : call.key = ""
  · left
    refine ⟨.valueError "idempotency_key must be non-empty", fun store => ?_⟩
    rw [outcome, applyPayloadTransaction, if_pos keyed]
    rfl
  · cases normalized : call.normalized containerRepr with
    | error failure =>
      left
      refine ⟨failure, fun store => ?_⟩
      rw [outcome, applyPayloadTransaction, if_neg keyed, normalized]
      rfl
    | ok mutations => exact .inr ⟨mutations, keyed, rfl, fun store => outcome_eq call store keyed normalized⟩

theorem outcome_ok (run : call.outcome containerRepr hashes columns store = .ok result db) :
    ∃ mutations, call.key ≠ "" ∧ call.normalized containerRepr = .ok mutations ∧
      applyNormalized hashes (payloadCodec columns) call.conditions call.key mutations (.idle store) = .ok result db := by
  rcases outcome_cases call with ⟨error, raised⟩ | ⟨mutations, keyed, normalized, applied⟩
  · rw [raised] at run
    cases run
  · exact ⟨mutations, keyed, normalized, (applied store).symm.trans run⟩

theorem outcome_error {error : CanonicalError} (run : call.outcome containerRepr hashes columns store = .error error db) :
    db = .idle store := by
  rcases outcome_cases call with ⟨failure, raised⟩ | ⟨mutations, _, _, applied⟩
  · rw [raised] at run
    cases run
    rfl
  · exact applyNormalized_error ((applied store).symm.trans run)

theorem recorded (run : call.outcome containerRepr hashes columns store = .ok result (.idle next)) :
    ∃ mutations record, call.key ≠ "" ∧ call.normalized containerRepr = .ok mutations ∧ mutations ≠ [] ∧
      (mutations.map Mutation.target).Nodup ∧ next.records.get? call.key = some record ∧
      record.requestSha256 = requestSha256 hashes (payloadCodec columns) mutations ∧
      { record.result with replayed := true } = { result with replayed := true } := by
  obtain ⟨mutations, keyed, normalized, applied⟩ := outcome_ok run
  obtain ⟨final, same, filled, distinct, committed | replayed⟩ := applyNormalized_ok applied
  · cases same
    have known : next.records.get? call.key = some
        ⟨call.key, requestSha256 hashes (payloadCodec columns) mutations, result, call.conditions.clock .record⟩ := by
      rw [committed.records, Table.get?_upsert, if_pos rfl]
    exact ⟨mutations, _, keyed, normalized, filled, distinct, known, rfl, rfl⟩
  · cases same
    obtain ⟨record, known, request, answer⟩ := replayed.recorded
    exact ⟨mutations, record, keyed, normalized, filled, distinct, replayed.unchanged ▸ known, request, by rw [answer]⟩

end TransactionCall

/-! ### Many calls -/

theorem record_kept {key : String} {record : TransactionRecord} {start final : CanonicalStore}
    {history : List TransactionCall} (run : Exec (callStep containerRepr hashes columns) start history final)
    (known : start.records.get? key = some record) : final.records.get? key = some record := by
  apply run.invariant (fun store => store.records.get? key = some record) _ known
  intro store call next held step
  rcases step with ⟨result, run⟩ | ⟨error, run⟩
  · obtain ⟨mutations, _, _, applied⟩ := TransactionCall.outcome_ok run
    obtain ⟨_, same, _, _, committed | replayed⟩ := applyNormalized_ok applied
    · cases same
      -- the new record is under a key that had none
      rw [committed.records, Table.get?_upsert, if_neg]
      · exact held
      · rintro rfl
        rw [committed.unused] at held
        cases held
    · cases same
      rw [replayed.unchanged]
      exact held
  · cases TransactionCall.outcome_error run
    exact held

theorem requestSha256_injective {first second : List (Mutation FrozenPayload)}
    (same : requestSha256 hashes (payloadCodec columns) first = requestSha256 hashes (payloadCodec columns) second) :
    first = second :=
  requestText_injective columns (hashes.sha256Text_injective same)

theorem rowKey_eq_statedKey {call : TransactionCall} (addressed : call.Addressed containerRepr hashes columns)
    {mutations : List (Mutation FrozenPayload)} (normalized : call.normalized containerRepr = .ok mutations)
    {mutation : Mutation FrozenPayload} (member : mutation ∈ mutations) (stated : mutation.expectedSha256.isSome) :
    mutation.rowKey hashes (payloadCodec columns) = mutation.statedKey hashes := by
  have agrees := (addressed mutations normalized).1 mutation member stated
  unfold Mutation.rowKey
  unfold Mutation.rowProject at agrees
  split
  · next payload sourceRelpath operation =>
    rw [operation] at agrees
    have project : ((payloadCodec columns).projectId payload).getD "" = mutation.projectName := agrees
    simp only [Mutation.statedKey, rowKey, project, Option.getD_some]
  · rfl

theorem applied_of_committed {call : TransactionCall} (addressed : call.Addressed containerRepr hashes columns)
    {mutations : List (Mutation FrozenPayload)} (normalized : call.normalized containerRepr = .ok mutations)
    {store next : CanonicalStore} {result : TransactionResult}
    (committed : Committed hashes (payloadCodec columns) call.conditions call.key mutations store next result) :
    Applied hashes columns mutations store next := by
  obtain ⟨_, distinct⟩ := addressed mutations normalized
  have places : ((writes hashes (payloadCodec columns) call.conditions mutations).map Write.place).Nodup :=
    distinct.sublist (writes_places mutations)
  have written : ∀ mutation ∈ mutations, ∀ write,
      mutation.write? hashes (payloadCodec columns) call.conditions = some write →
      next.rows.get? (mutation.rowKey hashes (payloadCodec columns)) = write.row? := by
    intro mutation member write found
    rw [← (write?_place found).1, committed.rows]
    exact Table.get?_performAll_of_mem places (List.mem_filterMap.mpr ⟨mutation, member, found⟩)
  constructor
  · intro mutation member expected stated
    have key := rowKey_eq_statedKey addressed normalized member (by rw [stated]; rfl)
    rw [key]
    exact committed.expected mutation member expected stated
  · intro mutation member payload sourceRelpath operation
    obtain ⟨row, built, put⟩ := write?_upsert operation (committed.writable mutation member)
    exact ⟨_, row, built, written mutation member _ put⟩
  · intro mutation member operation
    apply written mutation member (.remove (mutation.statedKey hashes))
    simp [Mutation.write?, operation]
  · intro key untouched
    rw [committed.rows]
    apply Table.get?_performAll_of_notMem
    intro inside
    obtain ⟨mutation, member, place⟩ := List.mem_map.mp ((writes_places mutations).subset inside)
    rw [List.mem_filter] at member
    exact untouched mutation member.1 member.2 place

theorem payload_transactions_exactly_once {start store : CanonicalStore} {history : List TransactionCall}
    (run : Exec (callStep containerRepr hashes columns) start history store) {call : TransactionCall}
    (addressed : call.Addressed containerRepr hashes columns) :
    ExactlyOnce containerRepr hashes columns start history store call := by
  constructor
  · intro error db raised
    exact TransactionCall.outcome_error raised
  · intro mutations result db normalized unused returned
    obtain ⟨_, _, same, applied⟩ := TransactionCall.outcome_ok returned
    cases normalized.symm.trans same
    obtain ⟨next, left, _, _, committed | replayed⟩ := applyNormalized_ok applied
    · exact ⟨next, left, applied_of_committed addressed normalized committed, committed.records⟩
    · obtain ⟨record, known, _⟩ := replayed.recorded
      rw [unused] at known
      cases known
  · intro mutations record result db normalized known returned
    obtain ⟨_, _, same, applied⟩ := TransactionCall.outcome_ok returned
    cases normalized.symm.trans same
    obtain ⟨next, left, _, _, committed | replayed⟩ := applyNormalized_ok applied
    · rw [committed.unused] at known
      cases known
    · obtain ⟨found, found_known, request, answer⟩ := replayed.recorded
      cases known.symm.trans found_known
      exact ⟨request, answer, replayed.unchanged ▸ left⟩
  · intro front earlier back before first after _ _ returned later sameKey
    obtain ⟨mutations, record, keyed, normalized, filled, distinct, known, request, answer⟩ := TransactionCall.recorded returned
    have kept := record_kept later known
    rw [sameKey] at kept
    constructor
    · intro again calm
      rw [TransactionCall.outcome_eq call store (sameKey ▸ keyed) (again.trans normalized),
        applyNormalized_replay calm filled distinct kept request, answer]
    · intro other
      cases outcome : call.outcome containerRepr hashes columns store with
      | error error db => exact ⟨error, by rw [TransactionCall.outcome_error outcome]⟩
      | ok result db =>
        exfalso
        obtain ⟨repeated, _, same, applied⟩ := TransactionCall.outcome_ok outcome
        obtain ⟨next, left, _, _, committed | replayed⟩ := applyNormalized_ok applied
        · rw [committed.unused] at kept
          cases kept
        · obtain ⟨found, found_known, request', _⟩ := replayed.recorded
          cases kept.symm.trans found_known
          have equal := requestSha256_injective (request.symm.trans request')
          exact other (same.trans (equal ▸ normalized.symm))

/-- An upsert of the absent row `k` whose payload names its project by some value. -/
def addsRow (project : PyValue) : TransactionCall where
  idempotencyKey := "add"
  mutations := [.dict [("operation", .str "upsert"), ("collection", .str "skills"), ("entity_id", .str "k"),
    ("payload", .dict [("project_name", project)]), ("expected_sha256", .none)]]
  conditions := ⟨fun _ => none, fun _ => 0⟩

theorem addsRow_exactly_once :
    (∃ result db, (addsRow (.str "p")).outcome (fun _ => "") .spelled (fun _ _ => .ok []) .empty = .ok result db) ∧
      ExactlyOnce (fun _ => "") .spelled (fun _ _ => .ok []) .empty [] .empty (addsRow (.str "p")) := by
  constructor
  · have returns : ((addsRow (.str "p")).outcome (fun _ => "") .spelled (fun _ _ => .ok []) .empty matches .ok _ _) = true := by
      decide +kernel
    cases outcome : (addsRow (.str "p")).outcome (fun _ => "") .spelled (fun _ _ => .ok []) .empty with
    | ok result db => exact ⟨result, db, rfl⟩
    | error error db =>
      rw [outcome] at returns
      cases returns
  · exact payload_transactions_exactly_once (.nil _) (by decide +kernel)

/-- A store that holds the row `k` of project `p`. -/
def holdsRow : CanonicalStore where
  rows := Table.empty.upsert
    { rowKey := rowKey .spelled .skills (some "p") "k", collection := .skills, entityId := "k", projectId := some "p",
      columns := [], sourceRelpath := "", payload := .freeze [("project_name", .str "p")], payloadSha256 := "",
      migratedAt := 0 }
  records := .empty

def insertsOver (store : CanonicalStore) (normalized : Except CanonicalError (List (Mutation FrozenPayload)))
    (outcome : EStateM.Result CanonicalError (Database CanonicalStore) TransactionResult) : Bool :=
  match normalized, outcome with
  | .ok [mutation], .ok _ _ => mutation.expectedSha256 = some none &&
      (store.rows.get? (mutation.rowKey .spelled (payloadCodec fun _ _ => .ok []))).isSome
  | _, _ => false

/-- The project a payload names by an object is not looked at before the payload is frozen: the absent
row is looked for under no project, and the present row of project `p` is overwritten. -/
theorem exactly_once_fails : ¬ ∀ (start store : CanonicalStore) (history : List TransactionCall) (call : TransactionCall),
    Exec (callStep (fun _ => "") .spelled fun _ _ => .ok []) start history store →
      ExactlyOnce (fun _ => "") .spelled (fun _ _ => .ok []) start history store call := by
  intro all
  have law := all holdsRow holdsRow [] (addsRow (.object "p" true)) (.nil _)
  have evaluated : insertsOver holdsRow ((addsRow (.object "p" true)).normalized (fun _ => ""))
      ((addsRow (.object "p" true)).outcome (fun _ => "") .spelled (fun _ _ => .ok []) holdsRow) = true := by decide +kernel
  unfold insertsOver at evaluated
  split at evaluated
  · next mutation result db normalized outcome =>
    simp only [Bool.and_eq_true, decide_eq_true_eq] at evaluated
    obtain ⟨next, _, applied, _⟩ := law.applies [mutation] result db normalized rfl outcome
    have matched := applied.expected mutation List.mem_cons_self none evaluated.1
    rw [Option.map_eq_none_iff] at matched
    rw [matched] at evaluated
    exact absurd evaluated.2 (by decide)
  · cases evaluated

end HarnessMem.Canonical
