import HarnessMem.Knowledge.Access
import HarnessMem.Knowledge.Store
import HarnessMem.Library.Programs
import HarnessMem.Library.Results

/-! What the operations on current knowledge read and find, and that each of them commits at
most one transaction of rows as their payloads are stored.
-/

set_option autoImplicit false

namespace HarnessMem.Knowledge

open Library Canonical Program

variable {hashes : Hashes} {iso : Isoformat} {columns : Collection → PyDict → Except CanonicalError DerivedColumns}

/-! ### Transactions of typed payloads -/

variable {codec : PayloadCodec KnowledgePayload} {conditions : Conditions} {tables : KnowledgeTables} {key : String}
  {mutations : List (StatedMutation KnowledgePayload)} {db : Database KnowledgeTables}

theorem applyStated_ok {result : TransactionResult}
    (ran : applyStated hashes codec conditions key mutations (.idle tables) = .ok result db) :
    stripped key ≠ "" ∧ ∃ normalized, mutations.mapM (StatedMutation.normalize codec) = .ok normalized ∧ normalized ≠ [] ∧
      (normalized.map Mutation.target).Nodup ∧ ∃ after, db = .idle after ∧
        (Committed hashes codec conditions (stripped key) normalized tables after result ∨
          Replayed hashes codec (stripped key) normalized tables after result) := by
  unfold applyStated at ran
  by_cases blank : stripped key = ""
  · rw [if_pos blank] at ran
    cases ran
  · rw [if_neg blank] at ran
    refine ⟨blank, ?_⟩
    cases read : mutations.mapM (StatedMutation.normalize codec) with
    | error error =>
      rw [read] at ran
      cases ran
    | ok normalized =>
      rw [read] at ran
      obtain ⟨after, same, filled, distinct, done⟩ := applyNormalized_ok ran
      exact ⟨normalized, rfl, filled, distinct, after, same, done⟩

theorem applyStated_error {error : CanonicalError}
    (ran : applyStated hashes codec conditions key mutations (.idle tables) = .error error db) : db = .idle tables := by
  unfold applyStated at ran
  by_cases blank : stripped key = ""
  · rw [if_pos blank] at ran
    cases ran
    rfl
  · rw [if_neg blank] at ran
    cases read : mutations.mapM (StatedMutation.normalize codec) with
    | error error =>
      rw [read] at ran
      cases ran
      rfl
    | ok normalized =>
      rw [read] at ran
      exact applyNormalized_error ran

variable {answer : Except CanonicalError TransactionResult}

theorem transaction_cases {after : KnowledgeTables}
    (gives : storeAnswers hashes codec tables (.transaction key mutations) answer after) :
    (∃ error, answer = .error error ∧ after = tables) ∨
      ∃ conditions normalized result, answer = .ok result ∧ mutations.mapM (StatedMutation.normalize codec) = .ok normalized ∧
        (Committed hashes codec conditions (stripped key) normalized tables after result ∨
          Replayed hashes codec (stripped key) normalized tables after result) := by
  obtain ⟨conditions, gives⟩ := gives
  cases outcome : applyStated hashes codec conditions key mutations (.idle tables) with
  | error error db =>
    rw [outcome] at gives
    rw [applyStated_error outcome] at gives
    exact .inl ⟨error, gives⟩
  | ok result db =>
    rw [outcome] at gives
    obtain ⟨rfl, rfl⟩ := gives
    obtain ⟨-, normalized, read, -, -, final, rfl, done⟩ := applyStated_ok outcome
    exact .inr ⟨conditions, normalized, result, rfl, read, done⟩

def Formed (mutation : StatedMutation KnowledgePayload) : Prop :=
  ∀ payload path, mutation.operation = .upsert payload path →
    mutation.collection = payload.collection ∧ mutation.entityId = payload.id

theorem normalize_ok {mutation : StatedMutation KnowledgePayload}
    {normalized : Mutation KnowledgePayload} (read : mutation.normalize codec = .ok normalized) :
    normalized.operation = mutation.operation ∧ normalized.collection = mutation.collection ∧
      normalized.entityId = stripped mutation.entityId ∧ normalized.expectedSha256 = mutation.expectedSha256 ∧
      (mutation.operation = .delete → normalized.projectName = stripped (mutation.projectName.getD "")) := by
  obtain ⟨operation, collection, entityId, projectName, expected⟩ := mutation
  unfold StatedMutation.normalize at read
  dsimp only at read
  split at read
  · cases read
  · cases operation with
    | upsert payload path =>
      dsimp only at read
      split at read
      · cases read
      · cases read
        exact ⟨rfl, rfl, rfl, rfl, nofun⟩
    | delete | assert =>
      dsimp only at read
      split at read
      · cases read
      · split at read
        · cases read
        · cases read
          exact ⟨rfl, rfl, rfl, rfl, fun _ => rfl⟩

theorem wellFormed_put {stated : StatedMutation KnowledgePayload} {mutation : Mutation KnowledgePayload} (formed : Formed stated)
    (read : stated.normalize (knowledgeCodec iso columns) = .ok mutation)
    {row : CanonicalEntityRow KnowledgePayload}
    (written : mutation.write? hashes (knowledgeCodec iso columns) conditions = some (.put row)) :
    WellFormed hashes (knowledgeCodec iso columns) row := by
  obtain ⟨operation, collection, entityId, -, -⟩ := normalize_ok read
  unfold Mutation.write? at written
  cases given : mutation.operation with
  | assert => rw [given] at written; cases written
  | delete => rw [given] at written; cases written
  | upsert payload path =>
    rw [given] at written
    rw [given] at operation
    obtain ⟨placed, named⟩ := formed payload path operation.symm
    dsimp only at written
    unfold upsertedRow at written
    cases derived : (knowledgeCodec iso columns).columns mutation.collection payload with
    | error failure => simp [derived, Bind.bind, Except.bind, Except.toOption] at written
    | ok values =>
      simp only [derived, Bind.bind, Except.bind, pure, Except.pure, Except.toOption, Option.map_some, Option.some.injEq,
        Write.put.injEq] at written
      subst written
      exact ⟨collection.trans placed, by rw [entityId, named], @knowledgeCodec_projectId iso columns payload, rfl, rfl⟩

theorem sound_transaction {after : KnowledgeTables} (sound : Sound hashes (knowledgeCodec iso columns) tables) (formed : ∀ mutation ∈ mutations, Formed mutation)
    (gives : storeAnswers hashes (knowledgeCodec iso columns) tables (.transaction key mutations) answer after) :
    Sound hashes (knowledgeCodec iso columns) after := by
  rcases transaction_cases gives with ⟨error, -, rfl⟩ | ⟨conditions, normalized, result, -, read, committed | replayed⟩
  · exact sound
  · intro row member
    rw [committed.rows] at member
    rcases Table.mem_performAll member with old | put
    · exact sound row old
    · obtain ⟨mutation, inside, written⟩ := List.mem_filterMap.mp put
      obtain ⟨stated, given, kept⟩ := of_mem_mapM read inside
      exact wellFormed_put (formed stated given) kept written
  · rw [replayed.unchanged]
    exact sound

/-! ### What the operations read -/

def asksRecords : StoreCall KnowledgePayload → Prop
  | .transaction _ _ | .transactionResult _ => True
  | _ => False

section
variable {codec : PayloadCodec KnowledgePayload} {tables after : KnowledgeTables}

abbrev Runs {α : Type} (hashes : Hashes) (codec : PayloadCodec KnowledgePayload) (tables : KnowledgeTables)
    (program : Program (StoreCall KnowledgePayload) StoreCall.Answer KnowledgeError α) (after : KnowledgeTables)
    (result : Except KnowledgeError α) : Prop :=
  Executes (storeAnswers hashes codec) tables program after result

variable {call : StoreCall KnowledgePayload}

theorem storeAnswers_reads {tables next : KnowledgeTables} {answer : call.Answer}
    (other : ¬ asksRecords call) (gives : storeAnswers hashes codec tables call answer next) : next = tables := by
  cases call with
  | transaction | transactionResult => exact absurd trivial other
  | payloadExists | readPayload | payloadSha256 | listPayloads => exact gives.1

theorem storeAnswers_sameRows {tables next same : KnowledgeTables} (rows : same.rows = tables.rows) {answer : call.Answer} (other : ¬ asksRecords call)
    (gives : storeAnswers hashes codec tables call answer next) : storeAnswers hashes codec same call answer same := by
  obtain ⟨found, records⟩ := same
  cases rows
  cases call with
  | transaction | transactionResult => exact absurd trivial other
  | payloadExists | readPayload | payloadSha256 | listPayloads => exact ⟨rfl, gives.2⟩

variable {α : Type}

theorem Runs.reads {program : Program (StoreCall KnowledgePayload) StoreCall.Answer KnowledgeError α}
    {result : Except KnowledgeError α} (avoids : Avoids asksRecords program) (run : Runs hashes codec tables program after result) :
    after = tables :=
  run.unchanged (fun _ _ _ _ other gives => storeAnswers_reads other gives) avoids

theorem payloadSha256_reads (collection : Collection) (entityId : String) (projectName : Option String) :
    Avoids asksRecords (payloadSha256 collection entityId projectName) := .call id

theorem getEntry_reads (entryId projectName : String) : Avoids asksRecords (getEntry entryId projectName) := by
  refine .bind (.call id) fun found => ?_
  cases found with
  | false => exact .ret _ _
  | true =>
    refine .bind (.call id) fun payload => ?_
    cases payload with
    | none => exact .raise _ _
    | some payload =>
      refine .bind ?_ fun entry => .ret _ _
      cases payload with
      | entry value => exact .ret _ _
      | source value => exact .raise _ _

theorem listSources_reads (knowledgeId : String) : Avoids asksRecords (listSources knowledgeId) :=
  .bind (.call id) fun _ => .ret _ _

theorem deleteOperation_reads (collection : Collection) (entityId projectName : String) :
    Avoids asksRecords (deleteOperation collection entityId projectName) := by
  refine .bind (.call id) fun digest => ?_
  cases digest with
  | none => exact .raise _ _
  | some digest => exact .ret _ _

theorem replaceOperation_reads (collection : Collection) (payload : KnowledgePayload) (projectName : String) :
    Avoids asksRecords (replaceOperation collection payload projectName) := by
  refine .bind (.call id) fun digest => ?_
  cases digest with
  | none => exact .raise _ _
  | some digest => exact .ret _ _

theorem retainOperation_reads (projectName : String) (retained : KnowledgeEntry) :
    Avoids asksRecords (retainOperation projectName retained) := by
  refine .bind (.call id) fun digest => .bind (getEntry_reads _ _) fun current => ?_
  split
  · exact .raise _ _
  · exact .ret _ _

theorem currentPredecessor_reads (projectName : String) (expected : KnowledgeEntry) :
    Avoids asksRecords (currentPredecessor projectName expected) := by
  refine .bind (getEntry_reads _ _) fun current => ?_
  cases current with
  | none => exact .raise _ _
  | some current =>
    dsimp only
    split
    · exact .raise _ _
    · exact .bind (listSources_reads _) fun _ => .ret _ _

theorem lifted_reads (result : Except String α) : Avoids asksRecords (lifted result) := by
  cases result with
  | ok value => exact .ret _ _
  | error message => exact .raise _ _

theorem retireOperations_reads (entry : KnowledgeEntry) (sources : List KnowledgeSource) :
    Avoids asksRecords (retireOperations entry sources) :=
  .bind (.each fun _ => deleteOperation_reads _ _ _) fun _ => .bind (deleteOperation_reads _ _ _) fun _ => .ret _ _

/-! ### What they find -/

variable {projectName : String}

theorem getEntry_ok {entryId : String} {entry : KnowledgeEntry}
    (run : Runs hashes codec tables (getEntry entryId projectName) after (.ok (some entry))) :
    ∃ row, rowById tables .knowledgeEntries entryId = some row ∧ row.payload = .entry entry ∧ entry.projectName.text = projectName := by
  obtain ⟨middle, found, asked, more⟩ := run.returned
  obtain ⟨rfl, -⟩ := asked.answered
  cases found with
  | false => cases more.of_ret.2
  | true =>
    obtain ⟨middle, payload, fetched, rest⟩ := more.returned
    obtain ⟨rfl, read⟩ := fetched.answered
    cases payload with
    | none => cases rest.of_raise.2
    | some payload =>
      obtain ⟨middle, value, read_entry, last⟩ := rest.returned
      obtain ⟨row, held, rfl⟩ := Option.map_eq_some_iff.mp read.symm
      cases shape : row.payload with
      | source value =>
        rw [shape] at read_entry
        cases read_entry.of_raise.2
      | entry stored =>
        rw [shape] at read_entry
        cases read_entry.of_ret.2
        have result := last.of_ret.2
        split at result
        · next project =>
          cases result
          exact ⟨row, held, shape, project⟩
        · cases result

theorem listSources_ok {knowledgeId : String} {sources : List KnowledgeSource}
    (run : Runs hashes codec tables (listSources knowledgeId) after (.ok sources)) {source : KnowledgeSource} :
    source ∈ sources ↔ (∃ row ∈ tables.rows.rows, row.collection = .knowledgeSources ∧ row.payload = .source source) ∧
      source.knowledgeId.text = knowledgeId := by
  obtain ⟨middle, payloads, asked, rest⟩ := run.returned
  obtain ⟨rfl, listed⟩ := asked.answered
  cases rest.of_ret.2
  simp only [listed, List.mem_insertionSort, List.mem_filter, List.mem_filterMap, List.mem_map, decide_eq_true_eq]
  refine and_congr_left fun _ => ?_
  constructor
  · rintro ⟨payload, ⟨row, member, rfl⟩, shape⟩
    obtain ⟨inside, placed, -⟩ := mem_listRows.mp member
    refine ⟨row, inside, placed, ?_⟩
    cases held : row.payload with
    | entry value => rw [held] at shape; cases shape
    | source value => rw [held] at shape; cases shape; rfl
  · rintro ⟨row, inside, placed, shape⟩
    exact ⟨row.payload, ⟨row, mem_listRows.mpr ⟨inside, placed, .inl rfl⟩, rfl⟩, by rw [shape]; rfl⟩

variable {mutation : StatedMutation KnowledgePayload}

theorem deleteOperation_ok {collection : Collection} {entityId : String}
    (run : Runs hashes codec tables (deleteOperation collection entityId projectName) after (.ok mutation)) :
    ∃ digest, mutation = ⟨.delete, collection, entityId, some projectName, some (some digest)⟩ := by
  obtain ⟨middle, digest, -, run⟩ := run.returned
  cases digest with
  | none => cases run.of_raise.2
  | some digest =>
    cases run.of_ret.2
    exact ⟨digest, rfl⟩

theorem retainOperation_ok {retained : KnowledgeEntry}
    (run : Runs hashes codec tables (retainOperation projectName retained) after (.ok mutation)) :
    mutation.operation = .assert := by
  obtain ⟨middle, digest, -, run⟩ := run.returned
  obtain ⟨middle, current, -, run⟩ := run.returned
  split at run
  · cases run.of_raise.2
  · cases run.of_ret.2
    rfl

variable {mutations : List (StatedMutation KnowledgePayload)}

theorem commitMutations_ok {key : String} {result : TransactionResult}
    (run : Runs hashes codec tables (commitMutations key mutations) after (.ok result)) :
    storeAnswers hashes codec tables (.transaction key mutations) (.ok result) after := by
  obtain ⟨middle, answer, asked, run⟩ := run.returned
  have gives := asked.answered
  cases answer with
  | error error => cases run.of_raise.2
  | ok value =>
    obtain ⟨rfl, same⟩ := run.of_ret
    cases same
    exact gives

theorem retireOperations_ok {entry : KnowledgeEntry} {sources : List KnowledgeSource}
    (run : Runs hashes codec tables (retireOperations entry sources) after (.ok mutations)) :
    ∀ mutation ∈ mutations, mutation.operation = .delete := by
  obtain ⟨middle, operations, deleted, rest⟩ := run.returned
  obtain ⟨rfl, each⟩ := deleted.of_each fun _ _ _ step => Runs.reads (deleteOperation_reads _ _ _) step
  obtain ⟨middle, last, final, done⟩ := rest.returned
  cases done.of_ret.2
  intro mutation inside
  rcases List.mem_append.mp inside with early | late
  · obtain ⟨source, -, step⟩ := exists_of_forall₂ (each operations rfl).flip mutation early
    obtain ⟨digest, rfl⟩ := deleteOperation_ok step
    rfl
  · obtain ⟨digest, rfl⟩ := deleteOperation_ok final
    rw [List.mem_singleton.mp late]

theorem replaceOperation_ok {collection : Collection} {payload : KnowledgePayload}
    (run : Runs hashes codec tables (replaceOperation collection payload projectName) after (.ok mutation)) :
    ∃ digest, mutation = ⟨.upsert payload none, collection, payload.id, some projectName, some (some digest)⟩ := by
  obtain ⟨middle, digest, -, rest⟩ := run.returned
  cases digest with
  | none => cases rest.of_raise.2
  | some digest =>
    cases rest.of_ret.2
    exact ⟨digest, rfl⟩

def Commits (hashes : Hashes) (codec : PayloadCodec KnowledgePayload) (tables after : KnowledgeTables) : Prop :=
  after = tables ∨ ∃ key mutations answer, (∀ mutation ∈ mutations, Formed mutation) ∧
    storeAnswers hashes codec tables (.transaction key mutations) answer after

theorem formed_of_other (other : mutation.operation = .delete ∨ mutation.operation = .assert) :
    Formed mutation := by
  intro payload path upsert
  rw [upsert] at other
  rcases other with impossible | impossible <;> cases impossible

variable {result : Except KnowledgeError TransactionResult}

theorem commitMutations_commits {key : String}
    (formed : ∀ mutation ∈ mutations, Formed mutation)
    (run : Runs hashes codec tables (commitMutations key mutations) after result) : Commits hashes codec tables after := by
  rcases run.of_bind with ⟨middle, answer, asked, rest⟩ | ⟨error, asked, -⟩
  · have gives := asked.answered
    cases answer with
    | error error =>
      obtain ⟨rfl, -⟩ := rest.of_raise
      exact .inr ⟨key, mutations, _, formed, gives⟩
    | ok value =>
      obtain ⟨rfl, -⟩ := rest.of_ret
      exact .inr ⟨key, mutations, _, formed, gives⟩
  · obtain ⟨answer, -, impossible⟩ := asked.of_call
    cases impossible

theorem Commits.behind {β : Type} {first : Program (StoreCall KnowledgePayload) StoreCall.Answer KnowledgeError α}
    {next : α → Program (StoreCall KnowledgePayload) StoreCall.Answer KnowledgeError β} (avoids : Avoids asksRecords first)
    {result : Except KnowledgeError β} (run : Runs hashes codec tables (first.bind next) after result)
    (goesOn : ∀ value, Runs hashes codec tables first tables (.ok value) → Runs hashes codec tables (next value) after result →
      Commits hashes codec tables after) : Commits hashes codec tables after := by
  rcases run.of_bind with ⟨middle, value, head, tail⟩ | ⟨error, failed, -⟩
  · cases Runs.reads avoids head
    exact goesOn value head tail
  · exact .inl (Runs.reads avoids failed)

theorem applyCurrentChange_commits {urls : Urls} {change : CurrentChange}
    (run : Runs hashes codec tables (applyCurrentChange urls hashes change) after result) : Commits hashes codec tables after := by
  unfold applyCurrentChange at run
  cases refused : change.refusal? with
  | some message =>
    rw [refused] at run
    exact .inl run.of_raise.1
  | none =>
    rw [refused] at run
    refine .behind (.each fun _ => currentPredecessor_reads _ _) run fun current _ run => ?_
    refine .behind (lifted_reads _) run fun checked _ run => ?_
    refine .behind (lifted_reads _) run fun newSources _ run => ?_
    refine .behind (.each fun _ => retireOperations_reads _ _) run fun retired retiring run => ?_
    refine commitMutations_commits (fun mutation inside => ?_) run
    obtain ⟨-, each⟩ := retiring.of_each fun _ _ _ step => Runs.reads (retireOperations_reads _ _) step
    simp only [List.mem_append, List.mem_flatten, List.mem_map] at inside
    rcases inside with (⟨operations, retiredOne, inside⟩ | ⟨entry, -, rfl⟩) | ⟨source, -, rfl⟩
    · obtain ⟨predecessor, -, step⟩ := exists_of_forall₂ (each retired rfl).flip operations retiredOne
      exact formed_of_other (.inl (retireOperations_ok step mutation inside))
    · rintro payload path ⟨⟩
      exact ⟨rfl, rfl⟩
    · rintro payload path ⟨⟩
      exact ⟨rfl, rfl⟩

theorem refreshEntryVerification_commits {refresh : VerificationRefresh}
    (run : Runs hashes codec tables (refreshEntryVerification refresh) after result) : Commits hashes codec tables after := by
  unfold refreshEntryVerification at run
  refine .behind (payloadSha256_reads _ _ _) run fun expectedSha _ run => ?_
  refine .behind (getEntry_reads _ _) run fun current _ run => ?_
  split at run
  · exact .inl run.of_raise.1
  · cases current with
    | none => exact .inl run.of_raise.1
    | some current =>
      refine .behind (listSources_reads _) run fun sources _ run => ?_
      split at run
      · exact .inl run.of_raise.1
      · refine .behind (lifted_reads _) run fun rows _ run => ?_
        refine .behind (replaceOperation_reads _ _ _) run fun first replaced run => ?_
        refine .behind (.each fun _ => replaceOperation_reads _ _ _) run fun others replacing run => ?_
        obtain ⟨digest, rfl⟩ := replaceOperation_ok replaced
        obtain ⟨-, each⟩ := replacing.of_each fun _ _ _ step => Runs.reads (replaceOperation_reads _ _ _) step
        refine commitMutations_commits (fun mutation inside => ?_) run
        rcases List.mem_cons.mp inside with rfl | later
        · rintro payload path ⟨⟩
          exact ⟨rfl, rfl⟩
        · obtain ⟨source, -, step⟩ := exists_of_forall₂ (each others rfl).flip mutation later
          obtain ⟨digest, rfl⟩ := replaceOperation_ok step
          rintro payload path ⟨⟩
          exact ⟨rfl, rfl⟩

end

end HarnessMem.Knowledge
