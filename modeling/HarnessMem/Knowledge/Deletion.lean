import HarnessMem.Knowledge.Commits

/-! Whether a deletion that is reported has happened. The transaction of a deletion is
recorded under the instant its entry was updated at, and a record answers for the same
request again without a write.
-/

set_option autoImplicit false

namespace HarnessMem.Knowledge

open Library Canonical Program

variable {hashes : Hashes} {iso : Isoformat} {columns : Collection → PyDict → Except CanonicalError DerivedColumns}

section
variable {codec : PayloadCodec KnowledgePayload} {tables after : KnowledgeTables}

def deletionKey (iso : Isoformat) (deletion : EntryDeletion) (entry : KnowledgeEntry) : String :=
  "knowledge-delete:" ++ deletion.projectName ++ ":" ++ deletion.entryId ++ ":" ++ iso.text entry.updatedAt

def deletionRequest (iso : Isoformat) (deletion : EntryDeletion) :
    StoreProgram (Option (String × List (StatedMutation KnowledgePayload))) := do
  let expectedSha ← payloadSha256 .knowledgeEntries deletion.entryId none
  let current ← getEntry deletion.entryId deletion.projectName
  if deletion.expectedEntry.isSome ∧ current ≠ deletion.expectedEntry then
    throw (.preconditionError "delete target changed after verification")
  else
    match current with
    | none => pure none
    | some current =>
      let sources ← listSources current.id
      let retained ← each deletion.retainedEntries (retainOperation deletion.projectName)
      let operations ← each sources fun source => deleteOperation .knowledgeSources source.id source.projectName.text
      let last ← deleteOperation .knowledgeEntries current.id current.projectName.text
      pure (some (deletionKey iso deletion current, retained ++ operations ++ [{ last with expectedSha256 := some expectedSha }]))

def carryOut : Option (String × List (StatedMutation KnowledgePayload)) → StoreProgram (Option TransactionResult)
  | none => pure none
  | some request => do
    let result ← commitMutations request.1 request.2
    pure (some result)

theorem deleteCurrentEntry_eq (deletion : EntryDeletion) :
    deleteCurrentEntry iso deletion = (deletionRequest iso deletion).bind carryOut := by
  unfold deleteCurrentEntry deletionRequest
  simp only [Bind.bind, Program.bind_assoc]
  congr 1
  funext expectedSha
  congr 1
  funext current
  split
  · rfl
  · cases current with
    | none => rfl
    | some current => simp only [Program.bind_assoc]; rfl

theorem deletionRequest_reads (deletion : EntryDeletion) : Avoids asksRecords (deletionRequest iso deletion) := by
  refine .bind (payloadSha256_reads _ _ _) fun expectedSha => .bind (getEntry_reads _ _) fun current => ?_
  split
  · exact .raise _ _
  · cases current with
    | none => exact .ret _ _
    | some current =>
      exact .bind (listSources_reads _) fun _ => .bind (.each fun _ => retainOperation_reads _ _) fun _ =>
        .bind (.each fun _ => deleteOperation_reads _ _ _) fun _ => .bind (deleteOperation_reads _ _ _) fun _ => .ret _ _

/-- The mutation deletes the row of a payload. -/
structure Removes (mutation : StatedMutation KnowledgePayload) (payload : KnowledgePayload) : Prop where
  operation : mutation.operation = .delete
  collection : mutation.collection = payload.collection
  entityId : mutation.entityId = payload.id
  projectName : mutation.projectName = some payload.projectName.text

/-- The transaction of a deletion: assertions, then the deletions of some payloads. -/
structure Retires (mutations : List (StatedMutation KnowledgePayload)) (payloads : List KnowledgePayload) : Prop where
  each : ∀ mutation ∈ mutations, mutation.operation = .assert ∨ ∃ payload ∈ payloads, Removes mutation payload
  every : ∀ payload ∈ payloads, ∃ mutation ∈ mutations, Removes mutation payload

theorem deleteOperation_removes {collection : Collection} {entityId projectName : String} {payload : KnowledgePayload}
    {mutation : StatedMutation KnowledgePayload}
    (run : Runs hashes codec tables (deleteOperation collection entityId projectName) after (.ok mutation))
    (placed : collection = payload.collection) (named : entityId = payload.id) (project : projectName = payload.projectName.text) :
    Removes mutation payload := by
  obtain ⟨digest, rfl⟩ := deleteOperation_ok run
  exact ⟨rfl, placed, named, congrArg some project⟩

variable {deletion : EntryDeletion}

theorem deletionRequest_ok {key : String} {mutations : List (StatedMutation KnowledgePayload)}
    (run : Runs hashes codec tables (deletionRequest iso deletion) after (.ok (some (key, mutations)))) :
    ∃ row entry, ∃ sources : List KnowledgeSource, rowById tables .knowledgeEntries deletion.entryId = some row ∧
      row.payload = .entry entry ∧ entry.projectName.text = deletion.projectName ∧
      (∀ source : KnowledgeSource, source ∈ sources ↔
        (∃ row ∈ tables.rows.rows, row.collection = .knowledgeSources ∧ row.payload = .source source) ∧
          source.knowledgeId.text = entry.id) ∧
      key = deletionKey iso deletion entry ∧ Retires mutations (sources.map .source ++ [.entry entry]) := by
  obtain ⟨middle, expectedSha, asked, reading⟩ := run.returned
  cases Runs.reads (payloadSha256_reads _ _ _) asked
  obtain ⟨middle, current, read, choosing⟩ := reading.returned
  cases Runs.reads (getEntry_reads _ _) read
  split at choosing
  · cases choosing.of_raise.2
  cases current with
  | none => cases choosing.of_ret.2
  | some entry =>
    obtain ⟨row, held, shape, project⟩ := getEntry_ok read
    obtain ⟨middle, sources, listed, asserting⟩ := choosing.returned
    cases Runs.reads (listSources_reads _) listed
    obtain ⟨middle, retained, retaining, deleting⟩ := asserting.returned
    obtain ⟨rfl, kept⟩ := retaining.of_each fun _ _ _ step => Runs.reads (retainOperation_reads _ _) step
    obtain ⟨middle, operations, deleted, finishing⟩ := deleting.returned
    obtain ⟨rfl, each⟩ := deleted.of_each fun _ _ _ step => Runs.reads (deleteOperation_reads _ _ _) step
    obtain ⟨middle, last, final, returning⟩ := finishing.returned
    cases Runs.reads (deleteOperation_reads _ _ _) final
    obtain ⟨rfl, same⟩ := returning.of_ret
    cases same
    have lastRemoves : Removes { last with expectedSha256 := some expectedSha } (.entry entry) := by
      obtain ⟨operation, collection, entityId, projectName⟩ := @deleteOperation_removes _ _ _ _ _ _ _ (.entry entry) _ final rfl rfl rfl
      exact ⟨operation, collection, entityId, projectName⟩
    refine ⟨row, entry, sources, held, shape, project, fun source => listSources_ok listed, rfl, ?_, ?_⟩
    · intro mutation inside
      simp only [List.mem_append, List.mem_singleton] at inside
      rcases inside with (early | middle) | rfl
      · obtain ⟨entry, -, step⟩ := exists_of_forall₂ (kept retained rfl).flip mutation early
        exact .inl (retainOperation_ok step)
      · obtain ⟨source, listed, step⟩ := exists_of_forall₂ (each operations rfl).flip mutation middle
        exact .inr ⟨.source source, by simp [listed], deleteOperation_removes step rfl rfl rfl⟩
      · exact .inr ⟨.entry entry, by simp, lastRemoves⟩
    · intro payload inside
      simp only [List.mem_append, List.mem_singleton, List.mem_map] at inside
      rcases inside with ⟨source, listed, rfl⟩ | rfl
      · obtain ⟨mutation, member, step⟩ := exists_of_forall₂ (each operations rfl) source listed
        exact ⟨mutation, by simp [member], deleteOperation_removes step rfl rfl rfl⟩
      · exact ⟨_, by simp, lastRemoves⟩

theorem deleteCurrentEntry_ok {result : TransactionResult}
    (run : Runs hashes codec tables (deleteCurrentEntry iso deletion) after (.ok (some result))) :
    ∃ key mutations, Runs hashes codec tables (deletionRequest iso deletion) tables (.ok (some (key, mutations))) ∧
      storeAnswers hashes codec tables (.transaction key mutations) (.ok result) after := by
  rw [deleteCurrentEntry_eq] at run
  obtain ⟨middle, request, asking, rest⟩ := run.returned
  cases Runs.reads (deletionRequest_reads deletion) asking
  rcases request with _ | ⟨key, mutations⟩
  · cases rest.of_ret.2
  · obtain ⟨last, value, committing, returning⟩ := rest.returned
    obtain ⟨rfl, same⟩ := returning.of_ret
    cases same
    exact ⟨key, mutations, asking, commitMutations_ok committing⟩

theorem deleteCurrentEntry_commits {result : Except KnowledgeError (Option TransactionResult)}
    (run : Runs hashes codec tables (deleteCurrentEntry iso deletion) after result) : Commits hashes codec tables after := by
  rw [deleteCurrentEntry_eq] at run
  refine .behind (deletionRequest_reads deletion) run fun request asking run => ?_
  rcases request with _ | ⟨key, mutations⟩
  · exact .inl run.of_ret.1
  · obtain ⟨_, _, _, _, _, _, _, _, retires⟩ := deletionRequest_ok asking
    have formed : ∀ mutation ∈ mutations, Formed mutation := by
      intro mutation inside
      rcases retires.each mutation inside with other | ⟨payload, -, removes⟩
      · exact formed_of_other (.inr other)
      · exact formed_of_other (.inl removes.operation)
    rcases run.of_bind with ⟨middle, value, committing, returning⟩ | ⟨error, failed, -⟩
    · obtain ⟨rfl, -⟩ := returning.of_ret
      exact commitMutations_commits formed committing
    · exact commitMutations_commits formed failed

/-! ### Whole histories -/

inductive KnowledgeOperation where
  | change (change : CurrentChange)
  | refresh (refresh : VerificationRefresh)
  | delete (deletion : EntryDeletion)

def knowledgeStep (urls : Urls) (hashes : Hashes) (iso : Isoformat) (codec : PayloadCodec KnowledgePayload) (tables : KnowledgeTables)
    (operation : KnowledgeOperation) (after : KnowledgeTables) : Prop :=
  match operation with
  | .change change => ∃ result, Runs hashes codec tables (applyCurrentChange urls hashes change) after result
  | .refresh refresh => ∃ result, Runs hashes codec tables (refreshEntryVerification refresh) after result
  | .delete deletion => ∃ result, Runs hashes codec tables (deleteCurrentEntry iso deletion) after result

theorem knowledgeStep_commits {urls : Urls} {operation : KnowledgeOperation}
    (step : knowledgeStep urls hashes iso codec tables operation after) : Commits hashes codec tables after := by
  cases operation with
  | change change => exact applyCurrentChange_commits step.choose_spec
  | refresh refresh => exact refreshEntryVerification_commits step.choose_spec
  | delete deletion => exact deleteCurrentEntry_commits step.choose_spec

end

variable {tables : KnowledgeTables}

theorem sound_of_history {urls : Urls} {history : List KnowledgeOperation}
    (run : Exec (knowledgeStep urls hashes iso (knowledgeCodec iso columns)) .empty history tables) :
    Sound hashes (knowledgeCodec iso columns) tables := by
  refine run.invariant (Sound hashes (knowledgeCodec iso columns)) (fun tables operation after sound step => ?_)
    fun _ member => absurd member List.not_mem_nil
  rcases knowledgeStep_commits step with rfl | ⟨key, mutations, answer, formed, gives⟩
  · exact sound
  · exact sound_transaction sound formed gives

/-! ### What a reported deletion leaves -/

def OfEntry (projectName entryId : String) (row : CanonicalEntityRow KnowledgePayload) : Prop :=
  row.collection = .knowledgeEntries ∧ row.projectId = some projectName ∧ row.entityId = entryId ∨
    ∃ source, row.payload = .source source ∧ source.knowledgeId.text = entryId

def Gone (tables : KnowledgeTables) (projectName entryId : String) : Prop :=
  ∀ row ∈ tables.rows.rows, ¬ OfEntry projectName entryId row

/-- No earlier deletion is recorded under the key of this one, and the sources that name the entry
are listed under the id it states. -/
def Unrecorded (iso : Isoformat) (tables : KnowledgeTables) (deletion : EntryDeletion) : Prop :=
  ∀ row entry, rowById tables .knowledgeEntries deletion.entryId = some row → row.payload = .entry entry →
    tables.records.get? (stripped (deletionKey iso deletion entry)) = none ∧
      (entry.id = deletion.entryId ∨ ∀ row ∈ tables.rows.rows, ∀ source, row.payload = .source source →
        source.knowledgeId.text ≠ deletion.entryId)

variable {codec : PayloadCodec KnowledgePayload}

theorem Removes.normalized {stated : StatedMutation KnowledgePayload} {payload : KnowledgePayload} (removes : Removes stated payload) {mutation : Mutation KnowledgePayload} (read : stated.normalize codec = .ok mutation)
    {conditions : Conditions} : mutation.write? hashes codec conditions = some (.remove (keyOf hashes payload)) := by
  obtain ⟨operation, collection, entityId, -, project⟩ := normalize_ok read
  have key : mutation.statedKey hashes = keyOf hashes payload := by
    unfold Mutation.statedKey keyOf keyAt
    rw [collection, removes.collection, entityId, removes.entityId, project removes.operation, removes.projectName,
      Option.getD_some, payload.projectName.stripped]
  unfold Mutation.write?
  rw [operation, removes.operation, key]

variable {mutations : List (StatedMutation KnowledgePayload)} {after : KnowledgeTables} {result : TransactionResult}

theorem rows_of_retired {conditions : Conditions} {key : String} {payloads : List KnowledgePayload} (retires : Retires mutations payloads)
    {normalized : List (Mutation KnowledgePayload)} (read : mutations.mapM (StatedMutation.normalize codec) = .ok normalized)
    (committed : Committed hashes codec conditions key normalized tables after result) (row : CanonicalEntityRow KnowledgePayload) :
    row ∈ after.rows.rows ↔ row ∈ tables.rows.rows ∧ ∀ payload ∈ payloads, row.key ≠ keyOf hashes payload := by
  have rounds := forall₂_of_mapM read
  have written : ∀ write ∈ writes hashes codec conditions normalized, ∃ payload ∈ payloads, write = .remove (keyOf hashes payload) := by
    intro write inside
    obtain ⟨mutation, member, found⟩ := List.mem_filterMap.mp inside
    obtain ⟨stated, given, kept⟩ := exists_of_forall₂ rounds.flip mutation member
    rcases retires.each stated given with other | ⟨payload, listed, removes⟩
    · unfold Mutation.write? at found
      rw [(normalize_ok kept).1, other] at found
      cases found
    · rw [removes.normalized kept] at found
      exact ⟨payload, listed, (Option.some.inj found).symm⟩
  have removes : ∀ write ∈ writes hashes codec conditions normalized, ∃ k, write = .remove k := fun write inside =>
    let ⟨payload, _, same⟩ := written write inside
    ⟨_, same⟩
  rw [committed.rows, Table.mem_removeAll removes]
  refine and_congr_right fun _ => ⟨fun kept payload listed same => kept ?_, fun differs inside => ?_⟩
  · obtain ⟨stated, given, deletes⟩ := retires.every payload listed
    obtain ⟨mutation, member, normal⟩ := exists_of_forall₂ rounds stated given
    rw [same]
    exact List.mem_filterMap.mpr ⟨mutation, member, deletes.normalized normal⟩
  · obtain ⟨payload, listed, same⟩ := written _ inside
    exact differs payload listed (Write.remove.inj same)

/-- What is reported deleted is gone exactly when the report is not answered from the record of an
earlier deletion. -/
theorem reported_deletion_happened_iff {urls : Urls} {history : List KnowledgeOperation} {tables after : KnowledgeTables}
    (run : Exec (knowledgeStep urls hashes iso (knowledgeCodec iso columns)) .empty history tables)
    {deletion : EntryDeletion} {result : TransactionResult}
    (reported : Runs hashes (knowledgeCodec iso columns) tables (deleteCurrentEntry iso deletion) after (.ok (some result))) :
    Gone after deletion.projectName deletion.entryId ↔ Unrecorded iso tables deletion := by
  have sound := sound_of_history run
  obtain ⟨key, mutations, asking, gives⟩ := deleteCurrentEntry_ok reported
  obtain ⟨row, entry, sources, held, shape, project, listed, rfl, retires⟩ := deletionRequest_ok asking
  obtain ⟨member, placed, named⟩ := rowById_some held
  have formed := sound row member
  have own : OfEntry deletion.projectName deletion.entryId row :=
    .inl ⟨placed, by rw [formed.projectId, shape, ← project]; rfl, named⟩
  rcases transaction_cases gives with ⟨error, failed, -⟩ | ⟨conditions, normalized, value, same, read, committed | replayed⟩
  · cases failed
  · -- a first use: the entry and the sources under its id are removed
    cases same
    have rows := rows_of_retired retires read committed
    constructor
    · intro gone other stored found payload
      cases held.symm.trans found
      cases shape.symm.trans payload
      refine ⟨committed.unused, or_iff_not_imp_left.mpr fun differs other inside source holds names => ?_⟩
      refine gone other ((rows other).mpr ⟨inside, fun payload retired clash => ?_⟩) (.inr ⟨source, holds, names⟩)
      rw [(sound other inside).key, holds] at clash
      rcases List.mem_append.mp retired with source_retired | last
      · obtain ⟨removed, of_entry, rfl⟩ := List.mem_map.mp source_retired
        obtain ⟨⟨first, first_inside, -, first_holds⟩, under⟩ := (listed removed).mp of_entry
        cases sound.holds_unique ⟨other, inside, holds⟩ ⟨first, first_inside, first_holds⟩ clash
        exact differs (under.symm.trans names)
      · rw [List.mem_singleton.mp last] at clash
        cases collection_of_table (Prod.mk.inj clash).1
    · intro unrecorded other inside of_entry
      obtain ⟨old, differs⟩ := (rows other).mp inside
      rcases of_entry with ⟨collection, projectId, entityId⟩ | ⟨source, holds, names⟩
      · refine differs (.entry entry) (by simp) ?_
        rw [← shape, ← formed.key]
        unfold CanonicalEntityRow.key
        rw [(sound other old).rowKey, formed.rowKey, collection, placed, projectId, entityId, named, formed.projectId, shape, ← project]
        rfl
      · rcases (unrecorded row entry held shape).2 with same | none_names
        · refine differs (.source source) (List.mem_append_left _ (List.mem_map_of_mem ?_)) ?_
          · refine (listed source).mpr ⟨⟨other, old, ?_, holds⟩, names.trans same.symm⟩
            rw [(sound other old).collection, holds]
            rfl
          · rw [(sound other old).key, holds]
        · exact none_names other old source holds names
  · -- a recorded key: nothing is written
    refine ⟨fun gone => ?_, fun unrecorded => ?_⟩
    · rw [replayed.unchanged] at gone
      exact absurd own (gone row member)
    · obtain ⟨record, known, -⟩ := replayed.recorded
      rw [(unrecorded row entry held shape).1] at known
      cases known

/-! ### The same entry added again -/

theorem transaction_again {again : KnowledgeTables} {key : String}
    (first : storeAnswers hashes codec tables (.transaction key mutations) (.ok result) after)
    (kept : ∀ key record, after.records.get? key = some record → again.records.get? key = some record) :
    ∃ answer, storeAnswers hashes codec again (.transaction key mutations) (.ok answer) again := by
  obtain ⟨conditions, gives⟩ := first
  cases outcome : applyStated hashes codec conditions key mutations (.idle tables) with
  | error error db =>
    rw [outcome] at gives
    cases gives.1
  | ok value db =>
    rw [outcome] at gives
    obtain ⟨keyed, normalized, read, filled, distinct, final, rfl, done⟩ := applyStated_ok outcome
    have recorded : ∃ record, after.records.get? (stripped key) = some record ∧
        record.requestSha256 = requestSha256 hashes codec normalized := by
      rw [gives.2]
      rcases done with committed | replayed
      · exact ⟨_, by rw [Database.idle, committed.records, Table.get?_upsert, if_pos rfl], rfl⟩
      · obtain ⟨record, known, same, -⟩ := replayed.recorded
        exact ⟨record, by rw [Database.idle, replayed.unchanged, known], same⟩
    obtain ⟨record, known, same⟩ := recorded
    refine ⟨{ record.result with replayed := true }, ⟨fun _ => none, fun _ => 0⟩, ?_⟩
    unfold applyStated
    rw [if_neg keyed, read]
    dsimp only
    rw [applyNormalized_replay (fun _ => rfl) filled distinct (kept _ _ known) same]
    exact ⟨rfl, rfl⟩

theorem deletion_again {again : KnowledgeTables} {deletion : EntryDeletion} (first : Runs hashes codec tables (deleteCurrentEntry iso deletion) after (.ok (some result)))
    (rows : again.rows = tables.rows)
    (kept : ∀ key record, after.records.get? key = some record → again.records.get? key = some record) :
    ∃ answer, Runs hashes codec again (deleteCurrentEntry iso deletion) again (.ok (some answer)) := by
  obtain ⟨key, mutations, asking, gives⟩ := deleteCurrentEntry_ok first
  have same : Runs hashes codec again (deletionRequest iso deletion) again (.ok (some (key, mutations))) :=
    asking.transport (fun call answer next other gives => ⟨storeAnswers_reads other gives, storeAnswers_sameRows rows other gives⟩)
      (deletionRequest_reads deletion)
  obtain ⟨answer, replays⟩ := transaction_again gives kept
  refine ⟨answer, ?_⟩
  rw [deleteCurrentEntry_eq]
  exact same.bind (.bind (.bind (.ask replays .ret) .ret) .ret)

def Isoformat.tallied : Isoformat where
  text time := String.ofList (List.replicate time '|')
  text_injective first second same := by
    have lengths := congrArg List.length (String.ofList_injective same)
    simpa only [List.length_replicate] using lengths

def oneWord : SingleLine := ⟨"p", by decide +kernel, by decide, by decide +kernel⟩

def wordEntry : KnowledgeEntry where
  id := "k"
  projectName := oneWord
  modulePath := [oneWord]
  title := oneWord
  statement := oneWord
  createdAt := 1
  updatedAt := 1
  placed := List.cons_ne_nil _ _
  attributed := fun report member => by cases member

def addingWord (decisionId : String) : CurrentChange where
  candidateBefore := { id := "c", projectName := "p", candidateType := .memory, statement := "p" }
  candidateAfter := { id := "c", projectName := "p", candidateType := .memory, statement := "p" }
  decision := { id := decisionId, projectName := "p", candidateId := "c", disposition := .add, canonicalTruthIds := ["k"],
                reason := "" }
  addedEntries := [wordEntry]
  predecessorEntries := []
  sourceRefs _ := [{ label := oneWord, target := oneWord, kind := some oneWord }]

def plainUrls : Urls := ⟨fun _ => .ok ⟨"", ""⟩, fun _ => [], fun _ => none⟩

def plainCodec : PayloadCodec KnowledgePayload := knowledgeCodec .tallied fun _ _ => .ok []

def calmConditions : Conditions := ⟨fun _ => none, fun _ => 0⟩

def calmAnswer (tables : KnowledgeTables) : (call : StoreCall KnowledgePayload) → call.Answer × KnowledgeTables
  | .payloadExists collection entityId => ((rowById tables collection entityId).isSome, tables)
  | .readPayload collection entityId => ((rowById tables collection entityId).map (·.payload), tables)
  | .payloadSha256 collection entityId projectName => (digestOf .spelled tables collection entityId projectName, tables)
  | .listPayloads collection projectName => ((listRows tables collection projectName).map (·.payload), tables)
  | .transaction key mutations =>
    match applyStated .spelled plainCodec calmConditions key mutations (.idle tables) with
    | .ok result db => (.ok result, db.tables)
    | .error error db => (.error error, db.tables)
  | .transactionResult key => (payloadTransactionResult tables (stripped key), tables)

theorem calmAnswer_gives (tables : KnowledgeTables) (call : StoreCall KnowledgePayload) :
    storeAnswers .spelled plainCodec tables call (calmAnswer tables call).1 (calmAnswer tables call).2 := by
  cases call with
  | transaction key mutations =>
    refine ⟨calmConditions, ?_⟩
    dsimp only [calmAnswer]
    cases applyStated .spelled plainCodec calmConditions key mutations (.idle tables) with
    | ok result db => exact ⟨rfl, rfl⟩
    | error error db => exact ⟨rfl, rfl⟩
  | payloadExists | readPayload | payloadSha256 | listPayloads | transactionResult => exact ⟨rfl, rfl⟩

def addAnswer (decisionId : String) (tables : KnowledgeTables) : Except KnowledgeError TransactionResult :=
  ((applyCurrentChange plainUrls .spelled (addingWord decisionId)).run calmAnswer tables).1

def withWord (decisionId : String) (tables : KnowledgeTables) : KnowledgeTables :=
  ((applyCurrentChange plainUrls .spelled (addingWord decisionId)).run calmAnswer tables).2

def deletingWord : EntryDeletion := { projectName := "p", entryId := "k" }

def deleteAnswer (tables : KnowledgeTables) : Except KnowledgeError (Option TransactionResult) :=
  ((deleteCurrentEntry .tallied deletingWord).run calmAnswer tables).1

def withoutWord (tables : KnowledgeTables) : KnowledgeTables :=
  ((deleteCurrentEntry .tallied deletingWord).run calmAnswer tables).2

def wordAdded : KnowledgeTables := withWord "1" .empty

def wordDeleted : KnowledgeTables := withoutWord wordAdded

def wordAddedAgain : KnowledgeTables := withWord "2" wordDeleted

theorem words_evaluate : (addAnswer "1" .empty).isOk = true ∧ (deleteAnswer wordAdded).toOption.join.isSome = true ∧
    wordDeleted.rows.rows.isEmpty = true ∧ (wordDeleted.records.get? "knowledge-change:2").isNone = true ∧
    (addAnswer "2" wordDeleted).isOk = true := by
  decide +kernel

/-! What adding the word asks for does not depend on the decision or on the tables. -/

theorem addingWord_refusal (decisionId : String) : (addingWord decisionId).refusal? = none := by
  simp [CurrentChange.refusal?, addingWord, sameMembers, wordEntry]

theorem addingWord_checked (decisionId : String) :
    (addingWord decisionId).addedEntries.mapM (checkAdded plainUrls (addingWord decisionId)) = .ok [()] := by
  simp [addingWord, checkAdded, wordEntry, oneWord]
  rfl

def wordSources : Except String (List (List KnowledgeSource)) :=
  [wordEntry].mapM fun entry => knowledgeSources plainUrls .spelled entry [{ label := oneWord, target := oneWord, kind := some oneWord }] []

def wordMutations (sources : List (List KnowledgeSource)) : List (StatedMutation KnowledgePayload) :=
  newOperation .knowledgeEntries (.entry wordEntry) ::
    sources.flatten.map fun source => newOperation .knowledgeSources (.source source)

theorem addingWord_asks (decisionId : String) : applyCurrentChange plainUrls .spelled (addingWord decisionId) =
    (lifted wordSources).bind fun sources => commitMutations ("knowledge-change:" ++ decisionId) (wordMutations sources) := by
  unfold applyCurrentChange
  simp only [addingWord_refusal, addingWord_checked]
  rfl

theorem withWord_ok {decisionId : String}
    (returns : (addAnswer decisionId tables).isOk = true) :
    ∃ sources normalized result, wordSources = .ok sources ∧
      (wordMutations sources).mapM (StatedMutation.normalize plainCodec) = .ok normalized ∧
      (Committed .spelled plainCodec calmConditions (stripped ("knowledge-change:" ++ decisionId)) normalized tables
          (withWord decisionId tables) result ∨
        Replayed .spelled plainCodec (stripped ("knowledge-change:" ++ decisionId)) normalized tables
          (withWord decisionId tables) result) := by
  unfold addAnswer at returns
  unfold withWord
  rw [addingWord_asks] at returns ⊢
  cases listed : wordSources with
  | error message =>
    rw [listed] at returns
    cases returns
  | ok sources =>
    rw [listed] at returns
    simp only [lifted, Program.bind, commitMutations, Bind.bind, Knowledge.ask, Program.call, Program.run, calmAnswer] at returns ⊢
    cases outcome : applyStated .spelled plainCodec calmConditions ("knowledge-change:" ++ decisionId) (wordMutations sources) (.idle tables) with
    | error error db =>
      rw [outcome] at returns
      cases returns
    | ok result db =>
      obtain ⟨-, normalized, read, -, -, after, rfl, done⟩ := applyStated_ok outcome
      exact ⟨sources, normalized, result, rfl, read, done⟩

theorem runs_withWord (decisionId : String) (tables : KnowledgeTables) :
    Runs .spelled plainCodec tables (applyCurrentChange plainUrls .spelled (addingWord decisionId)) (withWord decisionId tables)
      (addAnswer decisionId tables) :=
  Program.executes_run calmAnswer_gives _ tables

theorem withoutWord_reports (reports : (deleteAnswer tables).toOption.join.isSome = true) :
    ∃ result, Runs .spelled plainCodec tables (deleteCurrentEntry .tallied deletingWord) (withoutWord tables) (.ok (some result)) := by
  have ran : Runs .spelled plainCodec tables (deleteCurrentEntry .tallied deletingWord) (withoutWord tables) (deleteAnswer tables) :=
    Program.executes_run calmAnswer_gives _ tables
  rcases outcome : (deleteAnswer tables) with error | _ | result
  · rw [outcome] at reports
    cases reports
  · rw [outcome] at reports
    cases reports
  · rw [outcome] at ran
    exact ⟨result, ran⟩

theorem added_reports : ∃ result,
    Runs .spelled plainCodec wordAdded (deleteCurrentEntry .tallied deletingWord) wordDeleted (.ok (some result)) := by
  exact withoutWord_reports words_evaluate.2.1

theorem withWord_same {first second : String} {start between : KnowledgeTables} (rows : between.rows = start.rows)
    (left : (addAnswer first start).isOk = true) (right : (addAnswer second between).isOk = true)
    (fresh : start.records.get? (stripped ("knowledge-change:" ++ first)) = none)
    (unused : between.records.get? (stripped ("knowledge-change:" ++ second)) = none) :
    (withWord second between).rows = (withWord first start).rows ∧
      ∀ key record, between.records.get? key = some record → (withWord second between).records.get? key = some record := by
  obtain ⟨sources, normalized, result, listed, read, committed | replayed⟩ := withWord_ok left
  · obtain ⟨sources', normalized', result', listed', read', again | replayed⟩ := withWord_ok right
    · cases listed.symm.trans listed'
      cases read.symm.trans read'
      refine ⟨by rw [again.rows, committed.rows, rows], fun key record known => ?_⟩
      rw [again.records, Table.get?_upsert, if_neg]
      · exact known
      · rintro rfl
        rw [unused] at known
        cases known
    · obtain ⟨record, known, -⟩ := replayed.recorded
      rw [unused] at known
      cases known
  · obtain ⟨record, known, -⟩ := replayed.recorded
    rw [fresh] at known
    cases known

theorem addedAgain_rows : wordAddedAgain.rows = wordAdded.rows ∧
    ∀ key record, wordDeleted.records.get? key = some record → wordAddedAgain.records.get? key = some record := by
  obtain ⟨first, -, emptied, unused, second⟩ := words_evaluate
  have keyed : stripped ("knowledge-change:" ++ "2") = "knowledge-change:2" := by decide
  have rows : wordDeleted.rows = (CanonicalTables.empty : KnowledgeTables).rows := Table.eq_of_rows (List.isEmpty_iff.mp emptied)
  exact @withWord_same "1" "2" .empty wordDeleted rows first second List.find?_nil (keyed ▸ Option.isNone_iff_eq_none.mp unused)

theorem reached_added : Exec (knowledgeStep plainUrls .spelled .tallied plainCodec) .empty [.change (addingWord "1")] wordAdded :=
  .single ⟨_, runs_withWord "1" .empty⟩

theorem reached_addedAgain : Exec (knowledgeStep plainUrls .spelled .tallied plainCodec) .empty
    [.change (addingWord "1"), .delete deletingWord, .change (addingWord "2")] wordAddedAgain :=
  let ⟨result, deleting⟩ := added_reports
  reached_added.append (.cons ⟨.ok (some result), deleting⟩ (.single ⟨addAnswer "2" wordDeleted, runs_withWord "2" wordDeleted⟩))

/-- The word is added, deleted and added again: the next deletion of it is reported and leaves it. -/
theorem reported_deletion_fails : ¬ ∀ (urls : Urls) (hashes : Hashes) (iso : Isoformat)
    (columns : Collection → PyDict → Except CanonicalError DerivedColumns) (history : List KnowledgeOperation)
    (tables after : KnowledgeTables) (deletion : EntryDeletion) (result : TransactionResult),
    Exec (knowledgeStep urls hashes iso (knowledgeCodec iso columns)) .empty history tables →
      Runs hashes (knowledgeCodec iso columns) tables (deleteCurrentEntry iso deletion) after (.ok (some result)) →
      Gone after deletion.projectName deletion.entryId := by
  intro all
  obtain ⟨result, first⟩ := added_reports
  obtain ⟨rows, kept⟩ := addedAgain_rows
  obtain ⟨answer, again⟩ := deletion_again first rows kept
  have gone : Gone wordAddedAgain "p" "k" := all _ _ _ (fun _ _ => .ok []) _ _ _ _ _ reached_addedAgain again
  obtain ⟨key, mutations, asking, -⟩ := deleteCurrentEntry_ok again
  obtain ⟨row, entry, -, held, shape, project, -⟩ := deletionRequest_ok asking
  obtain ⟨member, placed, named⟩ := rowById_some held
  refine gone row member (.inl ⟨placed, ?_, named⟩)
  rw [(sound_of_history reached_addedAgain row member).projectId, shape]
  exact congrArg some project

/-- The first deletion of the word. -/
theorem first_deletion_happened : ∃ result,
    Runs .spelled plainCodec wordAdded (deleteCurrentEntry .tallied deletingWord) wordDeleted (.ok (some result)) ∧
      (Gone wordDeleted "p" "k" ↔ Unrecorded .tallied wordAdded deletingWord) :=
  let ⟨result, reported⟩ := added_reports
  ⟨result, reported, reported_deletion_happened_iff reached_added reported⟩

end HarnessMem.Knowledge
