import HarnessMem.Knowledge.Access

/-! The knowledge store. Every operation reads entries, sources and digests call by
call, then commits one transaction.
-/

set_option autoImplicit false

namespace HarnessMem.Knowledge

open Library Canonical Program

inductive KnowledgeError where
  | valueError (message : String)
  | preconditionError (message : String)
  | fileNotFound (entityId : String)
  | canonical (error : CanonicalError)
  deriving DecidableEq

abbrev StoreProgram := Program (StoreCall KnowledgePayload) StoreCall.Answer KnowledgeError

def ask (question : StoreCall KnowledgePayload) : StoreProgram question.Answer := Program.call question

def payloadExists (collection : Collection) (entityId : String) : StoreProgram Bool :=
  ask (.payloadExists collection entityId)

/-- `record_payload_sha256`. -/
def payloadSha256 (collection : Collection) (entityId : String) (projectName : Option String) :
    StoreProgram (Option String) :=
  ask (.payloadSha256 collection entityId projectName)

/-- `apply_canonical_payload_transaction`. -/
def commitMutations (idempotencyKey : String) (mutations : List (StatedMutation KnowledgePayload)) :
    StoreProgram TransactionResult := do
  match ← ask (.transaction idempotencyKey mutations) with
  | .ok result => pure result
  | .error error => throw (.canonical error)

/-! ### Reading -/

/-- `KnowledgeEntry.from_dict` of a stored payload. -/
def entryOf : KnowledgePayload → StoreProgram KnowledgeEntry
  | .entry entry => .ret entry
  | .source _ => .raise (.valueError "KnowledgeEntry")

def getEntry (entryId projectName : String) : StoreProgram (Option KnowledgeEntry) := do
  if ← payloadExists .knowledgeEntries entryId then
    match ← ask (.readPayload .knowledgeEntries entryId) with
    | none => throw (.fileNotFound entryId)
    | some payload =>
      let entry ← entryOf payload
      pure (if entry.projectName.text = projectName then some entry else none)
  else pure none

def KnowledgePayload.source? : KnowledgePayload → Option KnowledgeSource
  | .source value => some value
  | .entry _ => none

/-- The order `list_sources` returns. -/
def SourceOrder (first second : KnowledgeSource) : Prop :=
  [first.sourceKind.text, first.locator.text, first.id] ≤ [second.sourceKind.text, second.locator.text, second.id]

instance : DecidableRel SourceOrder := fun _ _ => inferInstanceAs (Decidable (_ ≤ _))

/-- `list_sources`: the sources of an entry in every project. -/
def listSources (knowledgeId : String) : StoreProgram (List KnowledgeSource) := do
  let payloads ← ask (.listPayloads .knowledgeSources none)
  pure (((payloads.filterMap KnowledgePayload.source?).filter fun source =>
    source.knowledgeId.text = knowledgeId).insertionSort SourceOrder)

/-! ### Mutations -/

def newOperation (collection : Collection) (payload : KnowledgePayload) : StatedMutation KnowledgePayload :=
  ⟨.upsert payload none, collection, payload.id, none, some none⟩

def replaceOperation (collection : Collection) (payload : KnowledgePayload) (projectName : String) :
    StoreProgram (StatedMutation KnowledgePayload) := do
  match ← payloadSha256 collection payload.id (some projectName) with
  | none => throw (.valueError ("current " ++ collection.value ++ " record is missing: " ++ payload.id))
  | some expected => pure ⟨.upsert payload none, collection, payload.id, some projectName, some (some expected)⟩

def deleteOperation (collection : Collection) (entityId projectName : String) :
    StoreProgram (StatedMutation KnowledgePayload) := do
  match ← payloadSha256 collection entityId (some projectName) with
  | none => throw (.valueError ("current " ++ collection.value ++ " record is missing: " ++ entityId))
  | some digest => pure ⟨.delete, collection, entityId, some projectName, some (some digest)⟩

/-- An address as `urlparse` takes it apart. -/
structure ParsedUrl where
  scheme : String
  fragment : String

/-- The standard library's reading of addresses: `urlparse`, which may raise, `parse_qs` and `int`. -/
structure Urls where
  urlparse : String → Except String ParsedUrl
  parseQs : String → List (String × List String)
  parseInt : String → Option Int

variable (urls : Urls) (hashes : Hashes)

def lifted {α : Type} : Except String α → StoreProgram α
  | .ok value => .ret value
  | .error message => .raise (.valueError message)

def sourceKind (ref : ProjectKnowledgeSourceRef) : Except String SingleLine := do
  let parsed ← urls.urlparse ref.target.text
  match ref.kind with
  | some kind => pure kind
  | none =>
    match SingleLine.ofText? (if parsed.scheme = "file" && parsed.fragment = "" then "repository" else "transcript") with
    | some kind => pure kind
    | none => throw "source_kind must not be empty"

def sourceId (entryId : String) (kind target : SingleLine) : String :=
  hashes.uuid5 ("harness-mem:knowledge-source:" ++ entryId ++ "\x00" ++ kind.text ++ "\x00" ++ target.text)

/-- `KnowledgeSource(...)` of one reference of an entry. -/
def sourceOf (entry : KnowledgeEntry) (kind : SingleLine) (ref : ProjectKnowledgeSourceRef) : Except String KnowledgeSource := do
  let knowledgeId ← match SingleLine.ofText? entry.id with
    | some line => pure line
    | none => throw "knowledge_id must be a single line"
  let contentSha256 ← match ref.digest with
    | none => pure none
    | some digest =>
      match ContentDigest.ofText? digest.text with
      | some digest => pure (some digest)
      | none => throw "content_sha256 must be 64 hexadecimal characters"
  pure {
    id := sourceId hashes entry.id kind ref.target
    knowledgeId
    projectName := entry.projectName
    sourceKind := kind
    locator := ref.target
    contentSha256
    verifiedAt := entry.verifiedAt.getD entry.updatedAt }

/-- `_knowledge_sources`: one source for each kind and address. -/
def knowledgeSources (entry : KnowledgeEntry) : List ProjectKnowledgeSourceRef → List (SingleLine × SingleLine) →
    Except String (List KnowledgeSource)
  | [], _ => pure []
  | ref :: rest, seen => do
    let kind ← sourceKind urls ref
    if (kind, ref.target) ∈ seen then knowledgeSources entry rest seen
    else do
      let source ← sourceOf hashes entry kind ref
      let others ← knowledgeSources entry rest ((kind, ref.target) :: seen)
      pure (source :: others)

/-! ### Changing current knowledge -/

/-- The arguments of `apply_current_change`. -/
structure CurrentChange where
  candidateBefore : KnowledgeCandidate
  candidateAfter : KnowledgeCandidate
  decision : AssimilationDecision
  addedEntries : List KnowledgeEntry
  predecessorEntries : List KnowledgeEntry
  sourceRefs : String → List ProjectKnowledgeSourceRef

def sameMembers (first second : List String) : Bool := first.all (· ∈ second) && second.all (· ∈ first)

def CurrentChange.refusal? (change : CurrentChange) : Option String :=
  let decision := change.decision
  if decision.disposition ∉ [.add, .refine, .replace] then some "knowledge change requires add, refine, or replace"
  else if decision.candidateId ≠ change.candidateBefore.id then
    some "knowledge change candidate does not match decision"
  else if change.candidateBefore.projectName ≠ change.candidateAfter.projectName then
    some "knowledge change candidate crosses projects"
  else if decision.projectName ≠ change.candidateBefore.projectName then some "knowledge change decision crosses projects"
  else if !sameMembers (change.addedEntries.map (·.id)) decision.canonicalTruthIds then
    some "knowledge change output ids do not match decision"
  else if !sameMembers (change.predecessorEntries.map (·.id)) decision.predecessorTruthIds then
    some "knowledge change predecessor ids do not match decision"
  else if decision.disposition = .add && !change.predecessorEntries.isEmpty then
    some "add cannot retire current knowledge"
  else if decision.disposition ∈ [.refine, .replace] && change.predecessorEntries.isEmpty then
    some (decision.disposition.value ++ " requires at least one current knowledge target")
  else none

def reportExchange (report : SourceReport) (ref : ProjectKnowledgeSourceRef) : Except String Int := do
  let parsed ← urls.urlparse ref.target.text
  let query := urls.parseQs parsed.fragment
  let values (key : String) : Option (List String) := query.lookup key
  if ref.kind.map (·.text) ≠ some "source_report" || values "source_id" ≠ some [report.sourceId.text] ||
      values "source_revision" ≠ some [report.sourceRevision.text] || values "role" ≠ some [report.speaker.value] then
    throw "source-report authority does not match retained source scope"
  match values "exchange" with
  | some [exchange] =>
    match urls.parseInt exchange with
    | some index => pure index
    | none => throw "source-report exchange is invalid"
  | _ => throw "source-report authority does not match retained source scope"

def checkAdded (change : CurrentChange) (entry : KnowledgeEntry) : Except String Unit := do
  if entry.projectName.text ≠ change.decision.projectName then throw "knowledge change output crosses projects"
  let refs := change.sourceRefs entry.id
  if refs.isEmpty then throw "knowledge write requires a real source reference"
  if (refs.any fun ref => ref.kind.map (·.text) = some "source_report") ≠ entry.sourceReport.isSome then
    throw "source-report and fact authority boundary cannot be crossed"
  match entry.sourceReport with
  | none => pure ()
  | some report =>
    if change.candidateBefore.sourceReport ≠ some report then
      throw "source-report write must retain its verified candidate account"
    if change.predecessorEntries.any fun old => !old.sourceReport.any report.sameAccountSource then
      throw "source-report replacement cannot cross source, speaker or period"
    let indexes ← refs.mapM (reportExchange urls report)
    if !(indexes.all fun index => index ∈ report.exchangeIndexes.map Int.ofNat) ||
        !(report.exchangeIndexes.all fun index => Int.ofNat index ∈ indexes) then
      throw "source-report exchanges do not match retained source scope"
  if change.predecessorEntries.any fun old => old.sourceReport.isNone ≠ entry.sourceReport.isNone then
    throw "source-report and fact authority boundary cannot be crossed"

def currentPredecessor (projectName : String) (expected : KnowledgeEntry) :
    StoreProgram (List (KnowledgeEntry × List KnowledgeSource)) := do
  match ← getEntry expected.id projectName with
  | none => throw (.valueError "knowledge change predecessor is not current")
  | some current =>
    if current ≠ expected then throw (.valueError "knowledge change predecessor changed before commit")
    else do
      let sources ← listSources current.id
      pure [(current, sources)]

def retireOperations (entry : KnowledgeEntry) (sources : List KnowledgeSource) :
    StoreProgram (List (StatedMutation KnowledgePayload)) := do
  let operations ← each sources fun source => deleteOperation .knowledgeSources source.id source.projectName.text
  let last ← deleteOperation .knowledgeEntries entry.id entry.projectName.text
  pure (operations ++ [last])

def applyCurrentChange (change : CurrentChange) : StoreProgram TransactionResult := do
  match change.refusal? with
  | some message => throw (.valueError message)
  | none =>
    let current ← each change.predecessorEntries (currentPredecessor change.decision.projectName)
    let _ ← lifted (change.addedEntries.mapM (checkAdded urls change))
    let newSources ← lifted (change.addedEntries.mapM fun entry =>
      knowledgeSources urls hashes entry (change.sourceRefs entry.id) [])
    let retired ← each current.flatten fun predecessor => retireOperations predecessor.1 predecessor.2
    commitMutations ("knowledge-change:" ++ change.decision.id)
      (retired.flatten ++ (change.addedEntries.map fun entry => newOperation .knowledgeEntries (.entry entry)) ++
        (newSources.flatten.map fun source => newOperation .knowledgeSources (.source source)))

/-! ### Verifying and deleting one entry -/

/-- The arguments of `refresh_entry_verification`. -/
structure VerificationRefresh where
  projectName : String
  entryId : String
  verifiedAt : Time
  refreshId : String
  refreshedSources : Option (List KnowledgeSource) := none
  expectedEntry : Option KnowledgeEntry := none

def sourceById (sources : List KnowledgeSource) (id : String) : Option KnowledgeSource :=
  sources.reverse.find? fun source => source.id = id

def samePlace (refresh : VerificationRefresh) (current proposed : KnowledgeSource) : Bool :=
  proposed.projectName.text = refresh.projectName && proposed.knowledgeId.text = refresh.entryId &&
    proposed.sourceKind = current.sourceKind && proposed.locator = current.locator

def refreshedRows (refresh : VerificationRefresh) (sources : List KnowledgeSource) : Except String (List KnowledgeSource) :=
  match refresh.refreshedSources with
  | none => .ok (sources.map fun source => { source with verifiedAt := refresh.verifiedAt })
  | some proposed =>
    if !sameMembers (proposed.map (·.id)) (sources.map (·.id)) then
      .error "knowledge verification refresh source set changed"
    else if !(sources.all fun source => match sourceById proposed source.id, sourceById sources source.id with
        | some other, some current => samePlace refresh current other
        | _, _ => false) then
      .error "knowledge verification refresh source identity changed"
    else .ok ((sources.filterMap fun source => sourceById proposed source.id).map fun source =>
      { source with verifiedAt := refresh.verifiedAt })

def refreshEntryVerification (refresh : VerificationRefresh) : StoreProgram TransactionResult := do
  let expectedSha ← payloadSha256 .knowledgeEntries refresh.entryId none
  let current ← getEntry refresh.entryId refresh.projectName
  if refresh.expectedEntry.isSome ∧ current ≠ refresh.expectedEntry then
    throw (.preconditionError "confirmation target changed after verification")
  else
    match current with
    | none => throw (.valueError "knowledge verification target is not current")
    | some current =>
      let sources ← listSources refresh.entryId
      if sources.isEmpty then throw (.valueError "knowledge verification refresh requires sources")
      else do
        let rows ← lifted (refreshedRows refresh sources)
        let refreshedEntry := { current with verifiedAt := some refresh.verifiedAt, updatedAt := refresh.verifiedAt }
        let first ← replaceOperation .knowledgeEntries (.entry refreshedEntry) refresh.projectName
        let others ← each rows fun source => replaceOperation .knowledgeSources (.source source) refresh.projectName
        commitMutations ("knowledge-verification-refresh:" ++ refresh.refreshId)
          ({ first with expectedSha256 := some expectedSha } :: others)

/-- The arguments of `delete_current_entry`. -/
structure EntryDeletion where
  projectName : String
  entryId : String
  expectedEntry : Option KnowledgeEntry := none
  retainedEntries : List KnowledgeEntry := []

def retainOperation (projectName : String) (retained : KnowledgeEntry) : StoreProgram (StatedMutation KnowledgePayload) := do
  let digest ← payloadSha256 .knowledgeEntries retained.id none
  let current ← getEntry retained.id projectName
  if current ≠ some retained then throw (.preconditionError "retained knowledge changed after verification")
  else pure ⟨.assert, .knowledgeEntries, retained.id, some retained.projectName.text, some digest⟩

/-- `delete_current_entry`, with the result of its transaction where there was an entry. -/
def deleteCurrentEntry (iso : Isoformat) (deletion : EntryDeletion) : StoreProgram (Option TransactionResult) := do
  let expectedSha ← payloadSha256 .knowledgeEntries deletion.entryId none
  let current ← getEntry deletion.entryId deletion.projectName
  if deletion.expectedEntry.isSome ∧ current ≠ deletion.expectedEntry then
    throw (.preconditionError "delete target changed after verification")
  else
    match current with
    | none => pure none
    | some current =>
      let sources ← listSources current.id
      let retained ← each deletion.retainedEntries (retainOperation deletion.projectName)
      let operations ← each sources fun source => deleteOperation .knowledgeSources source.id source.projectName.text
      let last ← deleteOperation .knowledgeEntries current.id current.projectName.text
      let result ← commitMutations ("knowledge-delete:" ++ deletion.projectName ++ ":" ++ deletion.entryId ++ ":" ++
          iso.text current.updatedAt)
        (retained ++ operations ++ [{ last with expectedSha256 := some expectedSha }])
      pure (some result)

end HarnessMem.Knowledge
