import HarnessMem.Assimilation.Validation
import HarnessMem.Dream.Verification
import HarnessMem.Library.JsonText

/-! What a verifier's verdict says of the scope of a text: every character and every claim has to
share durable use.
-/

set_option autoImplicit false

namespace HarnessMem.Assimilation

open Library Dream

inductive ScopeStatus where
  | partitionMissing | partitionMismatch | existingEditOnly | supportInconsistent | unclear | mixed | durable | sessionOnly
  deriving DecidableEq

def ScopeStatus.value : ScopeStatus → String
  | .partitionMissing => "source_scope_partition_missing"
  | .partitionMismatch => "source_scope_partition_mismatch"
  | .existingEditOnly => "source_scope_existing_edit_only"
  | .supportInconsistent => "source_scope_support_inconsistent"
  | .unclear => "source_scope_unclear"
  | .mixed => "source_scope_mixed"
  | .durable => "source_scope_durable"
  | .sessionOnly => "source_scope_session_only"

def segmentScope (part : CandidateScopeSegment) : FutureScope :=
  if part.contentRole = .unclear then .unclear
  else if part.contentRole = .temporaryContext ∨ part.sourceUse = .taskContext ∨ part.futureScope = .sessionOnly then .sessionOnly
  else if part.sourceUse = .unclear ∨ part.futureScope = .unclear then .unclear
  else .durable

def unitScope (unit : CandidateClaimUnit) : FutureScope :=
  if unit.sourceUse = .unclear ∨ unit.futureScope = .unclear then .unclear
  else if unit.sourceUse = .taskContext ∨ unit.futureScope = .sessionOnly then .sessionOnly
  else .durable

def supportInconsistent (point : CandidateVerificationPoint) : Bool :=
  point.semanticSupport = .supported ∧
    ((point.scopeSegments.any fun part => stripped part.text ≠ "" ∧ part.sourceSupport ≠ .supported) ∨
      point.claimUnits.any fun unit => unit.sourceSupport ≠ .supported)

def verificationScopeStatus (point : CandidateVerificationPoint) (statement : String) : ScopeStatus :=
  if point.scopeSegments = [] then .partitionMissing
  else if String.join (point.scopeSegments.map (·.text)) ≠ statement then .partitionMismatch
  else if point.literalEdit ∨ point.claimUnits.any fun unit => unit.excludedSegments ≠ [] ∨ unit.titleStart.isSome then
    .existingEditOnly
  else if supportInconsistent point then .supportInconsistent
  else
    let scopes := point.scopeSegments.map segmentScope ++ point.claimUnits.map unitScope
    if FutureScope.unclear ∈ scopes then .unclear
    else if FutureScope.durable ∈ scopes ∧ FutureScope.sessionOnly ∈ scopes then .mixed
    else if FutureScope.durable ∈ scopes then .durable
    else .sessionOnly

/-- What a durable status says of the text. -/
structure DurableOver (point : CandidateVerificationPoint) (statement : String) : Prop where
  whole : String.join (point.scopeSegments.map (·.text)) = statement
  partsSupported : point.semanticSupport = .supported →
    ∀ part ∈ point.scopeSegments, stripped part.text ≠ "" → part.sourceSupport = .supported
  unitsSupported : point.semanticSupport = .supported → ∀ unit ∈ point.claimUnits, unit.sourceSupport = .supported
  parts : ∀ part ∈ point.scopeSegments, segmentScope part = .durable
  units : ∀ unit ∈ point.claimUnits, unitScope unit = .durable

theorem durableOver_of_status {point : CandidateVerificationPoint} {statement : String}
    (status : verificationScopeStatus point statement = .durable) : DurableOver point statement := by
  unfold verificationScopeStatus at status
  split at status
  · cases status
  split at status
  · cases status
  split at status
  · cases status
  split at status
  · cases status
  rename_i whole edited consistent
  dsimp only at status
  split at status
  · cases status
  split at status
  · cases status
  split at status
  swap
  · cases status
  rename_i clear unmixed durable
  -- one scope is there, and it is neither of the two others
  have only : ∀ scope ∈ point.scopeSegments.map segmentScope ++ point.claimUnits.map unitScope, scope = .durable := by
    intro scope member
    cases scope with
    | durable => rfl
    | sessionOnly => exact absurd ⟨durable, member⟩ unmixed
    | unclear => exact absurd member clear
  have support : ¬ supportInconsistent point = true := consistent
  unfold supportInconsistent at support
  simp only [decide_eq_true_eq, not_and, not_or, List.any_eq_true, not_exists, not_not] at support
  refine ⟨not_not.mp whole, fun supported part member filled => ?_, fun supported unit member => ?_, fun part member => ?_,
    fun unit member => ?_⟩
  · exact (support supported).1 part member filled
  · exact (support supported).2 unit member
  · exact only _ (List.mem_append_left _ (List.mem_map_of_mem member))
  · exact only _ (List.mem_append_right _ (List.mem_map_of_mem member))

def Stands (verdict : CandidateVerificationPoint) (scopeText : String) : Prop :=
  verdict.semanticSupport = .supported ∧ verificationScopeStatus verdict scopeText = .durable ∧
    verdict.futureScope = .durable ∧ (verdict.sourceUse = .standingDecision ∨ verdict.sourceUse = .reusableKnowledge)

instance (verdict : CandidateVerificationPoint) (scopeText : String) : Decidable (Stands verdict scopeText) :=
  inferInstanceAs (Decidable (_ ∧ _))

end HarnessMem.Assimilation

/-! The last look at a plan before it is applied: what its points are about to write or confirm is
put to a verifier item by item, and a candidate with an item that does not stand is deferred.
-/

namespace HarnessMem.Assimilation

open Library Dream

/-! ### What a verdict is bound to -/

structure TargetSnapshot where
  id : String
  title : String
  statement : String
  topicPath : List String
  sourceReport : Option SourceReport
  deriving DecidableEq

structure FinalScopePayload where
  candidateId : String
  disposition : AssimilationDisposition
  knowledgeItems : List CanonicalKnowledgeItem
  targets : List TargetSnapshot
  deriving DecidableEq

def settles (disposition : AssimilationDisposition) : Bool := writes disposition || disposition = .confirm

def SeparatedPreparedAssimilation.snapshot? (prepared : SeparatedPreparedAssimilation) (target : String) : Option TargetSnapshot :=
  (prepared.current? target).map fun item => ⟨target, item.title, item.statement, item.topicPath, item.sourceReport⟩

def finalScopePayload (prepared : SeparatedPreparedAssimilation) (point : PlanPoint) : Except String FinalScopePayload :=
  match point.matchedTruthIds.mapM prepared.snapshot? with
  | none => .error "final scope target snapshot is unavailable"
  | some targets => do
    let knowledgeItems ← validatedApplyKnowledgeItems point (writes point.disposition)
    return { candidateId := point.candidateId, disposition := point.disposition, knowledgeItems, targets }

def ClaimKind.value : ClaimKind → String
  | .designRequirement => "design_requirement"
  | .implementationFact => "implementation_fact"
  | .durablePreference => "durable_preference"
  | .procedure => "procedure"
  | .sourceReport => "source_report"

def reportJson (report : SourceReport) : JsonValue :=
  .obj [("exchange_indexes", .arr (report.exchangeIndexes.map fun index => .int index)), ("period", .str report.period.text),
    ("session_id", .str report.sessionId.text), ("source_id", .str report.sourceId.text),
    ("source_revision", .str report.sourceRevision.text), ("speaker", .str report.speaker.value)]

def CanonicalKnowledgeItem.toJson (item : CanonicalKnowledgeItem) : JsonValue :=
  .obj [("claim_kind", .str item.claimKind.value), ("statement", .str item.statement), ("title", .str item.title),
    ("topic_path", .arr (item.topicPath.map .str))]

def TargetSnapshot.toJson (target : TargetSnapshot) : JsonValue :=
  .obj ([("id", .str target.id), ("kind", .str "knowledge_entry")] ++
    (target.sourceReport.map fun report => ("source_report", reportJson report)).toList ++
    [("statement", .str target.statement), ("title", .str target.title), ("topic_path", .arr (target.topicPath.map .str))])

def FinalScopePayload.toJson (payload : FinalScopePayload) : JsonValue :=
  .obj [("candidate_id", .str payload.candidateId), ("disposition", .str payload.disposition.value),
    ("knowledge_items", .arr (payload.knowledgeItems.map (·.toJson))), ("targets", .arr (payload.targets.map (·.toJson)))]

/-- `hashlib.sha256(text.encode("utf-8")).hexdigest()`. -/
structure HexDigests where
  sha256 : String → String
  hex : ∀ text, (sha256 text).length = 64 ∧ ∀ c ∈ (sha256 text).toList, c ∈ "0123456789abcdef".toList

def finalScopeProof (digests : HexDigests) (payload : FinalScopePayload) : String :=
  "fsv_" ++ String.ofList ((digests.sha256 (String.ofList (payload.toJson.dumps false))).toList.take 60)

/-! ### What a text is judged by -/

structure ScopeSource where
  kind : String
  contentSha256 : Option String
  content : Option String

def ScopeSource.isFilled (source : ScopeSource) : Bool := source.content.any (· ≠ "")

structure ReopenedSource where
  content : Option String
  truncated : Bool

/-- The sources of an entry with their digests, and what `reopen_knowledge_sources` says of them. -/
structure TargetReopening where
  verified : Bool
  sources : List (String × Option String)
  reopened : List ReopenedSource

/-- `target_sources`. -/
def TargetReopening.complete? (target : TargetReopening) : Option (List ScopeSource) :=
  if target.verified ∧ target.sources ≠ [] ∧ target.reopened.length = target.sources.length ∧
      target.reopened.all fun item => item.content.any (· ≠ "") ∧ !item.truncated
  then some (List.zipWith (fun source item => ⟨source.1, source.2, item.content⟩) target.sources target.reopened)
  else none

structure ScopeRow where
  /-- `owner_by_index`. -/
  owner : String
  title : String
  statement : String
  sources : List ScopeSource

def scopeText (title statement : String) : String := title ++ "\n" ++ statement

def FinalScopePayload.finalItems (payload : FinalScopePayload) : List (String × String) :=
  if payload.disposition = .confirm then payload.targets.map fun target => (target.title, target.statement)
  else payload.knowledgeItems.map fun item => (item.title, item.statement)

structure ScopeVerdict where
  candidateIndex : Nat
  point : CandidateVerificationPoint

/-! ### The rows of a plan -/

structure ScopeProgress where
  payloads : String → Option FinalScopePayload := fun _ => none
  blocked : String → Option String := fun _ => none
  rows : List ScopeRow := []

def ScopeProgress.keep (progress : ScopeProgress) (payload : FinalScopePayload) : ScopeProgress :=
  { progress with payloads := Function.update progress.payloads payload.candidateId (some payload) }

def ScopeProgress.block (progress : ScopeProgress) (candidateId reason : String) : ScopeProgress :=
  { progress with blocked := Function.update progress.blocked candidateId (some reason) }

/-- The sources of the candidates, and of the entries of the project. -/
structure ScopeSources where
  governedCandidateIds : List String
  /-- The sources in the rows of `original_manifest`. -/
  original : List (List ScopeSource)
  target : String → TargetReopening

/-- `sources_by_candidate`: of two rows of one candidate the later one. -/
def ScopeSources.candidate? (sources : ScopeSources) (candidateId : String) : Option (List ScopeSource) :=
  (sources.governedCandidateIds.zip sources.original).reverse.lookup candidateId

def ScopeSources.behind? (sources : ScopeSources) (payload : FinalScopePayload) (own : List ScopeSource) : Option (List ScopeSource) :=
  (payload.targets.mapM fun target => (sources.target target.id).complete?).map fun complete => own ++ complete.flatten

def canJudge (payload : FinalScopePayload) (sources : List ScopeSource) : Bool :=
  payload.finalItems ≠ [] ∧ sources ≠ [] ∧ sources.all ScopeSource.isFilled

def scopePoint (prepared : SeparatedPreparedAssimilation) (sources : ScopeSources) (progress : ScopeProgress) (point : PlanPoint) :
    Except String ScopeProgress :=
  if settles point.disposition then do
    let payload ← finalScopePayload prepared point
    let progress := progress.keep payload
    match sources.candidate? point.candidateId with
    | none => throw point.candidateId
    | some own =>
      match sources.behind? payload own with
      | none => return progress.block point.candidateId "final_scope_target_source_incomplete"
      | some behind =>
        if (progress.blocked point.candidateId).isSome then return progress
        else if canJudge payload behind then
          return { progress with
            rows := progress.rows ++ payload.finalItems.map fun item => ⟨point.candidateId, item.1, item.2, behind⟩ }
        else return progress.block point.candidateId "final_scope_source_incomplete"
  else return progress

/-! ### The verdicts -/

def covers (rows : List ScopeRow) (checked : List ScopeVerdict) : Bool :=
  checked.length = rows.length ∧ (checked.all fun verdict => verdict.candidateIndex < rows.length) ∧
    (List.range rows.length).all fun index => checked.any fun verdict => verdict.candidateIndex = index

def deferralReason (verdict : CandidateVerificationPoint) (text : String) : String :=
  let scope := verificationScopeStatus verdict text
  "final_" ++ if scope ≠ .durable then scope.value else "semantic_support_incomplete"

def judge (rows : List ScopeRow) (blocked : String → Option String) (verdict : ScopeVerdict) : String → Option String :=
  match rows[verdict.candidateIndex]? with
  | some row =>
    if Stands verdict.point (scopeText row.title row.statement) then blocked
    else Function.update blocked row.owner (some (deferralReason verdict.point (scopeText row.title row.statement)))
  | none => blocked

def deferPoint (blocked : String → Option String) (point : PlanPoint) : PlanPoint :=
  match blocked point.candidateId with
  | some reason => { point with
      disposition := .defer
      matchedTruthIds := []
      matchedTruthKinds := []
      canonicalTitle := none
      canonicalStatement := none
      topicPath := []
      knowledgeItems := []
      reason := "Final knowledge scope verification deferred this complete point: " ++ reason ++ "." }
  | none => point

/-- `retain_scope_verdicts`, of the reason codes that the evidence of the candidates holds. -/
def retainScopeVerdicts (digests : HexDigests) (payloads : String → Option FinalScopePayload) (blocked : String → Option String)
    (codes : String → List String) (candidateId : String) : List String :=
  match payloads candidateId with
  | some payload => (codes candidateId ++ [(blocked candidateId).getD (finalScopeProof digests payload)]).eraseDups
  | none => codes candidateId

/-- What the verification leaves: the plan and the reason codes, with what the verifier was asked and answered. -/
structure ScopeOutcome where
  rows : List ScopeRow
  checked : List ScopeVerdict
  plan : AssimilationPlan
  codes : String → List String

section

variable (digests : HexDigests) (prepared : SeparatedPreparedAssimilation) (sources : ScopeSources)
  -- the provider, of the rows it is asked about
  (verify : List ScopeRow → Except String (List ScopeVerdict))

def checkRows (rows : List ScopeRow) : Except String (List ScopeVerdict) :=
  if rows = [] then .ok []
  else do
    let checked ← verify rows
    (if covers rows checked then return checked else throw "final scope verification must cover every item once")

def verifyFinalKnowledgeScope (plan : AssimilationPlan) (codes : String → List String) : Except String ScopeOutcome := do
  if sources.original.length ≠ sources.governedCandidateIds.length then
    throw "final verification lost candidate/source coverage"
  let progress ← plan.points.foldlM (scopePoint prepared sources) {}
  let checked ← checkRows verify progress.rows
  let blocked := checked.foldl (judge progress.rows) progress.blocked
  return {
    rows := progress.rows
    checked
    plan := { plan with points := plan.points.map (deferPoint blocked) }
    codes := retainScopeVerdicts digests progress.payloads blocked codes }

end

end HarnessMem.Assimilation
