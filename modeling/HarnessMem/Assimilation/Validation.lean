import HarnessMem.Library.Casing
import HarnessMem.Library.Lists
import HarnessMem.Library.Results
import HarnessMem.Schemas.Knowledge
import Mathlib.Data.List.Sort

/-! The reviewed plan of a distillation: what a provider may decide about each verified candidate,
how its decision becomes a plan, and how a plan is read again when it is applied.
-/

set_option autoImplicit false

namespace HarnessMem.Assimilation

open Library

inductive ClaimKind where
  | designRequirement | implementationFact | durablePreference | procedure | sourceReport
  deriving DecidableEq

inductive AnswerGateStatus where
  | answered | partially | unanswered | contradicted | stale | notApplicable
  deriving DecidableEq

def AnswerGateStatus.value : AnswerGateStatus → String
  | .answered => "ANSWERED"
  | .partially => "PARTIAL"
  | .unanswered => "UNANSWERED"
  | .contradicted => "CONTRADICTED"
  | .stale => "STALE"
  | .notApplicable => "NOT_APPLICABLE"

/-- `_WRITING_DISPOSITIONS`. -/
def writes : AssimilationDisposition → Bool
  | .add | .refine | .replace => true
  | _ => false

def mutates : AssimilationDisposition → Bool
  | .refine | .replace => true
  | _ => false

/-! ### What a provider decides -/

structure CanonicalKnowledgeItem where
  title : String
  statement : String
  topicPath : List String
  claimKind : ClaimKind
  deriving DecidableEq

structure AssimilationPoint where
  candidateId : String
  disposition : AssimilationDisposition
  matchedTruthHandles : List String := []
  canonicalTitle : Option String := none
  canonicalStatement : Option String := none
  topicPath : List String := []
  knowledgeItems : List CanonicalKnowledgeItem := []
  reason : String
  deriving DecidableEq

/-- The field bounds of `CanonicalKnowledgeItem`, and `normalize_proposed_item`. -/
def CanonicalKnowledgeItem.validate (item : CanonicalKnowledgeItem) : Except String CanonicalKnowledgeItem := do
  if item.title = "" then throw "title should have at least 1 character"
  if item.statement = "" then throw "statement should have at least 1 character"
  if item.topicPath = [] then throw "topic_path should have at least 1 item"
  return { item with
    title := collapseSpaces item.title
    statement := collapseSpaces item.statement
    topicPath := item.topicPath.map collapseSpaces }

def assertAtomicTitle (value : String) : Except String String :=
  let normalized := collapseSpaces value
  if normalized = "" then .error "knowledge title must not be empty" else .ok normalized

def validateAtomicKnowledgeStatement (value : String) : Except String String :=
  let normalized := collapseSpaces value
  if normalized = "" then .error "knowledge statement must not be empty" else .ok normalized

def checkedText (check : String → Except String String) : Option String → Except String (Option String)
  | some value => if value = "" then .ok (some value) else (check value).map some
  | none => .ok none

def AssimilationPoint.oneForm (point : AssimilationPoint) : AssimilationPoint :=
  if point.knowledgeItems = [] then point
  else { point with canonicalTitle := none, canonicalStatement := none, topicPath := [] }

def AssimilationPoint.checkTargets (point : AssimilationPoint) : Except String Unit := do
  let targetCount := point.matchedTruthHandles.length
  if point.disposition = .add ∧ targetCount ≠ 0 then throw "add must not target current truth"
  if point.disposition = .confirm ∧ targetCount ≠ 1 then throw "confirm requires exactly one current truth handle"
  if mutates point.disposition ∧ targetCount < 1 then
    throw (point.disposition.value ++ " requires at least one current truth handle")
  if point.disposition = .conflict ∧ 1 < targetCount then throw "conflict may reference at most one current truth handle"

def AssimilationPoint.requireAtomicCanonicalStatement (point : AssimilationPoint) : Except String AssimilationPoint := do
  let point := point.oneForm
  point.checkTargets
  let canonicalTitle ← checkedText assertAtomicTitle point.canonicalTitle
  let canonicalStatement ← checkedText validateAtomicKnowledgeStatement point.canonicalStatement
  return { point with canonicalTitle, canonicalStatement }

/-- `AssimilationPoint.model_validate`. -/
def AssimilationPoint.validate (point : AssimilationPoint) : Except String AssimilationPoint := do
  if point.candidateId = "" ∨ 128 < point.candidateId.length then throw "candidate_id should have 1 to 128 characters"
  let knowledgeItems ← point.knowledgeItems.mapM CanonicalKnowledgeItem.validate
  if point.reason.length < 8 ∨ 1000 < point.reason.length then throw "reason should have 8 to 1000 characters"
  { point with knowledgeItems }.requireAtomicCanonicalStatement

structure AssimilationDecision where
  points : List AssimilationPoint
  validated : ∀ point ∈ points, ∃ raw : AssimilationPoint, raw.validate = .ok point

def AssimilationDecision.modelValidate (payload : List AssimilationPoint) : Except String AssimilationDecision :=
  match shape : payload.mapM AssimilationPoint.validate with
  | .ok points => .ok ⟨points, fun _ member => (of_mem_mapM shape member).imp fun _ found => found.2⟩
  | .error message => .error message

/-! ### What is prepared -/

structure PlanPoint where
  candidateId : String
  answerStatus : AnswerGateStatus
  disposition : AssimilationDisposition
  matchedTruthIds : List String := []
  /-- Every kind is `knowledge_entry`. -/
  matchedTruthKinds : List String := []
  canonicalTitle : Option String := none
  canonicalStatement : Option String := none
  topicPath : List String := []
  knowledgeItems : List CanonicalKnowledgeItem := []
  reason : String
  deriving DecidableEq

/-- An item of `verified_candidates`. The text of its report is left out. -/
structure VerifiedCandidate where
  candidateId : String
  statement : String
  sourceReport : Option SourceReport

/-- An item of `current_truth`. The text of its report is left out. -/
structure CurrentTruth where
  handle : String
  title : String
  statement : String
  topicPath : List String
  sourceReport : Option SourceReport

structure SeparatedPreparedAssimilation where
  candidateIds : List String
  eligibleCandidateIds : List String
  automaticPoints : List PlanPoint
  answerStatusByCandidate : String → Option AnswerGateStatus
  truthByHandle : List (String × String)
  verifiedCandidates : List VerifiedCandidate
  currentTruth : List CurrentTruth
  /-- Only answered candidates are put to the provider. -/
  eligible : ∀ candidateId ∈ eligibleCandidateIds,
    candidateId ∈ candidateIds ∧ answerStatusByCandidate candidateId = some .answered
  /-- The gate decides the others. -/
  automatic : ∀ point ∈ automaticPoints, point.candidateId ∈ candidateIds ∧ point.candidateId ∉ eligibleCandidateIds ∧
    answerStatusByCandidate point.candidateId = some point.answerStatus
  decided : ∀ first ∈ automaticPoints, ∀ second ∈ automaticPoints, first.candidateId = second.candidateId → first = second
  /-- Every handle is that of another entry. -/
  distinct : (truthByHandle.map (·.2)).Nodup

def automaticPoint (candidateId : String) (answerStatus : AnswerGateStatus) (disposition : Option AssimilationDisposition)
    (reason : Option String) : PlanPoint where
  candidateId
  answerStatus
  disposition := disposition.getD <|
    match answerStatus with
    | .contradicted | .stale => .reject
    | .notApplicable => .noWrite
    | _ => .defer
  reason := (reason.filter (· ≠ "")).getD ("runtime evidence gate is " ++ answerStatus.value)

/-- A candidate, and its evidence behind the gate: the status `answer_gate_status` gives it, whether its basis
is the transcript, and the reason codes. -/
structure GatedCandidate where
  candidate : KnowledgeCandidate
  /-- `assimilation_targets` is filled. -/
  targeted : Bool
  answerStatus : AnswerGateStatus
  fromTranscript : Bool
  reasonCodes : List String

/-- `_non_promoting_transcript_disposition`. -/
def GatedCandidate.nonPromotingDisposition (gated : GatedCandidate) : Option AssimilationDisposition :=
  let reason := stripped (gated.candidate.assimilationReason.getD "")
  match gated.candidate.assimilationDisposition with
  | some disposition =>
    if disposition ∈ [.noWrite, .reject] ∧ 8 ≤ reason.length ∧ reason.length ≤ 1000 ∧
        gated.candidate.assimilationTargetIds = [] ∧ !gated.targeted ∧ gated.candidate.status ≠ .conflict
    then some disposition else none
  | none => none

/-- `_is_non_durable_verified_point`. -/
def GatedCandidate.isNonDurable (gated : GatedCandidate) : Bool :=
  gated.reasonCodes.any fun code => code ∈ ["session_only_not_durable", "source_use_task_context"]

def GatedCandidate.automatic? (candidateId : String) (gated : GatedCandidate) : Option PlanPoint :=
  match if gated.answerStatus = .notApplicable ∧ gated.fromTranscript then gated.nonPromotingDisposition else none with
  | some disposition =>
    some (automaticPoint candidateId gated.answerStatus (some disposition)
      (some (stripped (gated.candidate.assimilationReason.getD ""))))
  | none =>
    if gated.answerStatus = .answered then
      if gated.isNonDurable then
        some (automaticPoint candidateId gated.answerStatus (some .noWrite)
          (some "A clarification of this session's review scope is not current project knowledge."))
      else none
    else some (automaticPoint candidateId gated.answerStatus none none)

theorem GatedCandidate.automatic?_spec {candidateId : String} {gated : GatedCandidate} {point : PlanPoint}
    (decided : gated.automatic? candidateId = some point) :
    point.candidateId = candidateId ∧ point.answerStatus = gated.answerStatus := by
  unfold automatic? at decided
  split at decided
  · cases decided
    exact ⟨rfl, rfl⟩
  · split at decided
    · split at decided
      · cases decided
        exact ⟨rfl, rfl⟩
      · cases decided
    · cases decided
      exact ⟨rfl, rfl⟩

theorem GatedCandidate.answered_of_eligible {candidateId : String} {gated : GatedCandidate}
    (open_ : gated.automatic? candidateId = none) : gated.answerStatus = .answered := by
  unfold automatic? at open_
  split at open_
  · cases open_
  · split at open_
    · next answered => exact answered
    · cases open_

/-- `prepare_separated_assimilation`, behind the gate: candidates by identifier, and the current entries of the
project in the order of their relevance. -/
def prepareSeparatedAssimilation (gated : String → GatedCandidate) (candidateIds : List String) (entries : List KnowledgeEntry)
    (distinct : (entries.map (·.id)).Nodup) : SeparatedPreparedAssimilation where
  candidateIds
  eligibleCandidateIds := candidateIds.filter fun candidateId => ((gated candidateId).automatic? candidateId).isNone
  automaticPoints := candidateIds.filterMap fun candidateId => (gated candidateId).automatic? candidateId
  answerStatusByCandidate candidateId := if candidateId ∈ candidateIds then some (gated candidateId).answerStatus else none
  truthByHandle := (entries.zipIdx 1).map fun entry => ("T" ++ toString entry.2, entry.1.id)
  verifiedCandidates := (candidateIds.filter fun candidateId => ((gated candidateId).automatic? candidateId).isNone).map
    fun candidateId => ⟨candidateId, (gated candidateId).candidate.statement, (gated candidateId).candidate.sourceReport⟩
  currentTruth := (entries.zipIdx 1).map fun entry =>
    ⟨"T" ++ toString entry.2, entry.1.title.text, entry.1.statement.text, entry.1.modulePath.map (·.text), entry.1.sourceReport⟩
  eligible candidateId member := by
    obtain ⟨inside, undecided⟩ := List.mem_filter.mp member
    refine ⟨inside, ?_⟩
    rw [if_pos inside, GatedCandidate.answered_of_eligible (Option.isNone_iff_eq_none.mp undecided)]
  automatic point member := by
    obtain ⟨candidateId, inside, decided⟩ := List.mem_filterMap.mp member
    obtain ⟨rfl, status⟩ := GatedCandidate.automatic?_spec decided
    refine ⟨inside, fun eligible => ?_, by rw [if_pos inside, status]⟩
    have undecided := (List.mem_filter.mp eligible).2
    rw [decided] at undecided
    cases undecided
  decided first one second other same := by
    obtain ⟨candidateId, -, decided⟩ := List.mem_filterMap.mp one
    obtain ⟨otherId, -, otherDecided⟩ := List.mem_filterMap.mp other
    obtain ⟨rfl, -⟩ := GatedCandidate.automatic?_spec decided
    obtain ⟨rfl, -⟩ := GatedCandidate.automatic?_spec otherDecided
    rw [← same, decided] at otherDecided
    exact Option.some.inj otherDecided
  distinct := by
    have ids : ((entries.zipIdx 1).map fun entry => ("T" ++ toString entry.2, entry.1.id)).map (·.2) = entries.map (·.id) := by
      rw [List.map_map]
      conv_rhs => rw [← List.zipIdx_map_fst 1 entries, List.map_map]
      rfl
    rw [ids]
    exact distinct

end HarnessMem.Assimilation

/-! A decision becomes a plan, and a plan is read again before it is applied: the two sides as
the source has them, over the checks they share.
-/

namespace HarnessMem.Assimilation

open Library

def validateKnowledgeModulePath (path : List String) : Except String (List String) :=
  let normalized := (path.map stripped).filter (· ≠ "")
  if normalized = [] then .error "topic_path must name a natural project module" else .ok normalized

def validateCanonicalKnowledgeItem (raw : CanonicalKnowledgeItem) : Except String CanonicalKnowledgeItem := do
  let title := collapseSpaces raw.title
  let statement := collapseSpaces raw.statement
  if title = "" ∨ statement = "" then throw "canonical knowledge title or statement is invalid"
  if raw.topicPath = [] then throw "canonical knowledge topic_path is invalid"
  if raw.topicPath.any fun part => stripped part = "" then throw "canonical knowledge topic_path is invalid"
  let statement ← (validateAtomicKnowledgeStatement statement).mapError fun message =>
    "canonical knowledge statement is not atomic or natural: " ++ message
  return { title, statement, topicPath := raw.topicPath.map stripped, claimKind := raw.claimKind }

def readItem (raw : CanonicalKnowledgeItem) : Except String CanonicalKnowledgeItem := do
  let item ← validateCanonicalKnowledgeItem raw
  let topicPath ← validateKnowledgeModulePath item.topicPath
  return { item with topicPath }

def normalizeSplitKnowledgeItems (items : List CanonicalKnowledgeItem) : List CanonicalKnowledgeItem := items.eraseDups

/-- `SourceReport.model_validate` of an attribution and a text. -/
def attributed (report : SourceReport) (text : String) : Except String SourceReport :=
  match SingleLine.ofText? text with
  | some line => .ok { report with text := line }
  | none => .error "source-report fields must be nonempty single lines"

namespace SeparatedPreparedAssimilation

variable (prepared : SeparatedPreparedAssimilation)

/-- `truth_by_handle`. -/
def truth? (handle : String) : Option String := prepared.truthByHandle.lookup handle

def report? (candidateId : String) : Except String (Option SourceReport) :=
  match prepared.verifiedCandidates.find? fun item => item.candidateId = candidateId with
  | some ⟨_, statement, some report⟩ => (attributed report statement).map some
  | _ => .ok none

/-- `current_by_id`: of two items of one entry the later one. -/
def current? (targetId : String) : Option CurrentTruth :=
  prepared.currentTruth.reverse.find? fun item => prepared.truth? item.handle = some targetId

def validateTarget (disposition : AssimilationDisposition) (report : Option SourceReport) (targetId : String) :
    Except String Unit := do
  let current := prepared.current? targetId
  match report, current.bind (·.sourceReport) with
  | none, none => return
  | some report, some target =>
    let account ← attributed target ((current.map (·.statement)).getD "")
    if !report.sameAccountSource account then throw "source-report updates cannot cross source, speaker, or period"
    if disposition = .confirm ∧ current.map (·.statement) ≠ some report.renderStatement then
      throw "source-report confirmation requires the identical attributed account"
  | _, _ => throw "source-report and fact authority boundary cannot be crossed"

def validateReportAuthority (candidateId : String) (disposition : AssimilationDisposition) (targetIds : List String) :
    Except String (Option SourceReport) := do
  let report ← prepared.report? candidateId
  targetIds.forM (prepared.validateTarget disposition report)
  return report

end SeparatedPreparedAssimilation

def bindReportItems (report : Option SourceReport) (items : List CanonicalKnowledgeItem) (writing : Bool) :
    Except String (List CanonicalKnowledgeItem) :=
  match report with
  | some report =>
    if writing then
      match items with
      | [item] => .ok [{ item with
          title := report.renderTitle
          statement := report.renderStatement
          claimKind := .sourceReport }]
      | _ => .error "source-report writes require exactly one verified account item"
    else .ok items
  | none =>
    if items.any fun item => item.claimKind = .sourceReport then
      .error "source-report knowledge requires a verified attribution envelope"
    else .ok items

/-- `_reject_reused_mutating_targets`, of the uses of targets in their order. -/
def rejectReusedMutatingTargets (uses : List (String × AssimilationDisposition)) : Except String Unit :=
  if (uses.map (·.1)).any fun target =>
      let dispositions := (uses.filter fun use => use.1 = target).map (·.2)
      1 < dispositions.length && dispositions.any mutates
  then .error "one current truth target is reused across points that mutate it"
  else .ok ()

/-! ### The producer -/

/-- `current_by_handle`: of two items of one handle the later one. -/
def SeparatedPreparedAssimilation.currentByHandle? (prepared : SeparatedPreparedAssimilation) (handle : String) : Option CurrentTruth :=
  prepared.currentTruth.reverse.find? fun item => item.handle ≠ "" ∧ item.handle = handle

def CurrentTruth.isIdentical (target : CurrentTruth) (title statement : String) (topicPath : List String) : Bool :=
  title ≠ "" ∧ statement ≠ "" ∧ topicPath ≠ [] ∧ title = target.title ∧ statement = target.statement ∧ topicPath = target.topicPath

def AssimilationPoint.repeats (point : AssimilationPoint) (target : CurrentTruth) : Bool :=
  match point.knowledgeItems with
  | [] => target.isIdentical (point.canonicalTitle.getD "") (point.canonicalStatement.getD "") point.topicPath
  | [item] => target.isIdentical item.title item.statement item.topicPath
  | _ => false

/-- The round of `normalize_identical_replacements` over one point. -/
def normalizedPoint (prepared : SeparatedPreparedAssimilation) (point : AssimilationPoint) : AssimilationPoint :=
  match point.matchedTruthHandles with
  | [handle] =>
    if mutates point.disposition ∧ (prepared.currentByHandle? handle).any point.repeats then
      { point with disposition := .confirm, canonicalTitle := none, canonicalStatement := none, topicPath := [], knowledgeItems := [] }
    else point
  | _ => point

/-- `normalize_identical_replacements`. A decision that nothing changes in is not validated again. -/
def normalizeIdenticalReplacements (prepared : SeparatedPreparedAssimilation) (decision : AssimilationDecision) :
    Except String AssimilationDecision :=
  let payload := decision.points.map (normalizedPoint prepared)
  if payload = decision.points then .ok decision else AssimilationDecision.modelValidate payload

def validateTargets (disposition : AssimilationDisposition) (targets : List String) : Except String Unit := do
  if disposition = .add ∧ targets ≠ [] then throw "add must not target current truth"
  if disposition = .confirm ∧ targets.length ≠ 1 then throw "confirm requires exactly one current truth handle"
  if mutates disposition ∧ targets = [] then
    throw (disposition.value ++ " requires at least one current truth handle")
  if disposition = .conflict ∧ 1 < targets.length then throw "conflict may reference at most one current truth handle"
  if disposition ∈ [.noWrite, .handoff, .defer, .reject] ∧ targets ≠ [] then
    throw (disposition.value ++ " must not target current truth")

def writtenItems (point : AssimilationPoint) : Except String (List CanonicalKnowledgeItem × List String) := do
  if point.knowledgeItems ≠ [] then
    if point.canonicalTitle.getD "" ≠ "" ∨ point.canonicalStatement.getD "" ≠ "" ∨ point.topicPath ≠ [] then
      throw "knowledge_items and legacy canonical fields cannot both write truth"
    let items ← point.knowledgeItems.mapM readItem
    return (normalizeSplitKnowledgeItems items, point.topicPath)
  else if stripped (point.canonicalTitle.getD "") = "" ∨ stripped (point.canonicalStatement.getD "") = "" then
    throw (point.disposition.value ++ " requires canonical knowledge")
  else
    let topicPath ← validateKnowledgeModulePath point.topicPath
    return ([], topicPath)

def carriedItems (report : Option SourceReport) (point : AssimilationPoint) :
    Except String (List CanonicalKnowledgeItem × List String) :=
  if writes point.disposition then do
    let (items, topicPath) ← writtenItems point
    let items ← bindReportItems report items true
    return (items, topicPath)
  else if point.knowledgeItems ≠ [] ∨ stripped (point.canonicalTitle.getD "") ≠ "" ∨
      stripped (point.canonicalStatement.getD "") ≠ "" ∨ point.topicPath.any fun part => stripped part ≠ "" then
    .error (point.disposition.value ++ " is non-writing and cannot carry canonical knowledge")
  else .ok ([], point.topicPath)

/-- The round of `validate_separated_assimilation_decision` over one point. -/
def validatePoint (prepared : SeparatedPreparedAssimilation) (point : AssimilationPoint) : Except String PlanPoint := do
  let handles := point.matchedTruthHandles
  if ¬ handles.Nodup then throw "assimilation point contains duplicate truth handles"
  if handles.any fun handle => (prepared.truth? handle).isNone then
    throw "assimilation point references an unavailable truth handle"
  let matchedTruthIds := handles.filterMap prepared.truth?
  let report ← prepared.validateReportAuthority point.candidateId point.disposition matchedTruthIds
  validateTargets point.disposition handles
  let (knowledgeItems, topicPath) ← carriedItems report point
  return {
    candidateId := point.candidateId
    answerStatus := .answered
    disposition := point.disposition
    matchedTruthIds
    matchedTruthKinds := handles.map fun _ => "knowledge_entry"
    canonicalTitle := point.canonicalTitle
    canonicalStatement := point.canonicalStatement
    topicPath
    knowledgeItems
    reason := point.reason }

def candidateWrittenStatements (points : List PlanPoint) : List (String × List String) :=
  let written := points.filter fun point => writes point.disposition
  (written.map (·.candidateId)).eraseDups.map fun candidateId => (candidateId,
    (written.filter fun point => point.candidateId = candidateId).flatMap fun point =>
      if point.knowledgeItems = [] then [point.canonicalStatement.getD ""] else point.knowledgeItems.map (·.statement))

structure AssimilationPlan where
  candidateIds : List String
  points : List PlanPoint
  providerCandidateIds : List String
  deriving DecidableEq

/-- `normalized.sort`, which keeps the order of the points of one candidate. -/
def byCandidate (prepared : SeparatedPreparedAssimilation) (points : List PlanPoint) : List PlanPoint :=
  points.insertionSort fun first second =>
    prepared.candidateIds.idxOf first.candidateId ≤ prepared.candidateIds.idxOf second.candidateId

section

-- `_validate_candidate_specificity`: whatever else the statements of a candidate have to meet
variable (specificity : SeparatedPreparedAssimilation → String → List String → Except String Unit)

def validateSeparatedAssimilationDecision (prepared : SeparatedPreparedAssimilation) (decision : AssimilationDecision) :
    Except String AssimilationPlan := do
  let decision ← normalizeIdenticalReplacements prepared decision
  let ids := decision.points.map (·.candidateId)
  let missing := prepared.eligibleCandidateIds.filter (· ∉ ids)
  let extra := ids.filter (· ∉ prepared.eligibleCandidateIds)
  if missing ≠ [] ∧ extra ≠ [] then throw "assimilation decision covers the wrong candidate set"
  if missing ≠ [] then throw "assimilation decision must cover every verified candidate"
  if extra ≠ [] then throw "assimilation decision contains unsupported candidate ids"
  let points ← decision.points.mapM (validatePoint prepared)
  rejectReusedMutatingTargets
    (decision.points.flatMap fun point => point.matchedTruthHandles.map fun handle => (handle, point.disposition))
  (candidateWrittenStatements points).forM fun written => specificity prepared written.1 written.2
  return {
    candidateIds := prepared.candidateIds
    points := byCandidate prepared (prepared.automaticPoints ++ points)
    providerCandidateIds := prepared.eligibleCandidateIds }

end

/-! ### The consumer -/

/-- `_validated_apply_knowledge_items`. A plan has no claim kind of its own. -/
def validatedApplyKnowledgeItems (point : PlanPoint) (writesTruth : Bool) : Except String (List CanonicalKnowledgeItem) := do
  let canonicalTitle := stripped (point.canonicalTitle.getD "")
  let canonicalStatement := stripped (point.canonicalStatement.getD "")
  if !writesTruth then
    if point.knowledgeItems ≠ [] ∨ canonicalTitle ≠ "" ∨ canonicalStatement ≠ "" ∨ point.topicPath ≠ [] then
      throw "non-writing assimilation cannot carry canonical knowledge"
    return []
  if point.knowledgeItems ≠ [] ∧ (canonicalTitle ≠ "" ∨ canonicalStatement ≠ "" ∨ point.topicPath ≠ []) then
    throw "knowledge_items and legacy canonical fields cannot both write truth"
  let supplied := if point.knowledgeItems = [] then [⟨canonicalTitle, canonicalStatement, point.topicPath, .procedure⟩]
    else point.knowledgeItems
  let items ← supplied.mapM readItem
  return normalizeSplitKnowledgeItems items

def validateApplyTargets (disposition : AssimilationDisposition) (targets : List String) : Except String Unit := do
  if ¬ targets.Nodup then throw "assimilation point contains duplicate truth targets"
  if disposition = .confirm ∧ targets.length ≠ 1 then throw "confirm requires exactly one current truth target"
  if mutates disposition ∧ targets = [] then
    throw (disposition.value ++ " requires at least one current truth target")
  if disposition = .conflict ∧ 1 < targets.length then throw "conflict may reference at most one current truth target"
  if disposition ∈ [.add, .noWrite, .handoff, .defer, .reject] ∧ targets ≠ [] then
    throw (disposition.value ++ " must not target current truth")

/-- The round of `_validate_apply_points` over a point that the provider decided. -/
def applyEligible (prepared : SeparatedPreparedAssimilation) (point : PlanPoint) : Except String PlanPoint := do
  if point.answerStatus ≠ .answered then throw "eligible assimilation points must remain ANSWERED"
  let targets := point.matchedTruthIds
  validateApplyTargets point.disposition targets
  let kinds := point.matchedTruthKinds
  if kinds ≠ [] ∧ (kinds.length ≠ targets.length ∨ kinds.any fun kind => kind ≠ "knowledge_entry") then
    throw "separated assimilation target kinds are invalid"
  let reason := stripped point.reason
  if reason.length < 8 ∨ 1000 < reason.length then throw "assimilation reason must contain 8 to 1000 characters"
  let knowledgeItems ← validatedApplyKnowledgeItems point (writes point.disposition)
  let report ← prepared.validateReportAuthority point.candidateId point.disposition targets
  let knowledgeItems ← bindReportItems report knowledgeItems (writes point.disposition)
  return {
    candidateId := point.candidateId
    answerStatus := .answered
    disposition := point.disposition
    matchedTruthIds := targets
    matchedTruthKinds := targets.map fun _ => "knowledge_entry"
    knowledgeItems
    reason }

/-- The round of `_validate_apply_points` over one point. -/
def applyPoint (prepared : SeparatedPreparedAssimilation) (point : PlanPoint) : Except String PlanPoint := do
  if point.candidateId ∉ prepared.candidateIds then throw "separated assimilation point references another candidate"
  let some expectedStatus := prepared.answerStatusByCandidate point.candidateId | throw point.candidateId
  if point.candidateId ∉ prepared.eligibleCandidateIds then
    -- of two automatic points of one candidate the later one
    match prepared.automaticPoints.reverse.find? fun item => item.candidateId = point.candidateId with
    | some expected =>
      if point.disposition ≠ expected.disposition ∨ point.answerStatus ≠ expectedStatus then
        throw "separated assimilation cannot override the runtime Answer Gate"
      return expected
    | none => throw "separated assimilation cannot override the runtime Answer Gate"
  if expectedStatus ≠ .answered then throw "eligible assimilation points must remain ANSWERED"
  applyEligible prepared point

def validateApplyPoints (prepared : SeparatedPreparedAssimilation) (supplied : List PlanPoint) : Except String (List PlanPoint) := do
  let normalized ← supplied.mapM (applyPoint prepared)
  rejectReusedMutatingTargets <|
    (supplied.filter fun point => point.candidateId ∈ prepared.eligibleCandidateIds).flatMap fun point =>
      point.matchedTruthIds.map fun target => (target, point.disposition)
  return normalized

end HarnessMem.Assimilation
