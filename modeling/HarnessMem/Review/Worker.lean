import HarnessMem.Review.Preparation
import HarnessMem.Schemas.SessionDistill

/-! The worker's side of a review: expanding what the agent returned, repairing
the labels of its rationale, checking it, and handing it to the finalization.
-/

set_option autoImplicit false

namespace HarnessMem.Review

open Library

/-- The case tables of the interpreter: `str.lower`, `str.casefold` and `str.isalnum`. -/
structure Casing where
  lower : String → String
  fold : String → String
  isAlnum : Char → Bool

def Casing.ascii : Casing where
  lower := String.toLower
  fold := String.toLower
  isAlnum := Char.isAlphanum

/-! ### Expanding the answer of an agent -/

def exchangeDigest (exchanges : List ExchangeRef) : Int → Option String
  | .ofNat index => refDict (exchanges.filter fun ref => ref.contentSha256.length = 64) index
  | .negSucc _ => none

def pointRefs (exchanges : List ExchangeRef) (point : AgentExtractionPoint) : Except String (List VerificationRef) :=
  if point.evidenceBasis = .repository then
    .ok [{ kind := .repository, contentSha256 := point.repositorySha256.getD "", locator := point.repositoryLocator }]
  else point.exchangeIndexes.eraseDups.mapM fun index =>
    match exchangeDigest exchanges index with
    | none => .error s!"point cites unavailable exchange {index}"
    | some digest => .ok
      { kind := point.evidenceBasis
        contentSha256 := digest
        exchangeIndex := some index.toNat
        role :=
          if point.evidenceBasis = .userStatement then some .user
          else if point.evidenceBasis = .sourceReport then point.reportRole else none }

def expandPoint (exchanges : List ExchangeRef) (point : AgentExtractionPoint) : Except String DistillCandidate :=
  (pointRefs exchanges point).map fun verificationRefs =>
    let candidate : DistillCandidate := { kind := point.kind, evidenceBasis := point.evidenceBasis, verificationRefs }
    match point.kind with
    | .memory => { candidate with category := some "knowledge", content := some point.statement }
    | .rule => { candidate with pattern := some point.statement, trigger := point.condition }
    | .relation =>
      { candidate with
        sourceEntity := point.sourceEntity
        targetEntity := point.targetEntity
        relationType := point.relationType
        evidence := some point.statement }

def boundChallenge (review : AgentExtractionReview) (template : ZeroCandidateChallenge) : ZeroCandidateChallenge :=
  let checks := fun check =>
    if check ∈ review.notDurableSignals ∧ template.checks check = .candidateRequired then Finding.notDurable
    else template.checks check
  let stillRequired := CheckName.sorted.any fun check => checks check = .candidateRequired
  let downgraded := CheckName.sorted.any fun check => checks check = .notDurable
  { template with
    checks
    futureUtility :=
      if stillRequired then .durable else if downgraded then .sessionOnly else template.futureUtility
    conclusion := if stillRequired then .candidateRequired else .noDurableCandidate
    rationale := review.noCandidateReason.getD "" }

def expandReview (review : AgentExtractionReview) (candidates : List DistillCandidate)
    (challenge : Option ZeroCandidateChallenge) : SemanticReview :=
  let unfinished := (review.unfinished.map stripped).filter fun item => item ≠ ""
  { sessionSummary := review.summary
    finalUserRequest := review.finalRequest
    finalOutcome := review.actualResult
    lastTurnStatus := if unfinished ≠ [] then .unfinished else .answered
    contradictions := review.contradictions
    unfinishedWork := unfinished
    evidenceStatus :=
      if unfinished ≠ [] then .partly else if candidates ≠ [] then .answered else .notApplicable
    promotionDecision :=
      if unfinished ≠ [] then .partly else if candidates ≠ [] then .promote else .noPromotion
    zeroCandidateChallenge := challenge }

/-- `AutonomousDecision.model_validate`. -/
def AutonomousDecision.validate (decision : AutonomousDecision) : Except String AutonomousDecision :=
  if decision.Fits then .ok decision else .error "the response does not fit its schema"

def expandAgentExtractionDecision (compact : AgentExtractionDecision) (packet : Packet) :
    Except String AutonomousDecision :=
  match compact.points.mapM (expandPoint packet.semanticDecisionExchanges), packet.zeroCandidateChallengeTemplate with
  | .error unavailable, _ => .error unavailable
  | .ok [], none => .error "zero-candidate template is missing"
  | .ok [], some template =>
    AutonomousDecision.validate ⟨expandReview compact.review [] (some (boundChallenge compact.review template)), []⟩
  | .ok (first :: rest), _ =>
    AutonomousDecision.validate ⟨expandReview compact.review (first :: rest) none, first :: rest⟩

/-! ### Signal labels in a rationale -/

/-- `mark in text`. -/
def contains (text mark : String) : Bool := text.toList.tails.any mark.toList.isPrefixOf

/-- `text.replace(mark, "")` behind the next `skip` characters, which a found mark covers. -/
def removeMark (mark : List Char) : Nat → List Char → List Char
  | _, [] => []
  | skip + 1, _ :: rest => removeMark mark skip rest
  | 0, c :: rest =>
    if mark.isPrefixOf (c :: rest) then removeMark mark (mark.length - 1) rest else c :: removeMark mark 0 rest

section

variable (casing : Casing) (rationale : String)

def mentions (check : CheckName) : Bool := contains (casing.lower rationale) (casing.lower check.name)

def substantive (checks : List CheckName) : Bool :=
  12 ≤ (checks.foldl (fun text check => removeMark (casing.lower check.name).toList 0 text)
    (casing.lower rationale).toList).countP casing.isAlnum

end

def downgraded (template challenge : ZeroCandidateChallenge) : List CheckName :=
  CheckName.sorted.filter fun check =>
    template.checks check = .candidateRequired ∧ challenge.checks check = .notDurable

variable (casing : Casing)

def incorrectlyAbsent (template challenge : ZeroCandidateChallenge) : List CheckName :=
  CheckName.sorted.filter fun check =>
    template.checks check = .candidateRequired ∧ challenge.checks check = .absent

def labels (checks : List CheckName) : String := ", ".intercalate (checks.map (·.name))

def labelled (rationale : String) (missing : List CheckName) : String :=
  sliceTo 4000 (String.ofList (Projection.stripRight rationale.toList) ++ " Reviewed downgraded signals: " ++
    labels missing ++ ".")

def ZeroCandidateChallenge.relabel (challenge template : ZeroCandidateChallenge) : ZeroCandidateChallenge :=
  let checks := downgraded template challenge
  let missing := checks.filter fun check => !mentions casing challenge.rationale check
  if challenge.futureUtility ≠ .sessionOnly then challenge
  else if missing = [] ∨ !substantive casing challenge.rationale checks then challenge
  else { challenge with rationale := labelled challenge.rationale missing }

def normalizeZeroCandidateSignalLabels (decision : AutonomousDecision) (packet : Packet) : AutonomousDecision :=
  if decision.candidates ≠ [] then decision
  else match packet.zeroCandidateChallengeTemplate with
    | none => decision
    | some template =>
      { decision with
        semanticReview :=
          { decision.semanticReview with
            zeroCandidateChallenge :=
              decision.semanticReview.zeroCandidateChallenge.map fun challenge => challenge.relabel casing template } }

def normalizeProviderReviewState (decision : AutonomousDecision) : AutonomousDecision :=
  let review := decision.semanticReview
  if review.unfinished = [] ∨ review.evidenceStatus = .contradicted ∨ review.promotionDecision = .blocked then decision
  else
    { decision with
      semanticReview :=
        { review with lastTurnStatus := .unfinished, evidenceStatus := .partly, promotionDecision := .partly } }

/-! ### The worker's checks -/

def sameDict (first second : List ExchangeRef) : Prop :=
  ∀ ref ∈ first ++ second, refDict first ref.exchangeIndex = refDict second ref.exchangeIndex

instance (first second : List ExchangeRef) : Decidable (sameDict first second) :=
  inferInstanceAs (Decidable (∀ ref ∈ first ++ second, _))

def findingErrors (template challenge : ZeroCandidateChallenge) : List String :=
  let stillRequired := challenge.named .candidateRequired
  let absent := incorrectlyAbsent template challenge
  let checks := downgraded template challenge
  let explained := challenge.futureUtility = .sessionOnly ∧ substantive casing challenge.rationale checks
  let missing := checks.filter fun check => !mentions casing challenge.rationale check
  (if stillRequired = [] then []
    else ["detected durable signals still require a candidate: " ++ labels stillRequired]) ++
  (if absent = [] then [] else ["detected durable signals cannot be marked absent: " ++ labels absent]) ++
  if checks ≠ [] ∧ (missing ≠ [] ∨ ¬ explained) then
    ["downgraded durable signals require a substantive session-only rationale naming each signal: " ++ labels checks]
  else []

def challengeErrors (challenge : ZeroCandidateChallenge) (packet : Packet) (job : SessionDistillJob) : List String :=
  (if challenge.FitsRuntime then [] else ["zero_candidate_challenge schema inconsistent"]) ++
  (if challenge.sourceRevision = job.sourceRevision then []
    else ["zero-candidate challenge source revision does not match job"]) ++
  (if packet.zeroCandidateExchangeRefs ≠ [] ∧
      ¬ sameDict challenge.inspectedExchangeRefs packet.zeroCandidateExchangeRefs then
    ["zero-candidate exchange proof incomplete or does not match the required semantic exchanges"] else []) ++
  (packet.zeroCandidateChallengeTemplate.map fun template => findingErrors casing template challenge).getD []

def zeroCandidateValidationErrors (decision : AutonomousDecision) (packet : Packet) (job : SessionDistillJob) :
    List String :=
  if decision.candidates ≠ [] then []
  else match decision.semanticReview.zeroCandidateChallenge with
    | none => ["zero_candidate_challenge is required"]
    | some challenge => challengeErrors casing challenge packet job

/-- `first or second` on texts that may be missing. -/
def orText (first second : Option String) : Option String := if first.getD "" ≠ "" then first else second

def providerCandidateControlReason (candidate : DistillCandidate) (review : SemanticReview) : Option String :=
  let category := casing.lower (candidate.category.getD "")
  let statement := stripped ((orText candidate.content (orText candidate.pattern candidate.evidence)).getD "")
  let normalizedStatement := collapseSpaces (casing.fold statement)
  let normalizedUnfinished :=
    (review.unfinishedWork.filter hasVisible).map fun item => collapseSpaces (casing.fold item)
  if review.unfinishedWork ≠ [] ∧
      (["handoff", "unfinished", "task", "后续", "待办", "未完成"].any (contains category) ∨
        normalizedStatement ∈ normalizedUnfinished) then
    some "unfinished work belongs to the job-bound handoff"
  else none

/-- What `_candidate_arguments` refuses a candidate for. -/
def candidateArgumentsError (candidate : DistillCandidate) : Option String :=
  let blank := fun text : Option String => text.getD "" = ""
  match candidate.kind with
  | .memory =>
    if blank candidate.category ∨ blank candidate.content then some "memory candidate missing fields" else none
  | .rule =>
    if blank (orText candidate.pattern candidate.content) ∨ blank candidate.trigger then
      some "rule candidate missing fields" else none
  | .relation =>
    if blank candidate.sourceEntity ∨ blank candidate.targetEntity ∨ blank candidate.relationType ∨
        blank candidate.evidence then some "relation candidate missing fields" else none

def candidateWarning (review : SemanticReview) (candidate : DistillCandidate) : Option String :=
  (providerCandidateControlReason casing candidate review).or (candidateArgumentsError candidate)

structure Decided where
  decision : AutonomousDecision
  validated : List DistillCandidate
  warnings : List String

/-- One pass of `_decide_with_candidate_retry` over a response; `none` has it asked again or given up. -/
def decideOnce (response : AutonomousDecision) (packet : Packet) (job : SessionDistillJob) : Option Decided :=
  let decision := normalizeProviderReviewState (normalizeZeroCandidateSignalLabels casing response packet)
  let refused := candidateWarning casing decision.semanticReview
  let warnings := zeroCandidateValidationErrors casing decision packet job ++ decision.candidates.filterMap refused
  let validated := decision.candidates.filter fun candidate => (refused candidate).isNone
  if (decision.candidates ≠ [] ∨ warnings = []) ∧ (decision.candidates = [] ∨ validated ≠ []) then
    some { decision, validated, warnings }
  else none

/-! ### Handing the review to the finalization -/

/-- What the finalization finds: the submitted review with the candidates and the handoffs of the job. -/
structure Submission where
  semanticReview : SemanticReview
  candidateIds : List String
  handoffIds : List String

/-- The rest of `_run_one_core` up to its call of the finalization. `governed` are the candidates created
from the verified points, `saveHandoff` the answer of the tool that saves unfinished work, and the last two
lists what the job has beside them. -/
def submit (decision : AutonomousDecision) (governed : List String) (saveHandoff : Except String String)
    (jobCandidates jobHandoffs : List String) : Except String Submission :=
  let review := decision.semanticReview
  let candidateIds := if governed = [] then jobCandidates else governed
  if decision.candidates ≠ [] ∧ governed = [] then
    .error "All provider candidates failed kind-specific validation"
  -- `_govern_unfinished_handoff`
  else if review.promotionDecision ≠ .partly ∨ review.unfinished = [] then
    .ok ⟨review, candidateIds, jobHandoffs⟩
  else saveHandoff.map fun handoff => ⟨review, candidateIds, handoff :: jobHandoffs⟩

end HarnessMem.Review
