import HarnessMem.Projection.Append
import HarnessMem.Schemas.Knowledge

/-! The records of an autonomous review: what an agent returns, what the worker
expands it to, and what a finalization accepts. The two last have schemas of
their own with bounds of their own.
-/

set_option autoImplicit false

namespace HarnessMem.Review

open Library

/-- The fields of `ZeroCandidateChecks`, and the values of `MemorySignal`. -/
inductive CheckName where
  | userCorrection | explicitDecision | successfulSolution | repeatedFailure | ruleOrPreference
  | reusableWorkflowOrFact | versionOrMigration | unfinishedHandoff
  deriving DecidableEq, Repr

namespace CheckName

def name : CheckName → String
  | userCorrection => "user_correction"
  | explicitDecision => "explicit_decision"
  | successfulSolution => "successful_solution"
  | repeatedFailure => "repeated_failure"
  | ruleOrPreference => "rule_or_preference"
  | reusableWorkflowOrFact => "reusable_workflow_or_fact"
  | versionOrMigration => "version_or_migration"
  | unfinishedHandoff => "unfinished_handoff"

/-- All names in the order of `sorted`. -/
def sorted : List CheckName :=
  [explicitDecision, repeatedFailure, reusableWorkflowOrFact, ruleOrPreference, successfulSolution, unfinishedHandoff,
    userCorrection, versionOrMigration]

example : (sorted.map name).Pairwise (· < ·) := by decide +kernel

end CheckName

inductive Finding where
  | absent | notDurable | candidateRequired
  deriving DecidableEq, Repr

inductive EvidenceFidelity where
  | complete | partly | contradicted
  deriving DecidableEq, Repr

inductive FutureUtility where
  | none | sessionOnly | durable
  deriving DecidableEq, Repr

inductive Conclusion where
  | noDurableCandidate | candidateRequired
  deriving DecidableEq, Repr

inductive LastTurnStatus where
  | answered | unfinished | unknown
  deriving DecidableEq, Repr

inductive EvidenceStatus where
  | answered | partly | contradicted | notApplicable
  deriving DecidableEq, Repr

inductive PromotionDecision where
  | promote | partly | noPromotion | blocked
  deriving DecidableEq, Repr

structure ExchangeRef where
  exchangeIndex : Nat
  contentSha256 : String
  deriving DecidableEq, Repr

/-- `{item.exchange_index: item.content_sha256 for item in refs}`: the last one counts. -/
def refDict (refs : List ExchangeRef) (index : Nat) : Option String :=
  ((refs.filter fun ref => ref.exchangeIndex = index).getLast?).map (·.contentSha256)

/-- The answers of a review without candidates. Both schemas have these fields; `version` has one value. -/
structure ZeroCandidateChallenge where
  sourceRevision : String
  evidenceFidelity : EvidenceFidelity
  futureUtility : FutureUtility
  checks : CheckName → Finding
  inspectedExchangeRefs : List ExchangeRef
  conclusion : Conclusion
  rationale : String

namespace ZeroCandidateChallenge

variable (challenge : ZeroCandidateChallenge)

def named (finding : Finding) : List CheckName := CheckName.sorted.filter fun check => challenge.checks check = finding

def FitsResponse : Prop :=
  (8 ≤ challenge.sourceRevision.length ∧ challenge.sourceRevision.length ≤ 160) ∧
    challenge.inspectedExchangeRefs ≠ [] ∧
    (∀ ref ∈ challenge.inspectedExchangeRefs, 1 ≤ ref.exchangeIndex ∧ ref.contentSha256.length = 64) ∧
    24 ≤ challenge.rationale.length ∧ challenge.rationale.length ≤ 4000

instance : Decidable challenge.FitsResponse :=
  inferInstanceAs (Decidable ((_ ∧ _) ∧ _ ∧ _ ∧ _ ∧ _))

/-- `^[0-9a-f]{64}$`. -/
def HexDigest (text : String) : Prop := text.length = 64 ∧ ∀ c ∈ text.toList, c ∈ "0123456789abcdef".toList

instance (text : String) : Decidable (HexDigest text) := inferInstanceAs (Decidable (_ ∧ _))

/-- The schema of the runtime with its `validate_conclusion`. -/
def FitsRuntime : Prop :=
  1 ≤ challenge.sourceRevision.length ∧
    (∀ ref ∈ challenge.inspectedExchangeRefs, 1 ≤ ref.exchangeIndex ∧ HexDigest ref.contentSha256) ∧
    challenge.inspectedExchangeRefs.length ≤ 8 ∧
    (12 ≤ challenge.rationale.length ∧ challenge.rationale.length ≤ 2000) ∧
    (challenge.named .candidateRequired ≠ [] ∨ challenge.futureUtility = .durable →
      challenge.conclusion = .candidateRequired) ∧
    (challenge.conclusion = .noDurableCandidate → challenge.evidenceFidelity = .complete) ∧
    (challenge.inspectedExchangeRefs.map (·.exchangeIndex)).Nodup

instance : Decidable challenge.FitsRuntime :=
  inferInstanceAs (Decidable (_ ∧ _ ∧ _ ∧ (_ ∧ _) ∧ (_ → _) ∧ (_ → _) ∧ _))

end ZeroCandidateChallenge

/-- The review of a provider response, and the payload the worker submits for finalization. -/
structure SemanticReview where
  sessionSummary : String
  finalUserRequest : String
  finalOutcome : String
  lastTurnStatus : LastTurnStatus
  contradictions : List String
  unfinishedWork : List String
  evidenceStatus : EvidenceStatus
  promotionDecision : PromotionDecision
  zeroCandidateChallenge : Option ZeroCandidateChallenge

namespace SemanticReview

variable (review : SemanticReview)

def FitsResponse : Prop :=
  (12 ≤ review.sessionSummary.length ∧ review.sessionSummary.length ≤ 4000) ∧
    (1 ≤ review.finalUserRequest.length ∧ review.finalUserRequest.length ≤ 4000) ∧
    (1 ≤ review.finalOutcome.length ∧ review.finalOutcome.length ≤ 4000) ∧
    ∀ challenge ∈ review.zeroCandidateChallenge, challenge.FitsResponse

instance : Decidable review.FitsResponse :=
  inferInstanceAs (Decidable ((_ ∧ _) ∧ (_ ∧ _) ∧ (_ ∧ _) ∧ _))

/-- `SessionSemanticReview`, the schema of a finalization. The worker names no retained states. -/
def FitsSession : Prop :=
  (12 ≤ review.sessionSummary.length ∧ review.sessionSummary.length ≤ 2000) ∧
    ∀ challenge ∈ review.zeroCandidateChallenge, challenge.FitsRuntime

instance : Decidable review.FitsSession := inferInstanceAs (Decidable ((_ ∧ _) ∧ _))

def unfinished : List String := (review.unfinishedWork.map stripped).filter fun item => item ≠ ""

end SemanticReview

inductive EvidenceBasis where
  | repository | userStatement | transcript | sourceReport
  deriving DecidableEq, Repr

structure VerificationRef where
  kind : EvidenceBasis
  contentSha256 : String
  exchangeIndex : Option Nat := none
  role : Option Speaker := none
  locator : Option String := none
  deriving DecidableEq

def VerificationRef.Fits (ref : VerificationRef) : Prop :=
  ref.contentSha256.length = 64 ∧ (∀ index ∈ ref.exchangeIndex, 1 ≤ index) ∧
    ∀ locator ∈ ref.locator, locator.length ≤ 4096

instance (ref : VerificationRef) : Decidable ref.Fits := inferInstanceAs (Decidable (_ ∧ _ ∧ _))

/-- A candidate of a provider response. Its confidence, tags and examples are set by the runtime and
decide nothing here. -/
structure DistillCandidate where
  kind : CandidateType
  evidenceBasis : EvidenceBasis
  verificationRefs : List VerificationRef
  category : Option String := none
  content : Option String := none
  pattern : Option String := none
  trigger : Option String := none
  sourceEntity : Option String := none
  targetEntity : Option String := none
  relationType : Option String := none
  evidence : Option String := none
  deriving DecidableEq

def DistillCandidate.Fits (candidate : DistillCandidate) : Prop :=
  (∀ ref ∈ candidate.verificationRefs, ref.Fits) ∧ (∀ text ∈ candidate.category, text.length ≤ 80) ∧
    (∀ text ∈ candidate.pattern, text.length ≤ 2000) ∧ (∀ text ∈ candidate.trigger, text.length ≤ 1000) ∧
    (∀ text ∈ candidate.sourceEntity, text.length ≤ 200) ∧ (∀ text ∈ candidate.targetEntity, text.length ≤ 200) ∧
    (∀ text ∈ candidate.relationType, text.length ≤ 100) ∧ ∀ text ∈ candidate.evidence, text.length ≤ 2000

instance (candidate : DistillCandidate) : Decidable candidate.Fits :=
  inferInstanceAs (Decidable (_ ∧ _ ∧ _ ∧ _ ∧ _ ∧ _ ∧ _ ∧ _))

structure AutonomousDecision where
  semanticReview : SemanticReview
  candidates : List DistillCandidate

/-- The schema of the response with `require_zero_candidate_review`. -/
def AutonomousDecision.Fits (decision : AutonomousDecision) : Prop :=
  decision.semanticReview.FitsResponse ∧ (∀ candidate ∈ decision.candidates, candidate.Fits) ∧
    (decision.candidates = [] ↔ decision.semanticReview.zeroCandidateChallenge.isSome)

instance (decision : AutonomousDecision) : Decidable decision.Fits := inferInstanceAs (Decidable (_ ∧ _ ∧ _))

/-! ### What an agent returns -/

structure AgentExtractionReview where
  summary : String
  finalRequest : String
  actualResult : String
  contradictions : List String := []
  unfinished : List String := []
  noCandidateReason : Option String := none
  notDurableSignals : List CheckName := []
  summary_fits : 12 ≤ summary.length ∧ summary.length ≤ 4000
  request_fits : 1 ≤ finalRequest.length ∧ finalRequest.length ≤ 4000
  result_fits : 1 ≤ actualResult.length ∧ actualResult.length ≤ 4000
  reason_fits : ∀ reason ∈ noCandidateReason, 24 ≤ reason.length ∧ reason.length ≤ 4000

/-- `bool(str(value or "").strip())`. -/
def visible (value : Option String) : Bool := stripped (value.getD "") ≠ ""

structure AgentExtractionPoint where
  kind : CandidateType
  statement : String
  condition : Option String := none
  sourceEntity : Option String := none
  targetEntity : Option String := none
  relationType : Option String := none
  evidenceBasis : EvidenceBasis
  reportRole : Option Speaker := none
  exchangeIndexes : List Int := []
  repositoryLocator : Option String := none
  repositorySha256 : Option String := none
  statement_fits : 1 ≤ statement.length
  condition_fits : ∀ text ∈ condition, text.length ≤ 1000
  source_fits : ∀ text ∈ sourceEntity, text.length ≤ 200
  target_fits : ∀ text ∈ targetEntity, text.length ≤ 200
  relation_fits : ∀ text ∈ relationType, text.length ≤ 100
  locator_fits : ∀ text ∈ repositoryLocator, text.length ≤ 4096
  digest_fits : ∀ text ∈ repositorySha256, text.length = 64
  /-- A source report has a speaker and is a memory; nothing else has one. -/
  reported : if evidenceBasis = .sourceReport then reportRole.isSome ∧ kind = .memory else reportRole = none
  ruled : kind = .rule → visible condition
  related : kind = .relation → visible sourceEntity ∧ visible targetEntity ∧ visible relationType
  /-- Session evidence has exchanges, repository evidence has a locator and a digest. -/
  placed : if evidenceBasis = .repository then repositoryLocator.getD "" ≠ "" ∧ repositorySha256.getD "" ≠ ""
    else exchangeIndexes ≠ [] ∧ ∀ index ∈ exchangeIndexes, 1 ≤ index

structure AgentExtractionDecision where
  review : AgentExtractionReview
  points : List AgentExtractionPoint := []
  /-- `require_no_candidate_reason`. -/
  explained : points = [] ↔ review.noCandidateReason.isSome
  kept : points ≠ [] → review.notDurableSignals = []

end HarnessMem.Review
