import HarnessMem.JobWorkspace.Models
import HarnessMem.Staging.Points

/-! Admission of one proposal: what it is given is checked, the evidence gate is asked,
the candidate is saved, and then its evidence. What the caller assigned is not checked
by the schema of the candidate before it is written.
-/

set_option autoImplicit false

namespace HarnessMem.JobWorkspace

open Library
open Staging (Raised iterate isText shownTexts)

/-- What the calls depend on: the schema library, the interpreter, the digests, and the order of the entries of
a directory. -/
structure Machine where
  schemas : Schemas
  python : Staging.Host
  hashes : Hashes
  candidateFiles : Scan (Wrapper (Candidate Proposal))
  evidenceFiles : Scan (Wrapper (Evidence EvidenceFields))
  decisionFiles : Scan (Wrapper AssimilationDecision)

def Machine.host (machine : Machine) : Host Proposal EvidenceFields where
  candidate := candidateSchema machine.schemas machine.python.repr
  evidence := evidenceSchema machine.schemas machine.hashes
  hashes := machine.hashes
  candidateFiles := machine.candidateFiles
  evidenceFiles := machine.evidenceFiles
  decisionFiles := machine.decisionFiles

inductive RefArgument where
  | ref (ref : CheckedRef)
  | value (value : PyValue)

structure Readings where
  candidateCreated : DateTime
  candidateUpdated : DateTime
  evidenceCreated : DateTime
  candidateFile : Time
  ownerFile : Time
  evidenceFile : Time

structure AdmissionSubject where
  id : String
  projectName : String
  distillJobId : PyValue
  evidenceBasis : PyValue
  verificationOutcome : PyValue
  verificationRefs : List CheckedRef
  verificationReasonCodes : List String
  statement : String
  sourceReport : Option SourceReport

structure EvidenceValidation where
  evidenceBasis : PyValue
  verificationOutcome : PyValue
  reasonCodes : List String
  verifiedAt : Option DateTime
  sourceReport : Option SourceReport := none

/-- The arguments of `admit_separated_candidate`, and what the profile and the evidence gate answer. -/
structure Admission where
  candidateId : PyValue
  projectName : PyValue
  candidateType : PyValue
  statement : PyValue
  distillJobId : PyValue
  evidenceBasis : PyValue
  verificationOutcome : PyValue
  verificationRefs : Except Raised (List RefArgument) := .ok []
  verificationReasonCodes : PyValue := .list []
  assimilationDisposition : PyValue := .none
  assimilationReason : PyValue := .none
  assimilationTargetIds : PyValue := .list []
  assimilationTargets : PyValue := .list []
  canonicalTitle : PyValue := .none
  topicPath : PyValue := .list []
  readings : Readings
  validateCandidateEvidence : AdmissionSubject → Except Raised EvidenceValidation

def refuse {α : Type} : Except Raised α → Except JobError α
  | .ok value => .ok value
  | .error (.refused message) | .error (.escaped message) => .error (.valueError message)

variable (machine : Machine)

/-- `EvidenceRef.model_validate(dict(value))`. -/
def validatedRef (value : PyValue) : Except JobError CheckedRef :=
  match value with
  | .dict _ => do
    let ref ← refuse (Staging.EvidenceRef.ofDict machine.python machine.hashes value)
    match CheckedRef.make? machine.hashes ref with
    | some checked => return checked
    | none => throw (.validationError "EvidenceRef")
  | _ => .error (.valueError "candidate verification ref is invalid")

def evidenceRefs (values : List RefArgument) : Except JobError (List CheckedRef) :=
  values.mapM fun argument =>
    match argument with
    | .ref ref => .ok ref
    | .value value => validatedRef machine value

def citesSame (first second : Staging.EvidenceRef) : Bool :=
  decide (first.kind = second.kind) && decide (first.role = second.role) &&
    decide (first.exchangeIndex = second.exchangeIndex) && decide (first.chunkIndex = second.chunkIndex) &&
    decide (machine.python.lower (first.contentSha256.getD "") = machine.python.lower (second.contentSha256.getD "")) &&
    decide (first.locator = second.locator) &&
    decide (machine.python.lower (first.locatorSha256.getD "") = machine.python.lower (second.locatorSha256.getD ""))

def citesWithin (refs others : List CheckedRef) : Bool :=
  refs.all fun ref => others.any fun other => citesSame machine ref.ref other.ref

/-- `first == second`, of what a record has and what a caller gave. -/
def sameOptional (first : Option String) (second : PyValue) : Bool :=
  match first with
  | none => Staging.isNone second
  | some text => isText second text

/-- A replay of a source report has to keep its authority, its job and what it cites. -/
def checkReplay (candidate : Candidate Proposal) (previous : List (Evidence EvidenceFields)) (call : Admission)
    (refs : List CheckedRef) : Except JobError Unit :=
  let reportAuthority := candidate.fields.sourceReport.isSome ||
    previous.any fun item => item.fields.evidenceBasis = .sourceReport
  if reportAuthority || isText call.evidenceBasis "source_report" then
    match previous with
    | [item] => do
      ensure (isText call.evidenceBasis (nameIn Staging.bases item.fields.evidenceBasis) = true ∧
          sameOptional item.distillJobId call.distillJobId = true)
        "source-report replay cannot change its bound authority or source job"
      ensure (candidate.fields.sourceReport.isSome = true →
          citesWithin machine refs item.fields.verificationRefs = true ∧ citesWithin machine item.fields.verificationRefs refs = true)
        "source-report replay cannot change its speaker or cited scope"
    | _ => .error (.valueError "source-report replay cannot change its bound authority or source job")
  else .ok ()

/-- `KnowledgeCandidate(...)` of a new proposal. -/
def newCandidate (candidateId : String) (projectName : PyValue) (candidateType : CandidateType) (statement : String)
    (readings : Readings) : Except JobError (Candidate Proposal) :=
  match projectName with
  | .str project =>
    if filled : statement ≠ "" then
      .ok { id := candidateId, projectName := project
            fields := { candidateType, statement, filled
                        createdAt := readings.candidateCreated, updatedAt := readings.candidateCreated } }
    else .error (.validationError "KnowledgeCandidate")
  | _ => .error (.validationError "KnowledgeCandidate")

/-- The candidate a proposal is for, and whether it was there: one that waits with the same text, or a new one. -/
def proposalBase (workspace : Workspace Proposal EvidenceFields) (call : Admission) (candidateId : String)
    (candidateType : CandidateType) (statement : String) : Except JobError (Candidate Proposal × Bool) := do
  match ← workspace.getCandidate machine.host candidateId with
  | none => return (← newCandidate candidateId call.projectName candidateType statement call.readings, false)
  | some candidate =>
    ensure (isText call.projectName candidate.projectName = true ∧ candidate.fields.candidateType = candidateType ∧
      candidate.fields.statement = statement) "separated candidate id already belongs to another proposal"
    ensure (candidate.status = .pending) "separated candidate already has a processing result"
    return (candidate, true)

def allowReplay (workspace : Workspace Proposal EvidenceFields) (base : Candidate Proposal × Bool) (call : Admission)
    (refs : List CheckedRef) : Except JobError Unit :=
  match base with
  | (candidate, true) => do
    let previous ← workspace.listEvidence machine.host candidate.id
    checkReplay machine candidate previous call refs
  | (_, false) => .ok ()

def targetDict (target : Staging.KnowledgeTarget) : PyDict :=
  (target.title.toList.map fun title => ("title", .str title)) ++
    (target.statement.toList.map fun statement => ("statement", .str statement)) ++
    (target.modulePath.toList.map fun parts => ("module", .list (parts.map .str))) ++
    (target.projectName.toList.map fun project => ("project_name", .str project))

def assigned (call : Admission) (candidate : Candidate Proposal) : Except JobError (Candidate Proposal) := do
  let targetIds ← refuse (iterate call.assimilationTargetIds)
  let targetValues ← refuse (iterate call.assimilationTargets)
  let targets ← refuse (Staging.normalizeKnowledgeTargets targetValues)
  let topic ← refuse (iterate call.topicPath)
  return { candidate with
    fields := { candidate.fields with
      assimilationDisposition := call.assimilationDisposition
      assimilationReason := call.assimilationReason
      assimilationTargetIds := shownTexts machine.python targetIds
      assimilationTargets := targets.map fun target => .freeze (targetDict target)
      canonicalTitle := call.canonicalTitle
      topicPath := shownTexts machine.python topic
      updatedAt := call.readings.candidateUpdated } }

structure Admitted where
  candidate : Candidate Proposal
  replay : Bool
  refs : List CheckedRef
  validation : EvidenceValidation

/-- `str(candidate_id)` names a file only if it is a text. -/
def textOf (value : PyValue) : Except JobError String :=
  match value with
  | .str text => .ok text
  | _ => .error (.valueError "object has no attribute 'encode'")

/-- `str(candidate_type).strip()`, one of the three kinds. -/
def kindOf (value : PyValue) : Except JobError CandidateType :=
  match candidateTypes.find? fun known => known.1 = stripped (machine.python.text value) with
  | some known => .ok known.2
  | none => .error (.valueError "separated candidate kind must be memory, rule, or relation")

/-- `admit_separated_candidate` up to its first write. -/
def admission (call : Admission) (workspace : Workspace Proposal EvidenceFields) : Except JobError Admitted := do
  let kind ← kindOf machine call.candidateType
  let statement := collapseSpaces (machine.python.text call.statement)
  ensure (statement ≠ "") "separated candidate statement is empty"
  let candidateId ← textOf call.candidateId
  let base ← proposalBase machine workspace call candidateId kind statement
  let refArguments ← refuse call.verificationRefs
  let refs ← evidenceRefs machine refArguments
  allowReplay machine workspace base call refs
  let candidate ← assigned machine call base.1
  let codes ← refuse (iterate call.verificationReasonCodes)
  let validation ← refuse (call.validateCandidateEvidence
    { id := candidate.id
      projectName := candidate.projectName
      distillJobId := call.distillJobId
      evidenceBasis := call.evidenceBasis
      verificationOutcome := call.verificationOutcome
      verificationRefs := refs
      verificationReasonCodes := codes.map machine.python.text
      statement := candidate.fields.statement
      sourceReport := candidate.fields.sourceReport })
  let sourceReport := validation.sourceReport <|> candidate.fields.sourceReport
  return { candidate := { candidate with fields := { candidate.fields with sourceReport } }
           replay := base.2, refs, validation }

/-- A field of type `str | None`. -/
def optionalTextOf (value : PyValue) : Except JobError (Option String) :=
  match value with
  | .none => .ok none
  | .str text => .ok (some text)
  | _ => .error (.validationError "KnowledgeEvidence")

def literalOf {α : Type} (values : List (String × α)) (value : PyValue) : Except JobError α :=
  match Staging.literal values value with
  | .ok known => .ok known
  | .error _ => .error (.validationError "KnowledgeEvidence")

/-- `value or default`. -/
def orText (value : PyValue) (text : String) : PyValue := if value.truthy then value else .str text

def evidenceId (candidateId : String) : String := machine.hashes.uuid5 ("harness-mem:knowledge-evidence:" ++ candidateId)

/-- `KnowledgeEvidence(...)` of an admitted proposal. -/
def Admitted.evidence (admitted : Admitted) (call : Admission) : Except JobError (Evidence EvidenceFields) := do
  let distillJobId ← optionalTextOf call.distillJobId
  let evidenceBasis ← literalOf Staging.bases (orText admitted.validation.evidenceBasis "transcript")
  let verificationOutcome ← literalOf Staging.outcomes (orText admitted.validation.verificationOutcome "unverified")
  return { id := evidenceId machine admitted.candidate.id
           projectName := admitted.candidate.projectName
           candidateId := admitted.candidate.id
           distillJobId
           fields := { evidenceBasis, verificationOutcome
                       verificationRefs := admitted.refs
                       verificationReasonCodes := admitted.validation.reasonCodes
                       verifiedAt := admitted.validation.verifiedAt
                       createdAt := call.readings.evidenceCreated } }

def Admitted.save (admitted : Admitted) (call : Admission) :
    JobWorkspace.Call Proposal EvidenceFields (Candidate Proposal × Bool) := do
  let _ ← saveCandidate machine.host admitted.candidate none call.readings.candidateFile
  let evidence ← Attempt.ask fun _ => admitted.evidence machine call
  let _ ← saveEvidence machine.host evidence call.readings.ownerFile call.readings.evidenceFile
  return (admitted.candidate, admitted.replay)

def admitSeparatedCandidate (call : Admission) :
    JobWorkspace.Call Proposal EvidenceFields (Candidate Proposal × Bool) := do
  let admitted ← Attempt.ask (admission machine call)
  admitted.save machine call

end HarnessMem.JobWorkspace
