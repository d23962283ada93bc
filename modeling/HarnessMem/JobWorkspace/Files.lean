import HarnessMem.Library.Execution
import HarnessMem.Library.Scripts
import HarnessMem.Library.Table
import HarnessMem.Library.Text
import HarnessMem.Schemas.Knowledge
import Mathlib.Data.List.Sort
import Mathlib.Data.String.Basic

/-! The workspace of unfinished knowledge work: candidates, their evidence and the
decisions still open, one file each. The calls are written as the file-system steps they
take, and any of them may be cut off between two steps. Directories, which are made and
removed as files come and go, and files left half written under another name hold no record.
-/

set_option autoImplicit false

namespace HarnessMem.JobWorkspace

open Library

inductive JobError where
  | valueError (message : String)
  | validationError (model : String)
  /-- The record has no JSON text. -/
  | encodingError
  deriving DecidableEq, Repr

/-- A proposed statement with what the workspace looks at. The other fields are `fields`. -/
structure Candidate (β : Type) where
  id : String
  projectName : String
  status : CandidateStatus := .pending
  fields : β

structure Evidence (γ : Type) where
  id : String
  projectName : String
  candidateId : String
  distillJobId : Option String := none
  fields : γ

/-- How a model is written and read: whether its `to_dict` has a JSON text, and what `from_dict` makes of it. -/
structure Schema (α : Type) where
  encodes : α → Bool
  reread : α → Except JobError α
  /-- A record is refused or read as it was written. -/
  faithful : ∀ {value read : α}, reread value = .ok read → read = value

structure Wrapper (α : Type) where
  workspaceId : String
  updatedAt : Time
  data : α

/-- `_read_wrapper` of a file that is there. -/
def readWrapper {α : Type} (wrapper : Wrapper α) : Except JobError (Wrapper α) :=
  if hasVisible wrapper.workspaceId then .ok wrapper else .error (.valueError "invalid knowledge job record")

structure Workspace (β γ : Type) where
  candidates : Table fun file : Wrapper (Candidate β) => file.data.id
  evidence : Table fun file : Wrapper (Evidence γ) => (file.data.candidateId, file.data.id)
  decisions : Table fun file : Wrapper AssimilationDecision => file.data.id

def Workspace.empty {β γ : Type} : Workspace β γ := ⟨.empty, .empty, .empty⟩

/-- What the calls depend on: the models, the digests that name files, and the order of the entries of a
directory. -/
structure Host (β γ : Type) where
  candidate : Schema (Candidate β)
  evidence : Schema (Evidence γ)
  hashes : Hashes
  candidateFiles : Scan (Wrapper (Candidate β))
  evidenceFiles : Scan (Wrapper (Evidence γ))
  decisionFiles : Scan (Wrapper AssimilationDecision)

variable {β γ : Type} (host : Host β γ) (workspace : Workspace β γ)

/-! ### Reading -/

namespace Workspace

/-- `_read_wrapper(self._candidate_path(candidate_id))`. -/
def candidateWrapper (candidateId : String) : Except JobError (Option (Wrapper (Candidate β))) :=
  match workspace.candidates.get? candidateId with
  | none => .ok none
  | some file => (readWrapper file).map some

def getCandidate (candidateId : String) : Except JobError (Option (Candidate β)) := do
  match ← workspace.candidateWrapper candidateId with
  | none => return none
  | some file => return some (← host.candidate.reread file.data)

def byName {α : Type} (hashes : Hashes) (id : α → String) (files : List (Wrapper α)) : List (Wrapper α) :=
  files.insertionSort fun first second => hashes.sha256Text (id first.data) ≤ hashes.sha256Text (id second.data)

def listModels {α : Type} (schema : Schema α) (files : List (Wrapper α)) : Except JobError (List α) :=
  files.mapM fun file => do schema.reread (← readWrapper file).data

def listCandidates (projectName : String) : Except JobError (List (Candidate β)) := do
  let candidates ← listModels host.candidate (byName host.hashes (·.id) workspace.candidates.rows)
  return candidates.filter fun candidate => candidate.projectName = projectName

def listEvidence (candidateId : String) : Except JobError (List (Evidence γ)) :=
  listModels host.evidence (byName host.hashes (·.id)
    (workspace.evidence.rows.filter fun file => file.data.candidateId = candidateId))

def workspaceIdForCandidate (candidateId : String) : Except JobError (Option String) := do
  return (← workspace.candidateWrapper candidateId).map (·.workspaceId)

def firstJob (items : List (Evidence γ)) : Option String :=
  items.findSome? fun item => item.distillJobId.filter fun job => job ≠ ""

def workspaceFromCandidateEvidence (candidateId : String) : Except JobError (Option String) := do
  return firstJob (← workspace.listEvidence host candidateId)

end Workspace

def adhoc (candidateId : String) : String := "adhoc:" ++ candidateId

/-- `first or second`, for texts. -/
def orElse (text : String) (other : String) : String := if text = "" then other else text

/-! ### Steps on files -/

namespace Workspace

/-- `_write_wrapper`: a file is replaced whole. -/
def putCandidate (file : Wrapper (Candidate β)) : Workspace β γ :=
  { workspace with candidates := workspace.candidates.upsert file }

def putEvidence (file : Wrapper (Evidence γ)) : Workspace β γ :=
  { workspace with evidence := workspace.evidence.upsert file }

def putDecision (file : Wrapper AssimilationDecision) : Workspace β γ :=
  { workspace with decisions := workspace.decisions.upsert file }

def dropCandidate (candidateId : String) : Workspace β γ :=
  { workspace with candidates := workspace.candidates.filter fun file => file.data.id ≠ candidateId }

def dropEvidence (key : String × String) : Workspace β γ :=
  { workspace with evidence := workspace.evidence.filter fun file => (file.data.candidateId, file.data.id) ≠ key }

def dropDecision (decisionId : String) : Workspace β γ :=
  { workspace with decisions := workspace.decisions.filter fun file => file.data.id ≠ decisionId }

end Workspace

/-! ### Saving -/

abbrev Call (β γ α : Type) := Attempt (Workspace β γ) JobError α

def scopeFor (candidateId : String) (workspaceId : Option String) : Except JobError String :=
  let given := stripped (workspaceId.getD "")
  if given ≠ "" then .ok given
  else do return ((← workspace.workspaceFromCandidateEvidence host candidateId).getD (adhoc candidateId))

/-- `if not condition: raise ValueError(message)`. -/
def ensure (condition : Prop) [Decidable condition] (message : String) : Except JobError Unit :=
  if condition then .ok () else .error (.valueError message)

/-- `json.dump` of a record. -/
def encode {α : Type} (schema : Schema α) (value : α) : Except JobError Unit :=
  if schema.encodes value then .ok () else .error .encodingError

/-- What `save_candidate` checks before it writes, and the scope it writes. -/
def checkedScope (candidate : Candidate β) (workspaceId : Option String) : Except JobError String := do
  let existing ← workspace.getCandidate host candidate.id
  ensure (∀ previous ∈ existing, previous.projectName = candidate.projectName) "knowledge candidate id crosses projects"
  let scope ← scopeFor host workspace candidate.id workspaceId
  encode host.candidate candidate
  return scope

def saveCandidate (candidate : Candidate β) (workspaceId : Option String) (now : Time) : Call β γ String := do
  let scope ← Attempt.ask fun workspace => checkedScope host workspace candidate workspaceId
  Attempt.write fun workspace => workspace.putCandidate ⟨scope, now, candidate⟩
  return candidate.id

def ownerOf (candidateId projectName missing foreign : String) : Except JobError (Candidate β) := do
  match ← workspace.getCandidate host candidateId with
  | none => throw (.valueError missing)
  | some candidate =>
    ensure (candidate.projectName = projectName) foreign
    return candidate

def evidenceScope (evidence : Evidence γ) : Except JobError (Candidate β × String) := do
  let candidate ← ownerOf host workspace evidence.candidateId evidence.projectName
    "knowledge evidence requires an existing candidate" "knowledge evidence must share the candidate project"
  let known ← workspace.workspaceIdForCandidate evidence.candidateId
  return (candidate, orElse (stripped (evidence.distillJobId.getD "")) (orElse (known.getD "") (adhoc evidence.candidateId)))

def saveEvidence (evidence : Evidence γ) (now later : Time) : Call β γ String := do
  let owner ← Attempt.ask fun workspace => evidenceScope host workspace evidence
  let _ ← saveCandidate host owner.1 (some owner.2) now
  Attempt.ask fun _ => encode host.evidence evidence
  Attempt.write fun workspace => workspace.putEvidence ⟨owner.2, later, evidence⟩
  return evidence.id

def decisionScope (decision : AssimilationDecision) : Except JobError (Option String) := do
  ensure (decision.disposition = .defer ∨ decision.disposition = .conflict)
    "only unresolved decisions belong in a job workspace"
  let candidate ← ownerOf host workspace decision.candidateId decision.projectName
    "assimilation decision requires an existing candidate" "assimilation decision must share the candidate project"
  let known ← workspace.workspaceIdForCandidate candidate.id
  match workspace.decisions.get? decision.id with
  | none => return some (orElse (known.getD "") (adhoc candidate.id))
  | some file =>
    let existing ← readWrapper file
    -- the payloads without the time of the decision
    ensure (existing.data = decision) "assimilation decision id already has different data"
    return none

def saveUnresolvedDecision (decision : AssimilationDecision) (now : Time) : Call β γ String := do
  match ← Attempt.ask fun workspace => decisionScope host workspace decision with
  | none => return decision.id
  | some scope =>
    Attempt.write fun workspace => workspace.putDecision ⟨scope, now, decision⟩
    return decision.id

/-! ### Cleaning up -/

/-- `candidate_path.unlink()`, if there is such a file. -/
def unlinkCandidate (candidateId : String) : Call β γ Unit := do
  match ← Attempt.ask fun workspace => .ok (workspace.candidates.get? candidateId) with
  | none => return ()
  | some _ => Attempt.write fun workspace => workspace.dropCandidate candidateId

def unlinkEvidence (file : Wrapper (Evidence γ)) : Call β γ Unit :=
  Attempt.write fun workspace => workspace.dropEvidence (file.data.candidateId, file.data.id)

/-- `shutil.rmtree(evidence_dir)`. -/
def removeEvidence (candidateId : String) : Call β γ Unit := do
  let files ← Attempt.ask fun workspace =>
    .ok (host.evidenceFiles.order (workspace.evidence.rows.filter fun file => file.data.candidateId = candidateId))
  Attempt.each files unlinkEvidence

def removeDecision (candidateId : String) (file : Wrapper AssimilationDecision) : Call β γ Unit := do
  let wrapper ← Attempt.ask fun _ => readWrapper file
  if wrapper.data.candidateId = candidateId then
    Attempt.write fun workspace => workspace.dropDecision wrapper.data.id
  else return ()

def cleanupCandidate (candidateId : String) : Call β γ Unit := do
  unlinkCandidate candidateId
  removeEvidence host candidateId
  let files ← Attempt.ask fun workspace => .ok (host.decisionFiles.order workspace.decisions.rows)
  Attempt.each files (removeDecision candidateId)

def resolvedCandidates (workspaceId : String) (files : List (Wrapper (Candidate β))) : Except JobError (List String) :=
  match files with
  | [] => .ok []
  | file :: rest => do
    let wrapper ← readWrapper file
    if wrapper.workspaceId ≠ workspaceId then resolvedCandidates workspaceId rest
    else
      let candidate ← host.candidate.reread wrapper.data
      let others ← resolvedCandidates workspaceId rest
      return if candidate.status = .assimilated ∨ candidate.status = .rejected then candidate.id :: others else others

def cleanupWorkspace (workspaceId : String) : Call β γ Nat := do
  let candidateIds ← Attempt.ask fun workspace =>
    resolvedCandidates host workspaceId (host.candidateFiles.order workspace.candidates.rows)
  Attempt.each candidateIds (cleanupCandidate host)
  return candidateIds.length

/-- `(current - updated).total_seconds() > ttl_seconds`. For spans below 2 ^ 34 seconds the rounding of
the quotient does not show. -/
def isExpired (ttlSeconds : Int) (now : Time) (file : Wrapper (Candidate β)) : Bool :=
  ttlSeconds * 1000000 < (now : Int) - (file.updatedAt : Int)

def expiredCandidates (ttlSeconds : Int) (now : Time) (files : List (Wrapper (Candidate β))) :
    Except JobError (List String) :=
  if ttlSeconds < 0 then .error (.valueError "ttl_seconds must be non-negative")
  else do
    let wrappers ← files.mapM readWrapper
    return (wrappers.filter (isExpired ttlSeconds now)).map (·.data.id)

def pruneExpired (ttlSeconds : Int) (now : Time) : Call β γ Nat := do
  let expired ← Attempt.ask fun workspace =>
    expiredCandidates ttlSeconds now (host.candidateFiles.order workspace.candidates.rows)
  Attempt.each expired (cleanupCandidate host)
  return expired.length

end HarnessMem.JobWorkspace
