import HarnessMem.Schemas.Values

/-! Records of current knowledge. Values that a schema would refuse cannot be built. -/

set_option autoImplicit false

namespace HarnessMem

/-- A text that `_single_line` returns: stripped, not empty and on one line. -/
structure SingleLine where
  text : String
  stripped : Library.stripped text = text
  filled : text ≠ ""
  unbroken : '\n' ∉ text.toList ∧ '\r' ∉ text.toList
  deriving DecidableEq

namespace SingleLine

/-- A text of the shape that `_single_line` returns. -/
def of (text : String)
    (shape : Library.stripped text = text ∧ text ≠ "" ∧ '\n' ∉ text.toList ∧ '\r' ∉ text.toList) : SingleLine :=
  ⟨text, shape.1, shape.2.1, shape.2.2⟩

theorem p_line : Library.stripped "p" = "p" ∧ "p" ≠ "" ∧ '\n' ∉ "p".toList ∧ '\r' ∉ "p".toList := by
  decide

theorem core_line :
    Library.stripped "core" = "core" ∧ "core" ≠ "" ∧ '\n' ∉ "core".toList ∧ '\r' ∉ "core".toList := by
  decide

theorem logs_line :
    Library.stripped "Logs" = "Logs" ∧ "Logs" ≠ "" ∧ '\n' ∉ "Logs".toList ∧ '\r' ∉ "Logs".toList := by
  decide

theorem core_placed : [SingleLine.of "core" core_line] ≠ [] := List.cons_ne_nil _ _

end SingleLine

inductive Speaker where
  | user | assistant
  deriving DecidableEq, Repr

def Speaker.value : Speaker → String
  | .user => "user"
  | .assistant => "assistant"

structure SourceReport where
  speaker : Speaker
  period : SingleLine
  sessionId : SingleLine
  sourceId : SingleLine
  sourceRevision : SingleLine
  exchangeIndexes : List Nat
  text : SingleLine
  cited : exchangeIndexes ≠ [] ∧ (∀ index ∈ exchangeIndexes, 1 ≤ index) ∧ exchangeIndexes.Pairwise (· < ·)
  deriving DecidableEq

def SourceReport.renderStatement (report : SourceReport) : String :=
  "Source-scoped report — " ++ report.speaker.value ++ ", source-session timestamp: " ++ report.period.text ++
    ", in that session's cited exchanges: " ++ report.text.text ++
    " [Reports that speaker's account only; not independently established current fact or user approval.]"

def SourceReport.renderTitle (report : SourceReport) : String :=
  "Source report — " ++ report.speaker.value ++ " account (source-session timestamp: " ++ report.period.text ++ ")"

def SourceReport.sameAccountSource (report other : SourceReport) : Bool :=
  report.speaker = other.speaker && report.period = other.period && report.sessionId = other.sessionId &&
    report.sourceId = other.sourceId

structure KnowledgeEntry where
  id : String
  projectName : SingleLine
  modulePath : List SingleLine
  title : SingleLine
  statement : SingleLine
  sourceReport : Option SourceReport := none
  verifiedAt : Option Time := none
  createdAt : Time
  updatedAt : Time
  placed : modulePath ≠ []
  /-- A report keeps its attribution. -/
  attributed : ∀ report ∈ sourceReport, statement.text = report.renderStatement ∧ title.text = report.renderTitle
  deriving DecidableEq

theorem KnowledgeEntry.not_reported (title statement : SingleLine) :
    ∀ report ∈ (none : Option SourceReport), statement.text = report.renderStatement ∧ title.text = report.renderTitle :=
  fun _ missing => absurd missing (Option.not_mem_none _)

/-- `_single_line`. -/
def SingleLine.ofText? (value : String) : Option SingleLine :=
  let normalized := Library.stripped value
  if shape : normalized ≠ "" ∧ '\n' ∉ normalized.toList ∧ '\r' ∉ normalized.toList then
    some ⟨normalized, Library.stripped_stripped value, shape.1, shape.2⟩
  else none

theorem SingleLine.eq_of_text {first second : SingleLine} (same : first.text = second.text) : first = second := by
  cases first
  cases second
  simpa using same

structure ContentDigest where
  text : String
  valid : text.toList.length = 64 ∧ ∀ c ∈ text.toList, c ∈ "0123456789abcdef".toList
  deriving DecidableEq

/-- `normalize_digest`. -/
def ContentDigest.ofText? (value : String) : Option ContentDigest :=
  let normalized := (Library.stripped value).toLower
  if valid : normalized.toList.length = 64 ∧ ∀ c ∈ normalized.toList, c ∈ "0123456789abcdef".toList then
    some ⟨normalized, valid⟩
  else none

structure KnowledgeSource where
  id : String
  knowledgeId : SingleLine
  projectName : SingleLine
  sourceKind : SingleLine
  locator : SingleLine
  contentSha256 : Option ContentDigest
  verifiedAt : Time
  deriving DecidableEq

structure ProjectKnowledgeSourceRef where
  label : SingleLine
  target : SingleLine
  kind : Option SingleLine := none
  digest : Option SingleLine := none
  deriving DecidableEq

inductive AssimilationDisposition where
  | add | refine | confirm | replace | noWrite | handoff | defer | conflict | reject
  deriving DecidableEq, Repr

instance : LawfulBEq (Option AssimilationDisposition) := inferInstance

def AssimilationDisposition.value : AssimilationDisposition → String
  | .add => "add"
  | .refine => "refine"
  | .confirm => "confirm"
  | .replace => "replace"
  | .noWrite => "no_write"
  | .handoff => "handoff"
  | .defer => "defer"
  | .conflict => "conflict"
  | .reject => "reject"

inductive CandidateType where
  | memory | rule | relation
  deriving DecidableEq, Repr

inductive CandidateStatus where
  | pending | deferred | conflict | rejected | assimilated
  deriving DecidableEq, Repr

/-- Proposed knowledge of a job, never a current fact of a project. -/
structure KnowledgeCandidate where
  id : String
  projectName : String
  candidateType : CandidateType
  statement : String
  sourceReport : Option SourceReport := none
  status : CandidateStatus := .pending
  assimilationDisposition : Option AssimilationDisposition := none
  assimilationReason : Option String := none
  assimilationTargetIds : List String := []
  canonicalTitle : Option String := none
  topicPath : List String := []
  deriving DecidableEq

structure AssimilationDecision where
  id : String
  projectName : String
  candidateId : String
  disposition : AssimilationDisposition
  canonicalTruthIds : List String := []
  predecessorTruthIds : List String := []
  predecessorEntries : List KnowledgeEntry := []
  reason : String
  deriving DecidableEq

end HarnessMem
