import HarnessMem.Library.Python
import HarnessMem.Library.Table
import HarnessMem.Review.Schemas
import HarnessMem.Schemas.SessionDistill

/-! The workspace of unfinished jobs: one file for each candidate and one for each
piece of its evidence. A candidate is written as it is and checked when it is read.
-/

set_option autoImplicit false

namespace HarnessMem.Staging

open Library
open Review (EvidenceBasis)

/-- The exceptions of a call: those the finalization answers with a refusal (`ValueError`, `TypeError` and
`ValidationError`), and the others. -/
inductive Raised where
  | refused (message : String)
  | escaped (message : String)
  deriving DecidableEq, Repr

inductive VerificationOutcome where
  | verified | unverified | contradicted | notApplicable
  deriving DecidableEq, Repr

inductive EvidenceRole where
  | user | assistant | tool
  deriving DecidableEq, Repr

structure EvidenceRef where
  kind : EvidenceBasis
  locator : Option String := none
  locatorSha256 : Option String := none
  contentSha256 : Option String := none
  exchangeIndex : Option Nat := none
  chunkIndex : Option Nat := none
  role : Option EvidenceRole := none
  deriving DecidableEq, Repr

/-- The old text that a candidate changes, as a caller describes it. -/
structure KnowledgeTarget where
  title : Option String := none
  statement : Option String := none
  modulePath : Option (List String) := none
  projectName : Option String := none
  deriving DecidableEq, Repr

/-- The values of `AssimilationDisposition`. -/
def dispositions : List String :=
  ["add", "refine", "confirm", "replace", "no_write", "handoff", "defer", "conflict", "reject"]

/-! ### Reading and saving -/

end HarnessMem.Staging

/-! Reading a batch of memory points: every point is checked before the first one is
staged.
-/

namespace HarnessMem.Staging

open Library
open Review (EvidenceBasis)

/-- What the interpreter and the schema library make of values: the `repr` of a container, an integer field
given any value, `dict` of a value that is none, lists in the order of their JSON text, values without
repetition, and lower case. -/
structure Host where
  repr : PyValue → String
  laxInt : PyValue → Option Int
  pairs : PyValue → Option PyDict
  byText : List PyValue → List PyValue
  distinct : List PyValue → List PyValue
  lower : String → String

variable (host : Host) (hashes : Hashes)

/-- `str(value)`. -/
def Host.text (value : PyValue) : String := value.toStr host.repr

def iterate : PyValue → Except Raised (List PyValue)
  | .list items => .ok items
  | .str text => .ok (text.toList.map fun c => .str (String.singleton c))
  | .dict fields => .ok (fields.map fun field => .str field.1)
  | _ => .error (.refused "object is not iterable")

/-- `value or []`, as a loop sees it. -/
def iterateOr (value : PyValue) : Except Raised (List PyValue) := if value.truthy then iterate value else .ok []

def isText (value : PyValue) (text : String) : Bool :=
  match value with
  | .str other => other = text
  | _ => false

def isNone : PyValue → Bool
  | .none => true
  | _ => false

/-! ### Evidence references -/

/-- A field of type `str | None`. -/
def textField (fields : PyDict) (key : String) : Except Raised (Option String) :=
  match fields.get key with
  | .none => .ok none
  | .str text => .ok (some text)
  | _ => .error (.refused "Input should be a valid string")

/-- A field of type `int | None` with a lower bound. -/
def indexField (fields : PyDict) (key : String) (least : Nat) : Except Raised (Option Nat) :=
  if isNone (fields.get key) then .ok none
  else match host.laxInt (fields.get key) with
    | some (.ofNat index) =>
      if least ≤ index then .ok (some index) else .error (.refused "Input should be greater than or equal to a bound")
    | _ => .error (.refused "Input should be a valid integer")

/-- The value of a `Literal`. -/
def literal {α : Type} (values : List (String × α)) (value : PyValue) : Except Raised α :=
  match value with
  | .str text =>
    match values.find? fun known => known.1 = text with
    | some known => .ok known.2
    | none => .error (.refused "Input should be one of the literals")
  | _ => .error (.refused "Input should be one of the literals")

def bases : List (String × EvidenceBasis) :=
  [("repository", .repository), ("user_statement", .userStatement), ("transcript", .transcript),
    ("source_report", .sourceReport)]

def outcomes : List (String × VerificationOutcome) :=
  [("verified", .verified), ("unverified", .unverified), ("contradicted", .contradicted),
    ("not_applicable", .notApplicable)]

def roles : List (String × EvidenceRole) := [("user", .user), ("assistant", .assistant), ("tool", .tool)]

def refKeys : List String :=
  ["kind", "locator", "locator_sha256", "content_sha256", "exchange_index", "chunk_index", "role"]

/-- `dict(value)`. -/
def asDict (value : PyValue) : Except Raised PyDict :=
  match value with
  | .dict fields => .ok fields
  | _ =>
    match host.pairs value with
    | some fields => .ok fields
    | none => .error (.refused "cannot convert to a dictionary")

/-- `EvidenceRef.from_dict` with its `model_post_init`. -/
def EvidenceRef.ofDict (value : PyValue) : Except Raised EvidenceRef := do
  let fields ← asDict host value
  if fields.any fun field => field.1 ∉ refKeys then throw (.refused "Extra inputs are not permitted")
  let kind ← literal bases (fields.get "kind")
  let locator ← textField fields "locator"
  let locatorSha256 ← textField fields "locator_sha256"
  let contentSha256 ← textField fields "content_sha256"
  let exchangeIndex ← indexField host fields "exchange_index" 1
  let chunkIndex ← indexField host fields "chunk_index" 0
  let role ← if isNone (fields.get "role") then pure none else (literal roles (fields.get "role")).map some
  let located := locator.getD "" ≠ "" ∧ locatorSha256.getD "" = ""
  return { kind, locator, contentSha256, exchangeIndex, chunkIndex, role
           locatorSha256 := if located then locator.map hashes.sha256Text else locatorSha256 }

/-! ### Targets -/

def targetText (fields : PyDict) (key : String) : Except Raised (Option String) :=
  match fields.get? key with
  | none => .ok none
  | some (.str text) => if hasVisible text then .ok (some text) else .error (.refused "要修改的旧记忆描述不能为空。")
  | some _ => .error (.refused "要修改的旧记忆描述不能为空。")

def modulePart (part : PyValue) : Except Raised String :=
  match part with
  | .str text => if hasVisible text then .ok (stripped text) else .error (.refused "旧记忆的分类应使用搜索结果中的分类文字。")
  | _ => .error (.refused "旧记忆的分类应使用搜索结果中的分类文字。")

def targetModule (fields : PyDict) : Except Raised (Option (List String)) :=
  match fields.get? "module" with
  | none => .ok none
  | some (.list parts) => (parts.mapM modulePart).map some
  | some _ => .error (.refused "旧记忆的分类应使用搜索结果中的分类文字。")

/-- One value of `normalize_knowledge_targets`. -/
def normalizeKnowledgeTarget (value : PyValue) : Except Raised KnowledgeTarget :=
  match value with
  | .dict fields => do
    if fields.any fun field => field.1 ∉ ["title", "statement", "module", "project_name"] then
      throw (.refused "请用旧记忆的标题、内容和可选分类说明要改哪条。")
    let title ← targetText fields "title"
    let statement ← targetText fields "statement"
    if title.isNone ∧ statement.isNone then throw (.refused "请说明要修改的旧记忆标题或内容。")
    let modulePath ← targetModule fields
    let projectName ← targetText fields "project_name"
    return { title := title.map collapseSpaces, statement := statement.map collapseSpaces, modulePath
             projectName := projectName.map stripped }
  | _ => .error (.refused "请用旧记忆的标题、内容和可选分类说明要改哪条。")

def normalizeKnowledgeTargets (values : List PyValue) : Except Raised (List KnowledgeTarget) :=
  values.mapM normalizeKnowledgeTarget

/-! ### The parse of one point -/

variable {host : Host} {hashes : Hashes}

section

variable (host : Host)

def shownTexts (values : List PyValue) : List String :=
  (values.map fun value => stripped (host.text value)).filter fun text => text ≠ ""

end

end HarnessMem.Staging
