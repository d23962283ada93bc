import HarnessMem.Library.Text
import HarnessMem.Schemas.Values
import Mathlib.Data.List.Basic
import Mathlib.Data.String.Basic

/-! What the verification of one candidate reports: its text in segments, each with its use, scope,
role and support, and the units of segments that are proved together.
-/

set_option autoImplicit false

namespace HarnessMem.Dream

open Library

inductive SourceUse where
  | standingDecision | reusableKnowledge | taskContext | unclear
  deriving DecidableEq

inductive FutureScope where
  | durable | sessionOnly | unclear
  deriving DecidableEq

inductive ContentRole where
  | claim | qualifier | temporaryContext | unclear
  deriving DecidableEq

inductive SourceSupport where
  | supported | unsupported | contradicted | unclear
  deriving DecidableEq

inductive SemanticSupport where
  | supported | partially | contradicted
  deriving DecidableEq

structure CandidateScopeSegment where
  text : String
  sourceUse : SourceUse
  futureScope : FutureScope
  standalone : Bool := false
  contentRole : ContentRole := .unclear
  sourceSupport : SourceSupport := .unclear
  filled : text ≠ ""

def CandidateScopeSegment.fields (segment : CandidateScopeSegment) :=
  (segment.text, segment.sourceUse, segment.futureScope, segment.standalone, segment.contentRole, segment.sourceSupport)

theorem CandidateScopeSegment.fields_inj {first second : CandidateScopeSegment} : first.fields = second.fields ↔ first = second := by
  cases first
  cases second
  simp [fields]

instance : DecidableEq CandidateScopeSegment := fun _ _ => decidable_of_iff _ CandidateScopeSegment.fields_inj

structure CandidateClaimUnit where
  firstSegment : Nat
  endSegmentExclusive : Nat
  standalone : Bool := false
  sourceSupport : SourceSupport := .unclear
  sourceUse : SourceUse := .unclear
  futureScope : FutureScope := .unclear
  excludedSegments : List Nat := []
  retainedText : String := ""
  selectedForRetention : Bool := false
  titleStart : Option Nat := none
  titleEnd : Option Nat := none
  titleAndTextSupport : SourceSupport := .unclear
  deriving DecidableEq

structure CandidateVerificationPoint where
  semanticSupport : SemanticSupport
  futureScope : FutureScope
  sourceUse : SourceUse := .unclear
  scopeSegments : List CandidateScopeSegment := []
  claimUnits : List CandidateClaimUnit := []
  /-- `literal_edit_contract` is `DREAM_LITERAL_EDIT_CONTRACT`, its only value. -/
  literalEdit : Bool := false
  deriving DecidableEq

namespace CandidateScopeSegment

def isTemporary (segment : CandidateScopeSegment) : Bool :=
  segment.sourceSupport = .supported ∧ segment.contentRole = .temporaryContext ∧ segment.sourceUse = .taskContext ∧
    segment.futureScope = .sessionOnly

def isUnsupported (segment : CandidateScopeSegment) (support : SemanticSupport) : Bool :=
  support = .partially ∧ (segment.sourceSupport = .unsupported ∨ segment.sourceSupport = .contradicted) ∧
    (segment.contentRole = .claim ∨ segment.contentRole = .qualifier)

def isSupportedClaim (segment : CandidateScopeSegment) : Bool :=
  segment.sourceSupport = .supported ∧ (segment.contentRole = .claim ∨ segment.contentRole = .qualifier)

end CandidateScopeSegment

namespace CandidateClaimUnit

variable (unit : CandidateClaimUnit)

def indexes : List Nat :=
  (List.range' unit.firstSegment (unit.endSegmentExclusive - unit.firstSegment)).filter (· ∉ unit.excludedSegments)

/-- `segment.text` of the segments of a unit that are not excluded. -/
def texts (segments : List CandidateScopeSegment) : List String :=
  unit.indexes.filterMap fun index => segments[index]?.map (·.text)

/-- `"".join(...).strip()`. -/
def projected (segments : List CandidateScopeSegment) : String := stripped (String.join (unit.texts segments))

def isEdited : Bool := unit.excludedSegments ≠ [] ∨ unit.titleStart.isSome ∨ unit.titleEnd.isSome

/-- `text[start:end]`. -/
def slice (text : String) (start finish : Nat) : String := String.ofList ((text.toList.take finish).drop start)

def requireNonemptyRange : Except String Unit := do
  if unit.endSegmentExclusive ≤ unit.firstSegment then
    throw "claim unit must select a nonempty contiguous segment range"
  if ¬ unit.excludedSegments.Nodup ∨ unit.excludedSegments.any fun index =>
      index < unit.firstSegment ∨ unit.endSegmentExclusive ≤ index then
    throw "excluded segment indexes must be unique and inside the unit range"
  if unit.titleStart.isNone ≠ unit.titleEnd.isNone then throw "title substring requires both offsets or neither"
  match unit.titleStart, unit.titleEnd with
  | some start, some finish =>
    if ¬ (start < finish ∧ finish ≤ unit.retainedText.length) then
      throw "title offsets must select a nonempty retained-text substring"
    let title := slice unit.retainedText start finish
    if title = "" ∨ title ≠ stripped title then throw "title substring must not contain leading or trailing whitespace"
  | _, _ => return

end CandidateClaimUnit

namespace CandidateVerificationPoint

variable (point : CandidateVerificationPoint)

/-- The checks of `bind_future_scope_to_source_use` on one unit. -/
def checkUnit (unit : CandidateClaimUnit) : Except String Unit := do
  if point.scopeSegments.length < unit.endSegmentExclusive then
    throw "claim unit extends beyond the supplied scope segments"
  if (unit.excludedSegments ≠ [] ∨ unit.titleStart.isSome) ∧ !point.literalEdit then
    throw "literal exclusions and title edits require the existing-edit contract"
  let projected := unit.projected point.scopeSegments
  if (point.literalEdit ∨ unit.retainedText ≠ "") ∧ (projected = "" ∨ unit.retainedText ≠ projected) then
    throw "retained_text must exactly project the original selected segments"
  if unit.excludedSegments.any fun index => point.scopeSegments[index]?.any fun segment =>
      !segment.isTemporary ∧ !segment.isUnsupported point.semanticSupport then
    throw "literal exclusion requires proved temporary or unsupported text"
  if unit.indexes.any fun index => point.scopeSegments[index]?.any fun segment => segment.contentRole = .temporaryContext then
    throw "claim unit cannot bridge a temporary-context segment"

/-- `CandidateVerificationPoint.model_validate`. -/
def validate : Except String CandidateVerificationPoint := do
  point.claimUnits.forM CandidateClaimUnit.requireNonemptyRange
  point.claimUnits.forM point.checkUnit
  return { point with futureScope :=
    if point.sourceUse = .taskContext then .sessionOnly
    else if point.sourceUse = .unclear then .unclear
    else point.futureScope }

def startOf (index : Nat) : Nat := ((point.scopeSegments.take index).map (·.text.length)).sum

def isCovered (index : Nat) : Bool :=
  point.claimUnits.any fun unit => unit.firstSegment ≤ index ∧ index < unit.endSegmentExclusive ∧
    index ∉ unit.excludedSegments ∧ unit.sourceSupport ≠ .unsupported ∧ unit.sourceSupport ≠ .contradicted

end CandidateVerificationPoint

end HarnessMem.Dream

/-! What a run keeps of a verification to resume from: offsets and digests of the parts of the text,
never the text itself.
-/

namespace HarnessMem.Dream

open Library

structure VerifiedPoint extends CandidateVerificationPoint where
  candidateIndex : Nat
  reason : String
  explained : 8 ≤ reason.length ∧ reason.length ≤ 1000

/-! ### The status of a partition -/

def FutureScope.value : FutureScope → String
  | .durable => "durable"
  | .sessionOnly => "session_only"
  | .unclear => "unclear"

def CandidateScopeSegment.scope (part : CandidateScopeSegment) : FutureScope :=
  if part.contentRole = .unclear then .unclear
  else if part.contentRole = .temporaryContext ∨ part.sourceUse = .taskContext ∨ part.futureScope = .sessionOnly then .sessionOnly
  else if part.sourceUse = .unclear ∨ part.futureScope = .unclear then .unclear
  else .durable

def CandidateClaimUnit.scope (unit : CandidateClaimUnit) : FutureScope :=
  if unit.sourceUse = .unclear ∨ unit.futureScope = .unclear then .unclear
  else if unit.sourceUse = .taskContext ∨ unit.futureScope = .sessionOnly then .sessionOnly
  else .durable

def verificationScopeStatus (point : CandidateVerificationPoint) (statement : String) : String :=
  let parts := point.scopeSegments
  if parts = [] then "source_scope_partition_missing"
  else if String.join (parts.map (·.text)) ≠ statement then "source_scope_partition_mismatch"
  else if point.literalEdit ∨ (point.claimUnits.any fun unit => unit.excludedSegments ≠ [] ∨ unit.titleStart.isSome) then
    "source_scope_existing_edit_only"
  else if point.semanticSupport = .supported ∧
      ((parts.any fun part => hasVisible part.text ∧ part.sourceSupport ≠ .supported) ∨
        point.claimUnits.any fun unit => unit.sourceSupport ≠ .supported) then
    "source_scope_support_inconsistent"
  else
    let scopes := parts.map (·.scope) ++ point.claimUnits.map (·.scope)
    if .unclear ∈ scopes then "source_scope_unclear"
    else
      match scopes.eraseDups with
      | [scope] => "source_scope_" ++ scope.value
      | _ => "source_scope_mixed"

/-- The end of `_verify_source_backed_rechecks`: the scope of a point follows the status of its partition. -/
def VerifiedPoint.checked (point : VerifiedPoint) (statement : String) : VerifiedPoint :=
  let scope := verificationScopeStatus point.toCandidateVerificationPoint statement
  if scope ∉ ["source_scope_durable", "source_scope_session_only"] then { point with futureScope := .unclear }
  else if scope = "source_scope_session_only" then { point with futureScope := .sessionOnly }
  else point

/-! ### Checkpoints -/

structure SegmentProof where
  charStart : Int
  charEnd : Int
  textSha256 : String
  contentRole : ContentRole
  sourceUse : SourceUse
  futureScope : FutureScope
  standalone : Bool
  sourceSupport : SourceSupport

structure UnitProof where
  firstSegment : Int
  endSegmentExclusive : Int
  standalone : Bool
  sourceSupport : SourceSupport
  sourceUse : SourceUse
  futureScope : FutureScope
  excludedSegments : List Int
  selectedForRetention : Bool
  titleStart : Option Int
  titleEnd : Option Int
  titleAndTextSupport : SourceSupport
  retainedTextPresent : Bool
  retainedTextSha256 : String
  titleSha256 : Option String
  textSha256 : String
  originalRangeSha256 : String

structure PointProof where
  proofVersion : String
  candidateIndex : Nat
  semanticSupport : SemanticSupport
  futureScope : FutureScope
  sourceUse : SourceUse
  literalEdit : Bool
  reasonSha256 : String
  scopeTextSha256 : String
  scopeSegments : List SegmentProof
  claimUnits : List UnitProof

/-- `"".join(part.text for part in segments[first:end])`. -/
def joinRange (segments : List CandidateScopeSegment) (first finish : Nat) : String :=
  String.join (((segments.take finish).drop first).map (·.text))

section
variable (hashes : Hashes)

/-- The loop of `point_proof` over the segments. -/
def segmentProofs : Nat → List CandidateScopeSegment → List SegmentProof
  | _, [] => []
  | offset, part :: rest =>
    { charStart := offset
      charEnd := ↑(offset + part.text.length)
      textSha256 := hashes.sha256Text part.text
      contentRole := part.contentRole
      sourceUse := part.sourceUse
      futureScope := part.futureScope
      standalone := part.standalone
      sourceSupport := part.sourceSupport } :: segmentProofs (offset + part.text.length) rest

def unitProof (segments : List CandidateScopeSegment) (unit : CandidateClaimUnit) : UnitProof where
  firstSegment := unit.firstSegment
  endSegmentExclusive := unit.endSegmentExclusive
  standalone := unit.standalone
  sourceSupport := unit.sourceSupport
  sourceUse := unit.sourceUse
  futureScope := unit.futureScope
  excludedSegments := unit.excludedSegments.map Int.ofNat
  selectedForRetention := unit.selectedForRetention
  titleStart := unit.titleStart.map Int.ofNat
  titleEnd := unit.titleEnd.map Int.ofNat
  titleAndTextSupport := unit.titleAndTextSupport
  retainedTextPresent := unit.retainedText ≠ ""
  retainedTextSha256 := hashes.sha256Text unit.retainedText
  titleSha256 :=
    match unit.titleStart, unit.titleEnd with
    | some start, some finish => some (hashes.sha256Text (CandidateClaimUnit.slice unit.retainedText start finish))
    | _, _ => none
  textSha256 := hashes.sha256Text (joinRange segments unit.firstSegment unit.endSegmentExclusive)
  originalRangeSha256 := hashes.sha256Text (joinRange segments unit.firstSegment unit.endSegmentExclusive)

def pointProof (point : VerifiedPoint) (text : String) : Option PointProof :=
  if point.scopeSegments = [] ∨ String.join (point.scopeSegments.map (·.text)) ≠ text then none
  else some {
    proofVersion := "scope-offsets-v3"
    candidateIndex := point.candidateIndex
    semanticSupport := point.semanticSupport
    futureScope := point.futureScope
    sourceUse := point.sourceUse
    literalEdit := point.literalEdit
    reasonSha256 := hashes.sha256Text point.reason
    scopeTextSha256 := hashes.sha256Text text
    scopeSegments := segmentProofs hashes 0 point.scopeSegments
    claimUnits := point.claimUnits.map (unitProof hashes point.scopeSegments) }

def restoreSegment (text : String) (offset : Nat) (part : SegmentProof) : Option CandidateScopeSegment :=
  if part.charStart ≠ offset ∨ ¬ (part.charStart < part.charEnd ∧ part.charEnd ≤ text.length) then none
  else
    let currentText := CandidateClaimUnit.slice text part.charStart.toNat part.charEnd.toNat
    if hashes.sha256Text currentText ≠ part.textSha256 then none
    else if filled : currentText ≠ "" then some {
      text := currentText
      contentRole := part.contentRole
      sourceUse := part.sourceUse
      futureScope := part.futureScope
      standalone := part.standalone
      sourceSupport := part.sourceSupport
      filled := filled }
    else none

/-- The loop of `restore_point` over the segments, which ends where the text does. -/
def restoreSegments (text : String) : Nat → List SegmentProof → Option (List CandidateScopeSegment)
  | offset, [] => if offset = text.length then some [] else none
  | offset, part :: rest => do
    let segment ← restoreSegment hashes text offset part
    let segments ← restoreSegments text part.charEnd.toNat rest
    return segment :: segments

def titleMatches (retained : String) (unit : UnitProof) : Bool :=
  match unit.titleStart, unit.titleEnd with
  | none, none => unit.titleSha256 = none
  | some start, some finish => (0 ≤ start ∧ start < finish ∧ finish ≤ retained.length) &&
      some (hashes.sha256Text (CandidateClaimUnit.slice retained start.toNat finish.toNat)) = unit.titleSha256
  | _, _ => false

def restoreUnit (segments : List CandidateScopeSegment) (unit : UnitProof) : Option CandidateClaimUnit :=
  if ¬ (0 ≤ unit.firstSegment ∧ unit.firstSegment < unit.endSegmentExclusive ∧ unit.endSegmentExclusive ≤ segments.length) ∨
      hashes.sha256Text (joinRange segments unit.firstSegment.toNat unit.endSegmentExclusive.toNat) ≠ unit.textSha256 ∨
      unit.originalRangeSha256 ≠ unit.textSha256 then none
  else if ¬ unit.excludedSegments.Nodup ∨
      unit.excludedSegments.any fun index => ¬ (unit.firstSegment ≤ index ∧ index < unit.endSegmentExclusive) then none
  else
    let restored : CandidateClaimUnit := {
      firstSegment := unit.firstSegment.toNat
      endSegmentExclusive := unit.endSegmentExclusive.toNat
      standalone := unit.standalone
      sourceSupport := unit.sourceSupport
      sourceUse := unit.sourceUse
      futureScope := unit.futureScope
      excludedSegments := unit.excludedSegments.map (·.toNat)
      titleStart := unit.titleStart.map (·.toNat)
      titleEnd := unit.titleEnd.map (·.toNat)
      titleAndTextSupport := unit.titleAndTextSupport
      selectedForRetention := unit.selectedForRetention }
    let retained := if unit.retainedTextPresent then restored.projected segments else ""
    if hashes.sha256Text retained ≠ unit.retainedTextSha256 then none
    else if !titleMatches hashes retained unit then none
    else some { restored with retainedText := retained }

def reusedReason : String := "Reused this run's source-bound verification after current content and partition hash checks."

theorem reusedReason_explained : 8 ≤ reusedReason.length ∧ reusedReason.length ≤ 1000 := by decide

def restorePoint (proof : PointProof) (text : String) : Option VerifiedPoint := do
  if proof.proofVersion ≠ "scope-offsets-v3" ∨ proof.scopeTextSha256 ≠ hashes.sha256Text text then none
  let segments ← restoreSegments hashes text 0 proof.scopeSegments
  if segments = [] then none
  let units ← proof.claimUnits.mapM (restoreUnit hashes segments)
  let point ← (CandidateVerificationPoint.validate {
    semanticSupport := proof.semanticSupport
    futureScope := proof.futureScope
    sourceUse := proof.sourceUse
    scopeSegments := segments
    claimUnits := units
    literalEdit := proof.literalEdit }).toOption
  return { toCandidateVerificationPoint := point, candidateIndex := proof.candidateIndex, reason := reusedReason, explained := reusedReason_explained }

end

end HarnessMem.Dream
