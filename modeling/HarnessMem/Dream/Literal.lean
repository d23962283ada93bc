import HarnessMem.Assimilation.Validation
import HarnessMem.Dream.Verification

/-! The literal refinement of a current entry: the units of its text that are proved are kept as
they stand, where everything that is dropped is proved to be disposable.
-/

set_option autoImplicit false

namespace HarnessMem.Dream

open Library
open Assimilation (CanonicalKnowledgeItem ClaimKind validateAtomicKnowledgeStatement validateKnowledgeModulePath)

structure DreamAssimilationCandidate where
  entry : KnowledgeEntry
  semanticSupport : SemanticSupport
  scopeVerification : Option CandidateVerificationPoint := none
  verificationContract : Option String := none

def dreamScopeText (entry : KnowledgeEntry) : Except String String :=
  match entry.sourceReport with
  | none => .ok (entry.title.text ++ "\n" ++ entry.statement.text)
  | some report =>
    if entry.title.text ≠ report.renderTitle ∨ entry.statement.text ≠ report.renderStatement then
      .error "Dream report rendering does not match its bound attribution"
    else .ok report.text.text

/-- `body_start`: behind the title, which a report has not. -/
def bodyStartOf (entry : KnowledgeEntry) : Nat := if entry.sourceReport.isNone then entry.title.text.length + 1 else 0

/-! ### Units that stand alone -/

/-- A unit that is kept: its text, its use and the segments the text is made of. -/
structure RetainedUnit where
  text : String
  sourceUse : SourceUse
  indexes : List Nat
  unit : CandidateClaimUnit

namespace CandidateVerificationPoint

variable (point : CandidateVerificationPoint)

/-- What `_standalone_durable_units` asks of every unit, kept or not. -/
def isReadable (allowLiteralEdit : Bool) (unit : CandidateClaimUnit) : Bool :=
  (unit.firstSegment < unit.endSegmentExclusive ∧ unit.endSegmentExclusive ≤ point.scopeSegments.length) &&
  (!unit.isEdited || (allowLiteralEdit && point.literalEdit)) &&
  (unit.excludedSegments.Nodup ∧
    ∀ index ∈ unit.excludedSegments, unit.firstSegment ≤ index ∧ index < unit.endSegmentExclusive) &&
  unit.excludedSegments.all fun index => point.scopeSegments[index]?.any fun segment =>
    segment.isTemporary || segment.isUnsupported point.semanticSupport

def substantive (unit : CandidateClaimUnit) : List CandidateScopeSegment :=
  (unit.indexes.filterMap fun index => point.scopeSegments[index]?).filter fun segment => hasVisible segment.text

def isDurable (bodyStart : Nat) (occupied : List Nat) (unit : CandidateClaimUnit) : Bool :=
  (unit.sourceSupport = .supported ∧ unit.standalone ∧ unit.futureScope = .durable ∧
    (unit.sourceUse = .standingDecision ∨ unit.sourceUse = .reusableKnowledge)) &&
  bodyStart ≤ point.startOf unit.firstSegment &&
  ((point.substantive unit).any fun segment => segment.contentRole = .claim) &&
  ((point.substantive unit).all fun segment => segment.isSupportedClaim) &&
  unit.indexes.all fun index => index ∉ occupied

/-- The round of `_standalone_durable_units` over one unit: nothing where the units cannot be read, and no row where
the unit is not selected. -/
def readUnit (bodyStart : Nat) (allowLiteralEdit : Bool) (occupied : List Nat) (unit : CandidateClaimUnit) :
    Option (Option RetainedUnit) :=
  if !point.isReadable allowLiteralEdit unit then none
  else if !unit.selectedForRetention then some none
  else if !point.isDurable bodyStart occupied unit then none
  else
    let text := unit.projected point.scopeSegments
    if text = "" ∨ (allowLiteralEdit ∧ unit.retainedText ≠ text) then none
    else some (some ⟨text, unit.sourceUse, unit.indexes, unit⟩)

def readUnits (bodyStart : Nat) (allowLiteralEdit : Bool) : List Nat → List CandidateClaimUnit → Option (List RetainedUnit)
  | _, [] => some []
  | occupied, unit :: rest =>
    match point.readUnit bodyStart allowLiteralEdit occupied unit with
    | none => none
    | some none => readUnits bodyStart allowLiteralEdit occupied rest
    | some (some row) => (readUnits bodyStart allowLiteralEdit (occupied ++ row.indexes) rest).map (row :: ·)

def standaloneDurableUnits (bodyStart : Nat) (allowLiteralEdit : Bool) : List RetainedUnit :=
  ((point.readUnits bodyStart allowLiteralEdit [] point.claimUnits).getD []).insertionSort fun first second =>
    first.indexes.min?.getD 0 ≤ second.indexes.min?.getD 0

def retainedReportText (allowLiteralEdit : Bool) : Except String String :=
  match point.standaloneDurableUnits 0 allowLiteralEdit with
  | [row] => .ok row.text
  | _ => .error "Dream report refinement requires one complete verified account unit"

/-! ### What is dropped -/

/-- What the loop over the segments finds: whether it drops one, and the filled segments of the title. -/
structure Scan where
  removed : Bool
  heading : List CandidateScopeSegment
  headingIndexes : List Nat

def isDisposable (units : List RetainedUnit) (index : Nat) (segment : CandidateScopeSegment) : Bool :=
  !point.isCovered index &&
    (segment.isTemporary || (segment.isUnsupported point.semanticSupport &&
      (segment.standalone || units.any fun row => index ∈ row.unit.excludedSegments)))

def scanSegments (units : List RetainedUnit) (bodyStart : Nat) : Nat → Nat → List CandidateScopeSegment → Option Scan
  | _, _, [] => some ⟨false, [], []⟩
  | index, offset, segment :: rest =>
    let finish := offset + segment.text.length
    let later := scanSegments units bodyStart (index + 1) finish rest
    if offset < bodyStart then
      if bodyStart < finish then none
      else if hasVisible segment.text then
        later.map fun scan => { scan with heading := segment :: scan.heading, headingIndexes := index :: scan.headingIndexes }
      else later
    else if (units.any fun row => index ∈ row.indexes) ∨ !hasVisible segment.text then later
    else if !point.isDisposable units index segment then none
    else later.map fun scan => { scan with removed := true }

end CandidateVerificationPoint

/-! ### The items -/

/-- `render_statement` of a copy of a report with another text; `model_copy` checks nothing. -/
def renderedAccount (report : SourceReport) (text : String) : String :=
  "Source-scoped report — " ++ report.speaker.value ++ ", source-session timestamp: " ++ report.period.text ++
    ", in that session's cited exchanges: " ++ text ++
    " [Reports that speaker's account only; not independently established current fact or user approval.]"

theorem renderedAccount_text (report : SourceReport) : renderedAccount report report.text.text = report.renderStatement := rfl

def modulePath (entry : KnowledgeEntry) : List String := entry.modulePath.map (·.text)

def keepsTitle (scan : CandidateVerificationPoint.Scan) : Bool :=
  scan.heading ≠ [] && scan.heading.all fun segment => segment.isSupportedClaim

def replacesTitle (point : CandidateVerificationPoint) (scan : CandidateVerificationPoint.Scan) : Bool :=
  (scan.heading ≠ [] && scan.heading.all fun segment => segment.isUnsupported point.semanticSupport) &&
  !point.claimUnits.any fun unit => unit.sourceSupport ≠ .unsupported && unit.sourceSupport ≠ .contradicted &&
    scan.headingIndexes.any fun index => unit.firstSegment ≤ index && index < unit.endSegmentExclusive

def itemTitle (entry : KnowledgeEntry) (point : CandidateVerificationPoint) (keepTitle : Bool) (row : RetainedUnit) : Option String :=
  if keepTitle then
    if row.unit.titleStart.isSome ∨ row.unit.titleEnd.isSome then none else some entry.title.text
  else
    match row.unit.titleStart, row.unit.titleEnd with
    | some start, some finish =>
      if start < finish ∧ finish ≤ row.text.length ∧ point.literalEdit then
        let title := stripped (CandidateClaimUnit.slice row.text start finish)
        if title = "" then none else some title
      else none
    | _, _ => none

def factItem (entry : KnowledgeEntry) (point : CandidateVerificationPoint) (keepTitle : Bool) (row : RetainedUnit) :
    Option CanonicalKnowledgeItem :=
  if row.unit.titleAndTextSupport ≠ .supported then none
  else (itemTitle entry point keepTitle row).map fun title => {
    title
    statement := row.text
    topicPath := modulePath entry
    claimKind := if row.sourceUse = .standingDecision then .designRequirement else .procedure }

/-- `_validate_writing_items` of a refinement, which has no canonical fields of its own. -/
def validateWritingItems (items : List CanonicalKnowledgeItem) : Except String Unit := do
  if items = [] then throw "Dream writing decision requires title and statement"
  items.forM fun item => do
    if stripped item.title = "" ∨ stripped item.statement = "" then
      throw "Dream writing decision requires title and statement"
    let _ ← validateAtomicKnowledgeStatement (stripped item.statement)
    let _ ← validateKnowledgeModulePath item.topicPath

def refinedItems (entry : KnowledgeEntry) (point : CandidateVerificationPoint) (units : List RetainedUnit)
    (scan : CandidateVerificationPoint.Scan) : Except String (Option (List CanonicalKnowledgeItem × Bool)) :=
  match entry.sourceReport with
  | some report =>
    if units.any fun row => row.unit.titleStart.isSome || row.unit.titleEnd.isSome then .ok none
    else do
      let text ← point.retainedReportText true
      return some ([{
        title := report.renderTitle
        statement := renderedAccount report text
        topicPath := modulePath entry
        claimKind := .sourceReport }], scan.removed)
  | none =>
    if !keepsTitle scan ∧ !replacesTitle point scan then .ok none
    else .ok ((units.mapM (factItem entry point (keepsTitle scan))).map fun items => (items, scan.removed || !keepsTitle scan))

def verifiedDurableScopeItems (candidate : DreamAssimilationCandidate) : Except String (List CanonicalKnowledgeItem) := do
  let some point := candidate.scopeVerification | return []
  if candidate.verificationContract ≠ some "dream-source-recheck-v7" ∨ candidate.semanticSupport = .contradicted ∨
      point.semanticSupport ≠ candidate.semanticSupport ∨ point.scopeSegments = [] then
    return []
  let source ← dreamScopeText candidate.entry
  if String.join (point.scopeSegments.map (·.text)) ≠ source then return []
  let units := point.standaloneDurableUnits (bodyStartOf candidate.entry) true
  if units = [] ∨ (candidate.entry.sourceReport.isSome ∧ units.length ≠ 1) then return []
  let some scan := point.scanSegments units (bodyStartOf candidate.entry) 0 0 point.scopeSegments | return []
  let some (items, removed) ← refinedItems candidate.entry point units scan | return []
  if !removed then return []
  return if (validateWritingItems items).isOk then items else []

end HarnessMem.Dream
