import HarnessMem.Schemas.SessionDistill
import Mathlib.Data.List.Sort

/-! Reassembling one transcript revision from its chunks. -/

set_option autoImplicit false

namespace HarnessMem.TranscriptChunking

/-- The order of `chunk_index`, stable for equal indices. -/
def inOrder (chunks : List TranscriptChunk) : List TranscriptChunk :=
  chunks.insertionSort fun first second => first.chunkIndex ≤ second.chunkIndex

/-- The checking loop of `reconstruct_transcript`, returning the joined contents. -/
def joinChecked (hashes : Hashes) (sourceId revision : String) :
    List TranscriptChunk → Int → Int → Except StoreError String
  | [], _, _ => .ok ""
  | chunk :: rest, expectedIndex, expectedStart =>
    if chunk.sourceId ≠ sourceId ∨ chunk.sourceRevision ≠ revision then
      .error (.valueError "chunks belong to different transcript revisions")
    else if chunk.chunkIndex ≠ expectedIndex then
      .error (.valueError "chunk index gap detected")
    else if chunk.charStart ≠ expectedStart then
      .error (.valueError "chunk character range gap detected")
    else if chunk.charEnd - chunk.charStart ≠ chunk.rawContent.toList.length then
      .error (.valueError "chunk character range does not match content")
    else if hashes.sha256Text chunk.rawContent ≠ chunk.contentSha256 then
      .error (.valueError "chunk content hash mismatch")
    else match joinChecked hashes sourceId revision rest (expectedIndex + 1) chunk.charEnd with
      | .ok value => .ok (chunk.rawContent ++ value)
      | .error failure => .error failure

def reconstructTranscript (hashes : Hashes) (chunks : List TranscriptChunk)
    (expectedSha256 : Option String) : Except StoreError String :=
  match inOrder chunks with
  | [] => .ok ""
  | first :: rest =>
    match joinChecked hashes first.sourceId first.sourceRevision (first :: rest) 0 0 with
    | .error failure => .error failure
    | .ok value =>
      if expectedSha256.any fun expected => hashes.sha256Text value ≠ expected then
        .error (.valueError "reconstructed transcript content hash mismatch")
      else .ok value

theorem inOrder_inOrder (chunks : List TranscriptChunk) :
    inOrder (inOrder chunks) = inOrder chunks := by
  have sorted := List.pairwise_insertionSort
    (fun first second : TranscriptChunk => first.chunkIndex ≤ second.chunkIndex) chunks
  exact sorted.insertionSort_eq

theorem reconstruct_inOrder (hashes : Hashes) (chunks : List TranscriptChunk)
    (expected : Option String) :
    reconstructTranscript hashes (inOrder chunks) expected = reconstructTranscript hashes chunks expected := by
  simp only [reconstructTranscript, inOrder_inOrder]

theorem reconstruct_expected (hashes : Hashes) (chunks : List TranscriptChunk)
    (expected : Option String) (value : String)
    (read : reconstructTranscript hashes chunks expected = .ok value) :
    reconstructTranscript hashes chunks (some (hashes.sha256Text value)) = .ok value := by
  unfold reconstructTranscript at read ⊢
  cases ordered : inOrder chunks with
  | nil => simpa only [ordered] using read
  | cons first rest =>
    simp only [ordered] at read ⊢
    cases whole : joinChecked hashes first.sourceId first.sourceRevision (first :: rest) 0 0 with
    | error failure => simp [whole] at read
    | ok joined =>
      simp only [whole] at read ⊢
      split at read
      · cases read
      · cases read
        simp

end HarnessMem.TranscriptChunking

/-! Cutting one transcript revision into its chunks. -/

namespace HarnessMem.TranscriptChunking

/-- One indivisible semantic range of a transcript. Positions below zero are among those that
`validateLogicalUnits` refuses, so they are counts here. -/
structure TranscriptLogicalUnit where
  charStart : Nat
  charEnd : Nat
  unitId : String
  kind : String := "message"
  deriving DecidableEq, Repr

inductive ChunkingError where
  | valueError (message : String)
  | indexError
  deriving DecidableEq, Repr

/-- The loop of `_validate_logical_units`. -/
def checkUnits (length : Nat) : List TranscriptLogicalUnit → Nat → List String → Except ChunkingError Unit
  | [], expectedStart, _ =>
    if expectedStart ≠ length then .error (.valueError "logical_units must cover the complete transcript") else .ok ()
  | unit :: units, expectedStart, seenIds =>
    if unit.charStart ≠ expectedStart then .error (.valueError "logical_units must be contiguous and ordered")
    else if unit.charEnd ≤ unit.charStart ∨ length < unit.charEnd then
      .error (.valueError "logical unit range is outside the transcript")
    else if unit.unitId = "" ∨ unit.unitId ∈ seenIds then .error (.valueError "logical unit ids must be non-empty and unique")
    else if unit.kind = "" then .error (.valueError "logical unit kind must be non-empty")
    else checkUnits length units unit.charEnd (unit.unitId :: seenIds)

def validateLogicalUnits (value : List Char) :
    Option (List TranscriptLogicalUnit) → Except ChunkingError (Option (List TranscriptLogicalUnit))
  | none => .ok none
  | some [] => .error (.valueError "logical_units must cover the non-empty transcript")
  | some units => do
    checkUnits value.length units 0 []
    .ok (some units)

/-- `value.rfind("\n", first, behind)`. -/
def rfindNewline (value : List Char) (first behind : Nat) : Option Nat :=
  (List.range behind).reverse.find? fun index => first ≤ index && value[index]? = some '\n'

/-- What one round of the loop settles about its chunk, and the logical index it leaves. -/
structure Cut where
  stop : Nat
  boundaryStrategy : BoundaryStrategy
  sequenceStart : Option Nat := none
  sequenceEnd : Option Nat := none
  logicalUnitIds : List String := []
  logicalUnitKinds : List String := []
  startsOnBoundary : Bool
  endsOnBoundary : Bool
  startsWithContinuation : Bool := false
  endsWithContinuation : Bool := false
  logicalIndex : Nat

def logicalCut (units : List TranscriptLogicalUnit) (start hardEnd firstIndex : Nat) : Except ChunkingError Cut :=
  let complete := ((units.drop firstIndex).takeWhile fun unit => unit.charEnd ≤ hardEnd).length
  let lastIndex := if complete = 0 then firstIndex else firstIndex + complete - 1
  match units[firstIndex]?, units[lastIndex]? with
  | some first, some last =>
    let stop := if complete = 0 then hardEnd else last.charEnd
    let touched := (units.take (lastIndex + 1)).drop firstIndex
    let startsOnBoundary := decide (start = first.charStart)
    let endsOnBoundary := decide (stop = last.charEnd)
    .ok {
      stop
      boundaryStrategy := if complete = 0 then .hardLimit else .logicalUnit
      sequenceStart := some firstIndex
      sequenceEnd := some (lastIndex + 1)
      logicalUnitIds := touched.map (·.unitId)
      logicalUnitKinds := touched.map (·.kind)
      startsOnBoundary
      endsOnBoundary
      startsWithContinuation := !startsOnBoundary
      endsWithContinuation := !endsOnBoundary
      logicalIndex := if endsOnBoundary then lastIndex + 1 else lastIndex }
  | _, _ => .error .indexError

def newlineCut (value : List Char) (start hardEnd logicalIndex : Nat) : Cut :=
  let startsOnBoundary := start = 0 || value[start - 1]? = some '\n'
  let endsAt (stop : Nat) : Bool := stop = value.length || value[stop - 1]? = some '\n'
  if hardEnd < value.length then
    match rfindNewline value (start + 1) (hardEnd + 1) with
    | some boundary =>
      ⟨boundary + 1, .newline, none, none, [], [], startsOnBoundary, endsAt (boundary + 1), false, false, logicalIndex⟩
    | none => ⟨hardEnd, .hardLimit, none, none, [], [], startsOnBoundary, endsAt hardEnd, false, false, logicalIndex⟩
  else ⟨hardEnd, .newline, none, none, [], [], startsOnBoundary, endsAt hardEnd, false, false, logicalIndex⟩

def nextCut (value : List Char) (units : Option (List TranscriptLogicalUnit)) (start hardEnd logicalIndex : Nat) :
    Except ChunkingError Cut :=
  match units with
  | some units => logicalCut units start hardEnd logicalIndex
  | none => .ok (newlineCut value start hardEnd logicalIndex)

/-- What the chunks of one revision have in common; `now` is the clock at the chunk with an index. -/
structure ChunkOwner where
  sourceId : String
  projectName : String
  client : String
  sessionId : String
  revision : String
  now : Nat → Time

def chunkOf (hashes : Hashes) (owner : ChunkOwner) (value : List Char) (start stop index : Nat) (cut : Cut) : TranscriptChunk :=
  let content := String.ofList ((value.drop start).take (stop - start))
  let digest := hashes.sha256Text content
  { id := hashes.uuid5 s!"{owner.sourceId}:{owner.revision}:{index}:{start}:{stop}:{digest}"
    sourceId := owner.sourceId
    projectName := owner.projectName
    client := owner.client
    sessionId := owner.sessionId
    sourceRevision := owner.revision
    chunkIndex := index
    charStart := start
    charEnd := stop
    sequenceStart := cut.sequenceStart
    sequenceEnd := cut.sequenceEnd
    rawContent := content
    contentSha256 := digest
    sizeBytes := (Library.encodeUtf8 content).length
    startsOnBoundary := cut.startsOnBoundary
    endsOnBoundary := cut.endsOnBoundary
    boundaryStrategy := cut.boundaryStrategy
    logicalUnitIds := cut.logicalUnitIds
    logicalUnitKinds := cut.logicalUnitKinds
    startsWithContinuation := cut.startsWithContinuation
    endsWithContinuation := cut.endsWithContinuation
    createdAt := owner.now index }

def stopOf (start hardEnd : Nat) (cut : Cut) : Nat := if cut.stop ≤ start then hardEnd else cut.stop

theorem start_lt_stopOf {start length maxChars : Nat} (cut : Cut) (positive : 1 ≤ maxChars) (more : start < length) :
    start < stopOf start (min (start + maxChars) length) cut := by
  unfold stopOf
  split <;> omega

/-- The loop of `chunk_transcript_text`. -/
def chunkLoop (hashes : Hashes) (owner : ChunkOwner) (value : List Char) (units : Option (List TranscriptLogicalUnit))
    (maxChars : Nat) (positive : 1 ≤ maxChars) (start index logicalIndex : Nat) : Except ChunkingError (List TranscriptChunk) :=
  if _ : start < value.length then
    let hardEnd := min (start + maxChars) value.length
    match nextCut value units start hardEnd logicalIndex with
    | .error failure => .error failure
    | .ok cut => do
      let chunks ← chunkLoop hashes owner value units maxChars positive (stopOf start hardEnd cut) (index + 1) cut.logicalIndex
      .ok (chunkOf hashes owner value start (stopOf start hardEnd cut) index cut :: chunks)
  else .ok []
termination_by value.length - start
decreasing_by
  have advanced := start_lt_stopOf cut positive ‹_›
  omega

theorem one_le_toNat {maxChars : Int} (positive : ¬ maxChars < 1) : 1 ≤ maxChars.toNat := by omega

/-- `chunk_transcript_text`; `sourceRevision` is `source_revision`, `none` or empty where it is to be computed. -/
def chunkTranscriptText (hashes : Hashes) (value sourceId projectName client sessionId : String) (sourceRevision : Option String)
    (maxChars : Int) (logicalUnits : Option (List TranscriptLogicalUnit)) (now : Nat → Time) :
    Except ChunkingError (List TranscriptChunk) :=
  if positive : maxChars < 1 then .error (.valueError "max_chars must be positive")
  else if value = "" then .ok []
  else do
    let units ← validateLogicalUnits value.toList logicalUnits
    let revision := match sourceRevision with
      | some revision => if revision = "" then "sha256:" ++ hashes.sha256Text value else revision
      | none => "sha256:" ++ hashes.sha256Text value
    chunkLoop hashes ⟨sourceId, projectName, client, sessionId, revision, now⟩ value.toList units maxChars.toNat (one_le_toNat positive) 0 0 0

end HarnessMem.TranscriptChunking
