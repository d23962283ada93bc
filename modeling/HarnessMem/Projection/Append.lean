import HarnessMem.Projection.Exchanges
import HarnessMem.Schemas.Values

/-! Rendering exchanges: the full outline, the compact one within a budget of
tokens, and the exchanges a verdict without candidates has to cite.
-/

set_option autoImplicit false

namespace HarnessMem.Projection

open Library

variable (unicode : Unicode)

/-- `str.rstrip`. -/
def stripRight (text : Text) : Text := (text.reverse.dropWhile isSpace).reverse

/-- `str.lstrip`. -/
def stripLeft (text : Text) : Text := text.dropWhile isSpace

/-- `separator.join(parts)`. -/
def joinWith (separator : String) (parts : List Text) : Text := List.intercalate separator.toList parts

/-- `_preview`. The factor 0.68 is exact on every limit in use. -/
def preview (value : Text) (limit : Nat) : Text :=
  let normalized := joinWith " " ((value.splitOnP isSpace).filter fun word => !word.isEmpty)
  if limit = 0 ∨ normalized.length ≤ limit then normalized
  else
    let head := max 1 (limit * 68 / 100)
    let tail := max 1 (limit - head - 1)
    let shortened := stripRight (normalized.take head) ++ ['…'] ++
      stripLeft (normalized.drop (normalized.length - tail))
    let missing := ((evidenceAnchorRe unicode).findAll normalized).eraseDups.filter fun anchor =>
      !shortened.tails.any anchor.isPrefixOf
    if missing.isEmpty then shortened
    else shortened ++ " [anchors: ".toList ++ joinWith ", " missing ++ "]".toList

/-- `_render_exchange`: compact under limits for the user and the outcome, full without. -/
def renderExchange (index : Nat) (exchange : Exchange) (limits : Option (Nat × Nat)) : Text :=
  let number := (toString index).toList
  let suffix :=
    if limits.isSome then
      let parts :=
        (if exchange.riskFlags.isEmpty then []
          else ["s=".toList ++ exchange.riskFlags.flatMap (·.code.toList)]) ++
        (if exchange.memorySignals.isEmpty then []
          else ["m=".toList ++ exchange.memorySignals.flatMap (·.code.toList)])
      if parts.isEmpty then [] else " [".toList ++ joinWith " " parts ++ "]".toList
    else
      let parts :=
        (if exchange.riskFlags.isEmpty then []
          else ["signals=".toList ++ joinWith "," (exchange.riskFlags.map (·.name.toList))]) ++
        (if exchange.memorySignals.isEmpty then []
          else ["memory=".toList ++ joinWith "," (exchange.memorySignals.map (·.name.toList))])
      if parts.isEmpty then [] else " [".toList ++ joinWith "; " parts ++ "]".toList
  let heading := (if limits.isSome then "## E".toList else "## Exchange ".toList) ++ number ++ suffix
  let user :=
    if exchange.user.isEmpty then []
    else match limits with
      | some (userLimit, _) => ["U: ".toList ++ preview unicode (joinWith " " exchange.user) userLimit]
      | none => ["User: ".toList ++ joinWith " " exchange.user]
  let outcome :=
    match exchange.assistant.getLast? with
    | none => []
    | some last => match limits with
      | some (_, outcomeLimit) => ["A: ".toList ++ preview unicode last outcomeLimit]
      | none => ["Assistant outcome: ".toList ++ last]
  let tools :=
    if exchange.tools.isEmpty then []
    else
      let counted := joinWith ", " (exchange.tools.eraseDups.map fun name =>
        if 1 < exchange.tools.count name then name ++ " x".toList ++ (toString (exchange.tools.count name)).toList
        else name)
      [(if limits.isSome then "T: ".toList else "Tools: ".toList) ++ counted]
  joinLines (heading :: (user ++ outcome ++ tools))

structure Profile where
  userLimit : Nat
  outcomeLimit : Nat
  riskUserLimit : Nat
  riskOutcomeLimit : Nat
  deriving DecidableEq, Repr

def Profile.limits (profile : Profile) (risky : Bool) : Nat × Nat :=
  if risky then (profile.riskUserLimit, profile.riskOutcomeLimit) else (profile.userLimit, profile.outcomeLimit)

/-- The lines below the header of `_render_exchanges`; compact under a profile. -/
def outlineLines (exchanges : List Exchange) (projection : String) (profile : Option Profile) : List Text :=
  let compact := profile.isSome
  [[], ("Semantic projection: " ++ projection ++ "; assistant progress and tool arguments are omitted. " ++
      "Use semantic windows and raw drilldown for candidate-grade proof.").toList, [],
    ("Coverage: " ++ toString exchanges.length ++ " exchange(s), all indexed.").toList] ++
  (if compact && 1 < exchanges.length then
    ["Compact labels: E=exchange; U=user; A=assistant outcome; T=tools.".toList] else []) ++
  (if compact && exchanges.any (fun exchange => !exchange.riskFlags.isEmpty) then
    [("Signal legend: V=version/release; M=migration/storage; " ++
      "P=privacy/security; D=deletion; F=failure; C=conflict/stale; U=unfinished.").toList] else []) ++
  (if compact && exchanges.any (fun exchange => !exchange.memorySignals.isEmpty) then
    [("Memory-value legend: C=correction; Q=decision; S=solution; " ++
      "P=rule/preference; R=reusable workflow/fact; V=version/migration; U=unfinished/handoff.").toList] else []) ++
  (exchanges.zipIdx 1).flatMap fun numbered =>
    [[], renderExchange unicode numbered.2 numbered.1
      (profile.map fun profile =>
        profile.limits (!numbered.1.riskFlags.isEmpty || numbered.2 = exchanges.length))]

def renderExchanges (header : Text) (exchanges : List Exchange) (projection : String)
    (profile : Option Profile) : Text :=
  strip (joinLines ((if header = [] then [] else [header]) ++ outlineLines unicode exchanges projection profile)) ++
    ['\n']

def profiles : List Profile := [
  ⟨240, 320, 600, 900⟩, ⟨160, 220, 450, 650⟩, ⟨100, 140, 320, 480⟩, ⟨72, 96, 240, 360⟩, ⟨48, 64, 96, 128⟩,
  ⟨32, 48, 64, 96⟩, ⟨20, 28, 40, 56⟩, ⟨12, 18, 24, 36⟩, ⟨8, 12, 16, 24⟩, ⟨4, 8, 8, 12⟩, ⟨2, 4, 4, 8⟩]

def fitProfiles (countTokens : Text → Nat) (target : Int) (render : Profile → Text) : List Profile → Text × Nat
  | [] => ([], 0)
  | [last] => (render last, countTokens (render last))
  | profile :: rest =>
    if countTokens (render profile) ≤ target then (render profile, countTokens (render profile))
    else fitProfiles countTokens target render rest

def signalPriority : List MemorySignal :=
  [.userCorrection, .explicitDecision, .successfulSolution, .ruleOrPreference, .reusableWorkflowOrFact,
    .versionOrMigration, .unfinishedHandoff]

structure ChallengeManifest where
  version : String := "v1"
  requiredExchangeIndexes : List Nat
  requiredExchangeReasons : List (Nat × List String)
  reviewBasis : String
  deriving DecidableEq, Repr

def indexesOf (exchanges : List Exchange) (has : Exchange → Bool) : List Nat :=
  (exchanges.zipIdx 1).filterMap fun numbered => if has numbered.1 then some numbered.2 else none

def challengeReasons (exchanges : List Exchange) (index : Nat) : List String :=
  let failures := indexesOf exchanges fun exchange => .failure ∈ exchange.riskFlags
  (if index = exchanges.length then ["final_exchange"] else []) ++
  (if 2 ≤ failures.length ∧ (failures.head? = some index ∨ failures.getLast? = some index) then
    ["repeated_failure"] else []) ++
  (signalPriority.filter fun signal =>
    (indexesOf exchanges fun exchange => signal ∈ exchange.memorySignals).getLast? = some index).map (·.name)

def zeroCandidateChallengeManifest (exchanges : List Exchange) : ChallengeManifest :=
  if exchanges = [] then
    { requiredExchangeIndexes := [], requiredExchangeReasons := [], reviewBasis := "complete_raw_checkpoint" }
  else
    let failures := indexesOf exchanges fun exchange => .failure ∈ exchange.riskFlags
    let chosen := exchanges.length ::
      (signalPriority.filterMap fun signal =>
        (indexesOf exchanges fun exchange => signal ∈ exchange.memorySignals).getLast?) ++
      failures.head?.toList ++ failures.getLast?.toList
    let selected := chosen.eraseDups.mergeSort
    { requiredExchangeIndexes := selected
      requiredExchangeReasons := selected.map fun index =>
        let reasons := challengeReasons exchanges index
        (index, if reasons.isEmpty then ["final_exchange"] else reasons.mergeSort)
      reviewBasis := "semantic_exchange_refs" }

inductive DetailLevel where
  | full | compact
  deriving DecidableEq, Repr

/-- What `_render_projection_from_parsed` reports beside the content. -/
structure RenderSummary where
  parse : ParseSummary
  challenge : ChallengeManifest
  detailLevel : DetailLevel
  exchangeCount : Option Nat := none
  riskExchangeCount : Option Nat := none
  budgetTokens : Int
  outputTokens : Option Nat := none
  budgetState : String
  budgetReason : Option String := none

/-- `max(256, int(budget_tokens or 3000))`. -/
def budgetTarget (budgetTokens : Int) : Int := max 256 (if budgetTokens = 0 then 3000 else budgetTokens)

def renderProjectionFromParsed (countTokens : Text → Nat) (parsed : Parsed) (detailLevel : DetailLevel)
    (budgetTokens : Int) : Text × RenderSummary :=
  let target := budgetTarget budgetTokens
  let challenge := zeroCandidateChallengeManifest parsed.exchanges
  match detailLevel with
  | .full =>
    (if parsed.exchanges = [] then parsed.header
      else renderExchanges unicode parsed.header parsed.exchanges distillSemanticProjection none,
      { parse := parsed.summary, challenge, detailLevel := .full, budgetTokens := target
        budgetState := "full_requested" })
  | .compact =>
    if parsed.exchanges = [] then
      (parsed.header,
        { parse := parsed.summary, challenge, detailLevel := .full, budgetTokens := target
          outputTokens := some (countTokens parsed.header), budgetState := "full_fallback"
          budgetReason := some "parser rendering has no exchange boundaries" })
    else
      let (content, outputTokens) := fitProfiles countTokens target
        (fun profile => renderExchanges unicode parsed.header parsed.exchanges distillCompactProjection (some profile))
        profiles
      (content,
        { parse := { parsed.summary with projection := distillCompactProjection }
          challenge
          detailLevel := .compact
          exchangeCount := some parsed.exchanges.length
          riskExchangeCount := some (parsed.exchanges.countP fun exchange => !exchange.riskFlags.isEmpty)
          budgetTokens := target
          outputTokens := some outputTokens
          budgetState := if outputTokens ≤ target then "within_budget" else "expanded_for_manifest"
          budgetReason := if outputTokens ≤ target then none
            else some "the minimum complete indexed manifest exceeds the advisory budget" })

end HarnessMem.Projection

/-! Building a projection, with the exchanges of an earlier revision reused where
the new revision appends to it.
-/

namespace HarnessMem.Projection

open Library

inductive BuildMode where
  | append | full
  deriving DecidableEq, Repr

structure CoveredBoundary where
  rawBytes : Nat
  parserChars : Nat
  sequenceCount : Int
  deriving DecidableEq, Repr

/-- The lineage record. All its fields are present, so the checks on the shape of a foreign mapping
have no counterpart here. -/
structure Lineage where
  recordVersion : String
  sourceRevision : String
  sourceSha256 : String
  baseRevision : Option String
  buildMode : BuildMode
  fallbackReason : Option String
  coveredBoundary : CoveredBoundary
  verifiedPrefixSha256 : Option String
  parserPrefixSha256 : String
  previousProjectionSha256 : Option String
  projectionSha256 : String
  outputSha256 : String
  appendedRawBytes : Int
  appendedParserChars : Int
  parseState : Parsed

structure ProjectionSummary extends RenderSummary where
  projectionBuildMode : BuildMode
  projectionBaseRevision : Option String
  projectionSha256 : String
  projectionFallbackReason : Option String
  coveredSequenceCount : Int

structure Settings where
  coveredSequenceCount : Int := 0
  detailLevel : DetailLevel := .compact
  budgetTokens : Int := 3000

structure Built where
  content : Text
  summary : ProjectionSummary
  lineage : Lineage

variable (unicode : Unicode) (hashes : Hashes) (countTokens : Text → Nat)

/-- `sha256_text`. -/
def sha256Of (text : Text) : String := hashes.sha256Text (String.ofList text)

def fullProjection (header : Text) (exchanges : List Exchange) (value : Text) : Text :=
  if exchanges = [] then value else renderExchanges unicode header exchanges distillSemanticProjection none

def mergeExchanges (previous appended : Exchange) : Exchange :=
  exchangeOf unicode (previous.user ++ appended.user) (previous.assistant ++ appended.assistant)
    (previous.tools ++ appended.tools)

/-- The exchanges of the appended text behind those known: its first one goes on with the last known
one where no user text opens it. -/
def extendExchanges (known appended : List Exchange) : List Exchange :=
  match known.getLast?, appended with
  | some last, first :: rest =>
    if first.user.isEmpty then known.dropLast ++ mergeExchanges unicode last first :: rest else known ++ first :: rest
  | _, _ => known ++ appended

def extendParsed (state tail : Parsed) : Parsed :=
  let exchanges := extendExchanges unicode state.exchanges tail.exchanges
  { header := state.header
    exchanges
    summary :=
      { projection := distillSemanticProjection
        inputMessageCount := state.summary.inputMessageCount + tail.summary.inputMessageCount
        outputExchangeCount := exchanges.length
        duplicateMessageCount := state.summary.duplicateMessageCount + tail.summary.duplicateMessageCount
        collapsedAssistantMessageCount :=
          state.summary.collapsedAssistantMessageCount + tail.summary.collapsedAssistantMessageCount
        omittedPassiveToolCount := state.summary.omittedPassiveToolCount + tail.summary.omittedPassiveToolCount } }

/-- `_reuse_append_projection`: the parse state, or why it is not reused. -/
def reuseAppendProjection (value : Text) (sourceBytes : List UInt8) (previousProjection : Lineage)
    (previousSourceBytes : List UInt8) : Except String Parsed :=
  let previousSourceDigest := hashes.sha256Bytes previousSourceBytes
  -- a boundary of no characters counts as missing
  let previousParserChars := previousProjection.coveredBoundary.parserChars
  let parserPrefix := value.take previousParserChars
  let state := previousProjection.parseState
  let tail := value.drop previousParserChars
  if previousProjection.recordVersion ≠ distillIncrementalProjection then .error "projection_version_mismatch"
  else if previousProjection.sourceRevision ≠ "sha256:" ++ previousSourceDigest then
    .error "base_revision_hash_mismatch"
  else if previousProjection.sourceSha256 ≠ previousSourceDigest then .error "base_source_hash_mismatch"
  else if sourceBytes.length ≤ previousSourceBytes.length ∨ ¬ previousSourceBytes <+: sourceBytes then
    .error "source_prefix_mismatch"
  else if previousParserChars = 0 ∨ value.length < previousParserChars then .error "parser_boundary_invalid"
  else if sha256Of hashes parserPrefix ≠ previousProjection.parserPrefixSha256 then .error "parser_prefix_mismatch"
  else if sha256Of hashes (fullProjection unicode state.header state.exchanges parserPrefix) ≠
      previousProjection.projectionSha256 then .error "projection_hash_mismatch"
  else if tail = [] then .ok state
  else if (parseExchanges unicode tail).exchanges = [] ∧ strip tail ≠ [] then
    .error "appended_parser_tail_unparseable"
  else .ok (extendParsed unicode state (parseExchanges unicode tail))

def reused (value : Text) (sourceBytes : List UInt8) (previousProjection : Option Lineage)
    (previousSourceBytes : Option (List UInt8)) : Except String Parsed :=
  match previousProjection, previousSourceBytes with
  | none, _ => .error "no_previous_projection"
  | some _, none => .error "previous_source_bytes_unavailable"
  | some projection, some bytes => reuseAppendProjection unicode hashes value sourceBytes projection bytes

def Parsed.withHeader (parsed : Parsed) (value : Text) : Parsed :=
  if parsed.exchanges = [] ∧ parsed.header = [] then { parsed with header := value } else parsed

def buildAppendAwareDistillProjection (value : Text) (sourceRevision : String) (sourceBytes : List UInt8)
    (settings : Settings) (previousProjection : Option Lineage) (previousSourceBytes : Option (List UInt8)) :
    Except StoreError Built :=
  let sourceDigest := hashes.sha256Bytes sourceBytes
  if sourceRevision ≠ "sha256:" ++ sourceDigest then
    .error (.valueError "source revision does not match exact native source bytes")
  else
    let reuse := reused unicode hashes value sourceBytes previousProjection previousSourceBytes
    let buildMode := if reuse.toOption.isSome then BuildMode.append else .full
    let fallbackReason := match reuse with
      | .ok _ => none
      | .error reason => some reason
    let base := if reuse.toOption.isSome then previousProjection else none
    let parsed := ((reuse.toOption.getD (parseExchanges unicode value)).withHeader value)
    let (content, summary) := renderProjectionFromParsed unicode countTokens parsed settings.detailLevel
      settings.budgetTokens
    let projectionSha256 := sha256Of hashes (fullProjection unicode parsed.header parsed.exchanges value)
    .ok
      { content
        summary :=
          { summary with
            projectionBuildMode := buildMode
            projectionBaseRevision := base.map (·.sourceRevision)
            projectionSha256
            projectionFallbackReason := fallbackReason
            coveredSequenceCount := max 0 settings.coveredSequenceCount }
        lineage :=
          { recordVersion := distillIncrementalProjection
            sourceRevision
            sourceSha256 := sourceDigest
            baseRevision := base.map (·.sourceRevision)
            buildMode
            fallbackReason
            coveredBoundary :=
              { rawBytes := sourceBytes.length
                parserChars := value.length
                sequenceCount := max 0 settings.coveredSequenceCount }
            verifiedPrefixSha256 := base.bind fun _ => previousSourceBytes.map hashes.sha256Bytes
            parserPrefixSha256 := sha256Of hashes value
            previousProjectionSha256 := base.map (·.projectionSha256)
            projectionSha256
            outputSha256 := sha256Of hashes content
            appendedRawBytes := base.elim 0 fun _ =>
              (sourceBytes.length : Int) - (previousSourceBytes.elim 0 (·.length) : Nat)
            appendedParserChars := base.elim 0 fun projection =>
              (value.length : Int) - (projection.coveredBoundary.parserChars : Nat)
            parseState := parsed } }

end HarnessMem.Projection
