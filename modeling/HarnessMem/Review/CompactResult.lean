import HarnessMem.Library.Results
import HarnessMem.Projection.Relabelling
import HarnessMem.Review.Preparation

/-! What the compact result of a preparation hands on of the source: the windows of all exchanges with the
earlier answers of each, or the whole rendering where it has no exchange.
-/

set_option autoImplicit false

namespace HarnessMem.Review

open Library Projection

variable (unicode : Unicode) (hashes : Hashes) (countTokens : Text → Nat)

/-- The observation stored for a source, with the revision its metadata name. -/
structure StoredObservation where
  sourceRevision : String
  rawContent : Text

structure CompactEvidence where
  outputExchangeCount : Nat
  challenge : ChallengeManifest
  content : Option Text
  contentSha256 : Option String

/-- A window of the compact result. Lists that are empty stand for keys that are left out. -/
structure DecisionExchange where
  exchangeIndex : Nat
  contentSha256 : String
  content : Text
  riskFlags : List RiskFlag
  memorySignals : List MemorySignal
  precedingAssistantMessages : List Text

structure CompactResult where
  sourceRevision : String
  semanticEvidence : CompactEvidence
  semanticDecisionExchanges : List DecisionExchange

def decisionExchange (exchanges : List Exchange) (window : Window) : Except String DecisionExchange :=
  match exchanges[window.exchangeIndex - 1]? with
  | none => .error "list index out of range"
  | some exchange => .ok
    { exchangeIndex := window.exchangeIndex
      contentSha256 := window.contentSha256
      content := window.content
      riskFlags := window.riskFlags
      memorySignals := window.memorySignals
      precedingAssistantMessages := exchange.assistant.dropLast }

/-- `_compact_prepare_result` for a prepared job that is not completed, where its result holds semantic
evidence. The parser's header goes unused. -/
def compactPrepareResult (source : Source) (stored : Option StoredObservation) (evidence : ProjectionSummary) :
    Except String CompactResult :=
  match stored.filter fun observation => observation.sourceRevision = source.revision hashes with
  | none => .error "complete semantic evidence is unavailable"
  | some observation =>
    let count := evidence.parse.outputExchangeCount
    let windows := loadDistillExchangeWindows unicode hashes source (List.range' 1 count)
    if windows.length ≠ count then .error "complete exchange references are unavailable"
    else
      (windows.mapM (decisionExchange (parseExchanges unicode observation.rawContent).exchanges)).map fun exchanges =>
        { sourceRevision := source.revision hashes
          semanticEvidence :=
            { outputExchangeCount := count
              challenge := evidence.challenge
              content := if count = 0 then some observation.rawContent else none
              contentSha256 := if count = 0 then some (sha256Of hashes observation.rawContent) else none }
          semanticDecisionExchanges := exchanges }

structure PreparedJob where
  source : Source
  observation : StoredObservation
  detailLevel : DetailLevel
  budgetTokens : Int

def PreparedJob.Yields (job : PreparedJob) (result : CompactResult) : Prop :=
  ∃ evidence, loadDistillSemanticEvidence unicode hashes countTokens job.source job.detailLevel job.budgetTokens =
      some evidence ∧
    compactPrepareResult unicode hashes job.source (some job.observation) evidence = .ok result

def sourceText (value : Text) : List Entry × Text :=
  (conversation (kept unicode value), (parseExchanges unicode value).header)

/-- The result tells what its source said: no job whose source said something else yields it, and every window
has the digest that is recomputed when the window is cited. -/
def KeepsSourceText (job : PreparedJob) (result : CompactResult) : Prop :=
  (∀ other : PreparedJob, other.Yields unicode hashes countTokens result →
    sourceText unicode other.observation.rawContent = sourceText unicode job.observation.rawContent) ∧
  ∀ exchange ∈ result.semanticDecisionExchanges,
    (loadDistillExchangeWindows unicode hashes job.source [exchange.exchangeIndex]).map (·.contentSha256) =
      [exchange.contentSha256]

variable {unicode hashes countTokens} {source : Source} {observation : StoredObservation}
  {detailLevel : DetailLevel} {budgetTokens : Int} {evidence : ProjectionSummary} {result : CompactResult}

/-! ### What a successful result is made of -/

theorem compactPrepareResult_eq_ok
    (ran : compactPrepareResult unicode hashes source (some observation) evidence = .ok result) :
    observation.sourceRevision = source.revision hashes ∧
      (loadDistillExchangeWindows unicode hashes source (List.range' 1 evidence.parse.outputExchangeCount)).length =
        evidence.parse.outputExchangeCount ∧
      ∃ exchanges, (loadDistillExchangeWindows unicode hashes source
          (List.range' 1 evidence.parse.outputExchangeCount)).mapM
            (decisionExchange (parseExchanges unicode observation.rawContent).exchanges) = .ok exchanges ∧
        result = { sourceRevision := source.revision hashes
                   semanticEvidence :=
                     { outputExchangeCount := evidence.parse.outputExchangeCount
                       challenge := evidence.challenge
                       content := if evidence.parse.outputExchangeCount = 0 then some observation.rawContent else none
                       contentSha256 := if evidence.parse.outputExchangeCount = 0
                         then some (sha256Of hashes observation.rawContent) else none }
                   semanticDecisionExchanges := exchanges } := by
  unfold compactPrepareResult at ran
  by_cases current : observation.sourceRevision = source.revision hashes
  · rw [Option.filter_some, if_pos (by simpa using current)] at ran
    dsimp only at ran
    split at ran
    · cases ran
    · next complete =>
      cases read : (loadDistillExchangeWindows unicode hashes source
          (List.range' 1 evidence.parse.outputExchangeCount)).mapM
            (decisionExchange (parseExchanges unicode observation.rawContent).exchanges) with
      | error reason =>
        rw [read] at ran
        cases ran
      | ok exchanges =>
        rw [read] at ran
        exact ⟨current, not_not.mp complete, exchanges, rfl, (Except.ok.inj ran).symm⟩
  · rw [Option.filter_some, if_neg (by simpa using current)] at ran
    cases ran

theorem loadDistillExchangeWindows_single {window : Window} {indexes : List Nat}
    (member : window ∈ loadDistillExchangeWindows unicode hashes source indexes) :
    loadDistillExchangeWindows unicode hashes source [window.exchangeIndex] = [window] := by
  unfold loadDistillExchangeWindows at member ⊢
  cases present : source.rendering with
  | none =>
    rw [present] at member
    cases member
  | some value =>
    rw [present] at member
    unfold renderDistillExchangeWindows at member ⊢
    obtain ⟨index, chosen, found⟩ := List.mem_filterMap.mp member
    have low := (mem_selected.mp chosen).2
    rw [window?_index found]
    have alone : selected [index] = [index] := by simp [selected, low]
    simp [alone, found]

theorem digests_recomputed
    (ran : compactPrepareResult unicode hashes source (some observation) evidence = .ok result) :
    ∀ exchange ∈ result.semanticDecisionExchanges,
      (loadDistillExchangeWindows unicode hashes source [exchange.exchangeIndex]).map (·.contentSha256) =
        [exchange.contentSha256] := by
  obtain ⟨-, -, exchanges, read, rfl⟩ := compactPrepareResult_eq_ok ran
  intro exchange member
  obtain ⟨window, cited, made⟩ := of_mem_mapM read member
  unfold decisionExchange at made
  split at made
  · cases made
  · obtain rfl := Except.ok.inj made
    rw [loadDistillExchangeWindows_single cited]
    rfl

/-- With exchanges in the evidence a result depends on the renderings by their exchanges alone. -/
theorem compactPrepareResult_congr {changed : Source} {other : StoredObservation} {shown : ProjectionSummary}
    (ran : compactPrepareResult unicode hashes source (some observation) evidence = .ok result)
    (present : evidence.parse.outputExchangeCount ≠ 0) (bytes : changed.bytes = source.bytes)
    (windows : ∀ indexes, loadDistillExchangeWindows unicode hashes changed indexes =
      loadDistillExchangeWindows unicode hashes source indexes)
    (revision : other.sourceRevision = observation.sourceRevision)
    (exchanges : (parseExchanges unicode other.rawContent).exchanges =
      (parseExchanges unicode observation.rawContent).exchanges)
    (challenge : shown.challenge = evidence.challenge)
    (count : shown.parse.outputExchangeCount = evidence.parse.outputExchangeCount) :
    compactPrepareResult unicode hashes changed (some other) shown = .ok result := by
  have same : changed.revision hashes = source.revision hashes := by
    unfold Source.revision
    rw [bytes]
  obtain ⟨current, complete, decided, read, rfl⟩ := compactPrepareResult_eq_ok ran
  unfold compactPrepareResult
  rw [Option.filter_some, if_pos (by simpa [revision, same] using current)]
  dsimp only
  rw [count, windows, if_neg (not_not.mpr complete), exchanges, read, if_neg present, if_neg present, if_neg present,
    if_neg present, challenge, same]
  rfl

theorem compactPrepareResult_succeeds (fresh : source.previous = none) {value : Text}
    (rendered : source.rendering = some value)
    (loaded : loadDistillSemanticEvidence unicode hashes countTokens source detailLevel budgetTokens = some evidence) :
    ∃ result, compactPrepareResult unicode hashes source (some ⟨source.revision hashes, value⟩) evidence = .ok result := by
  have count := evidence_counts fresh rendered loaded
  unfold compactPrepareResult
  rw [Option.filter_some, if_pos (by simp)]
  dsimp only
  rw [count, if_neg (not_not.mpr (windows_all rendered))]
  have reads : ∀ window ∈ loadDistillExchangeWindows unicode hashes source
      (List.range' 1 (parseExchanges unicode value).exchanges.length),
      ∃ exchange, decisionExchange (parseExchanges unicode value).exchanges window = .ok exchange := by
    intro window member
    unfold loadDistillExchangeWindows at member
    rw [rendered] at member
    obtain ⟨index, -, found⟩ := List.mem_filterMap.mp member
    have numbered := window?_index found
    unfold window? at found
    obtain ⟨exchange, here, -⟩ := Option.map_eq_some_iff.mp found
    unfold decisionExchange
    rw [numbered, here]
    exact ⟨_, rfl⟩
  obtain ⟨exchanges, read⟩ := exists_mapM_ok reads
  rw [read]
  exact ⟨_, rfl⟩

/-! ### A source that says something else -/

theorem counted_none : ∀ record ∈ (none : Option Lineage), Counted record.parseState := by simp

/-- A source whose rendering reads the same asks the same of a reviewer. -/
theorem source_with_rendering (loaded : loadDistillSemanticEvidence unicode hashes countTokens source detailLevel
      budgetTokens = some evidence) {other : Text} (filled : other ≠ [])
    (same : ∀ value ∈ source.rendering,
      (parseExchanges unicode other).exchanges = (parseExchanges unicode value).exchanges) :
    ∃ changed : Source, changed.rendering = some other ∧ changed.bytes = source.bytes ∧
      ∃ shown, loadDistillSemanticEvidence unicode hashes countTokens changed detailLevel budgetTokens = some shown ∧
        shown.challenge = evidence.challenge ∧ shown.parse.outputExchangeCount = evidence.parse.outputExchangeCount := by
  obtain ⟨value, present, challenge, count⟩ := evidence_asks loaded
  -- it is enough that the exchanges are the same
  suffices ∃ changed : Source, changed.rendering = some other ∧ changed.bytes = source.bytes ∧
      (changed.parsed unicode hashes other).exchanges = (source.parsed unicode hashes value).exchanges by
    obtain ⟨changed, rendered, bytes, exchanges⟩ := this
    obtain ⟨shown, loads⟩ := Option.isSome_iff_exists.mp
      (@loadDistillSemanticEvidence_isSome unicode hashes countTokens changed other rendered detailLevel budgetTokens)
    obtain ⟨text, renders, asks, counts⟩ := evidence_asks loads
    obtain rfl := Option.some.inj (rendered.symm.trans renders)
    refine ⟨changed, rendered, bytes, shown, loads, ?_, ?_⟩
    · rw [asks, challenge, exchanges]
    · rw [counts, count, changed.counted_parsed, source.counted_parsed, exchanges]
  cases reuse : reused unicode hashes value source.bytes source.previous source.previousBytes with
  | error reason =>
    -- the whole rendering was parsed, and so it is where nothing is known of an earlier revision
    refine ⟨⟨some other, source.bytes, source.sequenceCount, none, none, counted_none⟩, rfl, rfl, ?_⟩
    unfold Source.parsed
    rw [reuse]
    change ((parseExchanges unicode other).withHeader other).exchanges = ((parseExchanges unicode value).withHeader value).exchanges
    rw [exchanges_withHeader, exchanges_withHeader]
    exact same value present
  | ok parsed =>
    -- what was reused may be on record for the other rendering as well
    have recorded : ∃ record bytes, source.previous = some record ∧
        reuseAppendProjection unicode hashes value source.bytes record bytes = .ok parsed := by
      unfold reused at reuse
      split at reuse
      · cases reuse
      · cases reuse
      · next record bytes known _ => exact ⟨record, bytes, known, reuse⟩
    obtain ⟨record, bytes, known, reuse'⟩ := recorded
    have counted : Counted parsed := counted_reuse (source.counted record known) reuse'
    have grown : source.bytes ≠ [] := by
      rintro empty
      unfold reuseAppendProjection at reuse'
      dsimp only at reuse'
      rw [empty] at reuse'
      simp only [List.length_nil, Nat.zero_le, true_or, if_true] at reuse'
      repeat' split at reuse'
      all_goals cases reuse'
    let earlier : Lineage :=
      { record with
        recordVersion := distillIncrementalProjection
        sourceRevision := "sha256:" ++ hashes.sha256Bytes []
        sourceSha256 := hashes.sha256Bytes []
        coveredBoundary := { record.coveredBoundary with parserChars := other.length }
        parserPrefixSha256 := sha256Of hashes other
        projectionSha256 := sha256Of hashes (fullProjection unicode parsed.header parsed.exchanges other)
        parseState := parsed }
    refine ⟨⟨some other, source.bytes, source.sequenceCount, some earlier, some [], ?_⟩, rfl, rfl, ?_⟩
    · rintro found held
      obtain rfl := Option.some.inj held
      exact counted
    · have again : reuseAppendProjection unicode hashes other source.bytes earlier [] = .ok parsed := by
        unfold reuseAppendProjection
        simp [earlier, filled, grown]
      unfold Source.parsed
      rw [reuse]
      change (((reuseAppendProjection unicode hashes other source.bytes earlier []).toOption.getD
        (parseExchanges unicode other)).withHeader other).exchanges = (parsed.withHeader value).exchanges
      rw [again, exchanges_withHeader, exchanges_withHeader]
      rfl

theorem exists_header (header : Text) :
    ∃ c : Char, isSpace c = false ∧ (∀ role : Role, c ≠ role.initial) ∧ [c] ≠ header := by
  by_cases taken : header = ['x']
  · refine ⟨'y', by decide, fun role => by cases role <;> decide, ?_⟩
    rw [taken]
    decide
  · exact ⟨'x', by decide, fun role => by cases role <;> decide, Ne.symm taken⟩

theorem header_lost (decimal : unicode.isDecimal '\n' = false) {job : PreparedJob}
    (loaded : loadDistillSemanticEvidence unicode hashes countTokens job.source job.detailLevel job.budgetTokens =
      some evidence)
    (ran : compactPrepareResult unicode hashes job.source (some job.observation) evidence = .ok result)
    (present : evidence.parse.outputExchangeCount ≠ 0) :
    ∃ other : PreparedJob, other.Yields unicode hashes countTokens result ∧
      (parseExchanges unicode other.observation.rawContent).header ≠
        (parseExchanges unicode job.observation.rawContent).header := by
  obtain ⟨value, rendered, -, -⟩ := evidence_asks loaded
  obtain ⟨current, complete, decided, read, -⟩ := compactPrepareResult_eq_ok ran
  -- both texts have exchanges
  have filled : (parseExchanges unicode value).exchanges ≠ [] := by
    have many := windows_complete rendered complete
    rintro empty
    rw [empty] at many
    exact present (Nat.le_zero.mp many)
  have stored : (parseExchanges unicode job.observation.rawContent).exchanges ≠ [] := by
    intro empty
    cases windows : loadDistillExchangeWindows unicode hashes job.source
        (List.range' 1 evidence.parse.outputExchangeCount) with
    | nil =>
      rw [windows] at complete
      exact present complete.symm
    | cons window more =>
      rw [windows, empty] at read
      cases read
  obtain ⟨c, visible, apart, other_header⟩ := exists_header (parseExchanges unicode job.observation.rawContent).header
  obtain ⟨projected, reads⟩ := exists_relabelled decimal filled visible apart
  obtain ⟨text, texts⟩ := exists_relabelled decimal stored visible apart
  have nonempty : projected ≠ [] := by
    rintro rfl
    have exchanges := congrArg Parsed.exchanges reads
    exact filled exchanges.symm
  obtain ⟨changed, renders, bytes, shown, loads, challenge, count⟩ := source_with_rendering loaded nonempty (by
    intro other found
    obtain rfl := Option.some.inj (rendered.symm.trans found)
    rw [reads])
  refine ⟨⟨changed, ⟨job.observation.sourceRevision, text⟩, job.detailLevel, job.budgetTokens⟩, ⟨shown, loads, ?_⟩, ?_⟩
  · refine compactPrepareResult_congr ran present bytes ?_ rfl ?_ challenge count
    · intro indexes
      unfold loadDistillExchangeWindows renderDistillExchangeWindows
      rw [renders, rendered]
      dsimp only
      rw [reads]
    · rw [texts]
  · dsimp only
    rw [texts]
    exact other_header

def greeted : PreparedJob where
  source :=
    { rendering := some "Client: codex\n\nUser: hi".toList
      bytes := []
      sequenceCount := 1
      counted := counted_none }
  observation := ⟨Source.revision .spelled ⟨none, [], 1, none, none, counted_none⟩, "Client: codex\n\nUser: hi".toList⟩
  detailLevel := .compact
  budgetTokens := 3000

theorem greeted_prepared (countTokens : Text → Nat) : ∃ evidence result,
    loadDistillSemanticEvidence .ascii .spelled countTokens greeted.source greeted.detailLevel greeted.budgetTokens =
        some evidence ∧
      compactPrepareResult .ascii .spelled greeted.source (some greeted.observation) evidence = .ok result ∧
        evidence.parse.outputExchangeCount = 1 := by
  obtain ⟨evidence, loaded⟩ := Option.isSome_iff_exists.mp (@loadDistillSemanticEvidence_isSome .ascii .spelled
    countTokens greeted.source _ rfl greeted.detailLevel greeted.budgetTokens)
  obtain ⟨result, ran⟩ := compactPrepareResult_succeeds rfl rfl loaded
  have one : (parseExchanges .ascii "Client: codex\n\nUser: hi".toList).exchanges.length = 1 := by decide
  exact ⟨evidence, result, loaded, ran, (evidence_counts rfl rfl loaded).trans one⟩

end HarnessMem.Review
