import HarnessMem.Review.Schemas
import Mathlib.Data.List.Dedup

/-! What a reviewer is given: the evidence of a source revision, the exchanges a
verdict without candidates has to cite, and the template of its answers.
-/

set_option autoImplicit false

namespace HarnessMem.Review

open Library Projection

variable (unicode : Unicode) (hashes : Hashes) (countTokens : Text → Nat)

def Counted (parsed : Parsed) : Prop := parsed.summary.outputExchangeCount = parsed.exchanges.length

/-- One revision of a source as the ledger and the observations hold it, with the projection that was
stored for an earlier revision. -/
structure Source where
  /-- The parser's text of the revision, where the observation is there and current. -/
  rendering : Option Text
  bytes : List UInt8
  sequenceCount : Int
  previous : Option Lineage := none
  previousBytes : Option (List UInt8) := none
  counted : ∀ record ∈ previous, Counted record.parseState

def Source.revision (source : Source) : String := hashes.transcriptBytesRevision source.bytes

def loadDistillSemanticEvidence (source : Source) (detailLevel : DetailLevel) (budgetTokens : Int) :
    Option ProjectionSummary :=
  source.rendering.bind fun value =>
    (buildAppendAwareDistillProjection unicode hashes countTokens value (source.revision hashes) source.bytes
      { coveredSequenceCount := source.sequenceCount, detailLevel, budgetTokens } source.previous
      source.previousBytes).toOption.map (·.summary)

structure Window where
  exchangeIndex : Nat
  contentSha256 : String
  riskFlags : List RiskFlag
  memorySignals : List MemorySignal
  content : Text

def Window.ref (window : Window) : ExchangeRef := ⟨window.exchangeIndex, window.contentSha256⟩

def window? (exchanges : List Exchange) (index : Nat) : Option Window :=
  (exchanges[index - 1]?).map fun exchange =>
    let content := renderExchange unicode index exchange none
    { exchangeIndex := index, contentSha256 := sha256Of hashes content, riskFlags := exchange.riskFlags
      memorySignals := exchange.memorySignals, content }

/-- `sorted({int(index) for index in indexes if int(index) >= 1})`. -/
def selected (indexes : List Nat) : List Nat := (indexes.filter (1 ≤ ·)).dedup.mergeSort

def renderDistillExchangeWindows (value : Text) (indexes : List Nat) : List Window :=
  (selected indexes).filterMap
    (window? unicode hashes (parseExchanges unicode value).exchanges)

def loadDistillExchangeWindows (source : Source) (indexes : List Nat) : List Window :=
  match source.rendering with
  | none => []
  | some value => renderDistillExchangeWindows unicode hashes value indexes

def detected (evidence : ProjectionSummary) (check : CheckName) : Bool :=
  evidence.challenge.requiredExchangeReasons.any fun reasons => check.name ∈ reasons.2

/-- The template of `_attach_semantic_decision_bundle`. -/
def challengeTemplate (sourceRevision : String) (evidence : ProjectionSummary) (refs : List ExchangeRef) :
    ZeroCandidateChallenge :=
  let requiresCandidate := CheckName.sorted.any (detected evidence)
  { sourceRevision
    evidenceFidelity := .complete
    futureUtility := if requiresCandidate then .durable else .sessionOnly
    checks := fun check => if detected evidence check then .candidateRequired else .absent
    inspectedExchangeRefs := refs
    conclusion := if requiresCandidate then .candidateRequired else .noDurableCandidate
    rationale :=
      if requiresCandidate then "Detected memory-value signals require a scoped candidate or handoff."
      else "Bundled decision exchanges contain no durable candidate after review." }

/-- What the worker keeps of a prepared packet; the manifest for the provider hands it on. -/
structure Packet where
  semanticDecisionExchanges : List ExchangeRef := []
  zeroCandidateExchangeRefs : List ExchangeRef := []
  zeroCandidateChallengeTemplate : Option ZeroCandidateChallenge := none

/-- The preparation of `_run_one_core`: `tool_prepare_session_distill` followed by
`_compact_prepare_result`. Without current evidence, or where another process holds raw chunks and the job
does not reach its review, the packet is the raw one. -/
def preparePacket (source : Source) (detailLevel : DetailLevel) (budgetTokens : Int) (reviewing : Bool) :
    Except String Packet :=
  match loadDistillSemanticEvidence unicode hashes countTokens source detailLevel budgetTokens with
  | none => .ok {}
  | some evidence =>
    if !reviewing then .ok {}
    else
      let refs := (loadDistillExchangeWindows unicode hashes source
        evidence.challenge.requiredExchangeIndexes).map Window.ref
      let count := evidence.parse.outputExchangeCount
      let windows := loadDistillExchangeWindows unicode hashes source (List.range' 1 count)
      if windows.length ≠ count then .error "complete exchange references are unavailable"
      else .ok
        { semanticDecisionExchanges := windows.map Window.ref
          zeroCandidateExchangeRefs := refs
          zeroCandidateChallengeTemplate := some (challengeTemplate (source.revision hashes) evidence refs) }

variable {unicode : Unicode} {hashes : Hashes} {countTokens : Text → Nat} {source : Source} {detailLevel : DetailLevel}
  {budgetTokens : Int} {evidence : ProjectionSummary}

/-! ### The evidence of a revision -/

def Source.parsed (unicode : Unicode) (hashes : Hashes) (source : Source) (value : Text) : Parsed :=
  ((reused unicode hashes value source.bytes source.previous source.previousBytes).toOption.getD
    (parseExchanges unicode value)).withHeader value

theorem rendered_challenge (parsed : Parsed) (detailLevel : DetailLevel) (budgetTokens : Int) :
    (renderProjectionFromParsed unicode countTokens parsed detailLevel budgetTokens).2.challenge =
        zeroCandidateChallengeManifest parsed.exchanges ∧
      (renderProjectionFromParsed unicode countTokens parsed detailLevel budgetTokens).2.parse.outputExchangeCount =
        parsed.summary.outputExchangeCount := by
  unfold renderProjectionFromParsed
  cases detailLevel with
  | full => exact ⟨rfl, rfl⟩
  | compact =>
    dsimp only
    split
    · exact ⟨rfl, rfl⟩
    · exact ⟨rfl, rfl⟩

theorem Source.builds (source : Source) (value : Text) (settings : Settings) :
    ∃ built, buildAppendAwareDistillProjection unicode hashes countTokens value (source.revision hashes) source.bytes
      settings source.previous source.previousBytes = .ok built :=
  ⟨_, if_neg (not_not.mpr rfl)⟩

theorem evidence_asks (loaded : loadDistillSemanticEvidence unicode hashes countTokens source detailLevel budgetTokens =
      some evidence) :
    ∃ value, source.rendering = some value ∧
      evidence.challenge = zeroCandidateChallengeManifest (source.parsed unicode hashes value).exchanges ∧
      evidence.parse.outputExchangeCount = (source.parsed unicode hashes value).summary.outputExchangeCount := by
  unfold loadDistillSemanticEvidence at loaded
  obtain ⟨value, present, shown⟩ := Option.bind_eq_some_iff.mp loaded
  refine ⟨value, present, ?_⟩
  obtain ⟨built, ran⟩ := @Source.builds unicode hashes countTokens source value
    { coveredSequenceCount := source.sequenceCount, detailLevel, budgetTokens }
  rw [ran] at shown
  obtain rfl := Option.some.inj shown
  obtain rfl := Except.ok.inj ((if_neg (not_not.mpr rfl)).symm.trans ran)
  exact rendered_challenge _ _ _

theorem loadDistillSemanticEvidence_isSome {value : Text} (present : source.rendering = some value)
    (detailLevel : DetailLevel) (budgetTokens : Int) :
    (loadDistillSemanticEvidence unicode hashes countTokens source detailLevel budgetTokens).isSome := by
  obtain ⟨built, ran⟩ := @Source.builds unicode hashes countTokens source value
    { coveredSequenceCount := source.sequenceCount, detailLevel, budgetTokens }
  unfold loadDistillSemanticEvidence
  rw [present, Option.bind_some, ran]
  rfl

/-! ### Counting exchanges -/

theorem counted_parseExchanges (value : Text) : Counted (parseExchanges unicode value) := by
  unfold Counted parseExchanges
  split <;> rfl

theorem Counted.withHeader {parsed : Parsed} (counted : Counted parsed) (value : Text) :
    Counted (parsed.withHeader value) := by
  unfold Parsed.withHeader
  split
  · exact counted
  · exact counted

variable {value : Text}

theorem counted_reuse {bytes previousBytes : List UInt8} {record : Lineage} {parsed : Parsed}
    (counted : Counted record.parseState)
    (reuse : reuseAppendProjection unicode hashes value bytes record previousBytes = .ok parsed) : Counted parsed := by
  unfold reuseAppendProjection at reuse
  dsimp only at reuse
  -- every check but the last two refuses
  repeat' split at reuse
  all_goals cases reuse
  · exact counted
  · rfl

theorem Source.counted_parsed (source : Source) (value : Text) : Counted (source.parsed unicode hashes value) := by
  apply Counted.withHeader
  cases reuse : reused unicode hashes value source.bytes source.previous source.previousBytes with
  | error reason => exact counted_parseExchanges value
  | ok parsed =>
    unfold reused at reuse
    split at reuse
    · cases reuse
    · cases reuse
    · next record bytes present known =>
      exact counted_reuse (source.counted _ present) reuse

/-! ### The exchanges that have to be cited -/

variable {exchanges : List Exchange} {index : Nat}

theorem indexesOf_bounds {has : Exchange → Bool}
    (member : index ∈ indexesOf exchanges has) : 1 ≤ index ∧ index ≤ exchanges.length := by
  unfold indexesOf at member
  obtain ⟨numbered, inside, shown⟩ := List.mem_filterMap.mp member
  obtain ⟨at_least, below, -⟩ := List.mem_zipIdx inside
  split at shown
  · cases shown
    omega
  · cases shown

theorem required_bounds (member : index ∈ (zeroCandidateChallengeManifest exchanges).requiredExchangeIndexes) :
    1 ≤ index ∧ index ≤ exchanges.length := by
  unfold zeroCandidateChallengeManifest at member
  split at member
  · cases member
  · next filled =>
    have present : 0 < exchanges.length := List.length_pos_of_ne_nil filled
    simp only [List.mem_mergeSort, List.mem_eraseDups, List.cons_append, List.mem_cons, List.mem_append,
      List.mem_filterMap, Option.mem_toList] at member
    rcases member with rfl | ⟨⟨signal, -, last⟩ | first⟩ | last
    · omega
    · exact indexesOf_bounds (List.mem_of_getLast? last)
    · exact indexesOf_bounds (List.mem_of_head? first)
    · exact indexesOf_bounds (List.mem_of_getLast? last)

/-! ### Windows -/

theorem window?_isSome (low : 1 ≤ index) :
    (window? unicode hashes exchanges index).isSome ↔ index ≤ exchanges.length := by
  unfold window?
  rw [Option.isSome_map, isSome_getElem?]
  omega

theorem window?_index {window : Window}
    (found : window? unicode hashes exchanges index = some window) : window.exchangeIndex = index := by
  unfold window? at found
  obtain ⟨exchange, -, rfl⟩ := Option.map_eq_some_iff.mp found
  rfl

theorem mem_selected {indexes : List Nat} : index ∈ selected indexes ↔ index ∈ indexes ∧ 1 ≤ index := by
  unfold selected
  rw [List.mem_mergeSort, List.mem_dedup, List.mem_filter, decide_eq_true_eq]

theorem selected_nodup (indexes : List Nat) : (selected indexes).Nodup :=
  (List.mergeSort_perm _ _).nodup_iff.mpr (List.nodup_dedup _)

theorem windows_indexes (exchanges : List Exchange) (indexes : List Nat) :
    (indexes.filterMap (window? unicode hashes exchanges)).map (·.exchangeIndex) =
      indexes.filter fun index => (window? unicode hashes exchanges index).isSome := by
  induction indexes with
  | nil => rfl
  | cons index indexes ih =>
    cases found : window? unicode hashes exchanges index with
    | none => simp [found, ih]
    | some window => simp [found, ih, window?_index found]

theorem windows_complete {count : Nat} (present : source.rendering = some value)
    (complete : (loadDistillExchangeWindows unicode hashes source (List.range' 1 count)).length = count) :
    count ≤ (parseExchanges unicode value).exchanges.length := by
  by_contra short
  -- the last index would have no window
  have kept := @windows_indexes unicode hashes (parseExchanges unicode value).exchanges
    (selected (List.range' 1 count))
  have chosen : (selected (List.range' 1 count)).length ≤ count := by
    have perm : (selected (List.range' 1 count)).length = ((List.range' 1 count).filter (1 ≤ ·)).dedup.length :=
      (List.mergeSort_perm _ _).length_eq
    have fewer := (List.dedup_sublist ((List.range' 1 count).filter (1 ≤ ·))).length_le
    have filtered := List.length_filter_le (fun index => decide (1 ≤ index)) (List.range' 1 count)
    rw [List.length_range'] at filtered
    omega
  have all : (selected (List.range' 1 count)).filter (fun index =>
      (window? unicode hashes (parseExchanges unicode value).exchanges index).isSome) = selected (List.range' 1 count) := by
    apply List.filter_sublist.eq_of_length_le
    have sizes := congrArg List.length kept
    unfold loadDistillExchangeWindows renderDistillExchangeWindows at complete
    rw [present] at complete
    rw [List.length_map] at sizes
    rw [← sizes]
    exact chosen.trans complete.symm.le
  have last : count ∈ selected (List.range' 1 count) := by
    rw [mem_selected, List.mem_range'_1]
    omega
  rw [← all, List.mem_filter, window?_isSome (by omega)] at last
  exact short last.2

theorem windows_all (present : source.rendering = some value) :
    (loadDistillExchangeWindows unicode hashes source
      (List.range' 1 (parseExchanges unicode value).exchanges.length)).length =
        (parseExchanges unicode value).exchanges.length := by
  have kept := congrArg List.length (@windows_indexes unicode hashes
    (parseExchanges unicode value).exchanges (selected (List.range' 1 (parseExchanges unicode value).exchanges.length)))
  rw [List.length_map] at kept
  unfold loadDistillExchangeWindows renderDistillExchangeWindows
  rw [present]
  dsimp only
  rw [kept, List.filter_eq_self.mpr]
  · have perm := (List.mergeSort_perm ((List.range' 1 (parseExchanges unicode value).exchanges.length).filter
      (1 ≤ ·)).dedup (fun first second => decide (first ≤ second))).length_eq
    unfold selected
    rw [perm, List.filter_eq_self.mpr, List.dedup_eq_self.mpr List.nodup_range', List.length_range']
    intro index member
    exact decide_eq_true (List.mem_range'_1.mp member).1
  · intro index member
    have bounds := List.mem_range'_1.mp (mem_selected.mp member).1
    rw [window?_isSome bounds.1]
    omega

theorem exchanges_withHeader (parsed : Parsed) (value : Text) : (parsed.withHeader value).exchanges = parsed.exchanges := by
  unfold Parsed.withHeader
  split <;> rfl

theorem evidence_counts (fresh : source.previous = none) (present : source.rendering = some value)
    (loaded : loadDistillSemanticEvidence unicode hashes countTokens source detailLevel budgetTokens = some evidence) :
    evidence.parse.outputExchangeCount = (parseExchanges unicode value).exchanges.length := by
  obtain ⟨text, rendered, -, count⟩ := evidence_asks loaded
  obtain rfl := Option.some.inj (present.symm.trans rendered)
  have whole : source.parsed unicode hashes value = (parseExchanges unicode value).withHeader value := by
    unfold Source.parsed reused
    rw [fresh]
    rfl
  have counted := @Source.counted_parsed unicode hashes source value
  rw [count, counted, whole, exchanges_withHeader]

theorem preparePacket_succeeds (fresh : source.previous = none) (detailLevel : DetailLevel) (budgetTokens : Int)
    (reviewing : Bool) :
    ∃ packet, preparePacket unicode hashes countTokens source detailLevel budgetTokens reviewing = .ok packet := by
  unfold preparePacket
  split
  · exact ⟨_, rfl⟩
  · next evidence loaded =>
    split
    · exact ⟨_, rfl⟩
    · obtain ⟨value, present, -⟩ := evidence_asks loaded
      rw [evidence_counts fresh present loaded, if_neg]
      · exact ⟨_, rfl⟩
      · exact not_not.mpr (windows_all present)

end HarnessMem.Review
