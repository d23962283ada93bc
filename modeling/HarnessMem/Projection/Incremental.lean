import HarnessMem.Library.Lists
import HarnessMem.Projection.Grouping
import Mathlib.Data.List.TakeWhile

/-! When the projection of an appended text is the projection of the whole text.
A lineage record stands for the parts that were read one by one; the result is
that of one reading when nothing of what is read depends on the cuts.
-/

set_option autoImplicit false

namespace HarnessMem.Projection

open Library

variable (unicode : Unicode) (hashes : Hashes) (countTokens : Text → Nat)

def preamble (value : Text) : Text := ((parseExchanges unicode value).withHeader value).header

/-! ### The header in the outline -/

def headerFrame (header : Text) : Text :=
  if stripLeft header = [] then [] else stripLeft header ++ ['\n', '\n']

theorem headerFrame_injective {first second : Text} (same : headerFrame first = headerFrame second) :
    stripLeft first = stripLeft second := by
  unfold headerFrame at same
  split at same
  · next empty =>
    split at same
    · next other => rw [empty, other]
    · simp at same
  · split at same
    · simp at same
    · exact List.append_cancel_right same

theorem joinLines_cons_cons (first second : Text) (rest : List Text) :
    joinLines (first :: second :: rest) = first ++ '\n' :: joinLines (second :: rest) := by
  simp [joinLines, List.intercalate]

theorem renderExchanges_frame (exchanges : List Exchange) (projection : String) (profile : Option Profile) :
    ∃ body, ∀ header, renderExchanges unicode header exchanges projection profile = headerFrame header ++ body := by
  obtain ⟨first, title⟩ : ∃ first, ("Semantic projection: " ++ projection ++
      "; assistant progress and tool arguments are omitted. " ++
      "Use semantic windows and raw drilldown for candidate-grade proof.").toList = 'S' :: first := by
    simp only [String.toList_append]
    exact ⟨_, rfl⟩
  generalize others : (outlineLines unicode exchanges projection profile).drop 2 = rest
  have lines : outlineLines unicode exchanges projection profile = [] :: ('S' :: first) :: rest := by
    rw [← title, ← others]
    rfl
  obtain ⟨text, body⟩ : ∃ text, joinLines (('S' :: first) :: rest) = 'S' :: text := by
    cases rest with
    | nil => exact ⟨first, by simp [joinLines, List.intercalate]⟩
    | cons second more => exact ⟨_, by rw [joinLines_cons_cons]; rfl⟩
  refine ⟨stripRight ('S' :: text) ++ ['\n'], fun header => ?_⟩
  have visible : isSpace 'S' = false := by decide
  have newline : isSpace '\n' = true := by decide
  -- stripping on the right stops within the body, whatever stands before it
  have right : ∀ front, stripRight (front ++ 'S' :: text) = front ++ stripRight ('S' :: text) := by
    intro front
    unfold stripRight
    rw [List.reverse_append, dropWhile_append_visible isSpace ⟨'S', by simp, visible⟩, List.reverse_append,
      List.reverse_reverse]
  have stripped : ∀ whole, strip whole = stripRight (stripLeft whole) := fun whole => rfl
  unfold renderExchanges headerFrame
  rw [lines, stripped]
  by_cases empty : header = []
  · subst empty
    rw [if_pos rfl, List.nil_append, joinLines_cons_cons, body]
    simp [stripLeft, newline, visible]
  · rw [if_neg empty, List.singleton_append, joinLines_cons_cons, joinLines_cons_cons, body, List.nil_append]
    by_cases blank : stripLeft header = []
    · have all := List.dropWhile_eq_nil_iff.mp blank
      rw [if_pos blank]
      unfold stripLeft
      rw [List.dropWhile_append_of_pos all]
      simp [newline, visible]
    · have seen : ∃ c ∈ header, isSpace c = false := by
        by_contra none
        apply blank
        apply List.dropWhile_eq_nil_iff.mpr
        intro c member
        by_contra other
        exact none ⟨c, member, Bool.not_eq_true _ ▸ other⟩
      have left : stripLeft (header ++ '\n' :: '\n' :: 'S' :: text) =
          (stripLeft header ++ ['\n', '\n']) ++ 'S' :: text := by
        unfold stripLeft
        rw [dropWhile_append_visible isSpace seen]
        simp
      rw [if_neg blank, left, right, List.append_assoc]

/-- Two headers that show alike: with an exchange below them, leading blanks do not matter. -/
def ShownAlike (exchanges : List Exchange) (first second : Text) : Prop :=
  first = second ∨ (exchanges ≠ [] ∧ stripLeft first = stripLeft second)

theorem renderExchanges_alike {first second : Text} (same : stripLeft first = stripLeft second)
    (exchanges : List Exchange) (projection : String) (profile : Option Profile) :
    renderExchanges unicode first exchanges projection profile =
      renderExchanges unicode second exchanges projection profile := by
  obtain ⟨body, framed⟩ := renderExchanges_frame unicode exchanges projection profile
  rw [framed, framed, headerFrame, headerFrame, same]

theorem stripLeft_of_render {first second : Text} {exchanges : List Exchange} {projection : String}
    {profile : Option Profile}
    (same : renderExchanges unicode first exchanges projection profile =
      renderExchanges unicode second exchanges projection profile) : stripLeft first = stripLeft second := by
  obtain ⟨body, framed⟩ := renderExchanges_frame unicode exchanges projection profile
  rw [framed, framed] at same
  exact headerFrame_injective (List.append_cancel_right same)

theorem content_alike {first second : Parsed} (same : first.exchanges = second.exchanges)
    (alike : ShownAlike second.exchanges first.header second.header) (detailLevel : DetailLevel) (budgetTokens : Int) :
    (renderProjectionFromParsed unicode countTokens first detailLevel budgetTokens).1 =
      (renderProjectionFromParsed unicode countTokens second detailLevel budgetTokens).1 := by
  rcases alike with equal | ⟨shown, left⟩
  · unfold renderProjectionFromParsed
    rw [same, equal]
    cases detailLevel with
    | full => rfl
    | compact =>
      dsimp only
      split <;> rfl
  · unfold renderProjectionFromParsed
    rw [same]
    cases detailLevel with
    | full =>
      dsimp only
      rw [if_neg shown, if_neg shown, renderExchanges_alike unicode left]
    | compact =>
      dsimp only
      rw [if_neg shown, if_neg shown]
      simp only [renderExchanges_alike unicode left]

theorem content_empty {parsed : Parsed} (empty : parsed.exchanges = []) (detailLevel : DetailLevel)
    (budgetTokens : Int) :
    (renderProjectionFromParsed unicode countTokens parsed detailLevel budgetTokens).1 = parsed.header := by
  unfold renderProjectionFromParsed
  cases detailLevel with
  | full =>
    dsimp only
    rw [if_pos empty]
  | compact =>
    dsimp only
    rw [if_pos empty]

/-! ### Parse states and the parts they stand for -/

/-- A parse state made by reading the parts of a text one by one. -/
structure Summarizes (parts : List Text) (state : Parsed) : Prop where
  header : state.header = preamble unicode (parts.headD [])
  exchanges : state.exchanges = exchangesOf unicode (parts.flatMap (kept unicode))
  input : state.summary.inputMessageCount = (parts.flatMap (kept unicode)).length
  found : state.summary.inputMessageCount + state.summary.duplicateMessageCount =
    (parts.flatMap (messages unicode)).length
  unshown : state.summary.collapsedAssistantMessageCount + seams [] (parts.map (kept unicode)) =
    collapsed state.exchanges
  named : state.exchanges = [] → state.header = [] → parts.flatten = []

theorem withHeader_exchanges (parsed : Parsed) (value : Text) :
    (parsed.withHeader value).exchanges = parsed.exchanges := by
  unfold Parsed.withHeader
  split <;> rfl

theorem withHeader_summary (parsed : Parsed) (value : Text) :
    (parsed.withHeader value).summary = parsed.summary := by
  unfold Parsed.withHeader
  split <;> rfl

theorem summarizes_parse (value : Text) :
    Summarizes unicode [value] ((parseExchanges unicode value).withHeader value) := by
  obtain ⟨exchanges, input, found, collapsed⟩ := parseExchanges_kept unicode value
  constructor
  · rfl
  · simpa [withHeader_exchanges] using exchanges
  · simpa [withHeader_summary] using input
  · simpa [withHeader_summary] using found
  · simp [withHeader_exchanges, withHeader_summary, collapsed, exchanges, seams, leftOpen]
  · intro empty blank
    unfold Parsed.withHeader at empty blank
    split at blank
    · simpa using blank
    · next named =>
      rw [if_neg named] at empty
      exact absurd ⟨empty, blank⟩ named

variable {unicode} {parts : List Text} {state : Parsed}

theorem Summarizes.extend (summarizes : Summarizes unicode parts state) (present : parts ≠ [])
    (filled : parts.flatten ≠ []) (tail : Text) :
    Summarizes unicode (parts ++ [tail]) (extendParsed unicode state (parseExchanges unicode tail)) := by
  obtain ⟨exchanges, input, found, collapsed⟩ := parseExchanges_kept unicode tail
  obtain ⟨first, rest, rfl⟩ := List.exists_cons_of_ne_nil present
  have joined : (extendParsed unicode state (parseExchanges unicode tail)).exchanges =
      exchangesOf unicode (((first :: rest) ++ [tail]).flatMap (kept unicode)) := by
    unfold extendParsed
    dsimp only
    rw [summarizes.exchanges, exchanges, ← exchangesOf_append]
    simp
  constructor
  · exact summarizes.header
  · exact joined
  · have before := summarizes.input
    simp only [extendParsed, List.flatMap_append, List.flatMap_singleton, List.length_append]
    omega
  · have before := summarizes.found
    simp only [extendParsed, List.flatMap_append, List.flatMap_singleton, List.length_append]
    omega
  · have before := summarizes.unshown
    rw [joined, List.flatMap_append, collapsed_exchangesOf_append, ← summarizes.exchanges, List.map_append,
      List.map_singleton, seams_snoc]
    simp only [extendParsed, List.flatMap_singleton, List.nil_append, ← List.flatMap_def]
    omega
  · intro empty blank
    have known : state.exchanges = [] := by
      by_contra known
      exact extendExchanges_ne_nil known _ empty
    exact absurd (summarizes.named known blank) filled

theorem Summarizes.unchanged (summarizes : Summarizes unicode parts state) (present : parts ≠ []) :
    Summarizes unicode (parts ++ [[]]) state := by
  have nothing : messages unicode [] = [] := rfl
  have nobody : kept unicode [] = [] := rfl
  obtain ⟨first, rest, rfl⟩ := List.exists_cons_of_ne_nil present
  constructor
  · exact summarizes.header
  · simpa [nobody] using summarizes.exchanges
  · simpa [nobody] using summarizes.input
  · simpa [nothing] using summarizes.found
  · have before := summarizes.unshown
    rw [List.map_append, List.map_singleton, seams_snoc, nobody]
    simpa [opensWithAssistant] using before
  · simpa using summarizes.named

/-! ### Lineage records -/

/-- A lineage record that a build returned for a text and its native bytes, with the parts of the text
that were parsed one by one. -/
inductive Recorded (unicode : Unicode) (hashes : Hashes) (countTokens : Text → Nat) :
    Text → List UInt8 → Lineage → List Text → Prop where
  | full {value : Text} {bytes : List UInt8} {settings : Settings} {previous : Option Lineage}
      {previousBytes : Option (List UInt8)} {built : Built} :
      buildAppendAwareDistillProjection unicode hashes countTokens value (hashes.transcriptBytesRevision bytes) bytes
        settings previous previousBytes = .ok built →
      built.lineage.buildMode = .full → Recorded unicode hashes countTokens value bytes built.lineage [value]
  | append {value whole : Text} {bytes more : List UInt8} {record : Lineage} {parts : List Text} {settings : Settings}
      {built : Built} :
      Recorded unicode hashes countTokens value bytes record parts →
      buildAppendAwareDistillProjection unicode hashes countTokens whole (hashes.transcriptBytesRevision more) more
        settings (some record) (some bytes) = .ok built →
      built.lineage.buildMode = .append →
      Recorded unicode hashes countTokens whole more built.lineage (parts ++ [whole.drop value.length])

/-- What a record says of the text and the bytes it was built for. -/
structure Attests (unicode : Unicode) (hashes : Hashes) (value : Text) (bytes : List UInt8) (record : Lineage) :
    Prop where
  version : record.recordVersion = distillIncrementalProjection
  revision : record.sourceRevision = "sha256:" ++ hashes.sha256Bytes bytes
  source : record.sourceSha256 = hashes.sha256Bytes bytes
  boundary : record.coveredBoundary.parserChars = value.length
  parser : record.parserPrefixSha256 = sha256Of hashes value
  projection : record.projectionSha256 =
    sha256Of hashes (fullProjection unicode record.parseState.header record.parseState.exchanges value)

theorem sha256Of_injective (hashes : Hashes) : Function.Injective (sha256Of hashes) := by
  intro first second same
  exact String.ofList_injective (hashes.sha256Text_injective same)

variable {hashes : Hashes} {countTokens : Text → Nat} {value : Text} {bytes : List UInt8} {record : Lineage}
  {settings : Settings}

def SameCounts (first second : ParseSummary) : Prop :=
  first.inputMessageCount = second.inputMessageCount ∧ first.duplicateMessageCount = second.duplicateMessageCount ∧
    first.collapsedAssistantMessageCount = second.collapsedAssistantMessageCount

theorem counts_of_render (parsed : Parsed) (detailLevel : DetailLevel) (budgetTokens : Int) :
    SameCounts (renderProjectionFromParsed unicode countTokens parsed detailLevel budgetTokens).2.parse
      parsed.summary := by
  unfold renderProjectionFromParsed
  cases detailLevel with
  | full => exact ⟨rfl, rfl, rfl⟩
  | compact =>
    dsimp only
    split
    · exact ⟨rfl, rfl, rfl⟩
    · exact ⟨rfl, rfl, rfl⟩

structure Renders (unicode : Unicode) (hashes : Hashes) (countTokens : Text → Nat) (value : Text)
    (bytes : List UInt8) (settings : Settings) (parsed : Parsed) (built : Built) : Prop where
  content : built.content =
    (renderProjectionFromParsed unicode countTokens parsed settings.detailLevel settings.budgetTokens).1
  counts : SameCounts built.summary.parse parsed.summary
  state : built.lineage.parseState = parsed
  attests : Attests unicode hashes value bytes built.lineage

theorem build_succeeds (unicode : Unicode) (hashes : Hashes) (countTokens : Text → Nat) (value : Text)
    (bytes : List UInt8) (settings : Settings) (previous : Option Lineage) (previousBytes : Option (List UInt8)) :
    ∃ built, buildAppendAwareDistillProjection unicode hashes countTokens value (hashes.transcriptBytesRevision bytes)
      bytes settings previous previousBytes = .ok built :=
  ⟨_, if_neg (not_not.mpr rfl)⟩

theorem renders_of_build {previous : Option Lineage} {previousBytes : Option (List UInt8)} {built : Built}
    (ran : buildAppendAwareDistillProjection unicode hashes countTokens value (hashes.transcriptBytesRevision bytes)
      bytes settings previous previousBytes = .ok built) :
    Renders unicode hashes countTokens value bytes settings
        (((reused unicode hashes value bytes previous previousBytes).toOption.getD
          (parseExchanges unicode value)).withHeader value) built ∧
      built.lineage.buildMode =
        if (reused unicode hashes value bytes previous previousBytes).toOption.isSome then .append else .full := by
  obtain rfl := Except.ok.inj ((if_neg (not_not.mpr rfl)).symm.trans ran)
  refine ⟨⟨rfl, ?_, rfl, ⟨rfl, rfl, rfl, rfl, rfl, rfl⟩⟩, rfl⟩
  exact counts_of_render _ _ _

/-- Whether the appended text is read at all: a boundary at the start of the text, or an appended text
that shows no exchange and is not blank, makes the whole text be parsed. -/
def Reparsed (unicode : Unicode) (value tail : Text) : Prop :=
  value = [] ∨ ((parseExchanges unicode tail).exchanges = [] ∧ strip tail ≠ [])

instance (value tail : Text) : Decidable (Reparsed unicode value tail) :=
  inferInstanceAs (Decidable (_ ∨ _))

theorem reuse_recorded (attests : Attests unicode hashes value bytes record) {more : List UInt8}
    (grows : bytes <+: more) (longer : bytes.length < more.length) (tail : Text) :
    reuseAppendProjection unicode hashes (value ++ tail) more record bytes =
      if value = [] then .error "parser_boundary_invalid"
      else if tail = [] then .ok record.parseState
      else if (parseExchanges unicode tail).exchanges = [] ∧ strip tail ≠ [] then
        .error "appended_parser_tail_unparseable"
      else .ok (extendParsed unicode record.parseState (parseExchanges unicode tail)) := by
  have prefixed : ¬ (more.length ≤ bytes.length ∨ ¬ bytes <+: more) := by
    rintro (shorter | other)
    · omega
    · exact other grows
  have bounded : ¬ (value ++ tail).length < value.length := by
    rw [List.length_append]
    omega
  unfold reuseAppendProjection
  simp only [attests.version, attests.revision, attests.source, attests.boundary, attests.parser, attests.projection,
    prefixed, bounded, List.take_left, List.drop_left, ne_eq, not_true_eq_false, if_false, or_false,
    List.length_eq_zero_iff]

theorem prefix_of_reuse (attests : Attests unicode hashes value bytes record) {whole : Text}
    {more previousBytes : List UInt8} {parsed : Parsed}
    (reuse : reuseAppendProjection unicode hashes whole more record previousBytes = .ok parsed) :
    value <+: whole ∧ bytes <+: more ∧ bytes.length < more.length ∧ previousBytes = bytes := by
  unfold reuseAppendProjection at reuse
  simp only [attests.boundary, attests.parser, attests.revision, attests.source] at reuse
  split at reuse
  · cases reuse
  split at reuse
  · cases reuse
  split at reuse
  · cases reuse
  next same =>
  split at reuse
  · cases reuse
  next prefixed =>
  split at reuse
  · cases reuse
  split at reuse
  · cases reuse
  next parser =>
  have equal : bytes = previousBytes := hashes.digest_injective (not_not.mp same)
  rw [← equal, not_or, not_not, not_le] at prefixed
  refine ⟨?_, prefixed.2, prefixed.1, equal.symm⟩
  rw [← sha256Of_injective hashes (not_not.mp parser)]
  exact List.take_prefix _ _

theorem Summarizes.reused (summarizes : Summarizes unicode parts state) (present : parts ≠ [])
    (filled : parts.flatten ≠ []) (tail : Text) :
    Summarizes unicode (parts ++ [tail])
      (if tail = [] then state else extendParsed unicode state (parseExchanges unicode tail)) := by
  by_cases same : tail = []
  · rw [if_pos same, same]
    exact summarizes.unchanged present
  · rw [if_neg same]
    exact summarizes.extend present filled tail

theorem Summarizes.withHeader (summarizes : Summarizes unicode parts state) (filled : parts.flatten ≠ [])
    (value : Text) : state.withHeader value = state := by
  unfold Parsed.withHeader
  rw [if_neg]
  rintro ⟨empty, blank⟩
  exact filled (summarizes.named empty blank)

theorem Recorded.sound (recorded : Recorded unicode hashes countTokens value bytes record parts) :
    Attests unicode hashes value bytes record ∧ Summarizes unicode parts record.parseState ∧
      parts.flatten = value ∧ parts ≠ [] := by
  induction recorded with
  | @full value bytes settings previous previousBytes built ran mode =>
    obtain ⟨renders, modes⟩ := renders_of_build ran
    have missed : (Projection.reused unicode hashes value bytes previous previousBytes).toOption = none := by
      by_contra present
      rw [mode, if_pos (Option.isSome_iff_ne_none.mpr present)] at modes
      cases modes
    refine ⟨renders.attests, ?_, by simp, by simp⟩
    rw [renders.state, missed]
    exact summarizes_parse unicode value
  | @append value whole bytes more record parts settings built earlier ran mode ih =>
    obtain ⟨attests, summarizes, joined, present⟩ := ih
    obtain ⟨renders, modes⟩ := renders_of_build ran
    cases reuse : reuseAppendProjection unicode hashes whole more record bytes with
    | error reason =>
      rw [mode] at modes
      simp [Projection.reused, reuse, Except.toOption] at modes
    | ok parsed =>
      obtain ⟨⟨tail, rfl⟩, grows, longer, _⟩ := prefix_of_reuse attests reuse
      have state := renders.state
      rw [show Projection.reused unicode hashes (value ++ tail) more (some record) (some bytes) = .ok parsed from reuse]
        at state
      rw [reuse_recorded attests grows longer] at reuse
      split at reuse
      · cases reuse
      next filled =>
      rw [← joined] at filled
      have read := summarizes.reused present filled tail
      have same : parsed = if tail = [] then record.parseState
          else extendParsed unicode record.parseState (parseExchanges unicode tail) := by
        split at reuse
        · next empty => rw [if_pos empty, Except.ok.inj reuse]
        · next more =>
          split at reuse
          · cases reuse
          · rw [if_neg more, Except.ok.inj reuse]
      rw [← same] at read
      have whole : (parts ++ [tail]).flatten ≠ [] := by simp [filled]
      refine ⟨renders.attests, ?_, by simp [joined], by simp⟩
      rw [state]
      simpa [Except.toOption, read.withHeader whole] using read

/-! ### When the results agree -/

/-- The same content, the same digest, the same exchanges and the same counts. -/
structure Agree (first second : Built) : Prop where
  content : first.content = second.content
  projectionSha256 : first.lineage.projectionSha256 = second.lineage.projectionSha256
  exchanges : first.lineage.parseState.exchanges = second.lineage.parseState.exchanges
  counts : SameCounts first.summary.parse second.summary.parse

/-- Nothing of what is read of a text depends on where it is cut into parts. -/
structure Seamless (unicode : Unicode) (parts : List Text) : Prop where
  /-- The user and the assistant say in the whole what they say in the parts. -/
  conversation : Projection.conversation (kept unicode parts.flatten) =
    Projection.conversation (parts.flatMap (kept unicode))
  /-- The same tools are called, in the same order and between the same user texts. -/
  toolCalls : Projection.toolCalls (kept unicode parts.flatten) = Projection.toolCalls (parts.flatMap (kept unicode))
  /-- As many tool messages stay hidden. -/
  hidden : (kept unicode parts.flatten).countP Entry.hidden = (parts.flatMap (kept unicode)).countP Entry.hidden
  /-- The whole has as many labelled messages as its parts. -/
  labels : (messages unicode parts.flatten).length = (parts.flatMap (messages unicode)).length
  /-- No assistant text goes on with a turn of an earlier part that has one. -/
  unbroken : seams [] (parts.map (kept unicode)) = 0
  /-- The text before the exchanges of the first part shows as that of the whole. -/
  preamble : ShownAlike (exchangesOf unicode (kept unicode parts.flatten)) (Projection.preamble unicode (parts.headD []))
    (Projection.preamble unicode parts.flatten)

/-- Reading the parts agrees with reading the whole exactly where the cuts do not show. -/
theorem agree_iff_seamless {more : List UInt8} {appended full : Built} {read : Parsed}
    (summarizes : Summarizes unicode parts read)
    (first : Renders unicode hashes countTokens parts.flatten more settings read appended)
    (second : Renders unicode hashes countTokens parts.flatten more settings
      ((parseExchanges unicode parts.flatten).withHeader parts.flatten) full) :
    Agree appended full ↔ Seamless unicode parts := by
  have whole := summarizes_parse unicode parts.flatten
  generalize (parseExchanges unicode parts.flatten).withHeader parts.flatten = parsed at second whole
  obtain ⟨input₁, repeats₁, collapsed₁⟩ := first.counts
  obtain ⟨input₂, repeats₂, collapsed₂⟩ := second.counts
  have exchanges := whole.exchanges
  have header := whole.header
  have keptWhole := whole.input
  have foundWhole := whole.found
  have unshownWhole := whole.unshown
  simp only [List.flatMap_singleton, List.headD_cons, List.map_singleton] at exchanges header keptWhole foundWhole unshownWhole
  have alone : seams [] [kept unicode parts.flatten] = 0 := by simp [seams, leftOpen]
  have keptParts := summarizes.input
  have foundParts := summarizes.found
  have unshownParts := summarizes.unshown
  have lengthWhole := length_entries (kept unicode parts.flatten)
  have lengthParts := length_entries (parts.flatMap (kept unicode))
  constructor
  · intro agree
    obtain ⟨input, repeats, unshown⟩ := agree.counts
    have same := agree.exchanges
    rw [first.state, second.state] at same
    have streams : exchangesOf unicode (kept unicode parts.flatten) =
        exchangesOf unicode (parts.flatMap (kept unicode)) := by
      rw [← exchanges, ← summarizes.exchanges, same]
    obtain ⟨said, called⟩ := exchangesOf_eq_iff.mp streams
    constructor
    · exact said
    · exact called
    · rw [said, called] at lengthWhole
      omega
    · omega
    · rw [same] at unshownParts
      omega
    · rw [← exchanges, ← header, ← summarizes.header]
      by_cases empty : parsed.exchanges = []
      · have content := agree.content
        rw [first.content, second.content, content_empty unicode countTokens (same.trans empty),
          content_empty unicode countTokens empty] at content
        exact .inl content
      · have digest := agree.projectionSha256
        rw [first.attests.projection, second.attests.projection, first.state, second.state] at digest
        have rendered := sha256Of_injective hashes digest
        unfold fullProjection at rendered
        rw [same, if_neg empty, if_neg empty] at rendered
        exact .inr ⟨empty, stripLeft_of_render unicode rendered⟩
  · intro seamless
    have streams : exchangesOf unicode (kept unicode parts.flatten) =
        exchangesOf unicode (parts.flatMap (kept unicode)) :=
      exchangesOf_eq_iff.mpr ⟨seamless.conversation, seamless.toolCalls⟩
    have same : read.exchanges = parsed.exchanges := by
      rw [exchanges, summarizes.exchanges, streams]
    have alike : ShownAlike parsed.exchanges read.header parsed.header := by
      rw [exchanges, header, summarizes.header]
      exact seamless.preamble
    have hidden := seamless.hidden
    have labels := seamless.labels
    have unbroken := seamless.unbroken
    rw [seamless.conversation, seamless.toolCalls] at lengthWhole
    constructor
    · rw [first.content, second.content]
      exact content_alike unicode countTokens same alike _ _
    · rw [first.attests.projection, second.attests.projection, first.state, second.state]
      unfold fullProjection
      rw [same]
      by_cases empty : parsed.exchanges = []
      · rw [if_pos empty, if_pos empty]
      · rw [if_neg empty, if_neg empty]
        rcases alike with equal | ⟨_, left⟩
        · rw [equal]
        · rw [renderExchanges_alike unicode left]
    · rw [first.state, second.state]
      exact same
    · rw [same] at unshownParts
      refine ⟨?_, ?_, ?_⟩
      · omega
      · omega
      · omega

theorem Recorded.renders (recorded : Recorded unicode hashes countTokens value bytes record parts)
    {more : List UInt8} (grows : bytes <+: more) (longer : bytes.length < more.length) {tail : Text}
    (reads : ¬ Reparsed unicode value tail) {appended : Built}
    (ran : buildAppendAwareDistillProjection unicode hashes countTokens (value ++ tail)
      (hashes.transcriptBytesRevision more) more settings (some record) (some bytes) = .ok appended) :
    Renders unicode hashes countTokens (value ++ tail) more settings
      (if tail = [] then record.parseState
        else extendParsed unicode record.parseState (parseExchanges unicode tail)) appended := by
  obtain ⟨attests, summarizes, joined, present⟩ := recorded.sound
  have filled : value ≠ [] := fun empty => reads (.inl empty)
  have unread : ¬ ((parseExchanges unicode tail).exchanges = [] ∧ strip tail ≠ []) :=
    fun unread => reads (.inr unread)
  have read := summarizes.reused present (joined ▸ filled) tail
  have nonempty : (parts ++ [tail]).flatten ≠ [] := by simp [joined, filled]
  have reuse : reused unicode hashes (value ++ tail) more (some record) (some bytes) =
      .ok (if tail = [] then record.parseState
        else extendParsed unicode record.parseState (parseExchanges unicode tail)) := by
    unfold reused
    dsimp only
    rw [reuse_recorded attests grows longer, if_neg filled, if_neg unread]
    split <;> rfl
  have renders := (renders_of_build ran).1
  rw [reuse] at renders
  simpa only [Except.toOption, Option.getD_some, read.withHeader nonempty] using renders

def sampleEarlier : Text := "# Session\n\nUser: a\n\nAssistant: b\n\n".toList

def sampleBuild (value : Text) (bytes : List UInt8) (previous : Option Lineage) (previousBytes : Option (List UInt8)) :
    Except StoreError Built :=
  buildAppendAwareDistillProjection .ascii .spelled List.length value (Hashes.spelled.transcriptBytesRevision bytes)
    bytes {} previous previousBytes

theorem sampleEarlier_recorded :
    ∃ record, Recorded .ascii .spelled List.length sampleEarlier [1] record [sampleEarlier] := by
  obtain ⟨built, ran⟩ := build_succeeds .ascii .spelled List.length sampleEarlier [1] {} none none
  exact ⟨built.lineage, .full ran (renders_of_build ran).2⟩

end HarnessMem.Projection
