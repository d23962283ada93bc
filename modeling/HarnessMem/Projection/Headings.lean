import HarnessMem.Chunking.Chunker
import HarnessMem.Library.Sections
import HarnessMem.Projection.Append
import HarnessMem.Projection.Labels

/-! The compact outline of a transcript, and how it is split again at the headings
of its exchanges.
-/

set_option autoImplicit false

namespace HarnessMem.Projection

open Library Library.Regex TranscriptChunking

variable (unicode : Unicode)

def buildDistillCompactOutline (countTokens : Text → Nat) (value : Text) (budgetTokens : Int) : Text × RenderSummary :=
  let parsed := parseExchanges unicode value
  let target := budgetTarget budgetTokens
  let challenge := zeroCandidateChallengeManifest parsed.exchanges
  if parsed.exchanges = [] then
    (value,
      { parse := parsed.summary, challenge, detailLevel := .full, budgetTokens := target
        outputTokens := some (countTokens value), budgetState := "full_fallback"
        budgetReason := some "parser rendering has no exchange boundaries" })
  else
    let (content, outputTokens) := fitProfiles countTokens target
      (fun profile => renderExchanges unicode parsed.header parsed.exchanges distillCompactProjection (some profile))
      profiles
    (content,
      { parse := { parsed.summary with projection := distillCompactProjection }
        challenge
        detailLevel := .compact
        exchangeCount := some parsed.exchanges.length
        riskExchangeCount := some (parsed.exchanges.countP fun exchange => !exchange.riskFlags.isEmpty)
        budgetTokens := target
        outputTokens := some outputTokens
        budgetState := if outputTokens ≤ target then "within_budget" else "expanded_for_manifest"
        budgetReason := if outputTokens ≤ target then none
          else some "the minimum complete indexed manifest exceeds the advisory budget" })

/-- `_SEMANTIC_EXCHANGE_HEADING_RE`: `(?m)^## E\d+\b[^\n]*$`. -/
def semanticExchangeHeadingRe : Regex :=
  cat [lineStart, literal "## E", plus (one unicode.isDecimal), wordBoundary unicode.isWord,
    star (one fun c => !isNewline c), lineEnd]

def exchangeUnits : Nat → Nat → List (Match × Text) → List TranscriptLogicalUnit
  | _, _, [] => []
  | start, index, (heading, body) :: rest =>
    { charStart := start
      charEnd := start + (heading.text ++ body).length
      unitId := s!"exchange-{index}"
      kind := "tool-exchange" } :: exchangeUnits (start + (heading.text ++ body).length) (index + 1) rest

def semanticUnits (value : Text) : Option (List TranscriptLogicalUnit) :=
  match (semanticExchangeHeadingRe unicode).pieces none 0 value with
  | (_, []) => none
  | (front, found) =>
    some ((if 0 < front.length then [⟨0, front.length, "semantic-header", "manifest-header"⟩] else []) ++
      exchangeUnits front.length 1 found)

end HarnessMem.Projection

/-! Where a text is split at the headings of exchanges: a heading makes up a line, and
any line of its form is taken for one.
-/

namespace HarnessMem.Projection

open Library Regex

/-- What is documented of the tables: they extend those of ASCII, a decimal is part of a word and a blank is not. -/
structure Unicode.Standard (unicode : Unicode) : Prop where
  ascii : ∀ c : Char, c.toNat < 128 →
    unicode.isWord c = Unicode.ascii.isWord c ∧ unicode.isDecimal c = Unicode.ascii.isDecimal c
  decimal : ∀ c, unicode.isDecimal c → unicode.isWord c
  space : ∀ c, isSpace c → unicode.isWord c = false

theorem ascii_standard : Unicode.ascii.Standard where
  ascii _ _ := ⟨rfl, rfl⟩
  decimal c digit := by
    have digit : c.isDigit = true := digit
    simp [Unicode.ascii, Char.isAlphanum, digit]
  space c blank := by
    by_contra word
    have same : c.toNat = c.val.toNat := rfl
    have bounds : '0'.val.toNat = 48 ∧ '9'.val.toNat = 57 := by decide
    simp only [Unicode.ascii, Char.isAlphanum, isAlpha_iff, Char.isDigit,
      Bool.not_eq_false, Bool.or_eq_true, Bool.and_eq_true, decide_eq_true_eq, beq_iff_eq, ge_iff_le,
      UInt32.le_iff_toNat_le] at word
    rcases word with word | rfl
    · simp only [isSpace, Bool.or_eq_true, Bool.and_eq_true, decide_eq_true_eq, beq_iff_eq] at blank
      omega
    · exact absurd blank (by decide)

def ExchangeHeading (unicode : Unicode) (line : Text) : Prop :=
  ∃ digits more, line = "## E".toList ++ (digits ++ more) ∧ digits ≠ [] ∧ (∀ c ∈ digits, unicode.isDecimal c) ∧
    ∀ c ∈ more.head?, unicode.isWord c = false

section
variable {unicode : Unicode} (standard : unicode.Standard)
include standard

theorem newline_apart : unicode.isWord '\n' = false := standard.space '\n' (by decide)

theorem digits_unbroken {digits : Text} (decimal : ∀ c ∈ digits, unicode.isDecimal c) : '\n' ∉ digits := by
  intro inside
  have word := standard.decimal _ (decimal _ inside)
  rw [newline_apart standard] at word
  cases word

theorem boundary_iff {digits : Text} (filled : digits ≠ []) (decimal : ∀ c ∈ digits, unicode.isDecimal c) (before : Option Char)
    (rest : Text) : ((digits.getLast?.or before).any unicode.isWord != rest.head?.any unicode.isWord) = true ↔
      ∀ c ∈ rest.head?, unicode.isWord c = false := by
  have word : (digits.getLast?.or before).any unicode.isWord = true := by
    rw [List.getLast?_eq_some_getLast filled]
    exact standard.decimal _ (decimal _ (List.getLast_mem filled))
  rw [word]
  cases rest.head? <;> simp

end

section
variable {unicode : Unicode}

theorem semanticExchangeHeadingRe_parts (place : Place) :
    (semanticExchangeHeadingRe unicode).ends place = (lineStart.ends place).flatMap fun start =>
      ((literal "## E").ends start).flatMap fun named => ((plus (one unicode.isDecimal)).ends named).flatMap fun numbered =>
        ((wordBoundary unicode.isWord).ends numbered).flatMap fun bounded =>
          ((star (one fun c => !isNewline c)).ends bounded).flatMap fun filled =>
            (lineEnd.ends filled).flatMap fun last => [last] := rfl

theorem notNewline_iff {run : Text} : (∀ c ∈ run, (!isNewline c) = true) ↔ '\n' ∉ run := by
  simp only [isNewline, Bool.not_eq_true', beq_eq_false_iff_ne]
  exact ⟨fun apart inside => apart _ inside rfl, fun apart c inside same => apart (same ▸ inside)⟩

variable (standard : unicode.Standard)
include standard

theorem of_mem_ends_heading {place stop : Place} (member : stop ∈ (semanticExchangeHeadingRe unicode).ends place) :
    place.before.all (· == '\n') ∧ EndsLine stop.rest ∧ stop.groups = place.groups ∧
      ∃ line, place.rest = line ++ stop.rest ∧ '\n' ∉ line ∧ ExchangeHeading unicode line := by
  rw [semanticExchangeHeadingRe_parts] at member
  simp only [List.mem_flatMap, mem_ends_literal, mem_ends_plus_one, mem_ends_star_one, List.mem_singleton] at member
  obtain ⟨start, starts, _, ⟨named, shape, rfl⟩, numbered, ⟨digits, filled, digital, decimal, reached⟩, bounded, bound,
    last, ⟨more, whole, unbroken, reached'⟩, _, ends_, rfl⟩ := member
  obtain ⟨first, rfl⟩ := mem_ends_check.mp starts
  obtain ⟨word, rfl⟩ := mem_ends_check.mp bound
  obtain ⟨final, rfl⟩ := mem_ends_check.mp ends_
  rw [Place.past_rest] at digital
  rw [whole] at digital
  have before : bounded.before = digits.getLast?.or ("## E".toList.getLast?.or start.before) := by
    rw [reached]
    rfl
  rw [before, boundary_iff standard filled decimal] at word
  have bare := notNewline_iff.mp unbroken
  refine ⟨first, endsLine_iff.mp final, ?_, "## E".toList ++ (digits ++ more), ?_, ?_, digits, more, rfl, filled, decimal, ?_⟩
  · rw [reached', reached]
    rfl
  · rw [shape, digital]
    simp only [List.append_assoc]
  · simp [digits_unbroken standard decimal, bare]
  · intro c inside
    refine word c ?_
    rw [whole]
    cases more with
    | nil => cases inside
    | cons d more => exact inside

theorem heading_ends {place : Place} {line rest : Text} (starts : place.before.all (· == '\n')) (last : EndsLine rest)
    (unbroken : '\n' ∉ line) (heading : ExchangeHeading unicode line) (whole : place.rest = line ++ rest) :
    ∃ stop, stop ∈ (semanticExchangeHeadingRe unicode).ends place := by
  obtain ⟨digits, more, rfl, filled, decimal, apart⟩ := heading
  rw [List.append_assoc, List.append_assoc] at whole
  rw [semanticExchangeHeadingRe_parts]
  simp only [List.mem_flatMap, mem_ends_literal, mem_ends_plus_one, mem_ends_star_one, List.mem_singleton]
  refine ⟨_, place, mem_ends_check.mpr ⟨starts, rfl⟩, _, ⟨_, whole, rfl⟩, Place.past _ digits (more ++ rest),
    ⟨digits, filled, rfl, decimal, rfl⟩, _, mem_ends_check.mpr ⟨?_, rfl⟩, Place.past _ more rest,
    ⟨more, rfl, ?_, rfl⟩, _, mem_ends_check.mpr ⟨endsLine_iff.mpr last, rfl⟩, rfl⟩
  · refine (boundary_iff standard filled decimal _ _).mpr fun c inside => ?_
    rw [Place.past_rest] at inside
    cases more with
    | nil =>
      rcases last with rfl | ⟨more, rfl⟩
      · cases inside
      · cases inside
        exact newline_apart standard
    | cons d more => exact apart c inside
  · refine notNewline_iff.mpr fun inside => unbroken ?_
    simp [inside]

omit standard in
theorem line_unique {line other rest left : Text} (unbroken : '\n' ∉ line) (other_unbroken : '\n' ∉ other)
    (last : EndsLine rest) (other_last : EndsLine left) (same : line ++ rest = other ++ left) :
    line = other ∧ rest = left := by
  have taken {line rest : Text} (unbroken : '\n' ∉ line) (last : EndsLine rest) :
      (line ++ rest).takeWhile (fun c => !isNewline c) = line := by
    rw [List.takeWhile_append_of_pos (notNewline_iff.mpr unbroken)]
    rcases last with rfl | ⟨more, rfl⟩
    · simp
    · simp [isNewline]
  have lines : line = other := by rw [← taken unbroken last, same, taken other_unbroken other_last]
  subst lines
  exact ⟨rfl, List.append_cancel_left same⟩

theorem heading_consumes {before : Option Char} {rest : Text} :
    ∀ stop ∈ (semanticExchangeHeadingRe unicode).ends { before, rest }, stop.rest.length < rest.length := by
  intro stop member
  obtain ⟨-, -, -, line, whole, -, digits, more, rfl, -⟩ := of_mem_ends_heading standard member
  dsimp only at whole
  rw [whole]
  simp only [List.length_append, String.length_toList]
  have : "## E".length = 4 := by decide
  omega

theorem heading_match {before : Option Char} {line rest : Text} (starts : before.all (· == '\n')) (last : EndsLine rest)
    (unbroken : '\n' ∉ line) : (ExchangeHeading unicode line →
      (semanticExchangeHeadingRe unicode).match? before (line ++ rest) = some ⟨line, []⟩) ∧
    (¬ ExchangeHeading unicode line → (semanticExchangeHeadingRe unicode).match? before (line ++ rest) = none) := by
  constructor
  · intro heading
    cases matched : (semanticExchangeHeadingRe unicode).match? before (line ++ rest) with
    | none =>
      obtain ⟨stop, member⟩ := @heading_ends _ standard ⟨before, line ++ rest, []⟩ _ _ starts last unbroken heading rfl
      rw [(match?_eq_none_iff (heading_consumes standard)).mp matched] at member
      cases member
    | some found =>
      obtain ⟨stop, member, groups, text, -⟩ := match?_stop matched
      obtain ⟨-, ends_, same, other, whole, apart, -⟩ := of_mem_ends_heading standard member
      obtain ⟨rfl, left⟩ := line_unique unbroken apart last ends_ whole
      rw [← left, List.length_append, Nat.add_sub_cancel, List.take_left] at text
      cases found
      cases text
      cases groups.trans same
      rfl
  · intro plain
    rw [match?_eq_none_iff (heading_consumes standard), List.eq_nil_iff_forall_not_mem]
    intro stop member
    obtain ⟨-, ends_, -, other, whole, apart, heading⟩ := of_mem_ends_heading standard member
    obtain ⟨rfl, -⟩ := line_unique unbroken apart last ends_ whole
    exact plain heading

end

/-! ### Lines that open with a heading -/

variable (unicode : Unicode)

def isHeading (line : Text) : Bool := ((semanticExchangeHeadingRe unicode).match? none line).isSome

def Quiet (text : Text) : Prop := ∀ front rest, text = front ++ '\n' :: rest → ¬ ExchangeHeading unicode rest

variable {unicode}

theorem heading_starts {line : Text} (heading : ExchangeHeading unicode line) : line.head? = some '#' := by
  obtain ⟨digits, more, rfl, -⟩ := heading
  rfl

def Breaks (unicode : Unicode) (text : Text) : Prop :=
  (∀ c ∈ text.head?, unicode.isWord c = false ∧ c ≠ '#') ∧ ¬ [' ', 'E'] <+: text

theorem quiet_of_unbroken {text : Text} (unbroken : '\n' ∉ text) : Quiet unicode text := by
  rintro front rest rfl
  simp at unbroken

theorem quiet_append_of_unbroken {front : Text} (unbroken : '\n' ∉ front) (text : Text) :
    Quiet unicode (front ++ text) ↔ Quiet unicode text := by
  constructor
  · rintro quiet early rest rfl
    exact quiet (front ++ early) rest (by simp)
  · intro quiet early rest whole
    rcases List.append_eq_append_iff.mp whole with ⟨between, rfl, later⟩ | ⟨between, rfl, later⟩
    · exact quiet between rest later
    · cases between with
      | nil => exact quiet [] rest (by simpa using later.symm)
      | cons c between =>
        cases later
        simp at unbroken

section
variable (standard : unicode.Standard)
include standard

theorem isHeading_iff {line : Text} (unbroken : '\n' ∉ line) :
    isHeading unicode line = true ↔ ExchangeHeading unicode line := by
  have decided := @heading_match _ standard none line [] rfl (.inl rfl) unbroken
  rw [List.append_nil] at decided
  unfold isHeading
  by_cases heading : ExchangeHeading unicode line
  · simp [decided.1 heading, heading]
  · simp [decided.2 heading, heading]

theorem heading_lines : MatchesLines (semanticExchangeHeadingRe unicode) (isHeading unicode) where
  atStart {before line} rest start unbroken := by
    have decided := @heading_match _ standard before line ('\n' :: rest) start (.inr ⟨rest, rfl⟩) unbroken
    by_cases heading : ExchangeHeading unicode line
    · rw [decided.1 heading, if_pos ((isHeading_iff standard unbroken).mpr heading)]
    · rw [decided.2 heading, if_neg (mt (isHeading_iff standard unbroken).mp heading)]
  inside {c} rest other := by
    rw [match?_eq_none_iff (heading_consumes standard), List.eq_nil_iff_forall_not_mem]
    intro stop member
    have start := (of_mem_ends_heading standard member).1
    exact other (eq_of_beq start)
  blank := by
    rw [← Bool.not_eq_true, isHeading_iff standard List.not_mem_nil]
    exact fun heading => by cases heading_starts heading

theorem mark_apart {line text rest more : Text} {c : Char} (breaks : Breaks unicode text)
    (marked : "## E".toList = line ++ c :: rest) : text ≠ (c :: rest) ++ more := by
  rintro rfl
  obtain ⟨apart, other⟩ := breaks.1 c rfl
  have letter : unicode.isWord 'E' = true := ((standard.ascii 'E' (by decide)).1).trans (by decide)
  have mark : "## E".toList = ['#', '#', ' ', 'E'] := by decide
  rw [mark] at marked
  rcases line with _ | ⟨_, _ | ⟨_, _ | ⟨_, _ | ⟨_, line⟩⟩⟩⟩
  · cases marked
    exact other rfl
  · cases marked
    exact other rfl
  · cases marked
    exact breaks.2 ⟨more, rfl⟩
  · cases marked
    rw [letter] at apart
    cases apart
  · simp at marked

theorem heading_append {line text : Text} (breaks : Breaks unicode text) :
    ExchangeHeading unicode (line ++ text) ↔ ExchangeHeading unicode line := by
  constructor
  · rintro ⟨digits, more, whole, filled, decimal, apart⟩
    rw [← List.append_assoc] at whole
    rcases List.append_eq_append_iff.mp whole with ⟨between, named, later⟩ | ⟨between, named, later⟩
    · cases between with
      | nil =>
        rw [List.append_nil] at named
        exact ⟨digits, [], by rw [← named, List.append_nil], filled, decimal, nofun⟩
      | cons c between =>
        obtain ⟨apart, other⟩ := breaks.1 c (by simp [later])
        have undigit : c ∉ digits := fun inside => by simpa [apart] using standard.decimal c (decimal c inside)
        rcases List.append_eq_append_iff.mp named with ⟨behind, rfl, numbered⟩ | ⟨behind, marked, numbered⟩
        · exact absurd (by simp [numbered]) undigit
        · cases behind with
          | nil => exact absurd (by simp [← show c :: between = digits from numbered]) undigit
          | cons d behind =>
            obtain ⟨rfl, rfl⟩ := List.cons.inj numbered
            -- the text goes on inside the mark of a heading
            exact absurd (later.trans (List.append_assoc (c :: behind) digits more)) (mark_apart standard breaks marked)
    · exact ⟨digits, between, by rw [named, List.append_assoc], filled, decimal, fun c inside => apart c (by
        cases between with
        | nil => cases inside
        | cons d between => rw [later]; exact inside)⟩
  · rintro ⟨digits, more, rfl, filled, decimal, apart⟩
    refine ⟨digits, more ++ text, by simp only [List.append_assoc], filled, decimal, ?_⟩
    cases more with
    | nil => exact fun c inside => (breaks.1 c inside).1
    | cons d more => exact apart

theorem newline_breaks (text : Text) : Breaks unicode ('\n' :: text) := by
  refine ⟨?_, by simp⟩
  rintro c ⟨⟩
  exact ⟨newline_apart standard, by decide⟩

theorem comma_breaks (text : Text) : Breaks unicode (',' :: text) := by
  refine ⟨?_, by simp⟩
  rintro c ⟨⟩
  exact ⟨((standard.ascii ',' (by decide)).1).trans (by decide), by decide⟩

theorem count_breaks (text : Text) : Breaks unicode (' ' :: 'x' :: text) := by
  refine ⟨?_, by simp⟩
  rintro c ⟨⟩
  exact ⟨standard.space ' ' (by decide), by decide⟩

theorem blank_breaks {blank : Text} (blanks : ∀ c ∈ blank, isSpace c) : Breaks unicode blank := by
  constructor
  · intro c inside
    have space := blanks c (List.mem_of_head? inside)
    exact ⟨standard.space c space, by rintro rfl; exact absurd space (by decide)⟩
  · rintro ⟨more, rfl⟩
    exact absurd (blanks 'E' (by simp)) (by decide)

theorem quiet_append {first second : Text} (breaks : Breaks unicode second) :
    Quiet unicode (first ++ second) ↔ Quiet unicode first ∧ Quiet unicode second := by
  constructor
  · intro quiet
    constructor
    · rintro front rest rfl heading
      exact quiet front (rest ++ second) (by simp) ((heading_append standard breaks).mpr heading)
    · rintro front rest rfl
      exact quiet (first ++ front) rest (by simp)
  · rintro ⟨early, late⟩ front rest whole heading
    rcases List.append_eq_append_iff.mp whole with ⟨between, rfl, later⟩ | ⟨between, rfl, later⟩
    · exact late between rest later heading
    · cases between with
      | nil => exact late [] rest (by simpa using later.symm) heading
      | cons c between =>
        obtain ⟨rfl, rfl⟩ := List.cons.inj later
        exact early front between rfl ((heading_append standard breaks).mp heading)

omit standard in
theorem quiet_newline {text : Text} : Quiet unicode ('\n' :: text) ↔ ¬ ExchangeHeading unicode text ∧ Quiet unicode text := by
  constructor
  · intro quiet
    refine ⟨quiet [] text rfl, ?_⟩
    rintro front rest rfl
    exact quiet ('\n' :: front) rest rfl
  · rintro ⟨plain, quiet⟩ front rest whole
    cases front with
    | nil =>
      cases whole
      exact plain
    | cons c front =>
      obtain ⟨rfl, rfl⟩ := List.cons.inj whole
      exact quiet front rest rfl

theorem quiet_line {first second : Text} : Quiet unicode (first ++ '\n' :: second) ↔
    Quiet unicode first ∧ ¬ ExchangeHeading unicode second ∧ Quiet unicode second := by
  rw [quiet_append standard (newline_breaks standard second), quiet_newline]

omit standard in
theorem quiet_blank {blank : Text} (blanks : ∀ c ∈ blank, isSpace c) : Quiet unicode blank := by
  rintro front rest rfl heading
  have shown := List.mem_of_head? (heading_starts heading)
  exact absurd (blanks '#' (by simp [shown])) (by decide)

theorem plain_lines_iff (text : Text) : (∀ line ∈ text.splitOn '\n', ¬ ExchangeHeading unicode line) ↔
    ¬ ExchangeHeading unicode text ∧ Quiet unicode text := by
  induction size : text.length using Nat.strong_induction_on generalizing text with
  | _ bound ih =>
  by_cases broken : '\n' ∈ text
  · obtain ⟨first, rest, rfl, unbroken⟩ := List.eq_append_cons_of_mem broken
    rw [List.splitOn_append_cons_self_of_not_mem unbroken, List.forall_mem_cons, quiet_line standard,
      heading_append standard (newline_breaks standard rest), ih rest.length (by rw [← size]; simp; omega) rest rfl]
    exact and_congr_right fun _ => ⟨fun late => ⟨quiet_of_unbroken unbroken, late⟩, And.right⟩
  · rw [List.splitOn_eq_singleton broken]
    simp [quiet_of_unbroken broken]

theorem quiet_iff_tail (text : Text) :
    Quiet unicode text ↔ ∀ line ∈ (text.splitOn '\n').tail, ¬ ExchangeHeading unicode line := by
  by_cases broken : '\n' ∈ text
  · obtain ⟨first, rest, rfl, unbroken⟩ := List.eq_append_cons_of_mem broken
    rw [List.splitOn_append_cons_self_of_not_mem unbroken, List.tail_cons, plain_lines_iff standard, quiet_line standard]
    exact and_iff_right (quiet_of_unbroken unbroken)
  · rw [List.splitOn_eq_singleton broken]
    simp [quiet_of_unbroken broken]

end

end HarnessMem.Projection
