import HarnessMem.Library.Lists
import HarnessMem.Projection.Headings

/-! The compact outline as an index: when the headings found in it are those of the
exchanges, one each and in order.
-/

set_option autoImplicit false

namespace HarnessMem.Projection

open Library Regex TranscriptChunking

variable {unicode : Unicode}

/-! ### The lines of an exchange -/

def headingCodes (exchange : Exchange) : List Text :=
  (if exchange.riskFlags.isEmpty then [] else ["s=".toList ++ exchange.riskFlags.flatMap (·.code.toList)]) ++
  (if exchange.memorySignals.isEmpty then [] else ["m=".toList ++ exchange.memorySignals.flatMap (·.code.toList)])

def headingOf (index : Nat) (exchange : Exchange) : Text :=
  "## E".toList ++ (toString index).toList ++
    (if (headingCodes exchange).isEmpty then [] else " [".toList ++ joinWith " " (headingCodes exchange) ++ "]".toList)

def countedTools (tools : List Text) : Text :=
  joinWith ", " (tools.eraseDups.map fun name =>
    if 1 < tools.count name then name ++ " x".toList ++ (toString (tools.count name)).toList else name)

def belowHeading (unicode : Unicode) (exchange : Exchange) (limits : Nat × Nat) : List Text :=
  (if exchange.user.isEmpty then [] else ["U: ".toList ++ preview unicode (joinWith " " exchange.user) limits.1]) ++
  (match exchange.assistant.getLast? with
    | none => []
    | some last => ["A: ".toList ++ preview unicode last limits.2]) ++
  (if exchange.tools.isEmpty then [] else ["T: ".toList ++ countedTools exchange.tools])

theorem renderExchange_compact (index : Nat) (exchange : Exchange) (limits : Nat × Nat) :
    renderExchange unicode index exchange (some limits) =
      joinLines (headingOf index exchange :: belowHeading unicode exchange limits) := by
  unfold renderExchange belowHeading headingOf countedTools
  simp only [Option.isSome_some, if_true]
  rfl

theorem mem_joinWith {separator : String} {parts : List Text} {c : Char} (inside : c ∈ joinWith separator parts) :
    c ∈ separator.toList ∨ ∃ part ∈ parts, c ∈ part := by
  unfold joinWith at inside
  induction parts with
  | nil => cases inside
  | cons part others ih =>
    cases others with
    | nil => exact .inr ⟨part, List.mem_cons_self, by simpa [List.intercalate] using inside⟩
    | cons second others =>
      have joined : List.intercalate separator.toList (part :: second :: others) =
          part ++ (separator.toList ++ List.intercalate separator.toList (second :: others)) := by
        simp [List.intercalate]
      rw [joined, List.mem_append, List.mem_append] at inside
      rcases inside with here | mark | later
      · exact .inr ⟨part, List.mem_cons_self, here⟩
      · exact .inl mark
      · exact (ih later).imp_right fun ⟨other, member, found⟩ => ⟨other, List.mem_cons_of_mem _ member, found⟩

theorem joinWith_unbroken {separator : String} {parts : List Text} (apart : '\n' ∉ separator.toList)
    (unbroken : ∀ part ∈ parts, '\n' ∉ part) : '\n' ∉ joinWith separator parts := fun inside =>
  (mem_joinWith inside).elim apart fun ⟨part, member, found⟩ => unbroken part member found

theorem digits_decimal (standard : unicode.Standard) (n : Nat) : ∀ c ∈ (toString n).toList, unicode.isDecimal c = true := by
  intro c inside
  have spelled : (toString n).toList = Nat.toDigits 10 n := String.toList_ofList
  have digit : c.isDigit = true := Nat.isDigit_of_mem_toDigits (by decide) (Nat.le_refl 10) (spelled ▸ inside)
  have small : c.toNat < 128 := by
    simp only [Char.isDigit, Bool.and_eq_true, decide_eq_true_eq, UInt32.le_iff_toNat_le] at digit
    have nine : '9'.val.toNat = 57 := by decide
    have same : c.toNat = c.val.toNat := rfl
    omega
  exact (standard.ascii c small).2.trans digit

theorem numeral_unbroken (n : Nat) : '\n' ∉ (toString n).toList := fun inside =>
  absurd (digits_decimal ascii_standard n _ inside) (by decide)

theorem headingOf_unbroken (index : Nat) (exchange : Exchange) : '\n' ∉ headingOf index exchange := by
  have flags : '\n' ∉ exchange.riskFlags.flatMap (·.code.toList) := by
    simp only [List.mem_flatMap, not_exists, not_and]
    intro flag _
    cases flag <;> decide
  have signals : '\n' ∉ exchange.memorySignals.flatMap (·.code.toList) := by
    simp only [List.mem_flatMap, not_exists, not_and]
    intro signal _
    cases signal <;> decide
  have codes : ∀ part ∈ headingCodes exchange, '\n' ∉ part := by
    intro part member
    unfold headingCodes at member
    rcases List.mem_append.mp member with early | late
    · split at early
      · cases early
      · obtain rfl := List.mem_singleton.mp early
        simp [flags]
    · split at late
      · cases late
      · obtain rfl := List.mem_singleton.mp late
        simp [signals]
  have joined := @joinWith_unbroken " " _ (by decide) codes
  unfold headingOf
  simp only [List.mem_append, not_or]
  refine ⟨⟨by decide, numeral_unbroken index⟩, ?_⟩
  split
  · exact List.not_mem_nil
  · simp [joined]

theorem headingOf_heading (standard : unicode.Standard) (index : Nat) (exchange : Exchange) :
    ExchangeHeading unicode (headingOf index exchange) := by
  refine ⟨(toString index).toList, _, List.append_assoc _ _ _, ?_, digits_decimal standard index, ?_⟩
  · have spelled : (toString index).toList = Nat.toDigits 10 index := String.toList_ofList
    rw [spelled]
    exact List.length_pos_iff.mp Nat.length_toDigits_pos
  · split
    · nofun
    · rintro c ⟨⟩
      exact standard.space ' ' (by decide)

theorem headingOf_last (index : Nat) (exchange : Exchange) :
    ∃ front c, headingOf index exchange = front ++ [c] ∧ isSpace c = false := by
  unfold headingOf
  split
  · have spelled : (toString index).toList = Nat.toDigits 10 index := String.toList_ofList
    obtain ⟨front, c, digits⟩ := List.eq_nil_or_concat' (toString index).toList |>.resolve_left <| by
      rw [spelled]
      exact List.length_pos_iff.mp Nat.length_toDigits_pos
    have digit := digits_decimal ascii_standard index c (by rw [digits]; simp)
    refine ⟨"## E".toList ++ front, c, by rw [digits]; simp, ?_⟩
    by_contra space
    have word := ascii_standard.decimal c digit
    rw [ascii_standard.space c (by simpa using space)] at word
    cases word
  · exact ⟨_, ']', (List.append_assoc _ _ _).symm, by decide⟩

/-! ### Previews -/

theorem stripRight_shape (text : Text) : ∃ blank, text = stripRight text ++ blank ∧ ∀ c ∈ blank, isSpace c = true :=
  ⟨text.rtakeWhile isSpace, List.rdropWhile_append_rtakeWhile.symm, fun _ inside => List.mem_rtakeWhile_imp inside⟩

theorem stripRight_sublist (text : Text) : (stripRight text).Sublist text :=
  (List.rdropWhile_prefix isSpace text).sublist

theorem stripLeft_sublist (text : Text) : (stripLeft text).Sublist text := List.dropWhile_sublist _

theorem mem_findAll {pattern : Regex} {text found : Text} {c : Char} (member : found ∈ pattern.findAll text) (inside : c ∈ found) :
    c ∈ text := by
  obtain ⟨cut, listed, rfl⟩ := List.mem_map.mp member
  rw [(cuts_pieces pattern none text).flatten]
  refine List.mem_append_right _ (List.mem_flatMap.mpr ⟨cut, listed, ?_⟩)
  exact List.mem_append_left _ inside

theorem preview_unbroken (value : Text) (limit : Nat) : '\n' ∉ preview unicode value limit := by
  have words : ∀ word ∈ (value.splitOnP isSpace).filter (fun word => !word.isEmpty), '\n' ∉ word := by
    intro word member inside
    exact absurd (splitOnP_apart (List.mem_filter.mp member).1 _ inside) (by decide)
  have normalized := @joinWith_unbroken " " _ (by decide) words
  unfold preview
  dsimp only
  generalize joinWith " " ((value.splitOnP isSpace).filter fun word => !word.isEmpty) = text at normalized
  split
  · exact normalized
  · have head : '\n' ∉ stripRight (text.take (max 1 (limit * 68 / 100))) := fun inside =>
      normalized (List.mem_of_mem_take ((stripRight_sublist _).subset inside))
    have tail (count : Nat) : '\n' ∉ stripLeft (text.drop count) := fun inside =>
      normalized (List.mem_of_mem_drop ((stripLeft_sublist _).subset inside))
    split
    · simp [head, tail]
    · have anchors (keeps : Text → Bool) : '\n' ∉ joinWith ", " (((evidenceAnchorRe unicode).findAll text).eraseDups.filter keeps) := by
        refine joinWith_unbroken (by decide) fun anchor member inside => ?_
        exact normalized (mem_findAll (List.mem_eraseDups.mp (List.mem_filter.mp member).1) inside)
      simp [head, tail, anchors]

/-! ### Tools -/

section
variable (standard : unicode.Standard)
include standard

theorem quiet_joinWith {parts : List Text} : Quiet unicode (joinWith ", " parts) ↔ ∀ part ∈ parts, Quiet unicode part := by
  unfold joinWith
  induction parts with
  | nil => simp [List.intercalate, quiet_of_unbroken]
  | cons part others ih =>
    cases others with
    | nil => simp [List.intercalate]
    | cons second others =>
      have joined : List.intercalate ", ".toList (part :: second :: others) =
          part ++ (',' :: ([' '] ++ List.intercalate ", ".toList (second :: others))) := by
        simp [List.intercalate]
      rw [joined, quiet_append standard (comma_breaks standard _), ← List.singleton_append,
        quiet_append_of_unbroken (by decide), quiet_append_of_unbroken (by decide), ih]
      exact List.forall_mem_cons.symm

theorem quiet_countedTools (tools : List Text) :
    Quiet unicode (countedTools tools) ↔ ∀ name ∈ tools, Quiet unicode name := by
  have counted (name : Text) (count : Nat) :
      Quiet unicode (name ++ " x".toList ++ (toString count).toList) ↔ Quiet unicode name := by
    have breaks : Breaks unicode (" x".toList ++ (toString count).toList) := count_breaks standard _
    rw [List.append_assoc, quiet_append standard breaks]
    refine and_iff_left (quiet_of_unbroken ?_)
    simpa using numeral_unbroken count
  unfold countedTools
  rw [quiet_joinWith standard, List.forall_mem_map]
  simp only [List.mem_eraseDups]
  refine forall₂_congr fun name _ => ?_
  split
  · exact counted name _
  · rfl

omit standard in
theorem not_heading {text : Text} {c : Char} (other : c ≠ '#') : ¬ ExchangeHeading unicode (c :: text) := fun heading =>
  other (Option.some.inj (heading_starts heading))

theorem quiet_joinLines {first : Text} (lines : List Text) (below : ∀ line ∈ lines, ¬ ExchangeHeading unicode line) :
    Quiet unicode (joinLines (first :: lines)) ↔ Quiet unicode first ∧ ∀ line ∈ lines, Quiet unicode line := by
  induction lines generalizing first with
  | nil => simp [joinLines, List.intercalate]
  | cons second others ih =>
    have joined : joinLines (first :: second :: others) = first ++ '\n' :: joinLines (second :: others) := by
      simp [joinLines, List.intercalate]
    have plain : ¬ ExchangeHeading unicode (joinLines (second :: others)) := by
      cases others with
      | nil => simpa [joinLines, List.intercalate] using below second List.mem_cons_self
      | cons third others =>
        have more : joinLines (second :: third :: others) = second ++ '\n' :: joinLines (third :: others) := by
          simp [joinLines, List.intercalate]
        rw [more, heading_append standard (newline_breaks standard _)]
        exact below second List.mem_cons_self
    rw [joined, quiet_line standard, ih fun line inside => below line (List.mem_cons_of_mem _ inside), List.forall_mem_cons]
    exact and_congr_right fun _ => and_iff_right plain

omit standard in
theorem belowHeading_marked {exchange : Exchange} {limits : Nat × Nat} {line : Text}
    (inside : line ∈ belowHeading unicode exchange limits) : ∃ c text, line = c :: text ∧ (c = 'U' ∨ c = 'A' ∨ c = 'T') := by
  simp only [belowHeading, List.mem_append] at inside
  rcases inside with (user | outcome) | tools
  · split at user
    · cases user
    · exact ⟨'U', _, List.mem_singleton.mp user, .inl rfl⟩
  · split at outcome
    · cases outcome
    · exact ⟨'A', _, List.mem_singleton.mp outcome, .inr (.inl rfl)⟩
  · split at tools
    · cases tools
    · exact ⟨'T', _, List.mem_singleton.mp tools, .inr (.inr rfl)⟩

omit standard in
theorem belowHeading_lines {exchange : Exchange} {limits : Nat × Nat} {line : Text}
    (inside : line ∈ belowHeading unicode exchange limits) :
    '\n' ∉ line ∨ line = "T: ".toList ++ countedTools exchange.tools := by
  simp only [belowHeading, List.mem_append] at inside
  rcases inside with (user | outcome) | tools
  · split at user
    · cases user
    · rw [List.mem_singleton.mp user]
      exact .inl (by simp [preview_unbroken])
  · split at outcome
    · cases outcome
    · rw [List.mem_singleton.mp outcome]
      exact .inl (by simp [preview_unbroken])
  · split at tools
    · cases tools
    · exact .inr (List.mem_singleton.mp tools)

theorem quiet_renderExchange (index : Nat) (exchange : Exchange) (limits : Nat × Nat) :
    Quiet unicode (renderExchange unicode index exchange (some limits)) ↔ ∀ name ∈ exchange.tools, Quiet unicode name := by
  have below : ∀ line ∈ belowHeading unicode exchange limits, ¬ ExchangeHeading unicode line := by
    intro line inside
    obtain ⟨c, text, rfl, marks⟩ := belowHeading_marked inside
    rcases marks with rfl | rfl | rfl <;> exact not_heading (by decide)
  rw [renderExchange_compact, quiet_joinLines standard _ below, ← quiet_countedTools standard exchange.tools]
  refine (and_iff_right (quiet_of_unbroken (headingOf_unbroken index exchange))).trans ?_
  constructor
  · intro quiet
    by_cases none_ : exchange.tools = []
    · rw [none_]
      exact quiet_of_unbroken List.not_mem_nil
    · refine (quiet_append_of_unbroken (by decide) _).mp (quiet ("T: ".toList ++ countedTools exchange.tools) ?_)
      simp [belowHeading, none_]
  · intro quiet line inside
    rcases belowHeading_lines inside with unbroken | rfl
    · exact quiet_of_unbroken unbroken
    · exact (quiet_append_of_unbroken (by decide) _).mpr quiet

end

/-! ### The outline in its parts -/

def outlineRenderings (unicode : Unicode) (exchanges : List Exchange) (profile : Profile) : List Text :=
  (exchanges.zipIdx 1).map fun numbered => renderExchange unicode numbered.2 numbered.1
    (some (profile.limits (!numbered.1.riskFlags.isEmpty || numbered.2 = exchanges.length)))

def unitTexts (renderings : List Text) : List Text :=
  renderings.dropLast.map (· ++ ['\n', '\n']) ++ renderings.getLast?.toList.map (stripRight · ++ ['\n'])

def openingLines (exchanges : List Exchange) : List Text :=
  ("Semantic projection: " ++ distillCompactProjection ++ "; assistant progress and tool arguments are omitted. " ++
      "Use semantic windows and raw drilldown for candidate-grade proof.").toList :: [] ::
    ("Coverage: " ++ toString exchanges.length ++ " exchange(s), all indexed.").toList ::
  ((if 1 < exchanges.length then
    ["Compact labels: E=exchange; U=user; A=assistant outcome; T=tools.".toList] else []) ++
  (if exchanges.any (fun exchange => !exchange.riskFlags.isEmpty) then
    [("Signal legend: V=version/release; M=migration/storage; " ++
      "P=privacy/security; D=deletion; F=failure; C=conflict/stale; U=unfinished.").toList] else []) ++
  (if exchanges.any (fun exchange => !exchange.memorySignals.isEmpty) then
    [("Memory-value legend: C=correction; Q=decision; S=solution; " ++
      "P=rule/preference; R=reusable workflow/fact; V=version/migration; U=unfinished/handoff.").toList] else []))

theorem outlineLines_compact (exchanges : List Exchange) (profile : Profile) :
    outlineLines unicode exchanges distillCompactProjection (some profile) =
      [] :: (openingLines exchanges ++ (outlineRenderings unicode exchanges profile).flatMap fun rendering => [[], rendering]) := by
  unfold outlineLines openingLines outlineRenderings
  simp only [Option.isSome_some, Bool.true_and, Option.map_some, List.flatMap_map, decide_eq_true_eq]
  simp only [List.cons_append, List.append_assoc, List.nil_append]

theorem openingLines_plain {exchanges : List Exchange} {line : Text} (inside : line ∈ openingLines exchanges) :
    '\n' ∉ line ∧ line.head? ≠ some '#' := by
  simp only [openingLines, List.mem_cons, List.mem_append] at inside
  rcases inside with note | blank | coverage | (labels | legend) | legend
  · rw [note, distillCompactProjection]
    simp only [String.toList_append]
    repeat rw [String.toList_ofList]
    decide
  · rw [blank]
    decide
  · rw [coverage, String.toList_append, String.toList_append, List.append_assoc]
    repeat rw [String.toList_ofList]
    refine ⟨?_, by simp⟩
    rw [List.mem_append, List.mem_append, not_or, not_or]
    exact ⟨by decide, numeral_unbroken _, by decide⟩
  · split at labels
    · rw [List.mem_singleton.mp labels, String.toList_ofList]
      decide
    · cases labels
  all_goals
    split at legend
    · rw [List.mem_singleton.mp legend, String.toList_append, String.toList_ofList, String.toList_ofList]
      decide
    · cases legend

theorem ended_joinLines {lines : List Text} (some_ : lines ≠ []) : joinLines lines ++ ['\n'] = ended lines := by
  unfold joinLines
  induction lines with
  | nil => exact absurd rfl some_
  | cons line others ih =>
    cases others with
    | nil => simp
    | cons second others =>
      rw [List.intercalate_cons_cons, ended_cons, ← ih (List.cons_ne_nil _ _)]
      simp

theorem joinLines_concat (lines : List Text) (last : Text) : joinLines (lines ++ [last]) = ended lines ++ last := by
  have whole := @ended_joinLines (lines ++ [last]) (by simp)
  have parts : ended (lines ++ [last]) = (ended lines ++ last) ++ ['\n'] := by simp [ended]
  exact List.append_cancel_right (whole.trans parts)

theorem stripRight_append {front text : Text} (visible : ∃ c ∈ text, isSpace c = false) :
    stripRight (front ++ text) = front ++ stripRight text := by
  unfold stripRight
  rw [List.reverse_append, dropWhile_append_visible isSpace (by simpa using visible), List.reverse_append, List.reverse_reverse]

theorem ended_spaced (texts : List Text) :
    ended (texts.flatMap (fun text => [[], text]) ++ [[]]) = '\n' :: (texts.map (· ++ ['\n', '\n'])).flatten := by
  induction texts with
  | nil => rfl
  | cons text others ih =>
    simp only [List.flatMap_cons, List.cons_append, List.nil_append, ended_cons, ih, List.map_cons, List.flatten_cons]
    simp

def frontLines (header : Text) (exchanges : List Exchange) : List Text :=
  (if header = [] then [] else [header, []]) ++ openingLines exchanges ++ [[]]

theorem stripLeft_visible {c : Char} {text : Text} (visible : isSpace c = false) : stripLeft (c :: text) = c :: text := by
  unfold stripLeft
  rw [List.dropWhile_cons, if_neg (by simp [visible])]

theorem stripped_head {c : Char} {text : Text} (stripped : strip (c :: text) = c :: text) : isSpace c = false := by
  by_contra space
  have dropped : (c :: text).dropWhile isSpace = text.dropWhile isSpace := by
    rw [List.dropWhile_cons, if_pos (by simpa using space)]
  have shorter : (strip (c :: text)).length ≤ text.length := by
    refine le_trans (List.rdropWhile_prefix isSpace _).length_le ?_
    rw [dropped]
    exact (List.dropWhile_sublist _).length_le
  rw [stripped, List.length_cons] at shorter
  omega

theorem openingLines_head (exchanges : List Exchange) (more : List Text) :
    ∃ text, ended (openingLines exchanges ++ more) = 'S' :: text := by
  unfold openingLines
  rw [String.toList_append, String.toList_append, String.toList_append, String.toList_ofList]
  exact ⟨_, rfl⟩

theorem rendering_head (index : Nat) (exchange : Exchange) (limits : Nat × Nat) :
    ∃ text, renderExchange unicode index exchange (some limits) = '#' :: text := by
  rw [renderExchange_compact]
  cases belowHeading unicode exchange limits with
  | nil => exact ⟨_, rfl⟩
  | cons line lines => exact ⟨_, rfl⟩

theorem renderExchanges_units {header : Text} (stripped : strip header = header) {exchanges : List Exchange} (filled : exchanges ≠ [])
    (profile : Profile) : renderExchanges unicode header exchanges distillCompactProjection (some profile) =
      ended (frontLines header exchanges) ++ (unitTexts (outlineRenderings unicode exchanges profile)).flatten := by
  have some_ : outlineRenderings unicode exchanges profile ≠ [] := by
    intro none_
    exact filled (List.zipIdx_eq_nil_iff.mp (List.map_eq_nil_iff.mp none_))
  obtain ⟨init, last, parts⟩ := (List.eq_nil_or_concat' _).resolve_left some_
  obtain ⟨text, marked⟩ : ∃ text, last = '#' :: text := by
    have inside : last ∈ outlineRenderings unicode exchanges profile := by simp [parts]
    obtain ⟨numbered, -, rfl⟩ := List.mem_map.mp inside
    exact rendering_head _ _ _
  -- the parts above the last rendering
  let above := openingLines exchanges ++ (init.flatMap (fun rendering => [[], rendering]) ++ [[]])
  have shape : (openingLines exchanges ++ (init ++ [last]).flatMap fun rendering => [[], rendering]) = above ++ [last] := by
    simp [above]
  have front : stripLeft (ended ((if header = [] then [] else [header]) ++ [] :: above) ++ last) =
      ended ((if header = [] then [] else [header, []]) ++ above) ++ last := by
    obtain ⟨text, begins⟩ := openingLines_head exchanges (init.flatMap (fun rendering => [[], rendering]) ++ [[]])
    cases header with
    | nil =>
      simp only [if_true, List.nil_append, ended_cons, List.cons_append]
      rw [show ended above = 'S' :: text from begins]
      exact stripLeft_visible (c := 'S') (by decide)
    | cons c header =>
      simp only [List.cons_ne_nil, if_false, List.cons_append, ended_cons, List.nil_append]
      exact stripLeft_visible (stripped_head stripped)
  unfold renderExchanges
  rw [outlineLines_compact, parts, shape, ← List.cons_append, ← List.append_assoc, joinLines_concat]
  change stripRight (stripLeft _) ++ _ = _
  rw [front, stripRight_append ⟨'#', by simp [marked], by decide⟩]
  simp only [unitTexts, List.dropLast_concat, List.getLast?_concat, Option.toList_some, List.map_singleton, List.flatten_append]
  have between : ended (init.flatMap fun rendering => [[], rendering]) ++ ended [[]] =
      ended [[]] ++ (init.map (· ++ ['\n', '\n'])).flatten := by
    rw [← ended_append]
    exact ended_spaced init
  calc ended _ ++ stripRight last ++ ['\n']
      = ended (if header = [] then [] else [header, []]) ++ ended (openingLines exchanges) ++
          (ended (init.flatMap fun rendering => [[], rendering]) ++ ended [[]]) ++ (stripRight last ++ ['\n']) := by
        simp only [above, ended_append, List.append_assoc]
    _ = _ := by
        rw [between]
        simp only [frontLines, ended_append, List.append_assoc, List.flatten_singleton]

/-! ### The units found in it -/

/-- The lines of a unit: the heading of its exchange, and others that are no headings if its tools bring none. -/
def UnitFor (unicode : Unicode) (numbered : Exchange × Nat) (unit : Text) : Prop :=
  ∃ tail : List Text, unit = ended (headingOf numbered.2 numbered.1 :: tail) ∧ (∀ line ∈ tail, '\n' ∉ line) ∧
    ((∀ line ∈ tail, ¬ ExchangeHeading unicode line) ↔ ∀ name ∈ numbered.1.tools, Quiet unicode name)

def QuietTools (unicode : Unicode) (numbered : Exchange × Nat) : Prop := ∀ name ∈ numbered.1.tools, Quiet unicode name

section
variable (standard : unicode.Standard)
include standard

theorem unitFor_of_text {numbered : Exchange × Nat} {rest : Text} (ends_ : EndsLine rest)
    (quiet : Quiet unicode (headingOf numbered.2 numbered.1 ++ rest) ↔ QuietTools unicode numbered) :
    UnitFor unicode numbered (headingOf numbered.2 numbered.1 ++ rest ++ ['\n']) := by
  have unbroken := headingOf_unbroken numbered.2 numbered.1
  rw [quiet_iff_tail standard] at quiet
  rcases ends_ with rfl | ⟨more, rfl⟩
  · refine ⟨[], by simp, nofun, ?_⟩
    rw [List.append_nil, List.splitOn_eq_singleton unbroken] at quiet
    exact quiet
  · rw [List.splitOn_append_cons_self_of_not_mem unbroken] at quiet
    refine ⟨more.splitOn '\n', ?_, fun line inside => splitOn_unbroken inside, quiet⟩
    rw [ended_cons, ended_splitOn]
    simp

omit standard in
theorem renderExchange_line (index : Nat) (exchange : Exchange) (limits : Nat × Nat) :
    ∃ rest, renderExchange unicode index exchange (some limits) = headingOf index exchange ++ rest ∧ EndsLine rest := by
  rw [renderExchange_compact]
  cases belowHeading unicode exchange limits with
  | nil => exact ⟨[], by simp [joinLines], .inl rfl⟩
  | cons line lines => exact ⟨'\n' :: joinLines (line :: lines), by simp [joinLines], .inr ⟨_, rfl⟩⟩

omit standard in
theorem stripRight_heading (index : Nat) (exchange : Exchange) (rest : Text) :
    stripRight (headingOf index exchange ++ rest) = headingOf index exchange ++ stripRight rest := by
  by_cases visible : ∃ c ∈ rest, isSpace c = false
  · exact stripRight_append visible
  · push Not at visible
    obtain ⟨front, c, shape, shown⟩ := headingOf_last index exchange
    have blank : stripRight rest = [] := List.rdropWhile_eq_nil_iff.mpr fun c inside => by simpa using visible c inside
    rw [blank, shape]
    unfold stripRight
    rw [List.reverse_append, List.dropWhile_append_of_pos fun c inside => by simpa using visible c (List.mem_reverse.mp inside)]
    simp [shown]

theorem unitFor_spaced {numbered : Exchange × Nat} (limits : Nat × Nat) :
    UnitFor unicode numbered (renderExchange unicode numbered.2 numbered.1 (some limits) ++ ['\n', '\n']) := by
  obtain ⟨rest, shape, ends_⟩ := @renderExchange_line unicode numbered.2 numbered.1 limits
  have quiet := quiet_renderExchange standard numbered.2 numbered.1 limits
  have unit := @unitFor_of_text _ standard numbered (rest ++ ['\n']) ?_ ?_
  · simpa [shape] using unit
  · rcases ends_ with rfl | ⟨more, rfl⟩
    · exact .inr ⟨[], rfl⟩
    · exact .inr ⟨more ++ ['\n'], rfl⟩
  · rw [← List.append_assoc, ← shape, quiet_line standard, quiet]
    exact and_iff_left ⟨fun heading => absurd (heading_starts heading) nofun, quiet_of_unbroken List.not_mem_nil⟩

theorem unitFor_last {numbered : Exchange × Nat} (limits : Nat × Nat) :
    UnitFor unicode numbered (stripRight (renderExchange unicode numbered.2 numbered.1 (some limits)) ++ ['\n']) := by
  obtain ⟨rest, shape, ends_⟩ := @renderExchange_line unicode numbered.2 numbered.1 limits
  have quiet := quiet_renderExchange standard numbered.2 numbered.1 limits
  obtain ⟨blank, parts, blanks⟩ := stripRight_shape rest
  rw [shape, stripRight_heading]
  refine unitFor_of_text standard ?_ ?_
  · rcases ends_ with rfl | ⟨more, rfl⟩
    · exact .inl rfl
    · cases kept : stripRight ('\n' :: more) with
      | nil => exact .inl rfl
      | cons c text =>
        rw [kept, List.cons_append] at parts
        exact .inr ⟨text, by rw [(List.cons.inj parts).1]⟩
  · rw [shape, parts, ← List.append_assoc, quiet_append standard (blank_breaks standard blanks)] at quiet
    exact (and_iff_left (quiet_blank blanks)).symm.trans quiet

theorem unitFor_renderings (limits : Exchange × Nat → Nat × Nat) (numbered : List (Exchange × Nat)) :
    List.Forall₂ (UnitFor unicode) numbered
      (unitTexts (numbered.map fun one => renderExchange unicode one.2 one.1 (some (limits one)))) := by
  induction numbered with
  | nil => exact .nil
  | cons one others ih =>
    cases others with
    | nil => exact .cons (unitFor_last standard (limits one)) .nil
    | cons second others => exact .cons (unitFor_spaced standard (limits one)) ih

theorem units_sections {numbered : List (Exchange × Nat)} {units : List Text} (each : List.Forall₂ (UnitFor unicode) numbered units) :
    ∃ lines, units.flatten = ended lines ∧ (∀ line ∈ lines, '\n' ∉ line) ∧
      numbered.length ≤ (lines.filter (isHeading unicode)).length ∧
      ((lines.filter (isHeading unicode)).length = numbered.length → ∀ one ∈ numbered, QuietTools unicode one) ∧
      ((∀ one ∈ numbered, QuietTools unicode one) → (sections (isHeading unicode) lines).1 = [] ∧
        (sections (isHeading unicode) lines).2.map (·.1) = numbered.map (fun one => headingOf one.2 one.1) ∧
        (sections (isHeading unicode) lines).2.map (fun found => ended (found.1 :: found.2)) = units) := by
  induction each with
  | nil => exact ⟨[], rfl, nofun, le_rfl, fun _ => nofun, fun _ => ⟨rfl, rfl, rfl⟩⟩
  | @cons one unit numbered units this each ih =>
    obtain ⟨lines, whole, unbroken, least, exact_, cut⟩ := ih
    obtain ⟨tail, rfl, apart, quiet⟩ := this
    have heading : isHeading unicode (headingOf one.2 one.1) = true :=
      (isHeading_iff standard (headingOf_unbroken _ _)).mpr (headingOf_heading standard _ _)
    refine ⟨headingOf one.2 one.1 :: (tail ++ lines), ?_, ?_, ?_, ?_, ?_⟩
    · rw [List.flatten_cons, whole, ← ended_append, List.cons_append]
    · intro line inside
      rcases List.mem_cons.mp inside with rfl | inside
      · exact headingOf_unbroken _ _
      · exact (List.mem_append.mp inside).elim (apart line) (unbroken line)
    · rw [List.filter_cons, if_pos heading, List.filter_append]
      simp only [List.length_cons, List.length_append]
      omega
    · rw [List.filter_cons, if_pos heading, List.filter_append]
      simp only [List.length_cons, List.length_append]
      intro counted
      have silent : tail.filter (isHeading unicode) = [] := List.length_eq_zero_iff.mp (by omega)
      refine List.forall_mem_cons.mpr ⟨quiet.mp fun line inside found => ?_, exact_ (by omega)⟩
      exact List.filter_eq_nil_iff.mp silent line inside ((isHeading_iff standard (apart line inside)).mpr found)
    · intro all
      obtain ⟨this, later⟩ := List.forall_mem_cons.mp all
      obtain ⟨front, headings, texts⟩ := cut later
      have silent : ∀ line ∈ tail, isHeading unicode line = false := fun line inside =>
        Bool.not_eq_true _ ▸ mt (isHeading_iff standard (apart line inside)).mp (quiet.mpr this line inside)
      rw [sections, if_pos heading, sections_quiet silent, front, List.append_nil]
      exact ⟨rfl, congrArg (_ :: ·) headings, congrArg (_ :: ·) texts⟩

end

/-! ### The index -/

def unitText (value : Text) (unit : TranscriptLogicalUnit) : Text :=
  (value.drop unit.charStart).take (unit.charEnd - unit.charStart)

/-- The headings found in the outline are those of the exchanges, and unit `exchange-i` is the rendering of the
exchange with index `i` under one of the profiles. -/
def Indexes (unicode : Unicode) (exchanges : List Exchange) (content : Text) : Prop :=
  (semanticExchangeHeadingRe unicode).findAll content = (exchanges.zipIdx 1).map (fun numbered => headingOf numbered.2 numbered.1) ∧
  ∃ profile ∈ profiles, ∃ units, semanticUnits unicode content = some units ∧
    (units.filter (·.kind = "tool-exchange")).map (fun unit => (unit.unitId, unitText content unit)) =
      ((List.range' 1 exchanges.length).map fun index => s!"exchange-{index}").zip
        (unitTexts (outlineRenderings unicode exchanges profile))

/-- No line of the header is of the form of a heading, nor is a line of the name of a tool behind its first one. -/
def Unforged (unicode : Unicode) (parsed : Parsed) : Prop :=
  (∀ line ∈ parsed.header.splitOn '\n', ¬ ExchangeHeading unicode line) ∧
    ∀ exchange ∈ parsed.exchanges, ∀ name ∈ exchange.tools, ∀ line ∈ (name.splitOn '\n').tail, ¬ ExchangeHeading unicode line

theorem fitProfiles_mem {countTokens : Text → Nat} {target : Int} {render : Profile → Text} {tiers : List Profile}
    (some_ : tiers ≠ []) : ∃ profile ∈ tiers, (fitProfiles countTokens target render tiers).1 = render profile := by
  induction tiers with
  | nil => exact absurd rfl some_
  | cons profile rest ih =>
    cases rest with
    | nil => exact ⟨profile, List.mem_cons_self, rfl⟩
    | cons next rest =>
      unfold fitProfiles
      split
      · exact ⟨profile, List.mem_cons_self, rfl⟩
      · obtain ⟨chosen, inside, same⟩ := ih (List.cons_ne_nil _ _)
        exact ⟨chosen, List.mem_cons_of_mem _ inside, same⟩

theorem buildDistillCompactOutline_render {countTokens : Text → Nat} {value : Text} {budgetTokens : Int}
    (filled : (parseExchanges unicode value).exchanges ≠ []) :
    ∃ profile ∈ profiles, (buildDistillCompactOutline unicode countTokens value budgetTokens).1 =
      renderExchanges unicode (parseExchanges unicode value).header (parseExchanges unicode value).exchanges
        distillCompactProjection (some profile) := by
  unfold buildDistillCompactOutline
  rw [if_neg filled]
  exact fitProfiles_mem (by decide)

theorem exchangeUnits_texts (front : Text) (index : Nat) (found : List (Match × Text)) :
    (exchangeUnits front.length index found).map (fun unit =>
        (unit.unitId, unitText (front ++ found.flatMap fun cut => cut.1.text ++ cut.2) unit)) =
      ((List.range' index found.length).map fun index => s!"exchange-{index}").zip
        (found.map fun cut => cut.1.text ++ cut.2) := by
  induction found generalizing front index with
  | nil => rfl
  | cons cut found ih =>
    obtain ⟨heading, body⟩ := cut
    have here : unitText (front ++ ((heading.text ++ body) ++ found.flatMap fun cut => cut.1.text ++ cut.2))
        ⟨front.length, front.length + (heading.text ++ body).length, s!"exchange-{index}", "tool-exchange"⟩ = heading.text ++ body := by
      unfold unitText
      rw [List.drop_left, Nat.add_sub_cancel_left, List.take_left]
    have later := ih (front ++ (heading.text ++ body)) (index + 1)
    rw [List.length_append, List.append_assoc] at later
    rw [exchangeUnits, List.flatMap_cons, List.map_cons, here, later, List.length_cons, List.range'_succ]
    rfl

theorem exchangeUnits_kind (start index : Nat) (found : List (Match × Text)) :
    (exchangeUnits start index found).filter (·.kind = "tool-exchange") = exchangeUnits start index found := by
  induction found generalizing start index with
  | nil => rfl
  | cons cut found ih =>
    obtain ⟨heading, body⟩ := cut
    rw [exchangeUnits, List.filter_cons, if_pos (by simp), ih]

theorem header_stripped (unicode : Unicode) (value : Text) :
    strip (parseExchanges unicode value).header = (parseExchanges unicode value).header := by
  unfold parseExchanges
  split
  · rfl
  · exact strip_strip _

theorem ended_lines (texts : List Text) : ended (texts.flatMap (·.splitOn '\n')) = ended texts := by
  induction texts with
  | nil => rfl
  | cons text others ih =>
    rw [List.flatMap_cons, ended_append, ended_splitOn, ih]
    simp

theorem semanticUnits_pieces {value front : Text} {found : List (Match × Text)}
    (cut : (semanticExchangeHeadingRe unicode).pieces none 0 value = (front, found)) (some_ : found ≠ []) :
    ∃ units, semanticUnits unicode value = some units ∧
      (units.filter (·.kind = "tool-exchange")).map (fun unit => (unit.unitId, unitText value unit)) =
        ((List.range' 1 found.length).map fun index => s!"exchange-{index}").zip
          (found.map fun cut => cut.1.text ++ cut.2) := by
  have whole : value = front ++ found.flatMap fun cut => cut.1.text ++ cut.2 := by
    have cuts := (cuts_pieces (semanticExchangeHeadingRe unicode) none value).flatten
    rwa [cut] at cuts
  have split : semanticUnits unicode value =
      some ((if 0 < front.length then [⟨0, front.length, "semantic-header", "manifest-header"⟩] else []) ++
        exchangeUnits front.length 1 found) := by
    unfold semanticUnits
    rw [cut]
    cases found with
    | nil => exact absurd rfl some_
    | cons first rest => rfl
  refine ⟨_, split, ?_⟩
  have header : ((if 0 < front.length then [⟨0, front.length, "semantic-header", "manifest-header"⟩] else []) :
      List TranscriptLogicalUnit).filter (·.kind = "tool-exchange") = [] := by
    split
    · rfl
    · rfl
  rw [List.filter_append, header, List.nil_append, exchangeUnits_kind]
  have texts := exchangeUnits_texts front 1 found
  rwa [← whole] at texts

section
variable (standard : unicode.Standard)
include standard

theorem front_plain {header : Text} (exchanges : List Exchange) :
    (∀ line ∈ (frontLines header exchanges).flatMap (·.splitOn '\n'), isHeading unicode line = false) ↔
      ∀ line ∈ header.splitOn '\n', ¬ ExchangeHeading unicode line := by
  have plain {text : Text} : (∀ line ∈ text.splitOn '\n', isHeading unicode line = false) ↔
      ∀ line ∈ text.splitOn '\n', ¬ ExchangeHeading unicode line :=
    forall₂_congr fun line inside => by
      rw [← Bool.not_eq_true, isHeading_iff standard (splitOn_unbroken inside)]
  have headless {text : Text} (unbroken : '\n' ∉ text) (other : text.head? ≠ some '#') :
      ∀ line ∈ text.splitOn '\n', isHeading unicode line = false := by
    rw [plain, List.splitOn_eq_singleton unbroken, List.forall_mem_singleton]
    exact fun heading => other (heading_starts heading)
  simp only [List.mem_flatMap, forall_exists_index, and_imp]
  constructor
  · intro quiet
    by_cases empty : header = []
    · rw [empty, ← plain]
      exact headless List.not_mem_nil nofun
    · rw [← plain]
      exact fun line inside => quiet line header (by simp [frontLines, empty]) inside
  · intro quiet line text member inside
    simp only [frontLines, List.mem_append, List.mem_singleton] at member
    rcases member with (above | note) | blank
    · split at above
      · cases above
      · rcases List.mem_pair.mp above with rfl | rfl
        · exact plain.mpr quiet line inside
        · exact headless List.not_mem_nil nofun line inside
    · exact headless (openingLines_plain note).1 (openingLines_plain note).2 line inside
    · subst blank
      exact headless List.not_mem_nil nofun line inside

theorem findAll_ended {lines : List Text} (unbroken : ∀ line ∈ lines, '\n' ∉ line) :
    (semanticExchangeHeadingRe unicode).findAll (ended lines) = lines.filter (isHeading unicode) := by
  rw [findAll, (heading_lines standard).pieces_ended unbroken rfl, List.map_map, ← sections_headings]
  rfl

/-- The lines above the exchanges of an outline, those of the exchanges, and what is known of the two. -/
theorem outline_lines {countTokens : Text → Nat} {value : Text} {budgetTokens : Int} {parsed : Parsed}
    (read : parseExchanges unicode value = parsed) (filled : parsed.exchanges ≠ []) :
    ∃ profile ∈ profiles, ∃ front lines,
      (buildDistillCompactOutline unicode countTokens value budgetTokens).1 = ended (front ++ lines) ∧
      (∀ line ∈ front ++ lines, '\n' ∉ line) ∧
      ((∀ line ∈ front, isHeading unicode line = false) ↔ ∀ line ∈ parsed.header.splitOn '\n', ¬ ExchangeHeading unicode line) ∧
      parsed.exchanges.length ≤ (lines.filter (isHeading unicode)).length ∧
      ((lines.filter (isHeading unicode)).length = parsed.exchanges.length →
        ∀ one ∈ parsed.exchanges.zipIdx 1, QuietTools unicode one) ∧
      ((∀ one ∈ parsed.exchanges.zipIdx 1, QuietTools unicode one) → (sections (isHeading unicode) lines).1 = [] ∧
        (sections (isHeading unicode) lines).2.map (·.1) =
          (parsed.exchanges.zipIdx 1).map (fun one => headingOf one.2 one.1) ∧
        (sections (isHeading unicode) lines).2.map (fun found => ended (found.1 :: found.2)) =
          unitTexts (outlineRenderings unicode parsed.exchanges profile)) := by
  subst read
  obtain ⟨profile, tier, rendered⟩ := @buildDistillCompactOutline_render _ countTokens value budgetTokens filled
  rw [renderExchanges_units (header_stripped unicode value) filled] at rendered
  obtain ⟨lines, whole, unbroken, least, counted, cut⟩ := units_sections standard (unitFor_renderings standard
    (fun one => profile.limits (!one.1.riskFlags.isEmpty || one.2 = (parseExchanges unicode value).exchanges.length))
    ((parseExchanges unicode value).exchanges.zipIdx 1))
  rw [List.length_zipIdx] at least counted
  refine ⟨profile, tier, _, lines, ?_, ?_, front_plain standard (parseExchanges unicode value).exchanges, least, counted, cut⟩
  · rw [rendered, ended_append, ended_lines, ← whole]
    rfl
  · intro line inside
    rcases List.mem_append.mp inside with early | late
    · obtain ⟨text, -, part⟩ := List.mem_flatMap.mp early
      exact splitOn_unbroken part
    · exact unbroken line late

theorem quietTools_iff (exchanges : List Exchange) : (∀ one ∈ exchanges.zipIdx 1, QuietTools unicode one) ↔
    ∀ exchange ∈ exchanges, ∀ name ∈ exchange.tools, ∀ line ∈ (name.splitOn '\n').tail, ¬ ExchangeHeading unicode line := by
  have each : (exchanges.zipIdx 1).map (·.1) = exchanges := List.zipIdx_map_fst 1 exchanges
  simp only [QuietTools, quiet_iff_tail standard]
  conv_rhs => rw [← each]
  rw [List.forall_mem_map]

/-- Where as many headings are found as there are exchanges, none of them is forged: those of the exchanges leave no
room for others. -/
theorem unforged_of_headings {countTokens : Text → Nat} {value : Text} {budgetTokens : Int}
    (filled : (parseExchanges unicode value).exchanges ≠ [])
    (indexes : Indexes unicode (parseExchanges unicode value).exchanges
      (buildDistillCompactOutline unicode countTokens value budgetTokens).1) : Unforged unicode (parseExchanges unicode value) := by
  obtain ⟨profile, -, front, lines, content, unbroken, header, least, counted, -⟩ :=
    @outline_lines _ standard countTokens value budgetTokens _ rfl filled
  have headings := indexes.1
  rw [content, findAll_ended standard unbroken, List.filter_append] at headings
  have many := congrArg List.length headings
  rw [List.length_append, List.length_map, List.length_zipIdx] at many
  have silent : front.filter (isHeading unicode) = [] := List.length_eq_zero_iff.mp (by omega)
  refine ⟨header.mp fun line inside => ?_, (quietTools_iff standard _).mp (counted (by omega))⟩
  exact Bool.not_eq_true _ ▸ List.filter_eq_nil_iff.mp silent line inside

theorem indexes_of_unforged (countTokens : Text → Nat) {value : Text} (budgetTokens : Int)
    (filled : (parseExchanges unicode value).exchanges ≠ []) (unforged : Unforged unicode (parseExchanges unicode value)) :
    Indexes unicode (parseExchanges unicode value).exchanges
      (buildDistillCompactOutline unicode countTokens value budgetTokens).1 := by
  obtain ⟨profile, tier, front, lines, content, unbroken, header, -, -, cut⟩ :=
    @outline_lines _ standard countTokens value budgetTokens _ rfl filled
  have silent := header.mpr unforged.1
  obtain ⟨first, headings, texts⟩ := cut ((quietTools_iff standard _).mpr unforged.2)
  have pieces := @MatchesLines.pieces_ended _ _ (heading_lines standard) _ unbroken none rfl
  rw [sections_quiet silent, first, List.append_nil] at pieces
  have count := congrArg List.length headings
  rw [List.length_map, List.length_map, List.length_zipIdx] at count
  rw [content]
  constructor
  · have quiet : front.filter (isHeading unicode) = [] :=
      List.filter_eq_nil_iff.mpr fun line inside => by simp [silent line inside]
    rw [findAll_ended standard unbroken, List.filter_append, quiet, List.nil_append, ← sections_headings, headings]
  · obtain ⟨units, split, shown⟩ := semanticUnits_pieces pieces (by
      rw [ne_eq, List.map_eq_nil_iff, ← List.length_eq_zero_iff, count]
      exact mt List.length_eq_zero_iff.mp filled)
    refine ⟨profile, tier, units, split, shown.trans ?_⟩
    rw [List.length_map, count, List.map_map, ← texts]
    exact congrArg _ (List.map_congr_left fun found _ => (ended_cons found.1 found.2).symm)

/-- **The outline indexes its exchanges exactly where nothing in it is forged**: no line of the header and
no further line of a tool's name has the form of a heading. -/
theorem outline_indexes_iff (countTokens : Text → Nat) (value : Text) (budgetTokens : Int)
    (filled : (parseExchanges unicode value).exchanges ≠ []) :
    Indexes unicode (parseExchanges unicode value).exchanges
        (buildDistillCompactOutline unicode countTokens value budgetTokens).1 ↔
      Unforged unicode (parseExchanges unicode value) :=
  ⟨unforged_of_headings standard filled, indexes_of_unforged standard countTokens budgetTokens filled⟩

end

/-- One question, and nothing else. -/
theorem outline_indexes_plain :
    Indexes .ascii (parseExchanges .ascii "User: Go".toList).exchanges
      (buildDistillCompactOutline .ascii List.length "User: Go".toList 3000).1 := by
  have plain : (parseExchanges .ascii "User: Go".toList).header = [] ∧
      (parseExchanges .ascii "User: Go".toList).exchanges.map (·.tools) = [[]] := by
    rw [String.toList_ofList]
    decide +kernel
  refine (outline_indexes_iff ascii_standard _ _ _ ?_).mpr ⟨?_, ?_⟩
  · intro none_
    rw [none_] at plain
    cases plain.2
  · rw [plain.1]
    rintro line inside heading
    obtain rfl := List.mem_singleton.mp inside
    cases heading_starts heading
  · intro exchange member name inside
    have tools : exchange.tools ∈ [([] : List Text)] := plain.2 ▸ List.mem_map_of_mem member
    rw [List.mem_singleton.mp tools] at inside
    cases inside

/-- A line of the header, and a line of what a tool says, are taken for exchanges. -/
theorem outline_forged :
    ¬ Indexes .ascii (parseExchanges .ascii "## E7\n\nUser: Go".toList).exchanges
        (buildDistillCompactOutline .ascii List.length "## E7\n\nUser: Go".toList 3000).1 ∧
      ¬ Indexes .ascii (parseExchanges .ascii "User: Go\n\nTool: note\n## E7".toList).exchanges
        (buildDistillCompactOutline .ascii List.length "User: Go\n\nTool: note\n## E7".toList 3000).1 := by
  have forged : ExchangeHeading .ascii "## E7".toList :=
    (isHeading_iff ascii_standard (by decide)).mp (by decide +kernel)
  constructor
  · intro indexes
    have unforged := unforged_of_headings ascii_standard (by decide +kernel) indexes
    exact unforged.1 _ (by decide +kernel) forged
  · intro indexes
    have unforged := unforged_of_headings ascii_standard (by decide +kernel) indexes
    have read : (parseExchanges .ascii "User: Go\n\nTool: note\n## E7".toList).exchanges.map (·.tools) =
        [["note\n## E7".toList]] := by decide +kernel
    obtain ⟨exchange, member, tools⟩ := List.mem_map.mp (read ▸ List.mem_singleton_self ["note\n## E7".toList])
    exact unforged.2 exchange member _ (tools ▸ List.mem_singleton_self _) _ (by decide +kernel) forged

end HarnessMem.Projection
