import HarnessMem.Library.Regex
import HarnessMem.Library.Sections
import HarnessMem.Projection.Exchanges

/-! Where the parser finds labels and headings. A label is found behind a blank
line, a heading makes up a line.
-/

set_option autoImplicit false

namespace HarnessMem.Projection

open Library Regex

variable {unicode : Unicode}

/-! ### Labels -/

def Role.label : Role → Text
  | .user => "User".toList
  | .assistant => "Assistant".toList
  | .tool => "Tool".toList

def Role.opening (role : Role) : Text := role.label ++ ": ".toList

def blankLine : Text := "\n\n".toList

theorem roleOf_label (role : Role) : roleOf role.label = role := by
  cases role <;> decide

def Role.initial : Role → Char
  | .user => 'U'
  | .assistant => 'A'
  | .tool => 'T'

theorem opening_cons (role : Role) : role.opening = role.initial :: role.opening.tail := by
  cases role <;> decide

theorem opening_unbroken (role : Role) : '\n' ∉ role.opening := by
  cases role <;> decide

theorem initial_unbroken (role : Role) : role.initial ≠ '\n' := by
  cases role <;> decide

theorem opening_unique {first second : Role} {left right : Text} (same : first.opening ++ left = second.opening ++ right) :
    first = second := by
  rw [opening_cons first, opening_cons second] at same
  have initials : first.initial = second.initial := (List.cons.inj same).1
  cases first <;> cases second <;> first | rfl | exact absurd initials (by decide)

variable {place stop : Place}

theorem mem_ends_label :
    stop ∈ (anyOf [literal "User", literal "Assistant", literal "Tool"]).ends place ↔
      ∃ role rest, place.rest = Role.label role ++ rest ∧ stop = place.past role.label rest := by
  have parts : (anyOf [literal "User", literal "Assistant", literal "Tool"]).ends place =
      (literal "User").ends place ++ ((literal "Assistant").ends place ++ (literal "Tool").ends place) := rfl
  rw [parts]
  simp only [List.mem_append, mem_ends_literal]
  constructor
  · rintro (⟨rest, found⟩ | ⟨rest, found⟩ | ⟨rest, found⟩)
    · exact ⟨.user, rest, found⟩
    · exact ⟨.assistant, rest, found⟩
    · exact ⟨.tool, rest, found⟩
  · rintro ⟨role, rest, found⟩
    cases role with
    | user => exact .inl ⟨rest, found⟩
    | assistant => exact .inr (.inl ⟨rest, found⟩)
    | tool => exact .inr (.inr ⟨rest, found⟩)

def Separates (separator : Text) (before : Option Char) : Prop :=
  separator = blankLine ∨ separator = [] ∧ before = none

theorem entryRe_parts (place : Place) :
    entryRe.ends place = ((textStart.ends place ++ (literal "\n\n").ends place).flatMap fun middle =>
      ((anyOf [literal "User", literal "Assistant", literal "Tool"]).ends middle).map (fun stop =>
        { stop with groups := stop.groups ++ [middle.rest.take (middle.rest.length - stop.rest.length)] }) |>.flatMap
          fun labelled => ((literal ": ").ends labelled).flatMap fun last => [last]) := rfl

theorem of_mem_ends_entryRe (member : stop ∈ entryRe.ends place) :
    ∃ separator role, Separates separator place.before ∧ place.rest = separator ++ Role.opening role ++ stop.rest ∧
      stop.groups = place.groups ++ [role.label] := by
  rw [entryRe_parts] at member
  simp only [List.mem_flatMap, List.mem_append, List.mem_map, mem_ends_literal, mem_ends_label, List.mem_singleton] at member
  obtain ⟨middle, start, _, ⟨_, ⟨role, rest, shape, rfl⟩, rfl⟩, _, ⟨last, colon, rfl⟩, rfl⟩ := member
  have name : middle.rest.take (middle.rest.length - rest.length) = role.label := by
    rw [shape, List.length_append, Nat.add_sub_cancel, List.take_left]
  dsimp only [Place.past_rest, Place.past_groups] at colon name ⊢
  subst colon
  rw [name]
  rcases start with start | ⟨behind, whole, rfl⟩
  · obtain ⟨first, rfl⟩ := mem_ends_check.mp start
    refine ⟨[], role, .inr ⟨rfl, Option.isNone_iff_eq_none.mp first⟩, ?_, rfl⟩
    rw [shape, Role.opening]
    simp
  · refine ⟨blankLine, role, .inl rfl, ?_, rfl⟩
    rw [whole, show behind = _ from shape, Role.opening]
    simp [blankLine]

theorem entryRe_ends {place : Place} {separator left : Text} {role : Role} (separates : Separates separator place.before)
    (whole : place.rest = separator ++ role.opening ++ left) : ∃ stop, stop ∈ entryRe.ends place := by
  rw [entryRe_parts]
  simp only [List.mem_flatMap, List.mem_append, List.mem_map, mem_ends_literal, mem_ends_label, List.mem_singleton]
  have start : ∃ middle : Place, (middle ∈ textStart.ends place ∨
      ∃ rest, place.rest = "\n\n".toList ++ rest ∧ middle = place.past "\n\n".toList rest) ∧
      middle.rest = role.label ++ (": ".toList ++ left) := by
    rcases separates with rfl | ⟨rfl, first⟩
    · refine ⟨_, .inr ⟨role.opening ++ left, by rw [whole, List.append_assoc]; rfl, rfl⟩, ?_⟩
      rw [Place.past_rest, Role.opening, List.append_assoc]
    · refine ⟨place, .inl (mem_ends_check.mpr ⟨by rw [first]; rfl, rfl⟩), ?_⟩
      rw [whole, List.nil_append, Role.opening, List.append_assoc]
  obtain ⟨middle, starts, shape⟩ := start
  exact ⟨_, middle, starts, _, ⟨_, ⟨role, _, shape, rfl⟩, rfl⟩, _, ⟨left, rfl, rfl⟩, rfl⟩

variable {before : Option Char} {rest : Text}

theorem entryRe_consumes :
    ∀ stop ∈ entryRe.ends { before, rest }, stop.rest.length < rest.length := by
  intro stop member
  obtain ⟨separator, role, _, whole, _⟩ := of_mem_ends_entryRe member
  dsimp only at whole
  rw [whole, opening_cons]
  simp only [List.length_append, List.length_cons]
  omega

theorem entryRe_found {found : Match} (matched : entryRe.match? before rest = some found) :
    ∃ separator role, Separates separator before ∧ found.text = separator ++ Role.opening role ∧
      found.groups = [role.label] := by
  obtain ⟨stop, member, groups, text, _⟩ := match?_stop matched
  obtain ⟨separator, role, separates, whole, named⟩ := of_mem_ends_entryRe member
  dsimp only at whole separates named
  refine ⟨separator, role, separates, ?_, groups.trans named⟩
  rw [text, whole, List.length_append, Nat.add_sub_cancel, List.take_left]

theorem entryRe_match {separator left : Text} {role : Role} (separates : Separates separator before) :
    entryRe.match? before (separator ++ role.opening ++ left) = some ⟨separator ++ role.opening, [role.label]⟩ := by
  cases matched : entryRe.match? before (separator ++ role.opening ++ left) with
  | none =>
    obtain ⟨stop, member⟩ := @entryRe_ends ⟨before, separator ++ role.opening ++ left, []⟩ _ _ _ separates rfl
    rw [(match?_eq_none_iff entryRe_consumes).mp matched] at member
    cases member
  | some found =>
    obtain ⟨other, named, apart, text, groups⟩ := entryRe_found matched
    obtain ⟨_, rest, whole⟩ := match?_some matched
    rw [text] at whole
    have same : other = separator ∧ named = role := by
      rcases separates with rfl | ⟨rfl, _⟩
      · rcases apart with rfl | ⟨rfl, _⟩
        · rw [List.append_assoc, List.append_assoc] at whole
          exact ⟨rfl, (opening_unique (List.append_cancel_left whole)).symm⟩
        · rw [opening_cons named] at whole
          exact absurd (List.cons.inj whole).1.symm (initial_unbroken named)
      · rcases apart with rfl | ⟨rfl, _⟩
        · rw [opening_cons role] at whole
          exact absurd (List.cons.inj whole).1 (initial_unbroken role)
        · exact ⟨rfl, (opening_unique whole).symm⟩
    obtain ⟨rfl, rfl⟩ := same
    cases found
    cases text
    cases groups
    rfl

theorem entryRe_inside {c : Char} :
    entryRe.match? (some c) rest = none ↔ ∀ role : Role, ¬ blankLine ++ role.opening <+: rest := by
  constructor
  · rintro nothing role ⟨left, rfl⟩
    rw [entryRe_match (.inl rfl)] at nothing
    cases nothing
  · intro apart
    cases matched : entryRe.match? (some c) rest with
    | none => rfl
    | some found =>
      obtain ⟨separator, role, separates, text, _⟩ := entryRe_found matched
      obtain ⟨_, left, rfl⟩ := match?_some matched
      rcases separates with rfl | ⟨_, first⟩
      · rw [text] at apart
        exact absurd (List.prefix_append _ _) (apart role)
      · cases first

/-! ### Headings of turns -/

def TurnHeading (unicode : Unicode) (line : Text) : Prop :=
  ∃ digits inside blank,
    line = "## Turn ".toList ++ (digits ++ (" (".toList ++ (inside ++ (")".toList ++ blank)))) ∧
      digits ≠ [] ∧ (∀ c ∈ digits, unicode.isDecimal c) ∧ ∀ c ∈ blank, isSpace c

def EndsLine (rest : Text) : Prop := rest = [] ∨ ∃ more, rest = '\n' :: more

theorem endsLine_iff : rest.head?.all (· == '\n') = true ↔ EndsLine rest := by
  unfold EndsLine
  cases rest with
  | nil => simp
  | cons c more => simp

theorem turnHeadingRe_parts (place : Place) :
    (turnHeadingRe unicode).ends place = (lineStart.ends place).flatMap fun start =>
      ((literal "## Turn ").ends start).flatMap fun named => ((plus (one unicode.isDecimal)).ends named).flatMap fun numbered =>
        ((literal " (").ends numbered).flatMap fun opened => ((star (one fun c => !isNewline c)).ends opened).flatMap fun filled =>
          ((literal ")").ends filled).flatMap fun closed => ((star (one isSpace)).ends closed).flatMap fun blank =>
            (lineEnd.ends blank).flatMap fun last => [last] := rfl

theorem of_mem_ends_turnHeadingRe (member : stop ∈ (turnHeadingRe unicode).ends place) :
    place.before.all (· == '\n') ∧ EndsLine stop.rest ∧ ∃ digits inside blank, digits ≠ [] ∧
      (∀ c ∈ digits, unicode.isDecimal c) ∧ (∀ c ∈ inside, (!isNewline c) = true) ∧ (∀ c ∈ blank, isSpace c) ∧
      place.rest = "## Turn ".toList ++ (digits ++ (" (".toList ++ (inside ++ (")".toList ++ (blank ++ stop.rest))))) := by
  rw [turnHeadingRe_parts] at member
  simp only [List.mem_flatMap, mem_ends_literal, mem_ends_plus_one, mem_ends_star_one, List.mem_singleton] at member
  obtain ⟨start, starts, _, ⟨_, named, rfl⟩, _, ⟨digits, filled, numbered, decimal, reached⟩, _, ⟨_, opened, rfl⟩, _, ⟨inside, within, unbroken, reached'⟩,
    _, ⟨_, closed, rfl⟩, _, ⟨blank, spaced, spaces, reached''⟩, _, ends_, rfl⟩ := member
  obtain ⟨first, rfl⟩ := mem_ends_check.mp starts
  obtain ⟨last, rfl⟩ := mem_ends_check.mp ends_
  refine ⟨first, endsLine_iff.mp last, digits, inside, blank, filled, decimal, unbroken, spaces, ?_⟩
  dsimp only [Place.past_rest] at numbered within spaced
  rw [named, numbered, opened, within, closed, spaced]

theorem turnHeadingRe_ends {place : Place} {digits inside blank rest : Text} (starts : place.before.all (· == '\n'))
    (last : EndsLine rest) (filled : digits ≠ []) (decimal : ∀ c ∈ digits, unicode.isDecimal c)
    (unbroken : ∀ c ∈ inside, (!isNewline c) = true) (spaces : ∀ c ∈ blank, isSpace c)
    (whole : place.rest = "## Turn ".toList ++ (digits ++ (" (".toList ++ (inside ++ (")".toList ++ (blank ++ rest)))))) :
    ∃ stop, stop ∈ (turnHeadingRe unicode).ends place := by
  rw [turnHeadingRe_parts]
  simp only [List.mem_flatMap, mem_ends_literal, mem_ends_plus_one, mem_ends_star_one, List.mem_singleton]
  exact ⟨_, place, mem_ends_check.mpr ⟨starts, rfl⟩, _, ⟨_, whole, rfl⟩,
    Place.past _ digits (" (".toList ++ (inside ++ (")".toList ++ (blank ++ rest)))), ⟨digits, filled, rfl, decimal, rfl⟩,
    _, ⟨_, rfl, rfl⟩, Place.past _ inside (")".toList ++ (blank ++ rest)), ⟨inside, rfl, unbroken, rfl⟩,
    _, ⟨_, rfl, rfl⟩, Place.past _ blank rest, ⟨blank, rfl, spaces, rfl⟩,
    _, mem_ends_check.mpr ⟨endsLine_iff.mpr last, rfl⟩, rfl⟩

theorem turnHeadingRe_none (decimal : unicode.isDecimal '\n' = false) :
    (turnHeadingRe unicode).match? before rest = none ↔
      ∀ line left, before.all (· == '\n') → rest = line ++ left → '\n' ∉ line → EndsLine left →
        ¬ TurnHeading unicode line := by
  have consumes : ∀ stop ∈ (turnHeadingRe unicode).ends { before, rest }, stop.rest.length < rest.length := by
    intro stop member
    obtain ⟨_, _, digits, inside, blank, filled, _, _, _, whole⟩ := of_mem_ends_turnHeadingRe member
    have positive : 0 < digits.length := List.length_pos_iff.mpr filled
    dsimp only at whole
    rw [whole]
    simp only [List.length_append]
    omega
  rw [match?_eq_none_iff consumes, List.eq_nil_iff_forall_not_mem]
  constructor
  · rintro nothing line left starts rfl unbroken last ⟨digits, inside, blank, rfl, filled, numbers, spaces⟩
    have within : ∀ c ∈ inside, (!isNewline c) = true := by
      intro c member
      have other : c ≠ '\n' := by
        rintro rfl
        apply unbroken
        simp [member]
      simp [isNewline, other]
    have whole : "## Turn ".toList ++ (digits ++ (" (".toList ++ (inside ++ (")".toList ++ blank)))) ++ left =
        "## Turn ".toList ++ (digits ++ (" (".toList ++ (inside ++ (")".toList ++ (blank ++ left))))) := by
      simp only [List.append_assoc]
    obtain ⟨stop, member⟩ := @turnHeadingRe_ends unicode ⟨before, _, []⟩ digits inside blank left starts last filled
      numbers within spaces whole
    exact nothing stop member
  · intro apart stop member
    obtain ⟨starts, last, digits, inside, blank, filled, numbers, within, spaces, whole⟩ :=
      of_mem_ends_turnHeadingRe member
    dsimp only at starts whole
    -- the blanks may go on past the end of the line
    let here := blank.takeWhile fun c => !isNewline c
    let beyond := blank.dropWhile fun c => !isNewline c
    have split : blank = here ++ beyond := (List.takeWhile_append_dropWhile).symm
    have short : '\n' ∉ here := fun inside => by simpa [isNewline] using List.mem_takeWhile_imp inside
    refine apart ("## Turn ".toList ++ (digits ++ (" (".toList ++ (inside ++ (")".toList ++ here))))) (beyond ++ stop.rest)
      starts ?_ ?_ ?_ ⟨digits, inside, here, rfl, filled, numbers, ?_⟩
    · rw [whole, split]
      simp only [List.append_assoc]
    · have noDigit : '\n' ∉ digits := fun member => by simpa [decimal] using numbers _ member
      have noInside : '\n' ∉ inside := fun member => by simpa [isNewline] using within _ member
      simp [short, noDigit, noInside]
    · cases shape : beyond with
      | nil => exact last
      | cons c more =>
        have stopped := List.head?_dropWhile_not (fun c => !isNewline c) blank
        rw [show blank.dropWhile _ = c :: more from shape] at stopped
        have newline : c = '\n' := by simpa [isNewline] using stopped
        exact .inr ⟨more ++ stop.rest, by rw [newline, List.cons_append]⟩
    · intro c member
      exact spaces c (by rw [split]; exact List.mem_append_left _ member)

theorem turnHeadingRe_unmatched (decimal : unicode.isDecimal '\n' = false) (text : Text) :
    Unmatched (turnHeadingRe unicode) none text [] ↔ ∀ line ∈ text.splitOn '\n', ¬ TurnHeading unicode line := by
  constructor
  · intro unmatched line member heading
    obtain ⟨unbroken, front, rest, whole, before, behind⟩ := mem_splitOn.mp member
    have filled : line ++ rest ≠ [] := by
      obtain ⟨_, _, _, rfl, _⟩ := heading
      simp
    have nothing := unmatched front (line ++ rest) whole filled
    rw [List.append_nil, turnHeadingRe_none decimal] at nothing
    refine nothing line rest ?_ rfl unbroken behind heading
    rcases before with rfl | ⟨early, rfl⟩
    · rfl
    · simp
  · intro plain front back whole filled
    rw [List.append_nil, turnHeadingRe_none decimal]
    rintro line left starts rfl unbroken last
    apply plain
    refine mem_splitOn.mpr ⟨unbroken, front, left, whole, ?_, last⟩
    rcases List.eq_nil_or_concat front with rfl | ⟨early, c, rfl⟩
    · exact .inl rfl
    · right
      simp only [List.concat_eq_append, List.getLast?_append, List.getLast?_singleton, Option.some_or, Option.all_some,
        beq_iff_eq] at starts
      exact ⟨early, by rw [starts, List.concat_eq_append]⟩

end HarnessMem.Projection
