import Mathlib.Algebra.Order.BigOperators.Group.List
import Mathlib.Algebra.Order.Group.Nat
import Mathlib.Data.List.Basic

/-! Regular expressions with the backtracking order of the source language:
the first alternative and the longest repetition are tried first. Matches are
looked for from the left and do not overlap.
-/

set_option autoImplicit false

namespace HarnessMem.Library

/-- A place in a text: the code point before it, the text after it, and the groups captured so far. -/
structure Place where
  before : Option Char
  rest : List Char
  groups : List (List Char) := []
  deriving DecidableEq, Repr

inductive Regex where
  | one (accepts : Char → Bool)
  | check (holds : Option Char → List Char → Bool)
  | seq (first second : Regex)
  | alt (first second : Regex)
  | star (inner : Regex)
  | upTo (limit : Nat) (inner : Regex)
  | group (inner : Regex)

/-- Up to `limit` steps of `next`, more of them first; a step that consumes nothing is not taken. -/
def iterate (next : Place → List Place) : Nat → Place → List Place
  | 0, place => [place]
  | limit + 1, place =>
    ((next place).filter fun stop => stop.rest.length < place.rest.length).flatMap (iterate next limit) ++ [place]

namespace Regex

def ends : Regex → Place → List Place
  | one accepts, place =>
    match place.rest with
    | [] => []
    | c :: rest => if accepts c then [{ place with before := some c, rest }] else []
  | check holds, place => if holds place.before place.rest then [place] else []
  | seq first second, place => (first.ends place).flatMap second.ends
  | alt first second, place => first.ends place ++ second.ends place
  | star inner, place => iterate inner.ends place.rest.length place
  | upTo limit inner, place => iterate inner.ends limit place
  | group inner, place => (inner.ends place).map fun stop =>
      { stop with groups := stop.groups ++ [place.rest.take (place.rest.length - stop.rest.length)] }

/-! The forms patterns are written with. -/

def empty : Regex := check fun _ _ => true

def cat (parts : List Regex) : Regex := parts.foldr seq empty

def anyOf : List Regex → Regex
  | [] => check fun _ _ => false
  | [last] => last
  | first :: rest => alt first (anyOf rest)

def literal (text : String) : Regex := cat (text.toList.map fun c => one (· == c))

def optional (inner : Regex) : Regex := upTo 1 inner

def plus (inner : Regex) : Regex := seq inner (star inner)

/-- `\A`. -/
def textStart : Regex := check fun before _ => before.isNone

/-- `^` with the flag `m`. -/
def lineStart : Regex := check fun before _ => before.all (· == '\n')

/-- `$` with the flag `m`. -/
def lineEnd : Regex := check fun _ rest => rest.head?.all (· == '\n')

/-- `\b`, given what `\w` accepts. -/
def wordBoundary (isWord : Char → Bool) : Regex :=
  check fun before rest => before.any isWord != rest.head?.any isWord

/-- The code points an ASCII letter of a pattern accepts under the flag `i`. -/
def sameLetter (letter c : Char) : Bool :=
  c == letter || c.toLower == letter.toLower ||
    (letter.toLower == 'i' && (c == 'İ' || c == 'ı')) ||
    (letter.toLower == 's' && c == 'ſ') || (letter.toLower == 'k' && c == 'K')

/-- A literal under the flag `i`. -/
def ignoreCase (text : String) : Regex := cat (text.toList.map fun c => one (sameLetter c))

/-! ### Finding matches -/

structure Match where
  text : List Char
  groups : List (List Char)
  deriving DecidableEq, Repr

def match? (pattern : Regex) (before : Option Char) (rest : List Char) : Option Match :=
  match pattern.ends { before, rest } with
  | [] => none
  | stop :: _ =>
    if stop.rest.length < rest.length then
      some { text := rest.take (rest.length - stop.rest.length), groups := stop.groups }
    else none

/-- The text before the first match, and every match with the text up to the next one. `skip` counts
the code points that still belong to the last match. -/
def pieces (pattern : Regex) : Option Char → Nat → List Char → List Char × List (Match × List Char)
  | _, _, [] => ([], [])
  | _, skip + 1, c :: rest => pattern.pieces (some c) skip rest
  | before, 0, c :: rest =>
    match pattern.match? before (c :: rest) with
    | some found =>
      ([], (found, (pattern.pieces (some c) (found.text.length - 1) rest).1) ::
        (pattern.pieces (some c) (found.text.length - 1) rest).2)
    | none => (c :: (pattern.pieces (some c) 0 rest).1, (pattern.pieces (some c) 0 rest).2)

/-- `pattern.sub("", text)`. -/
def erase (pattern : Regex) (text : List Char) : List Char :=
  (pattern.pieces none 0 text).1 ++ (pattern.pieces none 0 text).2.flatMap (·.2)

/-- `pattern.findall(text)` of a pattern without groups. -/
def findAll (pattern : Regex) (text : List Char) : List (List Char) :=
  (pattern.pieces none 0 text).2.map (·.1.text)

def searchFrom (pattern : Regex) : Option Char → List Char → Bool
  | before, [] => !(pattern.ends { before, rest := [] }).isEmpty
  | before, c :: rest =>
    !(pattern.ends { before, rest := c :: rest }).isEmpty || pattern.searchFrom (some c) rest

/-- `bool(pattern.search(text))`. -/
def search (pattern : Regex) (text : List Char) : Bool := pattern.searchFrom none text

end Regex

end HarnessMem.Library

/-! What the forms of patterns match, and how a text is cut at the matches of a pattern. -/

namespace HarnessMem.Library

def Place.past (place : Place) (run rest : List Char) : Place :=
  { place with before := run.getLast?.or place.before, rest }

@[simp] theorem Place.past_rest (place : Place) (run rest : List Char) : (place.past run rest).rest = rest := rfl

@[simp] theorem Place.past_groups (place : Place) (run rest : List Char) : (place.past run rest).groups = place.groups := rfl

@[simp] theorem Place.past_nil (place : Place) : place.past [] place.rest = place := rfl

theorem Place.past_past (place : Place) (first second middle rest : List Char) :
    (place.past first middle).past second rest = place.past (first ++ second) rest := by
  simp [Place.past, List.getLast?_append, Option.or_assoc]

theorem getLast?_cons_or (c : Char) (text : List Char) (before : Option Char) :
    (c :: text).getLast?.or before = text.getLast?.or (some c) := by
  cases text with
  | nil => rfl
  | cons d rest =>
    rw [List.getLast?_cons_cons, List.getLast?_cons]
    rfl

namespace Regex

/-! ### Ends of matches -/

variable {place stop : Place}

theorem mem_ends_seq {first second : Regex} :
    stop ∈ (seq first second).ends place ↔ ∃ middle ∈ first.ends place, stop ∈ second.ends middle :=
  List.mem_flatMap

theorem mem_ends_check {holds : Option Char → List Char → Bool} :
    stop ∈ (check holds).ends place ↔ holds place.before place.rest ∧ stop = place := by
  unfold ends
  split
  · next true_ => simp [true_]
  · next false_ => simp [false_]

variable {accepts : Char → Bool}

theorem mem_ends_one :
    stop ∈ (one accepts).ends place ↔ ∃ c rest, place.rest = c :: rest ∧ accepts c ∧ stop = place.past [c] rest := by
  unfold ends
  cases shape : place.rest with
  | nil => simp
  | cons c rest =>
    by_cases fits : accepts c
    · simp [fits, Place.past]
    · simp [fits]

theorem ends_chars (chars : List Char) (place : Place) :
    (cat (chars.map fun c => one (· == c))).ends place =
      if chars <+: place.rest then [place.past chars (place.rest.drop chars.length)] else [] := by
  induction chars generalizing place with
  | nil => simp [cat, empty, ends]
  | cons c chars ih =>
    have step : (cat ((c :: chars).map fun c => one (· == c))).ends place =
        ((one (· == c)).ends place).flatMap (cat (chars.map fun c => one (· == c))).ends := rfl
    rw [step]
    unfold ends
    cases shape : place.rest with
    | nil => simp
    | cons d rest =>
      by_cases same : d = c
      · subst same
        have behind : place.past [d] rest = { place with before := some d, rest := rest } := rfl
        simp only [BEq.rfl, if_true, List.flatMap_singleton, ← behind, ih, Place.past_past, Place.past_rest,
          List.cons_prefix_cons, true_and, List.length_cons, List.drop_succ_cons, List.singleton_append]
      · simp [same, Ne.symm same]

theorem ends_literal (text : String) (place : Place) :
    (literal text).ends place =
      if text.toList <+: place.rest then [place.past text.toList (place.rest.drop text.toList.length)] else [] :=
  ends_chars text.toList place

theorem mem_ends_literal {text : String} :
    stop ∈ (literal text).ends place ↔ ∃ rest, place.rest = text.toList ++ rest ∧ stop = place.past text.toList rest := by
  rw [ends_literal]
  constructor
  · intro member
    split at member
    · next starts =>
      obtain ⟨rest, whole⟩ := starts
      rw [List.mem_singleton, ← whole, List.drop_left] at member
      exact ⟨rest, whole.symm, member⟩
    · cases member
  · rintro ⟨rest, whole, rfl⟩
    rw [whole, if_pos (List.prefix_append _ _), List.drop_left]
    exact List.mem_singleton_self _

theorem mem_iterate_one {limit : Nat} :
    stop ∈ iterate (one accepts).ends limit place ↔
      ∃ run, run.length ≤ limit ∧ place.rest = run ++ stop.rest ∧ (∀ c ∈ run, accepts c) ∧
        stop = place.past run stop.rest := by
  induction limit generalizing place with
  | zero =>
    constructor
    · intro member
      obtain rfl := List.mem_singleton.mp member
      exact ⟨[], Nat.le_refl _, rfl, by simp, rfl⟩
    · rintro ⟨run, short, whole, _, reached⟩
      obtain rfl := List.length_eq_zero_iff.mp (Nat.le_zero.mp short)
      rw [reached, ← show place.rest = stop.rest from whole]
      exact List.mem_singleton_self _
  | succ limit ih =>
    unfold iterate
    rw [List.mem_append, List.mem_flatMap]
    constructor
    · rintro (⟨middle, taken, member⟩ | here)
      · obtain ⟨c, rest, shape, fits, rfl⟩ := mem_ends_one.mp (List.mem_filter.mp taken).1
        obtain ⟨run, short, whole, all, reached⟩ := ih.mp member
        rw [Place.past_past] at reached
        refine ⟨c :: run, Nat.succ_le_succ short, ?_, ?_, reached⟩
        · rw [shape, List.cons_append, ← whole]
          rfl
        · intro d inside
          rcases List.mem_cons.mp inside with rfl | later
          · exact fits
          · exact all d later
      · obtain rfl := List.mem_singleton.mp here
        exact ⟨[], Nat.zero_le _, rfl, by simp, rfl⟩
    · rintro ⟨run, short, whole, all, reached⟩
      cases run with
      | nil =>
        right
        rw [reached, ← show place.rest = stop.rest from whole]
        exact List.mem_singleton_self _
      | cons c run =>
        left
        have taken : place.past [c] (run ++ stop.rest) ∈ (one accepts).ends place :=
          mem_ends_one.mpr ⟨c, run ++ stop.rest, whole, all c List.mem_cons_self, rfl⟩
        refine ⟨_, List.mem_filter.mpr ⟨taken, ?_⟩, ih.mpr ⟨run, Nat.le_of_succ_le_succ short, rfl, ?_, ?_⟩⟩
        · simp [whole]
        · exact fun d later => all d (List.mem_cons_of_mem _ later)
        · rw [Place.past_past]
          exact reached

theorem mem_ends_star_one :
    stop ∈ (star (one accepts)).ends place ↔
      ∃ run, place.rest = run ++ stop.rest ∧ (∀ c ∈ run, accepts c) ∧ stop = place.past run stop.rest := by
  unfold ends
  rw [mem_iterate_one]
  constructor
  · rintro ⟨run, _, found⟩
    exact ⟨run, found⟩
  · rintro ⟨run, whole, found⟩
    refine ⟨run, ?_, whole, found⟩
    rw [whole, List.length_append]
    omega

theorem mem_ends_plus_one :
    stop ∈ (plus (one accepts)).ends place ↔ ∃ run, run ≠ [] ∧ place.rest = run ++ stop.rest ∧ (∀ c ∈ run, accepts c) ∧
      stop = place.past run stop.rest := by
  unfold plus
  rw [mem_ends_seq]
  constructor
  · rintro ⟨middle, taken, more⟩
    obtain ⟨c, rest, shape, fits, rfl⟩ := mem_ends_one.mp taken
    obtain ⟨run, whole, all, reached⟩ := mem_ends_star_one.mp more
    refine ⟨c :: run, List.cons_ne_nil _ _, ?_, ?_, ?_⟩
    · rw [shape, List.cons_append, ← whole]
      rfl
    · intro d inside
      rcases List.mem_cons.mp inside with rfl | later
      · exact fits
      · exact all d later
    · rw [Place.past_past] at reached
      exact reached
  · rintro ⟨run, filled, whole, all, reached⟩
    obtain ⟨c, more, rfl⟩ := List.exists_cons_of_ne_nil filled
    refine ⟨place.past [c] (more ++ stop.rest), mem_ends_one.mpr ⟨c, _, whole, all c List.mem_cons_self, rfl⟩, ?_⟩
    refine mem_ends_star_one.mpr ⟨more, rfl, fun d later => all d (List.mem_cons_of_mem _ later), ?_⟩
    rw [Place.past_past]
    exact reached

/-! ### Matches -/

variable {pattern : Regex}

variable {before : Option Char} {rest : List Char}

theorem match?_stop {found : Match}
    (matched : pattern.match? before rest = some found) :
    ∃ stop ∈ pattern.ends { before, rest }, found.groups = stop.groups ∧
      found.text = rest.take (rest.length - stop.rest.length) ∧ stop.rest.length < rest.length := by
  unfold match? at matched
  split at matched
  · cases matched
  · next stop more ends =>
    split at matched
    · next shorter =>
      cases matched
      exact ⟨stop, ends ▸ List.mem_cons_self, rfl, rfl, shorter⟩
    · cases matched

theorem match?_some {found : Match}
    (matched : pattern.match? before rest = some found) : found.text ≠ [] ∧ ∃ left, rest = found.text ++ left := by
  obtain ⟨stop, _, _, text, shorter⟩ := match?_stop matched
  rw [text]
  refine ⟨?_, rest.drop (rest.length - stop.rest.length), (List.take_append_drop _ _).symm⟩
  intro nothing
  have lengths := congrArg List.length nothing
  simp only [List.length_take, List.length_nil] at lengths
  omega

theorem match?_of_ends {before : Option Char} {text left : List Char} {stop : Place} {more : List Place}
    (found : pattern.ends { before, rest := text ++ left } = stop :: more) (behind : stop.rest = left)
    (filled : text ≠ []) : pattern.match? before (text ++ left) = some ⟨text, stop.groups⟩ := by
  have positive : 0 < text.length := List.length_pos_iff.mpr filled
  unfold match?
  rw [found]
  dsimp only
  rw [behind, if_pos (by rw [List.length_append]; omega)]
  have shown : (text ++ left).length - left.length = text.length := by rw [List.length_append]; omega
  rw [shown, List.take_left]

theorem match?_eq_none_iff (consumes : ∀ stop ∈ pattern.ends { before, rest }, stop.rest.length < rest.length) :
    pattern.match? before rest = none ↔ pattern.ends { before, rest } = [] := by
  unfold match?
  cases found : pattern.ends { before, rest } with
  | nil => simp
  | cons stop more =>
    rw [found] at consumes
    simp [consumes stop List.mem_cons_self]

/-! ### Cutting a text at the matches -/

/-- No match starts inside a text that goes on with `rest`. -/
def Unmatched (pattern : Regex) (before : Option Char) (text rest : List Char) : Prop :=
  ∀ front back, text = front ++ back → back ≠ [] → pattern.match? (front.getLast?.or before) (back ++ rest) = none

theorem Unmatched.nil (before : Option Char) (rest : List Char) : Unmatched pattern before [] rest := by
  intro front back whole filled
  exact absurd (List.append_eq_nil_iff.mp whole.symm).2 filled

theorem Unmatched.cons {before : Option Char} {c : Char} {text rest : List Char}
    (here : pattern.match? before (c :: text ++ rest) = none) (later : Unmatched pattern (some c) text rest) :
    Unmatched pattern before (c :: text) rest := by
  intro front back whole filled
  cases front with
  | nil =>
    rw [List.nil_append] at whole
    rw [← whole]
    exact here
  | cons d front =>
    obtain ⟨rfl, inner⟩ := List.cons.inj whole
    rw [getLast?_cons_or]
    exact later front back inner filled

variable {text : List Char}

theorem Unmatched.head {c : Char}
    (unmatched : Unmatched pattern before (c :: text) rest) :
    pattern.match? before (c :: text ++ rest) = none ∧ Unmatched pattern (some c) text rest := by
  constructor
  · exact unmatched [] (c :: text) rfl (List.cons_ne_nil _ _)
  · intro front back whole filled
    rw [← getLast?_cons_or c front before]
    exact unmatched (c :: front) back (by rw [whole, List.cons_append]) filled

/-- The text before the first match, and the matches with the texts up to the next ones. -/
inductive Cuts (pattern : Regex) : Option Char → List Char → List Char → List (Match × List Char) → Prop where
  | last {before : Option Char} {text : List Char} : Unmatched pattern before text [] → Cuts pattern before text text []
  | found {before : Option Char} {front rest piece : List Char} {here : Match} {more : List (Match × List Char)} :
      Unmatched pattern before front (here.text ++ rest) → here.text ≠ [] →
      pattern.match? (front.getLast?.or before) (here.text ++ rest) = some here →
      Cuts pattern here.text.getLast? rest piece more →
      Cuts pattern before (front ++ (here.text ++ rest)) front ((here, piece) :: more)

theorem pieces_skip {before : Option Char} {first rest : List Char} :
    pattern.pieces before first.length (first ++ rest) = pattern.pieces (first.getLast?.or before) 0 rest := by
  induction first generalizing before with
  | nil => rfl
  | cons c first ih =>
    rw [getLast?_cons_or, ← ih]
    rfl

theorem Cuts.cons {before : Option Char} {c : Char} {text front : List Char} {found : List (Match × List Char)}
    (here : pattern.match? before (c :: text) = none) (cuts : Cuts pattern (some c) text front found) :
    Cuts pattern before (c :: text) (c :: front) found := by
  cases cuts with
  | last unmatched =>
    refine .last (.cons ?_ unmatched)
    rw [List.append_nil]
    exact here
  | found unmatched filled matched rest =>
    refine .found (.cons here unmatched) filled ?_ rest
    rw [getLast?_cons_or]
    exact matched

theorem cuts_pieces (pattern : Regex) (before : Option Char) (text : List Char) :
    Cuts pattern before text (pattern.pieces before 0 text).1 (pattern.pieces before 0 text).2 := by
  induction size : text.length using Nat.strong_induction_on generalizing before text with
  | _ bound ih =>
  cases text with
  | nil => exact .last (.nil _ _)
  | cons c rest =>
    unfold pieces
    cases matched : pattern.match? before (c :: rest) with
    | none => exact .cons matched (ih rest.length (by rw [← size]; exact Nat.lt_succ_self _) (some c) rest rfl)
    | some found =>
      dsimp only
      obtain ⟨filled, left, whole⟩ := match?_some matched
      obtain ⟨d, tail, shape⟩ := List.exists_cons_of_ne_nil filled
      rw [shape, List.cons_append] at whole
      obtain ⟨rfl, rfl⟩ := List.cons.inj whole
      have shorter : left.length < bound := by
        rw [← size, List.length_cons, List.length_append]
        omega
      -- the search goes on behind the match
      have goesOn : pattern.pieces (some c) (found.text.length - 1) (tail ++ left) =
          pattern.pieces found.text.getLast? 0 left := by
        rw [shape, List.length_cons, Nat.add_sub_cancel, pieces_skip, ← getLast?_cons_or c tail none]
        simp
      have text : c :: (tail ++ left) = [] ++ (found.text ++ left) := by rw [shape]; rfl
      rw [goesOn, text]
      refine .found (.nil _ _) filled ?_ (ih left.length shorter _ left rfl)
      rw [shape]
      exact matched

theorem pieces_unmatched (unmatched : Unmatched pattern before text rest) :
    pattern.pieces before 0 (text ++ rest) =
      (text ++ (pattern.pieces (text.getLast?.or before) 0 rest).1, (pattern.pieces (text.getLast?.or before) 0 rest).2) := by
  induction text generalizing before with
  | nil => rfl
  | cons c text ih =>
    obtain ⟨here, later⟩ := unmatched.head
    rw [getLast?_cons_or, List.cons_append]
    rw [List.cons_append] at here
    simp only [pieces, here, ih later, List.cons_append]

variable {front : List Char} {found : List (Match × List Char)}

theorem Cuts.pieces (cuts : Cuts pattern before text front found) : pattern.pieces before 0 text = (front, found) := by
  induction cuts with
  | last unmatched =>
    have cut := pieces_unmatched unmatched
    rw [List.append_nil] at cut
    rw [cut]
    simp [Regex.pieces]
  | @found before front rest piece here more unmatched filled matched _ ih =>
    rw [pieces_unmatched unmatched]
    obtain ⟨c, tail, shape⟩ := List.exists_cons_of_ne_nil filled
    have next : pattern.pieces (some c) (here.text.length - 1) (tail ++ rest) = (piece, more) := by
      rw [← ih, shape, List.length_cons, Nat.add_sub_cancel, pieces_skip, ← getLast?_cons_or c tail none]
      simp
    rw [shape, List.cons_append] at matched ⊢
    simp only [Regex.pieces, matched, next, List.append_nil]

theorem Cuts.flatten
    (cuts : Cuts pattern before text front found) : text = front ++ found.flatMap fun cut => cut.1.text ++ cut.2 := by
  induction cuts with
  | last => simp
  | found _ _ _ _ ih =>
    rw [ih]
    simp

theorem Cuts.unmatched (cuts : Cuts pattern before text front found) :
    (∃ rest, Unmatched pattern before front rest) ∧ ∀ cut ∈ found, ∃ c rest, Unmatched pattern (some c) cut.2 rest := by
  induction cuts with
  | last unmatched => exact ⟨⟨[], unmatched⟩, nofun⟩
  | @found before front rest piece here more unmatched filled _ _ ih =>
    refine ⟨⟨_, unmatched⟩, ?_⟩
    intro cut member
    rcases List.mem_cons.mp member with rfl | later
    · obtain ⟨behind, apart⟩ := ih.1
      rw [List.getLast?_eq_some_getLast filled] at apart
      exact ⟨_, behind, apart⟩
    · exact ih.2 cut later

theorem erase_of_unmatched (unmatched : Unmatched pattern none text []) : pattern.erase text = text := by
  have cut : pattern.pieces none 0 text = (text, []) := (Cuts.last unmatched).pieces
  simp [erase, cut]

theorem length_erase (text : List Char) :
    (pattern.erase text).length ≤ text.length ∧
      ((pattern.erase text).length = text.length → Unmatched pattern none text []) := by
  have cuts := cuts_pieces pattern none text
  unfold erase
  generalize (pattern.pieces none 0 text).1 = front at *
  generalize (pattern.pieces none 0 text).2 = found at *
  have whole := congrArg List.length cuts.flatten
  simp only [List.length_append, List.length_flatMap] at whole ⊢
  have shorter : (found.map fun cut => cut.2.length).sum ≤
      (found.map fun cut => cut.1.text.length + cut.2.length).sum :=
    List.sum_le_sum fun cut _ => Nat.le_add_left _ _
  constructor
  · omega
  · intro same
    cases cuts with
    | last unmatched => exact unmatched
    | @found _ _ _ piece here more _ filled _ _ =>
      have positive : 0 < here.text.length := List.length_pos_iff.mpr filled
      have others : (more.map fun cut => cut.2.length).sum ≤
          (more.map fun cut => cut.1.text.length + cut.2.length).sum :=
        List.sum_le_sum fun cut _ => Nat.le_add_left _ _
      simp only [List.map_cons, List.sum_cons] at whole same
      omega

end Regex

end HarnessMem.Library
