import HarnessMem.Library.Casing
import HarnessMem.Library.Marks
import HarnessMem.Library.Substitution
import Mathlib.Data.List.Forall2

/-! Patterns that never match across a separator. What such a pattern finds in a text is what it finds in
front of the separator and behind it.
-/

set_option autoImplicit false

namespace HarnessMem.Library

theorem forall₂_filter {α β : Type} {related : α → β → Prop} {p : α → Bool} {q : β → Bool}
    (same : ∀ one other, related one other → p one = q other) {items : List α} {others : List β}
    (all : List.Forall₂ related items others) :
    List.Forall₂ (fun one other => related one other ∧ p one = true) (items.filter p) (others.filter q) := by
  induction all with
  | nil => exact .nil
  | @cons one other items others head _ ih =>
    have kept := same one other head
    cases holds : p one with
    | true =>
      rw [List.filter_cons_of_pos holds, List.filter_cons_of_pos (kept ▸ holds)]
      exact .cons ⟨head, holds⟩ ih
    | false =>
      have left : ¬ p one = true := by rw [holds]; exact Bool.false_ne_true
      rw [List.filter_cons_of_neg left, List.filter_cons_of_neg (kept ▸ left)]
      exact ih

theorem infix_stop {α : Type} {stop : α} {part front back : List α} (outside : stop ∉ part) :
    part <:+: front ++ stop :: back ↔ part <:+: front ∨ part <:+: back := by
  have opens : ∀ piece : List α, piece <+: stop :: back → (∀ c ∈ piece, c ∈ part) → piece = [] := by
    intro piece starts inside
    cases piece with
    | nil => rfl
    | cons c piece =>
      obtain ⟨rfl, _⟩ := List.cons_prefix_cons.mp starts
      exact absurd (inside c List.mem_cons_self) outside
  constructor
  · intro within
    rcases List.infix_append_iff.mp within with left | right | ⟨first, second, rfl, ends, starts⟩
    · exact .inl left
    · rcases List.infix_cons_iff.mp right with starts | later
      · rw [opens part starts fun c inside => inside]
        exact .inr ⟨[], back, rfl⟩
      · exact .inr later
    · rw [opens second starts fun c inside => List.mem_append_right _ inside, List.append_nil]
      exact .inl ends.isInfix
  · rintro (⟨left, right, rfl⟩ | ⟨left, right, rfl⟩)
    · exact ⟨left, right ++ stop :: back, by simp⟩
    · exact ⟨front ++ stop :: left, right, by simp⟩

theorem infix_words {blank : Char → Bool} {part : List Char} (filled : part ≠ []) (shown : ∀ c ∈ part, blank c = false)
    (text : List Char) : part <:+: text ↔ ∃ word ∈ words blank text, part <:+: word := by
  induction text using word_induction blank with
  | last word plain =>
    rw [words_word plain]
    by_cases empty : word = []
    · rw [if_pos empty, empty]
      simp [filled]
    · rw [if_neg empty]
      simp
  | next word c rest plain stop ih =>
    have outside : c ∉ part := fun inside => by
      rw [shown c inside] at stop
      cases stop
    rw [words_blank plain stop, infix_stop outside, ih]
    by_cases empty : word = []
    · rw [if_pos empty, empty]
      simp [filled]
    · rw [if_neg empty]
      simp

namespace Regex

/-- The pattern accepts a separator nowhere, and looks at nothing around its match. -/
inductive Avoids (stop : Char) : Regex → Prop where
  | one {accepts : Char → Bool} : accepts stop = false → Avoids stop (one accepts)
  | empty : Avoids stop empty
  | seq {first second : Regex} : Avoids stop first → Avoids stop second → Avoids stop (seq first second)
  | alt {first second : Regex} : Avoids stop first → Avoids stop second → Avoids stop (alt first second)
  | star {inner : Regex} : Avoids stop inner → Avoids stop (star inner)
  | upTo {limit : Nat} {inner : Regex} : Avoids stop inner → Avoids stop (upTo limit inner)

theorem Avoids.cat {stop : Char} {parts : List Regex} (avoids : ∀ part ∈ parts, Avoids stop part) : Avoids stop (cat parts) := by
  induction parts with
  | nil => exact .empty
  | cons part parts ih =>
    exact .seq (avoids part List.mem_cons_self) (ih fun other member => avoids other (List.mem_cons_of_mem _ member))

theorem Avoids.literal {stop : Char} {text : String} (outside : stop ∉ text.toList) : Avoids stop (literal text) := by
  apply Avoids.cat
  intro part member
  obtain ⟨c, inside, rfl⟩ := List.mem_map.mp member
  exact .one (beq_eq_false_iff_ne.mpr fun same => outside (same ▸ inside))

/-- Two places that read the same text, one of them with a separator and more behind it. -/
structure Alike (tail : List Char) (place other : Place) : Prop where
  rest : other.rest = place.rest ++ tail
  groups : other.groups = place.groups

variable {tail : List Char}

theorem Alike.shorter {place other one more : Place} (alike : Alike tail place other) (related : Alike tail one more) :
    decide (one.rest.length < place.rest.length) = decide (more.rest.length < other.rest.length) := by
  rw [related.rest, alike.rest, List.length_append, List.length_append]
  exact decide_eq_decide.mpr (by omega)

theorem iterate_alike {next : Place → List Place}
    (steps : ∀ place other, Alike tail place other → List.Forall₂ (Alike tail) (next place) (next other))
    {limit bound : Nat} {place other : Place} (alike : Alike tail place other)
    (enough : limit = bound ∨ place.rest.length ≤ limit ∧ place.rest.length ≤ bound) :
    List.Forall₂ (Alike tail) (iterate next limit place) (iterate next bound other) := by
  induction limit generalizing bound place other with
  | zero =>
    cases bound with
    | zero => exact .cons alike .nil
    | succ bound =>
      -- nothing is left in front of the separator, so no step of the second place counts
      have done : place.rest = [] := List.length_eq_zero_iff.mp (by omega)
      have none_ : (next other).filter (fun stop => decide (stop.rest.length < other.rest.length)) = [] := by
        have kept := forall₂_filter (p := fun stop => decide (stop.rest.length < place.rest.length))
          (fun one more related => alike.shorter related) (steps place other alike)
        rw [done] at kept
        have empty : (next place).filter (fun stop => decide (stop.rest.length < ([] : List Char).length)) = [] := by simp
        rw [empty] at kept
        exact List.forall₂_nil_left_iff.mp kept
      rw [iterate, iterate, none_, List.flatMap_nil, List.nil_append]
      exact .cons alike .nil
  | succ limit ih =>
    cases bound with
    | zero =>
      have done : place.rest = [] := List.length_eq_zero_iff.mp (by omega)
      have empty : (next place).filter (fun stop => decide (stop.rest.length < place.rest.length)) = [] := by simp [done]
      rw [iterate, iterate, empty, List.flatMap_nil, List.nil_append]
      exact .cons alike .nil
    | succ bound =>
      have kept := forall₂_filter (p := fun stop => decide (stop.rest.length < place.rest.length))
        (fun one more related => alike.shorter related) (steps place other alike)
      rw [iterate, iterate]
      refine List.rel_append (List.rel_flatMap kept ?_) (.cons alike .nil)
      rintro one more ⟨related, less⟩
      apply ih related
      rw [decide_eq_true_eq] at less
      omega

theorem ends_alike {stop : Char} {pattern : Regex} (avoids : Avoids stop pattern) (opens : tail.head?.all (· = stop) = true)
    {place other : Place} (alike : Alike tail place other) : List.Forall₂ (Alike tail) (pattern.ends place) (pattern.ends other) := by
  induction avoids generalizing place other with
  | @one accepts rejected =>
    have shape := alike.rest
    unfold ends
    cases here : place.rest with
    | nil =>
      rw [here, List.nil_append] at shape
      cases behind : tail with
      | nil =>
        rw [shape, behind]
        exact .nil
      | cons c more =>
        rw [behind, List.head?_cons, Option.all_some, decide_eq_true_eq] at opens
        rw [shape, behind, opens]
        dsimp only
        rw [rejected]
        exact .nil
    | cons c rest =>
      rw [here, List.cons_append] at shape
      rw [shape]
      dsimp only
      split
      · exact .cons ⟨rfl, alike.groups⟩ .nil
      · exact .nil
  | empty => exact .cons alike .nil
  | seq _ _ first second =>
    rw [ends, ends]
    exact List.rel_flatMap (first alike) fun _ _ related => second related
  | alt _ _ first second =>
    rw [ends, ends]
    exact List.rel_append (first alike) (second alike)
  | star _ inner =>
    rw [ends, ends]
    apply iterate_alike (fun _ _ related => inner related) alike
    right
    rw [alike.rest, List.length_append]
    omega
  | upTo _ inner =>
    rw [ends, ends]
    exact iterate_alike (fun _ _ related => inner related) alike (.inl rfl)

theorem match?_alike {stop : Char} {pattern : Regex} (avoids : Avoids stop pattern) (opens : tail.head?.all (· = stop) = true)
    (before before' : Option Char) (rest : List Char) :
    pattern.match? before' (rest ++ tail) = pattern.match? before rest := by
  have related := @ends_alike tail stop pattern avoids opens ⟨before, rest, []⟩ ⟨before', rest ++ tail, []⟩ ⟨rfl, rfl⟩
  unfold match?
  cases ends : pattern.ends ⟨before, rest, []⟩ with
  | nil =>
    rw [ends] at related
    rw [List.forall₂_nil_left_iff.mp related]
  | cons place more =>
    rw [ends] at related
    obtain ⟨other, others, head, _, whole⟩ := List.forall₂_cons_left_iff.mp related
    rw [whole]
    dsimp only
    have lengths : (rest ++ tail).length - other.rest.length = rest.length - place.rest.length := by
      rw [head.rest, List.length_append, List.length_append]
      omega
    have shorter : other.rest.length < (rest ++ tail).length ↔ place.rest.length < rest.length := by
      rw [head.rest, List.length_append, List.length_append]
      omega
    have taken : (rest ++ tail).take (rest.length - place.rest.length) = rest.take (rest.length - place.rest.length) := by
      rw [List.take_append_of_le_length (Nat.sub_le _ _)]
    rw [lengths, taken, head.groups]
    exact if_congr shorter rfl rfl

theorem match?_empty {before : Option Char} {pattern : Regex} : pattern.match? before [] = none := by
  unfold match?
  split
  · rfl
  · exact if_neg (Nat.not_lt_zero _)

theorem pieces_stop {stop : Char} {pattern : Regex} (avoids : Avoids stop pattern) (before before' before'' : Option Char) (skip : Nat)
    (front back : List Char) (within : skip ≤ front.length) :
    (pattern.pieces before skip (front ++ stop :: back)).2.map (·.1.text) =
      (pattern.pieces before' skip front).2.map (·.1.text) ++ (pattern.pieces before'' 0 back).2.map (·.1.text) := by
  have restart : ∀ (one other : Option Char) (skip : Nat) (text : List Char),
      (pattern.pieces one skip text).2.map (·.1.text) = (pattern.pieces other skip text).2.map (·.1.text) := by
    intro one other skip text
    induction text generalizing one other skip with
    | nil => rfl
    | cons c rest ih =>
      cases skip with
      | succ skip => exact ih _ _ _
      | zero =>
        have same := @match?_alike [] _ _ avoids rfl one other (c :: rest)
        rw [List.append_nil] at same
        rw [pieces, pieces, same]
  induction front generalizing before before' skip with
  | nil =>
    obtain rfl := Nat.le_zero.mp within
    have none_ := @match?_alike (stop :: back) _ _ avoids (by simp) none before []
    rw [List.nil_append, match?_empty] at none_
    have skipped : pattern.pieces before 0 (stop :: back) =
        (stop :: (pattern.pieces (some stop) 0 back).1, (pattern.pieces (some stop) 0 back).2) := by
      rw [pieces, none_]
    rw [List.nil_append, skipped]
    exact restart _ _ _ _
  | cons c front ih =>
    cases skip with
    | succ skip => exact ih _ _ _ (Nat.le_of_succ_le_succ within)
    | zero =>
      have same := @match?_alike (stop :: back) _ _ avoids (by simp) before' before (c :: front)
      rw [List.cons_append] at same
      rw [List.cons_append, pieces, pieces, same]
      cases found : pattern.match? before' (c :: front) with
      | none => exact ih _ _ _ (Nat.zero_le _)
      | some found_ =>
        obtain ⟨_, left, shape⟩ := match?_some found
        have length := congrArg List.length shape
        rw [List.length_cons, List.length_append] at length
        dsimp only
        rw [List.map_cons, List.map_cons, List.cons_append, ih (some c) (some c) (found_.text.length - 1) (by omega)]

theorem findAll_stop {stop : Char} {pattern : Regex} (avoids : Avoids stop pattern) (front back : List Char) :
    pattern.findAll (front ++ stop :: back) = pattern.findAll front ++ pattern.findAll back :=
  pieces_stop avoids none none none 0 front back (Nat.zero_le _)

theorem findAll_words {blank : Char → Bool} {pattern : Regex} (avoids : ∀ stop, blank stop = true → Avoids stop pattern)
    (text : List Char) : pattern.findAll text = (words blank text).flatMap pattern.findAll := by
  induction text using word_induction blank with
  | last word plain =>
    rw [words_word plain]
    by_cases empty : word = []
    · rw [if_pos empty, empty]
      rfl
    · rw [if_neg empty, List.flatMap_singleton]
  | next word c rest plain stop ih =>
    rw [words_blank plain stop, findAll_stop (avoids c stop), List.flatMap_append, ih]
    by_cases empty : word = []
    · rw [if_pos empty, empty]
      rfl
    · rw [if_neg empty, List.flatMap_singleton]

theorem findAll_runs (accepts : Char → Bool) (text : List Char) :
    (plus (one accepts)).findAll text = words (fun c => !accepts c) text := by
  have avoids : ∀ stop, (!accepts stop) = true → Avoids stop (plus (one accepts)) := by
    intro stop rejected
    have no : Avoids stop (one accepts) := .one (by simpa using rejected)
    exact .seq no (.star no)
  have whole : ∀ word ≠ [], (∀ c ∈ word, accepts c = true) → (plus (one accepts)).findAll word = [word] := by
    intro word filled all
    have taken : word.takeWhile accepts = word := List.takeWhile_eq_self_iff.mpr all
    have dropped : word.dropWhile accepts = [] := List.dropWhile_eq_nil_iff.mpr all
    have first := @ends_plus_head accepts ⟨none, word, []⟩
    dsimp only at first
    rw [taken, if_neg filled, dropped] at first
    obtain ⟨more, shape⟩ := List.head?_eq_some_iff.mp first
    have matched := @match?_of_ends (plus (one accepts)) none word [] _ more (by rw [List.append_nil]; exact shape) rfl filled
    rw [List.append_nil] at matched
    obtain ⟨c, rest, rfl⟩ := List.exists_cons_of_ne_nil filled
    have skipped := @pieces_skip (plus (one accepts)) (some c) rest []
    rw [List.append_nil] at skipped
    unfold findAll
    rw [pieces, matched]
    dsimp only
    rw [List.length_cons, Nat.add_sub_cancel, skipped]
    rfl
  rw [findAll_words avoids]
  have each : ∀ word ∈ words (fun c => !accepts c) text, (plus (one accepts)).findAll word = [word] := by
    intro word member
    obtain ⟨filled, shown⟩ := words_shown text word member
    exact whole word filled fun c inside => by simpa using shown c inside
  rw [List.flatMap_congr each]
  exact List.flatMap_singleton' _

end Regex

end HarnessMem.Library

/-! What a pattern consumes: a run of the text, made of the characters that its parts accept. A substitution
leaves the text between the matches as it is.
-/

namespace HarnessMem.Library

theorem words_within {blank : Char → Bool} {text word : List Char} (member : word ∈ words blank text) : word <:+: text := by
  obtain ⟨filled, shown⟩ := words_shown text word member
  exact (infix_words filled shown text).mpr ⟨word, member, List.infix_refl _⟩

theorem iterate_related {related : Place → Place → Prop} {next : Place → List Place} (refl : ∀ place, related place place)
    (trans : ∀ one two three, related one two → related two three → related one three)
    (step : ∀ place, ∀ stop ∈ next place, related place stop) {limit : Nat} {place stop : Place}
    (reached : stop ∈ iterate next limit place) : related place stop := by
  induction limit generalizing place with
  | zero =>
    rw [iterate, List.mem_singleton] at reached
    exact reached ▸ refl place
  | succ limit ih =>
    rw [iterate, List.mem_append, List.mem_singleton, List.mem_flatMap] at reached
    rcases reached with ⟨middle, first, later⟩ | rfl
    · exact trans place middle stop (step place middle (List.mem_of_mem_filter first)) (ih later)
    · exact refl stop

namespace Regex

variable {p : Char → Bool}

/-- Every part of the pattern accepts characters of a kind only. -/
inductive Within (p : Char → Bool) : Regex → Prop where
  | one {accepts : Char → Bool} : (∀ c, accepts c = true → p c = true) → Within p (one accepts)
  | check {holds : Option Char → List Char → Bool} : Within p (check holds)
  | seq {first second : Regex} : Within p first → Within p second → Within p (seq first second)
  | alt {first second : Regex} : Within p first → Within p second → Within p (alt first second)
  | star {inner : Regex} : Within p inner → Within p (star inner)
  | upTo {limit : Nat} {inner : Regex} : Within p inner → Within p (upTo limit inner)
  | group {inner : Regex} : Within p inner → Within p (group inner)

theorem within_any (pattern : Regex) : Within (fun _ => true) pattern := by
  induction pattern with
  | one => exact .one fun _ _ => rfl
  | check => exact .check
  | seq _ _ first second => exact .seq first second
  | alt _ _ first second => exact .alt first second
  | star _ inner => exact .star inner
  | upTo _ _ inner => exact .upTo inner
  | group _ inner => exact .group inner

/-- One place lies behind another in the same text, with characters of a kind between them. -/
def Consumed (p : Char → Bool) (place stop : Place) : Prop :=
  ∃ run, place.rest = run ++ stop.rest ∧ ∀ c ∈ run, p c = true

theorem Consumed.refl (place : Place) : Consumed p place place := ⟨[], rfl, fun _ member => absurd member List.not_mem_nil⟩

theorem Consumed.trans {one two three : Place} (first : Consumed p one two) (second : Consumed p two three) : Consumed p one three := by
  obtain ⟨run, shape, kind⟩ := first
  obtain ⟨more, further, others⟩ := second
  refine ⟨run ++ more, by rw [shape, further, List.append_assoc], fun c member => ?_⟩
  rcases List.mem_append.mp member with early | late
  · exact kind c early
  · exact others c late

theorem ends_within {pattern : Regex} (within : Within p pattern) {place stop : Place} (reached : stop ∈ pattern.ends place) :
    Consumed p place stop := by
  induction within generalizing place stop with
  | one kind =>
    obtain ⟨c, rest, shape, accepted, rfl⟩ := mem_ends_one.mp reached
    refine ⟨[c], shape, fun d member => ?_⟩
    rw [List.mem_singleton.mp member]
    exact kind c accepted
  | check =>
    obtain ⟨_, rfl⟩ := mem_ends_check.mp reached
    exact .refl stop
  | seq _ _ first second =>
    obtain ⟨middle, early, late⟩ := mem_ends_seq.mp reached
    exact (first early).trans (second late)
  | alt _ _ first second =>
    rw [ends, List.mem_append] at reached
    exact reached.elim first second
  | star _ inner =>
    rw [ends] at reached
    exact iterate_related Consumed.refl (fun _ _ _ => Consumed.trans) (fun _ _ step => inner step) reached
  | upTo _ inner =>
    rw [ends] at reached
    exact iterate_related Consumed.refl (fun _ _ _ => Consumed.trans) (fun _ _ step => inner step) reached
  | group _ inner =>
    rw [ends, List.mem_map] at reached
    obtain ⟨middle, early, rfl⟩ := reached
    have run : Consumed p place middle := inner early
    exact run

theorem Cuts.matched {pattern : Regex} {before : Option Char} {text front : List Char} {found : List (Match × List Char)}
    (cuts : Cuts pattern before text front found) : ∀ cut ∈ found, ∃ start rest place,
      text = start ++ (cut.1.text ++ rest) ∧ pattern.match? place (cut.1.text ++ rest) = some cut.1 := by
  induction cuts with
  | last => exact List.forall_mem_nil _
  | @found before front rest piece here more _ _ matched _ ih =>
    refine List.forall_mem_cons.mpr ⟨⟨front, rest, _, rfl, matched⟩, fun cut member => ?_⟩
    obtain ⟨start, behind, place, shape, later⟩ := ih cut member
    refine ⟨front ++ (here.text ++ start), behind, place, ?_, later⟩
    rw [shape]
    simp only [List.append_assoc]

theorem pieces_matched (pattern : Regex) (text : List Char) : ∀ cut ∈ (pattern.pieces none 0 text).2, ∃ start rest place,
    text = start ++ (cut.1.text ++ rest) ∧ pattern.match? place (cut.1.text ++ rest) = some cut.1 :=
  (cuts_pieces pattern none text).matched

theorem findAll_within {pattern : Regex} (within : Within p pattern) {text found : List Char} (member : found ∈ pattern.findAll text) :
    ∀ c ∈ found, p c = true := by
  obtain ⟨cut, place, rfl⟩ := List.mem_map.mp member
  obtain ⟨start, rest, before, _, matched⟩ := pieces_matched pattern text cut place
  obtain ⟨stop, reached, _, taken, _⟩ := match?_stop matched
  obtain ⟨run, shape, kind⟩ := ends_within within reached
  dsimp only at shape
  have length := congrArg List.length shape
  rw [List.length_append] at length
  rw [taken, shape, List.length_append, Nat.add_sub_cancel, List.take_left]
  exact kind

theorem infix_of_sub {pattern : Regex} {stop : Char} {part : List Char} (outside : stop ∉ part) {text : List Char}
    (within : part <:+: pattern.sub [stop] text) : part <:+: text := by
  unfold sub at within
  have cuts := cuts_pieces pattern none text
  generalize (pattern.pieces none 0 text).1 = front at within cuts
  generalize (pattern.pieces none 0 text).2 = found at within cuts
  generalize (none : Option Char) = before at cuts
  induction cuts with
  | last =>
    rw [List.flatMap_nil, List.append_nil] at within
    exact within
  | @found before front rest piece here more _ _ _ _ ih =>
    rw [List.flatMap_cons, List.append_assoc, List.singleton_append, infix_stop outside] at within
    rcases within with early | late
    · exact early.trans (List.prefix_append _ _).isInfix
    · have inner := ih late
      exact inner.trans ⟨front ++ here.text, [], by simp⟩

end Regex

end HarnessMem.Library
