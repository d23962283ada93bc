import HarnessMem.Adapters.Snapshot
import HarnessMem.Library.Separators
import HarnessMem.Projection.Headings

/-! Text redaction leaves no private span: what stands before a removed span has no open tag that the
replacement could carry on to a later `>`, since the span itself already held that `>` and a closing tag.
-/

set_option autoImplicit false

/-! ### Letters and lazy repetitions -/

namespace HarnessMem.Library.Regex

theorem mem_ends_ones {kinds : List (Char → Bool)} {place stop : Place} :
    stop ∈ (cat (kinds.map one)).ends place ↔
      ∃ word, place.rest = word ++ stop.rest ∧ List.Forall₂ (fun kind c => kind c = true) kinds word ∧ stop = place.past word stop.rest := by
  induction kinds generalizing place with
  | nil =>
    have alone : (cat (([] : List (Char → Bool)).map one)).ends place = [place] := by simp [cat, empty, ends]
    rw [alone, List.mem_singleton]
    constructor
    · rintro rfl
      exact ⟨[], rfl, .nil, rfl⟩
    · rintro ⟨word, whole, kinds, reached⟩
      cases kinds
      rw [reached, ← show place.rest = stop.rest from whole]
      rfl
  | cons kind kinds ih =>
    have step : cat ((kind :: kinds).map one) = seq (one kind) (cat (kinds.map one)) := rfl
    rw [step, mem_ends_seq]
    constructor
    · rintro ⟨middle, taken, more⟩
      obtain ⟨c, rest, shape, fits, rfl⟩ := mem_ends_one.mp taken
      obtain ⟨word, whole, others, reached⟩ := ih.mp more
      rw [Place.past_past] at reached
      rw [Place.past_rest] at whole
      exact ⟨c :: word, by rw [shape, whole, List.cons_append], .cons fits others, reached⟩
    · rintro ⟨word, whole, fit, reached⟩
      cases fit with
      | @cons _ c _ word fits others =>
        refine ⟨place.past [c] (word ++ stop.rest), mem_ends_one.mpr ⟨c, _, whole, fits, rfl⟩, ih.mpr ⟨word, rfl, others, ?_⟩⟩
        rw [Place.past_past]
        exact reached

theorem mem_ends_ignoreCase {text : String} {place stop : Place} :
    stop ∈ (ignoreCase text).ends place ↔
      ∃ word, place.rest = word ++ stop.rest ∧ List.Forall₂ (fun letter c => sameLetter letter c = true) text.toList word ∧
        stop = place.past word stop.rest := by
  have kinds : ignoreCase text = cat ((text.toList.map sameLetter).map one) := by
    unfold ignoreCase
    rw [List.map_map]
    rfl
  rw [kinds, mem_ends_ones]
  simp only [List.forall₂_map_left_iff]

section

variable {place : Place} {rest : List Char}

theorem past_mem_ignoreCase {text : String} {word : List Char} (shape : place.rest = word ++ rest)
    (letters : List.Forall₂ (fun letter c => sameLetter letter c = true) text.toList word) :
    place.past word rest ∈ (ignoreCase text).ends place :=
  mem_ends_ignoreCase.mpr ⟨word, shape, letters, rfl⟩

theorem past_mem_star {accepts : Char → Bool} {run : List Char} (shape : place.rest = run ++ rest)
    (all : ∀ c ∈ run, accepts c = true) : place.past run rest ∈ (star (one accepts)).ends place :=
  mem_ends_star_one.mpr ⟨run, shape, all, rfl⟩

theorem past_mem_literal {text : String} (shape : place.rest = text.toList ++ rest) :
    place.past text.toList rest ∈ (literal text).ends place := mem_ends_literal.mpr ⟨rest, shape, rfl⟩

end

theorem exists_ends_lazily {next : Regex} {place : Place} {skip rest : List Char} (bare : place.groups = [])
    (shape : place.rest = skip ++ rest) (goesOn : next.ends (place.past skip rest) ≠ []) : (lazily next).ends place ≠ [] := by
  suffices reaches : ∀ limit, skip.length ≤ limit → ∃ middle ∈
      iterate (seq (check fun before rest => (next.ends { before, rest }).isEmpty) (one fun _ => true)).ends limit place,
      next.ends middle ≠ [] by
    obtain ⟨middle, reached, ends⟩ := reaches place.rest.length (by rw [shape, List.length_append]; omega)
    obtain ⟨stop, member⟩ := List.exists_mem_of_ne_nil _ ends
    exact List.ne_nil_of_mem (mem_ends_seq.mpr ⟨middle, reached, member⟩)
  induction skip generalizing place with
  | nil =>
    intro limit _
    rw [List.nil_append] at shape
    rw [← shape, Place.past_nil] at goesOn
    refine ⟨place, ?_, goesOn⟩
    cases limit with
    | zero => exact List.mem_singleton_self _
    | succ limit => exact List.mem_append_right _ (List.mem_singleton_self _)
  | cons c skip ih =>
    intro limit enough
    cases limit with
    | zero => exact absurd enough (by simp)
    | succ limit =>
      by_cases here : next.ends place = []
      · have later := @ih (place.past [c] (skip ++ rest)) bare rfl (by rw [Place.past_past]; exact goesOn) limit
          (Nat.le_of_succ_le_succ enough)
        obtain ⟨middle, reached, ends⟩ := later
        refine ⟨middle, List.mem_append_left _ (List.mem_flatMap.mpr ⟨_, List.mem_filter.mpr ⟨?_, ?_⟩, reached⟩), ends⟩
        · refine mem_ends_seq.mpr ⟨place, mem_ends_check.mpr ⟨?_, rfl⟩, mem_ends_one.mpr ⟨c, skip ++ rest, shape, rfl, rfl⟩⟩
          have same : ({ before := place.before, rest := place.rest } : Place) = place := by rw [← bare]
          rw [same, here]
          rfl
        · simp [shape]
      · exact ⟨place, List.mem_append_right _ (List.mem_singleton_self _), here⟩

end HarnessMem.Library.Regex

/-! ### Private spans -/

namespace HarnessMem.Adapters.Snapshot

open Library Library.Regex
open Projection (Text Unicode)

def Spells (text : String) (word : Text) : Prop := List.Forall₂ (fun letter c => sameLetter letter c = true) text.toList word

/-- A text that `</private\s*>` matches. -/
def Closing (text : Text) : Prop := ∃ word blanks, text = word ++ blanks ++ ['>'] ∧ Spells "</private" word ∧ ∀ c ∈ blanks, isSpace c = true

/-- What follows a tag: the rest of the tag up to its `>`, and behind it a closing tag. -/
def Closed (text : Text) : Prop := ∃ run skip closing rest, text = run ++ '>' :: (skip ++ (closing ++ rest)) ∧ '>' ∉ run ∧ Closing closing

variable {unicode : Unicode}

def Spanned (unicode : Unicode) (text : Text) : Prop :=
  ∃ tag rest, text = tag ++ rest ∧ Spells "<private" tag ∧ (tag.getLast?.any unicode.isWord != rest.head?.any unicode.isWord) = true ∧
    Closed rest

theorem Spells.not_mem {text : String} {word : Text} {mark : Char} (spells : Spells text word)
    (other : ∀ letter ∈ text.toList, sameLetter letter mark = false) : mark ∉ word := by
  unfold Spells at spells
  intro member
  obtain ⟨place, inside, here⟩ := List.getElem_of_mem member
  have same := List.Forall₂.get spells (spells.length_eq ▸ inside) inside
  rw [List.get_eq_getElem, List.get_eq_getElem, here, other _ (List.getElem_mem _)] at same
  cases same

theorem span_of_ends {before : Option Char} {text : Text} {stop : Place}
    (reached : stop ∈ (privateTextRe unicode).ends { before, rest := text }) :
    ∃ tag run skip closing, text = tag ++ (run ++ '>' :: (skip ++ (closing ++ stop.rest))) ∧ Spells "<private" tag ∧
      (tag.getLast?.any unicode.isWord != (run ++ '>' :: (skip ++ (closing ++ stop.rest))).head?.any unicode.isWord) = true ∧
      '>' ∉ run ∧ Closing closing := by
  have angle : ">".toList = ['>'] := by decide
  unfold privateTextRe cat at reached
  simp only [List.foldr_cons, List.foldr_nil] at reached
  obtain ⟨tagged, spelled, afterTag⟩ := mem_ends_seq.mp reached
  obtain ⟨bounded, boundary, afterBoundary⟩ := mem_ends_seq.mp afterTag
  obtain ⟨passed, ran, afterRun⟩ := mem_ends_seq.mp afterBoundary
  obtain ⟨opened, marked, afterMark⟩ := mem_ends_seq.mp afterRun
  obtain ⟨closed, body, last⟩ := mem_ends_seq.mp afterMark
  obtain ⟨_, rfl⟩ := mem_ends_check.mp last
  obtain ⟨skipped, lazy, closes⟩ := mem_ends_seq.mp body
  obtain ⟨worded, spelledToo, afterWord⟩ := mem_ends_seq.mp closes
  obtain ⟨blanked, blank, afterBlanks⟩ := mem_ends_seq.mp afterWord
  obtain ⟨ended, ending, last⟩ := mem_ends_seq.mp afterBlanks
  obtain ⟨_, rfl⟩ := mem_ends_check.mp last
  obtain ⟨tag, shape, spells, same⟩ := mem_ends_ignoreCase.mp spelled
  obtain ⟨bound, rfl⟩ := mem_ends_check.mp boundary
  obtain ⟨run, ranOn, others, _⟩ := mem_ends_star_one.mp ran
  obtain ⟨left, mark, rfl⟩ := mem_ends_literal.mp marked
  obtain ⟨skip, behind, _⟩ := ends_within (within_any _) lazy
  obtain ⟨word, closing, spellsToo, _⟩ := mem_ends_ignoreCase.mp spelledToo
  obtain ⟨blanks, blankOn, blankAll, _⟩ := mem_ends_star_one.mp blank
  obtain ⟨rest, final, rfl⟩ := mem_ends_literal.mp ending
  rw [angle] at mark final
  rw [Place.past_rest] at behind ⊢
  have whole : text = tag ++ (run ++ '>' :: (skip ++ (word ++ blanks ++ ['>'] ++ rest))) := by
    rw [show text = tag ++ bounded.rest from shape, ranOn, mark, behind, closing, blankOn, final]
    simp only [List.append_assoc, List.singleton_append]
  have filled : tag ≠ [] := List.ne_nil_of_length_pos (by rw [← spells.length_eq]; decide)
  have named := List.getLast?_eq_some_getLast filled
  refine ⟨tag, run, skip, word ++ blanks ++ ['>'], whole, spells, ?_, ?_, word, blanks, rfl, spellsToo, blankAll⟩
  · have behindTag : bounded.rest = run ++ '>' :: (skip ++ (word ++ blanks ++ ['>'] ++ rest)) :=
      List.append_cancel_left ((show text = tag ++ bounded.rest from shape).symm.trans whole)
    have before : bounded.before = tag.getLast? := by
      rw [same]
      exact (congrArg (Option.or · _) named).trans named.symm
    rw [← before, ← behindTag]
    exact bound
  · intro inside
    simpa using others _ inside

theorem ends_of_spanned {before : Option Char} {text : Text} (spanned : Spanned unicode text) :
    (privateTextRe unicode).ends { before, rest := text } ≠ [] := by
  have angle : ">".toList = ['>'] := by decide
  obtain ⟨tag, behind, rfl, spells, bound, run, skip, closing, rest, rfl, apart, word, blanks, rfl, spellsToo, blankAll⟩ := spanned
  have filled : tag ≠ [] := List.ne_nil_of_length_pos (by rw [← spells.length_eq]; decide)
  have named := List.getLast?_eq_some_getLast filled
  let start : Place := { before, rest := tag ++ (run ++ '>' :: (skip ++ (word ++ blanks ++ ['>'] ++ rest))) }
  let tagged := start.past tag (run ++ '>' :: (skip ++ (word ++ blanks ++ ['>'] ++ rest)))
  let passed := tagged.past run ('>' :: (skip ++ (word ++ blanks ++ ['>'] ++ rest)))
  let opened := passed.past ">".toList (skip ++ (word ++ blanks ++ ['>'] ++ rest))
  let behind := opened.past skip (word ++ blanks ++ ['>'] ++ rest)
  have closes : (cat [ignoreCase "</private", star (one isSpace), literal ">"]).ends behind ≠ [] := by
    have spelledToo : behind.past word (blanks ++ '>' :: rest) ∈ (ignoreCase "</private").ends behind :=
      past_mem_ignoreCase (by simp [behind]) spellsToo
    have blank : (behind.past word (blanks ++ '>' :: rest)).past blanks ('>' :: rest) ∈ (star (one isSpace)).ends _ :=
      past_mem_star rfl blankAll
    have ending : ((behind.past word (blanks ++ '>' :: rest)).past blanks ('>' :: rest)).past ">".toList rest ∈
        (literal ">").ends ((behind.past word (blanks ++ '>' :: rest)).past blanks ('>' :: rest)) :=
      past_mem_literal (by rw [angle]; rfl)
    exact List.ne_nil_of_mem (mem_ends_seq.mpr ⟨_, spelledToo, mem_ends_seq.mpr ⟨_, blank, mem_ends_seq.mpr
      ⟨_, ending, mem_ends_check.mpr ⟨rfl, rfl⟩⟩⟩⟩)
  obtain ⟨stop, member⟩ := List.exists_mem_of_ne_nil _ (@exists_ends_lazily _ opened _ _ rfl rfl closes)
  have spelled : tagged ∈ (ignoreCase "<private").ends start := past_mem_ignoreCase rfl spells
  have boundary : tagged ∈ (wordBoundary unicode.isWord).ends tagged := by
    refine mem_ends_check.mpr ⟨?_, rfl⟩
    rw [show tagged.before = tag.getLast? from (congrArg (Option.or · _) named).trans named.symm]
    exact bound
  have ran : passed ∈ (star (one fun c => c != '>')).ends tagged := by
    refine past_mem_star rfl fun c member => ?_
    rw [bne_iff_ne]
    rintro rfl
    exact apart member
  have marked : opened ∈ (literal ">").ends passed := past_mem_literal (by rw [angle]; rfl)
  exact List.ne_nil_of_mem (mem_ends_seq.mpr ⟨_, spelled, mem_ends_seq.mpr ⟨_, boundary, mem_ends_seq.mpr ⟨_, ran, mem_ends_seq.mpr
    ⟨_, marked, mem_ends_seq.mpr ⟨_, member, mem_ends_check.mpr ⟨rfl, rfl⟩⟩⟩⟩⟩⟩)

theorem ends_eq_nil {before : Option Char} {text : Text} :
    (privateTextRe unicode).ends { before, rest := text } = [] ↔ ¬Spanned unicode text := by
  constructor
  · exact fun none spanned => ends_of_spanned spanned none
  · intro unspanned
    refine List.eq_nil_iff_forall_not_mem.mpr fun stop reached => unspanned ?_
    obtain ⟨tag, run, skip, closing, shape, spells, bound, apart, closes⟩ := span_of_ends reached
    exact ⟨tag, _, shape, spells, bound, run, skip, closing, stop.rest, rfl, apart, closes⟩

theorem match?_eq_none {before : Option Char} {text : Text} :
    (privateTextRe unicode).match? before text = none ↔ ¬Spanned unicode text := by
  rw [match?_eq_none_iff, ends_eq_nil]
  intro stop reached
  obtain ⟨tag, run, skip, closing, shape, _⟩ := span_of_ends reached
  rw [shape]
  simp only [List.length_append, List.length_cons]
  omega

theorem sameLetter_angle {c : Char} (same : sameLetter '<' c = true) : c = '<' := by
  have lower : c.toLower = '<' → c = '<' := by
    unfold Char.toLower
    split
    · next upper =>
      intro equal
      have value := congrArg (fun letter => letter.val.toNat) equal
      simp only [UInt32.toNat_add] at value
      have low : 65 ≤ c.val.toNat := upper.1
      have high : c.val.toNat ≤ 90 := upper.2
      have here : '<'.val.toNat = 60 := rfl
      have shift : ('a'.val - 'A'.val).toNat = 32 := rfl
      omega
    · exact id
  have either : c = '<' ∨ c.toLower = '<' := by simpa [sameLetter, show '<'.toLower = '<' from rfl] using same
  exact either.elim id lower

theorem Spells.head {tag : Text} (spells : Spells "<private" tag) : ∃ rest, tag = '<' :: rest := by
  have letters : "<private".toList = '<' :: "private".toList := by decide
  unfold Spells at spells
  rw [letters] at spells
  cases spells with
  | @cons _ c _ rest same _ => exact ⟨rest, by rw [sameLetter_angle same]⟩

/-- A private span starts with `<`. -/
theorem Spanned.head {text : Text} (spanned : Spanned unicode text) : ∃ rest, text = '<' :: rest := by
  obtain ⟨tag, rest, rfl, spells, _⟩ := spanned
  obtain ⟨letters, rfl⟩ := spells.head
  exact ⟨letters ++ rest, rfl⟩

/-! ### What the replacement leaves -/

theorem privateRedaction_plain : ∀ c ∈ privateRedaction, c ≠ '<' := by decide

theorem Spanned.restored (standard : unicode.Standard) {tag run skip closing : Text} (spells : Spells "<private" tag)
    (closes : Closing closing) {back more rest : Text} (spanned : Spanned unicode (back ++ (privateRedaction ++ more))) :
    Spanned unicode (back ++ (tag ++ (run ++ '>' :: (skip ++ closing)) ++ rest)) := by
  have bracket : ∃ tail, privateRedaction = '[' :: tail := ⟨privateRedaction.tail, by decide⟩
  obtain ⟨tail, opens⟩ := bracket
  obtain ⟨own, behind, shape, mine, bound, _⟩ := spanned
  have split : ∃ left, back = own ++ left ∧ behind = left ++ (privateRedaction ++ more) := by
    rcases List.append_eq_append_iff.mp shape with ⟨_ | ⟨c, left⟩, whole, behind⟩ | ⟨left, whole, behind⟩
    · exact ⟨[], by rw [whole]; simp, behind.symm⟩
    · rw [opens, List.cons_append, List.cons_append] at behind
      have foreign : '[' ∉ own := mine.not_mem (by decide)
      rw [whole, ← (List.cons.inj behind).1] at foreign
      exact absurd (List.mem_append_right _ List.mem_cons_self) foreign
    · exact ⟨left, whole, behind⟩
  obtain ⟨left, rfl, rfl⟩ := split
  obtain ⟨letters, rfl⟩ := spells.head
  refine ⟨own, left ++ ('<' :: letters ++ (run ++ '>' :: (skip ++ closing)) ++ rest), by simp, mine, ?_, ?_⟩
  · cases left with
    | nil =>
      rw [opens] at bound
      simpa [standard.ascii, Unicode.ascii] using bound
    | cons c left => exact bound
  · -- The first `>` from here on is at the latest that of the removed tag, and its closing tag is behind it.
    obtain ⟨first, between, cut, apart⟩ := List.eq_append_cons_of_mem
      (show '>' ∈ left ++ ('<' :: letters ++ (run ++ ['>'])) by simp)
    refine ⟨first, between ++ skip, closing, rest, ?_, apart, closes⟩
    have whole := congrArg (· ++ (skip ++ (closing ++ rest))) cut
    simpa using whole

def replaced (front : Text) (found : List (Match × Text)) : Text := front ++ found.flatMap fun cut => privateRedaction ++ cut.2

theorem replaced_unspanned (standard : unicode.Standard) {before : Option Char} {text front : Text} {found : List (Match × Text)}
    (cuts : Cuts (privateTextRe unicode) before text front found) :
    ∀ start back, replaced front found = start ++ back → ¬Spanned unicode back := by
  have nothing : ¬Spanned unicode [] := fun spanned => by
    obtain ⟨rest, shape⟩ := spanned.head
    cases shape
  have plain : ∀ {left back more : Text}, left ++ back = privateRedaction → back ≠ [] → ¬Spanned unicode (back ++ more) := by
    intro left back more whole filled spanned
    obtain ⟨rest, shape⟩ := spanned.head
    cases back with
    | nil => exact filled rfl
    | cons c back =>
      refine privateRedaction_plain c ?_ (List.cons.inj shape).1
      rw [← whole]
      exact List.mem_append_right _ List.mem_cons_self
  induction cuts with
  | @last before text unmatched =>
    intro start back whole
    unfold replaced at whole
    rw [List.flatMap_nil, List.append_nil] at whole
    cases back with
    | nil => exact nothing
    | cons c back =>
      have none := unmatched start (c :: back) whole (List.cons_ne_nil _ _)
      rw [List.append_nil] at none
      exact match?_eq_none.mp none
  | @found before front rest piece here more unmatched filled matched _ ih =>
    intro start back whole
    have parts : replaced front ((here, piece) :: more) = front ++ (privateRedaction ++ replaced piece more) := by
      simp [replaced]
    rw [parts] at whole
    rcases List.append_eq_append_iff.mp whole with ⟨inner, shape, behind⟩ | ⟨left, shape, behind⟩
    · rcases List.append_eq_append_iff.mp behind with ⟨later, _, last⟩ | ⟨rim, split, last⟩
      · exact ih later back last
      · rw [last]
        cases rim with
        | nil => exact ih [] _ rfl
        | cons c rim => exact plain split.symm (List.cons_ne_nil _ _)
    · rw [behind]
      cases left with
      | nil => exact @plain [] privateRedaction _ rfl (by decide)
      | cons c left =>
        intro spanned
        obtain ⟨stop, reached, _, taken, _⟩ := match?_stop matched
        obtain ⟨tag, run, skip, closing, span, spells, _, _, closes⟩ := span_of_ends reached
        have text : here.text = tag ++ (run ++ '>' :: (skip ++ closing)) := by
          have whole : here.text ++ rest = tag ++ (run ++ '>' :: (skip ++ closing)) ++ stop.rest := by rw [span]; simp
          rw [taken, whole, List.length_append, Nat.add_sub_cancel, List.take_left]
        have none := unmatched start (c :: left) shape (List.cons_ne_nil _ _)
        rw [text] at none
        exact match?_eq_none.mp none (spanned.restored standard spells closes)

/-- `redact_private_text`: the text without its private spans, and how many went. -/
def redactPrivateTextCounted (unicode : Unicode) (value : Text) : Text × Nat :=
  (redactPrivateText unicode value, ((privateTextRe unicode).pieces none 0 value).2.length)

theorem search_unspanned {text : Text} (none : ∀ start back, text = start ++ back → ¬Spanned unicode back) :
    (privateTextRe unicode).search text = false := by
  unfold search
  generalize (Option.none : Option Char) = before
  induction text generalizing before with
  | nil =>
    rw [searchFrom, ends_eq_nil.mpr (none [] [] rfl)]
    rfl
  | cons c text ih =>
    rw [searchFrom, ends_eq_nil.mpr (none [] _ rfl), ih fun start back whole => none (c :: start) back (by rw [whole, List.cons_append])]
    rfl

/-- A redacted text has no private span, and redacting it again takes nothing out. -/
theorem redactPrivateText_leaves_none (standard : unicode.Standard) (value : Text) :
    (privateTextRe unicode).search (redactPrivateTextCounted unicode value).1 = false ∧
      redactPrivateTextCounted unicode (redactPrivateTextCounted unicode value).1 = ((redactPrivateTextCounted unicode value).1, 0) := by
  have none := replaced_unspanned standard (cuts_pieces (privateTextRe unicode) Option.none value)
  have same : (redactPrivateTextCounted unicode value).1 =
      replaced ((privateTextRe unicode).pieces Option.none 0 value).1 ((privateTextRe unicode).pieces Option.none 0 value).2 := rfl
  rw [same]
  generalize replaced _ _ = left at none
  refine ⟨search_unspanned none, ?_⟩
  have cut : (privateTextRe unicode).pieces Option.none 0 left = (left, []) := by
    refine (Cuts.last fun start back whole _ => ?_).pieces
    rw [List.append_nil]
    exact match?_eq_none.mpr (none start back whole)
  unfold redactPrivateTextCounted redactPrivateText sub
  rw [cut, List.flatMap_nil, List.append_nil]
  rfl

theorem redactPrivateText_leaves_none_ascii :
    (privateTextRe .ascii).search (redactPrivateTextCounted .ascii "<priv<private>a</private>ate>b</private>".toList).1 = false ∧
      redactPrivateTextCounted .ascii (redactPrivateTextCounted .ascii "<priv<private>a</private>ate>b</private>".toList).1 =
        ((redactPrivateTextCounted .ascii "<priv<private>a</private>ate>b</private>".toList).1, 0) :=
  redactPrivateText_leaves_none Projection.ascii_standard _

end HarnessMem.Adapters.Snapshot
