import HarnessMem.Library.Text

/-! Lower case by the Unicode tables, with the rule for a sigma at the end of a word,
and the words between blanks. Lowering a text lowers it word by word.
-/

set_option autoImplicit false

namespace HarnessMem.Library

def asciiLower (c : Char) : Char := if 65 ≤ c.toNat ∧ c.toNat ≤ 90 then Char.ofNat (c.toNat + 32) else c

theorem not_isAlpha_of_isSpace {c : Char} (stop : isSpace c = true) : ¬ (65 ≤ c.toNat ∧ c.toNat ≤ 90) ∧ c.isAlpha = false := by
  have bounds : (c.toNat < 65 ∨ 122 < c.toNat) := by
    simp only [isSpace, Bool.or_eq_true, Bool.and_eq_true, decide_eq_true_eq, beq_iff_eq] at stop
    omega
  refine ⟨by omega, ?_⟩
  rw [Bool.eq_false_iff, Ne, isAlpha_iff]
  omega

theorem not_isSpace_of_upper {c : Char} (upper : 65 ≤ c.toNat ∧ c.toNat ≤ 90) : isSpace (Char.ofNat (c.toNat + 32)) = false := by
  have all : ∀ n < 91, 65 ≤ n → isSpace (Char.ofNat (n + 32)) = false := by decide
  exact all c.toNat (by omega) upper.1

def kelvin : Char := Char.ofNat 0x212A

def dottedI : Char := Char.ofNat 0x130

def capitalSigma : Char := Char.ofNat 0x3A3

/-- The tables behind the lower case of a text, with what is relied on of them: they lower the letters of ASCII,
nothing but the Kelvin sign and the dotted I to a letter of ASCII, and leave blanks alone. -/
structure Casing where
  lowerChar : Char → List Char
  cased : Char → Bool
  ignorable : Char → Bool
  ascii : ∀ c, c.toNat < 128 → lowerChar c = [asciiLower c]
  outside : ∀ c, 128 ≤ c.toNat → c ≠ kelvin → c ≠ dottedI → ∀ d ∈ lowerChar c, 128 ≤ d.toNat
  filled : ∀ c, lowerChar c ≠ []
  blank : ∀ c, isSpace c = true → lowerChar c = [c] ∧ cased c = false ∧ ignorable c = false
  visible : ∀ c, isSpace c = false → ∀ d ∈ lowerChar c, isSpace d = false

namespace Casing

variable (casing : Casing)

def startsCased (text : List Char) : Bool :=
  match text.find? fun c => !casing.ignorable c with
  | some c => casing.cased c
  | none => false

def lowerFrom : Bool → List Char → List Char
  | _, [] => []
  | behind, c :: rest =>
    (if c = capitalSigma then [Char.ofNat (if behind && !casing.startsCased rest then 0x3C2 else 0x3C3)]
      else casing.lowerChar c) ++ lowerFrom (if casing.ignorable c then behind else casing.cased c) rest

/-- `str.lower` and `to_lowercase`. -/
def lower (text : List Char) : List Char := casing.lowerFrom false text

def basic : Casing where
  lowerChar c := if c = kelvin then ['k'] else if c = dottedI then ['i', Char.ofNat 0x307] else [asciiLower c]
  cased c := c.isAlpha
  ignorable _ := false
  ascii c bound := by
    have first : c ≠ kelvin := by
      rintro rfl
      revert bound
      decide
    have second : c ≠ dottedI := by
      rintro rfl
      revert bound
      decide
    rw [if_neg first, if_neg second]
  outside c bound first second d member := by
    rw [if_neg first, if_neg second, List.mem_singleton] at member
    rw [member, asciiLower, if_neg (by omega)]
    exact bound
  filled c := by
    split
    · exact List.cons_ne_nil _ _
    · split <;> exact List.cons_ne_nil _ _
  blank c stop := by
    have first : c ≠ kelvin := by
      rintro rfl
      revert stop
      decide
    have second : c ≠ dottedI := by
      rintro rfl
      revert stop
      decide
    have other := not_isAlpha_of_isSpace stop
    refine ⟨?_, other.2, rfl⟩
    rw [if_neg first, if_neg second, asciiLower, if_neg other.1]
  visible c shown d member := by
    split at member
    · rw [List.mem_singleton.mp member]
      decide
    · split at member
      · revert d
        decide
      · rw [List.mem_singleton.mp member]
        unfold asciiLower
        split
        · next upper => exact not_isSpace_of_upper upper
        · exact shown

end Casing

/-! ### Words -/

variable {blank : Char → Bool}

def wordsFrom (blank : Char → Bool) (current : List Char) : List Char → List (List Char)
  | [] => if current = [] then [] else [current]
  | c :: rest =>
    if blank c then (if current = [] then [] else [current]) ++ wordsFrom blank [] rest
    else wordsFrom blank (current ++ [c]) rest

def words (blank : Char → Bool) (text : List Char) : List (List Char) := wordsFrom blank [] text

/-- `" ".join`. -/
def spaced (parts : List (List Char)) : List Char := [' '].intercalate parts

@[simp] theorem spaced_nil : spaced [] = [] := rfl

@[simp] theorem spaced_singleton (word : List Char) : spaced [word] = word := by simp [spaced, List.intercalate]

theorem spaced_cons (word : List Char) {parts : List (List Char)} (more : parts ≠ []) :
    spaced (word :: parts) = word ++ ' ' :: spaced parts := by
  cases parts with
  | nil => exact absurd rfl more
  | cons second others => simp [spaced, List.intercalate]

theorem wordsFrom_append {current word rest : List Char} (shown : ∀ c ∈ word, blank c = false) :
    wordsFrom blank current (word ++ rest) = wordsFrom blank (current ++ word) rest := by
  induction word generalizing current with
  | nil => rw [List.nil_append, List.append_nil]
  | cons c word ih =>
    rw [List.cons_append, wordsFrom, if_neg (by rw [shown c (List.mem_cons_self ..)]; exact Bool.false_ne_true),
      ih fun d member => shown d (List.mem_cons_of_mem _ member), List.append_assoc]
    rfl

theorem words_word {word : List Char} (shown : ∀ c ∈ word, blank c = false) :
    words blank word = if word = [] then [] else [word] := by
  have whole := @wordsFrom_append _ [] word [] shown
  rw [List.append_nil, List.nil_append] at whole
  exact whole

theorem words_blank {word rest : List Char} {c : Char} (shown : ∀ d ∈ word, blank d = false) (stop : blank c = true) :
    words blank (word ++ c :: rest) = (if word = [] then [] else [word]) ++ words blank rest := by
  unfold words
  rw [wordsFrom_append shown, List.nil_append, wordsFrom, if_pos stop]

theorem exists_word (blank : Char → Bool) (text : List Char) : ∃ word, (∀ c ∈ word, blank c = false) ∧
    (text = word ∨ ∃ c rest, text = word ++ c :: rest ∧ blank c = true) := by
  induction text with
  | nil => exact ⟨[], nofun, .inl rfl⟩
  | cons c rest ih =>
    by_cases stop : blank c = true
    · exact ⟨[], nofun, .inr ⟨c, rest, rfl, stop⟩⟩
    · obtain ⟨word, shown, ends⟩ := ih
      refine ⟨c :: word, ?_, ?_⟩
      · intro d member
        cases member with
        | head => simpa using stop
        | tail _ later => exact shown d later
      · cases ends with
        | inl whole => exact .inl (by rw [whole])
        | inr further =>
          obtain ⟨d, more, whole, last⟩ := further
          exact .inr ⟨d, more, by rw [whole]; rfl, last⟩

theorem word_induction (blank : Char → Bool) {motive : List Char → Prop}
    (last : ∀ word, (∀ c ∈ word, blank c = false) → motive word)
    (next : ∀ word c rest, (∀ d ∈ word, blank d = false) → blank c = true → motive rest → motive (word ++ c :: rest)) :
    ∀ text, motive text := by
  intro text
  induction size : text.length using Nat.strong_induction_on generalizing text with
  | _ bound ih =>
    obtain ⟨word, shown, ends⟩ := exists_word blank text
    cases ends with
    | inl whole => exact whole ▸ last word shown
    | inr further =>
      obtain ⟨c, rest, rfl, stop⟩ := further
      have shorter : rest.length < bound := by
        rw [← size, List.length_append, List.length_cons]
        omega
      exact next word c rest shown stop (ih rest.length shorter rest rfl)

theorem words_shown (text : List Char) : ∀ word ∈ words blank text, word ≠ [] ∧ ∀ c ∈ word, blank c = false := by
  induction text using word_induction blank with
  | last word shown =>
    intro other member
    rw [words_word shown] at member
    split at member
    · cases member
    · next filled => exact List.mem_singleton.mp member ▸ ⟨filled, shown⟩
  | next word c rest shown stop ih =>
    intro other member
    rw [words_blank shown stop] at member
    cases List.mem_append.mp member with
    | inl first =>
      split at first
      · cases first
      · next filled => exact List.mem_singleton.mp first ▸ ⟨filled, shown⟩
    | inr later => exact ih other later

theorem words_congr {blank other : Char → Bool} {text : List Char} (same : ∀ c ∈ text, blank c = other c) :
    words blank text = words other text := by
  have alike : ∀ current, wordsFrom blank current text = wordsFrom other current text := by
    induction text with
    | nil => exact fun _ => rfl
    | cons c rest ih =>
      intro current
      have later := ih fun d member => same d (List.mem_cons_of_mem _ member)
      rw [wordsFrom, wordsFrom, same c (List.mem_cons_self ..), later, later]
  exact alike []

/-! ### Single spaces -/

/-- `re.sub(r"\s+", " ", text)`, inside a run of blanks or not. -/
def subSpaces : Bool → List Char → List Char
  | _, [] => []
  | inside, c :: rest =>
    if isSpace c then (if inside then [] else [' ']) ++ subSpaces true rest
    else c :: subSpaces false rest

theorem subSpaces_shown {word rest : List Char} (shown : ∀ c ∈ word, isSpace c = false) (filled : word ≠ []) (inside : Bool) :
    subSpaces inside (word ++ rest) = word ++ subSpaces false rest := by
  induction word generalizing inside with
  | nil => exact absurd rfl filled
  | cons c word ih =>
    rw [List.cons_append, subSpaces, if_neg (by rw [shown c (List.mem_cons_self ..)]; exact Bool.false_ne_true)]
    cases word with
    | nil => rfl
    | cons d word =>
      rw [ih (fun e member => shown e (List.mem_cons_of_mem _ member)) (List.cons_ne_nil _ _)]
      rfl

theorem subSpaces_true (text : List Char) : ∃ tail, (tail = [] ∨ tail = [' '] ∧ words isSpace text ≠ []) ∧
    subSpaces true text = spaced (words isSpace text) ++ tail := by
  induction text using word_induction isSpace with
  | last word shown =>
    refine ⟨[], .inl rfl, ?_⟩
    rw [words_word shown, List.append_nil]
    split
    · next empty => rw [empty]; rfl
    · next filled =>
      have whole := @subSpaces_shown word [] shown filled true
      rw [List.append_nil] at whole
      rw [whole, spaced_singleton]
      exact List.append_nil _
  | next word c rest shown stop ih =>
    obtain ⟨tail, ends, spread⟩ := ih
    rw [words_blank shown stop]
    by_cases empty : word = []
    · refine ⟨tail, ?_, ?_⟩
      · rw [empty]
        exact ends
      · rw [empty, List.nil_append, subSpaces, if_pos stop, spread]
        rfl
    · rw [if_neg empty, subSpaces_shown shown empty, subSpaces, if_pos stop, spread]
      cases more : words isSpace rest with
      | nil =>
        rw [more] at ends
        cases ends with
        | inl none => exact ⟨[' '], .inr ⟨rfl, List.cons_ne_nil _ _⟩, by rw [none]; simp⟩
        | inr impossible => exact absurd rfl impossible.2
      | cons second others =>
        refine ⟨tail, ?_, ?_⟩
        · cases ends with
          | inl none => exact .inl none
          | inr one => exact .inr ⟨one.1, List.cons_ne_nil _ _⟩
        · rw [List.singleton_append, spaced_cons word (List.cons_ne_nil _ _)]
          simp

theorem strip_core {lead core tail : List Char} (before : ∀ c ∈ lead, isSpace c = true) (behind : ∀ c ∈ tail, isSpace c = true)
    (first : ∀ c, core.head? = some c → isSpace c = false) (last : ∀ c, core.getLast? = some c → isSpace c = false) :
    strip (lead ++ (core ++ tail)) = core := by
  have dropped : ∀ (front back : List Char), (∀ c ∈ front, isSpace c = true) → (∀ c, back.head? = some c → isSpace c = false) →
      (front ++ back).dropWhile isSpace = back := by
    intro front back blanks shown
    rw [List.dropWhile_append_of_pos blanks]
    cases back with
    | nil => rfl
    | cons c rest => rw [List.dropWhile_cons, shown c rfl, if_neg Bool.false_ne_true]
  unfold strip
  by_cases empty : core = []
  · rw [empty, List.nil_append]
    have all : ∀ c ∈ lead ++ tail, isSpace c = true := by
      intro c member
      cases List.mem_append.mp member with
      | inl early => exact before c early
      | inr late => exact behind c late
    have none := dropped (lead ++ tail) [] all nofun
    rw [List.append_nil] at none
    rw [none]
    rfl
  · rw [dropped lead (core ++ tail) before]
    · rw [List.reverse_append, dropped tail.reverse core.reverse (fun c member => behind c (List.mem_reverse.mp member)),
        List.reverse_reverse]
      intro c found
      rw [List.head?_reverse] at found
      exact last c found
    · intro c found
      rw [List.head?_append_of_ne_nil _ empty] at found
      exact first c found

theorem spaced_ends {parts : List (List Char)} (shown : ∀ word ∈ parts, word ≠ [] ∧ ∀ c ∈ word, isSpace c = false) :
    (∀ c, (spaced parts).head? = some c → isSpace c = false) ∧ ∀ c, (spaced parts).getLast? = some c → isSpace c = false := by
  induction parts with
  | nil => exact ⟨nofun, nofun⟩
  | cons word others ih =>
    have ⟨filled, own⟩ := shown word (List.mem_cons_self ..)
    have later := ih fun other member => shown other (List.mem_cons_of_mem _ member)
    cases others with
    | nil =>
      rw [spaced_singleton]
      exact ⟨fun c found => own c (List.mem_of_mem_head? found), fun c found => own c (List.mem_of_getLast? found)⟩
    | cons second rest =>
      rw [spaced_cons word (List.cons_ne_nil _ _)]
      constructor
      · intro c found
        rw [List.head?_append_of_ne_nil _ filled] at found
        exact own c (List.mem_of_mem_head? found)
      · intro c found
        apply later.2 c
        have more : spaced (second :: rest) ≠ [] := by
          have ⟨full, _⟩ := shown second (List.mem_cons_of_mem _ (List.mem_cons_self ..))
          cases rest with
          | nil => rwa [spaced_singleton]
          | cons third others =>
            rw [spaced_cons second (List.cons_ne_nil _ _)]
            exact List.append_ne_nil_of_left_ne_nil full _
        rw [List.getLast?_append_of_ne_nil _ (List.cons_ne_nil _ _), List.getLast?_cons_of_ne_nil more] at found
        exact found

/-- `re.sub(r"\s+", " ", text).strip()` is the words with single spaces. -/
theorem strip_subSpaces (text : List Char) : strip (subSpaces false text) = spaced (words isSpace text) := by
  obtain ⟨tail, ends, spread⟩ := subSpaces_true text
  have blanks : ∀ c ∈ tail, isSpace c = true := by
    intro c member
    cases ends with
    | inl none => rw [none] at member; cases member
    | inr one => rw [one.1, List.mem_singleton] at member; rw [member]; decide
  have shown := spaced_ends (@words_shown isSpace text)
  -- outside a run the text only has a space more where it begins with a blank
  have lead : ∃ front, (∀ c ∈ front, isSpace c = true) ∧ subSpaces false text = front ++ subSpaces true text := by
    cases text with
    | nil => exact ⟨[], nofun, rfl⟩
    | cons c rest =>
      by_cases stop : isSpace c = true
      · refine ⟨[' '], ?_, ?_⟩
        · intro d member
          rw [List.mem_singleton.mp member]
          decide
        · rw [subSpaces, subSpaces, if_pos stop, if_pos stop]
          rfl
      · refine ⟨[], nofun, ?_⟩
        rw [subSpaces, subSpaces, if_neg stop, if_neg stop]
        rfl
  obtain ⟨front, before, whole⟩ := lead
  rw [whole, spread]
  exact strip_core before blanks shown.1 shown.2

/-! ### Lowering word by word -/

namespace Casing

variable {casing : Casing}

theorem isSpace_capitalSigma : isSpace capitalSigma = false := by decide

theorem startsCased_append {text rest : List Char} (ends : rest = [] ∨ ∃ c more, rest = c :: more ∧ isSpace c = true) :
    casing.startsCased (text ++ rest) = casing.startsCased text := by
  unfold startsCased
  rw [List.find?_append]
  cases text.find? fun c => !casing.ignorable c with
  | some c => rfl
  | none =>
    cases ends with
    | inl empty => rw [empty]; rfl
    | inr further =>
      obtain ⟨c, more, rfl, blank⟩ := further
      have ⟨_, plain, kept⟩ := casing.blank c blank
      rw [List.find?_cons_of_pos (by rw [kept]; rfl)]
      exact plain

def state (casing : Casing) (behind : Bool) (word : List Char) : Bool :=
  word.foldl (fun behind c => if casing.ignorable c then behind else casing.cased c) behind

theorem lowerFrom_append {word rest : List Char} (ends : rest = [] ∨ ∃ c more, rest = c :: more ∧ isSpace c = true)
    (behind : Bool) : casing.lowerFrom behind (word ++ rest) =
      casing.lowerFrom behind word ++ casing.lowerFrom (casing.state behind word) rest := by
  induction word generalizing behind with
  | nil => rfl
  | cons c word ih =>
    rw [List.cons_append, lowerFrom, lowerFrom, ih, startsCased_append ends, List.append_assoc]
    rfl

theorem lowerFrom_blank {c : Char} (blank : isSpace c = true) (behind : Bool) (rest : List Char) :
    casing.lowerFrom behind (c :: rest) = c :: casing.lower rest := by
  have ⟨same, plain, kept⟩ := casing.blank c blank
  have other : c ≠ capitalSigma := by
    intro sigma
    rw [sigma, isSpace_capitalSigma] at blank
    cases blank
  rw [lowerFrom, if_neg other, same, kept, plain]
  rfl

theorem lowerFrom_shown {word : List Char} (shown : ∀ c ∈ word, isSpace c = false) (behind : Bool) :
    ∀ c ∈ casing.lowerFrom behind word, isSpace c = false := by
  induction word generalizing behind with
  | nil => exact nofun
  | cons c word ih =>
    intro d member
    rw [lowerFrom] at member
    cases List.mem_append.mp member with
    | inl first =>
      split at first
      · rw [List.mem_singleton.mp first]
        split <;> decide
      · exact casing.visible c (shown c (List.mem_cons_self ..)) d first
    | inr later => exact ih (fun e there => shown e (List.mem_cons_of_mem _ there)) _ d later

theorem lower_shown {word : List Char} (shown : ∀ c ∈ word, isSpace c = false) : ∀ c ∈ casing.lower word, isSpace c = false :=
  lowerFrom_shown shown false

theorem lower_ne_nil {word : List Char} (filled : word ≠ []) : casing.lower word ≠ [] := by
  cases word with
  | nil => exact absurd rfl filled
  | cons c word =>
    unfold lower
    rw [lowerFrom]
    apply List.append_ne_nil_of_left_ne_nil
    split
    · exact List.cons_ne_nil _ _
    · exact casing.filled c

theorem lower_blank {word rest : List Char} {c : Char} (blank : isSpace c = true) :
    casing.lower (word ++ c :: rest) = casing.lower word ++ c :: casing.lower rest := by
  unfold lower
  rw [lowerFrom_append (.inr ⟨c, rest, rfl, blank⟩), lowerFrom_blank blank]
  rfl

theorem words_lower (text : List Char) : words isSpace (casing.lower text) = (words isSpace text).map casing.lower := by
  induction text using word_induction isSpace with
  | last word shown =>
    rw [words_word shown, words_word (lower_shown shown)]
    by_cases empty : word = []
    · rw [empty]
      rfl
    · rw [if_neg empty, if_neg (lower_ne_nil empty)]
      rfl
  | next word c rest shown stop ih =>
    rw [lower_blank stop, words_blank shown stop, words_blank (lower_shown shown) stop, ih, List.map_append]
    by_cases empty : word = []
    · rw [empty]
      rfl
    · rw [if_neg empty, if_neg (lower_ne_nil empty)]
      rfl

theorem lower_spaced (parts : List (List Char)) : casing.lower (spaced parts) = spaced (parts.map casing.lower) := by
  induction parts with
  | nil => rfl
  | cons word others ih =>
    cases others with
    | nil => rw [List.map_singleton, spaced_singleton, spaced_singleton]
    | cons second rest =>
      rw [spaced_cons word (List.cons_ne_nil second rest), lower_blank (show isSpace ' ' = true by decide), ih]
      exact (spaced_cons (casing.lower word) (List.cons_ne_nil _ _)).symm

theorem strip_subSpaces_lower (text : List Char) :
    strip (subSpaces false (casing.lower text)) = casing.lower (spaced (words isSpace text)) := by
  rw [strip_subSpaces, words_lower, lower_spaced]

end Casing

end HarnessMem.Library

/-! Texts whose words stand one space apart: `" ".join(value.split())` and what stays as it is
under it.
-/

namespace HarnessMem.Library

variable {blank : Char → Bool}

theorem splitOnP_filled (text : List Char) :
    ((text.splitOnP blank).filter fun piece => !piece.isEmpty) = words blank text := by
  have single : ∀ word : List Char, ([word].filter fun piece => !piece.isEmpty) = if word = [] then [] else [word] := by
    intro word
    cases word <;> rfl
  induction text using word_induction blank with
  | last word shown =>
    rw [List.splitOnP_eq_singleton (by simpa using shown), words_word shown, single]
  | next word c rest shown stop ih =>
    rw [List.splitOnP_append_cons _ _ stop, words_blank shown stop, List.filter_append, ih,
      List.splitOnP_eq_singleton (by simpa using shown), single]

theorem collapseSpaces_eq (value : String) : collapseSpaces value = String.ofList (spaced (words isSpace value.toList)) := by
  unfold collapseSpaces spaced
  rw [splitOnP_filled]

theorem words_spaced (space : blank ' ' = true) {parts : List (List Char)}
    (shown : ∀ word ∈ parts, word ≠ [] ∧ ∀ c ∈ word, blank c = false) : words blank (spaced parts) = parts := by
  induction parts with
  | nil => rfl
  | cons word others ih =>
    have ⟨filled, own⟩ := shown word (List.mem_cons_self ..)
    have later := ih fun other member => shown other (List.mem_cons_of_mem _ member)
    cases others with
    | nil => rw [spaced_singleton, words_word own, if_neg filled]
    | cons second rest =>
      rw [spaced_cons word (List.cons_ne_nil _ _), words_blank own space, if_neg filled, later]
      rfl

@[simp] theorem collapseSpaces_collapseSpaces (value : String) : collapseSpaces (collapseSpaces value) = collapseSpaces value := by
  simp only [collapseSpaces_eq, String.toList_ofList, words_spaced (show isSpace ' ' = true by decide) (words_shown _)]

@[simp] theorem stripped_collapseSpaces (value : String) : stripped (collapseSpaces value) = collapseSpaces value := by
  have ends := spaced_ends (@words_shown isSpace value.toList)
  have core := @strip_core [] (spaced (words isSpace value.toList)) [] nofun nofun ends.1 ends.2
  rw [List.nil_append, List.append_nil] at core
  rw [collapseSpaces_eq, stripped, String.toList_ofList, core]

theorem words_ne_nil {text : List Char} {c : Char} (member : c ∈ text) (shown : blank c = false) : words blank text ≠ [] := by
  induction text using word_induction blank with
  | last word all =>
    rw [words_word all, if_neg (List.ne_nil_of_mem member)]
    exact List.cons_ne_nil _ _
  | next word d rest all stop ih =>
    rw [words_blank all stop]
    rcases List.mem_append.mp member with early | late
    · rw [if_neg (List.ne_nil_of_mem early)]
      exact List.cons_ne_nil _ _
    · cases late with
      | head => exact absurd stop (by rw [shown]; exact Bool.false_ne_true)
      | tail _ later => exact List.append_ne_nil_of_right_ne_nil _ (ih later)

theorem collapseSpaces_ne_empty {value : String} {c : Char} (member : c ∈ value.toList) (shown : isSpace c = false) :
    collapseSpaces value ≠ "" := by
  intro empty
  have words_left := words_ne_nil member shown
  rw [collapseSpaces_eq, ← String.ofList_nil, String.ofList_inj] at empty
  cases shape : words isSpace value.toList with
  | nil => exact words_left shape
  | cons word others =>
    have filled := (words_shown value.toList word (by rw [shape]; exact List.mem_cons_self)).1
    rw [shape] at empty
    cases others with
    | nil => exact filled (by rwa [spaced_singleton] at empty)
    | cons second rest =>
      rw [spaced_cons word (List.cons_ne_nil _ _)] at empty
      exact filled (List.append_eq_nil_iff.mp empty).1

end HarnessMem.Library
