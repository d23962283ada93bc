import HarnessMem.Library.Regex

/-! Searching a text for the first mark that a run of characters follows. What stands in front of a
stop that neither the mark nor the run may contain decides the search before what stands behind it.
-/

set_option autoImplicit false

namespace HarnessMem.Library

def universalNewlines : List Char → List Char
  | [] => []
  | '\r' :: '\n' :: rest => '\n' :: universalNewlines rest
  | '\r' :: rest => '\n' :: universalNewlines rest
  | c :: rest => c :: universalNewlines rest

theorem universalNewlines_cons {c : Char} (plain : c ≠ '\r') (rest : List Char) :
    universalNewlines (c :: rest) = c :: universalNewlines rest := by
  cases rest with
  | nil => simp [universalNewlines]
  | cons d rest => simp [universalNewlines, plain]

theorem universalNewlines_plain {text : List Char} (plain : '\r' ∉ text) : universalNewlines text = text := by
  induction text with
  | nil => rfl
  | cons c rest ih =>
    rw [List.mem_cons, not_or] at plain
    rw [universalNewlines_cons (Ne.symm plain.1), ih plain.2]

theorem universalNewlines_append (front : List Char) {back : List Char} (starts : back.head? ≠ some '\n') :
    universalNewlines (front ++ back) = universalNewlines front ++ universalNewlines back := by
  induction front using universalNewlines.induct with
  | case1 => rfl
  | case2 rest ih => rw [List.cons_append, List.cons_append, universalNewlines, universalNewlines, ih, List.cons_append]
  | case3 rest alone ih =>
    have apart : ∀ more, rest ++ back = '\n' :: more → False := by
      intro more shape
      cases rest with
      | nil => exact starts (by rw [← List.nil_append back, shape]; rfl)
      | cons d rest => exact alone rest (by rw [(List.cons.inj shape).1])
    rw [List.cons_append, universalNewlines.eq_3 _ apart, universalNewlines.eq_3 _ alone, ih, List.cons_append]
  | case4 c rest notPair notReturn ih =>
    have plain : c ≠ '\r' := fun same => notReturn same
    rw [List.cons_append, universalNewlines_cons plain, universalNewlines_cons plain, ih, List.cons_append]

theorem last_stop_inj {stop : Char} {front front' word word' : List Char} (same : front ++ stop :: word = front' ++ stop :: word')
    (whole : stop ∉ word) (whole' : stop ∉ word') : front = front' ∧ word = word' := by
  rcases List.append_eq_append_iff.mp same with ⟨gap, rfl, tail⟩ | ⟨gap, rfl, tail⟩
  · cases gap with
    | nil => exact ⟨(List.append_nil _).symm, (List.cons.inj tail).2⟩
    | cons c gap => exact absurd ((List.cons.inj tail).2 ▸ List.mem_append_right _ List.mem_cons_self) whole
  · cases gap with
    | nil => exact ⟨List.append_nil _, (List.cons.inj tail).2.symm⟩
    | cons c gap => exact absurd ((List.cons.inj tail).2 ▸ List.mem_append_right _ List.mem_cons_self) whole'

namespace Regex

/-- `pattern.search(text)`. -/
def firstMatch (pattern : Regex) : Option Char → List Char → Option Match
  | _, [] => none
  | before, c :: rest => (pattern.match? before (c :: rest)).or (pattern.firstMatch (some c) rest)

def marked (mark : String) (accepts : Char → Bool) : Regex := seq (literal mark) (group (plus (one accepts)))

variable {accepts : Char → Bool}

theorem iterate_one_head {limit : Nat} {place : Place} (enough : (place.rest.takeWhile accepts).length ≤ limit) :
    (iterate (one accepts).ends limit place).head? =
      some (place.past (place.rest.takeWhile accepts) (place.rest.dropWhile accepts)) := by
  induction limit generalizing place with
  | zero =>
    have nothing := List.length_eq_zero_iff.mp (Nat.le_zero.mp enough)
    have whole := List.takeWhile_append_dropWhile (p := accepts) (l := place.rest)
    rw [nothing, List.nil_append] at whole
    rw [nothing, whole, Place.past_nil]
    rfl
  | succ limit ih =>
    unfold iterate
    cases shape : place.rest with
    | nil =>
      have here := Place.past_nil place
      rw [shape] at here
      simp [ends, shape, here]
    | cons c rest =>
      by_cases fits : accepts c = true
      · have reached : (one accepts).ends place = [place.past [c] rest] := by simp [ends, shape, fits, Place.past]
        have shorter : (place.past [c] rest).rest.length < place.rest.length := by simp [Place.past, shape]
        have within : ((place.past [c] rest).rest.takeWhile accepts).length ≤ limit := by
          rw [shape, List.takeWhile_cons_of_pos fits, List.length_cons] at enough
          exact Nat.le_of_succ_le_succ enough
        have next := ih within
        rw [shape] at shorter
        rw [reached, List.filter_cons_of_pos (by simpa only [decide_eq_true_eq] using shorter), List.filter_nil, List.flatMap_singleton,
          List.head?_append, next, List.takeWhile_cons_of_pos fits, List.dropWhile_cons_of_pos fits, Option.some_or,
          Place.past_past]
        rfl
      · have here := Place.past_nil place
        rw [shape] at here
        simp [ends, shape, fits, here]

theorem ends_plus_head {place : Place} :
    ((plus (one accepts)).ends place).head? = if place.rest.takeWhile accepts = [] then none else
      some (place.past (place.rest.takeWhile accepts) (place.rest.dropWhile accepts)) := by
  unfold plus
  rw [ends]
  cases shape : place.rest with
  | nil => simp [ends, shape]
  | cons c rest =>
    by_cases fits : accepts c = true
    · have reached : (one accepts).ends place = [place.past [c] rest] := by simp [ends, shape, fits, Place.past]
      have longest := @iterate_one_head accepts rest.length (place.past [c] rest)
        (List.takeWhile_sublist accepts).length_le
      rw [reached, List.flatMap_singleton, ends]
      rw [show (place.past [c] rest).rest.length = rest.length from rfl, longest, List.takeWhile_cons_of_pos fits,
        List.dropWhile_cons_of_pos fits, if_neg (List.cons_ne_nil _ _), Place.past_past]
      rfl
    · simp [ends, shape, fits]

theorem match?_marked {mark : String} {before : Option Char} {rest : List Char} :
    (marked mark accepts).match? before (mark.toList ++ rest) = if rest.takeWhile accepts = [] then none else
      some ⟨mark.toList ++ rest.takeWhile accepts, [rest.takeWhile accepts]⟩ := by
  have starts : (literal mark).ends { before, rest := mark.toList ++ rest } =
      [Place.past { before, rest := mark.toList ++ rest } mark.toList rest] := by
    rw [ends_literal, if_pos (List.prefix_append _ _), List.drop_left]
  have found := @ends_plus_head accepts (Place.past { before, rest := mark.toList ++ rest } mark.toList rest)
  rw [Place.past_rest] at found
  have whole := List.takeWhile_append_dropWhile (p := accepts) (l := rest)
  unfold match? marked
  rw [ends, starts, List.flatMap_singleton, ends]
  cases reached : (plus (one accepts)).ends (Place.past { before, rest := mark.toList ++ rest } mark.toList rest) with
  | nil =>
    rw [reached] at found
    split at found
    · next nothing => rw [if_pos nothing]; rfl
    · cases found
  | cons stop more =>
    rw [reached] at found
    split at found
    · cases found
    · next filled =>
      obtain rfl := Option.some.inj found
      have lengths := congrArg List.length whole
      rw [List.length_append] at lengths
      have positive := List.length_pos_iff.mpr filled
      have taken : rest.length - (rest.dropWhile accepts).length = (rest.takeWhile accepts).length := by omega
      have consumed : (mark.toList ++ rest).length - (rest.dropWhile accepts).length =
          (mark.toList ++ rest.takeWhile accepts).length := by
        simp only [List.length_append]
        omega
      have shorter : (rest.dropWhile accepts).length < (mark.toList ++ rest).length := by
        rw [List.length_append]
        omega
      have run := List.takeWhile_prefix (l := rest) accepts
      have shown := (List.prefix_iff_eq_take.mp run).symm
      have shown' := (List.prefix_iff_eq_take.mp ((List.prefix_append_right_inj mark.toList).mpr run)).symm
      rw [if_neg filled, List.map_cons]
      dsimp only [Place.past_rest, Place.past_groups]
      rw [if_pos shorter, consumed, taken, shown', shown, List.nil_append]

theorem match?_unmarked {mark : String} {before : Option Char} {rest : List Char} (absent : ¬ mark.toList <+: rest) :
    (marked mark accepts).match? before rest = none := by
  unfold match? marked
  rw [ends, ends_literal, if_neg absent]
  rfl

theorem match?_marked_groups {mark : String} {before : Option Char} {rest : List Char} {found : Match}
    (matched : (marked mark accepts).match? before rest = some found) : ∃ run, found.groups = [run] := by
  by_cases starts : mark.toList <+: rest
  · obtain ⟨rest, rfl⟩ := starts
    rw [match?_marked] at matched
    split at matched
    · cases matched
    · obtain rfl := Option.some.inj matched
      exact ⟨_, rfl⟩
  · rw [match?_unmarked starts] at matched
    cases matched

theorem firstMatch_marked_groups {mark : String} {before : Option Char} {text : List Char} {found : Match}
    (matched : (marked mark accepts).firstMatch before text = some found) : ∃ run, found.groups = [run] := by
  induction text generalizing before with
  | nil => cases matched
  | cons c text ih =>
    rw [firstMatch, Option.or_eq_some_iff] at matched
    rcases matched with here | ⟨_, later⟩
    · exact match?_marked_groups here
    · exact ih later

theorem match?_marked_stop {mark : String} {stop : Char} (outside : stop ∉ mark.toList) (stops : accepts stop = false)
    (before : Option Char) (front back : List Char) :
    (marked mark accepts).match? before (front ++ stop :: back) = (marked mark accepts).match? before (front ++ [stop]) := by
  have runs : ∀ rest : List Char, (rest ++ stop :: back).takeWhile accepts = (rest ++ [stop]).takeWhile accepts := by
    intro rest
    induction rest with
    | nil => simp [stops]
    | cons c rest ih => simp only [List.cons_append, List.takeWhile_cons, ih]
  by_cases starts : mark.toList <+: front
  · obtain ⟨rest, rfl⟩ := starts
    rw [List.append_assoc, List.append_assoc, match?_marked, match?_marked, runs]
  · have apart : ∀ more : List Char, ¬ mark.toList <+: front ++ stop :: more := by
      intro more opens
      have longer : front ++ [stop] <+: front ++ stop :: more := ⟨more, by simp⟩
      rcases List.prefix_or_prefix_of_prefix opens longer with inside | inside
      · rcases List.prefix_concat_iff.mp inside with whole | within
        · exact outside (by simp [whole])
        · exact starts within
      · exact outside (inside.subset (by simp))
    rw [match?_unmarked (apart back), match?_unmarked (apart [])]

theorem firstMatch_stop {mark : String} {stop : Char} (outside : stop ∉ mark.toList) (stops : accepts stop = false)
    (before : Option Char) (front back : List Char) :
    (marked mark accepts).firstMatch before (front ++ stop :: back) =
      ((marked mark accepts).firstMatch before (front ++ [stop])).or
        ((marked mark accepts).firstMatch (some stop) back) := by
  induction front generalizing before with
  | nil =>
    have here := match?_marked_stop outside stops before [] back
    rw [List.nil_append, List.nil_append] at here
    rw [List.nil_append, List.nil_append, firstMatch, firstMatch, here, Option.or_assoc]
    rfl
  | cons c front ih =>
    have here := match?_marked_stop outside stops before (c :: front) back
    rw [List.cons_append, List.cons_append] at here
    rw [List.cons_append, List.cons_append, firstMatch, firstMatch, here, ih, Option.or_assoc]

theorem firstMatch_here {mark : String} {run back : List Char} (shown : mark ≠ "") (filled : run ≠ [])
    (all : ∀ c ∈ run, accepts c = true) (stops : back.head?.all (accepts · = false) = true) (before : Option Char) :
    (marked mark accepts).firstMatch before (mark.toList ++ (run ++ back)) = some ⟨mark.toList ++ run, [run]⟩ := by
  have behind : back.takeWhile accepts = [] := by
    cases back with
    | nil => rfl
    | cons c back =>
      have stop : accepts c = false := by simpa using stops
      simp [stop]
  have taken : (run ++ back).takeWhile accepts = run := by
    rw [List.takeWhile_append_of_pos all, behind, List.append_nil]
  have found := @match?_marked accepts mark before (run ++ back)
  rw [taken, if_neg filled] at found
  cases whole : mark.toList with
  | nil => exact absurd (String.toList_inj.mp whole) shown
  | cons c more =>
    rw [whole] at found
    rw [List.cons_append] at found ⊢
    rw [firstMatch, found, Option.some_or]

end Regex

end HarnessMem.Library
