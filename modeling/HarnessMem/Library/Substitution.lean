import HarnessMem.Library.Regex

/-! Replacing the matches of a pattern, and following a position of the text through it:
each character of the result that was not put in comes from one place, and the edits
tell where a place went.
-/

set_option autoImplicit false

namespace HarnessMem.Library.Regex

variable (pattern : Regex)

/-- `.*?` with the flag `s`, up to the first place where the pattern goes on with `next`. -/
def lazily (next : Regex) : Regex :=
  seq (star (seq (check fun before rest => (next.ends { before, rest }).isEmpty) (one fun _ => true))) next

/-- `pattern.sub(replacement, text)`, of a replacement without escapes. -/
def sub (replacement text : List Char) : List Char :=
  (pattern.pieces none 0 text).1 ++ (pattern.pieces none 0 text).2.flatMap fun cut => replacement ++ cut.2

/-- The start and the end of each match, where the first one starts at `start`. -/
def spansFrom : Nat → List (Match × List Char) → List (Nat × Nat)
  | _, [] => []
  | start, (found, gap) :: rest =>
    (start, start + found.text.length) :: spansFrom (start + found.text.length + gap.length) rest

/-- `(m.start(), m.end())` of the matches of `pattern.finditer(text)`. -/
def spans (text : List Char) : List (Nat × Nat) :=
  spansFrom (pattern.pieces none 0 text).1.length (pattern.pieces none 0 text).2

/-- Where the characters come from that stand for matches and the gaps behind them: `none` in a replacement. -/
def originsFrom (size : Nat) : Nat → List (Match × List Char) → List (Option Nat)
  | _, [] => []
  | start, (found, gap) :: rest =>
    List.replicate size none ++ ((List.range' (start + found.text.length) gap.length).map some ++
      originsFrom size (start + found.text.length + gap.length) rest)

def origins (size : Nat) (text : List Char) : List (Option Nat) :=
  (List.range (pattern.pieces none 0 text).1.length).map some ++
    originsFrom size (pattern.pieces none 0 text).1.length (pattern.pieces none 0 text).2

/-! ### Origins -/

section

variable {pattern}

def pieced (found : List (Match × List Char)) : List Char := found.flatMap fun cut => cut.1.text ++ cut.2

theorem length_originsFrom (replacement : List Char) (start : Nat) (found : List (Match × List Char)) :
    (originsFrom replacement.length start found).length = (found.flatMap fun cut => replacement ++ cut.2).length := by
  induction found generalizing start with
  | nil => rfl
  | cons cut rest ih =>
    rw [originsFrom, List.flatMap_cons, List.length_append, List.length_append, List.length_append, List.length_append, ih]
    simp
    omega

theorem length_origins (replacement text : List Char) :
    (pattern.origins replacement.length text).length = (pattern.sub replacement text).length := by
  unfold origins sub
  rw [List.length_append, List.length_append, length_originsFrom, List.length_map, List.length_range]

theorem cuts_filled {before : Option Char} {text front : List Char} {found : List (Match × List Char)}
    (cuts : Cuts pattern before text front found) : ∀ cut ∈ found, cut.1.text ≠ [] := by
  induction cuts with
  | last => exact List.forall_mem_nil _
  | found _ filled _ _ ih => exact List.forall_mem_cons.mpr ⟨filled, ih⟩

/-! ### Edits -/

/-- Where a position goes that no edit covers, from a shift on. An edit is its start, its end and the size of
its replacement. -/
def survivingFrom (position : Int) : Int → List (Nat × Nat × Nat) → Option Int
  | delta, [] => some (position + delta)
  | delta, (start, stop, size) :: edits =>
    if start ≤ position ∧ position < stop then none
    else if stop ≤ position then survivingFrom position (delta + (size - (stop - start))) edits
    else survivingFrom position delta edits

def survivingPosition (position : Int) (edits : List (Nat × Nat × Nat)) : Option Int := survivingFrom position 0 edits

def edited (size : Nat) (spans : List (Nat × Nat)) : List (Nat × Nat × Nat) := spans.map fun span => (span.1, span.2, size)

theorem survivingFrom_before {position : Int} (delta : Int) (size start : Nat) (found : List (Match × List Char))
    (early : position < start) : survivingFrom position delta (edited size (spansFrom start found)) = some (position + delta) := by
  induction found generalizing start with
  | nil => rfl
  | cons cut rest ih =>
    obtain ⟨here, gap⟩ := cut
    have later := ih (start + here.text.length + gap.length) (by omega)
    unfold edited at later
    rw [spansFrom, edited, List.map_cons, survivingFrom, if_neg (by omega), if_neg (by omega)]
    exact later

theorem survivingFrom_origin {position start : Nat} (delta : Int) (size : Nat) (found : List (Match × List Char))
    (late : start ≤ position) (inside : position < start + (pieced found).length) {moved : Int}
    (survives : survivingFrom position delta (edited size (spansFrom start found)) = some moved) :
    ∃ place : Nat, moved = start + delta + place ∧ (originsFrom size start found)[place]? = some (some position) := by
  induction found generalizing start delta with
  | nil =>
    simp [pieced] at inside
    omega
  | cons cut rest ih =>
    obtain ⟨here, gap⟩ := cut
    have lengths : (pieced ((here, gap) :: rest)).length = here.text.length + gap.length + (pieced rest).length := by
      simp only [pieced, List.flatMap_cons, List.length_append]
    rw [lengths] at inside
    rw [spansFrom, edited, List.map_cons, survivingFrom] at survives
    split at survives
    · cases survives
    · next uncovered =>
      have behind : start + here.text.length ≤ position := by omega
      rw [if_pos (by omega)] at survives
      rw [originsFrom]
      rcases Nat.lt_or_ge position (start + here.text.length + gap.length) with near | far
      · have stays := survivingFrom_before (delta + (size - (((start + here.text.length : Nat) : Int) - start))) size
          (start + here.text.length + gap.length) rest (show (position : Int) < _ by omega)
        unfold edited at stays
        have same := Option.some.inj (stays.symm.trans survives)
        refine ⟨size + (position - (start + here.text.length)), by omega, ?_⟩
        rw [List.getElem?_append_right (by simp), List.length_replicate, Nat.add_sub_cancel_left,
          List.getElem?_append_left (by simp; omega), List.getElem?_map, List.getElem?_range' (by omega)]
        simp
        omega
      · obtain ⟨place, moves, stems⟩ := ih (delta + (size - (((start + here.text.length : Nat) : Int) - start))) far (by omega)
          survives
        refine ⟨size + (gap.length + place), by omega, ?_⟩
        rw [List.getElem?_append_right (by simp), List.length_replicate, Nat.add_sub_cancel_left,
          List.getElem?_append_right (by simp), List.length_map, List.length_range', Nat.add_sub_cancel_left]
        exact stems

theorem survivingPosition_origin {text : List Char} {position size : Nat} (inside : position < text.length) {moved : Int}
    (survives : survivingPosition position (edited size (pattern.spans text)) = some moved) :
    ∃ place : Nat, moved = place ∧ (pattern.origins size text)[place]? = some (some position) := by
  have flat := (cuts_pieces pattern none text).flatten
  have total := congrArg List.length flat
  unfold survivingPosition spans at survives
  unfold origins
  generalize (pattern.pieces none 0 text).1 = front at total survives ⊢
  generalize (pattern.pieces none 0 text).2 = found at total survives ⊢
  rw [List.length_append] at total
  rcases Nat.lt_or_ge position front.length with near | far
  · rw [survivingFrom_before 0 size front.length found (by omega)] at survives
    refine ⟨position, by have := Option.some.inj survives; omega, ?_⟩
    rw [List.getElem?_append_left (by simpa using near), List.getElem?_map, List.getElem?_range near]
    rfl
  · obtain ⟨place, moves, stems⟩ := survivingFrom_origin 0 size found far (by unfold pieced; omega) survives
    refine ⟨front.length + place, by omega, ?_⟩
    rw [List.getElem?_append_right (by simp), List.length_map, List.length_range, Nat.add_sub_cancel_left]
    exact stems

end

end HarnessMem.Library.Regex
