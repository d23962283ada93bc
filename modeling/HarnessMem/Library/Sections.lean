import HarnessMem.Library.Regex
import Mathlib.Data.List.Basic

/-! A text in parts, and the parts between the marks it is split at. -/

set_option autoImplicit false

namespace HarnessMem.Library

variable {α : Type}

theorem intercalate_part {mark part : List α} {parts : List (List α)} (member : part ∈ parts) :
    ∃ front rest, mark.intercalate parts = front ++ (part ++ rest) ∧
      (front = [] ∨ ∃ before, front = before ++ mark) ∧ (rest = [] ∨ ∃ more, rest = mark ++ more) := by
  induction parts with
  | nil => cases member
  | cons first others ih =>
    cases others with
    | nil =>
      obtain rfl := List.mem_singleton.mp member
      exact ⟨[], [], by simp [List.intercalate], .inl rfl, .inl rfl⟩
    | cons second others =>
      have joined : mark.intercalate (first :: second :: others) =
          first ++ (mark ++ mark.intercalate (second :: others)) := by
        simp [List.intercalate]
      rcases List.mem_cons.mp member with rfl | later
      · exact ⟨[], _, joined, .inl rfl, .inr ⟨_, rfl⟩⟩
      · obtain ⟨front, rest, whole, before, behind⟩ := ih later
        refine ⟨first ++ (mark ++ front), rest, ?_, .inr ?_, behind⟩
        · rw [joined, whole]
          simp only [List.append_assoc]
        · rcases before with rfl | ⟨early, rfl⟩
          · exact ⟨first, by rw [List.append_nil]⟩
          · exact ⟨first ++ (mark ++ early), by simp only [List.append_assoc]⟩

theorem intercalate_cons_ne_nil {mark part : List α} {parts : List (List α)} (more : parts ≠ []) :
    mark.intercalate (part :: parts) = part ++ (mark ++ mark.intercalate parts) := by
  obtain ⟨next, rest, rfl⟩ := List.exists_cons_of_ne_nil more
  rw [List.intercalate_cons_cons, List.append_assoc]

theorem intercalate_snoc_append (mark : List α) (parts : List (List α)) (head tail : List α) :
    mark.intercalate (parts ++ [head ++ tail]) = mark.intercalate (parts ++ [head]) ++ tail := by
  induction parts with
  | nil => simp [List.intercalate]
  | cons part parts ih =>
    rw [List.cons_append, List.cons_append, intercalate_cons_ne_nil (by simp), intercalate_cons_ne_nil (by simp), ih]
    simp only [List.append_assoc]

theorem intercalate_snoc_nil (mark : List α) (parts : List (List α)) (last : List α) :
    mark.intercalate (parts ++ [last, []]) = mark.intercalate (parts ++ [last]) ++ mark := by
  induction parts with
  | nil => simp [List.intercalate]
  | cons part parts ih =>
    rw [List.cons_append, List.cons_append, intercalate_cons_ne_nil (by simp), intercalate_cons_ne_nil (by simp), ih]
    simp only [List.append_assoc]

theorem splitOnP_apart {p : α → Bool} {part text : List α} (member : part ∈ text.splitOnP p) : ∀ c ∈ part, p c = false := by
  induction text generalizing part with
  | nil =>
    rw [List.splitOnP_nil, List.mem_singleton] at member
    subst member
    exact nofun
  | cons c text ih =>
    rw [List.splitOnP_cons_eq_if_modifyHead] at member
    obtain ⟨first, others, parts⟩ := List.exists_cons_of_ne_nil (List.splitOnP_ne_nil p text)
    split at member
    · rcases List.mem_cons.mp member with rfl | later
      · exact nofun
      · exact ih later
    · next stays =>
      rw [parts] at ih member
      rcases List.mem_cons.mp member with rfl | later
      · rintro d inside
        rcases List.mem_cons.mp inside with rfl | inside
        · exact Bool.not_eq_true _ ▸ stays
        · exact ih List.mem_cons_self d inside
      · exact ih (List.mem_cons_of_mem _ later)

variable [BEq α] [LawfulBEq α]

theorem splitOn_unbroken {mark : α} {part text : List α} (member : part ∈ text.splitOn mark) : mark ∉ part := by
  induction text generalizing part with
  | nil =>
    rw [List.splitOn_nil, List.mem_singleton] at member
    subst member
    exact List.not_mem_nil
  | cons c text ih =>
    rw [List.splitOn_cons_eq_if_modifyHead] at member
    split at member
    · rcases List.mem_cons.mp member with rfl | later
      · exact List.not_mem_nil
      · exact ih later
    · next differs =>
      obtain ⟨first, others, parts⟩ := List.exists_cons_of_ne_nil (List.splitOn_ne_nil mark text)
      rw [parts] at ih member
      rcases List.mem_cons.mp member with rfl | later
      · rw [List.mem_cons, not_or]
        exact ⟨fun same => differs (by simp [same]), ih List.mem_cons_self⟩
      · exact ih (List.mem_cons_of_mem _ later)

theorem mem_splitOn {mark : α} {part text : List α} :
    part ∈ text.splitOn mark ↔ mark ∉ part ∧ ∃ front rest, text = front ++ (part ++ rest) ∧
      (front = [] ∨ ∃ before, front = before ++ [mark]) ∧ (rest = [] ∨ ∃ more, rest = mark :: more) := by
  constructor
  · intro member
    refine ⟨splitOn_unbroken member, ?_⟩
    have found := @intercalate_part _ [mark] _ _ member
    rwa [List.intercalate_splitOn] at found
  · rintro ⟨unbroken, front, rest, rfl, before, behind⟩
    have here : part ∈ (part ++ rest).splitOn mark := by
      rcases behind with rfl | ⟨more, rfl⟩
      · rw [List.append_nil, List.splitOn_eq_singleton unbroken]
        exact List.mem_singleton_self _
      · rw [List.splitOn_append_cons_self_of_not_mem unbroken]
        exact List.mem_cons_self
    rcases before with rfl | ⟨early, rfl⟩
    · exact here
    · rw [List.append_assoc, List.singleton_append, List.splitOn_append_cons_self]
      exact List.mem_append_right _ here

theorem splitOn_append_of_not_mem {mark : α} {front : List α} (unbroken : mark ∉ front) (text : List α) :
    (front ++ text).splitOn mark = (text.splitOn mark).modifyHead (front ++ ·) := by
  induction front with
  | nil =>
    obtain ⟨first, others, parts⟩ := List.exists_cons_of_ne_nil (List.splitOn_ne_nil mark text)
    simp [parts]
  | cons c front ih =>
    rw [List.mem_cons, not_or] at unbroken
    rw [List.cons_append, List.splitOn_cons_eq_if_modifyHead, if_neg (by simp [Ne.symm unbroken.1]), ih unbroken.2]
    obtain ⟨first, others, parts⟩ := List.exists_cons_of_ne_nil (List.splitOn_ne_nil mark text)
    simp [parts]

omit [LawfulBEq α] in
theorem mem_tail_splitOn {mark : α} (front : List α) {text part : List α} (member : part ∈ (text.splitOn mark).tail) :
    part ∈ ((front ++ text).splitOn mark).tail := by
  induction front with
  | nil => exact member
  | cons c front ih =>
    rw [List.cons_append, List.splitOn_cons_eq_if_modifyHead]
    split
    · exact List.mem_of_mem_tail ih
    · rwa [List.tail_modifyHead]

end HarnessMem.Library

/-! Texts that are read line by line: patterns that match whole lines, and the sections
that such lines open.
-/

namespace HarnessMem.Library

def ended (lines : List (List Char)) : List Char := lines.flatMap (· ++ ['\n'])

@[simp] theorem ended_nil : ended [] = [] := rfl

@[simp] theorem ended_cons (line : List Char) (lines : List (List Char)) :
    ended (line :: lines) = line ++ '\n' :: ended lines := by
  simp [ended]

@[simp] theorem ended_append (first second : List (List Char)) : ended (first ++ second) = ended first ++ ended second :=
  List.flatMap_append

theorem ended_splitOn (text : List Char) : ended (text.splitOn '\n') = text ++ ['\n'] := by
  induction text with
  | nil => rfl
  | cons c text ih =>
    obtain ⟨first, others, parts⟩ := List.exists_cons_of_ne_nil (List.splitOn_ne_nil '\n' text)
    rw [parts, ended_cons] at ih
    rw [List.splitOn_cons_eq_if_modifyHead, parts]
    split
    · next mark =>
      rw [ended_cons, ended_cons, ih]
      simp [eq_of_beq mark]
    · rw [List.modifyHead_cons, ended_cons, List.cons_append, ih]
      rfl

/-! ### Sections -/

section
variable (opens : List Char → Bool)

def sections : List (List Char) → List (List Char) × List (List Char × List (List Char))
  | [] => ([], [])
  | line :: lines =>
    if opens line then ([], (line, (sections lines).1) :: (sections lines).2)
    else (line :: (sections lines).1, (sections lines).2)

variable {opens}

theorem sections_quiet {front : List (List Char)} (quiet : ∀ line ∈ front, opens line = false)
    (lines : List (List Char)) :
    sections opens (front ++ lines) = (front ++ (sections opens lines).1, (sections opens lines).2) := by
  induction front with
  | nil => rfl
  | cons line front ih =>
    rw [List.cons_append, sections, if_neg (by simp [quiet line]), ih fun other inside => quiet other (by simp [inside])]
    rfl

theorem sections_headings (lines : List (List Char)) :
    (sections opens lines).2.map (·.1) = lines.filter opens := by
  induction lines with
  | nil => rfl
  | cons line lines ih =>
    rw [sections, List.filter_cons]
    split
    · rw [List.map_cons, ih]
    · exact ih

end

namespace Regex

/-- The pattern matches whole lines, those that `opens` accepts. -/
structure MatchesLines (pattern : Regex) (opens : List Char → Bool) : Prop where
  atStart : ∀ {before : Option Char} {line : List Char} (rest : List Char), before.all (· == '\n') → '\n' ∉ line →
    pattern.match? before (line ++ '\n' :: rest) = if opens line then some ⟨line, []⟩ else none
  inside : ∀ {c : Char} (rest : List Char), c ≠ '\n' → pattern.match? (some c) rest = none
  blank : opens [] = false

variable {pattern : Regex} {opens : List Char → Bool}

theorem MatchesLines.unmatched (lines : MatchesLines pattern opens) {c : Char} {tail : List Char} (begun : c ≠ '\n')
    (unbroken : '\n' ∉ tail) (rest : List Char) : Unmatched pattern (some c) tail rest := by
  intro front back whole _
  have last : front.getLast?.or (some c) = some (front.getLastD c) := by
    rw [List.getLastD_eq_getLast?]
    cases front.getLast? <;> rfl
  rw [last]
  refine lines.inside _ fun newline => ?_
  rcases front.eq_nil_or_concat with rfl | ⟨early, d, rfl⟩
  · exact begun newline
  · simp only [List.concat_eq_append, List.getLastD_eq_getLast?, List.getLast?_concat, Option.getD_some] at newline
    exact unbroken (by rw [whole, newline]; simp)

theorem MatchesLines.pieces_ended (matches_ : MatchesLines pattern opens) {lines : List (List Char)}
    (unbroken : ∀ line ∈ lines, '\n' ∉ line) {before : Option Char} (start : before.all (· == '\n')) :
    pattern.pieces before 0 (ended lines) =
      (ended (sections opens lines).1,
        (sections opens lines).2.map fun found => (⟨found.1, []⟩, '\n' :: ended found.2)) := by
  induction lines generalizing before with
  | nil => rfl
  | cons line lines ih =>
    have whole : '\n' ∉ line := unbroken line List.mem_cons_self
    have next := @ih (fun other inside => unbroken other (List.mem_cons_of_mem _ inside)) (some '\n') rfl
    -- the mark behind a line starts no match, and the next line is at its start
    have behind {before : Option Char} (none_ : pattern.match? before ('\n' :: ended lines) = none) :
        pattern.pieces before 0 ('\n' :: ended lines) =
          ('\n' :: ended (sections opens lines).1,
            (sections opens lines).2.map fun found => (⟨found.1, []⟩, '\n' :: ended found.2)) := by
      simp only [pieces, none_, next]
    have matched := matches_.atStart (ended lines) start whole
    rw [ended_cons]
    cases line with
    | nil =>
      rw [matches_.blank] at matched
      rw [List.nil_append, behind matched]
      simp [sections, matches_.blank]
    | cons c tail =>
      rw [List.mem_cons, not_or] at whole
      have apart := matches_.unmatched (Ne.symm whole.1) whole.2 ('\n' :: ended lines)
      have rest : pattern.pieces ((c :: tail).getLast?) 0 ('\n' :: ended lines) = _ := behind <| by
        obtain ⟨d, last⟩ : ∃ d, (c :: tail).getLast? = some d := ⟨_, List.getLast?_eq_some_getLast (by simp)⟩
        rw [last]
        refine matches_.inside _ ?_
        rintro rfl
        have := List.mem_of_getLast? last
        simp_all
      have goes : pattern.pieces (some c) tail.length (tail ++ '\n' :: ended lines) =
          pattern.pieces ((c :: tail).getLast?) 0 ('\n' :: ended lines) := by
        rw [pieces_skip, ← getLast?_cons_or c tail none, Option.or_none]
      rw [List.cons_append] at matched ⊢
      by_cases heading : opens (c :: tail)
      · rw [if_pos heading] at matched
        rw [pieces, matched]
        dsimp only
        rw [List.length_cons, Nat.add_sub_cancel, goes, rest, sections, if_pos heading]
        rfl
      · rw [if_neg heading, ← List.cons_append] at matched
        rw [← List.cons_append, pieces_unmatched (.cons matched apart), sections, if_neg heading, ended_cons]
        have last : (c :: tail).getLast?.or before = (c :: tail).getLast? := by
          rw [List.getLast?_cons]
          rfl
        rw [last, rest]

end Regex

end HarnessMem.Library
