import HarnessMem.Projection.Conversation

/-! A rendering with another header: once the headings of turns are taken out no heading is left, so
that the text from the first label on may stand behind any other text.
-/

set_option autoImplicit false

namespace HarnessMem.Projection

open Library Regex

variable {unicode : Unicode}

/-! ### What is left when the headings are taken out -/

variable {before : Option Char} {rest : Text}

theorem not_turnHeading_newline :
    (turnHeadingRe unicode).match? before ('\n' :: rest) = none := by
  cases matched : (turnHeadingRe unicode).match? before ('\n' :: rest) with
  | none => rfl
  | some found =>
    obtain ⟨stop, member, _⟩ := match?_stop matched
    obtain ⟨_, _, digits, inside, blank, _, _, _, _, whole⟩ := of_mem_ends_turnHeadingRe member
    cases whole

variable {text front : Text}

theorem endsLine_erased {found : List (Match × Text)}
    (cuts : Cuts (turnHeadingRe unicode) before text front found) (ends_ : EndsLine text) :
    EndsLine (front ++ found.flatMap (·.2)) := by
  cases cuts with
  | last unmatched => simpa using ends_
  | found unmatched filled matched rest =>
    cases front with
    | nil =>
      -- no heading starts with the end of a line
      rcases ends_ with empty | ⟨more, shape⟩
      · exact absurd (List.append_eq_nil_iff.mp (List.append_eq_nil_iff.mp empty).2).1 filled
      · rw [List.nil_append] at shape
        rw [shape, not_turnHeading_newline] at matched
        cases matched
    | cons c front =>
      rcases ends_ with empty | ⟨more, shape⟩
      · cases empty
      · obtain ⟨rfl, -⟩ := List.cons.inj shape
        exact .inr ⟨_, rfl⟩

theorem turnHeadingRe_bounds {here : Match}
    (matched : (turnHeadingRe unicode).match? before (here.text ++ rest) = some here) :
    before.all (· == '\n') ∧ EndsLine rest := by
  obtain ⟨stop, member, _, text, _⟩ := match?_stop matched
  obtain ⟨starts, last, digits, inside, blank, _, _, _, _, whole⟩ := of_mem_ends_turnHeadingRe member
  obtain ⟨shape, prior⟩ : ∃ shape : Text, here.text ++ rest = shape ++ stop.rest :=
    ⟨"## Turn ".toList ++ (digits ++ (" (".toList ++ (inside ++ (")".toList ++ blank)))), by
      simpa only [List.append_assoc] using whole⟩
  rw [prior, List.length_append, Nat.add_sub_cancel, List.take_left] at text
  rw [text] at prior
  obtain rfl := List.append_cancel_left prior
  exact ⟨starts, last⟩

theorem newline_before {early mid : Text} (filled : mid ≠ [])
    (starts : ((early ++ mid).getLast?.or before).all (· == '\n')) : '\n' ∈ mid := by
  rw [List.getLast?_append, List.getLast?_eq_some_getLast filled] at starts
  simp only [Option.some_or, Option.all_some, beq_iff_eq] at starts
  rw [← starts]
  exact List.getLast_mem filled

theorem not_line_of_endsLine {line left : Text} (ends_ : EndsLine text) (whole : text = line ++ left)
    (present : line ≠ []) (unbroken : '\n' ∉ line) : False := by
  cases line with
  | nil => exact present rfl
  | cons c line =>
    rcases ends_ with rfl | ⟨more, rfl⟩
    · cases whole
    · obtain ⟨rfl, -⟩ := List.cons.inj whole
      exact unbroken List.mem_cons_self

theorem unmatched_erased (decimal : unicode.isDecimal '\n' = false)
    {found : List (Match × Text)} (cuts : Cuts (turnHeadingRe unicode) before text front found) :
    Unmatched (turnHeadingRe unicode) before (front ++ found.flatMap (·.2)) [] := by
  induction cuts with
  | last unmatched => simpa using unmatched
  | @found before front rest piece here more unmatched filled matched cuts ih =>
    obtain ⟨opens, closes⟩ := turnHeadingRe_bounds matched
    have joined : EndsLine (piece ++ more.flatMap (·.2)) := endsLine_erased cuts closes
    intro early back whole _
    rw [List.append_nil, turnHeadingRe_none decimal]
    rintro line left starts rfl unbroken last heading
    have present : line ≠ [] := by
      rintro rfl
      exact not_turnHeading_nil heading
    rw [List.flatMap_cons] at whole
    change front ++ (piece ++ more.flatMap (·.2)) = early ++ (line ++ left) at whole
    generalize piece ++ more.flatMap (·.2) = kept at joined ih whole
    -- the line stands behind the heading, before it, or across it
    rcases List.append_eq_append_iff.mp whole with ⟨mid, rfl, behind⟩ | ⟨mid, rfl, inside⟩
    · cases mid with
      | nil =>
        rw [List.nil_append] at behind
        exact not_line_of_endsLine joined behind present unbroken
      | cons c mid =>
        have nothing := ih (c :: mid) (line ++ left) behind (by simp [present])
        rw [List.append_nil, turnHeadingRe_none decimal] at nothing
        refine nothing line left ?_ rfl unbroken last heading
        rw [List.getLast?_append, List.getLast?_cons] at starts
        rw [List.getLast?_cons]
        exact starts
    · rcases List.append_eq_append_iff.mp inside with ⟨beyond, rfl, rfl⟩ | ⟨beyond, rfl, behind⟩
      · cases beyond with
        | nil =>
          rw [List.append_nil] at opens
          exact unbroken (newline_before present opens)
        | cons c beyond =>
          have nothing := unmatched early (line ++ c :: beyond) rfl (by simp)
          rw [turnHeadingRe_none decimal] at nothing
          rcases last with empty | ⟨other, shape⟩
          · cases empty
          · obtain ⟨rfl, -⟩ := List.cons.inj shape
            exact nothing line _ starts (List.append_assoc _ _ _) unbroken (.inr ⟨_, rfl⟩) heading
      · cases mid with
        | nil => exact not_line_of_endsLine joined behind present unbroken
        | cons c mid =>
          have newline : '\n' ∈ c :: mid := newline_before (List.cons_ne_nil _ _) opens
          exact unbroken (List.mem_append_left _ newline)

theorem rendering_unmatched (decimal : unicode.isDecimal '\n' = false) (value : Text) :
    Unmatched (turnHeadingRe unicode) none (rendering unicode value) [] :=
  unmatched_erased decimal (cuts_pieces _ none value)

/-! ### Another header -/

def relabelled (header : Char) (role : Role) (rest : Text) : Text := [header] ++ (blankLine ++ role.opening ++ rest)

variable {header : Char}

theorem rendering_relabelled (decimal : unicode.isDecimal '\n' = false) {value : Text} {label : Text}
    (whole : rendering unicode value = front ++ (label ++ rest)) (broken : header ≠ '\n')
    (role : Role) : rendering unicode (relabelled header role rest) = relabelled header role rest := by
  refine erase_of_unmatched ((turnHeadingRe_unmatched decimal _).mpr ?_)
  have plain := (turnHeadingRe_unmatched decimal _).mp (rendering_unmatched decimal value)
  have lines : relabelled header role rest = [header] ++ '\n' :: ([] ++ '\n' :: (role.opening ++ rest)) := by
    simp [relabelled, blankLine]
  rw [lines, List.splitOn_append_cons_self, List.splitOn_append_cons_self, List.splitOn_nil,
    splitOn_append_of_not_mem (opening_unbroken role)]
  obtain ⟨first, others, parts⟩ := List.exists_cons_of_ne_nil (List.splitOn_ne_nil '\n' rest)
  rw [parts, List.modifyHead_cons]
  intro line member
  simp only [List.mem_append, List.mem_cons, List.not_mem_nil, or_false] at member
  rcases member with single | rfl | rfl | later
  · have one : ([header] : Text).splitOn '\n' = [[header]] := List.splitOn_eq_singleton (by simpa using broken.symm)
    rw [one, List.mem_singleton] at single
    rintro ⟨digits, inside, blank, shape, -⟩
    rw [single] at shape
    cases (List.cons.inj shape).2
  · exact not_turnHeading_nil
  · exact not_turnHeading_opening role first
  · apply plain
    rw [whole, ← List.append_assoc]
    refine List.mem_of_mem_tail (mem_tail_splitOn (front ++ label) ?_)
    rw [parts]
    exact later

theorem not_label (visible : isSpace header = false)
    (apart : ∀ role : Role, header ≠ role.initial) : entryRe.match? none (header :: rest) = none := by
  cases matched : entryRe.match? none (header :: rest) with
  | none => rfl
  | some found =>
    obtain ⟨separator, role, separates, text, -⟩ := entryRe_found matched
    obtain ⟨-, left, whole⟩ := match?_some matched
    rw [text] at whole
    rcases separates with rfl | ⟨rfl, -⟩
    · obtain ⟨rfl, -⟩ := List.cons.inj whole
      exact absurd visible (by decide)
    · rw [opening_cons] at whole
      exact absurd (List.cons.inj whole).1 (apart role)

theorem exists_relabelled (decimal : unicode.isDecimal '\n' = false) {value : Text}
    (found : (parseExchanges unicode value).exchanges ≠ []) (visible : isSpace header = false)
    (apart : ∀ role : Role, header ≠ role.initial) :
    ∃ other, parseExchanges unicode other = { parseExchanges unicode value with header := [header] } := by
  have cuts := cuts_pieces entryRe none (rendering unicode value)
  unfold parseExchanges at found ⊢
  cases shape : entryRe.pieces none 0 (rendering unicode value) with
  | mk front labels =>
    rw [shape] at cuts found
    dsimp only at cuts found
    generalize whole : rendering unicode value = text at cuts
    cases cuts with
    | last _ => exact absurd rfl found
    | @found _ _ rest piece here more _ filled matched later =>
      obtain ⟨separator, role, separates, text, groups⟩ := entryRe_found matched
      have broken : header ≠ '\n' := by
        rintro rfl
        exact absurd visible (by decide)
      have plain := rendering_relabelled decimal whole broken role
      refine ⟨relabelled header role rest, ?_⟩
      have last : (blankLine ++ role.opening).getLast? = here.text.getLast? := by
        rw [text, List.getLast?_append, List.getLast?_append, opening_cons]
        rfl
      have unmatched : Unmatched entryRe none [header] (blankLine ++ role.opening ++ rest) :=
        .cons (not_label visible apart) (.nil _ _)
      have cuts : Cuts entryRe none (relabelled header role rest) [header]
          ((⟨blankLine ++ role.opening, [role.label]⟩, piece) :: more) := by
        refine @Cuts.found _ none [header] rest piece ⟨blankLine ++ role.opening, [role.label]⟩ more unmatched ?_
          (entryRe_match (.inl rfl)) ?_
        · simp [blankLine]
        · rw [last]
          exact later
      have blank : strip [header] = [header] := by simp [strip, visible]
      have same : labelled ((⟨blankLine ++ role.opening, [role.label]⟩, piece) :: more) = labelled ((here, piece) :: more) := by
        simp [labelled, groups]
      rw [plain, cuts.pieces]
      dsimp only
      rw [same, blank]

end HarnessMem.Projection
