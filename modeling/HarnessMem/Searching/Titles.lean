import HarnessMem.Library.Separators
import HarnessMem.Searching.Admission

/-! A current entry is found by its own title, where the title has every identifier and every name that is looked
up for it: then the entry matches all terms, and no other entry covers more.
-/

set_option autoImplicit false

namespace HarnessMem.Searching

open Library

variable (unicode : Unicode)

/-! ### Texts in quotes -/

theorem wrapper_stops : ∀ wrapper ∈ queryWrappers, (isTermChar wrapper.1 = false ∧ wrapper.1 ∉ identifierMarks) ∧
    isTermChar wrapper.2 = false ∧ wrapper.2 ∉ identifierMarks := by decide

theorem mem_ends_bound {condition : Prop} [Decidable condition] {holds : Option Char → List Char → Bool} {place stop : Place}
    (reached : stop ∈ (if condition then Regex.check holds else Regex.empty).ends place) : stop = place := by
  split at reached <;> exact (Regex.mem_ends_check.mp reached).2

theorem quoted_place {wrapper : Char × Char} {text : List Char} {cut : Regex.Match × List Char}
    (member : cut ∈ ((quotedPattern unicode wrapper).pieces none 0 text).2) :
    ∃ front inner back, cut.1.groups = [inner] ∧ text = front ++ wrapper.1 :: (inner ++ wrapper.2 :: back) := by
  obtain ⟨start, rest, before, shape, matched⟩ := Regex.pieces_matched _ text cut member
  obtain ⟨stop, reached, groups, _⟩ := Regex.match?_stop matched
  obtain ⟨_, bound, reached⟩ := Regex.mem_ends_seq.mp reached
  obtain rfl := mem_ends_bound bound
  obtain ⟨_, opening, reached⟩ := Regex.mem_ends_seq.mp reached
  obtain ⟨_, behind, here, accepted, rfl⟩ := Regex.mem_ends_one.mp opening
  obtain ⟨_, grouped, reached⟩ := Regex.mem_ends_seq.mp reached
  rw [Regex.ends, List.mem_map] at grouped
  obtain ⟨last, inside, rfl⟩ := grouped
  obtain ⟨_, closing, reached⟩ := Regex.mem_ends_seq.mp reached
  obtain ⟨_, rfl⟩ := Regex.mem_ends_check.mp reached
  obtain ⟨_, wrapped, bound⟩ := Regex.mem_ends_seq.mp closing
  obtain rfl := mem_ends_bound bound
  obtain ⟨_, back, there, accepted', rfl⟩ := Regex.mem_ends_one.mp wrapped
  obtain ⟨inner, run, _⟩ := Regex.ends_within (Regex.within_any _) inside
  have kept : last.groups = [] := by
    rw [Regex.ends] at inside
    apply @iterate_related (fun one two => two.groups = one.groups) _ (fun _ => rfl) (fun _ _ _ one two => two.trans one) _ _ _ _ inside
    intro place stop step
    obtain ⟨_, checked, taken⟩ := Regex.mem_ends_seq.mp step
    obtain ⟨_, rfl⟩ := Regex.mem_ends_check.mp checked
    obtain ⟨_, _, _, _, rfl⟩ := Regex.mem_ends_one.mp taken
    rfl
  dsimp only [Place.past_rest] at here there run
  rw [beq_iff_eq] at accepted accepted'
  subst accepted accepted'
  refine ⟨start, inner, back, ?_, ?_⟩
  · rw [groups]
    dsimp only [Place.past_groups, Place.past_rest]
    rw [kept, run, List.length_append, Nat.add_sub_cancel, List.take_left]
    rfl
  · rw [shape, here, run, there]

theorem casefold_wrapped {wrapper : Char × Char} (listed : wrapper ∈ queryWrappers) (front inner back : List Char) :
    casefold unicode (front ++ wrapper.1 :: (inner ++ wrapper.2 :: back)) =
      casefold unicode front ++ wrapper.1 :: (casefold unicode inner ++ wrapper.2 :: casefold unicode back) := by
  have ⟨opening, closing⟩ := unicode.folded_wrapper wrapper listed
  have one : ∀ (c : Char) (rest : List Char), unicode.folded c = [c] → casefold unicode (c :: rest) = c :: casefold unicode rest := by
    intro c rest same
    unfold casefold
    rw [List.flatMap_cons, same]
    rfl
  rw [casefold_append, one _ _ opening, casefold_append, one _ _ closing]

theorem quotedIdentifiers_words (text : List Char) : quotedIdentifiers unicode text ⊆ (wordsOf (casefold unicode text)).toFinset := by
  intro word member
  unfold quotedIdentifiers at member
  rw [List.mem_toFinset, List.mem_flatMap] at member
  obtain ⟨wrapper, listed, member⟩ := member
  obtain ⟨cut, found, member⟩ := List.mem_flatMap.mp member
  obtain ⟨front, inner, back, groups, shape⟩ := quoted_place unicode found
  rw [groups, List.head?_cons, Option.toList_some, List.flatMap_singleton] at member
  have ⟨opening, closing⟩ := wrapper_stops wrapper listed
  rw [List.mem_toFinset, shape, casefold_wrapped unicode listed]
  unfold wordsOf at member ⊢
  rw [Regex.findAll_stop (avoids_wordPattern opening.1 opening.2), Regex.findAll_stop (avoids_wordPattern closing.1 closing.2)]
  exact List.mem_append_right _ (List.mem_append_left _ member)

/-! ### Chinese terms -/

theorem mem_pairsOf {run pair : List Char} : pair ∈ pairsOf run ↔ pair.length = 2 ∧ pair <:+: run := by
  induction run with
  | nil =>
    have none_ : pairsOf [] = [] := rfl
    rw [none_, List.infix_nil]
    simp only [List.not_mem_nil, false_iff, not_and]
    rintro two rfl
    cases two
  | cons first rest ih =>
    cases rest with
    | nil =>
      have none_ : pairsOf [first] = [] := rfl
      rw [none_]
      simp only [List.not_mem_nil, false_iff, not_and]
      intro two within
      have short := within.length_le
      rw [two, List.length_singleton] at short
      omega
    | cons second rest =>
      rw [pairsOf, List.mem_cons, ih, @List.infix_cons_iff _ _ first (second :: rest)]
      constructor
      · rintro (rfl | ⟨two, later⟩)
        · exact ⟨rfl, .inl ⟨rest, rfl⟩⟩
        · exact ⟨two, .inr later⟩
      · rintro ⟨two, starts | later⟩
        · left
          exact List.prefix_iff_eq_take.mp starts |>.trans (by rw [two]; rfl)
        · exact .inr ⟨two, later⟩

theorem cjkRunsOf_eq (text : List Char) : cjkRunsOf text = words (fun c => !isCjk c) text := Regex.findAll_runs isCjk text

theorem termCounts_cjk {part text : List Char} (short : part.length = 1 ∨ part.length = 2) (chinese : ∀ c ∈ part, isCjk c = true)
    (within : part <:+: text) : 0 < termCounts unicode text part := by
  have filled : part ≠ [] := by
    rintro rfl
    rcases short with impossible | impossible <;> cases impossible
  have shown : ∀ c ∈ part, (!isCjk c) = false := fun c inside => by rw [chinese c inside]; rfl
  obtain ⟨run, member, inside⟩ := (infix_words filled shown text).mp within
  rw [termCounts, List.count_pos_iff, termOccurrences, List.mem_append, List.mem_flatMap, cjkRunsOf_eq]
  refine .inr ⟨run, member, List.mem_append.mpr ?_⟩
  rcases short with one | two
  · left
    obtain ⟨c, rfl⟩ := List.length_eq_one_iff.mp one
    exact List.mem_map.mpr ⟨c, inside.subset (List.mem_singleton_self c), rfl⟩
  · exact .inr (mem_pairsOf.mpr ⟨two, inside⟩)

theorem topic_runs {query run : List Char} (member : run ∈ cjkRunsOf (topicText query)) :
    run <:+: query ∧ ∀ c ∈ run, isCjk c = true := by
  rw [cjkRunsOf_eq] at member
  have chinese : ∀ c ∈ run, isCjk c = true := fun c inside => by simpa using (words_shown _ run member).2 c inside
  have outside : ' ' ∉ run := by
    intro inside
    have blank : isCjk ' ' = false := by decide
    rw [chinese ' ' inside] at blank
    cases blank
  exact ⟨Regex.infix_of_sub outside (words_within member), chinese⟩

theorem mem_cjkQueryPairs {query pair : List Char} (member : pair ∈ cjkQueryPairs query) :
    ∃ run ∈ cjkRunsOf (topicText query), pair.length = 2 ∧ pair <:+: run := by
  unfold cjkQueryPairs at member
  rw [List.mem_toFinset, List.mem_flatMap] at member
  obtain ⟨run, found, inside⟩ := member
  exact ⟨run, found, mem_pairsOf.mp (List.mem_of_mem_filter inside)⟩

theorem cjkQueryPairs_spec {query pair : List Char} (member : pair ∈ cjkQueryPairs query) :
    pair.length = 2 ∧ pair <:+: query ∧ ∀ c ∈ pair, isCjk c = true := by
  obtain ⟨run, found, two, inside⟩ := mem_cjkQueryPairs member
  obtain ⟨within, chinese⟩ := topic_runs found
  exact ⟨two, inside.trans within, fun c member => chinese c (inside.subset member)⟩

theorem strip_subset (text : List Char) : strip text ⊆ text := by
  intro c member
  unfold strip at member
  have one := (List.dropWhile_sublist isSpace).subset (List.mem_reverse.mp member)
  exact (List.dropWhile_sublist isSpace).subset (List.mem_reverse.mp one)

theorem unwrapped_subset (steps : Nat) (term : List Char) : unwrapped steps term ⊆ term := by
  induction steps generalizing term with
  | zero => exact List.Subset.refl _
  | succ steps ih =>
    unfold unwrapped
    split
    · split
      · split
        · intro c member
          exact List.mem_cons_of_mem _ ((List.dropLast_sublist _).subset (ih _ member))
        · exact List.Subset.refl _
      · exact List.Subset.refl _
    · exact List.Subset.refl _

theorem singleTerm_subset (query : List Char) : singleTerm query ⊆ query := by
  intro c member
  exact strip_subset query (unwrapped_subset _ _ (strip_subset _ member))

/-! ### Names -/

theorem within_namePattern : Regex.Within (fun c => !isCjk c) (namePattern unicode) := by
  have range : ∀ first last : Char, last.toNat < 0x3400 → ∀ c, (first ≤ c && c ≤ last) = true → (!isCjk c) = true := by
    intro first last low c inside
    rw [Bool.and_eq_true, decide_eq_true_eq, decide_eq_true_eq] at inside
    rw [isCjk_of_le inside.2 low]
    rfl
  have blanks : ∀ c, (c == ' ' || c == '\t') = true → (!isCjk c) = true := by
    intro c inside
    rw [Bool.or_eq_true, beq_iff_eq, beq_iff_eq] at inside
    rcases inside with rfl | rfl <;> decide
  have capitalized : Regex.Within (fun c => !isCjk c)
      (.seq (.one fun c => 'A' ≤ c && c ≤ 'Z') (.plus (.one fun c => 'a' ≤ c && c ≤ 'z'))) :=
    .seq (.one (range 'A' 'Z' (by decide)))
      (.seq (.one (range 'a' 'z' (by decide))) (.star (.one (range 'a' 'z' (by decide)))))
  have apart : Regex.Within (fun c => !isCjk c) (.plus (.one fun c => c == ' ' || c == '\t')) := .seq (.one blanks) (.star (.one blanks))
  exact .seq .check (.seq capitalized (.seq (.seq (.seq apart capitalized) (.star (.seq apart capitalized))) (.seq .check .check)))

theorem phraseWords_latin {entries : List KnowledgeEntry} {query word : List Char}
    (member : word ∈ phraseWords (namedPhrases unicode entries query)) : ∀ c ∈ word, isCjk c = false := by
  unfold phraseWords namedPhrases at member
  obtain ⟨phrase, listed, inside⟩ := Finset.mem_biUnion.mp member
  rw [List.mem_toFinset] at listed inside
  obtain ⟨name, found, rfl⟩ := List.mem_map.mp (List.mem_of_mem_filter listed)
  intro c part
  obtain ⟨d, source, folded⟩ := List.mem_flatMap.mp ((words_within inside).subset part)
  have plain := Regex.findAll_within (within_namePattern unicode) found d source
  exact (unicode.folded_other d (by simpa using plain)).2 c folded

/-! ### The terms of a title -/

def TitleShown (entries : List KnowledgeEntry) (title : List Char) : Prop :=
  capitalizedIdentifiers unicode title ⊆ (wordsOf (casefold unicode title)).toFinset ∧
    ∀ phrase ∈ namedPhrases unicode entries title, 0 < phraseCount unicode phrase title

theorem topicWords_subset (query : List Char) : topicWords unicode query ⊆ (wordsOf (casefold unicode query)).toFinset := by
  have kept : withoutScaffolding unicode query ⊆ (wordsOf (casefold unicode query)).toFinset := by
    unfold withoutScaffolding
    dsimp only
    split
    · exact Finset.empty_subset _
    · split
      · exact Finset.sdiff_subset
      · split
        · exact Finset.sdiff_subset
        · exact Finset.Subset.refl _
  unfold topicWords
  dsimp only
  split
  · exact Finset.union_subset kept (Finset.Subset.refl _)
  · exact kept

variable {entries : List KnowledgeEntry} {title : List Char}

theorem fieldTerms_title (shown : TitleShown unicode entries title) {term : List Char} (asked : term ∈ (readQuery unicode entries title).terms) :
    0 < fieldTerms unicode (readQuery unicode entries title).phrases title term := by
  have word : term ∈ (wordsOf (casefold unicode title)).toFinset → 0 < termCounts unicode title term := by
    intro member
    rw [List.mem_toFinset] at member
    exact List.count_pos_iff.mpr (List.mem_append_left _ member)
  have phrase : term ∈ namedPhrases unicode entries title →
      0 < fieldTerms unicode (readQuery unicode entries title).phrases title term := by
    intro member
    have counted := shown.2 term member
    have listed : term ∈ (readQuery unicode entries title).phrases := member
    unfold fieldTerms
    rw [if_pos listed]
    omega
  have counted : 0 < termCounts unicode title term → 0 < fieldTerms unicode (readQuery unicode entries title).phrases title term :=
    fun positive => positive.trans_le (Nat.le_add_right _ _)
  unfold readQuery at asked
  simp only [Finset.mem_union, Finset.mem_sdiff] at asked
  rcases asked with (⟨(((topic | capital) | quoted) | pair) | single, _⟩ | named) | quoted
  · exact counted (word (topicWords_subset unicode title topic))
  · exact counted (word (shown.1 capital))
  · exact counted (word (quotedIdentifiers_words unicode title quoted))
  · obtain ⟨two, within, chinese⟩ := cjkQueryPairs_spec pair
    exact counted (termCounts_cjk unicode (.inr two) chinese within)
  · unfold singleCharacter at single
    dsimp only at single
    split at single
    · next alone =>
      rw [Finset.mem_singleton] at single
      subst single
      obtain ⟨c, shape⟩ := List.length_eq_one_iff.mp alone.1
      have inside : c ∈ title := singleTerm_subset title (by rw [shape]; exact List.mem_singleton_self c)
      refine counted (termCounts_cjk unicode (.inl alone.1) (List.all_eq_true.mp alone.2) ?_)
      obtain ⟨front, back, split⟩ := List.append_of_mem inside
      exact ⟨front, back, by rw [shape, split, List.append_assoc]; rfl⟩
    · exact absurd single (Finset.notMem_empty _)
  · exact phrase named
  · exact counted (word (quotedIdentifiers_words unicode title quoted))

theorem pairs_subset : (readQuery unicode entries title).pairs ⊆ (readQuery unicode entries title).terms := by
  intro pair member
  have latin : pair ∉ phraseWords (namedPhrases unicode entries title) := by
    intro named
    obtain ⟨two, _, chinese⟩ := cjkQueryPairs_spec member
    obtain ⟨c, rest, rfl⟩ := List.exists_cons_of_ne_nil (List.ne_nil_of_length_pos (by rw [two]; decide))
    have other := phraseWords_latin unicode named c List.mem_cons_self
    rw [chinese c List.mem_cons_self] at other
    cases other
  unfold readQuery
  simp only [Finset.mem_union, Finset.mem_sdiff]
  exact .inl (.inl ⟨.inl (.inr member), latin⟩)

theorem matchesOf_title {entry : KnowledgeEntry} (shown : TitleShown unicode entries entry.title.text.toList) (sourceContext : Bool) :
    matchesOf unicode (readQuery unicode entries entry.title.text.toList) sourceContext entry =
      (readQuery unicode entries entry.title.text.toList).terms := by
  have all : ((readQuery unicode entries entry.title.text.toList).terms.filter fun term =>
      0 < content unicode (readQuery unicode entries entry.title.text.toList).phrases entry term) =
        (readQuery unicode entries entry.title.text.toList).terms := by
    apply Finset.filter_true_of_mem
    intro term member
    have own := fieldTerms_title unicode shown member
    unfold content
    omega
  have pairs := Finset.inter_eq_right.mpr (@pairs_subset unicode entries entry.title.text.toList)
  unfold matchesOf
  dsimp only
  rw [all, pairs]
  split
  · rfl
  · next refused =>
    have none_ : (readQuery unicode entries entry.title.text.toList).pairs = ∅ := by
      by_contra some_
      obtain ⟨pair, member⟩ := Finset.nonempty_iff_ne_empty.mpr some_
      apply refused
      unfold pairsAdmitted
      by_cases several : 2 ≤ (readQuery unicode entries entry.title.text.toList).pairs.card
      · have twice : (readQuery unicode entries entry.title.text.toList).pairs.card ≤
            (readQuery unicode entries entry.title.text.toList).pairs.card * 2 := by omega
        rw [decide_eq_true several, decide_eq_true twice]
        rfl
      · -- the one pair stands in a run, which is in the title as a whole
        obtain ⟨run, found, two, inside⟩ := mem_cjkQueryPairs member
        have within := (topic_runs found).1
        have listed : run ∈ (readQuery unicode entries entry.title.text.toList).runs := by
          have long := inside.length_le
          rw [two] at long
          exact List.mem_filter.mpr ⟨found, decide_eq_true long⟩
        rw [Bool.or_eq_true, List.any_eq_true]
        refine .inr ⟨run, listed, ?_⟩
        have few : (readQuery unicode entries entry.title.text.toList).pairs.card ≤ 2 := by omega
        rw [decide_eq_true few, decide_eq_true within, Bool.or_true, Bool.true_or, Bool.true_or]
        rfl
    rw [none_, Finset.sdiff_empty]

/-! ### The lookup -/

variable {K : Type} [Field K] [LinearOrder K] [IsStrictOrderedRing K] {log1p : K → K}

theorem ranked_of_matches_all (positive : ∀ x, 0 < x → 0 < log1p x) {query : List Char} {sourceContext : Bool} {entry : KnowledgeEntry}
    (member : entry ∈ entries) (some_ : (readQuery unicode entries query).terms ≠ ∅)
    (all : matchesOf unicode (readQuery unicode entries query) sourceContext entry = (readQuery unicode entries query).terms) :
    entry ∈ rankCurrentEntries unicode log1p entries query sourceContext := by
  generalize named : readQuery unicode entries query = asked at some_ all
  have weighs := weight_pos positive (documents unicode asked entries)
  have whole : (scoreIn unicode log1p asked sourceContext entries entry).coverage =
      ∑ term ∈ asked.terms, weight log1p (documents unicode asked entries) term := by
    rw [scoreIn, scoreOf_coverage, all]
  have covered : 0 < (scoreIn unicode log1p asked sourceContext entries entry).coverage := by
    rw [whole]
    exact Finset.sum_pos (fun term _ => weighs term) (Finset.nonempty_iff_ne_empty.mpr some_)
  have above : ∀ item ∈ scored unicode log1p asked sourceContext entries,
      item.coverage ≤ (scoreIn unicode log1p asked sourceContext entries entry).coverage := by
    intro item place
    obtain ⟨other, _, rfl, _⟩ := (mem_scored unicode log1p).mp place
    rw [whole, scoreIn, scoreOf_coverage]
    exact Finset.sum_le_sum_of_subset_of_nonneg (matchesOf_subset unicode asked sourceContext other) fun term _ _ => (weighs term).le
  rw [mem_rankCurrentEntries, named]
  refine ⟨member, covered.ne', ?_, ?_⟩
  · unfold strong
    rw [decide_eq_true (cutoff_le covered.le above), Bool.true_or, Bool.true_or]
  · rw [Bool.eq_false_iff]
    intro lost
    unfold suppressed at lost
    simp only [Bool.and_eq_true, decide_eq_true_eq] at lost
    obtain ⟨⟨⟨one, _⟩, _⟩, shared⟩ := lost
    rw [scoreIn, scoreOf_matched, all] at one
    obtain ⟨term, inside⟩ := Finset.nonempty_iff_ne_empty.mpr shared
    have compound := (Finset.mem_inter.mp inside).2
    unfold compoundTerms at compound
    rw [List.mem_toFinset, List.mem_flatMap] at compound
    obtain ⟨item, kept, _⟩ := compound
    obtain ⟨place, several⟩ := List.mem_filter.mp kept
    obtain ⟨other, _, rfl, _⟩ := (mem_scored unicode log1p).mp place
    have few := Finset.card_le_card (matchesOf_subset unicode asked sourceContext other)
    rw [decide_eq_true_eq, scoreIn, scoreOf_matched] at several
    omega

/-- Where a title has the identifiers and the names it is looked up by, searching for it without a limit finds its entry
or one with the same key. -/
theorem title_found (positive : ∀ x, 0 < x → 0 < log1p x) {entry : KnowledgeEntry} (member : entry ∈ entries)
    (some_ : (readQuery unicode entries entry.title.text.toList).terms ≠ ∅)
    (shown : TitleShown unicode entries entry.title.text.toList) (sourceContext acrossProjects : Bool) :
    ∃ other ∈ searchCurrentKnowledge unicode log1p entries entry.title.text.toList sourceContext acrossProjects none,
      factKey unicode acrossProjects other = factKey unicode acrossProjects entry := by
  apply searched_of_ranked
  have ranked := ranked_of_matches_all unicode positive member some_ (matchesOf_title unicode shown sourceContext)
  unfold rankedSearch
  split
  · exact (List.mem_insertionSort _).mpr member
  · dsimp only
    rw [if_neg (List.ne_nil_of_mem ranked)]
    exact ranked

def rustEntry : KnowledgeEntry := plainEntry "a" (.of "Rust" (by decide +kernel)) (.of "Use Rust" (by decide +kernel))

def goEntry : KnowledgeEntry := plainEntry "b" (.of "Go" (by decide +kernel)) (.of "Rust and Go" (by decide +kernel))

theorem rustEntry_shown : (readQuery .latin [rustEntry, goEntry] rustEntry.title.text.toList).terms ≠ ∅ ∧
    capitalizedIdentifiers .latin rustEntry.title.text.toList = ∅ ∧
    namedPhrases .latin [rustEntry, goEntry] rustEntry.title.text.toList = ∅ := by
  decide +kernel

/-- The entry of a title of one word, beside another one with the word. -/
theorem title_found_word : ∃ other ∈ searchCurrentKnowledge .latin realLog1p [rustEntry, goEntry] rustEntry.title.text.toList false false none,
    factKey .latin false other = factKey .latin false rustEntry := by
  have ⟨asked, plain, unnamed⟩ := rustEntry_shown
  apply title_found .latin realLog1p_pos List.mem_cons_self asked
  refine ⟨?_, fun phrase listed => ?_⟩
  · rw [plain]
    exact Finset.empty_subset _
  · rw [unnamed] at listed
    exact absurd listed (Finset.notMem_empty _)

def sharpEntry : KnowledgeEntry := plainEntry "a" (.of "FoOß" (by decide +kernel)) (.of "alpha" (by decide +kernel))

def splitEntry : KnowledgeEntry := plainEntry "b" (.of "other" (by decide +kernel)) (.of "foo fooss" (by decide +kernel))

def sharpTitle : List Char := "FoOß".toList

def sharpAsked : QueryTerms := readQuery .latin [sharpEntry, splitEntry] sharpTitle

theorem sharp_matches : matchesOf .latin sharpAsked false sharpEntry = {"fooss".toList} ∧
    matchesOf .latin sharpAsked false splitEntry = {"fooss".toList, "foo".toList} ∧
    {"fooss".toList} ∩ (sharpAsked.explicit ∪ distinctiveTerms sharpAsked (documents .latin sharpAsked [sharpEntry, splitEntry])) = ∅ ∧
    frequency (documents .latin sharpAsked [sharpEntry, splitEntry]) "foo".toList <
      frequency (documents .latin sharpAsked [sharpEntry, splitEntry]) "fooss".toList := by
  decide +kernel

/-- The entry of the title is lost beside an entry that has the part of its word too. -/
theorem sharp_title_lost : sharpEntry.title.text.toList = sharpTitle ∧ sharpAsked.terms ≠ ∅ ∧
    ∀ other ∈ searchCurrentKnowledge .latin realLog1p [sharpEntry, splitEntry] sharpTitle false false none,
      factKey .latin false other ≠ factKey .latin false sharpEntry := by
  have ⟨one, two, shared, rarer⟩ := sharp_matches
  have filled : strip sharpTitle ≠ [] := by decide +kernel
  have alone : conjoinedParts sharpTitle = none := by decide +kernel
  have apart : factKey .latin false splitEntry ≠ factKey .latin false sharpEntry := by decide +kernel
  refine ⟨by decide +kernel, by decide +kernel, fun other place => ?_⟩
  have ranked := (mem_rankedSearch _ _ filled alone).mp (mem_of_mem_deduplicate _ place)
  have known := ((mem_rankCurrentEntries _ _).mp ranked).1
  rcases List.mem_pair.mp known with rfl | rfl
  · exact absurd ranked (outweighed .latin realLog1p_pos realLog1p_lt (by simp) one two shared rarer)
  · exact apart

end HarnessMem.Searching
