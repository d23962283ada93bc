import HarnessMem.Library.Casing
import HarnessMem.Library.Separators
import HarnessMem.Searching.Ranking
import Mathlib.Algebra.Order.BigOperators.Group.Finset
import Mathlib.Analysis.SpecialFunctions.Log.Basic
import Mathlib.Tactic.Linarith
import Mathlib.Tactic.Positivity

/-! The terms of a text depend on its words under case folding alone: neither the blanks between them nor
their case change what is counted.
-/

set_option autoImplicit false

namespace HarnessMem.Searching

open Library

/-! ### Patterns and blanks -/

def identifierMarks : List Char := ['-', '.', '/', '@', ':', '\\', '=', '+', '#']

theorem avoids_wordPattern {stop : Char} {accepts : Char → Bool} (outside : accepts stop = false) (mark : stop ∉ identifierMarks) :
    Regex.Avoids stop (wordPattern accepts) := by
  have dash : stop ∉ "-".toList := fun inside => mark (by rw [List.mem_singleton.mp inside]; decide)
  have plus : stop ∉ "++".toList := fun inside => mark (by
    rcases List.mem_pair.mp inside with same | same <;> rw [same] <;> decide)
  have hash : stop ∉ "#".toList := fun inside => mark (by rw [List.mem_singleton.mp inside]; decide)
  have start : (stop == '.' || stop == '/' || stop == '@') = false := by
    rw [Bool.eq_false_iff]
    intro found
    simp only [Bool.or_eq_true, beq_iff_eq] at found
    rcases found with (rfl | rfl) | rfl <;> exact mark (by decide)
  have joint : "./:\\=@-".toList.contains stop = false := by
    have listed : "./:\\=@-".toList = ['.', '/', ':', '\\', '=', '@', '-'] := by decide
    rw [Bool.eq_false_iff]
    intro found
    rw [listed, List.contains_iff_mem] at found
    exact mark ((by decide : ['.', '/', ':', '\\', '=', '@', '-'] ⊆ identifierMarks) found)
  have inner : Regex.Avoids stop (.plus (.one accepts)) := .seq (.one outside) (.star (.one outside))
  apply Regex.Avoids.cat
  simp only [List.forall_mem_cons]
  refine ⟨.upTo (.alt (.seq (.literal dash) (.upTo (.literal dash))) (.one start)), inner,
    .star (.seq (.seq (.one joint) (.star (.one joint))) inner), .upTo (.alt (.literal plus) (.literal hash)), ?_⟩
  exact fun _ member => absurd member List.not_mem_nil

theorem blank_stops {c : Char} (blank : isSpace c = true) :
    isTermChar c = false ∧ isCjk c = false ∧ c ∉ identifierMarks := by
  have number : ∀ first last : Char, (decide (first ≤ c) && decide (c ≤ last)) =
      (decide (first.toNat ≤ c.toNat) && decide (c.toNat ≤ last.toNat)) := by
    intro first last
    simp only [Char.le_def, UInt32.le_iff_toNat_le]
    rfl
  unfold isSpace at blank
  simp only [Bool.or_eq_true, Bool.and_eq_true, decide_eq_true_eq, beq_iff_eq] at blank
  refine ⟨?_, ?_, ?_⟩
  · have low : c ≠ '_' := by
      rintro rfl
      revert blank
      decide
    have letters : ('a'.toNat = 97 ∧ 'z'.toNat = 122) ∧ '0'.toNat = 48 ∧ '9'.toNat = 57 := by decide
    simp only [isTermChar, number, letters, Bool.or_eq_false_iff, Bool.and_eq_false_iff, decide_eq_false_iff_not,
      beq_eq_false_iff_ne]
    exact ⟨⟨by omega, by omega⟩, low⟩
  · simp only [isCjk, Bool.or_eq_false_iff, Bool.and_eq_false_iff, decide_eq_false_iff_not]
    omega
  · have marks : ∀ mark ∈ identifierMarks, isSpace mark = false := by decide
    intro inside
    have shown := marks c inside
    simp only [isSpace, Bool.or_eq_false_iff, Bool.and_eq_false_iff, decide_eq_false_iff_not, beq_eq_false_iff_ne] at shown
    omega

theorem isCjk_of_le {c last : Char} (below : c ≤ last) (low : last.toNat < 0x3400) : isCjk c = false := by
  have bound : c.toNat ≤ last.toNat := by
    rw [Char.le_def, UInt32.le_iff_toNat_le] at below
    exact below
  simp only [isCjk, Bool.or_eq_false_iff, Bool.and_eq_false_iff, decide_eq_false_iff_not]
  omega

theorem wordsOf_words (text : List Char) : wordsOf text = (words isSpace text).flatMap wordsOf := by
  apply Regex.findAll_words
  intro stop blank
  exact avoids_wordPattern (blank_stops blank).1 (blank_stops blank).2.2

theorem cjkRunsOf_words (text : List Char) : cjkRunsOf text = (words isSpace text).flatMap cjkRunsOf := by
  apply Regex.findAll_words
  intro stop blank
  have no : Regex.Avoids stop (.one isCjk) := .one (blank_stops blank).2.1
  exact .seq no (.star no)

variable (unicode : Unicode)

@[simp] theorem casefold_append (front back : List Char) :
    casefold unicode (front ++ back) = casefold unicode front ++ casefold unicode back := List.flatMap_append

theorem casefold_cjk {text : List Char} (all : ∀ c ∈ text, isCjk c = true) : casefold unicode text = text := by
  induction text with
  | nil => rfl
  | cons c rest ih =>
    have head := unicode.folded_cjk c (all c List.mem_cons_self)
    have tail := ih fun d member => all d (List.mem_cons_of_mem _ member)
    unfold casefold at tail ⊢
    rw [List.flatMap_cons, head, tail]
    rfl

theorem words_blanks {blank : Char → Bool} {word stops rest : List Char} (plain : ∀ c ∈ word, blank c = false) (filled : stops ≠ [])
    (all : ∀ c ∈ stops, blank c = true) :
    words blank (word ++ (stops ++ rest)) = (if word = [] then [] else [word]) ++ words blank rest := by
  induction stops generalizing word with
  | nil => exact absurd rfl filled
  | cons c stops ih =>
    rw [List.cons_append, words_blank plain (all c List.mem_cons_self)]
    by_cases more : stops = []
    · rw [more, List.nil_append]
    · have later := @ih [] (fun _ member => absurd member List.not_mem_nil) more
        fun d member => all d (List.mem_cons_of_mem _ member)
      rw [if_pos rfl, List.nil_append, List.nil_append] at later
      rw [later]

theorem cjkRunsOf_casefold (text : List Char) : cjkRunsOf (casefold unicode text) = cjkRunsOf text := by
  unfold cjkRunsOf
  rw [Regex.findAll_runs, Regex.findAll_runs]
  have same : ∀ word : List Char, (∀ c ∈ word, (!isCjk c) = false) → casefold unicode word = word := by
    intro word plain
    exact casefold_cjk unicode fun c inside => by simpa using plain c inside
  induction text using word_induction fun c => !isCjk c with
  | last word plain => rw [same word plain]
  | next word c rest plain stop ih =>
    have other := unicode.folded_other c (by simpa using stop)
    have shape : casefold unicode (word ++ c :: rest) = word ++ (unicode.folded c ++ casefold unicode rest) := by
      rw [casefold_append, same word plain]
      rfl
    rw [shape, words_blanks plain other.1 fun d inside => by rw [other.2 d inside]; rfl, words_blank plain stop, ih]

theorem termOccurrences_words (text : List Char) :
    termOccurrences unicode text = (words isSpace (casefold unicode text)).flatMap wordsOf ++
      ((words isSpace (casefold unicode text)).flatMap cjkRunsOf).flatMap fun run => run.map (fun c => [c]) ++ pairsOf run := by
  unfold termOccurrences
  rw [← wordsOf_words, ← cjkRunsOf_words, cjkRunsOf_casefold]

theorem termCounts_congr {text other : List Char}
    (same : words isSpace (casefold unicode text) = words isSpace (casefold unicode other)) :
    termCounts unicode text = termCounts unicode other := by
  unfold termCounts
  rw [termOccurrences_words, termOccurrences_words, same]

def Mentions (entry : KnowledgeEntry) (phrase : List Char) : Prop :=
  0 < phraseCount unicode phrase entry.title.text.toList + phraseCount unicode phrase entry.statement.text.toList

theorem termCounts_identity {entry other : KnowledgeEntry} (same : identity unicode entry = identity unicode other) :
    termCounts unicode entry.title.text.toList = termCounts unicode other.title.text.toList ∧
      termCounts unicode entry.statement.text.toList = termCounts unicode other.statement.text.toList := by
  obtain ⟨titles, statements⟩ := Prod.mk.inj same
  have split := congrArg (words isSpace) statements
  rw [words_spaced (by decide) (words_shown _), words_spaced (by decide) (words_shown _)] at split
  exact ⟨termCounts_congr unicode (congrArg (words isSpace) titles), termCounts_congr unicode split⟩

theorem content_identity {phrases : Finset (List Char)} {entry other : KnowledgeEntry} (same : identity unicode entry = identity unicode other)
    {term : List Char} (alike : term ∈ phrases → (Mentions unicode entry term ↔ Mentions unicode other term)) :
    0 < content unicode phrases entry term ↔ 0 < content unicode phrases other term := by
  obtain ⟨titles, statements⟩ := termCounts_identity unicode same
  unfold content fieldTerms
  rw [titles, statements]
  by_cases listed : term ∈ phrases
  · have mentioned := alike listed
    unfold Mentions at mentioned
    simp only [if_pos listed]
    omega
  · simp only [if_neg listed]

end HarnessMem.Searching

/-! Which entries the ranking admits, stated over the set of terms an entry matches, and what deduplication keeps. -/

namespace HarnessMem.Searching

open Library

theorem sum_sort {M : Type} [AddCommMonoid M] (terms : Finset (List Char)) (weights : List Char → M) :
    ((terms.sort (· ≤ ·)).map weights).sum = ∑ term ∈ terms, weights term := by
  rw [Finset.sum, ← Finset.sort_eq terms (· ≤ ·), Multiset.map_coe, Multiset.sum_coe]

variable {K : Type} [Field K] [LinearOrder K] (unicode : Unicode) (log1p : K → K)

section Score

omit [LinearOrder K]

variable {asked : QueryTerms} {sourceContext : Bool} {weights : List Char → K} {distinctive : Finset (List Char)} {entry : KnowledgeEntry}

theorem scoreOf_coverage : (scoreOf unicode asked sourceContext weights distinctive entry).coverage =
    ∑ term ∈ matchesOf unicode asked sourceContext entry, weights term :=
  sum_sort _ _

theorem scoreOf_matched : (scoreOf unicode asked sourceContext weights distinctive entry).matched =
    (matchesOf unicode asked sourceContext entry).card :=
  Finset.length_sort _

theorem scoreOf_independent {term : List Char} (found : matchesOf unicode asked sourceContext entry = {term})
    (own : {term} ∩ distinctive = {term}) :
    (scoreOf unicode asked sourceContext weights distinctive entry).independent = true := by
  have member : term ∈ distinctive := Finset.singleton_subset_iff.mp (Finset.inter_eq_left.mp own)
  unfold scoreOf
  dsimp only
  rw [decide_eq_true_eq, found]
  exact Finset.ne_empty_of_mem (Finset.mem_inter.mpr ⟨Finset.mem_singleton_self _, Finset.mem_union_right _ member⟩)

end Score

theorem matchesOf_subset (asked : QueryTerms) (sourceContext : Bool) (entry : KnowledgeEntry) :
    matchesOf unicode asked sourceContext entry ⊆ asked.terms := by
  unfold matchesOf
  dsimp only
  split
  · exact Finset.filter_subset _ _
  · exact Finset.sdiff_subset.trans (Finset.filter_subset _ _)

def scoreIn (asked : QueryTerms) (sourceContext : Bool) (entries : List KnowledgeEntry) (entry : KnowledgeEntry) : Scored K :=
  scoreOf unicode asked sourceContext (weight log1p (documents unicode asked entries))
    (distinctiveTerms asked (documents unicode asked entries)) entry

variable {sourceContext : Bool} {entries : List KnowledgeEntry}

theorem mem_scored {asked : QueryTerms} {item : Scored K} :
    item ∈ scored unicode log1p asked sourceContext entries ↔
      ∃ entry ∈ entries, scoreIn unicode log1p asked sourceContext entries entry = item ∧ item.coverage ≠ 0 := by
  unfold scored scoreIn
  simp only [List.mem_filter, List.mem_map, decide_eq_true_eq]
  constructor
  · rintro ⟨⟨entry, member, rfl⟩, covered⟩
    exact ⟨entry, member, rfl, covered⟩
  · rintro ⟨entry, member, rfl, covered⟩
    exact ⟨⟨entry, member, rfl⟩, covered⟩

variable {entry : KnowledgeEntry}

/-- An entry is ranked when its score is strong and no fuller match suppresses it. -/
theorem mem_rankCurrentEntries {query : List Char} :
    entry ∈ rankCurrentEntries unicode log1p entries query sourceContext ↔
      entry ∈ entries ∧
        (scoreIn unicode log1p (readQuery unicode entries query) sourceContext entries entry).coverage ≠ 0 ∧
        strong (scored unicode log1p (readQuery unicode entries query) sourceContext entries)
          (scoreIn unicode log1p (readQuery unicode entries query) sourceContext entries entry) = true ∧
        suppressed unicode (readQuery unicode entries query)
          (scored unicode log1p (readQuery unicode entries query) sourceContext entries)
          (scoreIn unicode log1p (readQuery unicode entries query) sourceContext entries entry) = false := by
  unfold rankCurrentEntries
  simp only [List.mem_map, List.mem_insertionSort, List.mem_filter, mem_scored, Bool.not_eq_true']
  constructor
  · rintro ⟨_, ⟨⟨⟨owner, member, rfl, covered⟩, firm⟩, free⟩, rfl⟩
    exact ⟨member, covered, firm, free⟩
  · rintro ⟨member, covered, firm, free⟩
    exact ⟨_, ⟨⟨⟨entry, member, rfl, covered⟩, firm⟩, free⟩, rfl⟩

/-! ### Weights and coverage -/

theorem frequency_le (documents : List ((List Char × List Char) × (List Char → Nat))) (term : List Char) :
    frequency documents term ≤ documents.length :=
  List.countP_le_length

section Ordered

variable [IsStrictOrderedRing K]

theorem weight_pos {log1p : K → K} (positive : ∀ x, 0 < x → 0 < log1p x)
    (documents : List ((List Char × List Char) × (List Char → Nat))) (term : List Char) : 0 < weight log1p documents term := by
  have bound : (frequency documents term : K) ≤ documents.length := Nat.cast_le.mpr (frequency_le documents term)
  have count : (0 : K) ≤ frequency documents term := Nat.cast_nonneg _
  apply positive
  apply div_pos <;> linarith

theorem coverage_le {items : List (Scored K)} {item : Scored K} (member : item ∈ items) : item.coverage ≤ cutoff items * 2 := by
  unfold cutoff
  rw [div_mul_cancel₀ _ two_ne_zero]
  cases found : (items.map (·.coverage)).max? with
  | none =>
    rw [List.max?_eq_none_iff, List.map_eq_nil_iff] at found
    rw [found] at member
    exact absurd member List.not_mem_nil
  | some top => exact (List.max?_eq_some_iff.mp found).2 _ (List.mem_map_of_mem member)

theorem cutoff_le {items : List (Scored K)} {bound : K} (none_ : 0 ≤ bound) (above : ∀ item ∈ items, item.coverage ≤ bound) :
    cutoff items ≤ bound := by
  unfold cutoff
  cases found : (items.map (·.coverage)).max? with
  | none =>
    rw [Option.getD_none, zero_div]
    exact none_
  | some top =>
    obtain ⟨item, member, rfl⟩ := List.mem_map.mp (List.max?_eq_some_iff.mp found).1
    have below := above item member
    rw [Option.getD_some, div_le_iff₀ two_pos]
    linarith

theorem weight_lt {log1p : K → K} (increasing : ∀ x y, 0 < x → x < y → log1p x < log1p y)
    {documents : List ((List Char × List Char) × (List Char → Nat))} {common rare : List Char}
    (rarer : frequency documents rare < frequency documents common) : weight log1p documents common < weight log1p documents rare := by
  have bound : (frequency documents common : K) ≤ documents.length := Nat.cast_le.mpr (frequency_le documents common)
  have count : (0 : K) ≤ frequency documents rare := Nat.cast_nonneg _
  have fewer : (frequency documents rare : K) < frequency documents common := Nat.cast_lt.mpr rarer
  apply increasing
  · apply div_pos <;> linarith
  · apply div_lt_div₀ <;> linarith

/-- An entry with one shared term is left out beside an entry with this term and a rarer one. -/
theorem outweighed {log1p : K → K} (positive : ∀ x, 0 < x → 0 < log1p x) (increasing : ∀ x y, 0 < x → x < y → log1p x < log1p y)
    {entries : List KnowledgeEntry} {query : List Char} {sourceContext : Bool} {lone fuller : KnowledgeEntry} {common rare : List Char}
    (member : fuller ∈ entries)
    (one : matchesOf unicode (readQuery unicode entries query) sourceContext lone = {common})
    (two : matchesOf unicode (readQuery unicode entries query) sourceContext fuller = {common, rare})
    (shared : {common} ∩ ((readQuery unicode entries query).explicit ∪
      distinctiveTerms (readQuery unicode entries query) (documents unicode (readQuery unicode entries query) entries)) = ∅)
    (rarer : frequency (documents unicode (readQuery unicode entries query) entries) rare <
      frequency (documents unicode (readQuery unicode entries query) entries) common) :
    lone ∉ rankCurrentEntries unicode log1p entries query sourceContext := by
  intro ranked
  obtain ⟨_, _, firm, _⟩ := (mem_rankCurrentEntries unicode log1p).mp ranked
  generalize named : readQuery unicode entries query = asked at *
  have differ : common ∉ ({rare} : Finset (List Char)) := by
    rw [Finset.mem_singleton]
    rintro rfl
    exact lt_irrefl _ rarer
  have less := weight_lt increasing rarer
  have some_ := weight_pos positive (documents unicode asked entries) common
  have low : (scoreIn unicode log1p asked sourceContext entries lone).coverage = weight log1p (documents unicode asked entries) common := by
    rw [scoreIn, scoreOf_coverage, one, Finset.sum_singleton]
  have high : (scoreIn unicode log1p asked sourceContext entries fuller).coverage =
      weight log1p (documents unicode asked entries) common + weight log1p (documents unicode asked entries) rare := by
    rw [scoreIn, scoreOf_coverage, two, Finset.sum_insert differ, Finset.sum_singleton]
  have covered := coverage_le ((mem_scored unicode log1p).mpr ⟨fuller, member, rfl, by
    rw [high]
    exact (add_pos some_ (some_.trans less)).ne'⟩)
  have single : (scoreIn unicode log1p asked sourceContext entries lone).matched = 1 := by
    rw [scoreIn, scoreOf_matched, one, Finset.card_singleton]
  have dependent : (scoreIn unicode log1p asked sourceContext entries lone).independent = false := by
    unfold scoreIn scoreOf
    dsimp only
    rw [one, shared]
    rfl
  unfold strong at firm
  rw [single, dependent, Bool.or_false, Bool.or_eq_true, decide_eq_true_eq, low] at firm
  rw [high] at covered
  rcases firm with above | several
  · linarith
  · cases several

end Ordered

/-! ### Deduplication -/

theorem mem_of_mem_deduplicate {acrossProjects : Bool} {seen : List FactKey}
    (member : entry ∈ deduplicateFrom unicode acrossProjects seen entries) : entry ∈ entries := by
  induction entries generalizing seen with
  | nil => exact absurd member List.not_mem_nil
  | cons other entries ih =>
    rw [deduplicateFrom] at member
    split at member
    · exact List.mem_cons_of_mem _ (ih member)
    · rcases List.mem_cons.mp member with same | later
      · exact same ▸ List.mem_cons_self
      · exact List.mem_cons_of_mem _ (ih later)

theorem deduplicate_represents {acrossProjects : Bool} {seen : List FactKey}
    (member : entry ∈ entries) : factKey unicode acrossProjects entry ∈ seen ∨
      ∃ other ∈ deduplicateFrom unicode acrossProjects seen entries,
        factKey unicode acrossProjects other = factKey unicode acrossProjects entry := by
  induction entries generalizing seen with
  | nil => exact absurd member List.not_mem_nil
  | cons first entries ih =>
    rw [deduplicateFrom]
    rcases List.mem_cons.mp member with same | later
    · subst same
      split
      · next known => exact .inl known
      · exact .inr ⟨entry, List.mem_cons_self, rfl⟩
    · split
      · exact ih later
      · rcases @ih (factKey unicode acrossProjects first :: seen) later with known | kept
        · rcases List.mem_cons.mp known with equal | old
          · exact .inr ⟨first, List.mem_cons_self, equal.symm⟩
          · exact .inl old
        · obtain ⟨other, place, equal⟩ := kept
          exact .inr ⟨other, List.mem_cons_of_mem _ place, equal⟩

theorem mem_rankedSearch {query : List Char} (filled : strip query ≠ [])
    (alone : conjoinedParts query = none) :
    entry ∈ rankedSearch unicode log1p entries query sourceContext ↔
      entry ∈ rankCurrentEntries unicode log1p entries query sourceContext := by
  unfold rankedSearch
  rw [if_neg filled]
  dsimp only
  split
  · next empty =>
    have nothing : rankConjoinedTopics unicode log1p entries query = [] := by
      unfold rankConjoinedTopics
      rw [alone]
    rw [empty, nothing]
  · rfl

theorem searched_of_ranked {entries : List KnowledgeEntry} {query : List Char} {sourceContext acrossProjects : Bool}
    {entry : KnowledgeEntry} (ranked : entry ∈ rankedSearch unicode log1p entries query sourceContext) :
    ∃ other ∈ searchCurrentKnowledge unicode log1p entries query sourceContext acrossProjects none,
      factKey unicode acrossProjects other = factKey unicode acrossProjects entry :=
  (deduplicate_represents unicode ranked).resolve_left List.not_mem_nil

/-! ### Weights and entries to rank -/

/-- `math.log1p`. -/
noncomputable def realLog1p (x : ℝ) : ℝ := Real.log (1 + x)

theorem realLog1p_pos (x : ℝ) (positive : 0 < x) : 0 < realLog1p x := Real.log_pos (by linarith)

theorem realLog1p_lt (x y : ℝ) (positive : 0 < x) (less : x < y) : realLog1p x < realLog1p y :=
  Real.log_lt_log (by linarith) (by linarith)

/-- An entry of the module `core`. -/
def plainEntry (id : String) (title statement : SingleLine) : KnowledgeEntry where
  id
  projectName := .of "demo" (by decide +kernel)
  modulePath := [.of "core" SingleLine.core_line]
  title
  statement
  createdAt := 0
  updatedAt := 0
  placed := SingleLine.core_placed
  attributed := KnowledgeEntry.not_reported title statement

end HarnessMem.Searching
