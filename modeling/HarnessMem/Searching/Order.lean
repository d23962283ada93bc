import HarnessMem.Searching.Admission

/-! The ranking does not depend on the order entries are stored in, where entries of one wording mention the same
of the names that a query asks for. The content of a wording is that of the last entry that has it.
-/

set_option autoImplicit false

namespace HarnessMem.Searching

open Library

theorem insertionSort_order {α κ : Type} [LinearOrder κ] {key : α → κ} [DecidableRel fun first second => key first ≤ key second]
    {items others : List α} (perm : items.Perm others) (apart : ∀ one ∈ items, ∀ other ∈ items, key one = key other → one = other) :
    items.insertionSort (fun first second => key first ≤ key second) =
      others.insertionSort fun first second => key first ≤ key second := by
  have total : Std.Total fun first second : α => key first ≤ key second := ⟨fun first second => le_total _ _⟩
  have trans : IsTrans α fun first second => key first ≤ key second := ⟨fun _ _ _ one two => one.trans two⟩
  have first := List.perm_insertionSort (fun first second => key first ≤ key second) items
  have second := List.perm_insertionSort (fun first second => key first ≤ key second) others
  apply List.Perm.eq_of_pairwise _ (List.pairwise_insertionSort _ items) (List.pairwise_insertionSort _ others)
    (first.trans (perm.trans second.symm))
  intro one other here there below above
  exact apart one (first.mem_iff.mp here) other (perm.mem_iff.mpr (second.mem_iff.mp there)) (le_antisymm below above)

theorem max?_perm {K : Type} [LinearOrder K] {items others : List K} (perm : items.Perm others) : items.max? = others.max? := by
  cases found : items.max? with
  | none =>
    rw [List.max?_eq_none_iff] at found
    rw [found] at perm
    rw [perm.nil_eq.symm]
    rfl
  | some top =>
    obtain ⟨member, above⟩ := List.max?_eq_some_iff.mp found
    exact (List.max?_eq_some_iff.mpr ⟨perm.mem_iff.mp member, fun other place => above other (perm.mem_iff.mpr place)⟩).symm

variable {K : Type} [Field K] [LinearOrder K] (unicode : Unicode) (log1p : K → K)

def PhrasesAgree (entries : List KnowledgeEntry) (query : List Char) : Prop :=
  ∀ phrase ∈ namedPhrases unicode entries query, ∀ entry ∈ entries, ∀ other ∈ entries,
    identity unicode entry = identity unicode other → (Mentions unicode entry phrase ↔ Mentions unicode other phrase)

/-! ### What is read of the entries as a whole -/

section Whole

variable {entries others : List KnowledgeEntry} (perm : entries.Perm others)

include perm

theorem namedPhrases_perm (query : List Char) : namedPhrases unicode entries query = namedPhrases unicode others query := by
  unfold namedPhrases
  have same : ∀ phrase : List Char, (entries.any fun entry => decide (phrase <:+: casefold unicode (entryText entry))) =
      others.any fun entry => decide (phrase <:+: casefold unicode (entryText entry)) := fun _ => perm.any_eq
  simp only [same]

theorem readQuery_perm (query : List Char) : readQuery unicode entries query = readQuery unicode others query := by
  unfold readQuery
  rw [namedPhrases_perm unicode perm]

theorem documents_perm {asked : QueryTerms} (kind : (List Char → Nat) → Bool)
    (agree : ∀ entry ∈ entries, ∀ other ∈ entries, identity unicode entry = identity unicode other →
      ∀ term, 0 < content unicode asked.phrases entry term ↔ 0 < content unicode asked.phrases other term)
    (shown : ∀ one other : List Char → Nat, (∀ term, 0 < one term ↔ 0 < other term) → kind one = kind other) :
    (documents unicode asked entries).countP (fun document => kind document.2) =
      (documents unicode asked others).countP fun document => kind document.2 := by
  unfold documents
  rw [List.countP_filter, List.countP_filter]
  apply countP_assigned_perm perm
  intro entry here other there same
  have alike := agree entry here other there same
  dsimp only
  rw [shown _ _ alike]
  simp only [alike]

variable {query : List Char} (agree : PhrasesAgree unicode entries query)

include agree

omit perm in
theorem contents_agree {entry other : KnowledgeEntry} (here : entry ∈ entries) (there : other ∈ entries)
    (same : identity unicode entry = identity unicode other) (term : List Char) :
    0 < content unicode (readQuery unicode entries query).phrases entry term ↔
      0 < content unicode (readQuery unicode entries query).phrases other term :=
  content_identity unicode same fun listed => agree term listed entry here other there same

theorem frequency_perm (term : List Char) :
    frequency (documents unicode (readQuery unicode entries query) entries) term =
      frequency (documents unicode (readQuery unicode entries query) others) term := by
  apply documents_perm unicode perm fun terms => decide (0 < terms term)
  · exact fun entry here other there same => contents_agree unicode agree here there same
  · exact fun one other alike => decide_eq_decide.mpr (alike term)

theorem documents_length :
    (documents unicode (readQuery unicode entries query) entries).length =
      (documents unicode (readQuery unicode entries query) others).length := by
  rw [← congrFun List.countP_true (documents unicode (readQuery unicode entries query) entries),
    ← congrFun List.countP_true (documents unicode (readQuery unicode entries query) others)]
  apply documents_perm unicode perm fun _ => true
  · exact fun entry here other there same => contents_agree unicode agree here there same
  · exact fun _ _ _ => rfl

theorem scored_perm (sourceContext : Bool) :
    (scored unicode log1p (readQuery unicode entries query) sourceContext entries).Perm
      (scored unicode log1p (readQuery unicode others query) sourceContext others) := by
  have weights : (weight log1p (documents unicode (readQuery unicode entries query) entries) : List Char → K) =
      weight log1p (documents unicode (readQuery unicode entries query) others) := by
    funext term
    unfold weight
    rw [frequency_perm unicode perm agree, documents_length unicode perm agree]
  have distinctive : distinctiveTerms (readQuery unicode entries query) (documents unicode (readQuery unicode entries query) entries) =
      distinctiveTerms (readQuery unicode entries query) (documents unicode (readQuery unicode entries query) others) := by
    unfold distinctiveTerms
    simp only [frequency_perm unicode perm agree]
  rw [← readQuery_perm unicode perm]
  unfold scored
  dsimp only
  rw [weights, distinctive]
  exact (perm.map _).filter _

end Whole

/-! ### Admission and ranking -/

theorem cutoff_perm {items others : List (Scored K)} (perm : items.Perm others) : cutoff items = cutoff others := by
  unfold cutoff
  rw [max?_perm (perm.map _)]

omit [Field K] [LinearOrder K] in
theorem compoundTerms_perm {items others : List (Scored K)} (perm : items.Perm others) :
    compoundTerms items = compoundTerms others :=
  List.toFinset_eq_of_perm _ _ ((perm.filter _).flatMap_right _)

theorem admitted_perm {asked : QueryTerms} {items others : List (Scored K)} (perm : items.Perm others) :
    ((items.filter (strong items)).filter fun item => !suppressed unicode asked items item).Perm
      ((others.filter (strong others)).filter fun item => !suppressed unicode asked others item) := by
  have strength : strong items = strong others := by
    funext item
    unfold strong
    rw [cutoff_perm perm]
  have lone : suppressed unicode asked items = suppressed unicode asked others := by
    funext item
    unfold suppressed
    rw [compoundTerms_perm perm]
  rw [strength, lone]
  exact (perm.filter _).filter _

theorem rankKey_apart {asked : QueryTerms} {sourceContext : Bool} {entries : List KnowledgeEntry} (distinct : (entries.map (·.id)).Nodup)
    {one other : Scored K} (here : one ∈ scored unicode log1p asked sourceContext entries)
    (there : other ∈ scored unicode log1p asked sourceContext entries) (same : rankKey one = rankKey other) : one = other := by
  obtain ⟨entry, member, rfl⟩ := List.mem_map.mp (List.mem_of_mem_filter here)
  obtain ⟨entry', member', rfl⟩ := List.mem_map.mp (List.mem_of_mem_filter there)
  simp only [rankKey, EmbeddingLike.apply_eq_iff_eq, Prod.mk.injEq] at same
  rw [List.inj_on_of_nodup_map distinct member member' same.2.2.2.2.2.2]

theorem rankCurrentEntries_perm {entries others : List KnowledgeEntry} (perm : entries.Perm others)
    (distinct : (entries.map (·.id)).Nodup) {query : List Char} (agree : PhrasesAgree unicode entries query) (sourceContext : Bool) :
    rankCurrentEntries unicode log1p entries query sourceContext = rankCurrentEntries unicode log1p others query sourceContext := by
  have items := scored_perm unicode log1p perm agree sourceContext
  have asked := readQuery_perm unicode perm query
  unfold rankCurrentEntries
  rw [← asked] at items ⊢
  apply congrArg (List.map Scored.entry)
  apply insertionSort_order (admitted_perm unicode items)
  intro one here other there
  exact rankKey_apart unicode log1p distinct (List.mem_of_mem_filter (List.mem_of_mem_filter here))
    (List.mem_of_mem_filter (List.mem_of_mem_filter there))

/-! ### Two topics -/

theorem conjoinedParts_cjk {query first second : List Char} (parts : conjoinedParts query = some (first, second)) :
    first.all isCjk = true ∧ second.all isCjk = true := by
  unfold conjoinedParts at parts
  split at parts
  · cases parts
  · split at parts
    · dsimp only at parts
      split at parts
      · next whole =>
        cases parts
        exact ⟨whole.2.2.1, whole.2.2.2⟩
      · cases parts
    · cases parts

theorem namedPhrases_cjk (entries : List KnowledgeEntry) {query : List Char} (chinese : query.all isCjk = true) :
    namedPhrases unicode entries query = ∅ := by
  have none_ : Regex.Unmatched (namePattern unicode) none query [] := by
    intro front back whole filled
    obtain ⟨c, rest, rfl⟩ := List.exists_cons_of_ne_nil filled
    have inside : isCjk c = true := List.all_eq_true.mp chinese c (by rw [whole]; simp)
    have small : ('A' ≤ c && c ≤ 'Z') = false := by
      rw [Bool.eq_false_iff]
      intro capital
      rw [Bool.and_eq_true, decide_eq_true_eq, decide_eq_true_eq] at capital
      rw [isCjk_of_le capital.2 (by decide)] at inside
      cases inside
    have ends : (namePattern unicode).ends { before := front.getLast?.or none, rest := c :: rest ++ [] } = [] := by
      rw [List.eq_nil_iff_forall_not_mem]
      intro stop member
      obtain ⟨start, bounded, later⟩ := Regex.mem_ends_seq.mp member
      obtain ⟨_, rfl⟩ := Regex.mem_ends_check.mp bounded
      obtain ⟨behind, name, _⟩ := Regex.mem_ends_seq.mp later
      obtain ⟨letter, capital, _⟩ := Regex.mem_ends_seq.mp name
      obtain ⟨d, more, shape, accepted, _⟩ := Regex.mem_ends_one.mp capital
      obtain ⟨rfl, _⟩ := List.cons.inj shape
      rw [small] at accepted
      cases accepted
    unfold Regex.match?
    rw [ends]
  have pieces := Regex.pieces_unmatched none_
  rw [List.append_nil] at pieces
  unfold namedPhrases Regex.findAll
  rw [pieces]
  rfl

theorem phrasesAgree_cjk (entries : List KnowledgeEntry) {query : List Char} (chinese : query.all isCjk = true) :
    PhrasesAgree unicode entries query := by
  intro phrase listed
  rw [namedPhrases_cjk unicode entries chinese] at listed
  exact absurd listed (Finset.notMem_empty _)

theorem rankConjoinedTopics_perm {entries others : List KnowledgeEntry} (perm : entries.Perm others)
    (distinct : (entries.map (·.id)).Nodup) (query : List Char) :
    rankConjoinedTopics unicode log1p entries query = rankConjoinedTopics unicode log1p others query := by
  unfold rankConjoinedTopics
  split
  · rfl
  · next first second parts =>
    obtain ⟨one, two⟩ := conjoinedParts_cjk parts
    rw [rankCurrentEntries_perm unicode log1p perm distinct (phrasesAgree_cjk unicode entries one),
      rankCurrentEntries_perm unicode log1p perm distinct (phrasesAgree_cjk unicode entries two)]

/-! ### Search -/

/-- Where entries of one wording mention the same of the names in a query, the ranking and its deduplication
are one list for every order the entries are stored in. -/
theorem search_storage_order {entries others : List KnowledgeEntry} (perm : entries.Perm others)
    (distinct : (entries.map (·.id)).Nodup) (query : List Char) (agree : PhrasesAgree unicode entries query)
    (sourceContext acrossProjects : Bool) (limit : Option Int) :
    rankedSearch unicode log1p entries query sourceContext = rankedSearch unicode log1p others query sourceContext ∧
      searchCurrentKnowledge unicode log1p entries query sourceContext acrossProjects limit =
        searchCurrentKnowledge unicode log1p others query sourceContext acrossProjects limit := by
  have ranked : rankedSearch unicode log1p entries query sourceContext = rankedSearch unicode log1p others query sourceContext := by
    unfold rankedSearch
    split
    · apply insertionSort_order perm
      intro one here other there same
      simp only [browseKey, EmbeddingLike.apply_eq_iff_eq, Prod.mk.injEq] at same
      exact List.inj_on_of_nodup_map distinct here there same.2.2
    · rw [rankCurrentEntries_perm unicode log1p perm distinct agree, rankConjoinedTopics_perm unicode log1p perm distinct]
  refine ⟨ranked, ?_⟩
  unfold searchCurrentKnowledge
  rw [ranked]

/-! ### Two spellings of one wording -/

def onceSpaced : KnowledgeEntry := plainEntry "a" (.of "T" (by decide +kernel)) (.of "Claude Code now" (by decide +kernel))

def twiceSpaced : KnowledgeEntry := plainEntry "b" (.of "T" (by decide +kernel)) (.of "Claude  Code now" (by decide +kernel))

def timeoutEntry : KnowledgeEntry := plainEntry "c" (.of "U" (by decide +kernel)) (.of "Claude Code timeout" (by decide +kernel))

def timeoutQuery : List Char := "Claude Code timeout".toList

def claudeCode : List Char := "claude code".toList

def timeoutTerm : List Char := "timeout".toList

def spelledEarly : List KnowledgeEntry := [onceSpaced, twiceSpaced, timeoutEntry]

def spelledEarlyAsked : QueryTerms := readQuery .latin spelledEarly timeoutQuery

def spelledLate : List KnowledgeEntry := [twiceSpaced, onceSpaced, timeoutEntry]

def spelledLateAsked : QueryTerms := readQuery .latin spelledLate timeoutQuery

theorem early_distinctive :
    matchesOf .latin spelledEarlyAsked false onceSpaced = {claudeCode} ∧
      {claudeCode} ∩ distinctiveTerms spelledEarlyAsked (documents .latin spelledEarlyAsked spelledEarly) = {claudeCode} := by
  decide +kernel

theorem late_shared :
    {claudeCode} ∩ (spelledLateAsked.explicit ∪
        distinctiveTerms spelledLateAsked (documents .latin spelledLateAsked spelledLate)) = ∅ ∧
      frequency (documents .latin spelledLateAsked spelledLate) timeoutTerm <
        frequency (documents .latin spelledLateAsked spelledLate) claudeCode := by
  decide +kernel

theorem late_matches :
    matchesOf .latin spelledLateAsked false onceSpaced = {claudeCode} ∧
      matchesOf .latin spelledLateAsked false twiceSpaced = ∅ ∧
      matchesOf .latin spelledLateAsked false timeoutEntry = {claudeCode, timeoutTerm} := by
  decide +kernel

theorem early_ranked : onceSpaced ∈ rankCurrentEntries .latin realLog1p spelledEarly timeoutQuery false := by
  have ⟨found, distinctive⟩ := early_distinctive
  have independent : (scoreIn .latin realLog1p spelledEarlyAsked false spelledEarly onceSpaced).independent = true :=
    scoreOf_independent .latin found distinctive
  rw [mem_rankCurrentEntries]
  refine ⟨List.mem_cons_self, ?_, ?_, ?_⟩
  · change (scoreIn .latin realLog1p spelledEarlyAsked false spelledEarly onceSpaced).coverage ≠ 0
    rw [scoreIn, scoreOf_coverage, found, Finset.sum_singleton]
    exact (weight_pos realLog1p_pos _ _).ne'
  · change strong _ (scoreIn .latin realLog1p spelledEarlyAsked false spelledEarly onceSpaced) = true
    unfold strong
    rw [independent, Bool.or_true]
  · change suppressed .latin _ _ (scoreIn .latin realLog1p spelledEarlyAsked false spelledEarly onceSpaced) = false
    unfold suppressed
    rw [independent, Bool.not_true, Bool.and_false, Bool.false_and, Bool.false_and]

theorem late_unranked (entry : KnowledgeEntry) (same : factKey .latin false entry = factKey .latin false onceSpaced) :
    entry ∉ rankCurrentEntries .latin realLog1p spelledLate timeoutQuery false := by
  have ⟨shared, rarer⟩ := late_shared
  have ⟨one, none_, both⟩ := late_matches
  have apart : factKey .latin false timeoutEntry ≠ factKey .latin false onceSpaced := by decide
  intro ranked
  obtain ⟨member, covered, _⟩ := (mem_rankCurrentEntries _ _).mp ranked
  have cases_ : entry = twiceSpaced ∨ entry = onceSpaced ∨ entry = timeoutEntry := by simpa [spelledLate] using member
  rcases cases_ with rfl | rfl | rfl
  · change (scoreIn .latin realLog1p spelledLateAsked false spelledLate twiceSpaced).coverage ≠ 0 at covered
    rw [scoreIn, scoreOf_coverage, none_, Finset.sum_empty] at covered
    exact covered rfl
  · have place : timeoutEntry ∈ spelledLate := by simp [spelledLate]
    exact outweighed .latin realLog1p_pos realLog1p_lt place one both shared rarer ranked
  · exact apart same

/-- Two orders of the same entries, of which two have one wording with other blanks, are ranked differently. -/
theorem storage_order_ranks :
    spelledEarly.Perm spelledLate ∧ (spelledEarly.map (·.id)).Nodup ∧
      rankedSearch .latin realLog1p spelledEarly timeoutQuery false ≠ rankedSearch .latin realLog1p spelledLate timeoutQuery false ∧
      searchCurrentKnowledge .latin realLog1p spelledEarly timeoutQuery false false none ≠
        searchCurrentKnowledge .latin realLog1p spelledLate timeoutQuery false false none := by
  have filled : strip timeoutQuery ≠ [] := by decide +kernel
  have alone : conjoinedParts timeoutQuery = none := by decide +kernel
  have shown : onceSpaced ∈ rankedSearch .latin realLog1p spelledEarly timeoutQuery false :=
    (mem_rankedSearch _ _ filled alone).mpr early_ranked
  refine ⟨.swap _ _ _, by decide, ?_, ?_⟩
  · intro same
    rw [same, mem_rankedSearch _ _ filled alone] at shown
    exact late_unranked onceSpaced rfl shown
  · intro same
    obtain ⟨other, place, equal⟩ := @searched_of_ranked _ _ _ _ _ _ _ _ false _ shown
    rw [same] at place
    exact late_unranked other equal ((mem_rankedSearch _ _ filled alone).mp (mem_of_mem_deduplicate _ place))

/-- Without blanks to differ in, the entries are ranked alike. -/
theorem search_storage_order_single :
    rankedSearch .latin realLog1p [onceSpaced, timeoutEntry] timeoutQuery false =
        rankedSearch .latin realLog1p [timeoutEntry, onceSpaced] timeoutQuery false ∧
      searchCurrentKnowledge .latin realLog1p [onceSpaced, timeoutEntry] timeoutQuery false false none =
        searchCurrentKnowledge .latin realLog1p [timeoutEntry, onceSpaced] timeoutQuery false false none := by
  have ids : ([onceSpaced, timeoutEntry].map (·.id)).Nodup := by decide
  apply search_storage_order .latin realLog1p (.swap _ _ _) ids
  intro phrase _ entry here other there same
  have apart : identity .latin onceSpaced ≠ identity .latin timeoutEntry := by decide +kernel
  simp only [List.mem_cons, List.not_mem_nil, or_false] at here there
  rcases here with rfl | rfl <;> rcases there with rfl | rfl
  · exact Iff.rfl
  · exact absurd same apart
  · exact absurd same.symm apart
  · exact Iff.rfl

end HarnessMem.Searching
