import HarnessMem.Searching.Admission

/-! What a search shows: of each fact the entry that ranks first, in the order of the ranking, and no entry that
has nothing of what is asked.
-/

set_option autoImplicit false

namespace HarnessMem.Searching

open Library

variable {K : Type} [Field K] [LinearOrder K] (unicode : Unicode) (log1p : K → K)

/-! ### Deduplication -/

variable {entries : List KnowledgeEntry} {entry : KnowledgeEntry} {acrossProjects : Bool} {seen : List FactKey}

theorem deduplicateFrom_sublist : (deduplicateFrom unicode acrossProjects seen entries).Sublist entries := by
  induction entries generalizing seen with
  | nil => exact List.Sublist.refl _
  | cons first rest ih =>
    rw [deduplicateFrom]
    split
    · exact ih.cons first
    · exact ih.cons_cons first

/-- What is kept is the first entry with its key, and no key was seen before. -/
theorem deduplicateFrom_first (kept : entry ∈ deduplicateFrom unicode acrossProjects seen entries) :
    factKey unicode acrossProjects entry ∉ seen ∧
      entries.find? (fun other => factKey unicode acrossProjects other = factKey unicode acrossProjects entry) = some entry := by
  induction entries generalizing seen with
  | nil => exact absurd kept List.not_mem_nil
  | cons first rest ih =>
    rw [deduplicateFrom] at kept
    split at kept
    · next known =>
      obtain ⟨fresh, found⟩ := ih kept
      have other : factKey unicode acrossProjects first ≠ factKey unicode acrossProjects entry := fun same => fresh (same ▸ known)
      exact ⟨fresh, (List.find?_cons_of_neg (by simpa using other)).trans found⟩
    · next unknown =>
      rcases List.mem_cons.mp kept with rfl | later
      · exact ⟨unknown, List.find?_cons_of_pos (decide_eq_true rfl)⟩
      · obtain ⟨fresh, found⟩ := ih later
        rw [List.mem_cons, not_or] at fresh
        exact ⟨fresh.2, (List.find?_cons_of_neg (by simpa using Ne.symm fresh.1)).trans found⟩

theorem deduplicateFrom_nodup : ((deduplicateFrom unicode acrossProjects seen entries).map (factKey unicode acrossProjects)).Nodup := by
  induction entries generalizing seen with
  | nil => exact List.nodup_nil
  | cons first rest ih =>
    rw [deduplicateFrom]
    split
    · exact ih
    · rw [List.map_cons, List.nodup_cons]
      refine ⟨fun again => ?_, ih⟩
      obtain ⟨other, kept, same⟩ := List.mem_map.mp again
      exact (deduplicateFrom_first unicode kept).1 (same ▸ List.mem_cons_self)

/-! ### The ranking -/

theorem mem_interleaved {α : Type} {item : α} {first second : List α} (member : item ∈ interleaved first second) :
    item ∈ first ∨ item ∈ second := by
  induction first, second using interleaved.induct with
  | case1 second => exact .inr member
  | case2 first =>
    cases first <;> exact .inl member
  | case3 head first other second ih =>
    rw [interleaved, List.mem_cons, List.mem_cons] at member
    rcases member with rfl | rfl | later
    · exact .inl List.mem_cons_self
    · exact .inr List.mem_cons_self
    · exact (ih later).imp (List.mem_cons_of_mem _) (List.mem_cons_of_mem _)

def Relevant (entries : List KnowledgeEntry) (query : List Char) (sourceContext : Bool) (entry : KnowledgeEntry) : Prop :=
  entry ∈ entries ∧ ∃ term ∈ (readQuery unicode entries query).terms,
    term ∈ matchesOf unicode (readQuery unicode entries query) sourceContext entry

theorem relevant_of_ranked {query : List Char} {sourceContext : Bool}
    (ranked : entry ∈ rankCurrentEntries unicode log1p entries query sourceContext) :
    Relevant unicode entries query sourceContext entry := by
  obtain ⟨given, covered, -⟩ := (mem_rankCurrentEntries unicode log1p).mp ranked
  rw [scoreIn, scoreOf_coverage] at covered
  obtain ⟨term, matched, -⟩ := Finset.exists_ne_zero_of_sum_ne_zero covered
  exact ⟨given, term, matchesOf_subset unicode _ _ _ matched, matched⟩

/-- Of each fact that is ranked a search shows the entry that ranks first. A blank query ranks every entry, and any
other only entries with a term of it, or of one of the two topics it joins. -/
theorem search_shows_facts (entries : List KnowledgeEntry) (query : List Char) (sourceContext acrossProjects : Bool) :
    let ranked := rankedSearch unicode log1p entries query sourceContext
    let shown := searchCurrentKnowledge unicode log1p entries query sourceContext acrossProjects none
    let key := factKey unicode acrossProjects
    shown.Sublist ranked ∧ (shown.map key).Nodup ∧
      (∀ entry ∈ ranked, ∃ first ∈ shown, ranked.find? (fun other => key other = key entry) = some first) ∧
      (strip query = [] → ranked.Perm entries) ∧
      (strip query ≠ [] → ∀ entry ∈ ranked, Relevant unicode entries query sourceContext entry ∨
        ∃ parts, conjoinedParts query = some parts ∧
          (Relevant unicode entries parts.1 false entry ∨ Relevant unicode entries parts.2 false entry)) := by
  refine ⟨deduplicateFrom_sublist unicode, deduplicateFrom_nodup unicode, fun entry member => ?_, fun blank => ?_,
    fun filled entry member => ?_⟩
  · obtain ⟨first, shown, same⟩ := searched_of_ranked unicode log1p member
    exact ⟨first, shown, same ▸ (deduplicateFrom_first unicode shown).2⟩
  · rw [rankedSearch, if_pos blank]
    exact List.perm_insertionSort _ _
  · rw [rankedSearch, if_neg filled] at member
    dsimp only at member
    split at member
    · unfold rankConjoinedTopics at member
      split at member
      · exact absurd member List.not_mem_nil
      · next first second parts =>
        dsimp only at member
        split at member
        · exact absurd member List.not_mem_nil
        · exact .inr ⟨_, parts, (mem_interleaved member).imp (relevant_of_ranked unicode log1p) (relevant_of_ranked unicode log1p)⟩
    · exact .inl (relevant_of_ranked unicode log1p member)

end HarnessMem.Searching
