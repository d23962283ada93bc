import Mathlib.Data.List.Forall2

/-! Computations that may refuse: when a sequence of them succeeds. -/

set_option autoImplicit false

namespace HarnessMem.Library

variable {ε α β : Type}

variable {first : Except ε α}

theorem bind_eq_ok {next : α → Except ε β} {value : β} :
    (first >>= next) = .ok value ↔ ∃ result, first = .ok result ∧ next result = .ok value := by
  cases first with
  | error raised =>
    constructor
    · intro impossible
      cases impossible
    · intro ⟨_, impossible, _⟩
      cases impossible
  | ok result =>
    constructor
    · intro same
      exact ⟨result, rfl, same⟩
    · intro ⟨other, same, final⟩
      cases same
      exact final

theorem ok_bind (value : α) (next : α → Except ε β) : (Except.ok value >>= next) = next value := rfl

theorem map_eq_ok {change : α → β} {value : β} :
    first.map change = .ok value ↔ ∃ result, first = .ok result ∧ change result = value := by
  cases first with
  | error raised =>
    constructor
    · intro impossible
      cases impossible
    · intro ⟨_, impossible, _⟩
      cases impossible
  | ok result =>
    constructor
    · intro same
      exact ⟨result, rfl, Except.ok.inj same⟩
    · intro ⟨other, same, final⟩
      cases same
      exact congrArg Except.ok final

variable {items : List α} {read : α → Except ε β}

theorem mapM_ok {value : α → β} (reads : ∀ item ∈ items, read item = .ok (value item)) :
    items.mapM read = .ok (items.map value) := by
  induction items with
  | nil => rfl
  | cons item items ih =>
    rw [List.mapM_cons, reads item (List.mem_cons_self ..), ih fun other member => reads other (List.mem_cons_of_mem _ member)]
    rfl

variable {results : List β}

theorem forall₂_of_mapM (ran : items.mapM read = .ok results) :
    List.Forall₂ (fun item result => read item = .ok result) items results := by
  induction items generalizing results with
  | nil =>
    cases ran
    exact .nil
  | cons item items ih =>
    rw [List.mapM_cons] at ran
    obtain ⟨result, first, ran⟩ := bind_eq_ok.mp ran
    obtain ⟨rest, later, ran⟩ := bind_eq_ok.mp ran
    cases ran
    exact .cons first (ih later)

theorem of_mem_mapM (ran : items.mapM read = .ok results)
    {result : β} (member : result ∈ results) : ∃ item ∈ items, read item = .ok result := by
  obtain ⟨index, bound, rfl⟩ := List.getElem_of_mem member
  have rounds := forall₂_of_mapM ran
  have inside : index < items.length := rounds.length_eq ▸ bound
  exact ⟨items[index], List.getElem_mem inside, rounds.get inside bound⟩

theorem forall₂_of_mapM_some {read : α → Option β} (ran : items.mapM read = some results) :
    List.Forall₂ (fun item result => read item = some result) items results := by
  induction items generalizing results with
  | nil =>
    cases ran
    exact .nil
  | cons item items ih =>
    rw [List.mapM_cons] at ran
    obtain ⟨result, first, ran⟩ := Option.bind_eq_some_iff.mp ran
    obtain ⟨rest, later, ran⟩ := Option.bind_eq_some_iff.mp ran
    cases ran
    exact .cons first (ih later)

theorem eq_map_getD {read : α → Option β} (other : α → β)
    (rounds : List.Forall₂ (fun item result => read item = some result) items results) :
    results = items.map fun item => (read item).getD (other item) := by
  induction rounds with
  | nil => rfl
  | cons first _ ih => rw [List.map_cons, first, ← ih]; rfl

theorem exists_of_forall₂ {related : α → β → Prop}
    (rounds : List.Forall₂ related items results) : ∀ item ∈ items, ∃ result ∈ results, related item result := by
  induction rounds with
  | nil => exact nofun
  | cons first _ ih =>
    refine List.forall_mem_cons.mpr ⟨⟨_, List.mem_cons_self, first⟩, fun item member => ?_⟩
    obtain ⟨result, inside, related⟩ := ih item member
    exact ⟨result, List.mem_cons_of_mem _ inside, related⟩

theorem both_forall₂ {one other : α → β → Prop} (first : List.Forall₂ one items results)
    (second : List.Forall₂ other items results) : List.Forall₂ (fun item result => one item result ∧ other item result) items results := by
  induction first with
  | nil => exact .nil
  | cons here _ ih =>
    obtain ⟨also, rest⟩ := List.forall₂_cons.mp second
    exact .cons ⟨here, also⟩ (ih rest)

theorem exists_of_mapM_some {read : α → Option β} (ran : items.mapM read = some results)
    {item : α} (member : item ∈ items) : ∃ result, read item = some result := by
  obtain ⟨result, -, reads⟩ := exists_of_forall₂ (forall₂_of_mapM_some ran) item member
  exact ⟨result, reads⟩

theorem exists_mapM_ok (reads : ∀ item ∈ items, ∃ result, read item = .ok result) :
    ∃ results, items.mapM read = .ok results := by
  induction items with
  | nil => exact ⟨[], rfl⟩
  | cons item items ih =>
    obtain ⟨result, here⟩ := reads item List.mem_cons_self
    obtain ⟨results, later⟩ := ih fun other member => reads other (List.mem_cons_of_mem _ member)
    refine ⟨result :: results, ?_⟩
    rw [List.mapM_cons, here, later]
    rfl

theorem forM_eq_ok {check : α → Except ε Unit} : items.forM check = .ok () ↔ ∀ item ∈ items, check item = .ok () := by
  induction items with
  | nil => simp [pure, Except.pure]
  | cons item rest ih =>
    simp only [List.forall_mem_cons, ← ih]
    constructor
    · intro ran
      obtain ⟨done, first, others⟩ := bind_eq_ok.mp ran
      exact ⟨first, others⟩
    · rintro ⟨first, others⟩
      exact bind_eq_ok.mpr ⟨(), first, others⟩

theorem foldlM_ok {σ : Type} {step : σ → α → Except ε σ} (holds : List α → σ → Prop)
    (keeps : ∀ done item state next, holds done state → step state item = .ok next → holds (done ++ [item]) next) {start last : σ}
    (starts : holds [] start) (ran : items.foldlM step start = .ok last) : holds items last := by
  suffices whole : ∀ done state, holds done state → items.foldlM step state = .ok last → holds (done ++ items) last from
    whole [] start starts ran
  clear ran starts
  induction items with
  | nil =>
    intro done state held ran
    cases ran
    rwa [List.append_nil]
  | cons item rest ih =>
    intro done state held ran
    rw [List.foldlM_cons] at ran
    obtain ⟨next, here, later⟩ := bind_eq_ok.mp ran
    have longer := ih (done ++ [item]) next (keeps done item state next held here) later
    rwa [List.append_assoc, List.singleton_append] at longer

/-! ### Failures -/

variable {reason : ε}

theorem bind_eq_error {next : α → Except ε β} :
    (first >>= next) = .error reason ↔ first = .error reason ∨ ∃ result, first = .ok result ∧ next result = .error reason := by
  cases first with
  | error other => simp [bind, Except.bind]
  | ok result => simp [bind, Except.bind]

theorem mapM_eq_error (failed : items.mapM read = .error reason) :
    ∃ item ∈ items, read item = .error reason := by
  induction items with
  | nil => cases failed
  | cons item rest ih =>
    rw [List.mapM_cons] at failed
    rcases bind_eq_error.mp failed with first | ⟨result, -, later⟩
    · exact ⟨item, List.mem_cons_self, first⟩
    · rcases bind_eq_error.mp later with others | ⟨results, -, done⟩
      · obtain ⟨other, member, found⟩ := ih others
        exact ⟨other, List.mem_cons_of_mem _ member, found⟩
      · cases done

theorem forM_eq_error {check : α → Except ε Unit} (failed : items.forM check = .error reason) :
    ∃ item ∈ items, check item = .error reason := by
  induction items with
  | nil => cases failed
  | cons item rest ih =>
    rcases bind_eq_error.mp failed with first | ⟨done, -, later⟩
    · exact ⟨item, List.mem_cons_self, first⟩
    · obtain ⟨other, member, found⟩ := ih later
      exact ⟨other, List.mem_cons_of_mem _ member, found⟩

theorem toOption_eq_some {result : Except ε α} {value : α} : result.toOption = some value ↔ result = .ok value := by
  cases result with
  | error reason => simp [Except.toOption]
  | ok found => simp [Except.toOption]

end HarnessMem.Library
