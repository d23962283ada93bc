import Mathlib.Data.Set.Card

/-! Growing paths breadth first, up to a length and a number. Each path is taken from a queue once and
grown by every item that may follow it; the search ends with its queue or with the last path it may find.
-/

set_option autoImplicit false

namespace HarnessMem.Library

variable {α : Type}

section

variable (depth limit : Nat)

def grow (path : List α) : List α → List (List α) × List (List α) → List (List α) × List (List α)
  | [], state => state
  | item :: items, (found, queue) =>
    let next := path ++ [item]
    if limit ≤ (found ++ [next]).length then (found ++ [next], queue)
    else grow path items (found ++ [next], if next.length < depth then queue ++ [next] else queue)

theorem grow_of_lt {path items : List α} {found queue : List (List α)} (room : found.length + items.length < limit) :
    grow depth limit path items (found, queue) = (found ++ items.map fun item => path ++ [item],
      queue ++ if path.length + 1 < depth then items.map fun item => path ++ [item] else []) := by
  induction items generalizing found queue with
  | nil => simp [grow]
  | cons item items ih =>
    rw [List.length_cons] at room
    have more : ¬ limit ≤ (found ++ [path ++ [item]]).length := by
      rw [List.length_append, List.length_singleton]
      omega
    rw [grow, if_neg more, ih (by rw [List.length_append, List.length_singleton]; omega)]
    simp only [List.length_append, List.length_singleton, List.map_cons, List.append_assoc, List.singleton_append]
    split <;> simp

theorem grow_of_ge {path items : List α} {found queue : List (List α)} (below : found.length < limit)
    (full : limit ≤ found.length + items.length) :
    (grow depth limit path items (found, queue)).1 =
      found ++ (items.take (limit - found.length)).map fun item => path ++ [item] := by
  induction items generalizing found queue with
  | nil => exact absurd full (Nat.not_le.mpr below)
  | cons item items ih =>
    rw [List.length_cons] at full
    obtain ⟨count, left⟩ : ∃ count, limit - found.length = count + 1 := ⟨limit - found.length - 1, by omega⟩
    rw [grow, left, List.take_succ_cons, List.map_cons]
    by_cases last : limit ≤ (found ++ [path ++ [item]]).length
    · rw [if_pos last]
      rw [List.length_append, List.length_singleton] at last
      obtain rfl : count = 0 := by omega
      simp
    · have one : (found ++ [path ++ [item]]).length = found.length + 1 := by rw [List.length_append, List.length_singleton]
      rw [if_neg last]
      rw [one] at last
      have rest := @ih (found ++ [path ++ [item]]) (if (path ++ [item]).length < depth then queue ++ [path ++ [item]] else queue)
        (by omega) (by omega)
      rw [rest, one, show limit - (found.length + 1) = count by omega]
      simp

theorem length_le_grow (path items : List α) (state : List (List α) × List (List α)) :
    state.1.length ≤ (grow depth limit path items state).1.length := by
  induction items generalizing state with
  | nil => exact Nat.le_refl _
  | cons item items ih =>
    have one : state.1.length ≤ (state.1 ++ [path ++ [item]]).length := by simp
    have later := fun queue => ih (state.1 ++ [path ++ [item]], queue)
    rw [grow]
    split
    · exact one
    · exact one.trans (later _)

theorem length_lt_grow {path items : List α} (some_ : items ≠ []) (state : List (List α) × List (List α)) :
    state.1.length < (grow depth limit path items state).1.length := by
  obtain ⟨item, rest, rfl⟩ := List.exists_cons_of_ne_nil some_
  have one : state.1.length < (state.1 ++ [path ++ [item]]).length := by simp
  have later := fun queue => length_le_grow depth limit path rest (state.1 ++ [path ++ [item]], queue)
  rw [grow]
  split
  · exact one
  · exact one.trans_le (later _)

def explore (children : List α → List α) (found : List (List α)) : List (List α) → List (List α)
  | [] => found
  | path :: queue =>
    if found.length < limit then
      let state := grow depth limit path (children path) (found, queue)
      explore children state.1 state.2
    else found
termination_by queue => (limit - found.length, queue.length)
decreasing_by
  simp only [Prod.lex_def]
  by_cases none_ : children path = []
  · right
    rw [none_]
    exact ⟨rfl, Nat.lt_succ_self _⟩
  · left
    have more := @length_lt_grow _ depth limit path _ none_ (found, queue)
    exact Nat.sub_lt_sub_left ‹_› more

end

/-! ### What is found -/

/-- The paths that grow from the empty one. -/
inductive Grown (children : List α → List α) : List α → Prop where
  | nil : Grown children []
  | snoc {path : List α} {item : α} : Grown children path → item ∈ children path → Grown children (path ++ [item])

variable {children : List α → List α} {depth limit : Nat}

variable {path : List α}

theorem forall_split_snoc {holds : List α → α → Prop} {item : α} :
    (∀ front other back, path ++ [item] = front ++ other :: back → holds front other) ↔
      (∀ front other back, path = front ++ other :: back → holds front other) ∧ holds path item := by
  constructor
  · intro all
    exact ⟨fun front other back shape => all front other (back ++ [item]) (by rw [shape]; simp), all path item [] rfl⟩
  · rintro ⟨inside, last⟩ front other back shape
    rcases List.eq_nil_or_concat back with rfl | ⟨rest, final, rfl⟩
    · obtain ⟨rfl, same⟩ := List.append_inj' shape rfl
      rw [← List.singleton_inj.mp same]
      exact last
    · rw [List.concat_eq_append, ← List.cons_append, ← List.append_assoc] at shape
      exact inside front other rest (List.append_inj' shape rfl).1

theorem grown_iff : Grown children path ↔ ∀ front item back, path = front ++ item :: back → item ∈ children front := by
  constructor
  · intro grown
    induction grown with
    | nil => intro front item back shape; simp at shape
    | snoc _ member ih => exact forall_split_snoc.mpr ⟨ih, member⟩
  · intro all
    induction path using List.reverseRecOn with
    | nil => exact .nil
    | append_singleton path item ih =>
      obtain ⟨inside, last⟩ := forall_split_snoc.mp all
      exact .snoc (ih inside) last

/-- A path to be found: one that grows from the empty one, of at least one item and not too long. -/
structure Wanted (children : List α → List α) (depth : Nat) (path : List α) : Prop where
  grown : Grown children path
  filled : path ≠ []
  short : path.length ≤ depth

/-- What the search keeps between two paths it grows. -/
structure Exploring (children : List α → List α) (depth : Nat) (found queue : List (List α)) : Prop where
  wanted : ∀ path ∈ found, Wanted children depth path
  distinct : found.Nodup
  queued : queue.Nodup
  waiting : ∀ path ∈ queue, path.length < depth ∧ (path = [] ∨ path ∈ found)
  parents : ∀ path ∈ found, path.dropLast ∉ queue ∧ (path.dropLast = [] ∨ path.dropLast ∈ found)
  closed : ∀ path, path = [] ∨ path ∈ found → path.length < depth → path ∉ queue → ∀ item ∈ children path, path ++ [item] ∈ found

/-- What a search returns: wanted paths, each once, and all of them where it did not have to stop. -/
structure Explored (children : List α → List α) (depth limit : Nat) (result : List (List α)) : Prop where
  wanted : ∀ path ∈ result, Wanted children depth path
  distinct : result.Nodup
  short : result.length ≤ limit
  whole : result.length = limit ∨ ∀ path, Wanted children depth path → path ∈ result

variable {found queue : List (List α)}

theorem Exploring.grown (exploring : Exploring children depth found queue)
    (known : path = [] ∨ path ∈ found) : Grown children path := by
  rcases known with rfl | inside
  · exact .nil
  · exact (exploring.wanted path inside).grown

theorem Exploring.fresh (exploring : Exploring children depth found (path :: queue))
    (item : α) : path ++ [item] ∉ found := fun inside =>
  (exploring.parents _ inside).1 (by rw [List.dropLast_concat]; exact List.mem_cons_self)

theorem Exploring.added (exploring : Exploring children depth found (path :: queue))
    (distinct : (children path).Nodup) {items : List α} (some_ : items.Sublist (children path)) :
    (∀ next ∈ found ++ items.map (fun item => path ++ [item]), Wanted children depth next) ∧
      (found ++ items.map fun item => path ++ [item]).Nodup := by
  obtain ⟨short, known⟩ := exploring.waiting path List.mem_cons_self
  constructor
  · intro next inside
    rcases List.mem_append.mp inside with old | new
    · exact exploring.wanted next old
    · obtain ⟨item, member, rfl⟩ := List.mem_map.mp new
      refine ⟨.snoc (exploring.grown known) (some_.subset member), by simp, ?_⟩
      rw [List.length_append, List.length_singleton]
      exact short
  · refine List.nodup_append.mpr ⟨exploring.distinct, ?_, ?_⟩
    · exact (some_.nodup distinct).map fun first second same => by simpa using same
    · rintro old inside new made rfl
      obtain ⟨item, _, rfl⟩ := List.mem_map.mp made
      exact exploring.fresh item inside

/-- A path is grown by all of its children. -/
theorem Exploring.step (exploring : Exploring children depth found (path :: queue))
    (distinct : (children path).Nodup) :
    Exploring children depth (found ++ (children path).map fun item => path ++ [item])
      (queue ++ if path.length + 1 < depth then (children path).map fun item => path ++ [item] else []) := by
  obtain ⟨ready, known⟩ := exploring.waiting path List.mem_cons_self
  obtain ⟨taken, queued⟩ := List.nodup_cons.mp exploring.queued
  obtain ⟨wanted, whole⟩ := exploring.added distinct (List.Sublist.refl _)
  have old : ∀ next, next = [] ∨ next ∈ found → next = [] ∨ next ∈ found ++ (children path).map fun item => path ++ [item] :=
    fun next which => which.imp id (List.mem_append_left _)
  have new : ∀ next ∈ (if path.length + 1 < depth then (children path).map fun item => path ++ [item] else []),
      path.length + 1 < depth ∧ ∃ item ∈ children path, next = path ++ [item] := by
    intro next inside
    split at inside
    · next room =>
      obtain ⟨item, member, rfl⟩ := List.mem_map.mp inside
      exact ⟨room, item, member, rfl⟩
    · cases inside
  -- what was found before the children is none of them
  have apart : ∀ next, next = [] ∨ next ∈ found →
      next ∉ (if path.length + 1 < depth then (children path).map fun item => path ++ [item] else []) := by
    intro next which inside
    obtain ⟨_, item, _, rfl⟩ := new next inside
    rcases which with nothing | inside
    · simp at nothing
    · exact exploring.fresh item inside
  refine ⟨wanted, whole, List.nodup_append.mpr ⟨queued, ?_, ?_⟩, ?_, ?_, ?_⟩
  · split
    · exact distinct.map fun first second same => by simpa using same
    · exact List.nodup_nil
  · rintro next waiting other added rfl
    exact apart next (exploring.waiting next (List.mem_cons_of_mem _ waiting)).2 added
  · intro next inside
    rcases List.mem_append.mp inside with waiting | added
    · obtain ⟨short, which⟩ := exploring.waiting next (List.mem_cons_of_mem _ waiting)
      exact ⟨short, old next which⟩
    · obtain ⟨room, item, member, rfl⟩ := new next added
      refine ⟨by rwa [List.length_append, List.length_singleton], .inr (List.mem_append_right _ ?_)⟩
      exact List.mem_map.mpr ⟨item, member, rfl⟩
  · intro next inside
    rcases List.mem_append.mp inside with before | added
    · obtain ⟨outside, which⟩ := exploring.parents next before
      refine ⟨?_, old _ which⟩
      intro waiting
      rcases List.mem_append.mp waiting with later | made
      · exact outside (List.mem_cons_of_mem _ later)
      · exact apart _ which made
    · obtain ⟨item, member, rfl⟩ := List.mem_map.mp added
      rw [List.dropLast_concat]
      refine ⟨?_, old _ known⟩
      intro waiting
      rcases List.mem_append.mp waiting with later | made
      · exact taken later
      · exact apart _ known made
  · intro next which short outside item member
    rw [List.mem_append, not_or] at outside
    by_cases here : next = path
    · subst here
      exact List.mem_append_right _ (List.mem_map.mpr ⟨item, member, rfl⟩)
    · have before : next = [] ∨ next ∈ found := by
        rcases which with nothing | inside
        · exact .inl nothing
        · rcases List.mem_append.mp inside with old | added
          · exact .inr old
          · -- a child that may still grow was put into the queue
            obtain ⟨last, _, rfl⟩ := List.mem_map.mp added
            rw [List.length_append, List.length_singleton] at short
            rw [if_pos short] at outside
            exact absurd added outside.2
      have gone : next ∉ path :: queue := by
        rw [List.mem_cons, not_or]
        exact ⟨here, outside.1⟩
      exact List.mem_append_left _ (exploring.closed next before short gone item member)

theorem Exploring.whole {found : List (List α)} (exploring : Exploring children depth found []) {path : List α}
    (wanted : Wanted children depth path) : path ∈ found := by
  have reached : ∀ path, Grown children path → path.length ≤ depth → path = [] ∨ path ∈ found := by
    intro path grown
    induction grown with
    | nil => exact fun _ => .inl rfl
    | @snoc path item _ member ih =>
      intro short
      rw [List.length_append, List.length_singleton] at short
      exact .inr (exploring.closed path (ih (by omega)) short List.not_mem_nil item member)
  exact (reached path wanted.grown wanted.short).resolve_left wanted.filled

theorem explored_explore (distinct : ∀ path, (children path).Nodup)
    (exploring : Exploring children depth found queue) (room : found.length ≤ limit) :
    Explored children depth limit (explore depth limit children found queue) := by
  induction found, queue using explore.induct depth limit children with
  | case1 found =>
    rw [explore]
    exact ⟨exploring.wanted, exploring.distinct, room, .inr fun path wanted => exploring.whole wanted⟩
  | case2 found path queue below state ih =>
    rw [explore, if_pos below]
    by_cases full : limit ≤ found.length + (children path).length
    · -- the last path that may be found is among the children
      have shape := @grow_of_ge _ depth limit path _ _ queue below full
      have added := exploring.added (distinct path) (List.take_sublist (limit - found.length) (children path))
      have length : state.1.length = limit := by
        rw [shape, List.length_append, List.length_map, List.length_take]
        omega
      have stops : explore depth limit children state.1 state.2 = state.1 := by
        cases state.2 with
        | nil => rw [explore]
        | cons next rest => rw [explore, if_neg (by rw [length]; exact Nat.lt_irrefl _)]
      rw [stops]
      refine ⟨?_, ?_, Nat.le_of_eq length, .inl length⟩
      · rw [shape]
        exact added.1
      · rw [shape]
        exact added.2
    · have shape : state = _ := @grow_of_lt _ depth limit path _ _ queue (Nat.not_le.mp full)
      have next := exploring.step (distinct path)
      apply ih
      · rw [shape]
        exact next
      · rw [shape]
        dsimp only
        rw [List.length_append, List.length_map]
        omega
  | case3 found path queue full =>
    rw [explore, if_neg full]
    exact ⟨exploring.wanted, exploring.distinct, room, .inl (by omega)⟩

theorem explored (distinct : ∀ path, (children path).Nodup) (deep : 0 < depth) :
    Explored children depth limit (explore depth limit children [] [[]]) := by
  apply explored_explore distinct _ (Nat.zero_le _)
  refine ⟨fun _ inside => absurd inside List.not_mem_nil, List.nodup_nil, List.nodup_singleton _, ?_,
    fun _ inside => absurd inside List.not_mem_nil, ?_⟩
  · intro path waiting
    obtain rfl := List.mem_singleton.mp waiting
    exact ⟨deep, .inl rfl⟩
  · intro path which _ outside
    obtain rfl := which.resolve_right List.not_mem_nil
    exact absurd (List.mem_singleton_self _) outside

theorem Explored.complete {result : List (List α)} (explored : Explored children depth limit result)
    (few : {path | Wanted children depth path}.encard ≤ limit) (wanted : Wanted children depth path) :
    path ∈ result := by
  classical
  rcases explored.whole with full | whole
  · have finite : {path | Wanted children depth path}.Finite := Set.finite_of_encard_le_coe few
    have inside : (result.toFinset : Set (List α)) ⊆ {path | Wanted children depth path} := fun path member =>
      explored.wanted path (List.mem_toFinset.mp member)
    have size : (result.toFinset : Set (List α)).encard = limit := by
      rw [Set.encard_coe_eq_coe_finsetCard, List.toFinset_card_of_nodup explored.distinct, full]
    have same := result.toFinset.finite_toSet.eq_of_subset_of_encard_le inside (size ▸ few)
    exact List.mem_toFinset.mp (same.symm ▸ wanted : path ∈ (result.toFinset : Set (List α)))
  · exact whole path wanted

end HarnessMem.Library
