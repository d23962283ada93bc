import Mathlib.Data.List.Dedup
import Mathlib.Data.List.Sort

/-! Finite maps kept in the order of their keys, as a writer that sorts keys spells
them. Two of them with the same lookups are the same.
-/

set_option autoImplicit false

namespace HarnessMem.Library

variable {κ α : Type} [LinearOrder κ]

structure KeyMap (κ α : Type) [LinearOrder κ] where
  entries : List (κ × α)
  sorted : entries.Pairwise fun first second => first.1 < second.1
  deriving DecidableEq

namespace KeyMap

def empty : KeyMap κ α := ⟨[], .nil⟩

def get? (map : KeyMap κ α) (key : κ) : Option α :=
  (map.entries.find? fun entry => entry.1 = key).map (·.2)

def keys (map : KeyMap κ α) : List κ := map.entries.map (·.1)

def place (key : κ) (value : α) : List (κ × α) → List (κ × α)
  | [] => [(key, value)]
  | entry :: rest =>
    if entry.1 < key then entry :: place key value rest
    else if entry.1 = key then (key, value) :: rest
    else (key, value) :: entry :: rest

variable {key : κ} {value : α} {entries : List (κ × α)}

theorem mem_place {entry : κ × α}
    (member : entry ∈ place key value entries) : entry = (key, value) ∨ entry ∈ entries := by
  induction entries with
  | nil => exact .inl (List.mem_singleton.mp member)
  | cons head rest ih =>
    unfold place at member
    split at member
    · cases member with
      | head => exact .inr (List.mem_cons_self ..)
      | tail _ later => exact (ih later).imp_right (List.mem_cons_of_mem _)
    · split at member
      · cases member with
        | head => exact .inl rfl
        | tail _ later => exact .inr (List.mem_cons_of_mem _ later)
      · cases member with
        | head => exact .inl rfl
        | tail _ later => exact .inr later

theorem place_sorted (sorted : entries.Pairwise fun first second => first.1 < second.1) :
    (place key value entries).Pairwise fun first second => first.1 < second.1 := by
  induction entries with
  | nil => exact List.pairwise_singleton _ _
  | cons head rest ih =>
    have ⟨below, later⟩ := List.pairwise_cons.mp sorted
    unfold place
    split
    · next before =>
      apply List.pairwise_cons.mpr
      constructor
      · intro entry member
        cases mem_place member with
        | inl new => rw [new]; exact before
        | inr old => exact below entry old
      · exact ih later
    · next ahead =>
      split
      · next same =>
        apply List.pairwise_cons.mpr
        exact ⟨fun entry member => same ▸ below entry member, later⟩
      · next other =>
        have before : key < head.1 := lt_of_le_of_ne (not_lt.mp ahead) (Ne.symm other)
        apply List.pairwise_cons.mpr
        constructor
        · intro entry member
          cases member with
          | head => exact before
          | tail _ old => exact before.trans (below entry old)
        · exact sorted

/-- `dict[key] = value`. -/
def set (map : KeyMap κ α) (key : κ) (value : α) : KeyMap κ α :=
  ⟨place key value map.entries, place_sorted map.sorted⟩

theorem get?_empty (key : κ) : (empty : KeyMap κ α).get? key = none := rfl

theorem nodup_keys (map : KeyMap κ α) : map.keys.Nodup :=
  (List.pairwise_map.mpr (map.sorted.imp fun before => before.ne))

variable {map : KeyMap κ α}

theorem get?_eq_some : map.get? key = some value ↔ (key, value) ∈ map.entries := by
  unfold get?
  constructor
  · intro found
    obtain ⟨entry, here, rfl⟩ := Option.map_eq_some_iff.mp found
    have same : entry.1 = key := by simpa using List.find?_some here
    exact same ▸ List.mem_of_find?_eq_some here
  · intro member
    have present : (map.entries.find? fun entry => entry.1 = key).isSome :=
      List.find?_isSome.mpr ⟨(key, value), member, by simp⟩
    obtain ⟨entry, here⟩ := Option.isSome_iff_exists.mp present
    have same : entry.1 = key := by simpa using List.find?_some here
    -- one entry for each key
    have alike := List.inj_on_of_nodup_map map.nodup_keys (List.mem_of_find?_eq_some here) member same
    rw [here, alike]
    rfl

theorem mem_place_self (key : κ) (value : α) (entries : List (κ × α)) : (key, value) ∈ place key value entries := by
  induction entries with
  | nil => exact List.mem_singleton_self _
  | cons head rest ih =>
    unfold place
    split
    · exact List.mem_cons_of_mem _ ih
    · split <;> exact List.mem_cons_self ..

theorem mem_place_of_ne {entry : κ × α} (other : entry.1 ≠ key)
    (member : entry ∈ entries) : entry ∈ place key value entries := by
  induction entries with
  | nil => cases member
  | cons head rest ih =>
    unfold place
    split
    · cases member with
      | head => exact List.mem_cons_self ..
      | tail _ later => exact List.mem_cons_of_mem _ (ih later)
    · split
      · next same =>
        cases member with
        | head => exact absurd same other
        | tail _ later => exact List.mem_cons_of_mem _ later
      · exact List.mem_cons_of_mem _ member

theorem get?_set_self (map : KeyMap κ α) (key : κ) (value : α) : (map.set key value).get? key = some value :=
  get?_eq_some.mpr (mem_place_self key value map.entries)

theorem get?_set_of_ne (map : KeyMap κ α) {other : κ} (value : α) (differs : other ≠ key) :
    (map.set key value).get? other = map.get? other := by
  apply Option.ext
  intro found
  rw [get?_eq_some, get?_eq_some]
  constructor
  · intro member
    cases mem_place member with
    | inl new => exact absurd (congrArg Prod.fst new) differs
    | inr old => exact old
  · exact mem_place_of_ne differs

theorem get?_set (map : KeyMap κ α) (key other : κ) (value : α) :
    (map.set key value).get? other = if other = key then some value else map.get? other := by
  split
  · next same => rw [same, get?_set_self]
  · next differs => exact get?_set_of_ne map value differs

def ofEntries (entries : List (κ × α)) : KeyMap κ α :=
  entries.foldl (fun map entry => map.set entry.1 entry.2) empty

theorem get?_assign_of_notMem (other : key ∉ entries.map (·.1)) :
    (entries.foldl (fun map entry => map.set entry.1 entry.2) map).get? key = map.get? key := by
  induction entries generalizing map with
  | nil => rfl
  | cons entry rest ih =>
    rw [List.map_cons, List.mem_cons, not_or] at other
    rw [List.foldl_cons, ih other.2, get?_set_of_ne map entry.2 other.1]

theorem get?_assign_of_mem {entries : List (κ × α)} {map : KeyMap κ α} {key : κ} (member : key ∈ entries.map (·.1)) :
    ∃ value, (key, value) ∈ entries ∧ (entries.foldl (fun map entry => map.set entry.1 entry.2) map).get? key = some value := by
  induction entries generalizing map with
  | nil => cases member
  | cons entry rest ih =>
    rw [List.foldl_cons]
    by_cases later : key ∈ rest.map (·.1)
    · have ⟨value, there, found⟩ := @ih (map.set entry.1 entry.2) later
      exact ⟨value, List.mem_cons_of_mem _ there, found⟩
    · have here : key = entry.1 := (List.mem_cons.mp member).resolve_right later
      refine ⟨entry.2, here ▸ List.mem_cons_self .., ?_⟩
      rw [get?_assign_of_notMem later, here, get?_set_self]

/-! ### Maps made from others -/

theorem ext_get? {first second : KeyMap κ α} (alike : ∀ key, first.get? key = second.get? key) : first = second := by
  have within : ∀ {left right : KeyMap κ α}, (∀ key, left.get? key = right.get? key) →
      left.entries ⊆ right.entries := by
    intro left right same entry member
    apply get?_eq_some.mp
    rw [← same]
    exact get?_eq_some.mpr member
  have perm : first.entries.Perm second.entries :=
    (List.perm_ext_iff_of_nodup (first.nodup_keys.of_map _) (second.nodup_keys.of_map _)).mpr fun _ =>
      ⟨fun member => within alike member, fun member => within (fun key => (alike key).symm) member⟩
  have equal : first.entries = second.entries := perm.eq_of_pairwise
    (fun _ _ _ _ below above => absurd below above.asymm) first.sorted second.sorted
  cases first
  cases second
  cases equal
  rfl

def restrict (keep : κ → Bool) (map : KeyMap κ α) : KeyMap κ α :=
  ⟨map.entries.filter fun entry => keep entry.1, map.sorted.filter _⟩

theorem get?_restrict (keep : κ → Bool) (map : KeyMap κ α) (key : κ) :
    (map.restrict keep).get? key = if keep key then map.get? key else none := by
  apply Option.ext
  intro value
  rw [get?_eq_some, restrict, List.mem_filter]
  split
  · next kept => simp [kept, get?_eq_some]
  · next dropped => simp [dropped]

def mapValues {β : Type} (change : α → β) (map : KeyMap κ α) : KeyMap κ β :=
  ⟨map.entries.map fun entry => (entry.1, change entry.2), List.pairwise_map.mpr map.sorted⟩

theorem get?_mapValues {β : Type} (change : α → β) (map : KeyMap κ α) (key : κ) :
    (map.mapValues change).get? key = (map.get? key).map change := by
  apply Option.ext
  intro value
  rw [get?_eq_some, mapValues, List.mem_map, Option.map_eq_some_iff]
  constructor
  · rintro ⟨⟨_, old⟩, member, same⟩
    cases same
    exact ⟨old, get?_eq_some.mpr member, rfl⟩
  · rintro ⟨old, found, rfl⟩
    exact ⟨(key, old), get?_eq_some.mp found, rfl⟩

def adopt (map : KeyMap κ α) (entries : List (κ × α)) : KeyMap κ α :=
  entries.foldl (fun map entry => if (map.get? entry.1).isSome then map else map.set entry.1 entry.2) map

theorem get?_adopt_of_isSome (present : (map.get? key).isSome) :
    (map.adopt entries).get? key = map.get? key := by
  induction entries generalizing map with
  | nil => rfl
  | cons entry rest ih =>
    have kept : (if (map.get? entry.1).isSome then map else map.set entry.1 entry.2).get? key = map.get? key := by
      split
      · rfl
      · next free =>
        apply get?_set_of_ne
        intro same
        exact free (same ▸ present)
    unfold adopt at ih ⊢
    rw [List.foldl_cons, ih (by rwa [kept]), kept]

theorem get?_adopt_of_notMem (other : key ∉ entries.map (·.1)) :
    (map.adopt entries).get? key = map.get? key := by
  induction entries generalizing map with
  | nil => rfl
  | cons entry rest ih =>
    rw [List.map_cons, List.mem_cons, not_or] at other
    unfold adopt at ih ⊢
    rw [List.foldl_cons, ih other.2]
    split
    · rfl
    · exact get?_set_of_ne map entry.2 other.1

theorem get?_adopt (map other : KeyMap κ α) (key : κ) :
    (map.adopt other.entries).get? key = (map.get? key).or (other.get? key) := by
  cases own : map.get? key with
  | some value => rw [get?_adopt_of_isSome (by rw [own]; rfl), own, Option.some_or]
  | none =>
    rw [Option.none_or]
    have free : ∀ (entries : List (κ × α)) (start : KeyMap κ α), (entries.map (·.1)).Nodup → start.get? key = none →
        ∀ value, (start.adopt entries).get? key = some value ↔ (key, value) ∈ entries := by
      intro entries
      induction entries with
      | nil =>
        intro start _ missing value
        constructor
        · intro found
          rw [adopt, List.foldl_nil, missing] at found
          cases found
        · intro member
          cases member
      | cons entry rest ih =>
        intro start distinct missing value
        rw [List.map_cons, List.nodup_cons] at distinct
        by_cases here : key = entry.1
        · have taken : ((start.set entry.1 entry.2).get? key) = some entry.2 := by rw [here, get?_set_self]
          have step : start.adopt (entry :: rest) = (start.set entry.1 entry.2).adopt rest := by
            unfold adopt
            rw [List.foldl_cons, if_neg (by rw [← here, missing]; exact Bool.false_ne_true)]
          rw [step, get?_adopt_of_isSome (by rw [taken]; rfl), taken]
          constructor
          · intro same
            cases same
            rw [here]
            exact List.mem_cons_self ..
          · intro member
            cases member with
            | head => rfl
            | tail _ later => exact absurd (List.mem_map_of_mem later) (here ▸ distinct.1)
        · have still : (if (start.get? entry.1).isSome then start else start.set entry.1 entry.2).get? key = none := by
            split
            · exact missing
            · rw [get?_set_of_ne start entry.2 here, missing]
          unfold adopt at ih ⊢
          rw [List.foldl_cons, ih _ distinct.2 still value]
          constructor
          · exact List.mem_cons_of_mem _
          · intro member
            cases member with
            | head => exact absurd rfl here
            | tail _ later => exact later
    apply Option.ext
    intro value
    rw [free other.entries map other.nodup_keys own value, get?_eq_some]

end KeyMap

/-! ### Sorted sets -/

/-- `sorted(set(values))`. -/
def sortedSet (values : List κ) : List κ := values.dedup.insertionSort (· ≤ ·)

theorem mem_sortedSet {values : List κ} {value : κ} : value ∈ sortedSet values ↔ value ∈ values := by
  unfold sortedSet
  rw [List.mem_insertionSort, List.mem_dedup]

end HarnessMem.Library
