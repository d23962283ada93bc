import Mathlib.Algebra.Order.Ring.Nat
import Mathlib.Data.List.TakeWhile
import Mathlib.Order.Basic
import Mathlib.Order.Defs.LinearOrder

/-! Turns taken one after another, some of them favoured. A log alternates when
favoured turns do not go on beyond a limit while another claimant waits.
-/

set_option autoImplicit false

namespace HarnessMem.Library

variable {α : Type} {favoured contended : α → Bool} {limit : Nat} {log : List α} {turn : α}

def trailing (favoured : α → Bool) (log : List α) : Nat := (log.reverse.takeWhile favoured).length

/-- After `limit` favoured turns in a row, a further favoured one finds nobody else waiting. -/
def Alternates (limit : Nat) (favoured contended : α → Bool) (log : List α) : Prop :=
  ∀ front run last back, log = front ++ run ++ last :: back → run.length = limit →
    (∀ turn ∈ run, favoured turn) → favoured last → contended last = false

theorem trailing_nil : trailing favoured [] = 0 := rfl

theorem trailing_favoured (here : favoured turn) : trailing favoured (log ++ [turn]) = trailing favoured log + 1 := by
  simp [trailing, here]

theorem trailing_other (here : favoured turn = false) : trailing favoured (log ++ [turn]) = 0 := by
  simp [trailing, here]

theorem le_trailing_iff :
    limit ≤ trailing favoured log ↔
      ∃ front run, log = front ++ run ∧ run.length = limit ∧ ∀ turn ∈ run, favoured turn := by
  constructor
  · intro long
    refine ⟨(log.reverse.drop limit).reverse, (log.reverse.take limit).reverse, ?_, ?_, ?_⟩
    · rw [← List.reverse_append, List.take_append_drop, List.reverse_reverse]
    · have bound : (log.reverse.takeWhile favoured).length ≤ log.reverse.length :=
        (List.takeWhile_prefix favoured).length_le
      unfold trailing at long
      rw [List.length_reverse, List.length_take]
      omega
    · intro turn member
      have early : log.reverse.take limit = (log.reverse.takeWhile favoured).take limit := by
        exact (congrArg (List.take limit) List.takeWhile_append_dropWhile.symm).trans
          (List.take_append_of_le_length long)
      rw [early, List.mem_reverse] at member
      exact List.mem_takeWhile_imp (List.mem_of_mem_take member)
  · rintro ⟨front, run, rfl, rfl, all⟩
    unfold trailing
    rw [List.reverse_append, List.takeWhile_append_of_pos (fun turn member => all turn (List.mem_reverse.mp member)),
      List.length_append, List.length_reverse]
    omega

theorem Alternates.nil : Alternates limit favoured contended [] := by
  intro front run last back split
  simp at split

theorem alternates_snoc :
    Alternates limit favoured contended (log ++ [turn]) ↔
      Alternates limit favoured contended log ∧
        (favoured turn → limit ≤ trailing favoured log → contended turn = false) := by
  constructor
  · intro alternates
    constructor
    · rintro front run last back rfl
      exact alternates front run last (back ++ [turn]) (by simp)
    · intro here long
      obtain ⟨front, run, rfl, length, all⟩ := le_trailing_iff.mp long
      exact alternates front run turn [] rfl length all here
  · rintro ⟨alternates, next⟩ front run last back split length all here
    rcases List.eq_nil_or_concat back with rfl | ⟨earlier, final, rfl⟩
    · obtain ⟨rfl, same⟩ := List.append_inj' split rfl
      cases same
      exact next here (le_trailing_iff.mpr ⟨front, run, rfl, length, all⟩)
    · have shorter : log = front ++ run ++ last :: earlier := by
        have split' : log ++ [turn] = (front ++ run ++ last :: earlier) ++ [final] := by simpa using split
        exact (List.append_inj' split' rfl).1
      exact alternates front run last earlier shorter length all here

theorem Alternates.of_append {more : List α} (alternates : Alternates limit favoured contended (log ++ more)) :
    Alternates limit favoured contended log := by
  rintro front run last back rfl
  exact alternates front run last (back ++ more) (by simp)

end HarnessMem.Library

/-! A cursor that goes round a changing set of keys in their order. Each visit is
to the next key that is eligible at the time; a visit wraps when it starts over
from the least one. Between two wraps no key that stays eligible is passed over.
-/

namespace HarnessMem.Library

variable {κ : Type} [LinearOrder κ]

/-- A key visited, the keys that were eligible, and whether the visit starts over. -/
structure Visit (κ : Type) where
  key : κ
  eligible : κ → Prop
  wraps : Bool

/-- The visit is to the eligible key next to the cursor, or to the least one where none is left beyond it. -/
structure Visit.Follows (visit : Visit κ) (cursor : Option κ) : Prop where
  onward : visit.wraps = false →
    (∀ c ∈ cursor, c < visit.key) ∧ ∀ k, visit.eligible k → (∀ c ∈ cursor, c < k) → visit.key ≤ k
  restart : visit.wraps = true →
    (∃ c, cursor = some c ∧ ∀ k, visit.eligible k → k ≤ c) ∧ ∀ k, visit.eligible k → visit.key ≤ k

def Walk : Option κ → List (Visit κ) → Prop
  | _, [] => True
  | cursor, visit :: rest => visit.Follows cursor ∧ Walk (some visit.key) rest

def cursorAfter (cursor : Option κ) (visits : List (Visit κ)) : Option κ :=
  visits.foldl (fun _ visit => some visit.key) cursor

theorem walk_append {cursor : Option κ} {first second : List (Visit κ)} :
    Walk cursor (first ++ second) ↔ Walk cursor first ∧ Walk (cursorAfter cursor first) second := by
  induction first generalizing cursor with
  | nil => simp [Walk, cursorAfter]
  | cons visit rest ih => simp [Walk, cursorAfter, ih, and_assoc]

/-- Going on without a wrap, every key that stays eligible and is not beyond the cursor has been
visited, given that it had been at the start. -/
theorem visited_onward {cursor : κ} {visits : List (Visit κ)} (walk : Walk (some cursor) visits)
    (onward : ∀ visit ∈ visits, visit.wraps = false) {key : κ}
    (stays : ∀ visit ∈ visits, visit.eligible key) (beyond : cursor < key) {last : κ}
    (ends : cursorAfter (some cursor) visits = some last) (reached : key ≤ last) :
    key ∈ visits.map (·.key) := by
  induction visits generalizing cursor with
  | nil =>
    obtain rfl := Option.some.inj ends
    exact absurd reached (not_le_of_gt beyond)
  | cons visit rest ih =>
    obtain ⟨follows, later⟩ := walk
    have next : visit.key ≤ key := by
      apply (follows.onward (onward visit List.mem_cons_self)).2 key (stays visit List.mem_cons_self)
      intro c known
      obtain rfl := Option.some.inj known
      exact beyond
    rcases eq_or_lt_of_le next with same | further
    · rw [← same]
      exact List.mem_map_of_mem List.mem_cons_self
    · have found := ih later (fun other member => onward other (List.mem_cons_of_mem _ member))
        (fun other member => stays other (List.mem_cons_of_mem _ member)) further ends
      exact List.mem_cons_of_mem _ found

theorem visited_between_wraps {cursor : Option κ} {front mid back : List (Visit κ)} {first next : Visit κ}
    (walk : Walk cursor (front ++ first :: (mid ++ next :: back)))
    (starts : first.wraps = true) (ends : next.wraps = true) (onward : ∀ visit ∈ mid, visit.wraps = false)
    {key : κ} (stays : ∀ visit ∈ first :: (mid ++ [next]), visit.eligible key) :
    key ∈ (first :: mid).map (·.key) := by
  obtain ⟨follows, between⟩ := (walk_append.mp walk).2
  obtain ⟨middle, last, _⟩ := walk_append.mp between
  have least : first.key ≤ key := (follows.restart starts).2 key (stays first List.mem_cons_self)
  rcases eq_or_lt_of_le least with same | beyond
  · rw [← same]
    exact List.mem_map_of_mem List.mem_cons_self
  · obtain ⟨⟨c, here, bound⟩, _⟩ := last.restart ends
    have passed : key ≤ c := bound key (stays next (by simp))
    have found := visited_onward middle onward (fun visit member => stays visit (by simp [member])) beyond here passed
    exact List.mem_cons_of_mem _ found

/-! ### One round -/

/-- The visits to keys with their flags, where only the first flagged one starts over. -/
def stamped (eligible : κ → Prop) : Bool → List (κ × Bool) → List (Visit κ)
  | _, [] => []
  | started, (key, flag) :: rest =>
    { key, eligible, wraps := flag && !started } :: stamped eligible (started || flag) rest

omit [LinearOrder κ] in
theorem stamped_append (eligible : κ → Prop) (started : Bool) (first second : List (κ × Bool)) :
    stamped eligible started (first ++ second) =
      stamped eligible started first ++ stamped eligible (started || first.any (·.2)) second := by
  induction first generalizing started with
  | nil => simp [stamped]
  | cons entry rest ih => simp [stamped, ih, Bool.or_assoc]

omit [LinearOrder κ] in
theorem cursorAfter_stamped (eligible : κ → Prop) (cursor : Option κ) (started : Bool) (entries : List (κ × Bool)) :
    cursorAfter cursor (stamped eligible started entries) = (entries.map (·.1)).foldl (fun _ key => some key) cursor := by
  induction entries generalizing cursor started with
  | nil => rfl
  | cons entry rest ih => exact ih (some entry.1) (started || entry.2)

theorem walk_sorted {eligible : κ → Prop} {cursor : Option κ} {keys : List κ} {flag started : Bool}
    (quiet : (flag && !started) = false) (sorted : keys.Pairwise (· < ·))
    (beyond : ∀ c ∈ cursor, ∀ key ∈ keys, c < key)
    (covers : ∀ k, eligible k → (∀ c ∈ cursor, c < k) → k ∈ keys ∨ ∀ key ∈ keys, key ≤ k) :
    Walk cursor (stamped eligible started (keys.map (·, flag))) := by
  induction keys generalizing cursor started with
  | nil => trivial
  | cons key rest ih =>
    obtain ⟨above, sorted⟩ := List.pairwise_cons.mp sorted
    constructor
    · constructor
      · intro _
        refine ⟨fun c known => beyond c known key List.mem_cons_self, fun k able further => ?_⟩
        rcases covers k able further with member | all
        · rcases List.mem_cons.mp member with rfl | later
          · exact le_refl _
          · exact le_of_lt (above k later)
        · exact all key List.mem_cons_self
      · intro wraps
        rw [quiet] at wraps
        cases wraps
    · apply ih
      · cases flag <;> cases started <;> rfl
      · exact sorted
      · intro c known k member
        obtain rfl := Option.some.inj known
        exact above k member
      · intro k able further
        have past : key < k := further key rfl
        rcases covers k able fun c known => (beyond c known key List.mem_cons_self).trans past with member | all
        · rcases List.mem_cons.mp member with rfl | later
          · exact absurd past (lt_irrefl _)
          · exact .inl later
        · exact .inr fun other later => all other (List.mem_cons_of_mem _ later)

theorem walk_round {eligible : κ → Prop} {cursor : Option κ} {beyond wrapped : List κ}
    (upper : beyond.Pairwise (· < ·)) (lower : wrapped.Pairwise (· < ·))
    (members : ∀ k, eligible k → k ∈ beyond ∨ k ∈ wrapped)
    (after : ∀ c ∈ cursor, ∀ key ∈ beyond, c < key)
    (upTo : ∀ key ∈ wrapped, ∃ c, cursor = some c ∧ key ≤ c) :
    Walk cursor (stamped eligible false (beyond.map (·, false) ++ wrapped.map (·, true))) := by
  have unstarted : (false || (beyond.map (·, false)).any (·.2)) = false := by simp
  rw [stamped_append, unstarted, walk_append]
  constructor
  · apply walk_sorted (by rfl) upper after
    intro k able further
    rcases members k able with member | member
    · exact .inl member
    · obtain ⟨c, here, le⟩ := upTo k member
      exact absurd (further c here) (not_lt_of_ge le)
  · rw [cursorAfter_stamped]
    cases wrapped with
    | nil => trivial
    | cons least rest =>
      obtain ⟨above, sorted⟩ := List.pairwise_cons.mp lower
      obtain ⟨c, here, bound⟩ := upTo least List.mem_cons_self
      -- the cursor when the round starts over: the last key beyond, or where it stood
      have stands : ∃ top, ((beyond.map (·, false)).map (·.1)).foldl (fun _ key => some key) cursor = some top ∧
          c ≤ top ∧ ∀ key ∈ beyond, key ≤ top := by
        rcases List.eq_nil_or_concat beyond with rfl | ⟨front, last, rfl⟩
        · exact ⟨c, here, le_refl _, nofun⟩
        · refine ⟨last, by simp, le_of_lt (after c here last (by simp)), fun key member => ?_⟩
          rw [List.concat_eq_append] at upper member
          rcases List.mem_append.mp member with earlier | same
          · exact le_of_lt ((List.pairwise_append.mp upper).2.2 key earlier last List.mem_cons_self)
          · exact le_of_eq (List.mem_singleton.mp same)
      have low : ∀ key ∈ least :: rest, key ≤ c := by
        intro key member
        obtain ⟨other, same, le⟩ := upTo key member
        rw [here, Option.some.injEq] at same
        exact same ▸ le
      obtain ⟨top, stops, reached, highest⟩ := stands
      rw [stops]
      constructor
      · constructor
        · intro wraps
          cases wraps
        · intro _
          refine ⟨⟨top, rfl, fun k able => ?_⟩, fun k able => ?_⟩
          · rcases members k able with member | member
            · exact highest k member
            · exact (low k member).trans reached
          · rcases members k able with member | member
            · exact bound.trans (le_of_lt (after c here k member))
            · rcases List.mem_cons.mp member with rfl | later
              · exact le_refl _
              · exact le_of_lt (above k later)
      · apply walk_sorted (by rfl) sorted
        · intro other known key member
          obtain rfl := Option.some.inj known
          exact above key member
        · intro k able further
          rcases members k able with member | member
          · exact .inr fun key later => (low key (List.mem_cons_of_mem _ later)).trans (le_of_lt (after c here k member))
          · rcases List.mem_cons.mp member with rfl | later
            · exact absurd (further _ rfl) (lt_irrefl _)
            · exact .inl later

end HarnessMem.Library
