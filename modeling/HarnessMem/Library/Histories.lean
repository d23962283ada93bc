import Mathlib.Data.List.Basic
import Mathlib.Logic.Relation

/-! Items that give way to others: where every item is followed, in some number of
steps, by one that has not given way, and when one more step keeps it so.
-/

set_option autoImplicit false

namespace HarnessMem.Library

open Relation

variable {α : Type}

def Lasting (next : α → α → Prop) (item : α) : Prop := ∀ other, ¬ next item other

def Lasts (next : α → α → Prop) (item : α) : Prop := ∃ last, ReflTransGen next item last ∧ Lasting next last

def Linked (next : α → α → Prop) (old new : α) : α → α → Prop := fun item other => next item other ∨ item = old ∧ other = new

variable {next : α → α → Prop} {old new : α}

theorem Linked.chain {item other : α} (chain : ReflTransGen next item other) : ReflTransGen (Linked next old new) item other :=
  ReflTransGen.mono (fun _ _ => .inl) _ _ chain

theorem lasting_linked {item : α} : Lasting (Linked next old new) item ↔ Lasting next item ∧ item ≠ old := by
  constructor
  · intro lasting
    exact ⟨fun other step => lasting other (.inl step), fun same => lasting new (.inr ⟨same, rfl⟩)⟩
  · intro ⟨lasting, differs⟩ other step
    rcases step with before | ⟨same, _⟩
    · exact lasting other before
    · exact differs same

theorem chain_linked {item last : α} (chain : ReflTransGen (Linked next old new) item last) :
    ReflTransGen next item last ∨ ReflTransGen next new last := by
  induction chain using ReflTransGen.head_induction_on with
  | refl => exact .inl .refl
  | head step _ ih =>
    rcases ih with before | fromNew
    · rcases step with edge | ⟨_, rfl⟩
      · exact .inl (.head edge before)
      · exact .inr before
    · exact .inr fromNew

/-- One more step leaves every item with one that lasts exactly where the old item had given way
before, or the new one is followed by another that lasts. -/
theorem lasts_linked (all : ∀ item, Lasts next item) :
    (∀ item, Lasts (Linked next old new) item) ↔
      ¬ Lasting next old ∨ ∃ last, ReflTransGen next new last ∧ Lasting next last ∧ last ≠ old := by
  constructor
  · intro after
    obtain ⟨last, chain, lasting⟩ := after new
    obtain ⟨lasted, differs⟩ := lasting_linked.mp lasting
    exact .inr ⟨last, or_self_iff.mp (chain_linked chain), lasted, differs⟩
  · intro condition item
    obtain ⟨ending, chain, lasting⟩ := all item
    by_cases same : ending = old
    · -- the chain ends in the item that gives way now, and goes on from the new one
      subst same
      rcases condition with gone | ⟨last, more, lasts, differs⟩
      · exact absurd lasting gone
      · have turn : Linked next ending new ending new := .inr ⟨rfl, rfl⟩
        exact ⟨last, (Linked.chain chain).trans (.head turn (Linked.chain more)), lasting_linked.mpr ⟨lasts, differs⟩⟩
    · exact ⟨ending, Linked.chain chain, lasting_linked.mpr ⟨lasting, same⟩⟩

end HarnessMem.Library

/-! Files that are replaced whole. The versions stored so far stand newest first, each
with its writer, and a relation says what a later version still holds of an earlier one.
-/

namespace HarnessMem.Library

variable {ρ α : Type}

structure Version (ρ α : Type) where
  writer : ρ
  content : α

/-- What was there before, and the versions stored since, newest first. -/
structure File (ρ α : Type) where
  before : Option α
  stored : List (Version ρ α)

namespace File

variable (file : File ρ α)

def current? : Option α :=
  match file.stored with
  | [] => file.before
  | newest :: _ => some newest.content

def store (writer : ρ) (content : α) : File ρ α := ⟨file.before, ⟨writer, content⟩ :: file.stored⟩

end File

/-- Each version still holds every earlier one. The relation is given who has written since, newest first. -/
def Holding (holds : List ρ → α → α → Prop) : List (Version ρ α) → Prop
  | [] => True
  | newest :: older =>
    (∀ later earlier earliest, older = later ++ earlier :: earliest →
      holds (newest.writer :: later.map (·.writer)) earlier.content newest.content) ∧ Holding holds older

namespace Holding

variable {holds : List ρ → α → α → Prop}

theorem store {file : File ρ α} {writer : ρ} {content : α} (holding : Holding holds file.stored) (same : ∀ content, holds [] content content)
    (extend : ∀ newest, file.current? = some newest → ∀ since, ∀ old ∈ file.stored,
      holds since old.content newest → holds (writer :: since) old.content content) :
    Holding holds (file.store writer content).stored := by
  obtain ⟨before, history⟩ := file
  constructor
  · intro later old earlier split
    cases later with
    | nil =>
      change history = old :: earlier at split
      subst split
      exact extend old.content rfl [] old (List.mem_cons_self ..) (same _)
    | cons newest later =>
      change history = newest :: (later ++ old :: earlier) at split
      subst split
      have member : old ∈ newest :: (later ++ old :: earlier) :=
        List.mem_cons_of_mem _ (List.mem_append_right _ (List.mem_cons_self ..))
      exact extend newest.content rfl _ old member (holding.1 later old earlier rfl)
  · exact holding

end Holding

end HarnessMem.Library
