import HarnessMem.Library.Execution
import HarnessMem.Library.Histories
import HarnessMem.Structured.Operations

/-! The graph of supersede links over whole histories of candidates and confirmations: when
the links mirror each other and every line of truth ends in a current one.
-/

set_option autoImplicit false

namespace HarnessMem.Structured

open Library Relation

/-! ### Histories -/

inductive SupersedeCall where
  | save (candidate : SupersedeCandidate)
  | confirm (candidateId : String) (reviewedAt : DateTime)

def SupersedeCall.run (store : StructuredStore) : SupersedeCall → StructuredStore
  | .save candidate => (saveSupersedeCandidate candidate store).final
  | .confirm candidateId reviewedAt => (confirmSupersedeCandidate candidateId reviewedAt store).final

def SupersedeCall.Step (store : StructuredStore) (call : SupersedeCall) (after : StructuredStore) : Prop := call.run store = after

/-! ### The law of the links -/

namespace StructuredStore

/-- A truth is in the `supersedes` of another exactly when that one is in its `superseded_by`. -/
def Mirrored (store : StructuredStore) : Prop :=
  ∀ old ∈ store.truths.rows, ∀ new ∈ store.truths.rows, old.id ∈ new.supersedes ↔ new.id ∈ old.supersededBy

/-- A `superseded_by` link from one truth to another. -/
def SucceededBy (store : StructuredStore) (old new : Truth) : Prop :=
  old ∈ store.truths.rows ∧ new ∈ store.truths.rows ∧ new.id ∈ old.supersededBy

/-- From every superseded truth some chain of links reaches one that is not superseded. -/
def Succeeded (store : StructuredStore) : Prop :=
  ∀ truth ∈ store.truths.rows, truth.supersededBy ≠ [] →
    ∃ last ∈ store.truths.rows, ReflTransGen store.SucceededBy truth last ∧ last.supersededBy = []

def Unlinked (store : StructuredStore) : Prop :=
  ∀ truth ∈ store.truths.rows, truth.supersedes = [] ∧ truth.supersededBy = []

def Unambiguous (store : StructuredStore) (truth : Truth) : Prop :=
  truth.id ≠ "" ∧ ∀ other ∈ store.truths.rows, other.id = truth.id → other = truth

/-- The confirmation finds its index rows, its two truths have ids of their own, and its target is superseded
already or its replacement leads to another truth that is not. -/
structure Orderly (store : StructuredStore) (candidate : SupersedeCandidate) (target replacement : Truth) : Prop where
  listed : (store.candidateIndex.get? candidate.id).isSome = true
  targetIndexed : store.indexed target = true
  replacementIndexed : store.indexed replacement = true
  targetAlone : store.Unambiguous target
  replacementAlone : store.Unambiguous replacement
  onward : target.supersededBy ≠ [] ∨
    ∃ last, ReflTransGen store.SucceededBy replacement last ∧ last.supersededBy = [] ∧ last ≠ target

end StructuredStore

def SupersedeCall.Keeping (store : StructuredStore) : SupersedeCall → Prop
  | .save _ => True
  | .confirm candidateId _ => ∀ candidate target replacement,
      store.confirmable? candidateId = some (candidate, target, replacement) → store.Orderly candidate target replacement

/-! ### What a call does -/

def settled (target replacement : Truth) (reviewedAt : DateTime) (truth : Truth) : Truth :=
  if truth = target then target.supersededAs replacement reviewedAt
  else if truth = replacement then replacement.superseding target
  else truth

section

variable {store : StructuredStore} {candidateId : String} {reviewedAt : DateTime} {candidate : SupersedeCandidate}
  {target replacement : Truth}

theorem truths_confirm (found : store.confirmable? candidateId = some (candidate, target, replacement))
    (orderly : store.Orderly candidate target replacement) :
    (confirmSupersedeCandidate candidateId reviewedAt store).final.truths =
      (store.truths.upsert (target.supersededAs replacement reviewedAt)).upsert (replacement.superseding target) := by
  rw [(confirm_course (confirmable?_spec found) found).2, StructuredStore.confirmFinal, orderly.targetIndexed,
    orderly.replacementIndexed, orderly.listed]
  rfl

variable (target replacement reviewedAt)

theorem settled_id (truth : Truth) : (settled target replacement reviewedAt truth).id = truth.id := by
  unfold settled
  split
  · next same =>
    subst same
    rfl
  · split
    · next same =>
      subst same
      rfl
    · rfl

theorem settled_supersededBy (truth : Truth) : (settled target replacement reviewedAt truth).supersededBy =
    if truth = target then Truth.addLink (some replacement.id) truth.supersededBy else truth.supersededBy := by
  unfold settled
  split
  · next same =>
    subst same
    rfl
  · split
    · next same =>
      subst same
      rfl
    · rfl

variable {target replacement}

theorem settled_supersedes (differ : target ≠ replacement) (truth : Truth) :
    (settled target replacement reviewedAt truth).supersedes =
      if truth = replacement then Truth.addLink (some target.id) truth.supersedes else truth.supersedes := by
  unfold settled
  split
  · next same =>
    subst same
    rw [if_neg differ]
    rfl
  · split
    · next same =>
      subst same
      rfl
    · rfl

theorem mem_settled (differ : target ≠ replacement) (targetKnown : target ∈ store.truths.rows)
    (replacementKnown : replacement ∈ store.truths.rows) (truth : Truth) :
    truth ∈ ((store.truths.upsert (target.supersededAs replacement reviewedAt)).upsert
        (replacement.superseding target)).rows ↔
      ∃ old ∈ store.truths.rows, truth = settled target replacement reviewedAt old := by
  have keys : target.key ≠ replacement.key := fun same => differ (store.truths.eq_of_key targetKnown replacementKnown same)
  rw [Table.mem_upsert, Table.mem_upsert]
  constructor
  · rintro (rfl | ⟨rfl | ⟨member, apart⟩, apart'⟩)
    · exact ⟨replacement, replacementKnown, by rw [settled, if_neg differ.symm, if_pos rfl]⟩
    · exact ⟨target, targetKnown, by rw [settled, if_pos rfl]⟩
    · refine ⟨truth, member, ?_⟩
      rw [settled, if_neg, if_neg]
      · rintro rfl
        exact apart' rfl
      · rintro rfl
        exact apart rfl
  · rintro ⟨old, member, rfl⟩
    unfold settled
    split
    · exact .inr ⟨.inl rfl, keys⟩
    · next notTarget =>
      split
      · exact .inl rfl
      · next notReplacement =>
        have apart : old.key ≠ target.key := fun same => notTarget (store.truths.eq_of_key member targetKnown same)
        have apart' : old.key ≠ replacement.key :=
          fun same => notReplacement (store.truths.eq_of_key member replacementKnown same)
        exact .inr ⟨.inr ⟨member, apart⟩, apart'⟩

end

/-! ### The law is kept -/

namespace StructuredStore

/-- The law of the links, with chains followed through the links of every truth. -/
structure Law (store : StructuredStore) : Prop where
  mirrored : store.Mirrored
  resolved : ∀ old ∈ store.truths.rows, ∀ link ∈ old.supersededBy, ∃ new ∈ store.truths.rows, new.id = link
  lasts : ∀ truth, Lasts store.SucceededBy truth

variable {store : StructuredStore}

theorem mem_of_chain {first last : Truth} (chain : ReflTransGen store.SucceededBy first last)
    (member : first ∈ store.truths.rows) : last ∈ store.truths.rows := by
  induction chain with
  | refl => exact member
  | tail _ link _ => exact link.2.1

theorem Law.lasting_iff (law : store.Law) {truth : Truth} (member : truth ∈ store.truths.rows) :
    Lasting store.SucceededBy truth ↔ truth.supersededBy = [] := by
  constructor
  · intro lasting
    rw [List.eq_nil_iff_forall_not_mem]
    intro link linked
    obtain ⟨new, known, rfl⟩ := law.resolved truth member link linked
    exact lasting new ⟨member, known, linked⟩
  · intro none other link
    have linked := link.2.2
    rw [none] at linked
    cases linked

theorem Law.succeeded (law : store.Law) : store.Succeeded := by
  intro truth member _
  obtain ⟨last, chain, lasting⟩ := law.lasts truth
  have known := mem_of_chain chain member
  exact ⟨last, known, chain, (law.lasting_iff known).mp lasting⟩

theorem Law.of_truths (law : store.Law) {after : StructuredStore} (same : after.truths = store.truths) : after.Law := by
  cases store
  cases after
  cases same
  exact ⟨law.mirrored, law.resolved, law.lasts⟩

theorem Unlinked.law (unlinked : store.Unlinked) : store.Law := by
  refine ⟨?_, ?_, ?_⟩
  · intro old oldMember new newMember
    rw [(unlinked new newMember).1, (unlinked old oldMember).2]
    simp
  · intro old member link linked
    rw [(unlinked old member).2] at linked
    cases linked
  · intro truth
    refine ⟨truth, .refl, fun other link => ?_⟩
    have linked := link.2.2
    rw [(unlinked truth link.1).2] at linked
    cases linked

end StructuredStore

section

variable {store after : StructuredStore} {reviewedAt : DateTime} {candidate : SupersedeCandidate} {target replacement : Truth}

theorem linked_settled (replacementAlone : store.Unambiguous replacement) {old new : Truth}
    (newMember : new ∈ store.truths.rows) :
    new.id ∈ (settled target replacement reviewedAt old).supersededBy ↔
      new.id ∈ old.supersededBy ∨ old = target ∧ new = replacement := by
  rw [settled_supersededBy]
  split
  · next same =>
    rw [Truth.mem_addLink]
    constructor
    · rintro (before | ⟨ids, _⟩)
      · exact .inl before
      · exact .inr ⟨same, replacementAlone.2 new newMember ids⟩
    · rintro (before | ⟨_, rfl⟩)
      · exact .inl before
      · exact .inr ⟨rfl, replacementAlone.1⟩
  · next differs => simp [differs]

theorem mirrored_settled (law : store.Law) (differ : target ≠ replacement) (targetAlone : store.Unambiguous target)
    (replacementAlone : store.Unambiguous replacement) {old new : Truth} (oldMember : old ∈ store.truths.rows)
    (newMember : new ∈ store.truths.rows) :
    old.id ∈ (settled target replacement reviewedAt new).supersedes ↔
      new.id ∈ (settled target replacement reviewedAt old).supersededBy := by
  rw [linked_settled replacementAlone newMember, settled_supersedes reviewedAt differ,
    ← law.mirrored old oldMember new newMember]
  split
  · next same =>
    rw [Truth.mem_addLink]
    constructor
    · rintro (before | ⟨ids, _⟩)
      · exact .inl before
      · exact .inr ⟨targetAlone.2 old oldMember ids, same⟩
    · rintro (before | ⟨rfl, _⟩)
      · exact .inl before
      · exact .inr ⟨rfl, targetAlone.1⟩
  · next differs => simp [differs]

theorem law_settled (law : store.Law) (differ : target ≠ replacement) (targetKnown : target ∈ store.truths.rows)
    (replacementKnown : replacement ∈ store.truths.rows) (orderly : store.Orderly candidate target replacement)
    (rows : ∀ truth, truth ∈ after.truths.rows ↔
      ∃ old ∈ store.truths.rows, truth = settled target replacement reviewedAt old) : after.Law := by
  have settledKnown : ∀ truth ∈ store.truths.rows, settled target replacement reviewedAt truth ∈ after.truths.rows :=
    fun truth member => (rows _).mpr ⟨truth, member, rfl⟩
  -- the links of the later store are those of the earlier one with one more
  have step : ∀ old new, Linked store.SucceededBy target replacement old new →
      after.SucceededBy (settled target replacement reviewedAt old) (settled target replacement reviewedAt new) := by
    intro old new link
    have known : old ∈ store.truths.rows ∧ new ∈ store.truths.rows := by
      rcases link with before | ⟨rfl, rfl⟩
      · exact ⟨before.1, before.2.1⟩
      · exact ⟨targetKnown, replacementKnown⟩
    refine ⟨settledKnown old known.1, settledKnown new known.2, ?_⟩
    rw [settled_id, linked_settled orderly.replacementAlone known.2]
    rcases link with before | added
    · exact .inl before.2.2
    · exact .inr added
  have lasts : ∀ truth, Lasts (Linked store.SucceededBy target replacement) truth := by
    apply (lasts_linked law.lasts).mpr
    rcases orderly.onward with superseded | ⟨last, chain, current, differs⟩
    · exact .inl fun lasting => superseded ((law.lasting_iff targetKnown).mp lasting)
    · have known := StructuredStore.mem_of_chain chain replacementKnown
      exact .inr ⟨last, chain, (law.lasting_iff known).mpr current, differs⟩
  refine ⟨?_, ?_, ?_⟩
  · intro old oldMember new newMember
    obtain ⟨old, oldBefore, rfl⟩ := (rows _).mp oldMember
    obtain ⟨new, newBefore, rfl⟩ := (rows _).mp newMember
    rw [settled_id, settled_id]
    exact mirrored_settled law differ orderly.targetAlone orderly.replacementAlone oldBefore newBefore
  · intro old oldMember link member
    obtain ⟨old, oldBefore, rfl⟩ := (rows _).mp oldMember
    have known : ∃ new ∈ store.truths.rows, new.id = link := by
      rw [settled_supersededBy] at member
      split at member
      · rcases Truth.mem_addLink.mp member with before | ⟨rfl, _⟩
        · exact law.resolved old oldBefore link before
        · exact ⟨replacement, replacementKnown, rfl⟩
      · exact law.resolved old oldBefore link member
    obtain ⟨new, newBefore, rfl⟩ := known
    exact ⟨_, settledKnown new newBefore, settled_id _ _ _ new⟩
  · intro truth
    by_cases member : truth ∈ after.truths.rows
    · obtain ⟨old, oldBefore, rfl⟩ := (rows _).mp member
      obtain ⟨last, chain, lasting⟩ := lasts old
      have known : last ∈ store.truths.rows := by
        clear lasting
        induction chain with
        | refl => exact oldBefore
        | tail _ link _ =>
          rcases link with before | ⟨_, rfl⟩
          · exact before.2.1
          · exact replacementKnown
      refine ⟨_, ReflTransGen.lift _ step _ _ chain, fun other link => ?_⟩
      obtain ⟨new, newBefore, rfl⟩ := (rows _).mp link.2.1
      have linked := link.2.2
      rw [settled_id, linked_settled orderly.replacementAlone newBefore] at linked
      rcases linked with before | added
      · exact lasting new (.inl ⟨known, newBefore, before⟩)
      · exact lasting new (.inr added)
    · exact ⟨truth, .refl, fun _ link => member link.1⟩

end

/-! ### Runs -/

theorem confirm_nothing {store : StructuredStore} {candidateId : String} {reviewedAt : DateTime}
    (none : store.confirmable? candidateId = none) :
    (confirmSupersedeCandidate candidateId reviewedAt store).final = store := by
  simp [confirmSupersedeCandidate, none]

theorem StructuredStore.Law.run {store : StructuredStore} (law : store.Law) {call : SupersedeCall} (keeping : call.Keeping store) :
    (call.run store).Law := by
  cases call with
  | save candidate => exact law.of_truths (saveSupersedeCandidate_final candidate store).1
  | confirm candidateId reviewedAt =>
    cases found : store.confirmable? candidateId with
    | none =>
      rw [SupersedeCall.run, confirm_nothing found]
      exact law
    | some loaded =>
      obtain ⟨candidate, target, replacement⟩ := loaded
      have state := confirmable?_spec found
      have orderly := keeping candidate target replacement found
      have targetKnown := (StructuredStore.mem_of_truth? state.targetFound).1
      have replacementKnown := (StructuredStore.mem_of_truth? state.replacementFound).1
      have differ : target ≠ replacement := fun same => state.differ (congrArg Truth.collection same) (congrArg Truth.id same)
      apply law_settled law differ targetKnown replacementKnown orderly
      intro truth
      rw [SupersedeCall.run, truths_confirm found orderly]
      exact mem_settled reviewedAt differ targetKnown replacementKnown truth

/-- Where every confirmation that does something is orderly, superseding loses no line of truth. -/
theorem supersede_keeps_lines {start final : StructuredStore} {calls : List SupersedeCall} (unlinked : start.Unlinked)
    (run : Exec (Restrict SupersedeCall.Step fun store call => call.Keeping store) start calls final) :
    final.Mirrored ∧ final.Succeeded := by
  have law : final.Law := by
    apply run.invariant StructuredStore.Law _ unlinked.law
    intro store call after law step
    exact step.1 ▸ law.run step.2
  exact ⟨law.mirrored, law.succeeded⟩

def sampleStore : StructuredStore :=
  (saveTruth (sampleEntry "m2" "user_confirmed") (saveTruth (sampleEntry "m1" "user_confirmed") emptyStore).final).final

def sampleCandidate (id targetId replacementId : String) : SupersedeCandidate :=
  ⟨id, "p", "memory_entry", targetId, "memory_entry", replacementId, "pending"⟩

theorem sampleStore_unlinked : sampleStore.Unlinked := by
  have rows : sampleStore.truths.rows = [sampleEntry "m1" "user_confirmed", sampleEntry "m2" "user_confirmed"] := by decide
  intro truth member
  rw [rows, List.mem_pair] at member
  rcases member with rfl | rfl
  · exact ⟨rfl, rfl⟩
  · exact ⟨rfl, rfl⟩

/-- A candidate is saved and confirmed. -/
theorem supersede_keeps_lines_once :
    (SupersedeCall.run (SupersedeCall.run sampleStore (.save (sampleCandidate "c1" "m1" "m2")))
      (.confirm "c1" sampleMoment)).Mirrored ∧
    (SupersedeCall.run (SupersedeCall.run sampleStore (.save (sampleCandidate "c1" "m1" "m2")))
      (.confirm "c1" sampleMoment)).Succeeded := by
  have first : SupersedeCall.Keeping sampleStore (.save (sampleCandidate "c1" "m1" "m2")) := trivial
  have second : SupersedeCall.Keeping (SupersedeCall.run sampleStore (.save (sampleCandidate "c1" "m1" "m2")))
      (.confirm "c1" sampleMoment) := by
    intro candidate target replacement found
    have loaded : (SupersedeCall.run sampleStore (.save (sampleCandidate "c1" "m1" "m2"))).confirmable? "c1" =
      some (sampleCandidate "c1" "m1" "m2", sampleEntry "m1" "user_confirmed", sampleEntry "m2" "user_confirmed") := by decide +kernel
    cases loaded.symm.trans found
    have rows : (SupersedeCall.run sampleStore (.save (sampleCandidate "c1" "m1" "m2"))).truths.rows =
      [sampleEntry "m1" "user_confirmed", sampleEntry "m2" "user_confirmed"] := by decide +kernel
    refine ⟨by decide +kernel, by decide +kernel, by decide +kernel, ⟨by decide, ?_⟩, ⟨by decide, ?_⟩,
      .inr ⟨sampleEntry "m2" "user_confirmed", .refl, rfl, by decide⟩⟩
    · intro other member ids
      rw [rows, List.mem_pair] at member
      rcases member with rfl | rfl
      · rfl
      · exact absurd ids (by decide)
    · intro other member ids
      rw [rows, List.mem_pair] at member
      rcases member with rfl | rfl
      · exact absurd ids (by decide)
      · rfl
  exact supersede_keeps_lines sampleStore_unlinked (.cons ⟨rfl, first⟩ (.cons ⟨rfl, second⟩ (.nil _)))

def circle : List SupersedeCall :=
  [.save (sampleCandidate "c1" "m1" "m2"), .save (sampleCandidate "c2" "m2" "m1"), .confirm "c1" sampleMoment,
    .confirm "c2" sampleMoment]

/-- Each of the two confirmations finds its own candidate in order, and no current truth is left. -/
theorem supersede_keeps_lines_fails : ¬ ∀ (start final : StructuredStore) (calls : List SupersedeCall), start.Unlinked →
    Exec SupersedeCall.Step start calls final → final.Mirrored ∧ final.Succeeded := by
  intro all
  have run : Exec SupersedeCall.Step sampleStore circle (circle.foldl SupersedeCall.run sampleStore) :=
    .cons rfl (.cons rfl (.cons rfl (.cons rfl (.nil _))))
  have gone : (circle.foldl SupersedeCall.run sampleStore).truths.rows.all (fun truth => truth.supersededBy ≠ []) = true ∧
      (circle.foldl SupersedeCall.run sampleStore).truths.rows ≠ [] := by decide +kernel
  obtain ⟨truth, member⟩ := List.exists_mem_of_ne_nil _ gone.2
  have superseded := List.all_eq_true.mp gone.1
  obtain ⟨last, known, _, current⟩ := (all _ _ _ sampleStore_unlinked run).2 truth member (by simpa using superseded truth member)
  simpa [current] using superseded last known

end HarnessMem.Structured
