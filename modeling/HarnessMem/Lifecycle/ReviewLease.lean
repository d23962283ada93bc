import HarnessMem.Lifecycle.Consistency

/-! The lease on the review of a job. A grant holds off every other reviewer until
the expiry it named, unless its owner ends the review or a call defers the job.
-/

set_option autoImplicit false

namespace HarnessMem.Lifecycle

open Storage Library

variable {hashes : Hashes}

/-- A claim or a renewal of the review by the owner that succeeds, with the expiry it sets. -/
def GrantsReview (ledger : Ledger) (event : Event) (jobId owner : String) (expiry : Time) : Prop :=
  match event.op with
  | .claimReview target leaseOwner source leaseSeconds frozen =>
    target = jobId ∧ leaseOwner = owner ∧ expiry = reviewLeaseEnd event.time leaseSeconds ∧
      ∃ claimed next, ledger.claimReview target leaseOwner source leaseSeconds frozen event.time =
        .ok (some claimed, next)
  | .renewReviewLease target leaseOwner leaseSeconds =>
    target = jobId ∧ leaseOwner = owner ∧ expiry = reviewLeaseEnd event.time leaseSeconds ∧
      (ledger.renewReviewLease target leaseOwner leaseSeconds event.time).1
  | _ => False

def Finalizes (hashes : Hashes) (ledger : Ledger) (event : Event) (jobId : String) (owner : Option String) : Prop :=
  match event.op with
  | .finalize target review outputs reviewLeaseOwner =>
    target = jobId ∧ reviewLeaseOwner = owner ∧
      ∃ result, ledger.finalize hashes target review outputs reviewLeaseOwner event.time = .ok result
  | _ => False

def EndsReview (hashes : Hashes) (ledger : Ledger) (event : Event) (jobId owner : String) : Prop :=
  match event.op with
  | .releaseReviewLease target leaseOwner =>
    target = jobId ∧ leaseOwner = owner ∧ (ledger.releaseReviewLease target leaseOwner event.time).1
  | .finalize .. => Finalizes hashes ledger event jobId (some owner)
  | .deferJob target error => target = jobId ∧ ∃ result, ledger.deferJob target error event.time = .ok result
  | _ => False

def LeavesReview (hashes : Hashes) (jobId owner : String) (world : World) (event : Event) : Prop :=
  dropsJobs event.op = false ∧ ¬ EndsReview hashes world.ledger event jobId owner ∧
    ∀ expiry, ¬ GrantsReview world.ledger event jobId owner expiry

/-- The owner was granted the review up to the expiry, and a run later nobody has ended it. -/
def ReviewHeld (hashes : Hashes) (jobId owner : String) (expiry : Time) (world : World) : Prop :=
  ∃ start granted grant events, Reachable hashes start ∧ Step hashes start grant granted ∧
    GrantsReview start.ledger grant jobId owner expiry ∧
    Exec (Restrict (Step hashes) (LeavesReview hashes jobId owner)) granted events world

/-! ### The lease fields while the review is held -/

/-- The job row names the owner and the expiry it was granted. -/
structure Holds (jobId owner : String) (expiry : Time) (job : SessionDistillJob) : Prop where
  id : job.id = jobId
  owner : job.reviewLeaseOwner = some owner
  expiry : job.reviewLeaseUntil = some expiry
  unfinished : job.status ≠ .completed

namespace Holds

variable {jobId owner : String} {expiry now : Time} {job : SessionDistillJob}

theorem unexpired (holds : Holds jobId owner expiry job) (early : now < expiry) : job.reviewLeaseUnexpired now := by
  unfold SessionDistillJob.reviewLeaseUnexpired
  rw [holds.expiry]
  exact any_later early

theorem active (holds : Holds jobId owner expiry job) (named : owner ≠ "") (early : now < expiry) :
    job.activeReviewLease now := by
  simp [SessionDistillJob.activeReviewLease, SessionDistillJob.hasReviewOwner, holds.owner, named,
    holds.unexpired early]

theorem owner_of_free (holds : Holds jobId owner expiry job) (named : owner ≠ "") (early : now < expiry)
    {other : String} (free : job.ownedByOther other = false ∨ job.reviewLeaseUnexpired now = false) :
    other = owner := by
  rcases free with mine | expired
  · by_contra differs
    simp [SessionDistillJob.ownedByOther, SessionDistillJob.hasReviewOwner, holds.owner, named,
      Ne.symm differs] at mine
  · rw [holds.unexpired early] at expired
    cases expired

theorem owner_of_admitted (holds : Holds jobId owner expiry job) (named : owner ≠ "") (early : now < expiry)
    {finalizer : Option String} (admitted : job.finalizeRefusal now finalizer = none) : finalizer = some owner := by
  unfold SessionDistillJob.finalizeRefusal at admitted
  by_cases mine : job.reviewLeaseOwner = finalizer
  · exact mine.symm.trans holds.owner
  · have active := holds.active named early
    cases finalizer <;> simp [mine, active] at admitted

end Holds

variable {event : Event} {jobId owner : String} {expiry : Time}

theorem holds_granted {before after : World}
    (step : Step hashes before event after) (grants : GrantsReview before.ledger event jobId owner expiry) :
    ∃ job, after.ledger.getJob jobId = some job ∧ Holds jobId owner expiry job := by
  obtain ⟨time, op⟩ := event
  rw [step.2]
  cases op with
  | claimReview target leaseOwner source leaseSeconds frozen =>
    obtain ⟨rfl, rfl, rfl, claimed, next, ran⟩ := grants
    have applied : (LedgerOp.claimReview target leaseOwner source leaseSeconds frozen).apply hashes before.ledger
        time = next := by
      simp only at ran
      simp [LedgerOp.apply, LedgerOp.run, ran, Except.map]
    simp only at ran ⊢
    rw [applied]
    unfold Ledger.claimReview at ran
    cases found : before.ledger.getJob target with
    | none => simp [found] at ran
    | some job =>
      have mine : job.id = target := Ledger.id_of_getJob found
      simp only [found] at ran
      split at ran
      · cases ran
      · cases ran
      · split at ran
        · cases ran
        · next reviewing =>
          rw [ne_eq, not_not] at reviewing
          have unfinished : job.status ≠ .completed := by simp [reviewing]
          split at ran
          · cases ran
          · by_cases other : job.ownedByOther leaseOwner
            · simp only [other, if_true, Bool.true_and] at ran
              split at ran
              · cases ran
              · cases ran
                exact ⟨_, (Ledger.getJob_setJob _ _ _).trans (if_pos mine), mine, rfl, rfl, unfinished⟩
            · simp only [other, Bool.false_and, Bool.false_eq_true, if_false] at ran
              cases ran
              exact ⟨_, (Ledger.getJob_setJob _ _ _).trans (if_pos mine), mine, rfl, rfl, unfinished⟩
  | renewReviewLease target leaseOwner leaseSeconds =>
    obtain ⟨rfl, rfl, rfl, ran⟩ := grants
    simp only [LedgerOp.apply, LedgerOp.run] at ran ⊢
    unfold Ledger.renewReviewLease at ran ⊢
    cases found : before.ledger.getJob target with
    | none => simp [found] at ran
    | some job =>
      have mine : job.id = target := Ledger.id_of_getJob found
      simp only [found] at ran ⊢
      split at ran
      · cases ran
      · next admitted =>
        rw [if_neg admitted]
        simp only [not_or, ne_eq, not_not] at admitted
        refine ⟨_, (Ledger.getJob_setJob _ _ _).trans (if_pos mine), mine, admitted.2.1, rfl, ?_⟩
        simp [SessionDistillJob.renewReview, admitted.1]
  | _ => exact grants.elim

theorem holds_step {world : World} {view view' : JobView}
    (named : owner ≠ "") (early : event.time < expiry) (left : LeavesReview hashes jobId owner world event)
    (step : JobStep hashes world.ledger event.time event.op view view')
    (holds : Holds jobId owner expiry view.job) : Holds jobId owner expiry view'.job := by
  obtain ⟨time, op⟩ := event
  obtain ⟨_, unended, ungranted⟩ := left
  simp only at step early
  cases step with
  | annotate same =>
    exact ⟨(congrArg (fun kept => kept.identity.id) same).trans holds.id,
      (congrArg Standing.reviewLeaseOwner same).trans holds.owner,
      (congrArg Standing.reviewLeaseUntil same).trans holds.expiry,
      fun completed => holds.unfinished ((congrArg Standing.status same).symm.trans completed)⟩
  | markStale => exact { holds with unfinished := nofun }
  | recheck => exact ⟨holds.id, holds.owner, holds.expiry, holds.unfinished⟩
  | claimManual => exact ⟨holds.id, holds.owner, holds.expiry, holds.unfinished⟩
  | place _ _ placed =>
    refine ⟨holds.id, holds.owner, holds.expiry, ?_⟩
    rcases placed with rfl | rfl <;> exact nofun
  | activate => exact ⟨holds.id, holds.owner, holds.expiry, nofun⟩
  | leaseChunks => exact ⟨holds.id, holds.owner, holds.expiry, nofun⟩
  | recover => exact ⟨holds.id, holds.owner, holds.expiry, nofun⟩
  | recoverFailed => exact ⟨holds.id, holds.owner, holds.expiry, nofun⟩
  | completeChunk =>
    unfold SessionDistillJob.countChunks
    dsimp only
    split
    · exact ⟨holds.id, holds.owner, holds.expiry, nofun⟩
    · exact ⟨holds.id, holds.owner, holds.expiry, holds.unfinished⟩
  | advance => exact ⟨holds.id, holds.owner, holds.expiry, nofun⟩
  | loseWorker => exact ⟨holds.id, holds.owner, holds.expiry, nofun⟩
  | loseWorkerFailed => exact ⟨holds.id, holds.owner, holds.expiry, nofun⟩
  | grantReview mine _ _ free granted =>
    -- another reviewer is not let in, and a claim of the owner's own is a later grant
    have same := holds.owner_of_free named early free
    exact (ungranted _ ⟨mine.symm.trans holds.id, same, rfl, granted⟩).elim
  | failReview _ _ free =>
    rw [holds.unexpired early] at free
    cases free
  | renewReview mine _ owned _ granted =>
    have same := Option.some.inj (owned.symm.trans holds.owner)
    exact (ungranted _ ⟨mine.symm.trans holds.id, same, rfl, granted⟩).elim
  | releaseReview mine owned granted =>
    have same := Option.some.inj (owned.symm.trans holds.owner)
    exact (unended ⟨mine.symm.trans holds.id, same, granted⟩).elim
  | staleAtFinalize mine _ admitted returned =>
    have same := holds.owner_of_admitted named early admitted
    exact (unended ⟨mine.symm.trans holds.id, same, returned⟩).elim
  | finalize viewed _ admitted _ _ _ returned =>
    have mine := Ledger.id_of_getJob (Ledger.view_eq_some.mp viewed).1
    have same := holds.owner_of_admitted named early admitted
    exact (unended ⟨mine.symm.trans holds.id, same, returned⟩).elim
  | defer mine _ returned => exact (unended ⟨mine.symm.trans holds.id, returned⟩).elim
  | prune => exact ⟨holds.id, holds.owner, holds.expiry, holds.unfinished⟩

theorem holds_inductive (named : owner ≠ "") :
    Inductive hashes (LeavesReview hashes jobId owner)
      fun now view => now < expiry → Holds jobId owner expiry view.job where
  aged := fun _ _ _ ordered holds early => holds (Nat.lt_of_le_of_lt ordered early)
  stepped := fun _ _ _ _ left _ step holds early => holds_step named early left step (holds early)

theorem holds_of_held {world : World}
    (held : ReviewHeld hashes jobId owner expiry world) (named : owner ≠ "") (early : world.clock < expiry) :
    ∃ job, world.ledger.getJob jobId = some job ∧ Holds jobId owner expiry job := by
  obtain ⟨start, granted, grant, events, reached, step, grants, run⟩ := held
  obtain ⟨job, found, holds⟩ := holds_granted step grants
  have sound := step_integrity (reachable_integrity reached) step
  obtain ⟨view, viewed, kept⟩ := exec_job (holds_inductive named) (fun _ _ left => left.1) run sound
    (Ledger.view_of_getJob found) fun _ => holds
  exact ⟨view.job, (Ledger.view_eq_some.mp viewed).1, kept early⟩

/-! ### Who is let in -/

variable {ledger : Ledger} {job : SessionDistillJob}

theorem owner_of_grants {other : String} {until_ : Time} (found : ledger.getJob jobId = some job) (holds : Holds jobId owner expiry job)
    (named : owner ≠ "") (early : event.time < expiry) (grants : GrantsReview ledger event jobId other until_) :
    other = owner := by
  obtain ⟨time, op⟩ := event
  simp only at early
  cases op with
  | claimReview target leaseOwner source leaseSeconds frozen =>
    obtain ⟨rfl, rfl, _, claimed, next, ran⟩ := grants
    simp only [Ledger.claimReview, found] at ran
    split at ran
    · cases ran
    · cases ran
    · split at ran
      · cases ran
      · split at ran
        · cases ran
        · next free =>
          rw [Bool.and_eq_true, not_and_or, Bool.not_eq_true, Bool.not_eq_true] at free
          exact holds.owner_of_free named early free
  | renewReviewLease target leaseOwner leaseSeconds =>
    obtain ⟨rfl, rfl, _, ran⟩ := grants
    simp only [Ledger.renewReviewLease, found] at ran
    split at ran
    · cases ran
    · next admitted =>
      simp only [not_or, ne_eq, not_not] at admitted
      exact Option.some.inj (admitted.2.1.symm.trans holds.owner)
  | _ => exact grants.elim

theorem admitted_of_finalizes {finalizer : Option String} (found : ledger.getJob jobId = some job) (unfinished : job.status ≠ .completed)
    (finalizes : Finalizes hashes ledger event jobId finalizer) :
    job.finalizeRefusal event.time finalizer = none := by
  obtain ⟨time, op⟩ := event
  cases op with
  | finalize target review outputs reviewLeaseOwner =>
    obtain ⟨rfl, rfl, result, ran⟩ := finalizes
    simp only [Ledger.finalize, found, unfinished, if_false] at ran
    cases refusal : job.finalizeRefusal time reviewLeaseOwner with
    | none => rfl
    | some failure => simp [refusal] at ran
  | _ => exact finalizes.elim

theorem live_of_admitted {now : Time}
    (admitted : job.finalizeRefusal now (some owner) = none) :
    job.reviewLeaseOwner = some owner ∧ job.reviewLeaseUnexpired now := by
  unfold SessionDistillJob.finalizeRefusal at admitted
  by_cases mine : job.reviewLeaseOwner = some owner
  · by_cases live : job.reviewLeaseUnexpired now
    · exact ⟨mine, live⟩
    · simp [mine, live] at admitted
  · simp [mine] at admitted

/-- Until the expiry its owner was last granted, nobody else is granted a held review or finalizes the
job; and a finalize that names an owner commits only under a live lease of that owner. -/
theorem review_lease_safe (jobId : String) :
    (∀ owner expiry world event, ReviewHeld hashes jobId owner expiry world → owner ≠ "" →
      world.clock ≤ event.time → event.time < expiry →
        (∀ other until_, GrantsReview world.ledger event jobId other until_ → other = owner) ∧
        ∀ finalizer, Finalizes hashes world.ledger event jobId finalizer → finalizer = some owner) ∧
    ∀ world event owner job, Reachable hashes world → world.ledger.getJob jobId = some job →
      job.status ≠ .completed → Finalizes hashes world.ledger event jobId (some owner) →
        job.reviewLeaseOwner = some owner ∧ job.reviewLeaseUnexpired event.time := by
  refine ⟨?_, ?_⟩
  · intro owner expiry world event held named later early
    obtain ⟨job, found, holds⟩ := holds_of_held held named (Nat.lt_of_le_of_lt later early)
    refine ⟨?_, ?_⟩
    · intro other until_ grants
      exact owner_of_grants found holds named early grants
    · intro finalizer finalizes
      exact holds.owner_of_admitted named early (admitted_of_finalizes found holds.unfinished finalizes)
  · intro world event owner job _ found unfinished finalizes
    exact live_of_admitted (admitted_of_finalizes found unfinished finalizes)

def readyEvents : List Event :=
  let jobId := sampleJob .spelled "s" ["a"]
  [⟨1, sampleCapture .spelled "s" ["a"]⟩, ⟨2, sampleEnqueue "s"⟩, ⟨3, sampleClaim jobId "w"⟩,
    ⟨4, .checkpointChunk jobId "sha256:a#a" "w" []⟩]

def reviewClaim (time : Time) (owner : String) : Event :=
  ⟨time, .claimReview (sampleJob .spelled "s" ["a"]) owner "interactive_agent" 300 (.ok false)⟩

theorem grantsReview_of_isSome {time : Time} {source : String} {leaseSeconds : Int}
    {frozen : Except StoreError Bool}
    (granted : ((ledger.claimReview jobId owner source leaseSeconds frozen time).toOption.bind Prod.fst).isSome) :
    GrantsReview ledger ⟨time, .claimReview jobId owner source leaseSeconds frozen⟩ jobId owner
      (reviewLeaseEnd time leaseSeconds) := by
  refine ⟨rfl, rfl, rfl, ?_⟩
  cases ran : ledger.claimReview jobId owner source leaseSeconds frozen time with
  | error failure => simp [ran, Except.toOption] at granted
  | ok answer =>
    obtain ⟨claimed, next⟩ := answer
    cases claimed with
    | none => simp [ran, Except.toOption] at granted
    | some job => exact ⟨job, next, rfl⟩

theorem review_lease_safe_claimed :
    ∀ until_, ¬ GrantsReview (World.initial.after .spelled (readyEvents ++ [reviewClaim 5 "A"])).ledger
      (reviewClaim (seconds 100) "B") (sampleJob .spelled "s" ["a"]) "B" until_ := by
  intro until_ grants
  have held : ReviewHeld .spelled (sampleJob .spelled "s" ["a"]) "A" (reviewLeaseEnd 5 300)
      (World.initial.after .spelled (readyEvents ++ [reviewClaim 5 "A"])) :=
    ⟨World.initial.after .spelled readyEvents, _, reviewClaim 5 "A", [], reachable_after (by decide),
      ⟨by decide, rfl⟩, grantsReview_of_isSome (by decide), .nil _⟩
  have same := ((review_lease_safe (sampleJob .spelled "s" ["a"])).1 _ _ _ _ held (by decide) (by decide)
    (by decide)).1 _ _ grants
  exact absurd same (by decide)

/-- A renewal may name an earlier expiry than the claim did, and an owner without a name holds nothing. -/
theorem review_lease_shortened :
    (∃ start granted final expiry, Reachable .spelled start ∧ Step .spelled start (reviewClaim 5 "A") granted ∧
      GrantsReview start.ledger (reviewClaim 5 "A") (sampleJob .spelled "s" ["a"]) "A" expiry ∧
      Exec (Restrict (Step .spelled) fun world event => dropsJobs event.op = false ∧
          ¬ EndsReview .spelled world.ledger event (sampleJob .spelled "s" ["a"]) "A")
        granted [⟨6, .renewReviewLease (sampleJob .spelled "s" ["a"]) "A" 30⟩] final ∧
      seconds 100 < expiry ∧
      ∃ until_, GrantsReview final.ledger (reviewClaim (seconds 100) "B") (sampleJob .spelled "s" ["a"]) "B" until_) ∧
    ∃ start granted expiry, Reachable .spelled start ∧ Step .spelled start (reviewClaim 5 "") granted ∧
      GrantsReview start.ledger (reviewClaim 5 "") (sampleJob .spelled "s" ["a"]) "" expiry ∧ 6 < expiry ∧
      ∃ until_, GrantsReview granted.ledger (reviewClaim 6 "B") (sampleJob .spelled "s" ["a"]) "B" until_ := by
  constructor
  · exact ⟨World.initial.after .spelled readyEvents, _, _, _, reachable_after (by decide), ⟨by decide, rfl⟩,
      grantsReview_of_isSome (by decide), .single ⟨⟨by decide, rfl⟩, rfl, id⟩, by decide, _,
      grantsReview_of_isSome (by decide)⟩
  · exact ⟨World.initial.after .spelled readyEvents, _, _, reachable_after (by decide), ⟨by decide, rfl⟩,
      grantsReview_of_isSome (by decide), by decide, _, grantsReview_of_isSome (by decide)⟩

end HarnessMem.Lifecycle
