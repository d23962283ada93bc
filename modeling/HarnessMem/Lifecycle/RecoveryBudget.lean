import HarnessMem.Lifecycle.ChunkLease
import HarnessMem.Lifecycle.Consistency
import HarnessMem.Lifecycle.Reconciling

/-! How often a job recovers. A call counts a recovery for a lease that has run out or a worker that
is gone, and the last one the budget allows fails the job for good.
-/

set_option autoImplicit false

namespace HarnessMem.Lifecycle

open Storage Library Relation

variable {hashes : Hashes}

/-! ### What is counted -/

def RecoveryEvent (now : Time) (op : LedgerOp) (view : JobView) : Prop :=
  match op with
  | .reconcile .. => Lapsed now view
  | .claimChunks jobId .. => view.job.id = jobId ∧ ∃ checkpoint ∈ view.checkpoints, checkpoint.leaseExpired now = true
  | .claimReview jobId owner .. =>
    view.job.id = jobId ∧ view.job.status = .reviewing ∧ view.job.ownedByOther owner = true ∧ view.job.reviewLeaseUnexpired now = false
  | _ => False

def countsRecoveries : LedgerOp → Bool
  | .reconcile .. | .claimChunks .. | .claimReview .. => true
  | _ => false

theorem JobStep.count_same {ledger : Ledger} {now : Time} {op : LedgerOp} {view view' : JobView} (quiet : countsRecoveries op = false)
    (step : JobStep hashes ledger now op view view') : view'.job.recoveryCount = view.job.recoveryCount := by
  have unhanded : ∀ budget, ¬handsBudget op budget := by
    intro budget handed
    unfold handsBudget at handed
    split at handed
    · cases quiet
    · cases quiet
    · exact handed
  cases step with
  | annotate same => exact congrArg Standing.recoveryCount same
  | recover _ _ handed | recoverFailed _ _ _ handed | loseWorker _ handed | loseWorkerFailed _ _ handed => exact absurd handed (unhanded _)
  | grantReview | failReview => cases quiet
  | completeChunk =>
    unfold SessionDistillJob.countChunks
    dsimp only
    split <;> rfl
  | _ => rfl

theorem JobSteps.count_same {ledger : Ledger} {now : Time} {op : LedgerOp} {view view' : JobView} (quiet : countsRecoveries op = false)
    (steps : JobSteps hashes ledger now op view view') : view'.job.recoveryCount = view.job.recoveryCount := by
  induction steps with
  | refl => rfl
  | tail _ step ih => exact (step.count_same quiet).trans ih

section calls

variable {ledger : Ledger} {now : Time} {op : LedgerOp}

/-- Each job keeps its count or has it raised by one for a reason the call counts. -/
abbrev Counts (now : Time) (op : LedgerOp) (before after : Ledger) : Prop :=
  Updates (fun view view' => Counted (RecoveryEvent now op view) view view') before after

theorem Counts.refl (current : Ledger) : Counts now op current current := Updates.refl (fun _ => .inl rfl) current

theorem claimReview_counts {jobId owner source : String} {leaseSeconds : Int} {frozen : Except StoreError Bool}
    {granted : Option SessionDistillJob} {next : Ledger}
    (ran : ledger.claimReview jobId owner source leaseSeconds frozen now = .ok (granted, next)) :
    Counts now (.claimReview jobId owner source leaseSeconds frozen) ledger next := by
  unfold Ledger.claimReview at ran
  cases found : ledger.getJob jobId with
  | none => simp [found] at ran
  | some job =>
    simp only [found] at ran
    split at ran
    · cases ran
    · cases ran
      exact .refl _
    · split at ran
      · cases ran
        exact .refl _
      · next reviewing =>
        split at ran
        · cases ran
          exact .refl _
        · next free =>
          by_cases other : job.ownedByOther owner = true
          · have event : RecoveryEvent now (.claimReview jobId owner source leaseSeconds frozen) ⟨job, ledger.checkpointsOf jobId⟩ :=
              ⟨Ledger.id_of_getJob found, not_not.mp reviewing, other, by simpa [other] using free⟩
            simp only [other, if_true, Bool.true_and] at ran
            split at ran
            all_goals
              cases ran
              exact Updates.setJob (fun _ => .inl rfl) found rfl (.inr ⟨rfl, event⟩)
          · simp only [other, Bool.false_and, Bool.false_eq_true, if_false] at ran
            cases ran
            exact Updates.setJob (fun _ => .inl rfl) found rfl (.inl rfl)

theorem recoverExpired_counts {current next : Ledger} {job recovered : SessionDistillJob} {budget : Option Int}
    (found : current.getJob job.id = some job)
    (event : (∃ checkpoint ∈ current.checkpointsOf job.id, checkpoint.leaseExpired now = true) →
      RecoveryEvent now op ⟨job, current.checkpointsOf job.id⟩)
    (ran : current.recoverExpiredCheckpointsLocked job now budget = some (recovered, next)) : Counts now op current next := by
  unfold Ledger.recoverExpiredCheckpointsLocked at ran
  split at ran
  · next any =>
    dsimp only at ran
    split at ran
    all_goals
      cases ran
      refine Updates.rewrite (fun _ => .inl rfl) found rfl ?_
      exact .inr ⟨rfl, event (List.any_eq_true.mp any)⟩
  · cases ran

theorem claimChunks_counts {jobId owner source : String} {limit : Option Int} {leaseSeconds : Int}
    {frozen : Except StoreError Bool} {claimed : List (TranscriptChunk × DistillChunkCheckpoint)} {next : Ledger}
    (ran : ledger.claimChunks jobId owner limit leaseSeconds source frozen now = .ok (claimed, next)) :
    Counts now (.claimChunks jobId owner limit leaseSeconds source frozen) ledger next := by
  unfold Ledger.claimChunks at ran
  split at ran
  · cases ran
  · cases found : ledger.getJob jobId with
    | none => simp [found] at ran
    | some job =>
      have mine : job.id = jobId := Ledger.id_of_getJob found
      simp only [found] at ran
      split at ran
      · cases ran
      · cases ran
        exact .refl _
      · split at ran
        · cases ran
          exact .refl _
        · split at ran
          · next recovered next' recovery =>
            cases ran
            exact recoverExpired_counts (mine.symm ▸ found) (fun expired => ⟨mine, expired⟩) recovery
          · split at ran
            · cases ran
              exact .refl _
            · split at ran
              · cases ran
              · cases ran
                exact .refl _
              · cases ran
                exact Updates.rewrite (fun _ => .inl rfl) found rfl (.inl rfl)

theorem step_counted {before after : World} {event : Event} (sound : Integrity hashes before.ledger)
    (step : Step hashes before event after) {jobId : String} {view view' : JobView} (viewed : before.ledger.view jobId = some view)
    (viewed' : after.ledger.view jobId = some view') : Counted (RecoveryEvent event.time event.op view) view view' := by
  have quiet_or : countsRecoveries event.op = false ∨ countsRecoveries event.op = true := by
    cases countsRecoveries event.op <;> simp
  rcases quiet_or with quiet | loud
  · rcases (step_simulates sound step).moves jobId view viewed with ⟨gone, _⟩ | ⟨other, viewed'', moved⟩
    · rw [gone] at viewed'
      cases viewed'
    · rw [viewed'] at viewed''
      cases viewed''
      exact .inl (moved.count_same quiet)
  · rw [step.2] at viewed'
    rcases LedgerOp.apply_cases hashes before.ledger event.time event.op with ⟨outcome, ran, same⟩ | same
    · have counts : Counts event.time event.op before.ledger outcome.ledger ∨ Counted (RecoveryEvent event.time event.op view) view view' := by
        obtain ⟨time, op⟩ := event
        cases op with
        | reconcile projectName budget manualJobIds jobIds =>
          have committed : (before.ledger.reconcile projectName budget manualJobIds jobIds time).2 = outcome.ledger :=
            congrArg Outcome.ledger (Except.ok.inj ran)
          obtain ⟨turned, seen, turn⟩ := @reconcile_turned time budget projectName manualJobIds jobIds before.ledger jobId view viewed
          rw [committed, ← same] at seen
          cases seen.symm.trans viewed'
          refine .inr ?_
          split at turn
          · exact turn.counted
          · exact .inl (congrArg (fun view => view.job.recoveryCount) turn)
        | claimChunks =>
          obtain ⟨_, inner, rfl⟩ := map_ok ran
          exact .inl (claimChunks_counts inner)
        | claimReview =>
          obtain ⟨_, inner, rfl⟩ := map_ok ran
          exact .inl (claimReview_counts inner)
        | _ => cases loud
      rcases counts with counts | counted
      · obtain ⟨other, viewed'', moved⟩ := counts.moves jobId view viewed
        rw [same, viewed''] at viewed'
        cases viewed'
        exact moved
      · exact counted
    · rw [same, viewed] at viewed'
      cases viewed'
      exact .inl rfl

end calls

/-! ### Within the budget -/

/-- A job within its budget, and at rest once the budget is spent. -/
structure Within (limit : Nat) (view : JobView) : Prop where
  fits : view.checkpoints.length ≤ view.job.expectedChunkCount
  budget : view.job.recoveryBudget = limit
  bounded : view.job.recoveryCount ≤ limit
  spent : view.job.recoveryCount = limit →
    view.job.status.active = false ∧ ∀ checkpoint ∈ view.checkpoints, checkpoint.status ≠ .processing
  reviewing : view.job.status = .reviewing → ∀ checkpoint ∈ view.checkpoints, checkpoint.status ≠ .processing

/-- No call brings in another budget. -/
structure ConstantBudget (hashes : Hashes) (limit : Nat) (world : World) (event : Event) : Prop where
  handed : ∀ given, handsBudget event.op (some given) → max 1 given = limit
  created : ∀ view, Created hashes world.ledger event.time event.op view → view.job.recoveryBudget = limit

section within

variable {limit : Nat} {job job' : SessionDistillJob} {checkpoints checkpoints' : List DistillChunkCheckpoint}

theorem Within.unspent (holds : Within limit ⟨job, checkpoints⟩) (active : job.status.active = true) : job.recoveryCount < limit := by
  refine Nat.lt_of_le_of_ne holds.bounded fun spent => ?_
  have rest := (holds.spent spent).1
  dsimp only at rest
  rw [active] at rest
  cases rest

theorem Within.room (holds : Within limit ⟨job, checkpoints⟩) (identity : job'.identity = job.identity)
    (length : checkpoints'.length = checkpoints.length) : checkpoints'.length ≤ job'.expectedChunkCount := by
  have expected : job'.expectedChunkCount = job.expectedChunkCount := congrArg JobIdentity.expectedChunkCount identity
  rw [expected, length]
  exact holds.fits

theorem Within.same (holds : Within limit ⟨job, checkpoints⟩) (identity : job'.identity = job.identity)
    (count : job'.recoveryCount = job.recoveryCount) (allowed : job'.recoveryBudget = job.recoveryBudget) (status : job'.status = job.status) :
    Within limit ⟨job', checkpoints⟩ where
  fits := holds.room identity rfl
  budget := allowed.trans holds.budget
  bounded := count.trans_le holds.bounded
  spent spent := by
    dsimp only at spent ⊢
    rw [status]
    exact holds.spent (count.symm.trans spent)
  reviewing reviewing := holds.reviewing (status.symm.trans reviewing)

/-- A step of a job with recoveries left, on to a status other than the review. -/
theorem Within.left (holds : Within limit ⟨job, checkpoints⟩) (active : job.status.active = true) (identity : job'.identity = job.identity)
    (count : job'.recoveryCount = job.recoveryCount) (allowed : job'.recoveryBudget = job.recoveryBudget)
    (length : checkpoints'.length = checkpoints.length)
    (review : job'.status = .reviewing → ∀ checkpoint ∈ checkpoints', checkpoint.status ≠ .processing) : Within limit ⟨job', checkpoints'⟩ where
  fits := holds.room identity length
  budget := allowed.trans holds.budget
  bounded := count.trans_le holds.bounded
  spent spent := absurd (count.symm.trans spent) (Nat.ne_of_lt (holds.unspent active))
  reviewing := review

theorem Within.recovered (holds : Within limit ⟨job, checkpoints⟩) (positive : 1 ≤ limit) (identity : job'.identity = job.identity) (allowed : job'.recoveryBudget = limit)
    (spared : job'.recoveryExhausted = false) (length : checkpoints'.length = checkpoints.length)
    (review : job'.status = .reviewing → ∀ checkpoint ∈ checkpoints', checkpoint.status ≠ .processing) : Within limit ⟨job', checkpoints'⟩ := by
  have below : job'.recoveryCount < limit := by
    unfold SessionDistillJob.recoveryExhausted at spared
    rw [decide_eq_false_iff_not, allowed] at spared
    omega
  exact ⟨holds.room identity length, allowed, Nat.le_of_lt below, fun spent => absurd spent (Nat.ne_of_lt below), review⟩

/-- The recovery that spends the budget fails the job and leaves no chunk being read. -/
theorem Within.failed (holds : Within limit ⟨job, checkpoints⟩) (active : job.status.active = true) (identity : job'.identity = job.identity)
    (count : job'.recoveryCount = job.recoveryCount + 1) (allowed : job'.recoveryBudget = limit) (failed : job'.status = .failed)
    (length : checkpoints'.length = checkpoints.length) (settled : ∀ checkpoint ∈ checkpoints', checkpoint.status ≠ .processing) :
    Within limit ⟨job', checkpoints'⟩ where
  fits := holds.room identity length
  budget := allowed
  bounded := count.trans_le (holds.unspent active)
  spent _ := ⟨by dsimp only; rw [failed]; rfl, settled⟩
  reviewing _ := settled

theorem Within.closed (holds : Within limit ⟨job, checkpoints⟩) (identity : job'.identity = job.identity)
    (count : job'.recoveryCount = job.recoveryCount) (allowed : job'.recoveryBudget = job.recoveryBudget) (rest : job'.status.active = false) :
    Within limit ⟨job', checkpoints⟩ where
  fits := holds.room identity rfl
  budget := allowed.trans holds.budget
  bounded := count.trans_le holds.bounded
  spent spent := ⟨rest, (holds.spent (count.symm.trans spent)).2⟩
  reviewing reviewing := by
    dsimp only at reviewing
    rw [reviewing] at rest
    cases rest

theorem noted_budget {op : LedgerOp} {given : Option Int} (budget : job.recoveryBudget = limit) (handed : handsBudget op given)
    (constant : ∀ given, handsBudget op (some given) → max 1 given = limit) : given.elim job.recoveryBudget (max 1) = limit := by
  cases given with
  | none => exact budget
  | some given => exact constant given handed

theorem settled_of_complete (fits : checkpoints.length ≤ job.expectedChunkCount) (complete : completedOf checkpoints = job.expectedChunkCount) :
    ∀ checkpoint ∈ checkpoints, checkpoint.status ≠ .processing := by
  have all : completedOf checkpoints = checkpoints.length := Nat.le_antisymm List.countP_le_length (complete ▸ fits)
  intro checkpoint member processing
  rw [completedOf_eq_length all checkpoint member] at processing
  cases processing

theorem within_step {ledger : Ledger} {now : Time} {op : LedgerOp} {view view' : JobView} (positive : 1 ≤ limit)
    (constant : ∀ given, handsBudget op (some given) → max 1 given = limit) (step : JobStep hashes ledger now op view view')
    (holds : Within limit view) : Within limit view' := by
  have identity := step.identity
  have active_of_open : ∀ {status : DistillJobStatus}, status.terminal = false → status.active = true := by
    intro status open_
    rw [DistillJobStatus.terminal_eq_not_active] at open_
    simpa using open_
  cases step with
  | annotate same =>
    exact holds.same identity (congrArg Standing.recoveryCount same) (congrArg Standing.recoveryBudget same) (congrArg Standing.status same)
  | recheck | claimManual | renewReview | releaseReview => exact holds.same identity rfl rfl rfl
  | markStale active => exact holds.left active identity rfl rfl rfl nofun
  | place schedulable _ placed =>
    refine holds.left (active_of_open (SessionDistillJob.terminal_of_schedulable schedulable)) identity rfl rfl rfl ?_
    rcases placed with rfl | rfl <;> exact nofun
  | activate parked => exact holds.left (by rw [parked]; rfl) identity rfl rfl rfl nofun
  | leaseChunks _ _ open_ => exact holds.left (active_of_open open_) identity rfl rfl (List.length_map _) nofun
  | recover open_ _ handed spared =>
    exact holds.recovered positive identity (noted_budget holds.budget handed constant) spared (List.length_map _) nofun
  | recoverFailed open_ _ _ handed =>
    refine holds.failed (active_of_open open_) identity rfl (noted_budget holds.budget handed constant) rfl (List.length_map _) ?_
    intro checkpoint member
    obtain ⟨old, _, rfl⟩ := List.mem_map.mp member
    exact exhaustOpen_settled _ now
  | @completeChunk _ chunkId _ result job checkpoints checkpoint _ _ member _ processing =>
    have reading : job.status ≠ .reviewing := fun reviewing => holds.reviewing reviewing checkpoint member processing
    have unspent : job.recoveryCount ≠ limit := fun spent => (holds.spent spent).2 checkpoint member processing
    have length : (checkpoints.map fun checkpoint => if checkpoint.chunkId = chunkId then checkpoint.complete now result else checkpoint).length =
        checkpoints.length := List.length_map _
    generalize (checkpoints.map fun checkpoint => if checkpoint.chunkId = chunkId then checkpoint.complete now result else checkpoint) =
      written at identity length ⊢
    have fits := holds.room identity length
    unfold SessionDistillJob.countChunks at fits ⊢
    dsimp only at fits ⊢
    split
    · next complete =>
      rw [if_pos complete] at fits
      exact ⟨fits, holds.budget, holds.bounded, fun spent => absurd spent unspent, fun _ => settled_of_complete fits complete⟩
    · next incomplete =>
      rw [if_neg incomplete] at fits
      exact ⟨fits, holds.budget, holds.bounded, fun spent => absurd spent unspent, fun reviewing => absurd reviewing reading⟩
  | @advance _ job checkpoints open_ complete =>
    exact holds.left (active_of_open open_) identity rfl rfl rfl fun _ => settled_of_complete holds.fits complete
  | loseWorker processing handed spared =>
    exact holds.recovered positive identity (noted_budget holds.budget handed constant) spared rfl nofun
  | loseWorkerFailed processing _ handed =>
    refine holds.failed (by rw [processing]; rfl) identity rfl (noted_budget holds.budget handed constant) rfl (List.length_map _) ?_
    intro checkpoint member
    obtain ⟨old, _, rfl⟩ := List.mem_map.mp member
    exact exhaustOpen_settled _ now
  | @grantReview _ owner _ _ _ job _ _ _ reviewing _ _ spared =>
    by_cases other : job.ownedByOther owner = true
    · simp only [other, if_true] at identity ⊢
      exact holds.recovered positive identity holds.budget (spared other) rfl fun _ => holds.reviewing reviewing
    · simp only [other, if_false, Bool.false_eq_true] at identity ⊢
      exact holds.same identity rfl rfl rfl
  | failReview _ reviewing =>
    exact holds.failed (by rw [reviewing]; rfl) identity rfl holds.budget rfl rfl (holds.reviewing reviewing)
  | staleAtFinalize | finalize => exact holds.closed identity rfl rfl rfl
  | defer _ open_ => exact holds.left (active_of_open open_) identity rfl rfl (List.length_map _) nofun
  | prune =>
    have same := holds.same identity rfl rfl rfl
    exact ⟨Nat.zero_le _, same.budget, same.bounded, fun spent => ⟨(same.spent spent).1, fun _ impossible => absurd impossible List.not_mem_nil⟩,
      fun _ _ impossible => absurd impossible List.not_mem_nil⟩

end within

theorem within_inductive {limit : Nat} (positive : 1 ≤ limit) :
    Inductive hashes (ConstantBudget hashes limit) fun _ => Within limit where
  aged := fun _ _ _ _ holds => holds
  stepped := fun _ _ _ _ constant _ step holds => within_step positive constant.handed step holds

theorem within_created {limit : Nat} (positive : 1 ≤ limit) {world : World} {event : Event} {view : JobView}
    (constant : ConstantBudget hashes limit world event) (created : Created hashes world.ledger event.time event.op view) : Within limit view := by
  have budget := constant.created view created
  obtain ⟨time, op⟩ := event
  cases created with
  | enqueue accepted =>
    exact ⟨(List.length_map _).le, budget, Nat.zero_le _, fun spent => absurd spent (Nat.ne_of_lt positive), nofun⟩

/-- A second `reconcile` at an instant is idle; and while the budget is the same for all, a job recovers
at most that often, each time for a reason, and rests once it has. -/
theorem reconcile_bounded (hashes : Hashes) :
    (∀ (ledger : Ledger) (projectName : Option String) (budget : Option Int) (manualJobIds jobIds : Option (List String)) (now : Time),
      ∃ inspected, (ledger.reconcile projectName budget manualJobIds jobIds now).2.reconcile projectName budget manualJobIds jobIds now =
        ({ inspected }, (ledger.reconcile projectName budget manualJobIds jobIds now).2)) ∧
      ∀ (limit : Nat), 1 ≤ limit → ∀ (start final : World) (events : List Event),
        Exec (Restrict (Step hashes) (ConstantBudget hashes limit)) start events final →
        Integrity hashes start.ledger → EveryJob (fun _ => Within limit) start →
          (∀ jobId view, final.ledger.view jobId = some view →
            view.job.recoveryCount ≤ limit ∧ (view.job.recoveryCount = limit → view.job.status.active = false)) ∧
          ∀ event after, Step hashes final event after →
            ∀ jobId view view', final.ledger.view jobId = some view → after.ledger.view jobId = some view' →
              Counted (RecoveryEvent event.time event.op view) view view' := by
  refine ⟨fun ledger _ _ _ _ _ => reconcile_again ledger, fun limit positive start final events run sound within => ⟨?_, ?_⟩⟩
  · intro jobId view viewed
    have holds := exec_everyJob (within_inductive positive) (fun _ _ _ => within_created positive) run sound within jobId view viewed
    exact ⟨holds.bounded, fun spent => (holds.spent spent).1⟩
  · intro event after step jobId view view' viewed viewed'
    exact step_counted (exec_integrity run.unguarded sound) step viewed viewed'

/-- Three lost reviews spend the budget new jobs have. -/
theorem reconcile_bounded_exhausted :
    ∃ view, (World.initial.after .spelled exhaustedEvents).ledger.view (sampleJob .spelled "s" ["a"]) = some view ∧
      view.job.recoveryCount = 3 ∧ view.job.status.active = false := by
  have run : Exec (Restrict (Step .spelled) (ConstantBudget .spelled 3)) .initial exhaustedEvents
      (World.initial.after .spelled exhaustedEvents) := by
    have unhanded : ∀ event ∈ exhaustedEvents, ∀ given, ¬handsBudget event.op (some given) := by
      simp [exhaustedEvents, handsBudget, sampleCapture, sampleEnqueue, sampleClaim]
    refine Exec.mono (fun world event next edge => ⟨edge.1, ⟨fun given handed => absurd handed (edge.2 given), ?_⟩⟩)
      (Exec.restrict (exec_after (by decide)) unhanded)
    intro view created
    obtain ⟨time, op⟩ := event
    cases created
    rfl
  have count : ((World.initial.after .spelled exhaustedEvents).ledger.view (sampleJob .spelled "s" ["a"])).map
      (fun view => view.job.recoveryCount) = some 3 := by decide
  obtain ⟨view, viewed, spent⟩ := Option.map_eq_some_iff.mp count
  exact ⟨view, viewed, spent, (((reconcile_bounded .spelled).2 3 (by decide) _ _ _ run .empty (everyJob_initial _)).1 _ view viewed).2 spent⟩

end HarnessMem.Lifecycle
