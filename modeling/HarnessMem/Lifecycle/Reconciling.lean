import HarnessMem.Lifecycle.Runs

/-! What one pass of `reconcile` makes of each job. A second pass at the same instant finds
nothing left to do.
-/

set_option autoImplicit false

namespace HarnessMem.Lifecycle

open Storage Library

variable {now : Time} {budget : Option Int}

def Idle (now : Time) (view : JobView) : Prop :=
  view.job.status.terminal = true ∨
    ((∀ checkpoint ∈ view.checkpoints, checkpoint.leaseExpired now = false) ∧
      if completedOf view.checkpoints = view.job.expectedChunkCount ∧ 0 < view.job.expectedChunkCount then
        (view.job.status = .retryable ∧ view.job.waitsForRetry now = true) ∨
          (view.job.status = .reviewing ∧ view.job.advance now (completedOf view.checkpoints) = view.job)
      else
        view.job.status = .processing →
          (view.checkpoints.any fun checkpoint => checkpoint.leaseLive now) = true ∨
            (view.checkpoints.any fun checkpoint => checkpoint.claimable) = false)

variable {ledger : Ledger} {job : SessionDistillJob}

theorem setJob_self (found : ledger.getJob job.id = some job) : ledger.setJob job = ledger := by
  have jobs : ledger.jobs.upsert job = ledger.jobs := by
    apply Table.eq_of_rows
    rw [Table.rows_upsert_known found]
    conv_rhs => rw [← List.map_id ledger.jobs.rows]
    refine List.map_congr_left fun other member => ?_
    split
    · next same => exact (ledger.jobs.eq_of_key member (Table.mem_of_get? found) same).symm
    · rfl
  unfold Ledger.setJob
  rw [jobs]

theorem idle_turn {ledger : Ledger} {job : SessionDistillJob} (found : ledger.getJob job.id = some job)
    (settled : Idle now ⟨job, ledger.checkpointsOf job.id⟩) :
    ledger.reconcileJob job now budget = ({ inspected := 1 }, ledger) := by
  unfold Ledger.reconcileJob
  rcases settled with terminal | ⟨unexpired, rest⟩
  · exact if_pos terminal
  · by_cases terminal : job.status.terminal = true
    · exact if_pos terminal
    · rw [if_neg terminal]
      have none : ledger.recoverExpiredCheckpointsLocked job now budget = none := by
        unfold Ledger.recoverExpiredCheckpointsLocked
        refine if_neg fun any => ?_
        obtain ⟨checkpoint, member, expired⟩ := List.any_eq_true.mp any
        rw [unexpired checkpoint member] at expired
        cases expired
      rw [none]
      dsimp only
      have idle : ledger.settleJob job false now budget = ({}, ledger) := by
        unfold Ledger.settleJob
        dsimp only
        rw [if_neg terminal]
        change (if completedOf (ledger.checkpointsOf job.id) = job.expectedChunkCount ∧ 0 < job.expectedChunkCount then _ else _) = _
        dsimp only at rest
        split
        · next complete =>
          rw [if_pos complete] at rest
          rcases rest with waiting | ⟨reviewing, advanced⟩
          · exact if_pos waiting
          · have other : ¬(job.status = .retryable ∧ job.waitsForRetry now = true) := fun both => by
              rw [reviewing] at both
              cases both.1
            rw [if_neg other, if_pos reviewing]
            exact Prod.ext rfl ((congrArg ledger.setJob advanced).trans (setJob_self found))
        · next incomplete =>
          rw [if_neg incomplete] at rest
          split
          · next processing =>
            refine if_neg fun lost => ?_
            rcases rest processing with live | none
            · simp [live] at lost
            · simp [none] at lost
          · rfl
      rw [idle]
      rfl

/-! ### One turn -/

/-- What a turn counts as a recovery: an expired lease, or a processing job that no live lease reads
although chunks are open. -/
def Lapsed (now : Time) (view : JobView) : Prop :=
  (∃ checkpoint ∈ view.checkpoints, checkpoint.leaseExpired now = true) ∨
    (view.job.status = .processing ∧ (view.checkpoints.any fun checkpoint => checkpoint.leaseLive now) = false ∧
      (view.checkpoints.any fun checkpoint => checkpoint.claimable) = true)

def Counted (reason : Prop) (before after : JobView) : Prop :=
  after.job.recoveryCount = before.job.recoveryCount ∨ (after.job.recoveryCount = before.job.recoveryCount + 1 ∧ reason)

structure Turned (now : Time) (before after : JobView) : Prop where
  idle : Idle now after
  counted : Counted (Lapsed now before) before after

theorem idle_waiting {checkpoints : List DistillChunkCheckpoint}
    (unexpired : ∀ checkpoint ∈ checkpoints, checkpoint.leaseExpired now = false) (retryable : job.status = .retryable)
    (waits : job.waitsForRetry now = true) : Idle now ⟨job, checkpoints⟩ := by
  refine .inr ⟨unexpired, ?_⟩
  split
  · exact .inl ⟨retryable, waits⟩
  · intro processing
    dsimp only at processing
    rw [retryable] at processing
    cases processing

theorem recoverExpired_unexpired (checkpoint : DistillChunkCheckpoint) (now : Time) :
    (checkpoint.recoverExpired now).leaseExpired now = false := by
  unfold DistillChunkCheckpoint.recoverExpired
  split
  · rfl
  · next unexpired => exact Bool.eq_false_of_not_eq_true unexpired

theorem recoverExpired_turned {next : Ledger} {recovered : SessionDistillJob}
    (ran : ledger.recoverExpiredCheckpointsLocked job now budget = some (recovered, next)) :
    ∃ view, next.view job.id = some view ∧ Turned now ⟨job, ledger.checkpointsOf job.id⟩ view := by
  unfold Ledger.recoverExpiredCheckpointsLocked at ran
  split at ran
  · next any =>
    have lapsed : Lapsed now ⟨job, ledger.checkpointsOf job.id⟩ := .inl (List.any_eq_true.mp any)
    dsimp only at ran
    split at ran
    · cases ran
      exact ⟨_, Ledger.view_setJob_self, .inl rfl, .inr ⟨rfl, lapsed⟩⟩
    · cases ran
      refine ⟨_, Ledger.view_setJob_self, idle_waiting ?_ rfl (SessionDistillJob.waits_retryLater _ now), .inr ⟨rfl, lapsed⟩⟩
      have own : ((job.noteRecovery now budget "expired_chunk_lease").retryLater now).id = job.id := rfl
      rw [Ledger.checkpointsOf_updateCheckpoints, if_pos own]
      intro checkpoint member
      obtain ⟨old, _, rfl⟩ := List.mem_map.mp member
      exact recoverExpired_unexpired old now
  · cases ran

theorem advance_advance (job : SessionDistillJob) (count : Nat) : (job.advance now count).advance now count = job.advance now count := rfl

theorem settleJob_turned (found : ledger.getJob job.id = some job)
    (unexpired : ∀ checkpoint ∈ ledger.checkpointsOf job.id, checkpoint.leaseExpired now = false) :
    ∃ view, (ledger.settleJob job false now budget).2.view job.id = some view ∧ Turned now ⟨job, ledger.checkpointsOf job.id⟩ view := by
  have viewed := Ledger.view_of_getJob found
  have counted : completedOf (ledger.checkpointsOf job.id) = (ledger.checkpointsOf job.id).countP fun checkpoint => checkpoint.status = .completed := rfl
  unfold Ledger.settleJob
  dsimp only
  rw [← counted]
  split
  · next terminal => exact ⟨_, viewed, .inl terminal, .inl rfl⟩
  · split
    · next complete =>
      split
      · next waiting => exact ⟨_, viewed, .inr ⟨unexpired, by rw [if_pos complete]; exact .inl waiting⟩, .inl rfl⟩
      · refine ⟨_, Ledger.view_setJob_self, .inr ⟨unexpired, ?_⟩, .inl rfl⟩
        have same : completedOf (ledger.checkpointsOf job.id) = (job.advance now (completedOf (ledger.checkpointsOf job.id))).expectedChunkCount ∧
            0 < (job.advance now (completedOf (ledger.checkpointsOf job.id))).expectedChunkCount := complete
        exact (if_pos same).mpr (.inr ⟨rfl, advance_advance job _⟩)
    · next incomplete =>
      split
      · next processing =>
        split
        · next lost =>
          simp only [Bool.not_false, Bool.and_true, Bool.and_eq_true, Bool.not_eq_true'] at lost
          have lapsed : Lapsed now ⟨job, ledger.checkpointsOf job.id⟩ := .inr ⟨processing, lost.1, lost.2⟩
          split
          · exact ⟨_, Ledger.view_setJob_self, .inl rfl, .inr ⟨rfl, lapsed⟩⟩
          · exact ⟨_, Ledger.view_setJob_self, idle_waiting unexpired rfl (SessionDistillJob.waits_retryLater _ now), .inr ⟨rfl, lapsed⟩⟩
        · next held =>
          refine ⟨_, viewed, .inr ⟨unexpired, ?_⟩, .inl rfl⟩
          rw [if_neg incomplete]
          intro _
          simp only [Bool.not_false, Bool.and_true, Bool.and_eq_true, Bool.not_eq_true', not_and, Bool.not_eq_true] at held
          exact or_iff_not_imp_left.mpr fun dead => held (Bool.eq_false_of_not_eq_true dead)
      · next idle =>
        refine ⟨_, viewed, .inr ⟨unexpired, ?_⟩, .inl rfl⟩
        rw [if_neg incomplete]
        exact fun processing => absurd processing idle

theorem reconcileJob_turned (found : ledger.getJob job.id = some job) :
    ∃ view, (ledger.reconcileJob job now budget).2.view job.id = some view ∧ Turned now ⟨job, ledger.checkpointsOf job.id⟩ view := by
  unfold Ledger.reconcileJob
  split
  · next terminal => exact ⟨_, Ledger.view_of_getJob found, .inl terminal, .inl rfl⟩
  · split
    · next none => exact settleJob_turned found (recoverExpired_none none)
    · next recovered taken ran =>
      dsimp only
      rw [settleJob_recovered ran]
      exact recoverExpired_turned ran

/-! ### A whole pass -/

variable {jobId : String}

theorem recoverExpired_view {next : Ledger} {recovered : SessionDistillJob}
    (ran : ledger.recoverExpiredCheckpointsLocked job now budget = some (recovered, next)) (other : job.id ≠ jobId) :
    next.view jobId = ledger.view jobId := by
  unfold Ledger.recoverExpiredCheckpointsLocked at ran
  split at ran
  · dsimp only at ran
    split at ran
    all_goals
      cases ran
      refine (Ledger.view_setJob_other ?_).trans (Ledger.view_updateCheckpoints_other other)
      exact other
  · cases ran

theorem settleJob_view {expired : Bool} (other : job.id ≠ jobId) :
    (ledger.settleJob job expired now budget).2.view jobId = ledger.view jobId := by
  unfold Ledger.settleJob
  dsimp only
  split
  · rfl
  · split
    · split
      · rfl
      · exact Ledger.view_setJob_other other
    · split
      · split
        · split
          · refine (Ledger.view_setJob_other ?_).trans (Ledger.view_updateCheckpoints_other other)
            exact other
          · exact Ledger.view_setJob_other other
        · rfl
      · rfl

theorem reconcileJob_view (other : job.id ≠ jobId) :
    (ledger.reconcileJob job now budget).2.view jobId = ledger.view jobId := by
  unfold Ledger.reconcileJob
  split
  · rfl
  · split
    · exact settleJob_view other
    · next recovered taken ran =>
      dsimp only
      rw [settleJob_recovered ran]
      exact recoverExpired_view ran other

/-- The loop of `reconcile` over rows it has read. -/
abbrev reconcileJobs (now : Time) (budget : Option Int) (jobs : List SessionDistillJob) (start : Ledger.ReconcileSummary × Ledger) :
    Ledger.ReconcileSummary × Ledger :=
  jobs.foldl (fun (summary, ledger) job =>
    let (turn, next) := ledger.reconcileJob job now budget
    (summary.add turn, next)) start

theorem reconcileJobs_turned {jobs : List SessionDistillJob} (distinct : (jobs.map (·.id)).Nodup) (summary : Ledger.ReconcileSummary)
    (ledger : Ledger) (stored : ∀ job ∈ jobs, ledger.getJob job.id = some job) :
    (∀ job ∈ jobs, ∃ view, (reconcileJobs now budget jobs (summary, ledger)).2.view job.id = some view ∧
      Turned now ⟨job, ledger.checkpointsOf job.id⟩ view) ∧
      ∀ jobId, jobId ∉ jobs.map (·.id) → (reconcileJobs now budget jobs (summary, ledger)).2.view jobId = ledger.view jobId := by
  induction jobs generalizing summary ledger with
  | nil => exact ⟨fun _ member => absurd member List.not_mem_nil, fun _ _ => rfl⟩
  | cons job rest ih =>
    rw [List.map_cons, List.nodup_cons] at distinct
    have others : ∀ other ∈ rest, job.id ≠ other.id := fun other member same => distinct.1 (same ▸ List.mem_map_of_mem member)
    have kept : ∀ other ∈ rest, (ledger.reconcileJob job now budget).2.view other.id = some ⟨other, ledger.checkpointsOf other.id⟩ :=
      fun other member => (reconcileJob_view (others other member)).trans
        (Ledger.view_of_getJob (stored other (List.mem_cons_of_mem _ member)))
    obtain ⟨turned, rest_kept⟩ := ih distinct.2 (summary.add (ledger.reconcileJob job now budget).1) (ledger.reconcileJob job now budget).2
      fun other member => (Ledger.view_eq_some.mp (kept other member)).1
    constructor
    · intro other member
      rcases List.mem_cons.mp member with rfl | later
      · obtain ⟨view, viewed, turn⟩ := reconcileJob_turned (stored other (List.mem_cons_self ..))
        exact ⟨view, (rest_kept other.id distinct.1).trans viewed, turn⟩
      · obtain ⟨view, viewed, turn⟩ := turned other later
        rw [(Ledger.view_eq_some.mp (kept other later)).2] at turn
        exact ⟨view, viewed, turn⟩
    · intro jobId absent
      rw [List.map_cons, List.mem_cons, not_or] at absent
      exact (rest_kept jobId absent.2).trans (reconcileJob_view fun same => absent.1 same.symm)

theorem idle_pass {jobs : List SessionDistillJob} (summary : Ledger.ReconcileSummary) (ledger : Ledger)
    (settled : ∀ job ∈ jobs, ledger.getJob job.id = some job ∧ Idle now ⟨job, ledger.checkpointsOf job.id⟩) :
    reconcileJobs now budget jobs (summary, ledger) = (summary.add { inspected := jobs.length }, ledger) := by
  induction jobs generalizing summary with
  | nil => rfl
  | cons job rest ih =>
    obtain ⟨found, idle⟩ := settled job (List.mem_cons_self ..)
    have turn := @idle_turn now budget ledger job found idle
    have head : reconcileJobs now budget (job :: rest) (summary, ledger) =
        reconcileJobs now budget rest (summary.add { inspected := 1 }, ledger) := by
      show reconcileJobs now budget rest
        (summary.add (ledger.reconcileJob job now budget).1, (ledger.reconcileJob job now budget).2) = _
      rw [turn]
    have onward := ih (summary.add { inspected := 1 }) fun other member => settled other (List.mem_cons_of_mem _ member)
    rw [head, onward, List.length_cons]
    simp only [Ledger.ReconcileSummary.add, Prod.mk.injEq, and_true]
    congr 1
    omega

section pass

variable {projectName : Option String} {manualJobIds jobIds : Option (List String)}

theorem reconcile_turned (ledger : Ledger) {jobId : String} {view : JobView} (viewed : ledger.view jobId = some view) :
    ∃ after, (ledger.reconcile projectName budget manualJobIds jobIds now).2.view jobId = some after ∧
      if Ledger.reconciled projectName manualJobIds jobIds view.job = true then Turned now view after else after = view := by
  obtain ⟨found, listed⟩ := Ledger.view_eq_some.mp viewed
  have own := Ledger.id_of_getJob found
  have stored := Table.mem_of_get? found
  obtain ⟨turned, kept⟩ := @reconcileJobs_turned now budget (ledger.jobs.rows.filter (Ledger.reconciled projectName manualJobIds jobIds))
    ((List.filter_sublist.map _).nodup ledger.jobs.nodup) {} ledger
    fun job member => Table.get?_of_mem (List.mem_filter.mp member).1
  by_cases looked : Ledger.reconciled projectName manualJobIds jobIds view.job = true
  · obtain ⟨after, viewed', turn⟩ := turned view.job (List.mem_filter.mpr ⟨stored, looked⟩)
    rw [own] at viewed' turn
    rw [listed] at turn
    refine ⟨after, viewed', ?_⟩
    rwa [if_pos looked]
  · refine ⟨view, (kept jobId fun member => ?_).trans viewed, ?_⟩
    · obtain ⟨job, among, same⟩ := List.mem_map.mp member
      obtain ⟨present, holds⟩ := List.mem_filter.mp among
      exact looked (ledger.jobs.eq_of_key present stored (same.trans own.symm) ▸ holds)
    · rw [if_neg looked]

theorem reconcile_again (ledger : Ledger) :
    ∃ inspected, (ledger.reconcile projectName budget manualJobIds jobIds now).2.reconcile projectName budget manualJobIds jobIds now =
      ({ inspected }, (ledger.reconcile projectName budget manualJobIds jobIds now).2) := by
  have turned := @reconcile_turned now budget projectName manualJobIds jobIds ledger
  have kept : ∀ jobId, ((ledger.reconcile projectName budget manualJobIds jobIds now).2.getJob jobId).isSome = (ledger.getJob jobId).isSome :=
    (reconcile_moves rfl :
      Moves .spelled ledger now (.reconcile projectName budget manualJobIds jobIds) ledger _).shape.getJob_isSome
  generalize ledger.reconcile projectName budget manualJobIds jobIds now = first at turned kept ⊢
  refine ⟨_, idle_pass {} first.2 fun job member => ?_⟩
  obtain ⟨present, looked⟩ := List.mem_filter.mp member
  have found : first.2.getJob job.id = some job := Table.get?_of_mem present
  have before : (ledger.getJob job.id).isSome = true := by
    rw [← kept, found]
    rfl
  obtain ⟨old, known⟩ := Option.isSome_iff_exists.mp before
  obtain ⟨after, viewed, turn⟩ := turned (Ledger.view_of_getJob known)
  have same : after = ⟨job, first.2.checkpointsOf job.id⟩ := Option.some.inj (viewed.symm.trans (Ledger.view_of_getJob found))
  refine ⟨found, ?_⟩
  split at turn
  · exact same ▸ turn.idle
  · next unlooked =>
    rw [same] at turn
    have equal : job = old := congrArg JobView.job turn
    exact absurd (equal ▸ looked) unlooked

end pass

end HarnessMem.Lifecycle
