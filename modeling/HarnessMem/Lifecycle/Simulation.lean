import HarnessMem.Lifecycle.Transition

/-! Every writing call moves each job of the ledger by job steps. The queue calls
rewrite rows in place; an enqueue may add one job, a hard delete may drop some.
-/

set_option autoImplicit false

namespace HarnessMem.Lifecycle

open Storage Library Relation

/-! ### Rewriting rows in place -/

/-- The rows keep their shape and every job moves by the relation. -/
structure Updates (rel : JobView → JobView → Prop) (before after : Ledger) : Prop where
  shape : SameShape before after
  moves : ∀ jobId view, before.view jobId = some view → ∃ view', after.view jobId = some view' ∧ rel view view'

namespace Updates

variable {rel : JobView → JobView → Prop}

theorem refl (same : ∀ view, rel view view) (ledger : Ledger) : Updates rel ledger ledger :=
  ⟨.refl ledger, fun _ view viewed => ⟨view, viewed, same view⟩⟩

theorem trans (compose : ∀ first second third, rel first second → rel second third → rel first third)
    {first second third : Ledger} (left : Updates rel first second) (right : Updates rel second third) :
    Updates rel first third where
  shape := left.shape.trans right.shape
  moves := by
    intro jobId view viewed
    obtain ⟨middle, viewed', moved⟩ := left.moves jobId view viewed
    obtain ⟨final, viewed'', moved'⟩ := right.moves jobId middle viewed'
    exact ⟨final, viewed'', compose _ _ _ moved moved'⟩

variable {ledger : Ledger}

theorem rewrite (same : ∀ view, rel view view) {jobId : String} {old job : SessionDistillJob}
    {change : DistillChunkCheckpoint → DistillChunkCheckpoint}
    {key : ∀ checkpoint, (change checkpoint).key = checkpoint.key} (found : ledger.getJob jobId = some old)
    (identity : job.identity = old.identity)
    (moved : rel ⟨old, ledger.checkpointsOf jobId⟩ ⟨job, (ledger.checkpointsOf jobId).map change⟩) :
    Updates rel ledger ((ledger.updateCheckpoints jobId change key).setJob job) := by
  have old_id : old.id = jobId := Ledger.id_of_getJob found
  have job_id : job.id = jobId := (congrArg JobIdentity.id identity).trans old_id
  refine ⟨?_, ?_⟩
  · refine (SameShape.updateCheckpoints ledger jobId change key).trans (SameShape.setJob ?_ identity)
    rw [Ledger.getJob_updateCheckpoints, old_id]
    exact found
  · intro other view viewed
    by_cases mine : other = jobId
    · subst mine
      obtain ⟨known, listed⟩ := Ledger.view_eq_some.mp viewed
      refine ⟨⟨job, (ledger.checkpointsOf other).map change⟩, ?_, ?_⟩
      · rw [← job_id, Ledger.view_setJob_self, Ledger.checkpointsOf_updateCheckpoints, if_pos rfl]
      · have job_eq : view.job = old := Option.some.inj (known.symm.trans found)
        rw [← job_eq, listed] at moved
        rwa [listed]
    · refine ⟨view, ?_, same view⟩
      rw [Ledger.view_setJob_other fun clash => mine (clash.symm.trans job_id),
        Ledger.view_updateCheckpoints_other (Ne.symm mine)]
      exact viewed

theorem setJob (same : ∀ view, rel view view) {jobId : String} {old job : SessionDistillJob}
    (found : ledger.getJob jobId = some old) (identity : job.identity = old.identity)
    (moved : rel ⟨old, ledger.checkpointsOf jobId⟩ ⟨job, ledger.checkpointsOf jobId⟩) :
    Updates rel ledger (ledger.setJob job) := by
  have old_id : old.id = jobId := Ledger.id_of_getJob found
  have job_id : job.id = jobId := (congrArg JobIdentity.id identity).trans old_id
  refine ⟨SameShape.setJob (old_id.symm ▸ found) identity, ?_⟩
  intro other view viewed
  by_cases mine : other = jobId
  · subst mine
    obtain ⟨known, listed⟩ := Ledger.view_eq_some.mp viewed
    refine ⟨⟨job, ledger.checkpointsOf other⟩, ?_, ?_⟩
    · rw [← job_id, Ledger.view_setJob_self]
    · have job_eq : view.job = old := Option.some.inj (known.symm.trans found)
      rw [← job_eq, listed] at moved
      rwa [listed]
  · refine ⟨view, ?_, same view⟩
    rw [Ledger.view_setJob_other fun clash => mine (clash.symm.trans job_id)]
    exact viewed

theorem mapJobs {change : SessionDistillJob → SessionDistillJob}
    {key : ∀ job, (change job).id = job.id}
    (identity : ∀ job ∈ ledger.jobs.rows, (change job).identity = job.identity)
    (moved : ∀ job ∈ ledger.jobs.rows, ∀ checkpoints, rel ⟨job, checkpoints⟩ ⟨change job, checkpoints⟩) :
    Updates rel ledger { ledger with jobs := ledger.jobs.mapRows change key } := by
  refine ⟨SameShape.mapJobs ledger change key identity, ?_⟩
  intro jobId view viewed
  obtain ⟨known, listed⟩ := Ledger.view_eq_some.mp viewed
  refine ⟨⟨change view.job, view.checkpoints⟩, ?_, moved view.job (Table.mem_of_get? known) view.checkpoints⟩
  refine Ledger.view_eq_some.mpr ⟨?_, listed⟩
  have mapped := Table.get?_mapRows ledger.jobs change key jobId
  rw [show ledger.jobs.get? jobId = some view.job from known] at mapped
  exact mapped

end Updates

/-! ### The queue calls -/

section Calls

variable {hashes : Hashes} {ledger : Ledger} {now : Time} {op : LedgerOp}

/-- Ledgers a call passes through: rows rewritten in place, each job moved by job steps. -/
abbrev Moves (hashes : Hashes) (ledger : Ledger) (now : Time) (op : LedgerOp) (before after : Ledger) : Prop :=
  Updates (JobSteps hashes ledger now op) before after

theorem Moves.refl (current : Ledger) : Moves hashes ledger now op current current :=
  Updates.refl (fun _ => .refl) current

theorem Moves.trans {first second third : Ledger} (left : Moves hashes ledger now op first second)
    (right : Moves hashes ledger now op second third) : Moves hashes ledger now op first third :=
  Updates.trans (fun _ _ _ => ReflTransGen.trans) left right

variable {current : Ledger} {jobId : String} {old job : SessionDistillJob}

theorem Moves.setJob (found : current.getJob jobId = some old)
    (step : JobStep hashes ledger now op ⟨old, current.checkpointsOf jobId⟩ ⟨job, current.checkpointsOf jobId⟩) :
    Moves hashes ledger now op current (current.setJob job) :=
  Updates.setJob (fun _ => .refl) found step.identity (.single step)

theorem Moves.rewrite {change : DistillChunkCheckpoint → DistillChunkCheckpoint}
    {key : ∀ checkpoint, (change checkpoint).key = checkpoint.key} (found : current.getJob jobId = some old)
    (step : JobStep hashes ledger now op ⟨old, current.checkpointsOf jobId⟩
      ⟨job, (current.checkpointsOf jobId).map change⟩) :
    Moves hashes ledger now op current ((current.updateCheckpoints jobId change key).setJob job) :=
  Updates.rewrite (fun _ => .refl) found step.identity (.single step)

theorem Moves.mapJobs {change : SessionDistillJob → SessionDistillJob}
    {key : ∀ job, (change job).id = job.id}
    (moved : ∀ job ∈ current.jobs.rows, ∀ checkpoints,
      JobSteps hashes ledger now op ⟨job, checkpoints⟩ ⟨change job, checkpoints⟩) :
    Moves hashes ledger now op current { current with jobs := current.jobs.mapRows change key } :=
  Updates.mapJobs (fun job member => (moved job member []).identity) moved

variable {owner : String} {leaseSeconds : Int} {next : Ledger}

theorem claimReview_moves {source : String} {frozen : Except StoreError Bool}
    {granted : Option SessionDistillJob}
    (ran : ledger.claimReview jobId owner source leaseSeconds frozen now = .ok (granted, next)) :
    Moves hashes ledger now (.claimReview jobId owner source leaseSeconds frozen) ledger next := by
  have returned := ran
  unfold Ledger.claimReview at ran
  cases found : ledger.getJob jobId with
  | none => simp [found] at ran
  | some job =>
    have mine : job.id = jobId := Ledger.id_of_getJob found
    simp only [found] at ran
    split at ran
    · cases ran
    · cases ran
      exact .refl _
    · next admitted =>
      split at ran
      · cases ran
        exact .refl _
      · next reviewing =>
        rw [ne_eq, not_not] at reviewing
        split at ran
        · cases ran
          exact .refl _
        · next free =>
          rw [Bool.and_eq_true, not_and_or, Bool.not_eq_true, Bool.not_eq_true] at free
          by_cases other : job.ownedByOther owner
          · simp only [other, if_true, Bool.true_and] at ran
            split at ran
            · next exhausted =>
              cases ran
              exact Moves.setJob found (.failReview mine reviewing (by simpa [other] using free) exhausted)
            · next spared =>
              cases ran
              have grant : JobStep hashes ledger now (.claimReview jobId owner source leaseSeconds frozen)
                ⟨job, ledger.checkpointsOf jobId⟩ _ :=
                .grantReview mine admitted reviewing free ⟨_, _, returned⟩ fun _ => Bool.eq_false_of_not_eq_true spared
              rw [if_pos other] at grant
              exact Moves.setJob found grant
          · simp only [other, Bool.false_and, Bool.false_eq_true, if_false] at ran
            cases ran
            have grant : JobStep hashes ledger now (.claimReview jobId owner source leaseSeconds frozen)
              ⟨job, ledger.checkpointsOf jobId⟩ _ :=
              .grantReview mine admitted reviewing free ⟨_, _, returned⟩ fun owned => absurd owned other
            rw [if_neg other] at grant
            exact Moves.setJob found grant

theorem renewReviewLease_moves :
    Moves hashes ledger now (.renewReviewLease jobId owner leaseSeconds) ledger
      (ledger.renewReviewLease jobId owner leaseSeconds now).2 := by
  cases ran : ledger.renewReviewLease jobId owner leaseSeconds now with
  | mk granted next =>
    have returned := ran
    unfold Ledger.renewReviewLease at ran
    cases found : ledger.getJob jobId with
    | none =>
      simp only [found] at ran
      cases ran
      exact .refl _
    | some job =>
      simp only [found] at ran
      split at ran
      · cases ran
        exact .refl _
      · next admitted =>
        simp only [not_or, ne_eq, not_not, Bool.not_eq_true', Bool.not_eq_false] at admitted
        cases ran
        exact Moves.setJob found (.renewReview (Ledger.id_of_getJob found) admitted.1 admitted.2.1 admitted.2.2
          (congrArg Prod.fst returned))

theorem releaseReviewLease_moves :
    Moves hashes ledger now (.releaseReviewLease jobId owner) ledger
      (ledger.releaseReviewLease jobId owner now).2 := by
  cases ran : ledger.releaseReviewLease jobId owner now with
  | mk granted next =>
    have returned := ran
    unfold Ledger.releaseReviewLease at ran
    cases found : ledger.getJob jobId with
    | none =>
      simp only [found] at ran
      cases ran
      exact .refl _
    | some job =>
      simp only [found] at ran
      split at ran
      · cases ran
        exact .refl _
      · next owned =>
        cases ran
        exact Moves.setJob found (.releaseReview (Ledger.id_of_getJob found) (not_not.mp owned)
          (congrArg Prod.fst returned))

theorem finalize_moves {review : Dict} {outputs : List String} {owner : Option String}
    (ran : ledger.finalize hashes jobId review outputs owner now = .ok (job, next)) :
    Moves hashes ledger now (.finalize jobId review outputs owner) ledger next := by
  have returned := ran
  unfold Ledger.finalize at ran
  cases found : ledger.getJob jobId with
  | none => simp [found] at ran
  | some old =>
    simp only [found] at ran
    split at ran
    · cases ran
      exact .refl _
    · next unfinished =>
      split at ran
      · cases ran
      · next admitted =>
        split at ran
        · cases ran
        · next source pointed =>
          split at ran
          · cases ran
            exact Moves.setJob found
              (.staleAtFinalize (Ledger.id_of_getJob found) unfinished admitted ⟨_, returned⟩)
          · next current =>
            split at ran
            · cases ran
            · next complete =>
              split at ran
              · cases ran
              · next text read =>
                cases ran
                exact Moves.setJob found (.finalize (Ledger.view_of_getJob found) unfinished admitted
                  ⟨source, pointed, not_not.mp current⟩ (not_not.mp complete) read ⟨_, returned⟩)

theorem deferJob_moves {error : String}
    (ran : ledger.deferJob jobId error now = .ok (job, next)) :
    Moves hashes ledger now (.deferJob jobId error) ledger next := by
  have returned := ran
  unfold Ledger.deferJob at ran
  cases found : ledger.getJob jobId with
  | none => simp [found] at ran
  | some old =>
    simp only [found] at ran
    split at ran
    · cases ran
      exact .refl _
    · next open_ =>
      cases ran
      exact Moves.rewrite found (.defer (Ledger.id_of_getJob found) (by simpa using open_) ⟨_, returned⟩)

theorem Moves.of_same (shape : SameShape ledger next) (jobs : next.jobs = ledger.jobs)
    (checkpoints : next.checkpoints = ledger.checkpoints) : Moves hashes ledger now op ledger next := by
  refine ⟨shape, fun jobId view viewed => ⟨view, ?_, .refl⟩⟩
  unfold Ledger.view Ledger.getJob Ledger.checkpointsOf
  rw [jobs, checkpoints]
  exact viewed

variable {recovered : SessionDistillJob} {budget : Option Int}

/-- Expired leases are taken back by `claim_chunks` and by `reconcile`. -/
theorem recoverExpired_moves
    (found : current.getJob job.id = some job) (open_ : job.status.terminal = false) (handed : handsBudget op budget)
    (ran : current.recoverExpiredCheckpointsLocked job now budget = some (recovered, next)) :
    Moves hashes ledger now op current next := by
  unfold Ledger.recoverExpiredCheckpointsLocked at ran
  split at ran
  · next any =>
    have expired := List.any_eq_true.mp any
    dsimp only at ran
    split at ran
    · next exhausted =>
      cases ran
      exact Moves.rewrite found (.recoverFailed open_ expired exhausted handed)
    · next spared =>
      cases ran
      exact Moves.rewrite found (.recover open_ expired handed (Bool.eq_false_of_not_eq_true spared))
  · cases ran

theorem recoverExpired_none (ran : current.recoverExpiredCheckpointsLocked job now budget = none) :
    ∀ checkpoint ∈ current.checkpointsOf job.id, checkpoint.leaseExpired now = false := by
  unfold Ledger.recoverExpiredCheckpointsLocked at ran
  split at ran
  · dsimp only at ran
    split at ran <;> cases ran
  · next none_ => simpa using none_

theorem checkpoint_eq {first second : DistillChunkCheckpoint}
    (left : first ∈ current.checkpointsOf jobId) (right : second ∈ current.checkpointsOf jobId)
    (same : first.chunkId = second.chunkId) : first = second := by
  refine current.checkpoints.eq_of_key (List.mem_filter.mp left).1 (List.mem_filter.mp right).1 ?_
  exact Prod.ext ((Ledger.jobId_of_checkpointsOf left).trans (Ledger.jobId_of_checkpointsOf right).symm) same

theorem selectChunks_claimable {limit : Option Int}
    {checkpoint : DistillChunkCheckpoint} (member : checkpoint ∈ current.selectChunks jobId limit) :
    checkpoint ∈ current.checkpointsOf jobId ∧ checkpoint.claimable := by
  have eligible : checkpoint ∈ (current.listCheckpoints jobId).filter fun checkpoint => checkpoint.claimable := by
    unfold Ledger.selectChunks at member
    cases limit with
    | none => exact member
    | some count => exact List.mem_of_mem_take member
  exact ⟨Ledger.mem_listCheckpoints.mp (List.mem_filter.mp eligible).1, (List.mem_filter.mp eligible).2⟩

variable {claimed : List (TranscriptChunk × DistillChunkCheckpoint)}

theorem claimedRows_ne_nil {expiry : Time}
    {selected : List DistillChunkCheckpoint} {first : TranscriptChunk × DistillChunkCheckpoint}
    (read : current.claimedRows owner expiry now selected = .ok (first :: claimed)) :
    ∃ checkpoint, checkpoint ∈ selected := by
  cases selected with
  | nil => cases read
  | cons checkpoint rest => exact ⟨checkpoint, List.mem_cons_self⟩

theorem claimChunks_moves {source : String} {limit : Option Int}
    {frozen : Except StoreError Bool}
    (ran : ledger.claimChunks jobId owner limit leaseSeconds source frozen now = .ok (claimed, next)) :
    Moves hashes ledger now (.claimChunks jobId owner limit leaseSeconds source frozen) ledger next := by
  unfold Ledger.claimChunks at ran
  split at ran
  · cases ran
  · next named =>
    cases found : ledger.getJob jobId with
    | none => simp [found] at ran
    | some job =>
      have mine : job.id = jobId := Ledger.id_of_getJob found
      simp only [found] at ran
      split at ran
      · cases ran
      · cases ran
        exact .refl _
      · split at ran
        · cases ran
          exact .refl _
        · next scheduled =>
          rw [Bool.or_eq_true, not_or, Bool.not_eq_true, decide_eq_true_eq] at scheduled
          split at ran
          · next recovered next' recovery =>
            cases ran
            exact recoverExpired_moves (mine.symm ▸ found) scheduled.1 rfl recovery
          · next settled =>
            split at ran
            · cases ran
              exact .refl _
            · next ready =>
              split at ran
              · cases ran
              · cases ran
                exact .refl _
              · next first rest read =>
                cases ran
                obtain ⟨checkpoint, member⟩ := claimedRows_ne_nil read
                refine Moves.rewrite found (.leaseChunks mine (by simpa using named) scheduled.1 scheduled.2
                  (Bool.eq_false_of_not_eq_true ready) (mine ▸ recoverExpired_none settled) ?_
                  ⟨checkpoint, (selectChunks_claimable member).1, List.mem_map_of_mem member⟩)
                intro other listed chosen
                obtain ⟨picked, picked_mem, same⟩ := List.mem_map.mp chosen
                have spec := selectChunks_claimable picked_mem
                exact checkpoint_eq spec.1 listed same ▸ spec.2

theorem checkpointChunk_moves {chunkId : String} {result : Dict} (ran : ledger.checkpointChunk jobId chunkId owner result now = .ok (job, next)) :
    Moves hashes ledger now (.checkpointChunk jobId chunkId owner result) ledger next := by
  unfold Ledger.checkpointChunk at ran
  cases found : ledger.getJob jobId with
  | none => simp [found] at ran
  | some old =>
    simp only [found] at ran
    split at ran
    · cases ran
    · next checkpoint stored =>
      split at ran
      · cases ran
        exact .refl _
      · split at ran
        · cases ran
        · next owned =>
          rw [not_or, not_not, not_not] at owned
          split at ran
          · cases ran
          · next live =>
            cases ran
            have key := Table.key_of_get? stored
            have listed : checkpoint ∈ ledger.checkpointsOf jobId :=
              List.mem_filter.mpr ⟨Table.mem_of_get? stored, decide_eq_true (congrArg Prod.fst key)⟩
            cases until_ : checkpoint.leaseUntil with
            | none => simp [until_] at live
            | some expiry =>
              have step : JobStep hashes ledger now (.checkpointChunk jobId chunkId owner result)
                  ⟨old, ledger.checkpointsOf jobId⟩ _ :=
                .completeChunk (Ledger.view_of_getJob found) listed (congrArg Prod.snd key) owned.1 owned.2
                  until_ (by simpa [until_] using live)
              have counted : (ledger.completeChunk jobId chunkId result now).completedCount jobId =
                  completedOf ((ledger.checkpointsOf jobId).map fun checkpoint =>
                    if checkpoint.chunkId = chunkId then checkpoint.complete now result else checkpoint) := by
                unfold Ledger.completedCount Ledger.completeChunk
                rw [Ledger.checkpointsOf_updateCheckpoints, if_pos rfl]
                rfl
              rw [counted]
              exact Moves.rewrite found step

/-! Reconciliation visits the jobs one after another, each under the row it has read. -/

theorem settleJob_moves {expired : Bool}
    (found : current.getJob job.id = some job) (handed : handsBudget op budget) :
    Moves hashes ledger now op current (current.settleJob job expired now budget).2 := by
  unfold Ledger.settleJob
  dsimp only
  split
  · exact .refl _
  · next open_ =>
    rw [Bool.not_eq_true] at open_
    split
    · next complete =>
      split
      · exact .refl _
      · exact Moves.setJob found (.advance open_ complete.1)
    · split
      · next processing =>
        split
        · split
          · next exhausted => exact Moves.rewrite found (.loseWorkerFailed processing exhausted handed)
          · next spared => exact Moves.setJob found (.loseWorker processing handed (Bool.eq_false_of_not_eq_true spared))
        · exact .refl _
      · exact .refl _

theorem settleJob_recovered (ran : current.recoverExpiredCheckpointsLocked job now budget = some (recovered, next)) :
    (next.settleJob recovered true now budget).2 = next := by
  unfold Ledger.recoverExpiredCheckpointsLocked at ran
  split at ran
  · dsimp only at ran
    split at ran
    · cases ran
      unfold Ledger.settleJob
      exact congrArg Prod.snd (if_pos (by simp [SessionDistillJob.failRecovery, DistillJobStatus.terminal]))
    · cases ran
      have waiting := (job.noteRecovery now budget "expired_chunk_lease").waits_retryLater now
      unfold Ledger.settleJob
      dsimp only
      rw [if_neg (by simp [SessionDistillJob.retryLater, DistillJobStatus.terminal])]
      split
      · rw [if_pos ⟨rfl, waiting⟩]
      · rw [if_neg (by simp [SessionDistillJob.retryLater])]
  · cases ran

theorem reconcileJob_moves (found : current.getJob job.id = some job) (handed : handsBudget op budget) :
    Moves hashes ledger now op current (current.reconcileJob job now budget).2 := by
  unfold Ledger.reconcileJob
  split
  · exact .refl _
  · next open_ =>
    rw [Bool.not_eq_true] at open_
    split
    · exact settleJob_moves found handed
    · next recovered taken ran =>
      dsimp only
      rw [settleJob_recovered ran]
      exact recoverExpired_moves found open_ handed ran

theorem recoverExpired_other (ran : current.recoverExpiredCheckpointsLocked job now budget = some (recovered, next))
    (other : job.id ≠ jobId) : next.getJob jobId = current.getJob jobId := by
  unfold Ledger.recoverExpiredCheckpointsLocked at ran
  split at ran
  · dsimp only at ran
    split at ran
    · cases ran
      exact (Ledger.getJob_setJob _ _ _).trans (if_neg other)
    · cases ran
      exact (Ledger.getJob_setJob _ _ _).trans (if_neg other)
  · cases ran

theorem reconcileJob_other (other : job.id ≠ jobId) :
    (current.reconcileJob job now budget).2.getJob jobId = current.getJob jobId := by
  unfold Ledger.reconcileJob
  split
  · rfl
  · split
    · dsimp only
      unfold Ledger.settleJob
      dsimp only
      split
      · rfl
      · split
        · split
          · rfl
          · exact (Ledger.getJob_setJob _ _ _).trans (if_neg other)
        · split
          · split
            · split
              · exact (Ledger.getJob_setJob _ _ _).trans (if_neg other)
              · exact (Ledger.getJob_setJob _ _ _).trans (if_neg other)
            · rfl
          · rfl
    · next recovered taken ran =>
      dsimp only
      rw [settleJob_recovered ran]
      exact recoverExpired_other ran other

theorem reconcileJobs_moves (jobs : List SessionDistillJob)
    (distinct : (jobs.map (·.id)).Nodup) (handed : handsBudget op budget) (summary : Ledger.ReconcileSummary) (current : Ledger)
    (stored : ∀ job ∈ jobs, current.getJob job.id = some job) :
    Moves hashes ledger now op current
      (jobs.foldl (fun (summary, ledger) job =>
        let (turn, next) := ledger.reconcileJob job now budget
        (summary.add turn, next)) (summary, current)).2 := by
  induction jobs generalizing summary current with
  | nil => exact .refl _
  | cons job rest ih =>
    rw [List.map_cons, List.nodup_cons] at distinct
    refine (reconcileJob_moves (stored job List.mem_cons_self) handed).trans (ih distinct.2 _ _ ?_)
    intro other member
    have differs : job.id ≠ other.id := fun same => distinct.1 (same ▸ List.mem_map_of_mem member)
    rw [reconcileJob_other differs]
    exact stored other (List.mem_cons_of_mem _ member)

theorem reconcile_moves {projectName : Option String}
    {manualJobIds jobIds : Option (List String)} (handed : handsBudget op budget) :
    Moves hashes ledger now op ledger (ledger.reconcile projectName budget manualJobIds jobIds now).2 := by
  refine reconcileJobs_moves _ ?_ handed _ ledger ?_
  · exact (List.filter_sublist.map _).nodup ledger.jobs.nodup
  · exact fun job member => Table.get?_of_mem (List.mem_filter.mp member).1

/-! The rebalance decides on rows it has read and writes each row once. -/

variable {scan : Scan QueueRow} {projectName : String}

theorem mem_candidates {target : Int}
    {recentFirst : Bool} {row : QueueRow}
    (member : row ∈ (current.rebalancePlan scan projectName target recentFirst now).candidates) :
    row.job ∈ current.jobs.rows ∧ row.job.schedulable ∧ row.job.waitsForRetry now = false := by
  have kept := List.mem_filter.mp member
  have listed := (List.mem_filter.mp ((scan.mem_order _ _).mp kept.1)).1
  obtain ⟨⟨job, ordinal⟩, indexed, rfl⟩ := List.mem_map.mp listed
  have facts : job.schedulable = true ∧ (!job.waitsForRetry now) = true := Bool.and_eq_true_iff.mp kept.2
  exact ⟨List.fst_mem_of_mem_zipIdx indexed, facts.1, by simpa using facts.2⟩

theorem rebalance_moves {target : Int}
    {recentFirst : Bool} :
    Moves hashes ledger now op current (current.rebalance scan projectName target recentFirst now).2 := by
  refine Moves.mapJobs ?_
  intro job member checkpoints
  unfold RebalancePlan.place
  split
  · next chosen =>
    obtain ⟨row, listed, same⟩ := List.mem_map.mp chosen
    obtain ⟨stored, schedulable, ready⟩ := mem_candidates listed
    rw [current.jobs.eq_of_key stored member same] at schedulable ready
    split
    · exact .single (.place schedulable ready (.inl rfl))
    · split
      · exact .refl
      · exact .single (.place schedulable ready (.inr rfl))
  · exact .refl

variable {source : TranscriptSource} {request : EnqueueRequest}

theorem rebalanceWithin_moves :
    Moves hashes ledger now op current (current.rebalanceWithin scan source request now).2 := by
  unfold Ledger.rebalanceWithin
  split
  · exact .refl _
  · exact rebalance_moves

theorem markOlderJobsStale_moves :
    Moves hashes ledger now (.enqueue scan request) current (current.markOlderJobsStaleLocked source now) := by
  refine Moves.mapJobs ?_
  intro job _ checkpoints
  split
  · next older => exact .single (.markStale older.2.2)
  · exact .refl

theorem reserveManual_moves
    (ran : ledger.reserveManual jobId now = .ok (job, next)) : Moves hashes ledger now op ledger next := by
  unfold Ledger.reserveManual at ran
  cases found : ledger.getJob jobId with
  | none => simp [found] at ran
  | some old =>
    simp only [found] at ran
    split at ran
    · cases ran
    · next idle =>
      split at ran
      · cases ran
        exact .refl _
      · cases ran
        exact Moves.setJob found (.claimManual (by simpa using idle))

theorem freezeManualSelection_moves {selects : SessionDistillJob → Bool} {publish : Except StoreError Dict}
    {manifest : Dict}
    (ran : ledger.freezeManualSelection selects publish now = .ok (manifest, next)) :
    Moves hashes ledger now op ledger next := by
  unfold Ledger.freezeManualSelection at ran
  split at ran
  · cases ran
  · next passed =>
    split at ran
    · cases ran
    · cases ran
      refine Moves.mapJobs ?_
      intro job member checkpoints
      split
      · next chosen =>
        refine .single (.claimManual ?_)
        have quiet := List.findSome?_eq_none_iff.mp passed job (List.mem_filter.mpr ⟨member, chosen.1⟩)
        unfold Ledger.freezeRefusal at quiet
        split at quiet
        · cases quiet
        · next idle => simpa using idle
      · exact .refl

theorem annotate_moves (found : ledger.getJob jobId = some old)
    (same : standing job = standing old) : Moves hashes ledger now op ledger (ledger.setJob job) :=
  Moves.setJob found (.annotate same)

theorem retainSource_moves
    (ran : ledger.retainSource jobId now = .ok (job, next)) : Moves hashes ledger now op ledger next := by
  unfold Ledger.retainSource at ran
  cases found : ledger.getJob jobId with
  | none => simp [found] at ran
  | some old =>
    simp only [found] at ran
    split at ran
    · cases ran
      exact .refl _
    · cases ran
      exact annotate_moves found rfl

theorem enableZeroCandidateChallenge_moves (ran : ledger.enableZeroCandidateChallenge jobId now = .ok (job, next)) :
    Moves hashes ledger now op ledger next := by
  unfold Ledger.enableZeroCandidateChallenge at ran
  cases found : ledger.getJob jobId with
  | none => simp [found] at ran
  | some old =>
    simp only [found] at ran
    split at ran
    · cases ran
      exact annotate_moves found rfl
    · cases ran
      exact .refl _

theorem markAgentOffered_moves {jobIds : List String} :
    Moves hashes ledger now op ledger (ledger.markAgentOffered projectName jobIds now).2 := by
  refine Moves.mapJobs ?_
  intro job _ checkpoints
  dsimp only
  split
  · exact .single (.annotate rfl)
  · exact .refl

theorem activateParkedForAgent_moves (ran : ledger.activateParkedForAgent jobId now = .ok (job, next)) :
    Moves hashes ledger now (.activateParkedForAgent jobId) ledger next := by
  unfold Ledger.activateParkedForAgent at ran
  cases found : ledger.getJob jobId with
  | none => simp [found] at ran
  | some old =>
    simp only [found] at ran
    split at ran
    · cases ran
      exact .refl _
    · next parked =>
      cases ran
      exact Moves.setJob found (.activate (not_not.mp (not_or.mp parked).1))

theorem onCompleted_moves {refusal : String} {write : SessionDistillJob → SessionDistillJob} (ran : ledger.onCompleted jobId refusal write = .ok (job, next))
    (same : ∀ old, standing (write old) = standing old) : Moves hashes ledger now op ledger next := by
  unfold Ledger.onCompleted at ran
  cases found : ledger.getJob jobId with
  | none => simp [found] at ran
  | some old =>
    simp only [found] at ran
    split at ran
    · cases ran
    · cases ran
      exact annotate_moves found (same old)

theorem recordCompletionOutcome_moves {disposition : Option CompletionDisposition}
    {reasonCodes : List String} {summary : Dict} {status : SourceCleanupStatus} {receiptId : Option String}
    (ran : ledger.recordCompletionOutcome jobId disposition reasonCodes summary status receiptId now =
      .ok (job, next)) : Moves hashes ledger now op ledger next :=
  onCompleted_moves ran fun _ => rfl

theorem backfillSessionSummary_moves {text : String}
    (ran : ledger.backfillSessionSummary jobId text now = .ok (job, next)) :
    Moves hashes ledger now op ledger next := by
  unfold Ledger.backfillSessionSummary at ran
  dsimp only at ran
  split at ran
  · cases ran
  · exact onCompleted_moves ran fun old => by split <;> rfl

theorem markHistoricalSummaryUnavailable_moves {reason : String}
    (ran : ledger.markHistoricalSummaryUnavailable jobId reason now = .ok (job, next)) :
    Moves hashes ledger now op ledger next := by
  unfold Ledger.markHistoricalSummaryUnavailable at ran
  dsimp only at ran
  split at ran
  · cases ran
  · exact onCompleted_moves ran fun old => by split <;> rfl

/-! ### The calls that add or drop rows -/

variable {chunks : List TranscriptChunk}

theorem source_of_enqueueInput (accepted : ledger.enqueueInput hashes request = .ok (source, chunks)) :
    ledger.getSource request.sourceId = some source ∧
      chunks = ledger.listChunks source.id source.sourceRevision := by
  unfold Ledger.enqueueInput at accepted
  split at accepted
  · cases accepted
  · next found =>
    split at accepted
    · cases accepted
    · split at accepted
      · cases accepted
      · split at accepted
        · cases accepted
        · dsimp only at accepted
          split at accepted
          · cases accepted
          · cases accepted
            exact ⟨found, rfl⟩

def withJob (hashes : Hashes) (ledger : Ledger) (request : EnqueueRequest) (source : TranscriptSource)
    (chunks : List TranscriptChunk) (now : Time) : Ledger :=
  ((ledger.markOlderJobsStaleLocked source now).setJob
    (request.newJob hashes source chunks.length now)).insertCheckpoints
      (chunks.map (newCheckpoint (request.newJob hashes source chunks.length now).id now))

/-- `enqueue` in two cases: the key is known, or a job is added. -/
theorem enqueue_cases {selections : List Selection}
    (ran : ledger.enqueue hashes scan request now = .ok (job, selections, next)) :
    ∃ source chunks, ledger.enqueueInput hashes request = .ok (source, chunks) ∧
      ((∃ existing, ledger.findJob (idempotencyKey source request.pipelineVersion) = some existing ∧
          job = (next.getJob existing.id).getD existing ∧
          (selections, next) = (((if request.manualRecheck ∧ ¬ (existing.manualOnly ∧ existing.retainSource) then
            ledger.setJob existing.recheckManual else ledger).markOlderJobsStaleLocked source now).rebalanceWithin
              scan source request now)) ∨
        (ledger.findJob (idempotencyKey source request.pipelineVersion) = none ∧
          (ledger.getRevision source.id source.sourceRevision).isSome ∧
          job = request.newJob hashes source chunks.length now ∧
          (selections, next) = (withJob hashes ledger request source chunks now).rebalanceWithin
            scan source request now)) := by
  unfold Ledger.enqueue at ran
  cases accepted : ledger.enqueueInput hashes request with
  | error failure => simp [accepted] at ran
  | ok input =>
    obtain ⟨source, chunks⟩ := input
    refine ⟨source, chunks, rfl, ?_⟩
    simp only [accepted] at ran
    split at ran
    · next existing known =>
      cases ran
      exact .inl ⟨existing, known, rfl, rfl⟩
    · next fresh =>
      split at ran
      · cases ran
      · next inserted written =>
        cases ran
        unfold Ledger.insertJobLocked at written
        split at written
        · cases written
        · split at written
          · cases written
          · next present =>
            cases written
            have stored := Option.isSome_iff_ne_none.mpr fun gone => present (Option.isNone_iff_eq_none.mpr gone)
            exact .inr ⟨fresh, stored, rfl, rfl⟩

theorem findJob_mem {key : String}
    (found : current.findJob key = some job) : job ∈ current.jobs.rows ∧ job.idempotencyKey = key :=
  ⟨List.mem_of_find?_eq_some found, by simpa using List.find?_some found⟩

theorem getJob_fresh (sound : References hashes ledger) {key : String} (fresh : ledger.findJob key = none) :
    ledger.getJob (distillJobId hashes key) = none := by
  refine (Table.get?_eq_none _ _).mpr ?_
  intro job member same
  rw [sound.jobId job member] at same
  have keys : job.idempotencyKey = key :=
    String.append_right_inj "harness-mem://distill/" |>.mp (hashes.uuid5_injective same)
  exact List.find?_eq_none.mp fresh job member (by simpa using keys)

theorem checkpointsOf_fresh (sound : References hashes ledger)
    (absent : ledger.getJob jobId = none) : ledger.checkpointsOf jobId = [] := by
  refine List.filter_eq_nil_iff.mpr ?_
  intro checkpoint member mine
  obtain ⟨job, _, found, _⟩ := sound.backed checkpoint member
  rw [of_decide_eq_true mine, absent] at found
  cases found

theorem checkpointsOf_insertCheckpoints_other (current : Ledger) {other : String} (differs : jobId ≠ other)
    (chunks : List TranscriptChunk) :
    (current.insertCheckpoints (chunks.map (newCheckpoint jobId now))).checkpointsOf other =
      current.checkpointsOf other := by
  unfold Ledger.insertCheckpoints Ledger.checkpointsOf
  dsimp only
  generalize current.checkpoints = table
  induction chunks generalizing table with
  | nil => rfl
  | cons chunk rest ih =>
    rw [List.map_cons, List.foldl_cons, ih]
    exact Table.filter_rows_upsert table _ (fun key => decide (key.1 = other)) (decide_eq_false differs)

theorem nodup_listChunks (current : Ledger) (sourceId sourceRevision : String) :
    ((current.listChunks sourceId sourceRevision).map (·.id)).Nodup := by
  have perm : (current.listChunks sourceId sourceRevision).Perm (current.chunksOf sourceId sourceRevision) :=
    List.perm_insertionSort _ _
  rw [(perm.map _).nodup_iff]
  exact (List.filter_sublist.map _).nodup current.chunks.nodup

theorem checkpointsOf_insertCheckpoints_self (current : Ledger)
    (empty : current.checkpointsOf jobId = [])
    (distinct : (chunks.map (·.id)).Nodup) :
    (current.insertCheckpoints (chunks.map (newCheckpoint jobId now))).checkpointsOf jobId =
      chunks.map (newCheckpoint jobId now) := by
  have keys : (chunks.map (newCheckpoint jobId now)).map (·.key) = (chunks.map (·.id)).map (jobId, ·) := by
    simp [List.map_map, Function.comp_def, newCheckpoint, DistillChunkCheckpoint.key]
  have nodup : ((chunks.map (newCheckpoint jobId now)).map (·.key)).Nodup := by
    rw [keys]
    exact distinct.map fun _ _ same => congrArg Prod.snd same
  unfold Ledger.checkpointsOf Ledger.insertCheckpoints
  rw [Table.rows_foldl_upsert _ _ nodup, List.filter_append]
  · have kept : (chunks.map (newCheckpoint jobId now)).filter (fun checkpoint => decide (checkpoint.jobId = jobId)) =
        chunks.map (newCheckpoint jobId now) := by
      rw [List.filter_eq_self]
      intro checkpoint member
      obtain ⟨chunk, _, rfl⟩ := List.mem_map.mp member
      exact decide_eq_true rfl
    rw [kept, show current.checkpoints.rows.filter (fun checkpoint => decide (checkpoint.jobId = jobId)) = [] from
      empty, List.nil_append]
  · intro checkpoint member
    obtain ⟨chunk, _, rfl⟩ := List.mem_map.mp member
    refine (Table.get?_eq_none _ _).mpr ?_
    intro other stored same
    have mine := List.filter_eq_nil_iff.mp empty other stored
    exact mine (decide_eq_true (congrArg Prod.fst same))

/-! ### All calls -/

def dropsJobs : LedgerOp → Bool
  | .hardDeleteRevisions .. => true
  | _ => false

/-- What a call that returned has done to the jobs of the ledger. -/
structure Simulates (hashes : Hashes) (ledger : Ledger) (now : Time) (op : LedgerOp) (next : Ledger) : Prop where
  moves : ∀ jobId view, ledger.view jobId = some view →
    next.view jobId = none ∧ dropsJobs op ∨
      ∃ view', next.view jobId = some view' ∧ JobSteps hashes ledger now op view view'
  created : ∀ jobId view', ledger.view jobId = none → next.view jobId = some view' →
    ∃ view, Created hashes ledger now op view ∧ JobSteps hashes ledger now op view view'

theorem Moves.simulates (moved : Moves hashes ledger now op ledger next) :
    Simulates hashes ledger now op next where
  moves := fun jobId view viewed => .inr (moved.moves jobId view viewed)
  created := by
    intro jobId view' absent viewed
    have kept := moved.shape.getJob_isSome jobId
    rw [Ledger.view_eq_none.mp absent, (Ledger.view_eq_some.mp viewed).1] at kept
    cases kept

theorem simulates_of_view (jobs : next.jobs = ledger.jobs)
    (checkpoints : next.checkpoints = ledger.checkpoints) : Simulates hashes ledger now op next := by
  have same : ∀ jobId, next.view jobId = ledger.view jobId := by
    intro jobId
    unfold Ledger.view Ledger.getJob Ledger.checkpointsOf
    rw [jobs, checkpoints]
  constructor
  · intro jobId view viewed
    exact .inr ⟨view, (same jobId).trans viewed, .refl⟩
  · intro jobId view' absent viewed
    rw [same, absent] at viewed
    cases viewed

theorem enqueue_simulates (sound : References hashes ledger) {selections : List Selection}
    (ran : ledger.enqueue hashes scan request now = .ok (job, selections, next)) :
    Simulates hashes ledger now (.enqueue scan request) next := by
  obtain ⟨source, chunks, accepted, ⟨existing, known, _, placed⟩ | ⟨fresh, _, _, placed⟩⟩ := enqueue_cases ran
  · rw [show next = _ from congrArg Prod.snd placed]
    refine Moves.simulates (Moves.trans (Moves.trans ?_ markOlderJobsStale_moves) rebalanceWithin_moves)
    split
    · next manual =>
      have stored : ledger.getJob existing.id = some existing := Table.get?_of_mem (findJob_mem known).1
      refine Moves.setJob stored (.recheck manual.1 ?_)
      simpa [requeued, (source_of_enqueueInput accepted).1] using known
    · exact .refl _
  · rw [show next = _ from congrArg Prod.snd placed]
    -- the added job stands beside the others, which were only marked stale so far
    have absent : ledger.getJob (request.newJob hashes source chunks.length now).id = none := getJob_fresh sound fresh
    have staled : Moves hashes ledger now (.enqueue scan request) ledger (ledger.markOlderJobsStaleLocked source now) :=
      markOlderJobsStale_moves
    have placed : Moves hashes ledger now (.enqueue scan request) (withJob hashes ledger request source chunks now)
        ((withJob hashes ledger request source chunks now).rebalanceWithin scan source request now).2 :=
      rebalanceWithin_moves
    have others : ∀ jobId, (request.newJob hashes source chunks.length now).id ≠ jobId →
        (withJob hashes ledger request source chunks now).view jobId =
          (ledger.markOlderJobsStaleLocked source now).view jobId := by
      intro jobId differs
      unfold withJob Ledger.view
      rw [checkpointsOf_insertCheckpoints_other _ differs, Ledger.checkpointsOf_setJob]
      exact congrArg (Option.map _) ((Ledger.getJob_setJob _ _ _).trans (if_neg differs))
    have own : (withJob hashes ledger request source chunks now).view
        (request.newJob hashes source chunks.length now).id = some
          ⟨request.newJob hashes source chunks.length now,
            chunks.map (newCheckpoint (request.newJob hashes source chunks.length now).id now)⟩ := by
      refine Ledger.view_eq_some.mpr ⟨(Ledger.getJob_setJob _ _ _).trans (if_pos rfl), ?_⟩
      have fresh := checkpointsOf_fresh sound absent
      refine checkpointsOf_insertCheckpoints_self _ fresh ?_
      rw [(source_of_enqueueInput accepted).2]
      exact nodup_listChunks _ _ _
    constructor
    · intro jobId view viewed
      have differs : (request.newJob hashes source chunks.length now).id ≠ jobId := by
        rintro rfl
        rw [Ledger.view_eq_none.mpr absent] at viewed
        cases viewed
      obtain ⟨middle, viewed', first⟩ := staled.moves jobId view viewed
      obtain ⟨final, viewed'', second⟩ := placed.moves jobId middle ((others jobId differs).trans viewed')
      exact .inr ⟨final, viewed'', first.trans second⟩
    · intro jobId view' gone viewed
      by_cases mine : (request.newJob hashes source chunks.length now).id = jobId
      · subst mine
        obtain ⟨final, viewed', second⟩ := placed.moves _ _ own
        rw [viewed'] at viewed
        exact ⟨_, .enqueue accepted, Option.some.inj viewed ▸ second⟩
      · have kept := (placed.shape.getJob_isSome jobId)
        rw [(Ledger.view_eq_some.mp viewed).1, Ledger.view_eq_none.mp ((others jobId mine).trans
          (Ledger.view_eq_none.mpr ?_))] at kept
        · cases kept
        · have kept' := staled.shape.getJob_isSome jobId
          rw [Ledger.view_eq_none.mp gone] at kept'
          simpa using kept'

theorem jobs_of_upsertSource (ran : current.upsertSourceLocked source = .ok next) :
    next.jobs = current.jobs ∧ next.checkpoints = current.checkpoints := by
  unfold Ledger.upsertSourceLocked at ran
  split at ran
  · cases ran
  · cases ran
    exact ⟨rfl, rfl⟩

variable {sourceId : String}

theorem jobsOfSource_any (found : current.getJob jobId = some job) :
    ((current.jobsOfSource sourceId).any fun other => other.id = jobId) = decide (job.sourceId = sourceId) := by
  rw [Bool.eq_iff_iff, List.any_eq_true, decide_eq_true_eq]
  constructor
  · rintro ⟨other, member, same⟩
    have kept := List.mem_filter.mp member
    have equal : other = job := current.jobs.eq_of_key kept.1 (Table.mem_of_get? found)
      ((of_decide_eq_true same).trans (Ledger.id_of_getJob found).symm)
    exact equal ▸ of_decide_eq_true kept.2
  · intro mine
    exact ⟨job, List.mem_filter.mpr ⟨Table.mem_of_get? found, decide_eq_true mine⟩,
      decide_eq_true (Ledger.id_of_getJob found)⟩

def prunedView (receiptId : String) (now : Time) (sourceId : String) (view : JobView) : JobView :=
  if view.job.sourceId = sourceId then ⟨prunedJob receiptId now view.job, []⟩ else view

theorem checkpointsOf_outsideSource (found : ledger.getJob jobId = some job) :
    (ledger.checkpointsOf jobId).filter (ledger.outsideSource sourceId) =
      if job.sourceId = sourceId then [] else ledger.checkpointsOf jobId := by
  have outside : ∀ checkpoint ∈ ledger.checkpointsOf jobId,
      ledger.outsideSource sourceId checkpoint = !decide (job.sourceId = sourceId) := by
    intro checkpoint member
    rw [Ledger.outsideSource, Ledger.jobId_of_checkpointsOf member, jobsOfSource_any found]
  split
  · next mine =>
    rw [List.filter_eq_nil_iff]
    intro checkpoint member
    rw [outside checkpoint member, decide_eq_true mine]
    exact Bool.noConfusion
  · next elsewhere =>
    refine List.filter_eq_self.mpr fun checkpoint member => ?_
    rw [outside checkpoint member, decide_eq_false elsewhere]
    rfl

theorem prune_view {receiptId : String} {counts : PruneCounts}
    (ran : ledger.pruneCompletedDistillEvidence hashes jobId receiptId now = .ok (counts, next)) :
    ∃ owner, ledger.getJob jobId = some owner ∧
      ∀ other, next.view other = (ledger.view other).map (prunedView receiptId now owner.sourceId) := by
  unfold Ledger.pruneCompletedDistillEvidence at ran
  split at ran
  · cases ran
  · next owner known =>
    split at ran
    · cases ran
    · dsimp only at ran
      split at ran
      · cases ran
      · split at ran
        · cases ran
        · split at ran
          · cases ran
          · split at ran
            · cases ran
            · split at ran
              · cases ran
              · next pointed written =>
                cases ran
                obtain ⟨jobs, checkpoints⟩ := jobs_of_upsertSource written
                refine ⟨owner, known, fun other => ?_⟩
                unfold Ledger.view Ledger.getJob
                rw [Table.get?_mapRows, jobs]
                cases found : ledger.jobs.get? other with
                | none => rfl
                | some job =>
                  have listed : (ledger.checkpoints.rows.filter (ledger.outsideSource owner.sourceId)).filter
                      (fun checkpoint => decide (checkpoint.jobId = other)) =
                        (ledger.checkpointsOf other).filter (ledger.outsideSource owner.sourceId) :=
                    List.filter_comm _ _ _
                  simp only [Option.map_some, Option.some.injEq]
                  unfold Ledger.checkpointsOf prunedView
                  dsimp only
                  rw [checkpoints, Table.rows_filter, listed, checkpointsOf_outsideSource found]
                  split <;> rfl

theorem prune_simulates {receiptId : String} {counts : PruneCounts}
    (ran : ledger.pruneCompletedDistillEvidence hashes jobId receiptId now = .ok (counts, next)) :
    Simulates hashes ledger now (.pruneCompletedDistillEvidence jobId receiptId) next := by
  obtain ⟨owner, _, views⟩ := prune_view ran
  constructor
  · intro other view viewed
    right
    refine ⟨prunedView receiptId now owner.sourceId view, by rw [views, viewed]; rfl, ?_⟩
    unfold prunedView
    split
    · exact .single .prune
    · exact .refl
  · intro other view' absent viewed
    rw [views, absent] at viewed
    cases viewed

def Drops (before after : Ledger) : Prop :=
  ∀ jobId, after.view jobId = none ∨ after.view jobId = before.view jobId

theorem Drops.of_same {before after : Ledger} (jobs : after.jobs = before.jobs)
    (checkpoints : after.checkpoints = before.checkpoints) : Drops before after := by
  intro jobId
  unfold Ledger.view Ledger.getJob Ledger.checkpointsOf
  rw [jobs, checkpoints]
  exact .inr rfl

theorem Drops.trans {first second third : Ledger} (left : Drops first second) (right : Drops second third) :
    Drops first third := by
  intro jobId
  rcases right jobId with gone | same
  · exact .inl gone
  · rw [same]
    exact left jobId

theorem Drops.simulates (dropped : Drops ledger next) (allowed : dropsJobs op) :
    Simulates hashes ledger now op next where
  moves := by
    intro jobId view viewed
    rcases dropped jobId with gone | same
    · exact .inl ⟨gone, allowed⟩
    · exact .inr ⟨view, same.trans viewed, .refl⟩
  created := by
    intro jobId view' absent viewed
    rcases dropped jobId with gone | same
    · rw [gone] at viewed
      cases viewed
    · rw [same, absent] at viewed
      cases viewed

theorem eraseRevision_drops {sourceRevision : String} {counts : DeletionCounts}
    (ran : current.eraseRevision sourceId sourceRevision = .ok (counts, next)) : Drops current next := by
  unfold Ledger.eraseRevision at ran
  dsimp only at ran
  split at ran
  · cases ran
  · cases ran
    intro jobId
    cases found : current.getJob jobId with
    | none =>
      left
      refine Ledger.view_eq_none.mpr ((Table.get?_filter _ _ _).trans ?_)
      rw [show current.jobs.get? jobId = none from found]
      rfl
    | some job =>
      by_cases erased : job.sourceId = sourceId ∧ job.sourceRevision = sourceRevision
      · left
        refine Ledger.view_eq_none.mpr ((Table.get?_filter _ _ _).trans ?_)
        rw [show current.jobs.get? jobId = some job from found]
        simp [erased]
      · right
        rw [Ledger.view_of_getJob found]
        refine Ledger.view_eq_some.mpr ⟨?_, ?_⟩
        · refine (Table.get?_filter _ _ _).trans ?_
          rw [show current.jobs.get? jobId = some job from found]
          simpa using not_and_or.mp erased
        · refine (List.filter_comm _ _ _).trans (List.filter_eq_self.mpr fun checkpoint member => ?_)
          rw [Bool.not_eq_true', List.any_eq_false]
          intro other listed same
          have kept := List.mem_filter.mp listed
          have id_eq : other.id = jobId := (of_decide_eq_true same).trans (Ledger.jobId_of_checkpointsOf member)
          have equal : other = job := current.jobs.eq_of_key kept.1 (Table.mem_of_get? found)
            (id_eq.trans (Ledger.id_of_getJob found).symm)
          exact erased (equal ▸ of_decide_eq_true kept.2)

theorem eraseRevisions_drops {keys : List (String × String)} {counts : DeletionCounts}
    (ran : current.eraseRevisions keys = .ok (counts, next)) : Drops current next := by
  induction keys generalizing current counts with
  | nil =>
    cases ran
    exact .of_same rfl rfl
  | cons key rest ih =>
    unfold Ledger.eraseRevisions at ran
    split at ran
    · cases ran
    · next first erased step =>
      split at ran
      · cases ran
      · next more final others =>
        cases ran
        exact (eraseRevision_drops step).trans (ih others)

theorem jobs_of_restoreSources {scan : Scan RevisionRow} {sourceIds : List String}
    {dropped : Nat} (ran : current.restoreSources scan now sourceIds = .ok (dropped, next)) :
    next.jobs = current.jobs ∧ next.checkpoints = current.checkpoints := by
  induction sourceIds generalizing current dropped with
  | nil =>
    cases ran
    exact ⟨rfl, rfl⟩
  | cons sourceId rest ih =>
    unfold Ledger.restoreSources at ran
    split at ran
    · cases ran
    · next first restored step =>
      split at ran
      · cases ran
      · next more final others =>
        cases ran
        have kept : restored.jobs = current.jobs ∧ restored.checkpoints = current.checkpoints := by
          unfold Ledger.restoreSource at step
          split at step
          · cases step
            exact ⟨rfl, rfl⟩
          · split at step
            · cases step
              exact ⟨rfl, rfl⟩
            · split at step
              · cases step
              · next written =>
                cases step
                exact jobs_of_upsertSource written
        exact ⟨(ih others).1.trans kept.1, (ih others).2.trans kept.2⟩

theorem hardDelete_simulates {scan : Scan RevisionRow} {request : HardDelete} {freshId : String} {audit : Dict}
    (ran : ledger.hardDeleteRevisions hashes scan request freshId now = .ok (audit, next)) :
    Simulates hashes ledger now (.hardDeleteRevisions scan request freshId) next := by
  unfold Ledger.hardDeleteRevisions at ran
  dsimp only at ran
  split at ran
  · cases ran
  · next counts erased dropped =>
    split at ran
    · cases ran
    · next sources restored written =>
      cases ran
      have kept := jobs_of_restoreSources written
      have restoring : Drops erased (restored.saveAudit
          (request.audit hashes request.revisionKeys.eraseDups counts sources freshId now)) :=
        .of_same kept.1 kept.2
      exact ((eraseRevisions_drops dropped).trans restoring).simulates rfl

theorem insertRevision_jobs (current : Ledger) (row : RevisionRow) :
    (current.insertRevision row).jobs = current.jobs ∧
      (current.insertRevision row).checkpoints = current.checkpoints := by
  unfold Ledger.insertRevision
  split <;> exact ⟨rfl, rfl⟩

theorem deleteChunks_jobs {sourceRevision : String}
    (ran : current.deleteChunks sourceId sourceRevision = .ok next) :
    next.jobs = current.jobs ∧ next.checkpoints = current.checkpoints := by
  unfold Ledger.deleteChunks at ran
  split at ran
  · cases ran
  · cases ran
    exact ⟨rfl, rfl⟩

theorem insertChunks_jobs (ran : current.insertChunks chunks = .ok next) :
    next.jobs = current.jobs ∧ next.checkpoints = current.checkpoints := by
  induction chunks generalizing current with
  | nil =>
    cases ran
    exact ⟨rfl, rfl⟩
  | cons chunk rest ih =>
    unfold Ledger.insertChunks at ran
    split at ran
    · cases ran
    · next inserted written =>
      have kept : inserted.jobs = current.jobs ∧ inserted.checkpoints = current.checkpoints := by
        unfold Ledger.insertChunkLocked at written
        split at written
        · split at written
          · cases written
          · split at written
            · cases written
            · cases written
              exact ⟨rfl, rfl⟩
        · cases written
      exact ⟨(ih ran).1.trans kept.1, (ih ran).2.trans kept.2⟩

theorem saveSnapshot_simulates {rawBytes : Option (List UInt8)}
    (ran : ledger.saveSnapshot hashes source chunks rawBytes now = .ok next) :
    Simulates hashes ledger now op next := by
  unfold Ledger.saveSnapshot at ran
  dsimp only at ran
  split at ran
  · cases ran
  · split at ran
    · cases ran
    · split at ran
      · cases ran
      · next pointed written =>
        split at ran
        · cases ran
        · next cleared deleted =>
          have first := jobs_of_upsertSource written
          have second := insertRevision_jobs pointed (revisionRow source chunks (nativeBytes chunks rawBytes) now)
          have third := deleteChunks_jobs deleted
          have fourth := insertChunks_jobs ran
          exact simulates_of_view (fourth.1.trans (third.1.trans (second.1.trans first.1)))
            (fourth.2.trans (third.2.trans (second.2.trans first.2)))

theorem refreshSource_simulates
    (ran : ledger.refreshSource source now = .ok next) : Simulates hashes ledger now op next := by
  unfold Ledger.refreshSource at ran
  split at ran
  · cases ran
    exact simulates_of_view rfl rfl
  · split at ran
    · have kept := jobs_of_upsertSource ran
      exact simulates_of_view kept.1 kept.2
    · cases ran
      exact simulates_of_view rfl rfl

theorem saveDistillProjection_moves {record : Dict}
    (ran : ledger.saveDistillProjection record now = .ok next) : Moves hashes ledger now op ledger next := by
  unfold Ledger.saveDistillProjection at ran
  dsimp only at ran
  split at ran
  · cases ran
  · split at ran
    · cases ran
    · split at ran
      · cases ran
        exact Moves.of_same ⟨rfl, rfl, rfl, rfl, rfl⟩ rfl rfl
      · cases ran
        exact Moves.of_same ⟨rfl, rfl, rfl, rfl, rfl⟩ rfl rfl

theorem saveDeletionReceipt_moves {receipt payload : Dict}
    (ran : ledger.saveDeletionReceipt receipt now = .ok (payload, next)) :
    Moves hashes ledger now op ledger next := by
  unfold Ledger.saveDeletionReceipt at ran
  dsimp only at ran
  split at ran
  · cases ran
  · cases ran
    exact Moves.of_same ⟨rfl, rfl, rfl, rfl, rfl⟩ rfl rfl

theorem map_ok {α β : Type} {result : Except StoreError α} {change : α → β} {value : β}
    (ran : result.map change = .ok value) : ∃ inner, result = .ok inner ∧ change inner = value := by
  cases result with
  | error failure => cases ran
  | ok inner =>
    cases ran
    exact ⟨inner, rfl, rfl⟩

def inPlace : LedgerOp → Bool
  | .saveSnapshot .. | .refreshSource .. | .markSourcesMissing .. | .pruneCompletedDistillEvidence ..
  | .hardDeleteRevisions .. | .enqueue .. => false
  | _ => true

theorem run_moves {outcome : Outcome} (rewrites : inPlace op) (ran : op.run hashes ledger now = .ok outcome) :
    Moves hashes ledger now op ledger outcome.ledger := by
  unfold LedgerOp.run at ran
  cases op with
  | saveSnapshot | refreshSource | markSourcesMissing | pruneCompletedDistillEvidence | hardDeleteRevisions
  | enqueue => cases rewrites
  | saveDistillProjection =>
    obtain ⟨_, inner, rfl⟩ := map_ok ran
    exact saveDistillProjection_moves inner
  | saveDeletionReceipt =>
    obtain ⟨_, inner, rfl⟩ := map_ok ran
    exact saveDeletionReceipt_moves inner
  | freezeManualSelection =>
    obtain ⟨_, inner, rfl⟩ := map_ok ran
    exact freezeManualSelection_moves inner
  | enableZeroCandidateChallenge =>
    obtain ⟨_, inner, rfl⟩ := map_ok ran
    exact enableZeroCandidateChallenge_moves inner
  | retainSource =>
    obtain ⟨_, inner, rfl⟩ := map_ok ran
    exact retainSource_moves inner
  | reserveManual =>
    obtain ⟨_, inner, rfl⟩ := map_ok ran
    exact reserveManual_moves inner
  | claimReview =>
    obtain ⟨_, inner, rfl⟩ := map_ok ran
    exact claimReview_moves inner
  | renewReviewLease =>
    cases ran
    exact renewReviewLease_moves
  | releaseReviewLease =>
    cases ran
    exact releaseReviewLease_moves
  | reconcile =>
    cases ran
    exact reconcile_moves rfl
  | rebalance =>
    cases ran
    exact rebalance_moves
  | markAgentOffered =>
    cases ran
    exact markAgentOffered_moves
  | activateParkedForAgent =>
    obtain ⟨_, inner, rfl⟩ := map_ok ran
    exact activateParkedForAgent_moves inner
  | claimChunks =>
    obtain ⟨_, inner, rfl⟩ := map_ok ran
    exact claimChunks_moves inner
  | checkpointChunk =>
    obtain ⟨_, inner, rfl⟩ := map_ok ran
    exact checkpointChunk_moves inner
  | finalize =>
    obtain ⟨_, inner, rfl⟩ := map_ok ran
    exact finalize_moves inner
  | deferJob =>
    obtain ⟨_, inner, rfl⟩ := map_ok ran
    exact deferJob_moves inner
  | recordCompletionOutcome =>
    obtain ⟨_, inner, rfl⟩ := map_ok ran
    exact recordCompletionOutcome_moves inner
  | backfillSessionSummary =>
    obtain ⟨_, inner, rfl⟩ := map_ok ran
    exact backfillSessionSummary_moves inner
  | markHistoricalSummaryUnavailable =>
    obtain ⟨_, inner, rfl⟩ := map_ok ran
    exact markHistoricalSummaryUnavailable_moves inner

theorem run_simulates (sound : References hashes ledger) {outcome : Outcome}
    (ran : op.run hashes ledger now = .ok outcome) : Simulates hashes ledger now op outcome.ledger := by
  cases op with
  | saveSnapshot =>
    obtain ⟨_, inner, rfl⟩ := map_ok ran
    exact saveSnapshot_simulates inner
  | refreshSource =>
    obtain ⟨_, inner, rfl⟩ := map_ok ran
    exact refreshSource_simulates inner
  | markSourcesMissing =>
    cases ran
    exact simulates_of_view rfl rfl
  | pruneCompletedDistillEvidence =>
    obtain ⟨_, inner, rfl⟩ := map_ok ran
    exact prune_simulates inner
  | hardDeleteRevisions =>
    obtain ⟨_, inner, rfl⟩ := map_ok ran
    exact hardDelete_simulates inner
  | enqueue =>
    obtain ⟨_, inner, rfl⟩ := map_ok ran
    exact enqueue_simulates sound inner
  | _ => exact (run_moves rfl ran).simulates

end Calls

end HarnessMem.Lifecycle
