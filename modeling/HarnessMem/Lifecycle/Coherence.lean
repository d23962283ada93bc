import HarnessMem.Lifecycle.Consistency
import HarnessMem.Lifecycle.Requeue

/-! What the columns of a job row and its checkpoint rows say together in every
world reached, erasing calls included, and what every run keeps of a job.
-/

set_option autoImplicit false

namespace HarnessMem.Lifecycle

open Storage Library

variable {hashes : Hashes}

def Standing.Read (job : Standing) (checkpoints : List DistillChunkCheckpoint) : Prop :=
  (∀ checkpoint ∈ checkpoints, checkpoint.status = .completed) ∧ job.completedChunkCount = job.identity.expectedChunkCount

def Standing.Means (job : Standing) (checkpoints : List DistillChunkCheckpoint) : Prop :=
  match job.status with
  | .queued | .parked | .stale => True
  | .processing => job.phase = .chunks ∧ 1 ≤ job.attemptCount
  | .reviewing => job.phase = .review ∧ job.Read checkpoints
  | .completed => job.phase = .done ∧ job.reviewLeaseOwner = none ∧ job.Read checkpoints
  | .retryable => job.retryAfter.isSome
  | .failed => max 1 job.recoveryBudget ≤ job.recoveryCount

/-- A job row agrees with itself and with its checkpoint rows. -/
structure Coherent (job : Standing) (checkpoints : List DistillChunkCheckpoint) : Prop where
  means : job.Means checkpoints
  done : job.phase = .done → job.status = .completed
  leased : job.reviewLeaseOwner.isSome = job.reviewLeaseUntil.isSome
  counted : checkpoints.length ≤ job.identity.expectedChunkCount ∧
    job.completedChunkCount ≤ job.identity.expectedChunkCount
  attempted : ∀ checkpoint ∈ checkpoints, checkpoint.attemptCount ≤ job.attemptCount

/-! ### One step -/

variable {old : Standing} {checkpoints others : List DistillChunkCheckpoint}

variable {status : DistillJobStatus}

theorem open_unfinished (open_ : status.terminal = false) : status ≠ .completed := by
  rintro rfl
  cases open_

theorem open_of_active (active : status.active) : status.terminal = false := by
  rw [DistillJobStatus.terminal_eq_not_active, active, Bool.not_true]

theorem attempted_of_map {count : Nat} (attempted : ∀ checkpoint ∈ checkpoints, checkpoint.attemptCount ≤ count)
    (tried : others.map (·.attemptCount) = checkpoints.map (·.attemptCount)) :
    ∀ checkpoint ∈ others, checkpoint.attemptCount ≤ count := by
  intro checkpoint member
  have listed : checkpoint.attemptCount ∈ others.map (·.attemptCount) := List.mem_map_of_mem member
  rw [tried] at listed
  obtain ⟨same, present, equal⟩ := List.mem_map.mp listed
  exact equal ▸ attempted same present

theorem length_of_tried (tried : others.map (·.attemptCount) = checkpoints.map (·.attemptCount)) :
    others.length = checkpoints.length := by
  rw [← List.length_map (·.attemptCount), tried, List.length_map]

theorem tried_map {change : DistillChunkCheckpoint → DistillChunkCheckpoint}
    (same : ∀ checkpoint, (change checkpoint).attemptCount = checkpoint.attemptCount) :
    (checkpoints.map change).map (·.attemptCount) = checkpoints.map (·.attemptCount) := by
  rw [List.map_map]
  exact List.map_congr_left fun checkpoint _ => same checkpoint

theorem attemptCount_recoverExpired (checkpoint : DistillChunkCheckpoint) (now : Time) :
    (checkpoint.recoverExpired now).attemptCount = checkpoint.attemptCount := by
  unfold DistillChunkCheckpoint.recoverExpired
  split <;> rfl

theorem attemptCount_exhaustOpen (checkpoint : DistillChunkCheckpoint) (now : Time) :
    (checkpoint.exhaustOpen now).attemptCount = checkpoint.attemptCount := by
  unfold DistillChunkCheckpoint.exhaustOpen
  split <;> rfl

theorem exhausted_iff {job : SessionDistillJob} :
    job.recoveryExhausted ↔ max 1 job.recoveryBudget ≤ (job.recoveryCount : Int) :=
  decide_eq_true_iff

/-- A job that is put back, superseded or given up, with its chunks as often tried as before. -/
theorem Coherent.laid (holds : Coherent old checkpoints) (status : DistillJobStatus)
    (unfinished : old.status ≠ .completed) {retryAfter reviewLeaseUntil : Option Time} {reviewLeaseOwner : Option String}
    {recoveryCount : Nat} {recoveryBudget : Int}
    (means : { old with status, retryAfter, reviewLeaseOwner, reviewLeaseUntil, recoveryCount, recoveryBudget }.Means others)
    (leased : reviewLeaseOwner.isSome = reviewLeaseUntil.isSome)
    (tried : others.map (·.attemptCount) = checkpoints.map (·.attemptCount)) :
    Coherent { old with status, retryAfter, reviewLeaseOwner, reviewLeaseUntil, recoveryCount, recoveryBudget }
      others where
  means := means
  leased := leased
  done := fun done => absurd (holds.done done) unfinished
  counted := ⟨length_of_tried tried ▸ holds.counted.1, holds.counted.2⟩
  attempted := attempted_of_map holds.attempted tried

theorem Coherent.read (holds : Coherent old checkpoints)
    (complete : completedOf checkpoints = old.identity.expectedChunkCount) :
    ∀ checkpoint ∈ checkpoints, checkpoint.status = .completed :=
  completedOf_eq_length (le_antisymm List.countP_le_length (complete ▸ holds.counted.1))

theorem Standing.means_reviewing (status : old.status = .reviewing) :
    old.Means checkpoints ↔ old.phase = .review ∧ old.Read checkpoints := by
  unfold Standing.Means
  rw [status]

theorem Standing.means_completed (status : old.status = .completed) :
    old.Means checkpoints ↔ old.phase = .done ∧ old.reviewLeaseOwner = none ∧ old.Read checkpoints := by
  unfold Standing.Means
  rw [status]

/-- A change that leaves the columns its status speaks about. -/
theorem Standing.Means.kept {new : Standing} (means : old.Means checkpoints) (status : new.status = old.status)
    (phase : new.phase = old.phase) (attempts : new.attemptCount = old.attemptCount)
    (retry : new.retryAfter = old.retryAfter) (count : new.recoveryCount = old.recoveryCount)
    (budget : new.recoveryBudget = old.recoveryBudget)
    (owner : old.reviewLeaseOwner = none → new.reviewLeaseOwner = none)
    (read : old.Read checkpoints → new.Read others) : new.Means others := by
  unfold Standing.Means at means ⊢
  rw [status, phase, attempts, retry, count, budget]
  cases stands : old.status with
  | reviewing =>
    rw [stands] at means
    exact ⟨means.1, read means.2⟩
  | completed =>
    rw [stands] at means
    exact ⟨means.1, owner means.2.1, read means.2.2⟩
  | _ =>
    rw [stands] at means
    exact means

variable {job : SessionDistillJob} {now : Time}

theorem coherent_advance (holds : Coherent (standing job) checkpoints)
    (complete : completedOf checkpoints = job.expectedChunkCount) :
    Coherent (standing (job.advance now (completedOf checkpoints))) checkpoints := by
  have phase : (job.advance now (completedOf checkpoints)).phase = .review := by
    unfold SessionDistillJob.advance
    split
    · next reviewing => exact ((Standing.means_reviewing reviewing).mp holds.means).1
    · rfl
  exact { holds with
    means := ⟨phase, holds.read complete, complete⟩
    done := fun done => by cases phase.symm.trans done
    counted := ⟨holds.counted.1, complete.le⟩ }

theorem coherent_startChunks {owner : String} {expiry : Time} {selected : List String}
    (holds : Coherent (standing job) checkpoints) :
    Coherent (standing (job.startChunks now)) (checkpoints.map fun checkpoint =>
      if checkpoint.chunkId ∈ selected then checkpoint.lease now owner expiry else checkpoint) where
  means := ⟨rfl, Nat.le_add_left 1 _⟩
  done := fun done => by cases done
  leased := holds.leased
  counted := ⟨by rw [List.length_map]; exact holds.counted.1, holds.counted.2⟩
  attempted := by
    intro checkpoint member
    obtain ⟨old, present, rfl⟩ := List.mem_map.mp member
    have before := holds.attempted old present
    split
    · exact Nat.succ_le_succ before
    · exact before.trans (Nat.le_add_right _ 1)

theorem coherent_countChunks {checkpoint : DistillChunkCheckpoint} (holds : Coherent (standing job) checkpoints)
    (member : checkpoint ∈ checkpoints) (processing : checkpoint.status = .processing)
    (tried : others.map (·.attemptCount) = checkpoints.map (·.attemptCount)) :
    Coherent (standing (job.countChunks now (completedOf others))) others := by
  have attempted := attempted_of_map holds.attempted tried
  have length : others.length ≤ job.expectedChunkCount := length_of_tried tried ▸ holds.counted.1
  have counted := And.intro length (List.countP_le_length.trans length : completedOf others ≤ job.expectedChunkCount)
  unfold SessionDistillJob.countChunks
  split
  · next complete =>
    have every := completedOf_eq_length (le_antisymm List.countP_le_length (complete ▸ length))
    exact { holds with means := ⟨rfl, every, complete⟩, done := (fun done => by cases done), counted, attempted }
  · -- The status stays, and a job that is reviewed or completed has no chunk left to write.
    refine { holds with means := ?_, counted, attempted }
    have unread : ¬(standing job).Read checkpoints := fun read => by cases processing.symm.trans (read.1 checkpoint member)
    exact holds.means.kept rfl rfl rfl rfl rfl rfl id fun read => absurd read unread

theorem coherent_step {ledger : Ledger} {op : LedgerOp} {before after : JobView}
    (step : JobStep hashes ledger now op before after) (holds : Coherent (standing before.job) before.checkpoints) :
    Coherent (standing after.job) after.checkpoints := by
  cases step with
  | annotate same => exact same ▸ holds
  | markStale active => exact holds.laid .stale (open_unfinished (open_of_active active)) trivial holds.leased rfl
  | recheck | claimManual => exact { holds with }
  | place schedulable _ placed =>
    have unfinished := open_unfinished (SessionDistillJob.terminal_of_schedulable schedulable)
    rcases placed with rfl | rfl
    · exact holds.laid .queued unfinished trivial holds.leased rfl
    · exact holds.laid .parked unfinished trivial holds.leased rfl
  | activate parked => exact holds.laid .queued (by simp [standing, parked]) trivial holds.leased rfl
  | leaseChunks => exact coherent_startChunks holds
  | recover open_ =>
    exact holds.laid .retryable (open_unfinished open_) rfl holds.leased
      (tried_map fun checkpoint => attemptCount_recoverExpired checkpoint now)
  | recoverFailed open_ _ exhausted =>
    exact holds.laid .failed (open_unfinished open_) (exhausted_iff.mp exhausted) holds.leased
      (tried_map fun checkpoint => (attemptCount_exhaustOpen _ now).trans (attemptCount_recoverExpired checkpoint now))
  | completeChunk _ member _ processing => exact coherent_countChunks holds member processing (tried_map fun checkpoint => by split <;> rfl)
  | advance _ complete => exact coherent_advance holds complete
  | loseWorker processing => exact holds.laid .retryable (by simp [standing, processing]) rfl holds.leased rfl
  | loseWorkerFailed processing exhausted =>
    exact holds.laid .failed (by simp [standing, processing]) (exhausted_iff.mp exhausted) holds.leased
      (tried_map fun checkpoint => attemptCount_exhaustOpen checkpoint now)
  | grantReview _ _ reviewing =>
    have means := (Standing.means_reviewing reviewing).mp holds.means
    split <;> exact { holds with means := (Standing.means_reviewing reviewing).mpr means, leased := rfl }
  | failReview _ reviewing _ exhausted =>
    exact holds.laid .failed (by simp [standing, reviewing]) (exhausted_iff.mp exhausted) rfl rfl
  | renewReview _ _ owned => exact { holds with leased := congrArg Option.isSome owned }
  | releaseReview => exact { holds with means := holds.means.kept rfl rfl rfl rfl rfl rfl (fun _ => rfl) id, leased := rfl }
  | staleAtFinalize _ unfinished => exact holds.laid .stale unfinished trivial holds.leased rfl
  | finalize _ _ _ _ complete =>
    exact { holds with
      means := ⟨rfl, rfl, holds.read complete, complete⟩
      done := fun _ => rfl
      leased := rfl
      counted := ⟨holds.counted.1, complete.le⟩ }
  | defer _ open_ =>
    exact holds.laid .retryable (open_unfinished open_) rfl rfl (tried_map fun checkpoint => by split <;> rfl)
  | prune =>
    exact { holds with
      means := holds.means.kept rfl rfl rfl rfl rfl rfl id fun read => ⟨List.forall_mem_nil _, read.2⟩
      counted := ⟨Nat.zero_le _, holds.counted.2⟩
      attempted := List.forall_mem_nil _ }

theorem coherent_created {ledger : Ledger} {op : LedgerOp} {view : JobView}
    (created : Created hashes ledger now op view) : Coherent (standing view.job) view.checkpoints := by
  cases created with
  | enqueue =>
    refine ⟨trivial, (fun done => by cases done), rfl, ⟨(List.length_map _).le, Nat.zero_le _⟩, fun checkpoint member => ?_⟩
    obtain ⟨chunk, -, rfl⟩ := List.mem_map.mp member
    exact le_rfl

/-! ### Runs -/

variable {world final : World} {events : List Event}

theorem coherent_inductive :
    Inductive hashes (fun _ _ => True) fun _ view => Coherent (standing view.job) view.checkpoints where
  aged := fun _ _ _ _ holds => holds
  stepped := fun _ _ _ _ _ _ step holds => coherent_step step holds

theorem reachable_coherent (reached : Reachable hashes world) :
    EveryJob (fun _ view => Coherent (standing view.job) view.checkpoints) world := by
  obtain ⟨events, run⟩ := reached
  exact exec_everyJob coherent_inductive (fun _ _ _ _ => coherent_created) (run.restrict fun _ _ => trivial) .empty
    (everyJob_initial _)

/-- Whatever calls were made, each job row stored agrees with itself and with its checkpoint rows. -/
theorem jobs_coherent (reached : Reachable hashes world) :
    ∀ job ∈ world.ledger.jobs.rows, Coherent (standing job) (world.ledger.checkpointsOf job.id) :=
  fun job member => reachable_coherent reached job.id _ (Ledger.view_of_getJob (Table.get?_of_mem member))

theorem jobs_coherent_failed :
    ∃ job ∈ (World.initial.after .spelled exhaustedEvents).ledger.jobs.rows, job.status = .failed ∧
      Coherent (standing job) ((World.initial.after .spelled exhaustedEvents).ledger.checkpointsOf job.id) := by
  have listed : DistillJobStatus.failed ∈ (World.initial.after .spelled exhaustedEvents).ledger.jobs.rows.map (·.status) := by
    decide
  obtain ⟨job, member, failed⟩ := List.mem_map.mp listed
  exact ⟨job, member, failed, jobs_coherent (reachable_after (by decide)) job member⟩

/-! ### Calls on what a run has stored -/

theorem claimedRows_returns {ledger : Ledger} {owner : String} {expiry now : Time} {selected : List DistillChunkCheckpoint}
    (stored : ∀ checkpoint ∈ selected, ledger.Backed checkpoint) :
    ∃ claimed, ledger.claimedRows owner expiry now selected = .ok claimed := by
  induction selected with
  | nil => exact ⟨[], rfl⟩
  | cons checkpoint rest ih =>
    obtain ⟨claimed, read⟩ := ih fun other member => stored other (List.mem_cons_of_mem _ member)
    obtain ⟨_, chunk, -, found, -⟩ := stored checkpoint List.mem_cons_self
    exact ⟨(chunk, checkpoint.lease now owner expiry) :: claimed, by rw [Ledger.claimedRows]; simp only [found, read]⟩

section returns

variable {ledger : Ledger}

theorem claimChunks_returns (backed : ∀ checkpoint ∈ ledger.checkpoints.rows, ledger.Backed checkpoint) {jobId owner source : String}
    {limit : Option Int} {leaseSeconds : Int} {manual : Bool} (visible : hasVisible owner) (known : (ledger.getJob jobId).isSome) :
    ∃ answer, ledger.claimChunks jobId owner limit leaseSeconds source (.ok manual) now = .ok answer := by
  obtain ⟨job, found⟩ := Option.isSome_iff_exists.mp known
  obtain ⟨claimed, rows⟩ : ∃ claimed, ledger.claimedRows owner (now + seconds (max 1 leaseSeconds).toNat) now
      (ledger.selectChunks jobId limit) = .ok claimed :=
    claimedRows_returns fun checkpoint member =>
      backed checkpoint (List.mem_filter.mp (selectChunks_claimable member).1).1
  obtain ⟨refused, checked⟩ : ∃ refused, refusesBackground job source (.ok manual) = .ok refused := by
    unfold refusesBackground manualJobCheck
    split
    · exact ⟨false, rfl⟩
    · split <;> exact ⟨_, rfl⟩
  unfold Ledger.claimChunks
  rw [if_neg (by simp [visible])]
  simp only [found, checked, rows]
  cases refused with
  | true => exact ⟨_, rfl⟩
  | false =>
    simp only
    split
    · exact ⟨_, rfl⟩
    · split
      · exact ⟨_, rfl⟩
      · split
        · exact ⟨_, rfl⟩
        · cases claimed <;> exact ⟨_, rfl⟩

/-- The key of the new job is unique: superseding keeps the keys, and no stored job has it. -/
theorem enqueue_returns (pointers : Pointers ledger) {scan : Scan QueueRow} {request : EnqueueRequest}
    {input : TranscriptSource × List TranscriptChunk} (accepted : ledger.enqueueInput hashes request = .ok input) :
    ∃ answer, ledger.enqueue hashes scan request now = .ok answer := by
  obtain ⟨source, chunks⟩ := input
  obtain ⟨known, -⟩ := source_of_enqueueInput accepted
  have present := pointers source (Table.mem_of_get? known)
  unfold Ledger.enqueue
  simp only [accepted]
  split
  · exact ⟨_, rfl⟩
  · next fresh =>
    have unique : ((ledger.markOlderJobsStaleLocked source now).jobs.rows.any fun other =>
        other.id ≠ (request.newJob hashes source chunks.length now).id ∧
          other.idempotencyKey = (request.newJob hashes source chunks.length now).idempotencyKey) = false := by
      rw [List.any_eq_false]
      intro other member conflict
      rw [(markOlder_rows ledger).rows] at member
      obtain ⟨old, stored, rfl⟩ := List.mem_map.mp member
      have key := congrArg JobIdentity.idempotencyKey (identity_superseded : (superseded source now old).identity = _)
      exact List.find?_eq_none.mp fresh old stored (decide_eq_true (key.symm.trans (of_decide_eq_true conflict).2))
    unfold Ledger.insertJobLocked
    rw [unique, if_neg Bool.false_ne_true, if_neg fun missing => by
      rw [Option.isNone_iff_eq_none] at missing
      cases (congrArg Option.isSome missing).symm.trans present]
    exact ⟨_, rfl⟩

theorem finalize_returns (sound : References hashes ledger) {jobId text : String} {job : SessionDistillJob} {owner : Option String}
    {review : Dict} {outputs : List String}
    (found : ledger.getJob jobId = some job) (admitted : job.finalizeRefusal now owner = none)
    (complete : ledger.completedCount jobId = job.expectedChunkCount)
    (read : ledger.reconstruct hashes job.sourceId job.sourceRevision = .ok text) :
    ∃ answer, ledger.finalize hashes jobId review outputs owner now = .ok answer := by
  obtain ⟨row, stored⟩ := Option.isSome_iff_exists.mp (sound.jobRevision job (Table.mem_of_get? found))
  obtain ⟨source, known⟩ := Option.isSome_iff_exists.mp (sound.revisionSource row (Table.mem_of_get? stored))
  rw [show row.sourceId = job.sourceId from congrArg Prod.fst (Table.key_of_get? stored)] at known
  unfold Ledger.finalize
  simp only [found, admitted, known, read]
  split
  · exact ⟨_, rfl⟩
  · split
    · exact ⟨_, rfl⟩
    · exact ⟨_, if_neg (not_not.mpr complete)⟩

end returns

/-- On a ledger that calls have made, no row that a call refers to is missing: `claim_chunks` finds the chunks of its
checkpoints, `enqueue` breaks no constraint, and `finalize` finds the source of its job. -/
theorem calls_return (reached : Reachable hashes world) (now : Time) :
    (∀ jobId owner limit leaseSeconds source, ∀ manual : Bool, hasVisible owner → (world.ledger.getJob jobId).isSome →
      ∃ answer, world.ledger.claimChunks jobId owner limit leaseSeconds source (.ok manual) now = .ok answer) ∧
    (∀ scan request input, world.ledger.enqueueInput hashes request = .ok input →
      ∃ answer, world.ledger.enqueue hashes scan request now = .ok answer) ∧
    ∀ jobId job review outputs owner text, world.ledger.getJob jobId = some job → job.finalizeRefusal now owner = none →
      world.ledger.completedCount jobId = job.expectedChunkCount →
      world.ledger.reconstruct hashes job.sourceId job.sourceRevision = .ok text →
      ∃ answer, world.ledger.finalize hashes jobId review outputs owner now = .ok answer := by
  obtain ⟨sound, pointers⟩ := reachable_integrity reached
  refine ⟨fun _ _ _ _ _ _ visible known => ?_, fun _ _ _ accepted => ?_, fun _ _ _ _ _ _ found admitted complete read => ?_⟩
  · exact claimChunks_returns sound.backed visible known
  · exact enqueue_returns pointers accepted
  · exact finalize_returns sound found admitted complete read

theorem calls_return_claim :
    ∃ answer, (World.initial.after .spelled (readEvents.take 2)).ledger.claimChunks (sampleJob .spelled "s" ["a", "b"]) "w"
      none 300 "codex" (.ok false) 3 = .ok answer :=
  (calls_return (reachable_after (by decide)) 3).1 _ _ _ _ _ _ (by decide) (by decide)

/-! ### Completed jobs -/

/-- The job with its checkpoints, but for the flag of the interactive Agent and pruned checkpoints. -/
structure Frozen (job : Standing) (checkpoints : List DistillChunkCheckpoint) (view : JobView) : Prop where
  job : standing view.job = { job with manualOnly := view.job.manualOnly }
  checkpoints : view.checkpoints = checkpoints ∨ view.checkpoints = []

theorem frozen_step {ledger : Ledger} {op : LedgerOp} {before after : JobView} {kept : Standing}
    (coherent : Coherent kept checkpoints) (completed : kept.status = .completed)
    (step : JobStep hashes ledger now op before after) (holds : Frozen kept checkpoints before) :
    Frozen kept checkpoints after := by
  have status : before.job.status = .completed := (congrArg Standing.status holds.job).trans completed
  have elsewhere : ∀ {status : DistillJobStatus}, status ≠ .completed → before.job.status ≠ status :=
    fun other same => other (same.symm.trans status)
  have closed : before.job.status.terminal ≠ false := by rw [status]; decide
  have kept_means := (Standing.means_completed completed).mp coherent.means
  have owner : before.job.reviewLeaseOwner = none :=
    (congrArg Standing.reviewLeaseOwner holds.job).trans kept_means.2.1
  have settled : ∀ checkpoint ∈ before.checkpoints, checkpoint.status = .completed := by
    rcases holds.checkpoints with same | empty
    · rw [same]
      exact kept_means.2.2.1
    · rw [empty]
      exact List.forall_mem_nil _
  cases step with
  | annotate same =>
    have flag := congrArg Standing.manualOnly same
    exact ⟨(same.trans holds.job).trans (congrArg (fun manualOnly => { kept with manualOnly }) flag.symm), holds.checkpoints⟩
  | markStale active => exact absurd (open_of_active active) closed
  | recheck | claimManual => exact ⟨congrArg (fun old : Standing => { old with manualOnly := true }) holds.job, holds.checkpoints⟩
  | place schedulable => exact absurd (SessionDistillJob.terminal_of_schedulable schedulable) closed
  | activate other | loseWorker other | loseWorkerFailed other | grantReview _ _ other | failReview _ other | renewReview _ other =>
    exact absurd other (elsewhere (by decide))
  | recover open_ | recoverFailed open_ | advance open_ | defer _ open_ | leaseChunks _ _ open_ => exact absurd open_ closed
  | completeChunk _ member _ processing =>
    cases processing.symm.trans (settled _ member)
  | releaseReview _ owned =>
    rw [owner] at owned
    cases owned
  | staleAtFinalize _ unfinished | finalize _ unfinished => exact absurd status unfinished
  | prune => exact ⟨holds.job, .inr rfl⟩

/-- What a completed job has recorded stays: until it is hard deleted, no call changes its status, its counts, its
leases or its recovery, and its checkpoints go only as a whole, with the pruned evidence. -/
theorem completed_frozen (reached : Reachable hashes world)
    (run : Exec (Restrict (Step hashes) fun _ event => dropsJobs event.op = false) world events final)
    {jobId : String} {job : SessionDistillJob} (found : world.ledger.getJob jobId = some job)
    (completed : job.status = .completed) :
    ∃ job', final.ledger.getJob jobId = some job' ∧
      standing job' = { standing job with manualOnly := job'.manualOnly } ∧
      (final.ledger.checkpointsOf jobId = world.ledger.checkpointsOf jobId ∨ final.ledger.checkpointsOf jobId = []) := by
  have viewed := Ledger.view_of_getJob found
  have coherent := reachable_coherent reached jobId _ viewed
  have frozen : Inductive hashes (fun _ event => dropsJobs event.op = false) fun _ =>
      Frozen (standing job) (world.ledger.checkpointsOf jobId) :=
    ⟨fun _ _ _ _ holds => holds, fun _ _ _ _ _ _ step holds => frozen_step coherent completed step holds⟩
  obtain ⟨view, viewed', holds⟩ := exec_job frozen (fun _ _ kept => kept) run (reachable_integrity reached) viewed ⟨rfl, .inl rfl⟩
  obtain ⟨found', listed⟩ := Ledger.view_eq_some.mp viewed'
  exact ⟨view.job, found', holds.job, by rw [listed]; exact holds.checkpoints⟩

/-- The failed job is completed after all, then the interactive Agent reserves it. -/
theorem completed_frozen_reserved :
    let world := World.initial.after .spelled
      (exhaustedEvents ++ [⟨seconds 500, .finalize (sampleJob .spelled "s" ["a"]) [] [] none⟩])
    let final := world.after .spelled [⟨seconds 600, .reserveManual (sampleJob .spelled "s" ["a"])⟩]
    ∃ job job', world.ledger.getJob (sampleJob .spelled "s" ["a"]) = some job ∧
      final.ledger.getJob (sampleJob .spelled "s" ["a"]) = some job' ∧
      standing job' = { standing job with manualOnly := job'.manualOnly } := by
  intro world final
  have status : sampleStatus world = some .completed := by decide
  obtain ⟨job, found, completed⟩ := Option.map_eq_some_iff.mp status
  obtain ⟨job', found', kept, -⟩ := completed_frozen (reachable_after (by decide))
    ((exec_after (by decide)).restrict (by decide) :
      Exec (Restrict (Step .spelled) fun _ event => dropsJobs event.op = false) world _ final) found completed
  exact ⟨job, job', found, found', kept⟩

/-! ### What only grows -/

/-- The job is the same one, tried and recovered no less often, and a claim of the interactive Agent stays. -/
structure Grown (old new : Standing) : Prop where
  identity : new.identity = old.identity
  attempts : old.attemptCount ≤ new.attemptCount
  recoveries : old.recoveryCount ≤ new.recoveryCount
  manual : old.manualOnly → new.manualOnly

theorem grown_step {ledger : Ledger} {op : LedgerOp} {before after : JobView}
    (step : JobStep hashes ledger now op before after) (holds : Grown old (standing before.job)) :
    Grown old (standing after.job) := by
  cases step with
  | annotate same => exact same ▸ holds
  | recheck | claimManual => exact { holds with manual := fun _ => rfl }
  | leaseChunks => exact { holds with attempts := holds.attempts.trans (Nat.le_add_right _ 1) }
  | recover | recoverFailed | loseWorker | loseWorkerFailed | failReview =>
    exact { holds with recoveries := holds.recoveries.trans (Nat.le_add_right _ 1) }
  | grantReview =>
    split
    · exact { holds with recoveries := holds.recoveries.trans (Nat.le_add_right _ 1) }
    · exact { holds with }
  | completeChunk =>
    unfold SessionDistillJob.countChunks
    split <;> exact { holds with }
  | _ => exact { holds with }

/-- Until it is hard deleted, a job keeps its identity, and its attempts and recoveries are never uncounted. -/
theorem jobs_grow (reached : Reachable hashes world)
    (run : Exec (Restrict (Step hashes) fun _ event => dropsJobs event.op = false) world events final)
    {jobId : String} {job : SessionDistillJob} (found : world.ledger.getJob jobId = some job) :
    ∃ job', final.ledger.getJob jobId = some job' ∧ Grown (standing job) (standing job') := by
  have growing : Inductive hashes (fun _ event => dropsJobs event.op = false) fun _ view =>
      Grown (standing job) (standing view.job) :=
    ⟨fun _ _ _ _ holds => holds, fun _ _ _ _ _ _ step holds => grown_step step holds⟩
  obtain ⟨view, viewed, grown⟩ := exec_job growing (fun _ _ kept => kept) run (reachable_integrity reached)
    (Ledger.view_of_getJob found) ⟨rfl, le_rfl, le_rfl, id⟩
  exact ⟨view.job, (Ledger.view_eq_some.mp viewed).1, grown⟩

/-- Three takeovers of a review, up to the end of its budget. -/
theorem jobs_grow_takeovers :
    let world := World.initial.after .spelled (exhaustedEvents.take 5)
    let final := world.after .spelled (exhaustedEvents.drop 5)
    ∃ job job', world.ledger.getJob (sampleJob .spelled "s" ["a"]) = some job ∧
      final.ledger.getJob (sampleJob .spelled "s" ["a"]) = some job' ∧ Grown (standing job) (standing job') := by
  intro world final
  have status : sampleStatus world = some .reviewing := by decide
  obtain ⟨job, found, -⟩ := Option.map_eq_some_iff.mp status
  obtain ⟨job', found', grown⟩ := jobs_grow (reachable_after (by decide))
    ((exec_after (by decide)).restrict (by decide) :
      Exec (Restrict (Step .spelled) fun _ event => dropsJobs event.op = false) world _ final) found
  exact ⟨job, job', found, found', grown⟩

end HarnessMem.Lifecycle
