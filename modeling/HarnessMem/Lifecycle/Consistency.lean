import HarnessMem.Lifecycle.Runs

/-! A job row and its checkpoint rows agree in every world reached without
erasing evidence.
-/

set_option autoImplicit false

namespace HarnessMem.Lifecycle

open Storage Library

variable {hashes : Hashes}

/-- A checkpoint names a lease exactly while it is being processed. -/
structure Leased (checkpoint : DistillChunkCheckpoint) : Prop where
  owner : checkpoint.leaseOwner.isSome ↔ checkpoint.status = .processing
  expiry : checkpoint.leaseUntil.isSome ↔ checkpoint.status = .processing

/-- What a job row says about its checkpoints. -/
structure Consistent (view : JobView) : Prop where
  counted : view.checkpoints.length = view.job.expectedChunkCount
  reviewed : view.job.status = .reviewing ∨ view.job.status = .completed →
    (∀ checkpoint ∈ view.checkpoints, checkpoint.status = .completed) ∧
      view.job.completedChunkCount = view.job.expectedChunkCount
  failed : view.job.status = .failed → ∀ checkpoint ∈ view.checkpoints, checkpoint.status ≠ .processing
  leased : ∀ checkpoint ∈ view.checkpoints, Leased checkpoint

def erasesEvidence : LedgerOp → Bool
  | .pruneCompletedDistillEvidence .. | .hardDeleteRevisions .. => true
  | _ => false

/-! ### Checkpoints -/

variable {checkpoints : List DistillChunkCheckpoint}

theorem completedOf_eq_length (complete : completedOf checkpoints = checkpoints.length) :
    ∀ checkpoint ∈ checkpoints, checkpoint.status = .completed := by
  intro checkpoint member
  exact of_decide_eq_true (List.countP_eq_length.mp complete checkpoint member)

theorem leased_lease (checkpoint : DistillChunkCheckpoint) (now expiry : Time) (owner : String) :
    Leased (checkpoint.lease now owner expiry) := by
  constructor <;> simp [DistillChunkCheckpoint.lease]

theorem leased_complete (checkpoint : DistillChunkCheckpoint) (now : Time) (result : Dict) :
    Leased (checkpoint.complete now result) := by
  constructor <;> simp [DistillChunkCheckpoint.complete]

theorem leased_giveBack (checkpoint : DistillChunkCheckpoint) (now : Time) (error : String) :
    Leased (checkpoint.giveBack now error) := by
  constructor <;> simp [DistillChunkCheckpoint.giveBack]

variable {checkpoint : DistillChunkCheckpoint}

theorem leased_recoverExpired (now : Time) (leased : Leased checkpoint) :
    Leased (checkpoint.recoverExpired now) := by
  unfold DistillChunkCheckpoint.recoverExpired
  split
  · exact leased_giveBack _ _ _
  · exact leased

theorem leased_exhaustOpen (now : Time) (leased : Leased checkpoint) :
    Leased (checkpoint.exhaustOpen now) := by
  unfold DistillChunkCheckpoint.exhaustOpen
  split
  · exact leased
  · constructor <;> simp [DistillChunkCheckpoint.exhaust]

theorem exhaustOpen_settled (checkpoint : DistillChunkCheckpoint) (now : Time) :
    (checkpoint.exhaustOpen now).status ≠ .processing := by
  unfold DistillChunkCheckpoint.exhaustOpen
  split
  · next completed => simp [completed]
  · simp [DistillChunkCheckpoint.exhaust]

theorem leased_map {change : DistillChunkCheckpoint → DistillChunkCheckpoint}
    (leased : ∀ checkpoint ∈ checkpoints, Leased checkpoint)
    (kept : ∀ checkpoint, Leased checkpoint → Leased (change checkpoint)) :
    ∀ checkpoint ∈ checkpoints.map change, Leased checkpoint := by
  intro checkpoint member
  obtain ⟨old, present, rfl⟩ := List.mem_map.mp member
  exact kept old (leased old present)

/-! ### One step -/

variable {job : SessionDistillJob}

theorem consistent_open (counted : checkpoints.length = job.expectedChunkCount)
    (leased : ∀ checkpoint ∈ checkpoints, Leased checkpoint)
    (unreviewed : job.status ≠ .reviewing) (uncompleted : job.status ≠ .completed)
    (unfailed : job.status ≠ .failed) : Consistent ⟨job, checkpoints⟩ where
  counted := counted
  reviewed := fun reviewed => (reviewed.elim unreviewed uncompleted).elim
  failed := fun failed => (unfailed failed).elim
  leased := leased

theorem consistent_same {job' : SessionDistillJob}
    (holds : Consistent ⟨job, checkpoints⟩) (status : job'.status = job.status)
    (expected : job'.expectedChunkCount = job.expectedChunkCount)
    (completed : job'.completedChunkCount = job.completedChunkCount) : Consistent ⟨job', checkpoints⟩ where
  counted := holds.counted.trans expected.symm
  reviewed := by
    intro reviewed
    simp only at reviewed ⊢
    rw [status] at reviewed
    rw [completed, expected]
    exact holds.reviewed reviewed
  failed := fun failed => holds.failed (status.symm.trans failed)
  leased := holds.leased

/-- A fully read job goes on to its review, or is completed after it. -/
theorem consistent_complete {job' : SessionDistillJob}
    (holds : Consistent ⟨job, checkpoints⟩) (complete : completedOf checkpoints = job.expectedChunkCount)
    (unfailed : job'.status ≠ .failed) (expected : job'.expectedChunkCount = job.expectedChunkCount)
    (completed : job'.completedChunkCount = completedOf checkpoints) : Consistent ⟨job', checkpoints⟩ where
  counted := holds.counted.trans expected.symm
  reviewed := fun _ => ⟨completedOf_eq_length (complete.trans holds.counted.symm),
    completed.trans (complete.trans expected.symm)⟩
  failed := fun failed => (unfailed failed).elim
  leased := holds.leased

theorem consistent_failed (status : job.status = .failed) (counted : checkpoints.length = job.expectedChunkCount)
    (leased : ∀ checkpoint ∈ checkpoints, Leased checkpoint)
    (settled : ∀ checkpoint ∈ checkpoints, checkpoint.status ≠ .processing) : Consistent ⟨job, checkpoints⟩ where
  counted := counted
  reviewed := by simp [status]
  failed := fun _ => settled
  leased := leased

variable {now : Time}

theorem consistent_completeChunk {chunkId : String} {result : Dict}
    (holds : Consistent ⟨job, checkpoints⟩) (member : checkpoint ∈ checkpoints)
    (processing : checkpoint.status = .processing) :
    Consistent ⟨job.countChunks now (completedOf (checkpoints.map fun checkpoint =>
        if checkpoint.chunkId = chunkId then checkpoint.complete now result else checkpoint)),
      checkpoints.map fun checkpoint =>
        if checkpoint.chunkId = chunkId then checkpoint.complete now result else checkpoint⟩ := by
  have leased : ∀ checkpoint ∈ checkpoints.map fun checkpoint =>
      if checkpoint.chunkId = chunkId then checkpoint.complete now result else checkpoint, Leased checkpoint := by
    refine leased_map holds.leased fun checkpoint leased => ?_
    split
    · exact leased_complete _ _ _
    · exact leased
  have counted := holds.counted
  have length : (checkpoints.map fun checkpoint =>
      if checkpoint.chunkId = chunkId then checkpoint.complete now result else checkpoint).length =
        checkpoints.length := List.length_map _
  generalize (checkpoints.map fun checkpoint =>
    if checkpoint.chunkId = chunkId then checkpoint.complete now result else checkpoint) = written at *
  unfold SessionDistillJob.countChunks
  dsimp only
  split
  · next complete =>
    exact ⟨length.trans counted, fun _ => ⟨completedOf_eq_length (complete.trans (length.trans counted).symm),
      complete⟩, nofun, leased⟩
  · refine consistent_open (length.trans counted) leased ?_ ?_ ?_
    · intro reviewing
      have completed := (holds.reviewed (.inl reviewing)).1 checkpoint member
      rw [processing] at completed
      cases completed
    · intro finished
      have completed := (holds.reviewed (.inr finished)).1 checkpoint member
      rw [processing] at completed
      cases completed
    · exact fun failed => holds.failed failed checkpoint member processing

theorem consistent_step {ledger : Ledger} {op : LedgerOp} {view view' : JobView}
    (kept : erasesEvidence op = false) (step : JobStep hashes ledger now op view view')
    (holds : Consistent view) : Consistent view' := by
  have counted := holds.counted
  have leased := holds.leased
  cases step with
  | annotate same =>
    exact consistent_same holds (congrArg Standing.status same)
      (congrArg (fun kept => kept.identity.expectedChunkCount) same) (congrArg Standing.completedChunkCount same)
  | markStale => exact consistent_open counted leased nofun nofun nofun
  | recheck => exact consistent_same holds rfl rfl rfl
  | claimManual => exact consistent_same holds rfl rfl rfl
  | place _ _ placed =>
    rcases placed with rfl | rfl
    · exact consistent_open counted leased nofun nofun nofun
    · exact consistent_open counted leased nofun nofun nofun
  | activate => exact consistent_open counted leased nofun nofun nofun
  | leaseChunks =>
    refine consistent_open ((List.length_map _).trans counted) (leased_map leased ?_) nofun nofun nofun
    intro checkpoint old
    split
    · exact leased_lease _ _ _ _
    · exact old
  | recover =>
    exact consistent_open ((List.length_map _).trans counted) (leased_map leased fun _ => leased_recoverExpired now)
      nofun nofun nofun
  | recoverFailed =>
    refine consistent_failed rfl ((List.length_map _).trans counted) (leased_map leased ?_) ?_
    · exact fun checkpoint old => leased_exhaustOpen now (leased_recoverExpired now old)
    · intro checkpoint member
      obtain ⟨old, _, rfl⟩ := List.mem_map.mp member
      exact exhaustOpen_settled _ now
  | completeChunk _ member _ processing => exact consistent_completeChunk holds member processing
  | advance _ complete => exact consistent_complete holds complete nofun rfl rfl
  | loseWorker => exact consistent_open counted leased nofun nofun nofun
  | loseWorkerFailed =>
    refine consistent_failed rfl ((List.length_map _).trans counted) (leased_map leased ?_) ?_
    · exact fun _ => leased_exhaustOpen now
    · intro checkpoint member
      obtain ⟨old, _, rfl⟩ := List.mem_map.mp member
      exact exhaustOpen_settled _ now
  | grantReview =>
    refine consistent_same holds ?_ ?_ ?_ <;> split <;> rfl
  | failReview _ reviewing =>
    refine consistent_failed rfl counted leased fun checkpoint member processing => ?_
    have completed := (holds.reviewed (.inl reviewing)).1 checkpoint member
    rw [processing] at completed
    cases completed
  | renewReview => exact consistent_same holds rfl rfl rfl
  | releaseReview => exact consistent_same holds rfl rfl rfl
  | staleAtFinalize => exact consistent_open counted leased nofun nofun nofun
  | finalize _ _ _ _ complete => exact consistent_complete holds complete nofun rfl rfl
  | defer =>
    refine consistent_open ((List.length_map _).trans counted) (leased_map leased ?_) nofun nofun nofun
    intro checkpoint old
    split
    · exact leased_giveBack _ _ _
    · exact old
  | prune => cases kept

theorem consistent_created {ledger : Ledger} {op : LedgerOp} {view : JobView}
    (created : Created hashes ledger now op view) : Consistent view := by
  cases created with
  | enqueue =>
    refine consistent_open (List.length_map _) ?_ nofun nofun nofun
    intro checkpoint member
    obtain ⟨chunk, _, rfl⟩ := List.mem_map.mp member
    constructor <;> simp [newCheckpoint]

theorem consistent_inductive :
    Inductive hashes (fun _ event => erasesEvidence event.op = false) fun _ => Consistent where
  aged := fun _ _ _ _ holds => holds
  stepped := fun _ _ _ _ kept _ step holds => consistent_step kept step holds

/-! ### Runs -/

/-- Without pruning and hard deletes, every stored job agrees with its checkpoints. -/
theorem jobs_consistent {world : World} {events : List Event}
    (run : Exec (Step hashes) .initial events world) (kept : ∀ event ∈ events, erasesEvidence event.op = false)
    (jobId : String) (job : SessionDistillJob) (found : world.ledger.getJob jobId = some job) :
    Consistent ⟨job, world.ledger.checkpointsOf jobId⟩ :=
  exec_everyJob consistent_inductive (fun _ _ _ _ => consistent_created)
    (run.restrict kept) .empty (everyJob_initial _) jobId _ (Ledger.view_of_getJob found)

def readEvents : List Event :=
  let jobId := sampleJob .spelled "s" ["a", "b"]
  [⟨1, sampleCapture .spelled "s" ["a", "b"]⟩, ⟨2, sampleEnqueue "s"⟩, ⟨3, sampleClaim jobId "w"⟩,
    ⟨4, .checkpointChunk jobId "sha256:ab#a" "w" []⟩, ⟨5, .checkpointChunk jobId "sha256:ab#b" "w" []⟩]

theorem jobs_consistent_reviewing :
    ∃ job, (World.initial.after .spelled readEvents).ledger.getJob (sampleJob .spelled "s" ["a", "b"]) = some job ∧
      job.status = .reviewing ∧
      Consistent ⟨job, (World.initial.after .spelled readEvents).ledger.checkpointsOf
        (sampleJob .spelled "s" ["a", "b"])⟩ := by
  have status : ((World.initial.after .spelled readEvents).ledger.getJob
      (sampleJob .spelled "s" ["a", "b"])).map (·.status) = some .reviewing := by decide
  obtain ⟨job, found, reviewing⟩ := Option.map_eq_some_iff.mp status
  exact ⟨job, found, reviewing, jobs_consistent (exec_after (by decide)) (by decide) _ job found⟩

end HarnessMem.Lifecycle

/-! Which calls can bring a job back from a terminal status. Two of the calls do
not look at the terminal set: `checkpoint_chunk` asks only for a live lease, and
`finalize` asks only whether the job is completed.
-/

namespace HarnessMem.Lifecycle

open Storage Library

variable {hashes : Hashes}

/-- `checkpoint_chunk` by the owner of a live lease on the last open chunk of a terminal job. -/
def LateCheckpoint (ledger : Ledger) (now : Time) (jobId chunkId owner : String) : Prop :=
  ∃ job checkpoint expiry, ledger.getJob jobId = some job ∧ job.status.terminal ∧
    checkpoint ∈ ledger.checkpointsOf jobId ∧ checkpoint.chunkId = chunkId ∧ checkpoint.status = .processing ∧
    checkpoint.leaseOwner = some owner ∧ checkpoint.leaseUntil = some expiry ∧ now ≤ expiry ∧
    completedOf (ledger.checkpointsOf jobId) + 1 = job.expectedChunkCount

/-- `finalize` on a failed or stale job that passes every gate the call has. -/
def LateFinalize (hashes : Hashes) (ledger : Ledger) (now : Time) (jobId : String) (owner : Option String) : Prop :=
  ∃ job source text, ledger.getJob jobId = some job ∧ (job.status = .failed ∨ job.status = .stale) ∧
    job.finalizeRefusal now owner = none ∧ ledger.getSource job.sourceId = some source ∧
    source.sourceRevision = job.sourceRevision ∧
    completedOf (ledger.checkpointsOf jobId) = job.expectedChunkCount ∧
    ledger.reconstruct hashes job.sourceId job.sourceRevision = .ok text

def Revives (hashes : Hashes) (world : World) (event : Event) : Prop :=
  match event.op with
  | .checkpointChunk jobId chunkId owner _ => LateCheckpoint world.ledger event.time jobId chunkId owner
  | .finalize jobId _ _ owner => LateFinalize hashes world.ledger event.time jobId owner
  | _ => False

/-! ### One chunk is counted once -/

theorem nodup_chunkIds (ledger : Ledger) (jobId : String) :
    ((ledger.checkpointsOf jobId).map (·.chunkId)).Nodup := by
  refine List.Nodup.map_on ?_ (ledger.checkpoints.nodup.of_map.filter _)
  exact fun first left second right same => checkpoint_eq left right same

theorem completedOf_complete {checkpoints : List DistillChunkCheckpoint} {checkpoint : DistillChunkCheckpoint}
    (distinct : (checkpoints.map (·.chunkId)).Nodup) (member : checkpoint ∈ checkpoints)
    (processing : checkpoint.status = .processing) (now : Time) (result : Dict) :
    completedOf (checkpoints.map fun other =>
      if other.chunkId = checkpoint.chunkId then other.complete now result else other) =
        completedOf checkpoints + 1 := by
  induction checkpoints with
  | nil => cases member
  | cons first rest ih =>
    rw [List.map_cons, List.nodup_cons] at distinct
    unfold completedOf at ih ⊢
    rw [List.map_cons, List.countP_cons, List.countP_cons]
    rcases List.mem_cons.mp member with rfl | later
    · have untouched : (rest.map fun other =>
          if other.chunkId = checkpoint.chunkId then other.complete now result else other) = rest := by
        conv_rhs => rw [← List.map_id rest]
        apply List.map_congr_left
        intro other present
        rw [if_neg, id]
        exact fun same => distinct.1 (same ▸ List.mem_map_of_mem present)
      rw [untouched]
      simp [processing, DistillChunkCheckpoint.complete]
    · have differs : first.chunkId ≠ checkpoint.chunkId := fun same =>
        distinct.1 (same ▸ List.mem_map_of_mem later)
      rw [ih distinct.2 later, if_neg differs]
      omega

/-! ### Runs without such steps -/

def Settled (completed : Prop) (view : JobView) : Prop :=
  view.job.status.terminal ∧ (view.job.status = .completed → completed)

theorem settled_step {completed : Prop} {world : World} {event : Event} {view view' : JobView}
    (calm : ¬ Revives hashes world event)
    (step : JobStep hashes world.ledger event.time event.op view view') (holds : Settled completed view) :
    Settled completed view' := by
  obtain ⟨time, op⟩ := event
  obtain ⟨terminal, only⟩ := holds
  dsimp only at step terminal only
  have kept : ∀ {job : SessionDistillJob} {checkpoints : List DistillChunkCheckpoint},
      job.status = view.job.status → Settled completed ⟨job, checkpoints⟩ := by
    intro job checkpoints same
    exact ⟨same ▸ terminal, fun done => only (same ▸ done)⟩
  cases step with
  | annotate same => exact kept (congrArg Standing.status same)
  | markStale active => rw [DistillJobStatus.terminal_eq_not_active, active] at terminal; cases terminal
  | recheck => exact kept rfl
  | claimManual => exact kept rfl
  | place schedulable => rw [SessionDistillJob.terminal_of_schedulable schedulable] at terminal; cases terminal
  | activate parked => rw [parked] at terminal; cases terminal
  | leaseChunks _ _ open_ => rw [open_] at terminal; cases terminal
  | recover open_ => rw [open_] at terminal; cases terminal
  | recoverFailed open_ => rw [open_] at terminal; cases terminal
  | @completeChunk jobId _ _ _ _ _ _ _ viewed member named processing owned until_ live =>
    obtain ⟨found, listed⟩ := Ledger.view_eq_some.mp viewed
    have distinct := nodup_chunkIds world.ledger jobId
    rw [listed] at distinct
    subst named
    rw [completedOf_complete distinct member processing]
    unfold SessionDistillJob.countChunks
    dsimp only
    split
    · next complete =>
      exact (calm ⟨_, _, _, found, terminal, listed ▸ member, rfl, processing, owned, until_, live,
        listed ▸ complete⟩).elim
    · exact kept rfl
  | advance open_ => rw [open_] at terminal; cases terminal
  | loseWorker processing => rw [processing] at terminal; cases terminal
  | loseWorkerFailed processing => rw [processing] at terminal; cases terminal
  | grantReview _ _ reviewing => rw [reviewing] at terminal; cases terminal
  | failReview _ reviewing => rw [reviewing] at terminal; cases terminal
  | renewReview _ reviewing => rw [reviewing] at terminal; cases terminal
  | releaseReview => exact kept rfl
  | staleAtFinalize => exact ⟨rfl, nofun⟩
  | finalize viewed unfinished admitted current complete read =>
    obtain ⟨found, listed⟩ := Ledger.view_eq_some.mp viewed
    obtain ⟨source, pointed, same⟩ := current
    exact (calm ⟨_, source, _, found, DistillJobStatus.failed_or_stale terminal unfinished, admitted, pointed,
      same, listed ▸ complete, read⟩).elim
  | defer _ open_ => rw [open_] at terminal; cases terminal
  | prune => exact kept rfl

theorem settled_inductive (completed : Prop) :
    Inductive hashes (fun world event => dropsJobs event.op = false ∧ ¬ Revives hashes world event)
      fun _ => Settled completed where
  aged := fun _ _ _ _ holds => holds
  stepped := fun _ _ _ _ calm _ step holds => settled_step calm.2 step holds

/-- Terminal statuses absorb along every run without a late checkpoint or a late finalize. -/
theorem terminal_absorbing {start final : World} {events : List Event} (reached : Reachable hashes start)
    (run : Exec (Restrict (Step hashes) fun world event =>
      dropsJobs event.op = false ∧ ¬ Revives hashes world event) start events final)
    {jobId : String} {job : SessionDistillJob} (found : start.ledger.getJob jobId = some job)
    (terminal : job.status.terminal) :
    ∃ job', final.ledger.getJob jobId = some job' ∧ job'.status.terminal ∧
      (job.status = .failed ∨ job.status = .stale → job'.status ≠ .completed) := by
  obtain ⟨view, viewed, settled⟩ := exec_job (settled_inductive (job.status = .completed))
    (fun _ _ calm => calm.1) run (reachable_integrity reached) (Ledger.view_of_getJob found) ⟨terminal, id⟩
  refine ⟨view.job, (Ledger.view_eq_some.mp viewed).1, settled.1, ?_⟩
  rintro (failed | stale) completed
  · rw [settled.2 completed] at failed
    cases failed
  · rw [settled.2 completed] at stale
    cases stale

def supersededEvents : List Event :=
  [⟨1, sampleCapture .spelled "s" ["a"]⟩, ⟨2, sampleEnqueue "s"⟩, ⟨3, sampleClaim (sampleJob .spelled "s" ["a"]) "w"⟩,
    ⟨4, sampleCapture .spelled "s" ["a", "b"]⟩, ⟨5, sampleEnqueue "s"⟩]

theorem terminal_absorbing_reconcile :
    ∃ job', ((World.initial.after .spelled supersededEvents).after .spelled
        [⟨6, .reconcile none none none none⟩]).ledger.getJob (sampleJob .spelled "s" ["a"]) = some job' ∧
      job'.status.terminal := by
  have status : ((World.initial.after .spelled supersededEvents).ledger.getJob
      (sampleJob .spelled "s" ["a"])).map (·.status) = some .stale := by decide
  obtain ⟨job, found, stale⟩ := Option.map_eq_some_iff.mp status
  have step : Restrict (Step .spelled) (fun world event => dropsJobs event.op = false ∧ ¬ Revives .spelled world event)
      (World.initial.after .spelled supersededEvents) ⟨6, .reconcile none none none none⟩ _ :=
    ⟨⟨by decide, rfl⟩, rfl, id⟩
  obtain ⟨job', found', terminal, _⟩ :=
    terminal_absorbing (reachable_after (by decide)) (.single step) found (by rw [stale]; rfl)
  exact ⟨job', found', terminal⟩

def exhaustedEvents : List Event :=
  let jobId := sampleJob .spelled "s" ["a"]
  let claim (owner : String) : LedgerOp := .claimReview jobId owner "interactive_agent" 30 (.ok false)
  [⟨1, sampleCapture .spelled "s" ["a"]⟩, ⟨2, sampleEnqueue "s"⟩, ⟨3, sampleClaim jobId "w"⟩,
    ⟨4, .checkpointChunk jobId "sha256:a#a" "w" []⟩, ⟨seconds 100, claim "A"⟩, ⟨seconds 200, claim "B"⟩,
    ⟨seconds 300, claim "C"⟩, ⟨seconds 400, claim "D"⟩]

def sampleStatus (world : World) : Option DistillJobStatus :=
  (world.ledger.getJob (sampleJob .spelled "s" ["a"])).map (·.status)

/-- A stale job goes back to its review, and a failed one is completed. -/
theorem terminal_revived :
    (∃ start final, Reachable .spelled start ∧
      Step .spelled start ⟨6, .checkpointChunk (sampleJob .spelled "s" ["a"]) "sha256:a#a" "w" []⟩ final ∧
      sampleStatus start = some .stale ∧ sampleStatus final = some .reviewing) ∧
    ∃ start final, Reachable .spelled start ∧
      Step .spelled start ⟨seconds 500, .finalize (sampleJob .spelled "s" ["a"]) [] [] none⟩ final ∧
      sampleStatus start = some .failed ∧ sampleStatus final = some .completed := by
  constructor
  · exact ⟨World.initial.after .spelled supersededEvents, _, reachable_after (by decide), ⟨by decide, rfl⟩,
      by decide, by decide⟩
  · exact ⟨World.initial.after .spelled exhaustedEvents, _, reachable_after (by decide), ⟨by decide, rfl⟩,
      by decide, by decide⟩

end HarnessMem.Lifecycle
