import HarnessMem.Lifecycle.ReviewLease

/-! Manual jobs and background reviews. Of the three calls that make a job manual,
`reserve_manual` and `freeze_manual_selection` refuse while a background review
runs; `enqueue` with `manual_recheck` does not look.
-/

set_option autoImplicit false

namespace HarnessMem.Lifecycle

open Storage Library

variable {hashes : Hashes}

/-- `enqueue` with `manual_recheck` finds a job whose background review is running. -/
def SeizesReview (world : World) (event : Event) : Prop :=
  manualRecheck event.op ∧
    ∃ job, requeued world.ledger event.op = some job ∧ job.backgroundLease event.time

def Excludes (now : Time) (job : SessionDistillJob) : Prop :=
  job.manualOnly → job.backgroundLease now = false

/-! ### Background leases -/

section Background

variable {job job' : SessionDistillJob} {now : Time}

theorem backgroundLease_aged {early late : Time} (ordered : early ≤ late)
    (idle : job.backgroundLease early = false) : job.backgroundLease late = false := by
  by_contra running
  rw [Bool.not_eq_false] at running
  unfold SessionDistillJob.backgroundLease SessionDistillJob.activeReviewLease
    SessionDistillJob.reviewLeaseUnexpired at running idle
  cases until_ : job.reviewLeaseUntil with
  | none => simp [until_] at running
  | some expiry =>
    simp only [until_, Option.any_some, Bool.and_eq_true, decide_eq_true_eq] at running idle
    have still : early < expiry := Nat.lt_of_le_of_lt ordered running.1.2
    simp [running.1.1, still, running.2] at idle

theorem excludes_same (holds : Excludes now job) (manual : job'.manualOnly = job.manualOnly)
    (owner : job'.reviewLeaseOwner = job.reviewLeaseOwner) (expiry : job'.reviewLeaseUntil = job.reviewLeaseUntil)
    (source : job'.reviewExecutionSource = job.reviewExecutionSource) : Excludes now job' := by
  intro manual'
  have idle := holds (manual ▸ manual')
  unfold SessionDistillJob.backgroundLease SessionDistillJob.activeReviewLease SessionDistillJob.hasReviewOwner
    SessionDistillJob.reviewLeaseUnexpired at idle ⊢
  rw [owner, expiry, source]
  exact idle

theorem excludes_unowned (unowned : job.reviewLeaseOwner = none) : Excludes now job := by
  intro _
  simp [SessionDistillJob.backgroundLease, SessionDistillJob.activeReviewLease, SessionDistillJob.hasReviewOwner,
    unowned]

theorem source_of_admitted {source : String} {frozen : Except StoreError Bool} (manual : job.manualOnly)
    (admitted : refusesBackground job source frozen = .ok false) : source = "interactive_agent" := by
  by_contra background
  simp [refusesBackground, background, manualJobCheck, manual] at admitted

theorem excludes_grantReview {owner source : String} {frozen : Except StoreError Bool} {expiry : Time}
    (manual : job'.manualOnly = job.manualOnly) (admitted : refusesBackground job source frozen = .ok false) :
    Excludes now (job'.grantReview now owner source expiry) := by
  intro manual'
  have interactive : source = "interactive_agent" := source_of_admitted (manual ▸ manual') admitted
  have kept : sliceTo 80 "interactive_agent" = "interactive_agent" := by decide
  simp [SessionDistillJob.backgroundLease, SessionDistillJob.grantReview, interactive, kept]

theorem excludes_renewReview {expiry : Time} (live : job.reviewLeaseUnexpired now) (holds : Excludes now job) :
    Excludes now (job.renewReview now expiry) := by
  intro manual
  have idle := holds manual
  unfold SessionDistillJob.backgroundLease SessionDistillJob.activeReviewLease at idle ⊢
  rw [live, Bool.and_true] at idle
  rw [Bool.and_eq_false_iff] at idle ⊢
  refine idle.imp (fun unowned => ?_) id
  rw [Bool.and_eq_false_iff]
  exact .inl unowned

end Background

/-! ### Steps and runs -/

theorem excludes_step {world : World} {event : Event} {view view' : JobView} (calm : ¬ SeizesReview world event)
    (step : JobStep hashes world.ledger event.time event.op view view')
    (holds : Excludes event.time view.job) : Excludes event.time view'.job := by
  obtain ⟨time, op⟩ := event
  dsimp only at step holds ⊢
  cases step with
  | annotate same =>
    exact excludes_same holds (congrArg Standing.manualOnly same) (congrArg Standing.reviewLeaseOwner same)
      (congrArg Standing.reviewLeaseUntil same) (congrArg Standing.reviewExecutionSource same)
  | recheck manual existing =>
    intro _
    by_contra running
    exact calm ⟨manual, _, existing, Bool.eq_true_of_not_eq_false running⟩
  | claimManual idle => exact fun _ => idle
  | completeChunk =>
    unfold SessionDistillJob.countChunks
    dsimp only
    split <;> exact excludes_same holds rfl rfl rfl rfl
  | grantReview _ admitted =>
    refine excludes_grantReview ?_ admitted
    split <;> rfl
  | failReview => exact excludes_unowned rfl
  | renewReview _ _ _ live => exact excludes_renewReview live holds
  | releaseReview => exact excludes_unowned rfl
  | finalize => exact excludes_unowned rfl
  | defer => exact excludes_unowned rfl
  | _ => exact excludes_same holds rfl rfl rfl rfl

theorem excludes_inductive :
    Inductive hashes (fun world event => ¬ SeizesReview world event) fun now view => Excludes now view.job where
  aged := fun _ _ _ ordered holds manual => backgroundLease_aged ordered (holds manual)
  stepped := fun _ _ _ _ calm _ step holds => excludes_step calm step holds

theorem excludes_created {ledger : Ledger} {now : Time} {op : LedgerOp} {view : JobView}
    (created : Created hashes ledger now op view) : Excludes now view.job := by
  cases created with
  | enqueue => exact excludes_unowned rfl

/-- Unless an `enqueue` seizes a running background review, no manual job is ever under one. -/
theorem manual_excludes_background {world : World} {events : List Event}
    (run : Exec (Restrict (Step hashes) fun world event => ¬ SeizesReview world event) .initial events world)
    {jobId : String} {job : SessionDistillJob} (found : world.ledger.getJob jobId = some job)
    (manual : job.manualOnly) (now : Time) (later : world.clock ≤ now) : job.backgroundLease now = false := by
  have holds := exec_everyJob excludes_inductive (fun _ _ _ _ => excludes_created) run .empty (everyJob_initial _)
    jobId _ (Ledger.view_of_getJob found)
  exact backgroundLease_aged later (holds manual)

def workerClaim (time : Time) : Event :=
  ⟨time, .claimReview (sampleJob .spelled "s" ["a"]) "w" "autonomous_worker" 300 (.ok false)⟩

/-- `enqueue` with `manual_recheck`. -/
def recheckEnqueue (time : Time) : Event := ⟨time, .enqueue .insertion { sourceId := "s", manualRecheck := true }⟩

def reservedEvents : List Event :=
  readyEvents ++ [⟨5, .reserveManual (sampleJob .spelled "s" ["a"])⟩, reviewClaim 6 "A", workerClaim 7]

theorem manual_excludes_background_reserved :
    ∃ job, (World.initial.after .spelled reservedEvents).ledger.getJob (sampleJob .spelled "s" ["a"]) = some job ∧
      job.manualOnly ∧ job.reviewLeaseUnexpired 8 ∧ job.backgroundLease 8 = false := by
  have shown : ((World.initial.after .spelled reservedEvents).ledger.getJob (sampleJob .spelled "s" ["a"])).map
      (fun job => (job.manualOnly, job.reviewLeaseUnexpired 8)) = some (true, true) := by decide
  obtain ⟨job, found, fields⟩ := Option.map_eq_some_iff.mp shown
  rw [Prod.mk.injEq] at fields
  have unrequested : ∀ event ∈ reservedEvents, manualRecheck event.op = false := by decide
  have run : Exec (Restrict (Step .spelled) fun world event => ¬ SeizesReview world event) .initial reservedEvents
      (World.initial.after .spelled reservedEvents) := by
    refine ((exec_after (by decide)).restrict unrequested).mono fun _ _ _ edge => ⟨edge.1, fun seizes => ?_⟩
    exact Bool.noConfusion (edge.2.symm.trans seizes.1)
  exact ⟨job, found, fields.1, fields.2, manual_excludes_background run found fields.1 8 (by decide)⟩

/-- A background review is running when a manual recheck makes the job manual. -/
theorem manual_under_background :
    ∃ world job, Reachable .spelled world ∧
      world.ledger.getJob (sampleJob .spelled "s" ["a"]) = some job ∧ job.manualOnly ∧
      job.backgroundLease world.clock := by
  have shown : ((World.initial.after .spelled (readyEvents ++ [workerClaim 5, recheckEnqueue 6])).ledger.getJob
      (sampleJob .spelled "s" ["a"])).map (fun job => (job.manualOnly, job.backgroundLease 6)) = some (true, true) := by
    decide
  obtain ⟨job, found, fields⟩ := Option.map_eq_some_iff.mp shown
  rw [Prod.mk.injEq] at fields
  exact ⟨_, job, reachable_after (by decide), found, fields.1, fields.2⟩

end HarnessMem.Lifecycle

/-! What an `enqueue` leaves queued. Jobs are keyed by revision, and a job made
stale by another revision is found again, still stale, when its own revision is
current once more.
-/

namespace HarnessMem.Lifecycle

open Storage Library

variable {hashes : Hashes}

/-- The answer of an `enqueue`: the job stands for the current revision of the source, and no job for
another of its revisions is active. -/
structure Queued (ledger : Ledger) (source : TranscriptSource) (job : SessionDistillJob) : Prop where
  own : job.sourceId = source.id
  current : job.sourceRevision = source.sourceRevision
  fresh : job.status ≠ .stale
  alone : ∀ other ∈ ledger.jobs.rows, other.sourceId = source.id → other.sourceRevision ≠ source.sourceRevision →
    other.status.active = false

/-- The job under the idempotency key, if there is one, stands for the current revision and is not stale. -/
def Requeueable (ledger : Ledger) (op : LedgerOp) (source : TranscriptSource) : Prop :=
  ∀ existing, requeued ledger op = some existing →
    existing.sourceId = source.id ∧ existing.sourceRevision = source.sourceRevision ∧ existing.status ≠ .stale

/-! ### What marking and placing do to one row -/

/-- The active lane keeps the identity of a job, and the status unless the job is active. -/
structure Placed (before after : SessionDistillJob) : Prop where
  identity : after.identity = before.identity
  status : after.status = before.status ∨ (before.status.active ∧ after.status.active)

theorem Placed.refl (job : SessionDistillJob) : Placed job job := ⟨rfl, .inl rfl⟩

theorem Placed.inactive {before after : SessionDistillJob} (placed : Placed before after)
    (inactive : before.status.active = false) : after.status = before.status := by
  rcases placed.status with same | ⟨active, _⟩
  · exact same
  · rw [inactive] at active
    cases active

theorem Placed.stale_iff {before after : SessionDistillJob} (placed : Placed before after) :
    after.status = .stale ↔ before.status = .stale := by
  rcases placed.status with same | ⟨active, active'⟩
  · rw [same]
  · constructor
    · intro stale
      rw [stale] at active'
      cases active'
    · intro stale
      rw [stale] at active
      cases active

theorem active_of_schedulable {job : SessionDistillJob} (schedulable : job.schedulable) : job.status.active := by
  have unfinished := SessionDistillJob.terminal_of_schedulable schedulable
  rw [DistillJobStatus.terminal_eq_not_active] at unfinished
  simpa using unfinished

/-- Every job row rewritten under its identifier. -/
structure Rewritten (change : SessionDistillJob → SessionDistillJob) (before after : Ledger) : Prop where
  rows : after.jobs.rows = before.jobs.rows.map change
  id : ∀ job, (change job).id = job.id

theorem Rewritten.getJob {change : SessionDistillJob → SessionDistillJob} {before after : Ledger}
    (rewritten : Rewritten change before after) (jobId : String) :
    after.getJob jobId = (before.getJob jobId).map change := by
  simp only [Ledger.getJob, Table.get?, rewritten.rows, List.find?_map, Function.comp_def, rewritten.id]

theorem rebalanceWithin_rows (ledger : Ledger) (scan : Scan QueueRow) (source : TranscriptSource)
    (request : EnqueueRequest) (now : Time) :
    ∃ change, Rewritten change ledger (ledger.rebalanceWithin scan source request now).2 ∧
      ∀ job ∈ ledger.jobs.rows, Placed job (change job) := by
  unfold Ledger.rebalanceWithin
  split
  · exact ⟨id, ⟨(List.map_id _).symm, fun _ => rfl⟩, fun job _ => .refl job⟩
  · refine ⟨_, ⟨rfl, RebalancePlan.id_place _ now⟩, fun job member => ?_⟩
    unfold RebalancePlan.place
    split
    · next chosen =>
      obtain ⟨row, listed, same⟩ := List.mem_map.mp chosen
      obtain ⟨stored, schedulable, _⟩ := mem_candidates listed
      rw [ledger.jobs.eq_of_key stored member same] at schedulable
      split
      · exact ⟨rfl, .inr ⟨active_of_schedulable schedulable, rfl⟩⟩
      · split
        · exact .refl job
        · exact ⟨rfl, .inr ⟨active_of_schedulable schedulable, rfl⟩⟩
    · exact .refl job

/-- `_mark_older_jobs_stale_locked` on one row. -/
def superseded (source : TranscriptSource) (now : Time) (job : SessionDistillJob) : SessionDistillJob :=
  if job.sourceId = source.id ∧ job.sourceRevision ≠ source.sourceRevision ∧ job.status.active then job.markStale now
  else job

section Superseding

variable {source : TranscriptSource} {now : Time} {job : SessionDistillJob}

theorem identity_superseded : (superseded source now job).identity = job.identity := by
  unfold superseded
  split <;> rfl

theorem markOlder_rows (ledger : Ledger) :
    Rewritten (superseded source now) ledger (ledger.markOlderJobsStaleLocked source now) :=
  ⟨rfl, fun _ => congrArg JobIdentity.id identity_superseded⟩

theorem superseded_current (current : job.sourceRevision = source.sourceRevision) :
    superseded source now job = job :=
  if_neg fun older => older.2.1 current

theorem superseded_stale (stale : job.status = .stale) : superseded source now job = job := by
  refine if_neg fun older => ?_
  have active := older.2.2
  rw [stale] at active
  cases active

theorem superseded_inactive (own : job.sourceId = source.id) (other : job.sourceRevision ≠ source.sourceRevision) :
    (superseded source now job).status.active = false := by
  unfold superseded
  split
  · rfl
  · next kept => simpa [own, other] using kept

end Superseding

/-! ### The answer of an enqueue -/

/-- The rows of an `enqueue`: marked, then placed in the active lane. -/
theorem alone_of_rows {marked next : Ledger} {source : TranscriptSource} {change : SessionDistillJob → SessionDistillJob}
    (placed : Rewritten change marked next) (moves : ∀ job ∈ marked.jobs.rows, Placed job (change job))
    (alone : ∀ other ∈ marked.jobs.rows, other.sourceId = source.id → other.sourceRevision ≠ source.sourceRevision →
      other.status.active = false) :
    ∀ other ∈ next.jobs.rows, other.sourceId = source.id → other.sourceRevision ≠ source.sourceRevision →
      other.status.active = false := by
  intro other member own differs
  rw [placed.rows] at member
  obtain ⟨old, present, rfl⟩ := List.mem_map.mp member
  have same := (moves old present).identity
  have inactive := alone old present ((congrArg JobIdentity.sourceId same).symm.trans own)
    fun current => differs ((congrArg JobIdentity.sourceRevision same).trans current)
  rw [(moves old present).inactive inactive]
  exact inactive

theorem alone_superseded {ledger : Ledger} {source : TranscriptSource} {now : Time} :
    ∀ other ∈ (ledger.markOlderJobsStaleLocked source now).jobs.rows, other.sourceId = source.id →
      other.sourceRevision ≠ source.sourceRevision → other.status.active = false := by
  intro other member own differs
  rw [(markOlder_rows ledger).rows] at member
  obtain ⟨old, _, rfl⟩ := List.mem_map.mp member
  have same : (superseded source now old).identity = old.identity := identity_superseded
  exact superseded_inactive ((congrArg JobIdentity.sourceId same).symm.trans own)
    fun current => differs ((congrArg JobIdentity.sourceRevision same).trans current)

/-- An `enqueue` that succeeds queues the current revision exactly when the job already stored for it,
if any, is not stale. -/
theorem enqueue_queued_iff {ledger next : Ledger} {scan : Scan QueueRow} {request : EnqueueRequest} {now : Time}
    {job : SessionDistillJob} {selections : List Selection} {source : TranscriptSource}
    (ran : ledger.enqueue hashes scan request now = .ok (job, selections, next))
    (known : ledger.getSource request.sourceId = some source) :
    Queued next source job ↔ Requeueable ledger (.enqueue scan request) source := by
  obtain ⟨source', chunks, accepted, outcome⟩ := enqueue_cases ran
  obtain rfl : source' = source := by
    have found := (source_of_enqueueInput accepted).1
    rw [known] at found
    exact (Option.some.inj found).symm
  have keyed : requeued ledger (.enqueue scan request) =
      ledger.findJob (idempotencyKey source' request.pipelineVersion) := by
    simp [requeued, known]
  rcases outcome with ⟨existing, stored, rfl, placed⟩ | ⟨absent, _, rfl, placed⟩
  · -- the key is known: the stored row is marked, placed and returned
    obtain ⟨found, _⟩ := findJob_mem stored
    have held : ledger.getJob existing.id = some existing := Table.get?_of_mem found
    obtain ⟨flagged, held', same, status⟩ : ∃ flagged : SessionDistillJob,
        (if request.manualRecheck ∧ ¬ (existing.manualOnly ∧ existing.retainSource) then
          ledger.setJob existing.recheckManual else ledger).getJob existing.id = some flagged ∧
        flagged.identity = existing.identity ∧ flagged.status = existing.status := by
      split
      · exact ⟨_, (Ledger.getJob_setJob _ _ _).trans (if_pos rfl), rfl, rfl⟩
      · exact ⟨existing, held, rfl, rfl⟩
    generalize (if request.manualRecheck ∧ ¬ (existing.manualOnly ∧ existing.retainSource) then
      ledger.setJob existing.recheckManual else ledger) = current at placed held'
    obtain ⟨change, rewritten, moves⟩ :=
      rebalanceWithin_rows (current.markOlderJobsStaleLocked source' now) scan source' request now
    rw [← placed] at rewritten
    have marked : (current.markOlderJobsStaleLocked source' now).getJob existing.id =
        some (superseded source' now flagged) := by
      rw [(markOlder_rows current).getJob, held', Option.map_some]
    have answered : next.getJob existing.id = some (change (superseded source' now flagged)) := by
      rw [rewritten.getJob, marked, Option.map_some]
    have moved := moves _ (Table.mem_of_get? marked)
    have identity : (change (superseded source' now flagged)).identity = existing.identity :=
      moved.identity.trans (identity_superseded.trans same)
    rw [answered, Option.getD_some]
    constructor
    · intro queued other found'
      obtain rfl : existing = other := Option.some.inj (stored.symm.trans (keyed.symm.trans found'))
      refine ⟨(congrArg JobIdentity.sourceId identity).symm.trans queued.own,
        (congrArg JobIdentity.sourceRevision identity).symm.trans queued.current, fun stale => ?_⟩
      have flaggedStale : flagged.status = .stale := status.trans stale
      refine queued.fresh (moved.stale_iff.mpr ?_)
      rw [superseded_stale flaggedStale]
      exact flaggedStale
    · intro requeueable
      obtain ⟨own, current', fresh⟩ := requeueable existing (keyed.trans stored)
      refine ⟨(congrArg JobIdentity.sourceId identity).trans own,
        (congrArg JobIdentity.sourceRevision identity).trans current', fun stale => ?_,
        alone_of_rows rewritten moves alone_superseded⟩
      have unmarked : superseded source' now flagged = flagged :=
        superseded_current ((congrArg JobIdentity.sourceRevision same).trans current')
      rw [moved.stale_iff, unmarked, status] at stale
      exact fresh stale
  · -- no job has the key: a new one is added
    have vacuous : Requeueable ledger (.enqueue scan request) source' := by
      intro existing found
      rw [keyed, absent] at found
      cases found
    refine iff_of_true ?_ vacuous
    obtain ⟨change, rewritten, moves⟩ :=
      rebalanceWithin_rows (withJob hashes ledger request source' chunks now) scan source' request now
    rw [← placed] at rewritten
    refine ⟨rfl, rfl, (fun stale => by cases stale), alone_of_rows rewritten moves ?_⟩
    intro other member own differs
    rcases (Table.mem_upsert _ _ _).mp member with rfl | ⟨older, _⟩
    · exact (differs rfl).elim
    · exact alone_superseded other older own differs

theorem enqueue_returned {ledger : Ledger} {scan : Scan QueueRow} {request : EnqueueRequest} {now : Time}
    {status : DistillJobStatus}
    (returned : (ledger.enqueue hashes scan request now).toOption.map (fun answer => answer.1.status) = some status) :
    ∃ job selections next, ledger.enqueue hashes scan request now = .ok (job, selections, next) ∧
      job.status = status := by
  cases ran : ledger.enqueue hashes scan request now with
  | error failure => simp [ran, Except.toOption] at returned
  | ok answer =>
    obtain ⟨job, selections, next⟩ := answer
    simp only [ran, Except.toOption, Option.map_some, Option.some.injEq] at returned
    exact ⟨job, selections, next, rfl, returned⟩

theorem enqueue_queued_first :
    ∃ source job selections next,
      (World.initial.after .spelled [⟨1, sampleCapture .spelled "s" ["a"]⟩]).ledger.enqueue .spelled .insertion
        { sourceId := "s" } 2 = .ok (job, selections, next) ∧ Queued next source job := by
  have returned : ((World.initial.after .spelled [⟨1, sampleCapture .spelled "s" ["a"]⟩]).ledger.enqueue .spelled
      .insertion { sourceId := "s" } 2).toOption.map (fun answer => answer.1.status) = some .queued := by decide
  obtain ⟨job, selections, next, ran, _⟩ := enqueue_returned returned
  have captured : ((World.initial.after .spelled [⟨1, sampleCapture .spelled "s" ["a"]⟩]).ledger.getSource
      "s").isSome := by decide
  obtain ⟨source, known⟩ := Option.isSome_iff_exists.mp captured
  have unqueued : (requeued (World.initial.after .spelled [⟨1, sampleCapture .spelled "s" ["a"]⟩]).ledger
      (.enqueue .insertion { sourceId := "s" })).isNone := by decide
  refine ⟨source, job, selections, next, ran, (enqueue_queued_iff ran known).mpr fun existing stored => ?_⟩
  rw [stored] at unqueued
  cases unqueued

/-- A second revision makes the first job stale, and erasing that revision makes the first one current again. -/
def restoredEvents : List Event :=
  [⟨1, sampleCapture .spelled "s" ["a"]⟩, ⟨2, sampleEnqueue "s"⟩, ⟨3, sampleCapture .spelled "s" ["a", "b"]⟩,
    ⟨4, sampleEnqueue "s"⟩,
    ⟨5, .hardDeleteRevisions .insertion
      { revisionKeys := [("s", "sha256:ab")], projectName := "project", reason := "requested" } "audit"⟩]

theorem enqueue_returns_stale :
    ∃ world job selections next, Reachable .spelled world ∧ world.clock ≤ 6 ∧
      world.ledger.enqueue .spelled .insertion { sourceId := "s" } 6 = .ok (job, selections, next) ∧
      job.status = .stale := by
  have returned : ((World.initial.after .spelled restoredEvents).ledger.enqueue .spelled .insertion
      { sourceId := "s" } 6).toOption.map (fun answer => answer.1.status) = some .stale := by decide
  obtain ⟨job, selections, next, ran, stale⟩ := enqueue_returned returned
  exact ⟨_, job, selections, next, reachable_after (by decide), by decide, ran, stale⟩

end HarnessMem.Lifecycle
