import HarnessMem.Lifecycle.Simulation

/-! Runs of the ledger seen job by job: integrity holds in every world reached,
and what job steps preserve holds of every job in it.
-/

set_option autoImplicit false

namespace HarnessMem.Lifecycle

open Storage Library Relation

variable {hashes : Hashes}

/-! ### Integrity along runs -/

variable {ledger : Ledger} {now : Time}

theorem withJob_integrity {request : EnqueueRequest} {source : TranscriptSource}
    {chunks : List TranscriptChunk} (sound : Integrity hashes ledger)
    (accepted : ledger.enqueueInput hashes request = .ok (source, chunks))
    (fresh : ledger.findJob (idempotencyKey source request.pipelineVersion) = none)
    (stored : (ledger.getRevision source.id source.sourceRevision).isSome) :
    Integrity hashes (withJob hashes ledger request source chunks now) := by
  have staled : Moves hashes ledger now (.enqueue .insertion request) ledger
      (ledger.markOlderJobsStaleLocked source now) := markOlderJobsStale_moves
  have base := sound.of_shape staled.shape
  have absent : (ledger.markOlderJobsStaleLocked source now).getJob
      (request.newJob hashes source chunks.length now).id = none := by
    have kept := staled.shape.getJob_isSome (request.newJob hashes source chunks.length now).id
    rw [show ledger.getJob (request.newJob hashes source chunks.length now).id = none from
      getJob_fresh sound.references fresh] at kept
    simpa using kept
  have jobs : ∀ job ∈ (withJob hashes ledger request source chunks now).jobs.rows,
      job = request.newJob hashes source chunks.length now ∨
        job ∈ (ledger.markOlderJobsStaleLocked source now).jobs.rows :=
    fun job member => ((Table.mem_upsert _ _ _).mp member).imp id And.left
  have older : ∀ jobId job, (ledger.markOlderJobsStaleLocked source now).getJob jobId = some job →
      (withJob hashes ledger request source chunks now).getJob jobId = some job := by
    intro jobId job found
    refine (Ledger.getJob_setJob _ _ _).trans ((if_neg ?_).trans found)
    rintro rfl
    rw [absent] at found
    cases found
  refine ⟨{ base.references with jobId := ?_, jobKey := ?_, jobRevision := ?_, backed := ?_ }, base.pointers⟩
  · intro job member
    rcases jobs job member with rfl | old
    · rfl
    · exact base.references.jobId job old
  · intro job member
    rcases jobs job member with rfl | old
    · rfl
    · exact base.references.jobKey job old
  · intro job member
    rcases jobs job member with rfl | old
    · exact stored
    · exact base.references.jobRevision job old
  · intro checkpoint member
    have listed : checkpoint ∈ (withJob hashes ledger request source chunks now).checkpointsOf checkpoint.jobId :=
      List.mem_filter.mpr ⟨member, decide_eq_true rfl⟩
    by_cases mine : (request.newJob hashes source chunks.length now).id = checkpoint.jobId
    · have distinct : (chunks.map (·.id)).Nodup := by
        rw [(source_of_enqueueInput accepted).2]
        exact nodup_listChunks _ _ _
      have empty : ((ledger.markOlderJobsStaleLocked source now).setJob
          (request.newJob hashes source chunks.length now)).checkpointsOf
            (request.newJob hashes source chunks.length now).id = [] := by
        have fresh := checkpointsOf_fresh base.references absent
        exact fresh
      rw [← mine, withJob, checkpointsOf_insertCheckpoints_self _ empty distinct] at listed
      obtain ⟨chunk, read, rfl⟩ := List.mem_map.mp listed
      rw [(source_of_enqueueInput accepted).2] at read
      have kept := List.mem_filter.mp ((List.perm_insertionSort _ _).mem_iff.mp read)
      have fields := of_decide_eq_true kept.2
      exact ⟨request.newJob hashes source chunks.length now, chunk,
        (Ledger.getJob_setJob _ _ _).trans (if_pos rfl), Table.get?_of_mem kept.1, fields.1, fields.2⟩
    · unfold withJob at listed
      rw [checkpointsOf_insertCheckpoints_other _ mine] at listed
      obtain ⟨job, chunk, found, read⟩ := base.references.backed checkpoint (List.mem_filter.mp listed).1
      exact ⟨job, chunk, older _ job found, read⟩

theorem enqueue_integrity {next : Ledger} {scan : Scan QueueRow} {request : EnqueueRequest}
    {job : SessionDistillJob} {selections : List Selection} (sound : Integrity hashes ledger)
    (ran : ledger.enqueue hashes scan request now = .ok (job, selections, next)) : Integrity hashes next := by
  obtain ⟨source, chunks, accepted, ⟨existing, known, _, placed⟩ | ⟨fresh, stored, _, placed⟩⟩ := enqueue_cases ran
  · rw [show next = _ from congrArg Prod.snd placed]
    have stored : ledger.getJob existing.id = some existing := Table.get?_of_mem (findJob_mem known).1
    have flagged : SameShape ledger (if request.manualRecheck ∧ ¬ (existing.manualOnly ∧ existing.retainSource) then
        ledger.setJob existing.recheckManual else ledger) := by
      split
      · exact SameShape.setJob stored rfl
      · exact .refl _
    have staled : ∀ current : Ledger, SameShape current (current.markOlderJobsStaleLocked source now) := fun current =>
      (markOlderJobsStale_moves : Moves hashes ledger now (.enqueue scan request) current _).shape
    have rebalanced : ∀ current : Ledger, SameShape current (current.rebalanceWithin scan source request now).2 :=
      fun current => (rebalanceWithin_moves : Moves hashes ledger now (.enqueue scan request) current _).shape
    exact sound.of_shape ((flagged.trans (staled _)).trans (rebalanced _))
  · rw [show next = _ from congrArg Prod.snd placed]
    have rebalanced : Moves hashes ledger now (.enqueue scan request) (withJob hashes ledger request source chunks now)
        ((withJob hashes ledger request source chunks now).rebalanceWithin scan source request now).2 :=
      rebalanceWithin_moves
    exact (withJob_integrity sound accepted fresh stored).of_shape rebalanced.shape

theorem run_integrity {op : LedgerOp} {outcome : Outcome}
    (sound : Integrity hashes ledger) (ran : op.run hashes ledger now = .ok outcome) :
    Integrity hashes outcome.ledger := by
  cases op with
  | saveSnapshot =>
    obtain ⟨_, inner, rfl⟩ := map_ok ran
    exact sound.saveSnapshot inner
  | refreshSource =>
    obtain ⟨_, inner, rfl⟩ := map_ok ran
    exact sound.refreshSource inner
  | markSourcesMissing =>
    cases ran
    exact sound.markSourcesMissing
  | pruneCompletedDistillEvidence =>
    obtain ⟨_, inner, rfl⟩ := map_ok ran
    exact sound.pruneCompletedDistillEvidence inner
  | hardDeleteRevisions =>
    obtain ⟨_, inner, rfl⟩ := map_ok ran
    exact sound.hardDeleteRevisions inner
  | enqueue =>
    obtain ⟨_, inner, rfl⟩ := map_ok ran
    exact enqueue_integrity sound inner
  | _ => exact sound.of_shape (run_moves rfl ran).shape

variable {before after : World} {event : Event}

theorem step_integrity (sound : Integrity hashes before.ledger)
    (step : Step hashes before event after) : Integrity hashes after.ledger := by
  rw [step.2]
  rcases LedgerOp.apply_cases hashes before.ledger event.time event.op with ⟨outcome, ran, same⟩ | same
  · exact same.symm ▸ run_integrity sound ran
  · exact same.symm ▸ sound

variable {start final : World} {events : List Event}

theorem exec_integrity (run : Exec (Step hashes) start events final)
    (sound : Integrity hashes start.ledger) : Integrity hashes final.ledger :=
  run.invariant (fun world => Integrity hashes world.ledger) (fun _ _ _ => step_integrity) sound

theorem reachable_integrity {world : World} (reached : Reachable hashes world) : Integrity hashes world.ledger :=
  let ⟨_, run⟩ := reached
  exec_integrity run .empty

/-! ### Jobs along runs -/

theorem step_simulates (sound : Integrity hashes before.ledger)
    (step : Step hashes before event after) :
    Simulates hashes before.ledger event.time event.op after.ledger := by
  rw [step.2]
  rcases LedgerOp.apply_cases hashes before.ledger event.time event.op with ⟨outcome, ran, same⟩ | same
  · exact same.symm ▸ run_simulates sound.references ran
  · exact same.symm ▸ simulates_of_view rfl rfl

variable {jobId : String}

theorem step_origin (sound : Integrity hashes before.ledger)
    (step : Step hashes before event after) {view' : JobView}
    (viewed : after.ledger.view jobId = some view') :
    ∃ view, (before.ledger.view jobId = some view ∨ Created hashes before.ledger event.time event.op view) ∧
      JobSteps hashes before.ledger event.time event.op view view' := by
  have simulated := step_simulates sound step
  cases earlier : before.ledger.view jobId with
  | none =>
    obtain ⟨view, fresh, moved⟩ := simulated.created jobId view' earlier viewed
    exact ⟨view, .inr fresh, moved⟩
  | some view =>
    rcases simulated.moves jobId view earlier with ⟨gone, _⟩ | ⟨view'', viewed', moved⟩
    · rw [gone] at viewed
      cases viewed
    · rw [viewed'] at viewed
      exact ⟨view, .inl rfl, Option.some.inj viewed ▸ moved⟩

variable {view : JobView}

theorem step_persists (sound : Integrity hashes before.ledger)
    (step : Step hashes before event after) (kept : dropsJobs event.op = false)
    (viewed : before.ledger.view jobId = some view) :
    ∃ view', after.ledger.view jobId = some view' ∧
      JobSteps hashes before.ledger event.time event.op view view' := by
  rcases (step_simulates sound step).moves jobId view viewed with ⟨_, dropped⟩ | moved
  · rw [kept] at dropped
    cases dropped
  · exact moved

/-- A property of jobs that neither time nor a job step breaks. -/
structure Inductive (hashes : Hashes) (guard : World → Event → Prop) (inv : Time → JobView → Prop) : Prop where
  aged : ∀ early late view, early ≤ late → inv early view → inv late view
  stepped : ∀ world event view view', guard world event → world.clock ≤ event.time →
    JobStep hashes world.ledger event.time event.op view view' → inv event.time view → inv event.time view'

variable {guard : World → Event → Prop} {inv : Time → JobView → Prop}

theorem Inductive.steps (inductive_ : Inductive hashes guard inv) {world : World} (allowed : guard world event)
    (ordered : world.clock ≤ event.time) {view' : JobView}
    (moved : JobSteps hashes world.ledger event.time event.op view view') (holds : inv event.time view) :
    inv event.time view' := by
  induction moved with
  | refl => exact holds
  | tail _ step ih => exact inductive_.stepped _ _ _ _ allowed ordered step ih

def EveryJob (inv : Time → JobView → Prop) (world : World) : Prop :=
  ∀ jobId view, world.ledger.view jobId = some view → inv world.clock view

theorem exec_everyJob (inductive_ : Inductive hashes guard inv)
    (created : ∀ world event view, guard world event → Created hashes world.ledger event.time event.op view → inv event.time view) (run : Exec (Restrict (Step hashes) guard) start events final)
    (sound : Integrity hashes start.ledger) (initial : EveryJob inv start) : EveryJob inv final := by
  induction run with
  | nil => exact initial
  | cons edge _ ih =>
    obtain ⟨step, allowed⟩ := edge
    refine ih (step_integrity sound step) ?_
    intro jobId view' viewed
    obtain ⟨view, origin, moved⟩ := step_origin sound step viewed
    rw [show (World.clock _) = _ from congrArg World.clock step.2]
    refine inductive_.steps allowed step.1 moved ?_
    rcases origin with known | fresh
    · exact inductive_.aged _ _ _ step.1 (initial jobId view known)
    · exact created _ _ _ allowed fresh

theorem exec_job
    (inductive_ : Inductive hashes guard inv) (kept : ∀ world event, guard world event → dropsJobs event.op = false) (run : Exec (Restrict (Step hashes) guard) start events final)
    (sound : Integrity hashes start.ledger)
    (viewed : start.ledger.view jobId = some view) (holds : inv start.clock view) :
    ∃ view', final.ledger.view jobId = some view' ∧ inv final.clock view' := by
  induction run generalizing view with
  | nil => exact ⟨view, viewed, holds⟩
  | cons edge _ ih =>
    obtain ⟨step, allowed⟩ := edge
    obtain ⟨view', viewed', moved⟩ := step_persists sound step (kept _ _ allowed) viewed
    refine ih (step_integrity sound step) viewed' ?_
    rw [show (World.clock _) = _ from congrArg World.clock step.2]
    exact inductive_.steps allowed step.1 moved (inductive_.aged _ _ _ step.1 holds)

theorem everyJob_initial (inv : Time → JobView → Prop) : EveryJob inv .initial := by
  intro jobId view viewed
  cases viewed

end HarnessMem.Lifecycle
