import HarnessMem.Archive.Revisions

/-! What a prune takes from the jobs of its source. The evidence of a source goes as a
whole, also what a job that is not completed has still to read.
-/

set_option autoImplicit false

namespace HarnessMem.Archive

open Storage Library Lifecycle

variable {hashes : Hashes}

structure Evidence where
  checkpoints : List DistillChunkCheckpoint
  chunks : List TranscriptChunk
  text : Except StoreError String
  bytes : Except StoreError (List UInt8)

def Evidence.none : Evidence := ⟨[], [], .ok "", .ok []⟩

def evidence (hashes : Hashes) (ledger : Ledger) (job : SessionDistillJob) : Evidence where
  checkpoints := ledger.checkpointsOf job.id
  chunks := ledger.chunksOf job.sourceId job.sourceRevision
  text := ledger.reconstruct hashes job.sourceId job.sourceRevision
  bytes := ledger.reconstructRaw hashes job.sourceId job.sourceRevision

def NoneAtWork (hashes : Hashes) (ledger : Ledger) (jobId : String) : Prop :=
  ∀ owner, ledger.getJob jobId = some owner → ∀ job ∈ ledger.jobs.rows, job.sourceId = owner.sourceId →
    job.status.active → evidence hashes ledger job = .none

def SparesWork (hashes : Hashes) (world : World) (event : Event) : Prop :=
  match event.op with
  | .pruneCompletedDistillEvidence jobId _ => NoneAtWork hashes world.ledger jobId
  | _ => True

/-- A job has every checkpoint of its revision with the chunk it is about, and can read the revision. -/
structure Readable (hashes : Hashes) (ledger : Ledger) (job : SessionDistillJob) : Prop where
  counted : (ledger.checkpointsOf job.id).length = job.expectedChunkCount
  backed : ∀ checkpoint ∈ ledger.checkpointsOf job.id, ledger.Backed checkpoint
  read : ∃ text, ledger.reconstruct hashes job.sourceId job.sourceRevision = .ok text
  readRaw : ∃ bytes, ledger.reconstructRaw hashes job.sourceId job.sourceRevision = .ok bytes

/-! ### One prune -/

variable {before after : Ledger} {sourceId receiptId : String}

theorem Pruned.chunksOf (pruned : Pruned hashes before sourceId receiptId after) (other sourceRevision : String) :
    after.chunksOf other sourceRevision = if other = sourceId then [] else before.chunksOf other sourceRevision := by
  unfold Ledger.chunksOf
  rw [pruned.chunks, List.filter_filter]
  split
  · next same =>
    rw [List.filter_eq_nil_iff]
    intro chunk _
    simp only [same, Bool.and_eq_true, decide_eq_true_eq, not_and]
    exact fun here away => away here.1
  · next differs =>
    refine List.filter_congr fun chunk _ => ?_
    by_cases here : chunk.sourceId = other ∧ chunk.sourceRevision = sourceRevision
    · simp [here, differs]
    · simp [here]

theorem Pruned.getRevision (pruned : Pruned hashes before sourceId receiptId after) (other sourceRevision : String) :
    after.getRevision other sourceRevision =
      (before.getRevision other sourceRevision).map (pruneRow hashes receiptId sourceId) := by
  have same : after.revisions =
      before.revisions.mapRows (pruneRow hashes receiptId sourceId) (key_pruneRow hashes receiptId sourceId) :=
    Table.eq_of_rows pruned.revisions
  unfold Ledger.getRevision
  rw [same, Table.get?_mapRows]

theorem Pruned.evidence_mine {job : SessionDistillJob}
    (pruned : Pruned hashes before job.sourceId receiptId after)
    (stored : (before.getRevision job.sourceId job.sourceRevision).isSome)
    (unchecked : after.checkpointsOf job.id = []) : evidence hashes after job = .none := by
  obtain ⟨row, found⟩ := Option.isSome_iff_exists.mp stored
  have mine : row.sourceId = job.sourceId := congrArg Prod.fst (Table.key_of_get? found)
  have left : after.getRevision job.sourceId job.sourceRevision = some (prunedRevision hashes receiptId row) := by
    rw [pruned.getRevision, found, Option.map_some, pruneRow, if_pos mine]
  have chunks : after.chunksOf job.sourceId job.sourceRevision = [] := by
    rw [pruned.chunksOf, if_pos rfl]
  have text : after.reconstruct hashes job.sourceId job.sourceRevision = .ok "" := by
    unfold Ledger.reconstruct Ledger.listChunks
    rw [left, chunks]
    exact if_pos ⟨rfl, rfl⟩
  have bytes : after.reconstructRaw hashes job.sourceId job.sourceRevision = .ok [] := by
    unfold Ledger.reconstructRaw
    rw [left]
    exact if_neg (not_not.mpr rfl)
  unfold evidence
  rw [unchecked, chunks, text, bytes]
  rfl

theorem Pruned.evidence_other {job : SessionDistillJob}
    (pruned : Pruned hashes before sourceId receiptId after) (other : job.sourceId ≠ sourceId)
    (unchecked : after.checkpointsOf job.id = before.checkpointsOf job.id) :
    evidence hashes after job = evidence hashes before job := by
  have chunks : after.chunksOf job.sourceId job.sourceRevision = before.chunksOf job.sourceId job.sourceRevision := by
    rw [pruned.chunksOf, if_neg other]
  have row : after.getRevision job.sourceId job.sourceRevision = before.getRevision job.sourceId job.sourceRevision := by
    rw [pruned.getRevision]
    cases found : before.getRevision job.sourceId job.sourceRevision with
    | none => rfl
    | some row =>
      have elsewhere : row.sourceId ≠ sourceId := by
        rw [show row.sourceId = job.sourceId from congrArg Prod.fst (Table.key_of_get? found)]
        exact other
      rw [Option.map_some, pruneRow, if_neg elsewhere]
  unfold evidence Ledger.reconstruct Ledger.reconstructRaw Ledger.listChunks
  rw [unchecked, chunks, row]

variable {now : Time}

theorem prune_spares_iff {jobId : String} {counts : PruneCounts}
    (sound : Integrity hashes before)
    (ran : before.pruneCompletedDistillEvidence hashes jobId receiptId now = .ok (counts, after)) :
    (∀ job ∈ before.jobs.rows, job.status.active → evidence hashes after job = evidence hashes before job) ↔
      NoneAtWork hashes before jobId := by
  obtain ⟨owner, known, views⟩ := prune_view ran
  obtain ⟨_, known', pruned⟩ := prune_pruned ran
  obtain rfl := Option.some.inj (known.symm.trans known')
  have checkpoints : ∀ job ∈ before.jobs.rows, after.checkpointsOf job.id =
      if job.sourceId = owner.sourceId then [] else before.checkpointsOf job.id := by
    intro job member
    have viewed := views job.id
    rw [Ledger.view_of_getJob (Table.get?_of_mem member : before.getJob job.id = some job), Option.map_some] at viewed
    rw [(Ledger.view_eq_some.mp viewed).2]
    unfold prunedView
    split <;> rfl
  constructor
  · intro spared other named job member mine active
    obtain rfl := Option.some.inj (known.symm.trans named)
    rw [← spared job member active]
    rw [← mine] at pruned
    refine pruned.evidence_mine (sound.references.jobRevision job member) ?_
    rw [checkpoints job member, if_pos mine]
  · intro idle job member active
    have listed := checkpoints job member
    by_cases mine : job.sourceId = owner.sourceId
    · rw [if_pos mine] at listed
      rw [idle owner known job member mine active]
      rw [← mine] at pruned
      exact pruned.evidence_mine (sound.references.jobRevision job member) listed
    · rw [if_neg mine] at listed
      exact pruned.evidence_other mine listed

/-! ### Checkpoints along a run -/

def Supplied (view : JobView) : Prop :=
  view.checkpoints.length = view.job.expectedChunkCount ∨
    view.job.status.active = false ∧ view.checkpoints = []

variable {view : JobView}

theorem supplied_step {ledger : Ledger} {op : LedgerOp} {view' : JobView}
    (step : JobStep hashes ledger now op view view')
    (other : ∀ jobId receiptId, op ≠ .pruneCompletedDistillEvidence jobId receiptId)
    (holds : Supplied view) : Supplied view' := by
  have expected : view'.job.expectedChunkCount = view.job.expectedChunkCount :=
    congrArg JobIdentity.expectedChunkCount step.identity
  rcases holds with counted | ⟨done, none_⟩
  · refine .inl ?_
    rw [expected, ← counted]
    cases step with
    | prune => exact absurd rfl (other _ _)
    | _ => first | rfl | exact List.length_map _
  · -- a job without checkpoints stays done: no chunk of it is left to be completed
    right
    have closed : view.job.status.terminal = true := by
      rw [DistillJobStatus.terminal_eq_not_active, done]
      rfl
    cases step with
    | annotate same => exact ⟨(congrArg (fun kept => kept.status.active) same).trans done, none_⟩
    | markStale => exact ⟨rfl, none_⟩
    | recheck => exact ⟨done, none_⟩
    | claimManual => exact ⟨done, none_⟩
    | place schedulable => rw [SessionDistillJob.terminal_of_schedulable schedulable] at closed; cases closed
    | activate parked => rw [parked] at closed; cases closed
    | leaseChunks _ _ open_ => rw [open_] at closed; cases closed
    | recover open_ => rw [open_] at closed; cases closed
    | recoverFailed open_ => rw [open_] at closed; cases closed
    | completeChunk _ member => exact absurd none_ (List.ne_nil_of_mem member)
    | advance open_ => rw [open_] at closed; cases closed
    | loseWorker processing => rw [processing] at closed; cases closed
    | loseWorkerFailed processing => rw [processing] at closed; cases closed
    | grantReview _ _ reviewing => rw [reviewing] at closed; cases closed
    | failReview _ reviewing => rw [reviewing] at closed; cases closed
    | renewReview _ reviewing => rw [reviewing] at closed; cases closed
    | releaseReview => exact ⟨done, none_⟩
    | staleAtFinalize => exact ⟨rfl, none_⟩
    | finalize => exact ⟨rfl, none_⟩
    | defer _ open_ => rw [open_] at closed; cases closed
    | prune => exact absurd rfl (other _ _)

theorem supplied_created {ledger : Ledger} {op : LedgerOp}
    (created : Created hashes ledger now op view) : Supplied view := by
  cases created with
  | enqueue => exact .inl (List.length_map _)

def AllSupplied (world : World) : Prop :=
  ∀ jobId view, world.ledger.view jobId = some view → Supplied view

theorem supplied_prune {jobId : String} {counts : PruneCounts}
    (idle : NoneAtWork hashes before jobId)
    (ran : before.pruneCompletedDistillEvidence hashes jobId receiptId now = .ok (counts, after))
    (holds : ∀ other view, before.view other = some view → Supplied view) {other : String}
    (viewed : after.view other = some view) : Supplied view := by
  obtain ⟨owner, known, views⟩ := prune_view ran
  rw [views] at viewed
  obtain ⟨old, found, rfl⟩ := Option.map_eq_some_iff.mp viewed
  have supplied := holds other old found
  obtain ⟨stored, listed⟩ := Ledger.view_eq_some.mp found
  unfold prunedView
  split
  · next mine =>
    by_cases active : old.job.status.active
    · have nothing := congrArg Evidence.checkpoints
        (idle owner known old.job (Table.mem_of_get? stored) mine active)
      rw [show (evidence hashes before old.job).checkpoints = before.checkpointsOf old.job.id from rfl,
        Ledger.id_of_getJob stored, listed] at nothing
      rcases supplied with counted | ⟨done, _⟩
      · rw [nothing] at counted
        exact .inl counted
      · rw [active] at done
        cases done
    · exact .inr ⟨Bool.not_eq_true _ ▸ active, rfl⟩
  · exact supplied

theorem allSupplied_step {before after : World} {event : Event} (sound : Integrity hashes before.ledger)
    (step : Step hashes before event after) (spares : SparesWork hashes before event) (holds : AllSupplied before) :
    AllSupplied after := by
  intro jobId view' viewed
  by_cases prunes : ∃ owner receiptId, event.op = .pruneCompletedDistillEvidence owner receiptId
  · obtain ⟨owner, receiptId, same⟩ := prunes
    obtain ⟨time, op⟩ := event
    dsimp only at same
    subst same
    rw [step.2] at viewed
    rcases LedgerOp.apply_cases hashes before.ledger time (.pruneCompletedDistillEvidence owner receiptId) with
      ⟨outcome, ran, applied⟩ | applied
    · obtain ⟨⟨counts, next⟩, inner, rfl⟩ := Lifecycle.map_ok ran
      rw [applied] at viewed
      exact supplied_prune spares inner holds viewed
    · rw [applied] at viewed
      exact holds jobId view' viewed
  · have other : ∀ owner receiptId, event.op ≠ .pruneCompletedDistillEvidence owner receiptId :=
      fun owner receiptId same => prunes ⟨owner, receiptId, same⟩
    obtain ⟨view, origin, moved⟩ := step_origin sound step viewed
    have first : Supplied view := by
      rcases origin with earlier | created
      · exact holds jobId view earlier
      · exact supplied_created created
    clear viewed
    induction moved with
    | refl => exact first
    | tail _ last ih => exact supplied_step last other ih

theorem readable_revision {world : World} (reached : Reachable hashes world) {sourceRevision : String}
    (stored : (world.ledger.getRevision sourceId sourceRevision).isSome) :
    (∃ text, world.ledger.reconstruct hashes sourceId sourceRevision = .ok text) ∧
      ∃ bytes, world.ledger.reconstructRaw hashes sourceId sourceRevision = .ok bytes := by
  have noted : ∃ saved, Preserves hashes saved world.ledger := by
    apply reached.invariant (fun world => ∃ saved, Preserves hashes saved world.ledger)
    · rintro before event after ⟨saved, holds⟩ step
      exact ⟨_, @preserves_step _ ⟨before, saved⟩ ⟨after, _⟩ event ⟨step, rfl⟩ holds⟩
    · exact ⟨fun _ => none, nofun⟩
  obtain ⟨saved, preserves⟩ := noted
  obtain ⟨row, found⟩ := Option.isSome_iff_exists.mp stored
  obtain ⟨first, _, faithful⟩ := preserves row (Table.mem_of_get? found)
  have key : row.key = (sourceId, sourceRevision) := Table.key_of_get? found
  obtain ⟨rfl, rfl⟩ := Prod.mk.inj key
  exact ⟨⟨_, faithful.reconstruct found⟩, ⟨_, faithful.reconstructRaw found⟩⟩

/-- Along every run whose prunes spare the jobs at work, each active job keeps its checkpoints and reads
its revision; and the next prune takes nothing from an active job exactly where it spares them too. -/
theorem pruning_strands_no_job {world : World} {events : List Event}
    (run : Exec (Restrict (Step hashes) (SparesWork hashes)) .initial events world) :
    (∀ job ∈ world.ledger.jobs.rows, job.status.active → Readable hashes world.ledger job) ∧
    ∀ now jobId receiptId counts after,
      world.ledger.pruneCompletedDistillEvidence hashes jobId receiptId now = .ok (counts, after) →
      ((∀ job ∈ world.ledger.jobs.rows, job.status.active →
        evidence hashes after job = evidence hashes world.ledger job) ↔ NoneAtWork hashes world.ledger jobId) := by
  have reached : Reachable hashes world := ⟨events, run.unguarded⟩
  have sound := reachable_integrity reached
  have supplied : Integrity hashes world.ledger ∧ AllSupplied world := by
    apply run.invariant (fun world => Integrity hashes world.ledger ∧ AllSupplied world)
    · rintro before event after ⟨whole, holds⟩ ⟨step, spares⟩
      exact ⟨step_integrity whole step, allSupplied_step whole step spares holds⟩
    · refine ⟨.empty, ?_⟩
      intro jobId view viewed
      cases viewed
  constructor
  · intro job member active
    have found : world.ledger.getJob job.id = some job := Table.get?_of_mem member
    obtain ⟨read, readRaw⟩ := readable_revision reached (sound.references.jobRevision job member)
    refine ⟨?_, ?_, read, readRaw⟩
    · rcases supplied.2 job.id _ (Ledger.view_of_getJob found) with counted | ⟨done, _⟩
      · exact counted
      · rw [active] at done
        cases done
    · intro checkpoint listed
      exact sound.references.backed checkpoint (List.mem_filter.mp listed).1
  · intro now jobId receiptId counts after ran
    exact prune_spares_iff sound ran

def completedEvents : List Event :=
  let jobId := sampleJob .spelled "s" ["a"]
  [⟨1, sampleCapture .spelled "s" ["a"]⟩, ⟨2, sampleEnqueue "s"⟩, ⟨3, sampleClaim jobId "w"⟩,
    ⟨4, .checkpointChunk jobId "sha256:a#a" "w" []⟩, ⟨5, .finalize jobId [] [] none⟩]

def requeuedEvents : List Event :=
  completedEvents ++ [⟨6, .enqueue .insertion { sourceId := "s", pipelineVersion := "v2" }⟩]

def secondJob : String := distillJobId .spelled ("s:" ++ "sha256:a" ++ ":v2")

theorem pruning_strands_no_job_queued :
    ∃ job, (World.initial.after .spelled requeuedEvents).ledger.getJob secondJob = some job ∧
      Readable .spelled (World.initial.after .spelled requeuedEvents).ledger job := by
  have run : Exec (Restrict (Step .spelled) (SparesWork .spelled)) .initial requeuedEvents
      (World.initial.after .spelled requeuedEvents) := by
    have all : ∀ event ∈ requeuedEvents, ∀ world, SparesWork .spelled world event := by
      intro event member world
      simp only [requeuedEvents, completedEvents, List.cons_append, List.nil_append, List.mem_cons,
        List.not_mem_nil, or_false] at member
      rcases member with rfl | rfl | rfl | rfl | rfl | rfl <;> trivial
    have plain : Exec (Step .spelled) .initial requeuedEvents (World.initial.after .spelled requeuedEvents) :=
      exec_after (by decide)
    exact (plain.restrict all).mono fun world event _ edge => ⟨edge.1, edge.2 world⟩
  have status : ((World.initial.after .spelled requeuedEvents).ledger.getJob secondJob).map (·.status) =
      some .queued := by decide
  obtain ⟨job, found, queued⟩ := Option.map_eq_some_iff.mp status
  exact ⟨job, found, (pruning_strands_no_job run).1 job (Table.mem_of_get? found) (by rw [queued]; rfl)⟩

/-- Pruning the completed job takes the checkpoint of the queued one. -/
theorem pruning_strands_queued :
    ∃ world after counts, Reachable .spelled world ∧
      world.ledger.pruneCompletedDistillEvidence .spelled (sampleJob .spelled "s" ["a"]) "receipt" 7 = .ok (counts, after) ∧
      (world.ledger.getJob secondJob).map (·.status) = some .queued ∧
      (world.ledger.checkpointsOf secondJob).length = 1 ∧ after.checkpointsOf secondJob = [] := by
  have pruned : ∃ counts after, (World.initial.after .spelled requeuedEvents).ledger.pruneCompletedDistillEvidence .spelled
      (sampleJob .spelled "s" ["a"]) "receipt" 7 = .ok (counts, after) ∧ after.checkpointsOf secondJob = [] := by
    have evaluated : (match (World.initial.after .spelled requeuedEvents).ledger.pruneCompletedDistillEvidence .spelled
        (sampleJob .spelled "s" ["a"]) "receipt" 7 with
      | .ok (_, after) => (after.checkpointsOf secondJob).isEmpty
      | .error _ => false) = true := by decide +kernel
    split at evaluated
    · next counts after ran => exact ⟨counts, after, ran, List.isEmpty_iff.mp evaluated⟩
    · cases evaluated
  obtain ⟨counts, after, ran, gone⟩ := pruned
  exact ⟨_, after, counts, reachable_after (by decide), ran, by decide, by decide, gone⟩

end HarnessMem.Archive
