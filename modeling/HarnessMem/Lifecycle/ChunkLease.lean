import HarnessMem.Lifecycle.Consistency

/-! Leases on single chunks and the results written under them. What a call does
to a job it does to each checkpoint by one of six steps, and none of them hands a
lease from one owner to another.
-/

set_option autoImplicit false

namespace HarnessMem.Lifecycle

open Storage Library Relation

variable {hashes : Hashes}

/-! ### What a call can do to one checkpoint -/

inductive ChunkStep (ledger : Ledger) (now : Time) : LedgerOp → DistillChunkCheckpoint → DistillChunkCheckpoint → Prop where
  | keep {op : LedgerOp} {checkpoint : DistillChunkCheckpoint} : ChunkStep ledger now op checkpoint checkpoint
  | lease {jobId owner source : String} {limit : Option Int} {leaseSeconds : Int} {frozen : Except StoreError Bool}
      {checkpoint : DistillChunkCheckpoint} (claimable : checkpoint.claimable) :
      ChunkStep ledger now (.claimChunks jobId owner limit leaseSeconds source frozen) checkpoint
        (checkpoint.lease now owner (now + seconds (max 1 leaseSeconds).toNat))
  | expire {op : LedgerOp} {checkpoint : DistillChunkCheckpoint} (expired : checkpoint.leaseExpired now) :
      ChunkStep ledger now op checkpoint (checkpoint.giveBack now "chunk lease expired during recovery")
  | exhaust {op : LedgerOp} {checkpoint : DistillChunkCheckpoint} (unfinished : checkpoint.status ≠ .completed) :
      ChunkStep ledger now op checkpoint (checkpoint.exhaust now)
  | complete {jobId chunkId owner : String} {result : Dict} {checkpoint : DistillChunkCheckpoint} {expiry : Time}
      (member : checkpoint ∈ ledger.checkpointsOf jobId) (named : checkpoint.chunkId = chunkId)
      (processing : checkpoint.status = .processing) (owned : checkpoint.leaseOwner = some owner)
      (until_ : checkpoint.leaseUntil = some expiry) (live : now ≤ expiry) :
      ChunkStep ledger now (.checkpointChunk jobId chunkId owner result) checkpoint (checkpoint.complete now result)
  | defer {jobId error : String} {checkpoint : DistillChunkCheckpoint} (processing : checkpoint.status = .processing) :
      ChunkStep ledger now (.deferJob jobId error) checkpoint (checkpoint.giveBack now (sliceTo 512 error))

abbrev ChunkSteps (ledger : Ledger) (now : Time) (op : LedgerOp) :
    DistillChunkCheckpoint → DistillChunkCheckpoint → Prop :=
  ReflTransGen (ChunkStep ledger now op)

section Steps

variable {ledger : Ledger} {now : Time} {op : LedgerOp} {checkpoint checkpoint' : DistillChunkCheckpoint}

theorem ChunkStep.key (step : ChunkStep ledger now op checkpoint checkpoint') : checkpoint'.key = checkpoint.key := by
  cases step <;> rfl

theorem ChunkStep.completed (step : ChunkStep ledger now op checkpoint checkpoint')
    (done : checkpoint.status = .completed) : checkpoint' = checkpoint := by
  cases step with
  | keep => rfl
  | lease claimable => simp [DistillChunkCheckpoint.claimable, done] at claimable
  | expire expired => simp [DistillChunkCheckpoint.leaseExpired, done] at expired
  | exhaust unfinished => exact (unfinished done).elim
  | complete _ _ processing => simp [done] at processing
  | defer processing => simp [done] at processing

theorem ChunkSteps.key (steps : ChunkSteps ledger now op checkpoint checkpoint') :
    checkpoint'.key = checkpoint.key := by
  induction steps with
  | refl => rfl
  | tail _ step ih => exact step.key.trans ih

theorem ChunkSteps.completed (steps : ChunkSteps ledger now op checkpoint checkpoint')
    (done : checkpoint.status = .completed) : checkpoint' = checkpoint := by
  induction steps with
  | refl => rfl
  | tail _ step ih =>
    subst ih
    exact step.completed done

theorem ChunkSteps.completes (steps : ChunkSteps ledger now op checkpoint checkpoint')
    (unfinished : checkpoint.status ≠ .completed) (done : checkpoint'.status = .completed) :
    ∃ jobId chunkId owner result leased expiry, op = .checkpointChunk jobId chunkId owner result ∧
      leased ∈ ledger.checkpointsOf jobId ∧ leased.chunkId = chunkId ∧ leased.status = .processing ∧
      leased.leaseOwner = some owner ∧ leased.leaseUntil = some expiry ∧ now ≤ expiry ∧
      leased.key = checkpoint.key ∧ checkpoint' = leased.complete now result := by
  induction steps with
  | refl => exact (unfinished done).elim
  | @tail middle last front step ih =>
    by_cases earlier : middle.status = .completed
    · obtain rfl := step.completed earlier
      exact ih earlier
    · cases step with
      | keep => exact (earlier done).elim
      | lease => cases done
      | expire => cases done
      | exhaust => cases done
      | complete member named processing owned until_ live =>
        exact ⟨_, _, _, _, middle, _, rfl, member, named, processing, owned, until_, live, ChunkSteps.key front, rfl⟩
      | defer => cases done

end Steps

variable {ledger : Ledger} {now : Time} {op : LedgerOp} {view view' : JobView}

theorem JobStep.chunks (kept : erasesEvidence op = false) (step : JobStep hashes ledger now op view view') :
    ∃ change, view'.checkpoints = view.checkpoints.map change ∧
      ∀ checkpoint ∈ view.checkpoints, ChunkSteps ledger now op checkpoint (change checkpoint) := by
  have exhausted : ∀ checkpoint, ChunkSteps ledger now op checkpoint (checkpoint.exhaustOpen now) := by
    intro checkpoint
    unfold DistillChunkCheckpoint.exhaustOpen
    split
    · exact .refl
    · next unfinished => exact .single (.exhaust unfinished)
  have expired : ∀ checkpoint, ChunkSteps ledger now op checkpoint (checkpoint.recoverExpired now) := by
    intro checkpoint
    unfold DistillChunkCheckpoint.recoverExpired
    split
    · next expired => exact .single (.expire expired)
    · exact .refl
  cases step with
  | leaseChunks _ _ _ _ _ _ claimable =>
    refine ⟨_, rfl, fun checkpoint member => ?_⟩
    split
    · next selected => exact .single (.lease (claimable checkpoint member selected))
    · exact .refl
  | recover => exact ⟨_, rfl, fun checkpoint _ => expired checkpoint⟩
  | recoverFailed => exact ⟨_, rfl, fun checkpoint _ => (expired checkpoint).trans (exhausted _)⟩
  | completeChunk viewed member named processing owned until_ live =>
    have listed := (Ledger.view_eq_some.mp viewed).2
    refine ⟨_, rfl, fun checkpoint present => ?_⟩
    split
    · next same =>
      -- the job has one checkpoint for the chunk, the leased one
      obtain rfl := checkpoint_eq (listed ▸ present) (listed ▸ member) (same.trans named.symm)
      exact .single (.complete (listed ▸ present) same processing owned until_ live)
    · exact .refl
  | loseWorkerFailed => exact ⟨_, rfl, fun checkpoint _ => exhausted checkpoint⟩
  | defer =>
    refine ⟨_, rfl, fun checkpoint _ => ?_⟩
    split
    · next processing => exact .single (.defer processing)
    · exact .refl
  | prune => cases kept
  | _ => exact ⟨id, (List.map_id _).symm, fun _ _ => .refl⟩

theorem JobSteps.chunks (kept : erasesEvidence op = false) (steps : JobSteps hashes ledger now op view view') :
    ∃ change, view'.checkpoints = view.checkpoints.map change ∧
      ∀ checkpoint ∈ view.checkpoints, ChunkSteps ledger now op checkpoint (change checkpoint) := by
  induction steps with
  | refl => exact ⟨id, (List.map_id _).symm, fun _ _ => .refl⟩
  | tail _ step ih =>
    obtain ⟨first, mapped, moved⟩ := ih
    obtain ⟨second, mapped', moved'⟩ := step.chunks kept
    refine ⟨second ∘ first, by rw [mapped', mapped, List.map_map], fun checkpoint member => ?_⟩
    exact (moved checkpoint member).trans (moved' _ (mapped ▸ List.mem_map_of_mem member))

theorem dropsJobs_of_kept (kept : erasesEvidence op = false) : dropsJobs op = false := by
  cases op <;> first | rfl | cases kept

variable {jobId chunkId : String}

theorem mem_checkpointsOf {checkpoint : DistillChunkCheckpoint} :
    ledger.checkpoints.get? (jobId, chunkId) = some checkpoint ↔
      checkpoint ∈ ledger.checkpointsOf jobId ∧ checkpoint.chunkId = chunkId := by
  rw [Table.get?_eq_some, Ledger.checkpointsOf, List.mem_filter]
  simp [DistillChunkCheckpoint.key, and_assoc]

theorem view_of_checkpoint (sound : References hashes ledger)
    {checkpoint : DistillChunkCheckpoint} (member : checkpoint ∈ ledger.checkpointsOf jobId) :
    ∃ job, ledger.view jobId = some ⟨job, ledger.checkpointsOf jobId⟩ := by
  obtain ⟨job, _, found, _⟩ := sound.backed checkpoint (List.mem_filter.mp member).1
  rw [Ledger.jobId_of_checkpointsOf member] at found
  exact ⟨job, Ledger.view_of_getJob found⟩

theorem created_pending
    (created : Created hashes ledger now op view) : ∀ checkpoint ∈ view.checkpoints, checkpoint.status = .pending := by
  cases created with
  | enqueue =>
    intro checkpoint member
    obtain ⟨chunk, _, rfl⟩ := List.mem_map.mp member
    rfl

/-! ### Completed checkpoints -/

variable {before after : World} {event : Event}

/-- A checkpoint that is completed after a call was so before, or the call wrote its result. -/
theorem completed_origin (sound : Integrity hashes before.ledger)
    (step : Step hashes before event after) (kept : erasesEvidence event.op = false)
    {row : DistillChunkCheckpoint} (found : after.ledger.checkpoints.get? (jobId, chunkId) = some row)
    (done : row.status = .completed) :
    before.ledger.checkpoints.get? (jobId, chunkId) = some row ∨
      ∃ leased owner result expiry, event.op = .checkpointChunk jobId chunkId owner result ∧
        before.ledger.checkpoints.get? (jobId, chunkId) = some leased ∧ leased.status = .processing ∧
        leased.leaseOwner = some owner ∧ leased.leaseUntil = some expiry ∧ event.time ≤ expiry ∧
        row = leased.complete event.time result := by
  obtain ⟨member, named⟩ := mem_checkpointsOf.mp found
  obtain ⟨job, viewed⟩ := view_of_checkpoint (step_integrity sound step).references member
  obtain ⟨view, origin, moved⟩ := step_origin sound step viewed
  obtain ⟨change, mapped, chunks⟩ := JobSteps.chunks kept moved
  have image : row ∈ view.checkpoints.map change := by
    rw [← mapped]
    exact member
  obtain ⟨old, present, rfl⟩ := List.mem_map.mp image
  have steps := chunks old present
  have same : old.chunkId = chunkId := (congrArg Prod.snd steps.key).symm.trans named
  by_cases already : old.status = .completed
  · rw [steps.completed already]
    rcases origin with known | fresh
    · exact .inl (mem_checkpointsOf.mpr ⟨(Ledger.view_eq_some.mp known).2 ▸ present, same⟩)
    · rw [created_pending fresh old present] at already
      cases already
  · obtain ⟨target, chunk, owner, result, leased, expiry, call, listed, named', processing, owned, until_, live, key,
      written⟩ := steps.completes already done
    have job_eq : target = jobId := by
      rw [← Ledger.jobId_of_checkpointsOf listed, ← Ledger.jobId_of_checkpointsOf member]
      exact congrArg Prod.fst (key.trans steps.key.symm)
    have chunk_eq : chunk = chunkId := by
      rw [← named', ← same]
      exact congrArg Prod.snd key
    subst job_eq chunk_eq
    exact .inr ⟨leased, owner, result, expiry, call, mem_checkpointsOf.mpr ⟨listed, named'⟩, processing, owned, until_,
      live, written⟩

theorem completed_inductive (row : DistillChunkCheckpoint) (done : row.status = .completed) :
    Inductive hashes (fun _ event => erasesEvidence event.op = false) fun _ view => row ∈ view.checkpoints where
  aged := fun _ _ _ _ holds => holds
  stepped := by
    intro world event view view' kept _ step holds
    obtain ⟨change, mapped, chunks⟩ := step.chunks kept
    have same : change row = row := (chunks row holds).completed done
    rw [mapped, ← same]
    exact List.mem_map_of_mem holds

theorem completed_kept {start final : World} {events : List Event} (sound : Integrity hashes start.ledger)
    (run : Exec (Step hashes) start events final) (kept : ∀ event ∈ events, erasesEvidence event.op = false) {row : DistillChunkCheckpoint}
    (found : start.ledger.checkpoints.get? (jobId, chunkId) = some row) (done : row.status = .completed) :
    final.ledger.checkpoints.get? (jobId, chunkId) = some row := by
  obtain ⟨member, named⟩ := mem_checkpointsOf.mp found
  obtain ⟨job, viewed⟩ := view_of_checkpoint sound.references member
  obtain ⟨view, viewed', present⟩ := exec_job (completed_inductive row done)
    (fun _ _ kept => dropsJobs_of_kept kept) (run.restrict kept) sound viewed member
  exact mem_checkpointsOf.mpr ⟨(Ledger.view_eq_some.mp viewed').2 ▸ present, named⟩

/-! ### Running leases -/

def LeasesChunk (ledger : Ledger) (event : Event) (jobId chunkId owner : String) (expiry : Time) : Prop :=
  match event.op with
  | .claimChunks target leaseOwner limit leaseSeconds source frozen =>
    target = jobId ∧ leaseOwner = owner ∧ ∃ claimed next,
      ledger.claimChunks target leaseOwner limit leaseSeconds source frozen event.time = .ok (claimed, next) ∧
        ∃ entry ∈ claimed, entry.2.chunkId = chunkId ∧ entry.2.leaseUntil = some expiry
  | _ => False

def Defers (ledger : Ledger) (event : Event) (jobId : String) : Prop :=
  match event.op with
  | .deferJob target error => target = jobId ∧ ∃ result, ledger.deferJob target error event.time = .ok result
  | _ => False

/-- The owner was handed the chunk until the expiry, and in the run since then the job was not deferred. -/
def LeaseHeld (hashes : Hashes) (jobId chunkId owner : String) (expiry : Time) (world : World) : Prop :=
  ∃ start granted grant events, Reachable hashes start ∧ Step hashes start grant granted ∧
    LeasesChunk start.ledger grant jobId chunkId owner expiry ∧
    Exec (Restrict (Step hashes) fun world event =>
      dropsJobs event.op = false ∧ ¬ Defers world.ledger event jobId) granted events world

/-- What a claim that hands out a chunk found, and what it left. -/
structure Handed (ledger : Ledger) (now : Time) (jobId chunkId owner : String) (expiry : Time) (next : Ledger) : Prop where
  ready : ∃ job, ledger.getJob jobId = some job ∧ job.waitsForRetry now = false
  claimable : ∃ checkpoint ∈ ledger.checkpointsOf jobId, checkpoint.chunkId = chunkId ∧ checkpoint.claimable
  leased : ∀ checkpoint ∈ next.checkpointsOf jobId, checkpoint.chunkId = chunkId →
    checkpoint.status = .processing ∧ checkpoint.leaseOwner = some owner ∧ checkpoint.leaseUntil = some expiry

variable {owner : String} {expiry : Time}

theorem mem_claimedRows {selected : List DistillChunkCheckpoint} {claimed : List (TranscriptChunk × DistillChunkCheckpoint)}
    (read : ledger.claimedRows owner expiry now selected = .ok claimed)
    {entry : TranscriptChunk × DistillChunkCheckpoint} (member : entry ∈ claimed) :
    ∃ checkpoint ∈ selected, entry.2 = checkpoint.lease now owner expiry := by
  induction selected generalizing claimed with
  | nil =>
    cases read
    cases member
  | cons checkpoint rest ih =>
    unfold Ledger.claimedRows at read
    split at read
    · cases read
    · split at read
      · cases read
      · next later front =>
        cases read
        rcases List.mem_cons.mp member with rfl | further
        · exact ⟨checkpoint, List.mem_cons_self, rfl⟩
        · obtain ⟨picked, present, same⟩ := ih front further
          exact ⟨picked, List.mem_cons_of_mem _ present, same⟩

theorem handed_of_leases
    (step : Step hashes before event after) (leases : LeasesChunk before.ledger event jobId chunkId owner expiry) :
    Handed before.ledger event.time jobId chunkId owner expiry after.ledger := by
  obtain ⟨time, op⟩ := event
  rw [step.2]
  cases op with
  | claimChunks target leaseOwner limit leaseSeconds source frozen =>
    obtain ⟨rfl, rfl, claimed, next, ran, entry, member, named, until_⟩ := leases
    have applied : (LedgerOp.claimChunks target leaseOwner limit leaseSeconds source frozen).apply hashes before.ledger
        time = next := by
      simp only at ran
      simp [LedgerOp.apply, LedgerOp.run, ran, Except.map]
    simp only at ran ⊢
    rw [applied]
    unfold Ledger.claimChunks at ran
    split at ran
    · cases ran
    · cases found : before.ledger.getJob target with
      | none => simp [found] at ran
      | some job =>
        simp only [found] at ran
        split at ran
        · cases ran
        · cases ran
          cases member
        · split at ran
          · cases ran
            cases member
          · split at ran
            · cases ran
              cases member
            · split at ran
              · cases ran
                cases member
              · next ready =>
                split at ran
                · cases ran
                · cases ran
                  cases member
                · next first rest read =>
                  cases ran
                  obtain ⟨picked, present, same⟩ := mem_claimedRows read member
                  have spec := selectChunks_claimable present
                  have chunk : picked.chunkId = chunkId := by rw [← named, same]; rfl
                  refine ⟨⟨job, found, by simpa using ready⟩, ⟨picked, spec.1, chunk, spec.2⟩, ?_⟩
                  intro checkpoint listed mine
                  rw [Ledger.checkpointsOf_setJob, Ledger.leaseChunks, Ledger.checkpointsOf_updateCheckpoints,
                    if_pos rfl] at listed
                  obtain ⟨old, _, rfl⟩ := List.mem_map.mp listed
                  have chosen : old.chunkId ∈ (before.ledger.selectChunks target limit).map (·.chunkId) := by
                    have kept : old.chunkId = chunkId := by
                      rw [← mine]
                      split <;> rfl
                    rw [kept, ← chunk]
                    exact List.mem_map_of_mem present
                  rw [if_pos chosen]
                  rw [same] at until_
                  exact ⟨rfl, rfl, until_⟩
  | _ => exact leases.elim

/-- While a lease counts, its chunk is not open to a claim: it is leased, finished or failed, or its
lease has just been taken back and the job waits for its retry. -/
def Withheld (expiry now : Time) (job : SessionDistillJob) (checkpoint : DistillChunkCheckpoint) : Prop :=
  (checkpoint.status = .processing ∧ checkpoint.leaseUntil = some expiry) ∨ checkpoint.status = .completed ∨
    checkpoint.status = .failed ∨ (now = expiry ∧ job.waitsForRetry now)

section Withholding

variable {expiry now : Time} {job job' : SessionDistillJob} {checkpoint : DistillChunkCheckpoint}

theorem Withheld.wait (held : Withheld expiry now job checkpoint)
    (waits : now = expiry → job.waitsForRetry now → job'.waitsForRetry now) : Withheld expiry now job' checkpoint := by
  rcases held with leased | completed | failed | ⟨here, waiting⟩
  · exact .inl leased
  · exact .inr (.inl completed)
  · exact .inr (.inr (.inl failed))
  · exact .inr (.inr (.inr ⟨here, waits here waiting⟩))

theorem Withheld.not_claimable (held : Withheld expiry now job checkpoint) (ready : job.waitsForRetry now = false) :
    checkpoint.claimable = false := by
  rcases held with ⟨processing, _⟩ | completed | failed | ⟨_, waiting⟩
  · simp [DistillChunkCheckpoint.claimable, processing]
  · simp [DistillChunkCheckpoint.claimable, completed]
  · simp [DistillChunkCheckpoint.claimable, failed]
  · rw [ready] at waiting
    cases waiting

theorem withheld_exhaustOpen : Withheld expiry now job (checkpoint.exhaustOpen now) := by
  unfold DistillChunkCheckpoint.exhaustOpen
  split
  · next completed => exact .inr (.inl completed)
  · exact .inr (.inr (.inl rfl))

theorem withheld_recoverExpired (early : now ≤ expiry) (held : Withheld expiry now job checkpoint)
    (waits : job'.waitsForRetry now) : Withheld expiry now job' (checkpoint.recoverExpired now) := by
  unfold DistillChunkCheckpoint.recoverExpired
  split
  · next expired =>
    simp only [DistillChunkCheckpoint.leaseExpired, Bool.and_eq_true, decide_eq_true_eq] at expired
    rcases held with ⟨_, until_⟩ | completed | failed | ⟨here, _⟩
    · have past : expiry ≤ now := by simpa [until_] using expired.2
      exact .inr (.inr (.inr ⟨Nat.le_antisymm early past, waits⟩))
    · simp [completed] at expired
    · simp [failed] at expired
    · exact .inr (.inr (.inr ⟨here, waits⟩))
  · exact held.wait fun _ _ => waits

end Withholding

/-- The chunk of a lease is withheld in a job that has no more checkpoints than it expects. -/
structure Withholds (jobId chunkId : String) (expiry now : Time) (view : JobView) : Prop where
  id : view.job.id = jobId
  bounded : view.checkpoints.length ≤ view.job.expectedChunkCount
  withheld : now ≤ expiry → ∀ checkpoint ∈ view.checkpoints, checkpoint.chunkId = chunkId →
    Withheld expiry now view.job checkpoint

theorem JobStep.length_le
    (step : JobStep hashes ledger now op view view') : view'.checkpoints.length ≤ view.checkpoints.length := by
  cases step with
  | prune => exact Nat.zero_le _
  | leaseChunks | recover | recoverFailed | completeChunk | loseWorkerFailed | defer => exact (List.length_map _).le
  | _ => exact Nat.le_refl _

theorem JobStep.bounded (step : JobStep hashes ledger now op view view')
    (bounded : view.checkpoints.length ≤ view.job.expectedChunkCount) :
    view'.checkpoints.length ≤ view'.job.expectedChunkCount := by
  have expected : view'.job.expectedChunkCount = view.job.expectedChunkCount :=
    congrArg JobIdentity.expectedChunkCount step.identity
  rw [expected]
  exact step.length_le.trans bounded

theorem bounded_inductive : Inductive hashes (fun _ _ => True)
    fun _ view => view.checkpoints.length ≤ view.job.expectedChunkCount where
  aged := fun _ _ _ _ holds => holds
  stepped := fun _ _ _ _ _ _ step holds => step.bounded holds

theorem bounded_created
    (created : Created hashes ledger now op view) : view.checkpoints.length ≤ view.job.expectedChunkCount := by
  cases created with
  | enqueue => exact (List.length_map _).le

variable {world : World}

theorem withheld_step (kept : ¬ Defers world.ledger event jobId)
    (step : JobStep hashes world.ledger event.time event.op view view')
    (holds : Withholds jobId chunkId expiry event.time view) : Withholds jobId chunkId expiry event.time view' := by
  refine ⟨(congrArg JobIdentity.id step.identity).trans holds.id, step.bounded holds.bounded, ?_⟩
  intro early
  have withheld := holds.withheld early
  have bounded := holds.bounded
  have mine := holds.id
  obtain ⟨time, op⟩ := event
  simp only at step early withheld kept ⊢
  -- a step that leaves the checkpoints and the waiting alone
  have same : ∀ {job' : SessionDistillJob}, (view.job.waitsForRetry time → job'.waitsForRetry time) →
      ∀ checkpoint ∈ view.checkpoints, checkpoint.chunkId = chunkId → Withheld expiry time job' checkpoint :=
    fun waits checkpoint member named => (withheld checkpoint member named).wait fun _ => waits
  cases step with
  | @annotate _ job job' _ annotated =>
    have kept : job'.retryAfter = job.retryAfter := congrArg Standing.retryAfter annotated
    refine same fun waiting => ?_
    unfold SessionDistillJob.waitsForRetry at waiting ⊢
    simpa only [kept] using waiting
  | leaseChunks _ _ _ _ ready _ claimable =>
    intro checkpoint member named
    obtain ⟨old, present, rfl⟩ := List.mem_map.mp member
    have mine' : old.chunkId = chunkId := by
      rw [← named]
      split <;> rfl
    have closed := (withheld old present mine').not_claimable ready
    split
    · next chosen =>
      rw [claimable old present chosen] at closed
      cases closed
    · refine (withheld old present mine').wait fun _ waiting => ?_
      rw [ready] at waiting
      cases waiting
  | recover =>
    intro checkpoint member named
    obtain ⟨old, present, rfl⟩ := List.mem_map.mp member
    have mine' : old.chunkId = chunkId := (congrArg Prod.snd (old.key_recoverExpired time)).symm.trans named
    exact withheld_recoverExpired early (withheld old present mine') (SessionDistillJob.waits_retryLater _ _)
  | recoverFailed =>
    intro checkpoint member _
    obtain ⟨old, _, rfl⟩ := List.mem_map.mp member
    exact withheld_exhaustOpen
  | completeChunk _ _ named =>
    intro checkpoint member named'
    obtain ⟨old, present, rfl⟩ := List.mem_map.mp member
    split
    · exact .inr (.inl rfl)
    · next other =>
      rw [if_neg other] at named'
      refine (withheld old present named').wait fun _ waiting => ?_
      unfold SessionDistillJob.countChunks
      dsimp only
      split <;> exact waiting
  | advance _ complete =>
    intro checkpoint member _
    have all := completedOf_eq_length (Nat.le_antisymm List.countP_le_length (complete ▸ bounded))
    exact .inr (.inl (all checkpoint member))
  | loseWorker => exact same fun _ => SessionDistillJob.waits_retryLater _ _
  | loseWorkerFailed =>
    intro checkpoint member _
    obtain ⟨old, _, rfl⟩ := List.mem_map.mp member
    exact withheld_exhaustOpen
  | grantReview => refine same fun waiting => ?_; split <;> exact waiting
  | defer here _ returned => exact (kept ⟨here.symm.trans mine, returned⟩).elim
  | prune => exact nofun
  | _ => exact same id

theorem withholds_inductive (jobId chunkId : String) (expiry : Time) :
    Inductive hashes (fun world event => dropsJobs event.op = false ∧ ¬ Defers world.ledger event jobId)
      (Withholds jobId chunkId expiry) where
  aged := by
    intro earlier later view ordered holds
    refine ⟨holds.id, holds.bounded, fun early checkpoint member named => ?_⟩
    rcases holds.withheld (ordered.trans early) checkpoint member named with leased | completed | failed | ⟨here, waits⟩
    · exact .inl leased
    · exact .inr (.inl completed)
    · exact .inr (.inr (.inl failed))
    · have now : later = earlier := Nat.le_antisymm (here ▸ early) ordered
      exact .inr (.inr (.inr ⟨now.trans here, now ▸ waits⟩))
  stepped := fun _ _ _ _ kept _ step holds => withheld_step kept.2 step holds

theorem withheld_of_held (held : LeaseHeld hashes jobId chunkId owner expiry world) :
    ∃ view, world.ledger.view jobId = some view ∧ Withholds jobId chunkId expiry world.clock view := by
  obtain ⟨start, granted, grant, events, ⟨front, reached⟩, step, leases, run⟩ := held
  have handed := handed_of_leases step leases
  have sound := step_integrity (reachable_integrity ⟨front, reached⟩) step
  obtain ⟨old, listed, named, _⟩ := handed.claimable
  obtain ⟨job, viewed⟩ := view_of_checkpoint (reachable_integrity ⟨front, reached⟩).references listed
  have kept : dropsJobs grant.op = false := by
    obtain ⟨time, op⟩ := grant
    cases op <;> first | rfl | cases leases
  obtain ⟨view, viewed', moved⟩ := step_persists (reachable_integrity ⟨front, reached⟩) step kept viewed
  have everywhere := exec_everyJob bounded_inductive (fun _ _ _ _ => bounded_created)
    ((reached.append (.single step)).mono fun _ _ _ edge => ⟨edge, trivial⟩) .empty (everyJob_initial _)
  have holds : Withholds jobId chunkId expiry granted.clock view := by
    obtain ⟨found, own⟩ := Ledger.view_eq_some.mp viewed'
    refine ⟨Ledger.id_of_getJob found, everywhere jobId view viewed', fun _ checkpoint member mine => ?_⟩
    obtain ⟨processing, _, until_⟩ := handed.leased checkpoint (own ▸ member) mine
    exact .inl ⟨processing, until_⟩
  exact exec_job (withholds_inductive jobId chunkId expiry) (fun _ _ kept => kept.1) run sound viewed' holds

theorem not_leases_of_held (held : LeaseHeld hashes jobId chunkId owner expiry world) (later : world.clock ≤ event.time)
    (early : event.time ≤ expiry) (other : String) (until_ : Time) :
    ¬ LeasesChunk world.ledger event jobId chunkId other until_ := by
  intro leases
  obtain ⟨view, viewed, holds⟩ := withheld_of_held held
  have step : Step hashes world event ⟨event.op.apply hashes world.ledger event.time, event.time⟩ := ⟨later, rfl⟩
  have handed := handed_of_leases step leases
  obtain ⟨job, found, ready⟩ := handed.ready
  obtain ⟨checkpoint, listed, named, claimable⟩ := handed.claimable
  obtain ⟨found', own⟩ := Ledger.view_eq_some.mp viewed
  have kept : Inductive hashes _ (Withholds jobId chunkId expiry) := withholds_inductive jobId chunkId expiry
  have aged := kept.aged _ _ _ later holds
  have closed := (aged.withheld early checkpoint (own ▸ listed) named).not_claimable
    (Option.some.inj (found'.symm.trans found) ▸ ready)
  rw [claimable] at closed
  cases closed

theorem unleased_of_defers {job : SessionDistillJob}
    (step : Step hashes before event after) (defers : Defers before.ledger event jobId)
    (found : before.ledger.getJob jobId = some job) (unfinished : job.status.terminal = false) :
    ∀ checkpoint ∈ after.ledger.checkpointsOf jobId, checkpoint.status ≠ .processing := by
  obtain ⟨time, op⟩ := event
  rw [step.2]
  cases op with
  | deferJob target error =>
    obtain ⟨rfl, _⟩ := defers
    simp only [LedgerOp.apply, LedgerOp.run, Ledger.deferJob, found, unfinished, Bool.false_eq_true, if_false]
    intro checkpoint member
    simp only [Except.map, Ledger.checkpointsOf_setJob, Ledger.checkpointsOf_updateCheckpoints, if_true] at member
    obtain ⟨old, _, rfl⟩ := List.mem_map.mp member
    split
    · rintro ⟨⟩
    · next other => exact other
  | _ => exact defers.elim

/-- Chunk results are written once and under a running lease. A chunk is handed to nobody while a lease
on it counts, unless a defer gave that lease back; only the owner of a running lease completes the
chunk; and a completed checkpoint stays as it is. -/
theorem chunk_written_once (jobId chunkId : String) :
    (∀ owner expiry world event, LeaseHeld hashes jobId chunkId owner expiry world →
      world.clock ≤ event.time → event.time ≤ expiry →
        ∀ other until_, ¬ LeasesChunk world.ledger event jobId chunkId other until_) ∧
    (∀ before event after job, Reachable hashes before → Step hashes before event after →
      Defers before.ledger event jobId → before.ledger.getJob jobId = some job → job.status.terminal = false →
        ∀ checkpoint ∈ after.ledger.checkpointsOf jobId, checkpoint.status ≠ .processing) ∧
    (∀ before event after row, Reachable hashes before → Step hashes before event after →
      erasesEvidence event.op = false → after.ledger.checkpoints.get? (jobId, chunkId) = some row →
        row.status = .completed → before.ledger.checkpoints.get? (jobId, chunkId) = some row ∨
          ∃ leased owner result expiry, event.op = .checkpointChunk jobId chunkId owner result ∧
            before.ledger.checkpoints.get? (jobId, chunkId) = some leased ∧ leased.status = .processing ∧
            leased.leaseOwner = some owner ∧ leased.leaseUntil = some expiry ∧ event.time ≤ expiry ∧
            row = leased.complete event.time result) ∧
    ∀ start events final row, Reachable hashes start → Exec (Step hashes) start events final →
      (∀ event ∈ events, erasesEvidence event.op = false) →
        start.ledger.checkpoints.get? (jobId, chunkId) = some row → row.status = .completed →
          final.ledger.checkpoints.get? (jobId, chunkId) = some row := by
  refine ⟨?_, ?_, ?_, ?_⟩
  · intro owner expiry world event held later early other until_
    exact not_leases_of_held held later early other until_
  · intro before event after job _ step defers found unfinished
    exact unleased_of_defers step defers found unfinished
  · intro before event after row reached step kept found done
    exact completed_origin (reachable_integrity reached) step kept found done
  · intro start events final row reached run kept found done
    exact completed_kept (reachable_integrity reached) run kept found done

def queuedEvents : List Event := [⟨1, sampleCapture .spelled "s" ["a"]⟩, ⟨2, sampleEnqueue "s"⟩]

def chunkClaim (time : Time) (owner : String) : Event := ⟨time, sampleClaim (sampleJob .spelled "s" ["a"]) owner⟩

theorem leasesChunk_of_some {time : Time} {source : String}
    {limit : Option Int} {leaseSeconds : Int} {frozen : Except StoreError Bool}
    (handed : ((ledger.claimChunks jobId owner limit leaseSeconds source frozen time).toOption.map fun answer =>
      answer.1.any fun entry => entry.2.chunkId = chunkId ∧ entry.2.leaseUntil = some expiry) = some true) :
    LeasesChunk ledger ⟨time, .claimChunks jobId owner limit leaseSeconds source frozen⟩ jobId chunkId owner expiry := by
  refine ⟨rfl, rfl, ?_⟩
  cases ran : ledger.claimChunks jobId owner limit leaseSeconds source frozen time with
  | error failure => simp [ran, Except.toOption] at handed
  | ok answer =>
    simp only [ran, Except.toOption, Option.map_some, Option.some.injEq, List.any_eq_true] at handed
    obtain ⟨entry, member, matching⟩ := handed
    exact ⟨answer.1, answer.2, rfl, entry, member, of_decide_eq_true matching⟩

theorem chunk_written_once_leased :
    ∀ until_, ¬ LeasesChunk (World.initial.after .spelled (queuedEvents ++ [chunkClaim 3 "A"])).ledger
      (chunkClaim (seconds 100) "B") (sampleJob .spelled "s" ["a"]) "sha256:a#a" "B" until_ := by
  have held : LeaseHeld .spelled (sampleJob .spelled "s" ["a"]) "sha256:a#a" "A" (3 + seconds 300)
      (World.initial.after .spelled (queuedEvents ++ [chunkClaim 3 "A"])) :=
    ⟨World.initial.after .spelled queuedEvents, _, chunkClaim 3 "A", [], reachable_after (by decide),
      ⟨by decide, rfl⟩, leasesChunk_of_some (by decide), .nil _⟩
  exact (chunk_written_once (sampleJob .spelled "s" ["a"]) "sha256:a#a").1 _ _ _ _ held (by decide) (by decide) "B"

end HarnessMem.Lifecycle
