import HarnessMem.Storage.Distill.Recovery

/-! Queueing a source revision, the bounded active lane with its two drainer
lanes, and the flags an interactive Agent sets on queued work.
-/

set_option autoImplicit false

namespace HarnessMem

namespace SessionDistillJob

variable (job : SessionDistillJob) (now : Time)

def schedulable : Bool := job.status = .queued || job.status = .retryable || job.status = .parked

theorem terminal_of_schedulable {job : SessionDistillJob} (schedulable : job.schedulable) :
    job.status.terminal = false := by
  unfold SessionDistillJob.schedulable at schedulable
  cases status : job.status <;> simp [status, DistillJobStatus.terminal] at schedulable ⊢

def markStale : SessionDistillJob :=
  { job with
    status := .stale
    error := some "superseded by a newer transcript source revision"
    updatedAt := now }

def claimManual : SessionDistillJob := { job with manualOnly := true, updatedAt := now }

def recheckManual : SessionDistillJob := { job with manualOnly := true, retainSource := true }

end SessionDistillJob

namespace Storage

open Library

/-! ### The active lane -/

structure QueueRow where
  ordinal : Nat
  job : SessionDistillJob

/-- `age_key(first) < age_key(second)`. -/
def QueueRow.older (first second : QueueRow) : Bool :=
  first.job.createdAt < second.job.createdAt ||
    (first.job.createdAt = second.job.createdAt && first.ordinal < second.ordinal)

/-- `max` and `min` with a key: the first of the best rows. -/
def pick (better : QueueRow → QueueRow → Bool) : QueueRow → List QueueRow → QueueRow
  | best, [] => best
  | best, row :: rest => pick better (if better row best then row else best) rest

/-- One drainer selection. `others` counts the selectable jobs it left behind. -/
structure Selection where
  jobId : String
  lane : DrainerLane
  others : Nat
  deriving DecidableEq, Repr

def lanePool (pool : List QueueRow) : List QueueRow :=
  let healthy := pool.filter fun row => row.job.error.isNone
  if healthy.isEmpty then pool else healthy

def choose (recent : Bool) (pool : List QueueRow) : Option QueueRow :=
  match lanePool pool with
  | [] => none
  | first :: rest => some (pick (fun row best => if recent then best.older row else row.older best) first rest)

/-- The selecting loop of `_rebalance_locked`, one turn for each slot still free. -/
def drain (recentFirst : Bool) : Nat → Nat → List QueueRow → List Selection
  | 0, _, _ => []
  | slots + 1, recentStreak, pool =>
    let recent := recentFirst && recentStreak < 3
    match choose recent pool with
    | none => []
    | some chosen =>
      let left := pool.filter fun row => row.job.id ≠ chosen.job.id
      ⟨chosen.job.id, if recent then .recent else .oldest, left.length⟩ ::
        drain recentFirst slots (if recent then recentStreak + 1 else 0) left

/-- `history` read from its end: the selected jobs, the latest first. -/
def drainerHistory (rows : List QueueRow) : List QueueRow :=
  ((rows.filter fun row => row.job.drainerSelectedAt.isSome).insertionSort fun first second =>
    first.job.drainerSelectedAt.getD 0 ≤ second.job.drainerSelectedAt.getD 0).reverse

def recentStreak (rows : List QueueRow) : Nat :=
  ((drainerHistory rows).takeWhile fun row => row.job.drainerLane = some .recent).length

namespace Ledger

def queueRows (ledger : Ledger) (projectName : String) : List QueueRow :=
  (ledger.jobs.rows.zipIdx.map fun (job, ordinal) => ⟨ordinal, job⟩).filter fun row =>
    row.job.projectName = projectName

end Ledger

/-- What `_rebalance_locked` decides before it writes. -/
structure RebalancePlan where
  protectedCount : Nat
  waitingRetry : Nat
  candidates : List QueueRow
  preselected : List QueueRow
  pool : List QueueRow
  slots : Nat
  selections : List Selection

def planRebalance (rows : List QueueRow) (targetActive : Int) (recentFirst : Bool) (now : Time) :
    RebalancePlan :=
  let protectedCount := rows.countP fun row => row.job.status = .processing || row.job.status = .reviewing
  let candidates := rows.filter fun row => row.job.schedulable && !row.job.waitsForRetry now
  let availableSlots := (targetActive - protectedCount).toNat
  let currentlyActive := candidates.filter fun row => row.job.status = .queued
  let preselected := if currentlyActive.length ≤ availableSlots then currentlyActive else []
  let pool := candidates.filter fun row => !(row.job.id ∈ preselected.map (·.job.id))
  let slots := availableSlots - preselected.length
  { protectedCount
    waitingRetry := rows.countP fun row => row.job.schedulable && row.job.waitsForRetry now
    candidates, preselected, pool, slots
    selections := drain recentFirst slots (recentStreak rows) pool }

def RebalancePlan.place (plan : RebalancePlan) (now : Time) (job : SessionDistillJob) : SessionDistillJob :=
  if job.id ∈ plan.candidates.map (·.job.id) then
    match plan.selections.find? fun selection => selection.jobId = job.id with
    | some selection =>
      { job with
        drainerLane := some selection.lane
        drainerSelectedAt := some now
        status := .queued
        updatedAt := if job.status = .queued then job.updatedAt else now }
    | none =>
      if job.id ∈ plan.preselected.map (·.job.id) ∨ job.status = .parked then job
      else { job with status := .parked, updatedAt := now }
  else job

structure RebalanceSummary where
  active : Nat
  parked : Nat
  retryBackoff : Nat
  selectedRecent : Nat
  selectedOldest : Nat
  deriving DecidableEq, Repr

def RebalancePlan.summary (plan : RebalancePlan) : RebalanceSummary where
  active := plan.protectedCount + plan.preselected.length + plan.selections.length
  parked := plan.pool.length - plan.selections.length
  retryBackoff := plan.waitingRetry
  selectedRecent := plan.selections.countP fun selection => selection.lane = .recent
  selectedOldest := plan.selections.countP fun selection => selection.lane = .oldest

theorem RebalancePlan.id_place (plan : RebalancePlan) (now : Time) (job : SessionDistillJob) :
    (plan.place now job).id = job.id := by
  unfold RebalancePlan.place
  split
  · split
    · rfl
    · split <;> rfl
  · rfl

namespace Ledger

def rebalancePlan (ledger : Ledger) (scan : Scan QueueRow) (projectName : String) (targetActive : Int)
    (recentFirst : Bool) (now : Time) : RebalancePlan :=
  planRebalance (scan.order (ledger.queueRows projectName)) (max 0 targetActive) recentFirst now

def placeJobs (ledger : Ledger) (plan : RebalancePlan) (now : Time) : Ledger :=
  { ledger with jobs := ledger.jobs.mapRows (plan.place now) (plan.id_place now) }

/-- `rebalance`; the caller of `_rebalance_locked` has cut the target to zero from below. -/
def rebalance (ledger : Ledger) (scan : Scan QueueRow) (projectName : String) (targetActive : Int)
    (recentFirst : Bool) (now : Time) : RebalancePlan × Ledger :=
  let plan := ledger.rebalancePlan scan projectName targetActive recentFirst now
  (plan, ledger.placeJobs plan now)

/-! ### Queueing -/

def markOlderJobsStaleLocked (ledger : Ledger) (source : TranscriptSource) (now : Time) : Ledger :=
  { ledger with
    jobs := ledger.jobs.mapRows
      (fun job =>
        if job.sourceId = source.id ∧ job.sourceRevision ≠ source.sourceRevision ∧ job.status.active then
          job.markStale now
        else job)
      fun job => by split <;> rfl }

/-- `_upsert_job_locked` for a new row, with the UNIQUE key and the revision it references. -/
def insertJobLocked (ledger : Ledger) (job : SessionDistillJob) : Except StoreError Ledger :=
  if ledger.jobs.rows.any fun other => other.id ≠ job.id ∧ other.idempotencyKey = job.idempotencyKey then
    .error (.integrityError "UNIQUE distill_jobs(idempotency_key)")
  else if (ledger.getRevision job.sourceId job.sourceRevision).isNone then
    .error (.integrityError "FOREIGN KEY distill_jobs(source_id, source_revision)")
  else .ok (ledger.setJob job)

/-- `_upsert_checkpoint_locked` for the rows of a new job. -/
def insertCheckpoints (ledger : Ledger) (checkpoints : List DistillChunkCheckpoint) : Ledger :=
  { ledger with checkpoints := checkpoints.foldl (fun table checkpoint => table.upsert checkpoint) ledger.checkpoints }

end Ledger

structure EnqueueRequest where
  sourceId : String
  pipelineVersion : String := "lossless-distill-v1"
  activeLimit : Option Int := none
  recentFirst : Bool := true
  manualRecheck : Bool := false
  deriving DecidableEq, Repr

def idempotencyKey (source : TranscriptSource) (pipelineVersion : String) : String :=
  source.id ++ ":" ++ source.sourceRevision ++ ":" ++ pipelineVersion

def distillJobId (hashes : Hashes) (key : String) : String := hashes.uuid5 ("harness-mem://distill/" ++ key)

def EnqueueRequest.newJob (hashes : Hashes) (request : EnqueueRequest) (source : TranscriptSource)
    (chunkCount : Nat) (now : Time) : SessionDistillJob where
  id := distillJobId hashes (idempotencyKey source request.pipelineVersion)
  idempotencyKey := idempotencyKey source request.pipelineVersion
  projectName := source.projectName
  projectRoot := source.projectRoot
  client := source.client
  sessionId := source.sessionId
  sourceId := source.id
  sourceRevision := source.sourceRevision
  pipelineVersion := request.pipelineVersion
  status := .queued
  manualOnly := request.manualRecheck
  retainSource := request.manualRecheck
  phase := .chunks
  expectedChunkCount := chunkCount
  zeroCandidateChallengeVersion := some "v1"
  lastProgressAt := some now
  createdAt := now
  updatedAt := now

def newCheckpoint (jobId : String) (now : Time) (chunk : TranscriptChunk) : DistillChunkCheckpoint where
  jobId := jobId
  chunkId := chunk.id
  chunkIndex := chunk.chunkIndex
  updatedAt := now

namespace Ledger

/-- The source and chunk rows `enqueue` accepts, or what it raises. -/
def enqueueInput (hashes : Hashes) (ledger : Ledger) (request : EnqueueRequest) :
    Except StoreError (TranscriptSource × List TranscriptChunk) :=
  match ledger.getSource request.sourceId with
  | none => .error (.keyError request.sourceId)
  | some source =>
    if source.coverage ≠ .complete ∨
        ¬ (source.status = .synced ∨ (request.manualRecheck ∧ source.status = .missing)) then
      .error (.valueError "only complete synced transcript sources can be queued")
    else if request.manualRecheck ∧ source.metadata.text "evidence_state" = "source_pruned" then
      .error (.valueError "the retained complete source is unavailable")
    else
      -- the manual path verifies the stored capture before it queues it again
      match if request.manualRecheck then reconstruct hashes ledger source.id source.sourceRevision else .ok "" with
      | .error failure => .error failure
      | .ok _ =>
        let chunks := ledger.listChunks source.id source.sourceRevision
        if chunks.length ≠ source.chunkCount then
          .error (.valueError "transcript source chunk count is incomplete")
        else .ok (source, chunks)

def findJob (ledger : Ledger) (key : String) : Option SessionDistillJob :=
  ledger.jobs.rows.find? fun job => job.idempotencyKey = key

/-- `_rebalance_locked` where `enqueue` was given a limit, with the selections it made. -/
def rebalanceWithin (ledger : Ledger) (scan : Scan QueueRow) (source : TranscriptSource)
    (request : EnqueueRequest) (now : Time) : List Selection × Ledger :=
  match request.activeLimit with
  | none => ([], ledger)
  | some limit =>
    let (plan, placed) := ledger.rebalance scan source.projectName limit request.recentFirst now
    (plan.selections, placed)

/-- `enqueue`: the job, the drainer selections made on the way, and the ledger. -/
def enqueue (hashes : Hashes) (ledger : Ledger) (scan : Scan QueueRow) (request : EnqueueRequest) (now : Time) :
    Except StoreError (SessionDistillJob × List Selection × Ledger) :=
  match ledger.enqueueInput hashes request with
  | .error failure => .error failure
  | .ok (source, chunks) =>
    match ledger.findJob (idempotencyKey source request.pipelineVersion) with
    | some existing =>
      let flagged := if request.manualRecheck ∧ ¬ (existing.manualOnly ∧ existing.retainSource) then
        ledger.setJob existing.recheckManual else ledger
      let (selections, placed) := (flagged.markOlderJobsStaleLocked source now).rebalanceWithin scan source request now
      .ok ((placed.getJob existing.id).getD existing, selections, placed)
    | none =>
      let job := request.newJob hashes source chunks.length now
      match (ledger.markOlderJobsStaleLocked source now).insertJobLocked job with
      | .error failure => .error failure
      | .ok inserted =>
        let queued := inserted.insertCheckpoints (chunks.map (newCheckpoint job.id now))
        let (selections, placed) := queued.rebalanceWithin scan source request now
        .ok (job, selections, placed)

/-! ### Flags of the interactive Agent -/

def reserveManual (ledger : Ledger) (jobId : String) (now : Time) : Except StoreError (SessionDistillJob × Ledger) :=
  match ledger.getJob jobId with
  | none => .error (.keyError jobId)
  | some job =>
    if job.backgroundLease now then .error (.valueError "background review already owns this session")
    else if job.manualOnly then .ok (job, ledger)
    else .ok (job.claimManual now, ledger.setJob (job.claimManual now))

/-- The jobs `freeze_manual_selection` must not take from their owner. -/
def freezeRefusal (ledger : Ledger) (now : Time) (job : SessionDistillJob) : Option StoreError :=
  if job.backgroundLease now then some (.valueError "background review already owns this session")
  else if (ledger.checkpointsOf job.id).any fun checkpoint => checkpoint.leaseLive now then
    some (.valueError "chunk processing already owns this session")
  else none

/-- `freeze_manual_selection`; `publish` writes its manifest outside the ledger, so what it
returned or raised is an input. -/
def freezeManualSelection (ledger : Ledger) (selects : SessionDistillJob → Bool)
    (publish : Except StoreError Dict) (now : Time) : Except StoreError (Dict × Ledger) :=
  match (ledger.jobs.rows.filter selects).findSome? (ledger.freezeRefusal now) with
  | some failure => .error failure
  | none =>
    match publish with
    | .error failure => .error failure
    | .ok manifest =>
      .ok (manifest,
        { ledger with
          jobs := ledger.jobs.mapRows
            (fun job => if selects job ∧ ¬ job.manualOnly then job.claimManual now else job)
            fun job => by split <;> rfl })

def retainSource (ledger : Ledger) (jobId : String) (now : Time) : Except StoreError (SessionDistillJob × Ledger) :=
  match ledger.getJob jobId with
  | none => .error (.keyError jobId)
  | some job =>
    if job.retainSource then .ok (job, ledger)
    else
      let retained := { job with retainSource := true, updatedAt := now }
      .ok (retained, ledger.setJob retained)

def enableZeroCandidateChallenge (ledger : Ledger) (jobId : String) (now : Time) :
    Except StoreError (SessionDistillJob × Ledger) :=
  match ledger.getJob jobId with
  | none => .error (.keyError jobId)
  | some job =>
    if job.status ≠ .completed ∧ job.zeroCandidateChallengeVersion.isNone then
      let upgraded := { job with zeroCandidateChallengeVersion := some "v1", updatedAt := now }
      .ok (upgraded, ledger.setJob upgraded)
    else .ok (job, ledger)

end Ledger

/-- `date().isoformat()` as the number of the day. -/
def day (instant : Time) : Nat := instant / seconds 86400

def offered (now : Time) (job : SessionDistillJob) : SessionDistillJob :=
  { job with
    agentOfferDay := some (day now)
    agentOfferCount := job.agentOfferCount + 1
    lastAgentOfferedAt := some now
    updatedAt := now }

namespace Ledger

/-- `mark_agent_offered`, with the number of jobs first offered on this day. -/
def markAgentOffered (ledger : Ledger) (projectName : String) (jobIds : List String) (now : Time) : Nat × Ledger :=
  let selected (job : SessionDistillJob) : Bool := job.projectName = projectName && job.id ∈ jobIds
  (ledger.jobs.rows.countP fun job => selected job && job.agentOfferDay ≠ some (day now),
    { ledger with
      jobs := ledger.jobs.mapRows (fun job => if selected job then offered now job else job)
        fun job => by split <;> rfl })

def activateParkedForAgent (ledger : Ledger) (jobId : String) (now : Time) :
    Except StoreError (SessionDistillJob × Ledger) :=
  match ledger.getJob jobId with
  | none => .error (.keyError jobId)
  | some job =>
    if job.status ≠ .parked ∨ job.waitsForRetry now then .ok (job, ledger)
    else
      let activated := { offered now job with status := .queued }
      .ok (activated, ledger.setJob activated)

end Ledger

end Storage

end HarnessMem
