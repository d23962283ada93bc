import HarnessMem.Library.RoundRobin
import HarnessMem.Lifecycle.Requeue

/-! The drainer lanes across calls. The streak of recent selections is read back
from the job rows, which keep only the latest selection of each job, so a job that
is selected again takes its earlier selections out of the count.
-/

set_option autoImplicit false

namespace HarnessMem.Lifecycle

open Storage Library

variable {hashes : Hashes}

/-! ### One call of the selecting loop -/

def isRecent (selection : Selection) : Bool := selection.lane = .recent

def leavesOthers (selection : Selection) : Bool := 0 < selection.others

/-- No four consecutive selections use the recent lane while a selectable job remains. -/
abbrev Fair (log : List Selection) : Prop := Alternates 3 isRecent leavesOthers log

/-- The streak on record, the free slots and the pool let a log that ends in `trailing` recent
selections go on fairly. -/
def TakesTurns (trailing recentStreak slots selectable : Nat) : Prop :=
  min 3 trailing ≤ recentStreak ∨ slots < 4 - min 3 trailing ∨ selectable ≤ 4 - min 3 trailing

theorem pick_mem {better : QueueRow → QueueRow → Bool} (best : QueueRow) (rows : List QueueRow) :
    pick better best rows ∈ best :: rows := by
  induction rows generalizing best with
  | nil => exact List.mem_cons_self
  | cons row rest ih =>
    unfold pick
    rcases List.mem_cons.mp (ih (if better row best then row else best)) with same | later
    · rw [same]
      split
      · exact List.mem_cons_of_mem _ List.mem_cons_self
      · exact List.mem_cons_self
    · exact List.mem_cons_of_mem _ (List.mem_cons_of_mem _ later)

variable {pool : List QueueRow}

theorem choose_mem {recent : Bool} {chosen : QueueRow}
    (found : choose recent pool = some chosen) : chosen ∈ pool := by
  have narrowed : ∀ row ∈ lanePool pool, row ∈ pool := by
    intro row member
    unfold lanePool at member
    dsimp only at member
    split at member
    · exact member
    · exact (List.mem_filter.mp member).1
  unfold choose at found
  split at found
  · cases found
  · next first rest listed =>
    cases found
    exact narrowed _ (listed ▸ pick_mem first rest)

theorem choose_none {recent : Bool} (none_ : choose recent pool = none) : pool = [] := by
  unfold choose at none_
  split at none_
  · next empty =>
    unfold lanePool at empty
    dsimp only at empty
    split at empty
    · exact empty
    · next some_ => exact (some_ (by rw [empty]; rfl)).elim
  · cases none_

theorem length_left {chosen : QueueRow} (distinct : (pool.map (·.job.id)).Nodup)
    (member : chosen ∈ pool) : (pool.filter fun row => row.job.id ≠ chosen.job.id).length + 1 = pool.length := by
  have present : chosen.job.id ∈ pool.map (·.job.id) := List.mem_map_of_mem member
  have once : pool.countP (fun row => row.job.id = chosen.job.id) = 1 := by
    have counted := List.count_eq_one_of_mem distinct present
    rw [List.count, List.countP_map] at counted
    rw [← counted]
    exact List.countP_congr fun row _ => by simp
  have split := pool.length_eq_countP_add_countP fun row => row.job.id = chosen.job.id
  rw [← List.countP_eq_length_filter]
  simp only [decide_eq_true_eq, decide_not] at split ⊢
  omega

theorem fair_drain {log : List Selection} (fair : Fair log) (slots recentStreak : Nat) (pool : List QueueRow)
    (distinct : (pool.map (·.job.id)).Nodup) :
    Fair (log ++ drain true slots recentStreak pool) ↔
      TakesTurns (trailing isRecent log) recentStreak slots pool.length := by
  induction slots generalizing log recentStreak pool with
  | zero =>
    have allowed : TakesTurns (trailing isRecent log) recentStreak 0 pool.length := by
      unfold TakesTurns
      omega
    simpa [drain, allowed] using fair
  | succ slots ih =>
    unfold drain
    simp only [Bool.true_and]
    cases found : choose (decide (recentStreak < 3)) pool with
    | none =>
      obtain rfl := choose_none found
      refine iff_of_true (by simpa using fair) ?_
      unfold TakesTurns
      rw [List.length_nil]
      omega
    | some chosen =>
      have left := length_left distinct (choose_mem found)
      have distinct' : ((pool.filter fun row => row.job.id ≠ chosen.job.id).map (·.job.id)).Nodup :=
        distinct.sublist (List.filter_sublist.map _)
      dsimp only
      generalize (pool.filter fun row => decide (row.job.id ≠ chosen.job.id)) = remaining at left distinct' ⊢
      rw [List.append_cons]
      by_cases recent : recentStreak < 3
      · simp only [recent, decide_true, if_true]
        have turn := @alternates_snoc _ isRecent leavesOthers 3 log ⟨chosen.job.id, .recent, remaining.length⟩
        by_cases allowed : 3 ≤ trailing isRecent log → remaining.length = 0
        · have fair' : Fair (log ++ [⟨chosen.job.id, .recent, remaining.length⟩]) := by
            refine turn.mpr ⟨fair, fun _ long => ?_⟩
            simp [leavesOthers, allowed long]
          rw [ih fair' (recentStreak + 1) remaining distinct', trailing_favoured rfl]
          unfold TakesTurns
          omega
        · -- the fourth recent selection in a row leaves others behind
          refine iff_of_false (fun whole => allowed fun long => ?_) ?_
          · have single := (turn.mp whole.of_append).2 rfl long
            simpa [leavesOthers] using single
          · unfold TakesTurns
            omega
      · simp only [recent, decide_false, Bool.false_eq_true, if_false]
        have fair' : Fair (log ++ [⟨chosen.job.id, .oldest, remaining.length⟩]) :=
          alternates_snoc.mpr ⟨fair, nofun⟩
        rw [ih fair' 0 remaining distinct', trailing_other rfl]
        unfold TakesTurns
        omega

/-! ### The rebalance inside a call -/

/-- The arguments of `_rebalance_locked` and the ledger it reads. -/
structure QueueCall where
  ledger : Ledger
  scan : Scan QueueRow
  projectName : String
  targetActive : Int
  recentFirst : Bool

def QueueCall.rows (call : QueueCall) : List QueueRow := call.scan.order (call.ledger.queueRows call.projectName)

def QueueCall.plan (call : QueueCall) (now : Time) : RebalancePlan :=
  call.ledger.rebalancePlan call.scan call.projectName call.targetActive call.recentFirst now

/-- The rebalance a call makes: `rebalance` on the ledger as it is, `enqueue` with an active limit
after it has marked the older jobs and stored its own. -/
def queueCall (hashes : Hashes) (ledger : Ledger) (now : Time) : LedgerOp → Option QueueCall
  | .rebalance scan projectName targetActive recentFirst => some ⟨ledger, scan, projectName, targetActive, recentFirst⟩
  | .enqueue scan request =>
    match ledger.enqueueInput hashes request with
    | .error _ => none
    | .ok (source, chunks) =>
      let within (current : Ledger) : Option QueueCall :=
        request.activeLimit.map fun limit => ⟨current, scan, source.projectName, limit, request.recentFirst⟩
      match ledger.findJob (idempotencyKey source request.pipelineVersion) with
      | some existing =>
        let flagged := if request.manualRecheck ∧ ¬ (existing.manualOnly ∧ existing.retainSource) then
          ledger.setJob existing.recheckManual else ledger
        within (flagged.markOlderJobsStaleLocked source now)
      | none =>
        let job := request.newJob hashes source chunks.length now
        match (ledger.markOlderJobsStaleLocked source now).insertJobLocked job with
        | .error _ => none
        | .ok inserted => within (inserted.insertCheckpoints (chunks.map (newCheckpoint job.id now)))
  | _ => none

theorem rebalanceWithin_selections (ledger : Ledger) (scan : Scan QueueRow) (source : TranscriptSource)
    (request : EnqueueRequest) (now : Time) :
    (ledger.rebalanceWithin scan source request now).1 =
      match request.activeLimit with
      | none => []
      | some limit => (QueueCall.mk ledger scan source.projectName limit request.recentFirst |>.plan now).selections := by
  unfold Ledger.rebalanceWithin
  cases request.activeLimit <;> rfl

variable {ledger : Ledger} {now : Time} {op : LedgerOp}

theorem selections_of_run {outcome : Outcome}
    (ran : op.run hashes ledger now = .ok outcome) :
    outcome.selections = match queueCall hashes ledger now op with
      | none => []
      | some call => (call.plan now).selections := by
  unfold LedgerOp.run at ran
  cases op with
  | enqueue scan request =>
    obtain ⟨⟨job, selections, next⟩, inner, rfl⟩ := map_ok ran
    unfold queueCall
    unfold Ledger.enqueue at inner
    cases accepted : ledger.enqueueInput hashes request with
    | error failure => simp [accepted] at inner
    | ok input =>
      obtain ⟨source, chunks⟩ := input
      simp only [accepted] at inner ⊢
      split at inner
      · next existing known =>
        cases inner
        simp only [known, rebalanceWithin_selections]
        cases request.activeLimit <;> rfl
      · next fresh =>
        split at inner
        · cases inner
        · next inserted written =>
          cases inner
          simp only [fresh, written, rebalanceWithin_selections]
          cases request.activeLimit <;> rfl
  | rebalance =>
    cases ran
    rfl
  | saveSnapshot | refreshSource | saveDistillProjection | freezeManualSelection | enableZeroCandidateChallenge
    | retainSource | reserveManual | claimReview | activateParkedForAgent | claimChunks | checkpointChunk | finalize
    | deferJob | recordCompletionOutcome | backfillSessionSummary | markHistoricalSummaryUnavailable
    | pruneCompletedDistillEvidence | hardDeleteRevisions | saveDeletionReceipt =>
    obtain ⟨_, _, rfl⟩ := map_ok ran
    rfl
  | _ =>
    cases ran
    rfl

theorem queueCall_of_error {failure : StoreError}
    (failed : op.run hashes ledger now = .error failure) : queueCall hashes ledger now op = none := by
  unfold LedgerOp.run at failed
  cases op with
  | enqueue scan request =>
    cases accepted : ledger.enqueueInput hashes request with
    | error => simp only [queueCall, accepted]
    | ok input =>
      obtain ⟨source, chunks⟩ := input
      simp only [Ledger.enqueue, queueCall, accepted] at failed ⊢
      cases known : ledger.findJob (idempotencyKey source request.pipelineVersion) with
      | some existing =>
        simp only [known] at failed
        cases failed
      | none =>
        simp only [known] at failed ⊢
        split
        · rfl
        · next inserted written =>
          simp only [written] at failed
          cases failed
  | rebalance => cases failed
  | _ => rfl

/-! ### Journals -/

/-- A ledger with the drainer selections made so far for one project. -/
structure Journal where
  world : World
  log : List Selection

def selected (hashes : Hashes) (projectName : String) (world : World) (event : Event) : List Selection :=
  match event.op.run hashes world.ledger event.time, queueCall hashes world.ledger event.time event.op with
  | .ok outcome, some call => if call.projectName = projectName then outcome.selections else []
  | _, _ => []

def Record (hashes : Hashes) (projectName : String) (before : Journal) (event : Event) (after : Journal) : Prop :=
  Step hashes before.world event after.world ∧ after.log = before.log ++ selected hashes projectName before.world event

def Journal.initial : Journal := ⟨.initial, []⟩

def recentFirst : LedgerOp → Bool
  | .rebalance _ _ _ recentFirst => recentFirst
  | .enqueue _ request => request.recentFirst
  | _ => true

/-- A rebalance of the project finds the streak of the journal on record, or has too few slots or
jobs to go beyond it. -/
def KeepsTurn (hashes : Hashes) (projectName : String) (journal : Journal) (event : Event) : Prop :=
  ∀ call, queueCall hashes journal.world.ledger event.time event.op = some call → call.projectName = projectName →
    TakesTurns (trailing isRecent journal.log) (recentStreak call.rows) (call.plan event.time).slots
      (call.plan event.time).pool.length

variable {projectName : String} {event : Event}

theorem selected_of_call {world : World} {call : QueueCall}
    (made : queueCall hashes world.ledger event.time event.op = some call) :
    selected hashes projectName world event =
      if call.projectName = projectName then (call.plan event.time).selections else [] := by
  unfold selected
  cases ran : event.op.run hashes world.ledger event.time with
  | error failure =>
    rw [queueCall_of_error ran] at made
    cases made
  | ok outcome =>
    have reported := selections_of_run ran
    simp only [made] at reported ⊢
    rw [reported]

theorem selected_of_none {world : World}
    (made : queueCall hashes world.ledger event.time event.op = none) :
    selected hashes projectName world event = [] := by
  unfold selected
  rw [made]
  cases event.op.run hashes world.ledger event.time <;> rfl

theorem nodup_pool (call : QueueCall) (now : Time) : ((call.plan now).pool.map (·.job.id)).Nodup := by
  have rows : ((call.ledger.queueRows call.projectName).map (·.job.id)).Nodup := by
    refine List.Nodup.sublist (List.filter_sublist.map _) ?_
    rw [List.map_map]
    change (call.ledger.jobs.rows.zipIdx.map (SessionDistillJob.id ∘ Prod.fst)).Nodup
    rw [← List.map_map, List.zipIdx_map_fst]
    exact call.ledger.jobs.nodup
  have ordered : (call.rows.map (·.job.id)).Nodup := ((call.scan.perm _).map _).nodup_iff.mpr rows
  exact ordered.sublist ((List.filter_sublist.trans List.filter_sublist).map _)

theorem call_recentFirst {call : QueueCall}
    (made : queueCall hashes ledger now op = some call) (recent : recentFirst op) : call.recentFirst = true := by
  unfold queueCall at made
  split at made
  · cases made
    exact recent
  · next scan request =>
    split at made
    · cases made
    · dsimp only at made
      split at made
      · obtain ⟨limit, _, rfl⟩ := Option.map_eq_some_iff.mp made
        exact recent
      · split at made
        · cases made
        · obtain ⟨limit, _, rfl⟩ := Option.map_eq_some_iff.mp made
          exact recent
  · cases made

theorem fair_record {before after : Journal}
    (step : Record hashes projectName before event after) (recent : recentFirst event.op) (fair : Fair before.log) :
    Fair after.log ↔ KeepsTurn hashes projectName before event := by
  rw [step.2]
  cases made : queueCall hashes before.world.ledger event.time event.op with
  | none =>
    rw [selected_of_none made, List.append_nil]
    refine iff_of_true fair fun call other => ?_
    rw [made] at other
    cases other
  | some call =>
    rw [selected_of_call made]
    by_cases mine : call.projectName = projectName
    · rw [if_pos mine]
      have drained : (call.plan event.time).selections =
          drain true (call.plan event.time).slots (recentStreak call.rows) (call.plan event.time).pool := by
        rw [← call_recentFirst made recent]
        rfl
      rw [drained, fair_drain fair _ _ _ (nodup_pool call event.time)]
      constructor
      · intro allowed other made' _
        obtain rfl : call = other := Option.some.inj (made.symm.trans made')
        exact allowed
      · intro keeps
        exact keeps call made mine
    · rw [if_neg mine, List.append_nil]
      refine iff_of_true fair fun other made' mine' => ?_
      obtain rfl : call = other := Option.some.inj (made.symm.trans made')
      exact (mine mine').elim

theorem record_functional {before after after' : Journal}
    (first : Record hashes projectName before event after) (second : Record hashes projectName before event after') :
    after = after' := by
  cases after
  cases after'
  simp only [Record] at first second
  rw [first.1.2, second.1.2, first.2, second.2]

theorem log_append {start final : Journal} {events : List Event}
    (run : Exec (Record hashes projectName) start events final) : ∃ more, final.log = start.log ++ more := by
  refine run.relates (fun first last => ∃ more, last.log = first.log ++ more) (fun _ => ⟨[], (List.append_nil _).symm⟩) ?_
  rintro first event next last step ⟨more, grown⟩
  exact ⟨_, by rw [grown, step.2, List.append_assoc]⟩

/-- Over every run of calls that select the recent lane first, the selections of a project are fair
exactly when every rebalance keeps its turn. -/
theorem queue_fair_iff (projectName : String) {journal : Journal} {events : List Event}
    (run : Exec (Record hashes projectName) .initial events journal)
    (recent : ∀ event ∈ events, recentFirst event.op) :
    Fair journal.log ↔
      Exec (Restrict (Record hashes projectName) (KeepsTurn hashes projectName)) .initial events journal := by
  have fair : Fair Journal.initial.log := Alternates.nil
  generalize Journal.initial = start at run fair ⊢
  induction run with
  | nil => exact iff_of_true fair (.nil _)
  | @cons before after final event rest step run ih =>
    have turn := fair_record step (recent _ List.mem_cons_self) fair
    by_cases keeps : KeepsTurn hashes projectName before event
    · refine (ih (fun event member => recent event (List.mem_cons_of_mem _ member)) (turn.mpr keeps)).trans ?_
      constructor
      · intro run
        exact .cons ⟨step, keeps⟩ run
      · intro run
        cases run with
        | cons edge rest' => exact record_functional step edge.1 ▸ rest'
    · refine iff_of_false (fun whole => keeps (turn.mp ?_)) ?_
      · obtain ⟨more, grown⟩ := log_append run
        rw [grown] at whole
        exact whole.of_append
      · intro run
        cases run with
        | cons edge _ => exact keeps edge.2

/-! ### A queue that is never fair -/

def Journal.after (hashes : Hashes) (projectName : String) (start : Journal) (events : List Event) : Journal :=
  events.foldl (fun journal event =>
    ⟨⟨event.op.apply hashes journal.world.ledger event.time, event.time⟩,
      journal.log ++ selected hashes projectName journal.world event⟩) start

theorem exec_journal {start : Journal} {events : List Event}
    (ordered : inOrder start.world.clock events) :
    Exec (Record hashes projectName) start events (start.after hashes projectName events) := by
  apply @exec_inOrder _ (Record hashes projectName) _ fun journal => journal.world.clock
  · exact fun _ _ later => ⟨⟨later, rfl⟩, rfl⟩
  · exact fun _ _ => rfl
  · exact ordered

/-- `rebalance` of the sample project, the recent lane first. -/
def sampleRebalance (time : Time) (targetActive : Int) : Event :=
  ⟨time, .rebalance .insertion "project" targetActive true⟩

def reopenedEvents : List Event :=
  [⟨1, sampleCapture .spelled "s" ["a"]⟩, ⟨2, sampleEnqueue "s"⟩, ⟨3, sampleCapture .spelled "t" ["b"]⟩,
    ⟨4, sampleEnqueue "t"⟩, sampleRebalance 5 1, sampleRebalance 6 0, sampleRebalance 7 1, sampleRebalance 8 0,
    sampleRebalance 9 1, sampleRebalance 10 0, sampleRebalance 11 1]

theorem reopened_unfair : ¬ Fair (Journal.initial.after .spelled "project" reopenedEvents).log := by
  have log : (Journal.initial.after .spelled "project" reopenedEvents).log =
      List.replicate 4 ⟨sampleJob .spelled "t" ["b"], .recent, 1⟩ := by decide
  intro fair
  rw [log] at fair
  have alone := fair [] (List.replicate 3 ⟨sampleJob .spelled "t" ["b"], .recent, 1⟩)
    ⟨sampleJob .spelled "t" ["b"], .recent, 1⟩ [] rfl rfl (by decide) rfl
  cases alone

/-- The newer job is selected from the recent lane four times in a row while the older one waits. -/
theorem queue_unfair :
    ∃ journal, Exec (Record .spelled "project") .initial reopenedEvents journal ∧
      (∀ event ∈ reopenedEvents, recentFirst event.op) ∧ ¬ Fair journal.log :=
  ⟨_, exec_journal (by decide), by decide, reopened_unfair⟩

theorem queue_fair_iff_reopened :
    ¬ Exec (Restrict (Record .spelled "project") (KeepsTurn .spelled "project")) .initial reopenedEvents
      (Journal.initial.after .spelled "project" reopenedEvents) := by
  have run : Exec (Record .spelled "project") .initial reopenedEvents
      (Journal.initial.after .spelled "project" reopenedEvents) := exec_journal (by decide)
  exact fun turns => reopened_unfair ((queue_fair_iff "project" run (by decide)).mpr turns)

end HarnessMem.Lifecycle
