import HarnessMem.Lifecycle.Fairness

/-! The active lane after a rebalance: which jobs are queued, which parked, and what the call reports. -/

set_option autoImplicit false

namespace HarnessMem.Lifecycle

open Storage Library

section counting

variable {α : Type} [DecidableEq α]

theorem countP_mem {items selected : List α} (distinct : items.Nodup) (once : selected.Nodup) (among : ∀ item ∈ selected, item ∈ items) :
    items.countP (fun item => decide (item ∈ selected)) = selected.length := by
  rw [List.countP_eq_length_filter]
  apply List.Perm.length_eq
  rw [List.perm_ext_iff_of_nodup (distinct.filter _) once]
  intro item
  rw [List.mem_filter, decide_eq_true_eq]
  exact ⟨fun both => both.2, fun member => ⟨among item member, member⟩⟩

end counting

/-! ### The classes of a project's jobs -/

def occupies (projectName : String) (job : SessionDistillJob) : Bool :=
  job.projectName = projectName && (job.status = .processing || job.status = .reviewing)

def candidate (projectName : String) (now : Time) (job : SessionDistillJob) : Bool :=
  job.projectName = projectName && (job.schedulable && !job.waitsForRetry now)

theorem candidate_moved {projectName : String} {now : Time} {job moved : SessionDistillJob} (holds : candidate projectName now job = true)
    (project : moved.projectName = job.projectName) (retry : moved.retryAfter = job.retryAfter) (schedulable : moved.schedulable = true) :
    candidate projectName now moved = true := by
  unfold candidate SessionDistillJob.waitsForRetry at holds ⊢
  rw [project, retry, schedulable]
  simp only [Bool.and_eq_true] at holds ⊢
  exact ⟨holds.1, trivial, holds.2.2⟩

def backsOff (projectName : String) (now : Time) (job : SessionDistillJob) : Bool :=
  job.projectName = projectName && (job.schedulable && job.waitsForRetry now)

def candidatesOf (ledger : Ledger) (projectName : String) (now : Time) : List SessionDistillJob :=
  ledger.jobs.rows.filter (candidate projectName now)

def freeSlots (ledger : Ledger) (projectName : String) (targetActive : Int) : Nat :=
  (targetActive - ledger.jobs.rows.countP (occupies projectName)).toNat

/-! ### What the loop selects -/

theorem drain_ids (recentFirst : Bool) (slots recentStreak : Nat) {pool : List QueueRow} (distinct : (pool.map (·.job.id)).Nodup) :
    ((drain recentFirst slots recentStreak pool).map (·.jobId)).Nodup ∧
      (∀ selection ∈ drain recentFirst slots recentStreak pool, selection.jobId ∈ pool.map (·.job.id)) ∧
      (drain recentFirst slots recentStreak pool).length = min slots pool.length := by
  induction slots generalizing recentStreak pool with
  | zero => simp [drain]
  | succ slots ih =>
    unfold drain
    dsimp only
    cases found : choose (recentFirst && decide (recentStreak < 3)) pool with
    | none =>
      obtain rfl := choose_none found
      simp
    | some chosen =>
      have member := choose_mem found
      have left := length_left distinct member
      have rest : ((pool.filter fun row => row.job.id ≠ chosen.job.id).map (·.job.id)).Nodup :=
        distinct.sublist (List.filter_sublist.map _)
      obtain ⟨once, among, length⟩ := ih (if (recentFirst && decide (recentStreak < 3)) = true then recentStreak + 1 else 0) rest
      generalize (if (recentFirst && decide (recentStreak < 3)) = true then recentStreak + 1 else 0) = streak at once among length ⊢
      have other : ∀ selection ∈ drain recentFirst slots streak (pool.filter fun row => row.job.id ≠ chosen.job.id),
          selection.jobId ∈ pool.map (·.job.id) ∧ selection.jobId ≠ chosen.job.id := by
        intro selection inside
        obtain ⟨row, kept, same⟩ := List.mem_map.mp (among selection inside)
        obtain ⟨inPool, differs⟩ := List.mem_filter.mp kept
        exact ⟨same ▸ List.mem_map_of_mem inPool, same ▸ of_decide_eq_true differs⟩
      refine ⟨?_, ?_, ?_⟩
      · rw [List.map_cons, List.nodup_cons]
        refine ⟨fun again => ?_, once⟩
        obtain ⟨selection, inside, same⟩ := List.mem_map.mp again
        exact (other selection inside).2 same
      · intro selection inside
        rcases List.mem_cons.mp inside with rfl | inside
        · exact List.mem_map_of_mem member
        · exact (other selection inside).1
      · rw [List.length_cons, length]
        omega

theorem perm_queueRows (ledger : Ledger) (scan : Scan QueueRow) (projectName : String) :
    ((scan.order (ledger.queueRows projectName)).map (·.job)).Perm
      (ledger.jobs.rows.filter fun job => job.projectName = projectName) := by
  have rows : (ledger.queueRows projectName).map (·.job) = ledger.jobs.rows.filter fun job => job.projectName = projectName := by
    unfold Ledger.queueRows
    have jobs : ledger.jobs.rows = (ledger.jobs.rows.zipIdx.map fun entry => QueueRow.mk entry.2 entry.1).map (·.job) := by
      rw [List.map_map]
      exact (List.zipIdx_map_fst ..).symm
    conv_rhs => rw [jobs, List.filter_map]
    rfl
  exact rows ▸ (scan.perm _).map _

theorem countP_queueRows (ledger : Ledger) (scan : Scan QueueRow) (projectName : String) (counts : SessionDistillJob → Bool) :
    (scan.order (ledger.queueRows projectName)).countP (fun row => counts row.job) =
      ledger.jobs.rows.countP fun job => job.projectName = projectName && counts job := by
  have mapped : (scan.order (ledger.queueRows projectName)).countP (fun row => counts row.job) =
      ((scan.order (ledger.queueRows projectName)).map (·.job)).countP counts := List.countP_map.symm
  rw [mapped, (perm_queueRows ledger scan projectName).countP_eq, List.countP_filter]
  exact List.countP_congr fun job _ => by rw [Bool.and_comm]

section plan

variable (ledger : Ledger) (scan : Scan QueueRow) (projectName : String) (targetActive : Int) (recentFirst : Bool) (now : Time)

def chosenIds (plan : RebalancePlan) : List String := plan.preselected.map (·.job.id) ++ plan.selections.map (·.jobId)

/-- What a plan has to do with the jobs it is made from. -/
structure Planned (plan : RebalancePlan) : Prop where
  protectedCount : plan.protectedCount = ledger.jobs.rows.countP (occupies projectName)
  waitingRetry : plan.waitingRetry = ledger.jobs.rows.countP (backsOff projectName now)
  candidates : (plan.candidates.map (·.job)).Perm (candidatesOf ledger projectName now)
  preselected : plan.preselected = plan.candidates.filter (fun row => row.job.status = .queued) ∨ plan.preselected = []
  fits : (plan.candidates.filter fun row => row.job.status = .queued).length ≤ freeSlots ledger projectName targetActive →
    plan.preselected = plan.candidates.filter fun row => row.job.status = .queued
  preselected_le : plan.preselected.length ≤ freeSlots ledger projectName targetActive
  pool : plan.pool = plan.candidates.filter fun row => !(row.job.id ∈ plan.preselected.map (·.job.id))
  slots : plan.slots = freeSlots ledger projectName targetActive - plan.preselected.length
  selections : ∃ streak, plan.selections = drain recentFirst plan.slots streak plan.pool

theorem planned : Planned ledger projectName targetActive recentFirst now (ledger.rebalancePlan scan projectName targetActive recentFirst now) := by
  have protectedCount := countP_queueRows ledger scan projectName fun job => job.status = .processing || job.status = .reviewing
  have free : (max 0 targetActive - ((scan.order (ledger.queueRows projectName)).countP fun row =>
      row.job.status = .processing || row.job.status = .reviewing)).toNat = freeSlots ledger projectName targetActive := by
    unfold freeSlots occupies
    rw [protectedCount]
    omega
  unfold Ledger.rebalancePlan planRebalance
  dsimp only
  rw [free]
  constructor
  · exact protectedCount
  · exact countP_queueRows ledger scan projectName fun job => job.schedulable && job.waitsForRetry now
  · have kept := (perm_queueRows ledger scan projectName).filter fun job => job.schedulable && !job.waitsForRetry now
    rw [List.filter_filter, List.filter_map] at kept
    refine kept.trans (.of_eq ?_)
    unfold candidatesOf candidate
    exact List.filter_congr fun job _ => Bool.and_comm ..
  · dsimp only
    split
    · exact .inl rfl
    · exact .inr rfl
  · exact fun fits => if_pos fits
  · dsimp only
    split
    · assumption
    · exact Nat.zero_le _
  · rfl
  · rfl
  · exact ⟨_, rfl⟩

variable {ledger scan projectName targetActive recentFirst now} {plan : RebalancePlan}

theorem Planned.ids (planned : Planned ledger projectName targetActive recentFirst now plan) :
    (plan.candidates.map (·.job.id)).Perm ((candidatesOf ledger projectName now).map (·.id)) := by
  have mapped := planned.candidates.map SessionDistillJob.id
  rwa [List.map_map] at mapped

theorem Planned.nodup (planned : Planned ledger projectName targetActive recentFirst now plan) :
    (plan.candidates.map (·.job.id)).Nodup :=
  planned.ids.nodup_iff.mpr (ledger.jobs.nodup.sublist (List.filter_sublist.map _))

theorem Planned.sublist (planned : Planned ledger projectName targetActive recentFirst now plan) :
    plan.preselected.Sublist plan.candidates := by
  rcases planned.preselected with same | none
  · exact same ▸ List.filter_sublist
  · exact none ▸ List.nil_sublist _

theorem Planned.split (planned : Planned ledger projectName targetActive recentFirst now plan) :
    plan.preselected.length + plan.pool.length = plan.candidates.length := by
  have counted := countP_mem planned.nodup (planned.nodup.sublist (planned.sublist.map _))
    fun id member => (planned.sublist.map _).subset member
  rw [List.countP_map, List.length_map] at counted
  have both := plan.candidates.length_eq_countP_add_countP fun row => decide (row.job.id ∈ plan.preselected.map (·.job.id))
  rw [planned.pool, ← List.countP_eq_length_filter, both, ← counted]
  congr 1
  exact List.countP_congr fun row _ => by simp

theorem Planned.chosen (planned : Planned ledger projectName targetActive recentFirst now plan) :
    (chosenIds plan).Nodup ∧ (∀ id ∈ chosenIds plan, id ∈ plan.candidates.map (·.job.id)) ∧
      (chosenIds plan).length = min (freeSlots ledger projectName targetActive) plan.candidates.length := by
  obtain ⟨streak, selections⟩ := planned.selections
  have inPool : ∀ row ∈ plan.pool, row ∈ plan.candidates ∧ row.job.id ∉ plan.preselected.map (·.job.id) := by
    intro row member
    rw [planned.pool] at member
    obtain ⟨among, out⟩ := List.mem_filter.mp member
    exact ⟨among, by simpa using out⟩
  have distinct : (plan.pool.map (·.job.id)).Nodup := by
    rw [planned.pool]
    exact planned.nodup.sublist (List.filter_sublist.map _)
  obtain ⟨once, among, length⟩ := drain_ids recentFirst plan.slots streak distinct
  rw [← selections] at once among length
  have split := planned.split
  refine ⟨?_, ?_, ?_⟩
  · refine List.nodup_append'.mpr ⟨planned.nodup.sublist (planned.sublist.map _), once, ?_⟩
    intro id kept selected
    obtain ⟨selection, listed, rfl⟩ := List.mem_map.mp selected
    obtain ⟨row, pooled, same⟩ := List.mem_map.mp (among selection listed)
    exact (inPool row pooled).2 (same ▸ kept)
  · intro id member
    rcases List.mem_append.mp member with kept | selected
    · exact (planned.sublist.map _).subset kept
    · obtain ⟨selection, listed, rfl⟩ := List.mem_map.mp selected
      obtain ⟨row, pooled, same⟩ := List.mem_map.mp (among selection listed)
      exact same ▸ List.mem_map_of_mem (inPool row pooled).1
  · have room := planned.preselected_le
    have slots := planned.slots
    unfold chosenIds
    rw [List.length_append, List.length_map, List.length_map, length]
    omega

theorem Planned.mem_candidates (planned : Planned ledger projectName targetActive recentFirst now plan) {job : SessionDistillJob}
    (stored : job ∈ ledger.jobs.rows) : job.id ∈ plan.candidates.map (·.job.id) ↔ candidate projectName now job = true := by
  rw [planned.ids.mem_iff]
  constructor
  · intro member
    obtain ⟨other, kept, same⟩ := List.mem_map.mp member
    obtain ⟨present, holds⟩ := List.mem_filter.mp kept
    rwa [← ledger.jobs.eq_of_key present stored same]
  · exact fun holds => List.mem_map_of_mem (List.mem_filter.mpr ⟨stored, holds⟩)

theorem Planned.place (planned : Planned ledger projectName targetActive recentFirst now plan) {job : SessionDistillJob}
    (stored : job ∈ ledger.jobs.rows) :
    (candidate projectName now job = false → plan.place now job = job) ∧
      (candidate projectName now job = true → candidate projectName now (plan.place now job) = true ∧
        (plan.place now job).status = (if job.id ∈ chosenIds plan then .queued else .parked) ∧
        (job.id ∈ plan.preselected.map (·.job.id) → plan.place now job = job)) := by
  have kept : job.id ∈ plan.preselected.map (·.job.id) → job.status = .queued := by
    intro member
    obtain ⟨row, preselected, same⟩ := List.mem_map.mp member
    have queued : row.job.status = .queued := by
      rcases planned.preselected with shape | none
      · rw [shape] at preselected
        simpa using (List.mem_filter.mp preselected).2
      · rw [none] at preselected
        cases preselected
    have present : row.job ∈ ledger.jobs.rows :=
      (List.mem_filter.mp (planned.candidates.subset (List.mem_map_of_mem (planned.sublist.subset preselected)))).1
    rwa [← ledger.jobs.eq_of_key present stored same]
  unfold RebalancePlan.place
  constructor
  · intro out
    refine if_neg fun among => ?_
    rw [(planned.mem_candidates stored).mp among] at out
    cases out
  · intro holds
    rw [if_pos ((planned.mem_candidates stored).mpr holds)]
    cases found : plan.selections.find? fun selection => selection.jobId = job.id with
    | some selection =>
      have same : selection.jobId = job.id := by simpa using List.find?_some found
      have selected : job.id ∈ plan.selections.map (·.jobId) := same ▸ List.mem_map_of_mem (List.mem_of_find?_eq_some found)
      have chosen : job.id ∈ chosenIds plan := List.mem_append_right _ selected
      dsimp only
      rw [if_pos chosen]
      exact ⟨candidate_moved holds rfl rfl rfl, rfl, fun before => absurd selected ((List.nodup_append'.mp planned.chosen.1).2.2 before)⟩
    | none =>
      have unselected : job.id ∉ plan.selections.map (·.jobId) := by
        intro selected
        obtain ⟨selection, listed, same⟩ := List.mem_map.mp selected
        have differs := List.find?_eq_none.mp found selection listed
        exact differs (decide_eq_true same)
      dsimp only
      by_cases before : job.id ∈ plan.preselected.map (·.job.id)
      · have chosen : job.id ∈ chosenIds plan := List.mem_append_left _ before
        rw [if_pos (.inl before), if_pos chosen]
        exact ⟨holds, kept before, fun _ => rfl⟩
      · have unchosen : job.id ∉ chosenIds plan := fun member => (List.mem_append.mp member).elim before unselected
        rw [if_neg unchosen]
        by_cases parked : job.status = .parked
        · rw [if_pos (.inr parked)]
          exact ⟨holds, parked, fun impossible => absurd impossible before⟩
        · rw [if_neg fun either => either.elim before parked]
          exact ⟨candidate_moved holds rfl rfl rfl, rfl, fun impossible => absurd impossible before⟩

end plan

/-! ### The lane after the call -/

/-- What a rebalance of a project leaves and reports. -/
structure Rebalanced (projectName : String) (targetActive : Int) (now : Time) (before after : Ledger) (summary : RebalanceSummary) : Prop where
  tables : after = { before with jobs := after.jobs }
  /-- No job is lost, the ones outside the candidates are as they were, and each candidate is queued or parked. -/
  rows : List.Forall₂ (fun old new => new.id = old.id ∧ (candidate projectName now old = false → new = old) ∧
    (candidate projectName now old = true → candidate projectName now new = true ∧ (new.status = .queued ∨ new.status = .parked)))
    before.jobs.rows after.jobs.rows
  filled : (candidatesOf after projectName now).countP (fun job => job.status = .queued) =
    min (freeSlots before projectName targetActive) (candidatesOf before projectName now).length
  kept : (candidatesOf before projectName now).countP (fun job => job.status = .queued) ≤ freeSlots before projectName targetActive →
    List.Forall₂ (fun old new => candidate projectName now old = true → old.status = .queued → new = old)
      before.jobs.rows after.jobs.rows
  active : summary.active =
    after.jobs.rows.countP (occupies projectName) + (candidatesOf after projectName now).countP fun job => job.status = .queued
  parked : summary.parked = (candidatesOf after projectName now).countP fun job => job.status = .parked
  retryBackoff : summary.retryBackoff = after.jobs.rows.countP (backsOff projectName now)

section after

variable {ledger : Ledger} {projectName : String} {targetActive : Int} {recentFirst : Bool} {now : Time} {plan : RebalancePlan}

theorem candidate_status {job : SessionDistillJob} (holds : candidate projectName now job = true) :
    occupies projectName job = false ∧ backsOff projectName now job = false := by
  unfold candidate SessionDistillJob.schedulable at holds
  simp only [Bool.and_eq_true, Bool.or_eq_true, decide_eq_true_eq, Bool.not_eq_true'] at holds
  obtain ⟨_, status, ready⟩ := holds
  unfold occupies backsOff
  rw [ready]
  rcases status with (queued | retryable) | parked
  · simp [queued]
  · simp [retryable]
  · simp [parked]

theorem Planned.candidatesOf_place (planned : Planned ledger projectName targetActive recentFirst now plan) :
    candidatesOf (ledger.placeJobs plan now) projectName now = (candidatesOf ledger projectName now).map (plan.place now) := by
  unfold candidatesOf Ledger.placeJobs
  rw [Table.rows_mapRows, List.filter_map]
  congr 1
  refine List.filter_congr fun job stored => ?_
  obtain ⟨outside, inside⟩ := planned.place stored
  cases holds : candidate projectName now job with
  | false => exact (congrArg _ (outside holds)).trans holds
  | true => exact (inside holds).1

theorem Planned.countP_others (planned : Planned ledger projectName targetActive recentFirst now plan) (other : SessionDistillJob → Bool)
    (disjoint : ∀ job, candidate projectName now job = true → other job = false) :
    (ledger.placeJobs plan now).jobs.rows.countP other = ledger.jobs.rows.countP other := by
  unfold Ledger.placeJobs
  rw [Table.rows_mapRows, List.countP_map]
  refine List.countP_congr fun job stored => ?_
  obtain ⟨outside, inside⟩ := planned.place stored
  cases holds : candidate projectName now job with
  | false => rw [Function.comp_apply, outside holds]
  | true => rw [Function.comp_apply, disjoint _ (inside holds).1, disjoint _ holds]

theorem Planned.countP_status (planned : Planned ledger projectName targetActive recentFirst now plan) (status : DistillJobStatus) :
    (candidatesOf (ledger.placeJobs plan now) projectName now).countP (fun job => job.status = status) =
      (candidatesOf ledger projectName now).countP fun job => (if job.id ∈ chosenIds plan then DistillJobStatus.queued else .parked) = status := by
  rw [planned.candidatesOf_place, List.countP_map]
  refine List.countP_congr fun job member => ?_
  obtain ⟨stored, holds⟩ := List.mem_filter.mp member
  rw [Function.comp_apply, ((planned.place stored).2 holds).2.1]

theorem Planned.countP_chosen (planned : Planned ledger projectName targetActive recentFirst now plan) :
    (candidatesOf ledger projectName now).countP (fun job => decide (job.id ∈ chosenIds plan)) = (chosenIds plan).length := by
  have distinct := planned.ids.nodup_iff.mp planned.nodup
  obtain ⟨once, among, _⟩ := planned.chosen
  have counted := countP_mem distinct once fun id member => planned.ids.subset (among id member)
  rwa [List.countP_map] at counted

/-- A rebalance fills the free slots and loses nothing. -/
theorem rebalance_fills (ledger : Ledger) (scan : Scan QueueRow) (projectName : String) (targetActive : Int) (recentFirst : Bool) (now : Time) :
    Rebalanced projectName targetActive now ledger (ledger.rebalance scan projectName targetActive recentFirst now).2
      (ledger.rebalance scan projectName targetActive recentFirst now).1.summary := by
  have planned := planned ledger scan projectName targetActive recentFirst now
  unfold Ledger.rebalance
  dsimp only
  generalize ledger.rebalancePlan scan projectName targetActive recentFirst now = plan at planned ⊢
  have sizes : plan.candidates.length = (candidatesOf ledger projectName now).length := by
    simpa only [List.length_map] using planned.candidates.length_eq
  have chosen := planned.countP_chosen
  have length := planned.chosen.2.2
  have queued : (candidatesOf (ledger.placeJobs plan now) projectName now).countP (fun job => job.status = .queued) = (chosenIds plan).length := by
    rw [planned.countP_status, ← chosen]
    exact List.countP_congr fun job _ => by by_cases member : job.id ∈ chosenIds plan <;> simp [member]
  constructor
  · rfl
  · show List.Forall₂ _ ledger.jobs.rows (ledger.jobs.rows.map (plan.place now))
    rw [List.forall₂_map_right_iff, List.forall₂_same]
    intro job stored
    obtain ⟨outside, inside⟩ := planned.place stored
    refine ⟨plan.id_place now job, outside, fun holds => ⟨(inside holds).1, ?_⟩⟩
    rw [(inside holds).2.1]
    split
    · exact .inl rfl
    · exact .inr rfl
  · rw [queued, length, sizes]
  · intro fits
    show List.Forall₂ _ ledger.jobs.rows (ledger.jobs.rows.map (plan.place now))
    rw [List.forall₂_map_right_iff, List.forall₂_same]
    intro job stored holds status
    refine ((planned.place stored).2 holds).2.2 ?_
    have all : (plan.candidates.filter fun row => row.job.status = .queued).length ≤ freeSlots ledger projectName targetActive := by
      have mapped : (plan.candidates.filter fun row => row.job.status = .queued).length =
          (plan.candidates.map (·.job)).countP fun job => job.status = .queued := by
        rw [List.countP_map, List.countP_eq_length_filter]
        rfl
      rw [mapped, planned.candidates.countP_eq]
      exact fits
    obtain ⟨row, among, same⟩ := List.mem_map.mp ((planned.mem_candidates stored).mpr holds)
    have present : row.job ∈ ledger.jobs.rows := (List.mem_filter.mp (planned.candidates.subset (List.mem_map_of_mem among))).1
    have equal := ledger.jobs.eq_of_key present stored same
    rw [planned.fits all, ← equal]
    exact List.mem_map_of_mem (List.mem_filter.mpr ⟨among, by simpa [equal] using status⟩)
  · rw [queued, planned.countP_others _ fun job holds => (candidate_status holds).1, ← planned.protectedCount]
    unfold RebalancePlan.summary chosenIds
    rw [List.length_append, List.length_map, List.length_map, Nat.add_assoc]
  · have both := (candidatesOf ledger projectName now).length_eq_countP_add_countP fun job => decide (job.id ∈ chosenIds plan)
    have parked : (candidatesOf (ledger.placeJobs plan now) projectName now).countP (fun job => job.status = .parked) =
        (candidatesOf ledger projectName now).countP fun job => decide (¬decide (job.id ∈ chosenIds plan) = true) := by
      rw [planned.countP_status]
      exact List.countP_congr fun job _ => by by_cases member : job.id ∈ chosenIds plan <;> simp [member]
    have split := planned.split
    unfold chosenIds at chosen
    rw [List.length_append, List.length_map, List.length_map] at chosen
    rw [parked]
    show plan.pool.length - plan.selections.length = _
    unfold chosenIds at both ⊢
    omega
  · rw [planned.countP_others _ fun job holds => (candidate_status holds).2]
    exact planned.waitingRetry

theorem Planned.countP_queued (planned : Planned ledger projectName targetActive recentFirst now plan) :
    (candidatesOf (ledger.placeJobs plan now) projectName now).countP (fun job => job.status = .queued) = (chosenIds plan).length := by
  rw [planned.countP_status, ← planned.countP_chosen]
  exact List.countP_congr fun job _ => by by_cases member : job.id ∈ chosenIds plan <;> simp [member]

theorem Planned.queued_length (planned : Planned ledger projectName targetActive recentFirst now plan) :
    (plan.candidates.filter fun row => row.job.status = .queued).length =
      (candidatesOf ledger projectName now).countP fun job => job.status = .queued := by
  rw [← planned.candidates.countP_eq, List.countP_map, List.countP_eq_length_filter]
  rfl

theorem Planned.freeSlots_place (planned : Planned ledger projectName targetActive recentFirst now plan) :
    freeSlots (ledger.placeJobs plan now) projectName targetActive = freeSlots ledger projectName targetActive := by
  unfold freeSlots
  rw [show List.countP _ _ = _ from planned.countP_others _ fun job holds => (candidate_status holds).1]

theorem Planned.settled_place (planned : Planned ledger projectName targetActive recentFirst now plan) {job : SessionDistillJob}
    (stored : job ∈ (ledger.placeJobs plan now).jobs.rows) (holds : candidate projectName now job) :
    job.status = .queued ∨ job.status = .parked := by
  obtain ⟨old, present, rfl⟩ := List.mem_map.mp stored
  obtain ⟨unmoved, placed⟩ := planned.place present
  cases before : candidate projectName now old with
  | false =>
    rw [unmoved before, before] at holds
    cases holds
  | true =>
    have either := (placed before).2.1
    split at either
    · exact .inl either
    · exact .inr either

/-- A second rebalance at the same instant selects nothing and writes nothing, whatever order the rows are read in and
whichever lane it prefers. -/
theorem rebalance_idempotent (ledger : Ledger) (scan again : Scan QueueRow) (projectName : String) (targetActive : Int)
    (recentFirst preferRecent : Bool) (now : Time) :
    let after := (ledger.rebalance scan projectName targetActive recentFirst now).2
    (after.rebalance again projectName targetActive preferRecent now).1.selections = [] ∧
      (after.rebalance again projectName targetActive preferRecent now).2 = after := by
  intro after
  have first := planned ledger scan projectName targetActive recentFirst now
  have second := planned after again projectName targetActive preferRecent now
  unfold Ledger.rebalance
  dsimp only
  generalize after.rebalancePlan again projectName targetActive preferRecent now = plan at second ⊢
  have free : freeSlots after projectName targetActive = freeSlots ledger projectName targetActive := first.freeSlots_place
  have size : plan.candidates.length = (ledger.rebalancePlan scan projectName targetActive recentFirst now).candidates.length := by
    have before := first.candidates.length_eq
    have later := second.candidates.length_eq
    rw [show candidatesOf after projectName now = _ from first.candidatesOf_place] at later
    simp only [List.length_map] at before later
    rw [later, before]
  have queued := second.queued_length.trans first.countP_queued
  rw [first.chosen.2.2] at queued
  -- What the first call chose is queued, fits, and takes every slot there is.
  have preselected := second.fits (by rw [queued, free]; exact min_le_left _ _)
  have none : plan.selections = [] := by
    have total := second.chosen.2.2
    unfold chosenIds at total
    rw [List.length_append, List.length_map, List.length_map, preselected, queued, free, size] at total
    exact List.length_eq_zero_iff.mp (by omega)
  refine ⟨none, ?_⟩
  have same : ∀ job ∈ after.jobs.rows, plan.place now job = job := by
    intro job stored
    obtain ⟨outside, inside⟩ := second.place stored
    cases holds : candidate projectName now job with
    | false => exact outside holds
    | true =>
      have among := (second.mem_candidates stored).mpr holds
      obtain ⟨row, listed, key⟩ := List.mem_map.mp among
      have own : row.job = job :=
        after.jobs.eq_of_key (List.mem_filter.mp (second.candidates.subset (List.mem_map_of_mem listed))).1 stored key
      by_cases status : job.status = .queued
      · refine (inside holds).2.2 (own ▸ List.mem_map_of_mem ?_)
        rw [preselected]
        exact List.mem_filter.mpr ⟨listed, decide_eq_true (own ▸ status)⟩
      · have parked := (first.settled_place stored holds).resolve_left status
        unfold RebalancePlan.place
        rw [if_pos among, none]
        exact if_pos (.inr parked)
  exact congrArg (fun jobs => { after with jobs })
    (Table.eq_of_rows ((Table.rows_mapRows _ _ _).trans ((List.map_congr_left same).trans (List.map_id _))))

end after

end HarnessMem.Lifecycle
