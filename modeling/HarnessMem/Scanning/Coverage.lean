import HarnessMem.Library.RoundRobin
import HarnessMem.Scanning.Traversal
import Mathlib.Tactic.Tauto

/-! Scan cycles and the backlog. Scans of the backlog are visits of a cursor that goes
round the keys, as long as no retry moves the cursor and its session stays.
-/

set_option autoImplicit false

namespace HarnessMem.Scanning

open Library

variable {host : HostPaths}

def Round.total (round : Round) : Nat :=
  totalBudget round.sessions round.changeLimit

def traversedKeys (host : HostPaths) (frontier : TranscriptScanFrontier) (round : Round) : List String :=
  (traversed host frontier round.sessions round.total).map fun entry => sessionScanKey host entry.1

def Scan.movesCursor (host : HostPaths) (scan : Scan) : Bool :=
  (assigned scan.attempt.before.backlogWrap (sessionScanKey host scan.attempt.session)).isSome

def Scan.advances (scan : Scan) : Bool :=
  scan.attempt.before.frontier.scanCycle < scan.attempt.after.frontier.scanCycle

/-- A round that keeps to its traversal. -/
structure Steady (host : HostPaths) (frontier : TranscriptScanFrontier) (round : Round) : Prop where
  distinct : (traversedKeys host frontier round).Nodup
  /-- The session of the cursor is in the inventory, or nothing to traverse lies beyond it. -/
  inPlace : ∀ c, frontier.cursor = some c →
    c ∈ round.sessions.map (sessionScanKey host) ∨ ∀ key ∈ traversedKeys host frontier round, key ≤ c
  /-- No due retry is made for a session of the backlog. -/
  settled : ∀ attempt ∈ (syncPasses host frontier round).attempts,
    sessionScanKey host attempt.session ∈ frontier.pending →
      sessionScanKey host attempt.session ∈ recentKeys host round.sessions round.total

instance (frontier : TranscriptScanFrontier) (round : Round) : Decidable (Steady host frontier round) :=
  decidable_of_iff
    ((traversedKeys host frontier round).Nodup ∧
      (∀ c ∈ frontier.cursor,
        c ∈ round.sessions.map (sessionScanKey host) ∨ ∀ key ∈ traversedKeys host frontier round, key ≤ c) ∧
      ∀ attempt ∈ (syncPasses host frontier round).attempts,
        sessionScanKey host attempt.session ∈ frontier.pending →
          sessionScanKey host attempt.session ∈ recentKeys host round.sessions round.total)
    ⟨fun ⟨distinct, inPlace, settled⟩ => ⟨distinct, inPlace, settled⟩,
      fun steady => ⟨steady.distinct, steady.inPlace, steady.settled⟩⟩

/-! ### The attempts of a round -/

theorem LaneEntries.lane_iff {frontier : TranscriptScanFrontier} {sessions : List SessionRecord} {total : Nat}
    {lanes : List (SessionRecord × Lane)} (entries : LaneEntries host frontier sessions total lanes)
    {entry : SessionRecord × Lane} (member : entry ∈ lanes) :
    entry.2 = .recent ↔ sessionScanKey host entry.1 ∈ recentKeys host sessions total := by
  obtain ⟨session, lane⟩ := entry
  constructor
  · rintro rfl
    exact entries.recent session member
  · intro recent
    cases lane with
    | recent => rfl
    | backlog =>
      have listed : session ∈ (lanes.filter fun entry => entry.2 = .backlog).map (·.1) :=
        List.mem_map.mpr ⟨_, List.mem_filter.mpr ⟨member, by simp⟩, rfl⟩
      obtain ⟨place, present, rfl⟩ := List.mem_map.mp (entries.backlog.subset listed)
      exact absurd recent (mem_traversed.mp (List.mem_map_of_mem present)).2.1

/-- The sessions of the backlog that a round attempts are the first ones of its traversal. -/
theorem attempted_traversed {frontier : TranscriptScanFrontier} {round : Round} {plan : SessionScanPlan}
    (steady : Steady host frontier round)
    (planned : planSessionScan host frontier round.sessions (some round.total) round.plannedAt = plan) :
    ((syncPasses host frontier round).attempts.map (·.session)).filter
        (fun session => (assigned plan.backlogWrap (sessionScanKey host session)).isSome) <+:
      (traversed host frontier round.sessions round.total).map (·.1) := by
  obtain ⟨_, ordered⟩ := syncPasses_spec frontier round plan planned
  by_cases empty : round.sessions = []
  · have none : plan.backlogWrap = [] := by
      rw [← planned, empty]
      simp [planSessionScan]
    simp [none, assigned]
  obtain ⟨lanes, retries, entries, due, listed, laned, wrap, _, _⟩ :=
    @planSessionScan_eq host frontier _ (some (round.total : Int)) round.plannedAt empty
  rw [planned] at listed laned wrap
  have again : totalBudget round.sessions (some (round.total : Int)) = round.total := totalBudget_again _ _
  rw [again] at entries wrap
  have laneOf : ∀ entry ∈ lanes, plan.laneFor host entry.1 = entry.2 := by
    intro entry member
    unfold SessionScanPlan.laneFor
    have present : sessionScanKey host entry.1 ∈ plan.lanes.map (·.1) := by
      rw [laned, List.map_append, List.map_map]
      exact List.mem_append_right _ (List.mem_map.mpr ⟨_, List.mem_map_of_mem member, rfl⟩)
    suffices only : ∀ other, (sessionScanKey host entry.1, other) ∈ plan.lanes → other = entry.2 by
      rw [assigned_eq present only, Option.getD_some]
    rw [laned]
    intro other present
    rcases List.mem_append.mp present with retried | normal
    · obtain ⟨session, waits, same⟩ := List.mem_map.mp retried
      have key := (Prod.mk.inj same).1
      exact absurd (key ▸ due session waits) (entries.free entry member)
    · obtain ⟨twin, here, same⟩ := List.mem_map.mp normal
      obtain ⟨key, rfl⟩ := Prod.mk.inj same
      have both := (entries.lane_iff here).trans (key ▸ (entries.lane_iff member).symm)
      cases first : twin.2 <;> cases second : entry.2 <;> simp_all
  -- the sessions of the traversal that the plan probes
  have probed : (inLane (plan.laneFor host) .backlog plan.sessions).filter
      (fun session => sessionScanKey host session ∉ frontier.pending) =
        (lanes.filter fun entry => entry.2 = .backlog).map (·.1) := by
    have none : retries.filter (fun session => decide (sessionScanKey host session ∉ frontier.pending) &&
        decide (plan.laneFor host session = .backlog)) = [] := by
      apply List.filter_eq_nil_iff.mpr
      intro session waits
      simp [due session waits]
    unfold inLane
    rw [List.filter_filter, listed, List.filter_append, none, List.nil_append, List.filter_map]
    congr 1
    apply List.filter_congr
    intro entry member
    simp [laneOf entry member, entries.free entry member]
  have moving : ((syncPasses host frontier round).attempts.map (·.session)).filter
      (fun session => (assigned plan.backlogWrap (sessionScanKey host session)).isSome) =
        (inLane (plan.laneFor host) .backlog ((syncPasses host frontier round).attempts.map (·.session))).filter
          (fun session => sessionScanKey host session ∉ frontier.pending) := by
    unfold inLane
    rw [List.filter_filter]
    apply List.filter_congr
    intro session attempted
    have behind : (assigned plan.backlogWrap (sessionScanKey host session)).isSome ↔
        sessionScanKey host session ∈ round.sessions.map (sessionScanKey host) ∧
          sessionScanKey host session ∉ recentKeys host round.sessions round.total := by
      rw [assigned_isSome, wrap, List.map_map, ← @mem_backlogOf host frontier]
      rfl
    have known : session ∈ plan.sessions := by
      have kept : session ∈ inLane (plan.laneFor host) (plan.laneFor host session) plan.sessions :=
        (ordered _).subset (List.mem_filter.mpr ⟨attempted, by simp⟩)
      exact (List.mem_filter.mp kept).1
    rw [listed] at known
    rw [Bool.eq_iff_iff, behind]
    simp only [Bool.and_eq_true, decide_eq_true_eq]
    rcases List.mem_append.mp known with retried | normal
    · -- a retry: it waited, so it is of the recent lane
      have waits := due session retried
      obtain ⟨made, present, rfl⟩ := List.mem_map.mp attempted
      have recent := steady.settled made present waits
      exact ⟨fun outside => absurd recent outside.2, fun free => absurd waits free.1⟩
    · obtain ⟨entry, member, rfl⟩ := List.mem_map.mp normal
      rw [laneOf entry member]
      constructor
      · rintro ⟨_, outside⟩
        refine ⟨entries.free entry member, ?_⟩
        cases lane : entry.2 with
        | recent => exact absurd ((entries.lane_iff member).mp lane) outside
        | backlog => rfl
      · rintro ⟨_, lane⟩
        have kept : entry.1 ∈ (lanes.filter fun entry => entry.2 = .backlog).map (·.1) :=
          List.mem_map_of_mem (List.mem_filter.mpr ⟨member, by simp [lane]⟩)
        obtain ⟨place, present, same⟩ := List.mem_map.mp (entries.backlog.subset kept)
        have facts := mem_traversed.mp (List.mem_map_of_mem present)
        rw [same] at facts
        exact ⟨facts.1, facts.2.1⟩
  rw [moving]
  exact ((ordered .backlog).filter _).trans (probed ▸ entries.backlog)

theorem plan_backlogWrap {frontier : TranscriptScanFrontier} {round : Round} {plan : SessionScanPlan}
    (planned : planSessionScan host frontier round.sessions (some round.total) round.plannedAt = plan) :
    plan.backlogWrap = (backlogOf host frontier round.sessions round.total).map
      fun entry => (sessionScanKey host entry.1, entry.2) := by
  by_cases empty : round.sessions = []
  · obtain ⟨wrapped, beyond, parts⟩ := @traversal_parts host frontier round.sessions
    have cut := parts.cut
    rw [empty] at cut
    obtain ⟨rfl, rfl⟩ := List.append_eq_nil_iff.mp cut
    have traversal := parts.traversal
    rw [empty] at traversal
    rw [← planned]
    simp [planSessionScan, backlogOf, traversal, empty]
  · obtain ⟨_, _, _, _, _, _, wrap, _, _⟩ :=
      @planSessionScan_eq host frontier _ (some (round.total : Int)) round.plannedAt empty
    have again : totalBudget round.sessions (some (round.total : Int)) = round.total := totalBudget_again _ _
    rw [← planned, wrap, again]

theorem wrapped_eq {frontier : TranscriptScanFrontier} {round : Round} (steady : Steady host frontier round)
    {entry : SessionRecord × Bool} (member : entry ∈ traversed host frontier round.sessions round.total) :
    assigned ((backlogOf host frontier round.sessions round.total).map
      fun entry => (sessionScanKey host entry.1, entry.2)) (sessionScanKey host entry.1) = some entry.2 := by
  obtain ⟨present, free⟩ := List.mem_filter.mp member
  apply assigned_eq
  · rw [List.map_map]
    exact List.mem_map.mpr ⟨entry, present, rfl⟩
  · intro other listed
    obtain ⟨twin, here, same⟩ := List.mem_map.mp listed
    obtain ⟨key, rfl⟩ := Prod.mk.inj same
    have traversed : twin ∈ traversed host frontier round.sessions round.total :=
      List.mem_filter.mpr ⟨here, by rw [key]; exact free⟩
    rw [List.inj_on_of_nodup_map steady.distinct traversed member key]

/-! ### The visits -/

def Scan.visit (host : HostPaths) (scan : Scan) : Visit String where
  key := sessionScanKey host scan.attempt.session
  eligible := fun key => key ∈ traversedKeys host scan.frontier scan.round
  wraps := scan.advances

def visits (host : HostPaths) (scans : List Scan) : List (Visit String) :=
  (scans.filter (·.movesCursor host)).map (·.visit host)

/-- Chained attempts visit the keys they mark, and the first wrapped one increments the cycle. -/
theorem visits_chained {frontier : TranscriptScanFrontier} {round : Round} {wrap : List (String × Bool)}
    {plan final : SessionScanPlan} {attempts : List Attempt} (chained : Chained host plan attempts final)
    (same : plan.backlogWrap = wrap) :
    visits host (attempts.map (⟨frontier, round, ·⟩)) =
        stamped (fun key => key ∈ traversedKeys host frontier round) plan.cycleAdvanced
          (((attempts.map (·.session)).filter fun session => (assigned wrap (sessionScanKey host session)).isSome).map
            fun session => (sessionScanKey host session, (assigned wrap (sessionScanKey host session)).getD false)) ∧
      final.frontier.cursor =
        cursorAfter plan.frontier.cursor (visits host (attempts.map (⟨frontier, round, ·⟩))) := by
  induction chained with
  | nil => exact ⟨rfl, rfl⟩
  | @cons plan after final session rest marks _ ih =>
    obtain ⟨ih, ends⟩ := ih (marks.backlogWrap.trans same)
    cases place : assigned plan.backlogWrap (sessionScanKey host session) with
    | none =>
      obtain ⟨cursor, _, advanced⟩ := marks.outside place
      have skipped : visits host ((⟨session, plan, after⟩ :: rest).map (⟨frontier, round, ·⟩)) =
          visits host (rest.map (⟨frontier, round, ·⟩)) := by
        simp [visits, Scan.movesCursor, place]
      have stays : after.frontier.cursor = plan.frontier.cursor := by
        simp [TranscriptScanFrontier.cursor, cursor]
      rw [skipped, ends, stays]
      refine ⟨?_, rfl⟩
      rw [ih, advanced]
      rw [same] at place
      simp [place]
    | some wrapped =>
      obtain ⟨cursor, advances, advanced⟩ := marks.inside wrapped place
      have visited : visits host ((⟨session, plan, after⟩ :: rest).map (⟨frontier, round, ·⟩)) =
          ⟨sessionScanKey host session, fun key => key ∈ traversedKeys host frontier round,
            wrapped && !plan.cycleAdvanced⟩ :: visits host (rest.map (⟨frontier, round, ·⟩)) := by
        have flag : decide (plan.frontier.scanCycle < after.frontier.scanCycle) = (wrapped && !plan.cycleAdvanced) := by
          rw [Bool.eq_iff_iff, decide_eq_true_iff]
          exact advances
        simp [visits, Scan.movesCursor, place, Scan.visit, Scan.advances, flag]
      have moved : after.frontier.cursor = some (sessionScanKey host session) := by
        simp [TranscriptScanFrontier.cursor, cursor, Option.filter_some, sessionScanKey_ne_empty]
      rw [visited]
      constructor
      · rw [ih, advanced]
        rw [same] at place
        simp [place, stamped]
      · rw [ends, moved]
        rfl

/-- The traversal of a steady round: up the keys beyond the cursor, and from the least one up to it. -/
theorem walk_traversed {frontier : TranscriptScanFrontier} {round : Round} (steady : Steady host frontier round) :
    Walk frontier.cursor (stamped (fun key => key ∈ traversedKeys host frontier round) false
      ((traversed host frontier round.sessions round.total).map fun entry => (sessionScanKey host entry.1, entry.2))) := by
  obtain ⟨wrapped, beyond, parts⟩ := @traversal_parts host frontier round.sessions
  generalize kept : (fun session : SessionRecord =>
    decide (sessionScanKey host session ∉ frontier.pending) &&
      decide (sessionScanKey host session ∉ recentKeys host round.sessions round.total)) = keep
  have parted : traversed host frontier round.sessions round.total =
      (beyond.filter keep).map (·, false) ++ (wrapped.filter keep).map (·, true) := by
    subst kept
    unfold traversed backlogOf
    rw [List.filter_filter, parts.traversal, List.filter_append, List.filter_map, List.filter_map]
    rfl
  have shape : (traversed host frontier round.sessions round.total).map
      (fun entry => (sessionScanKey host entry.1, entry.2)) =
        ((beyond.filter keep).map (sessionScanKey host)).map (·, false) ++
          ((wrapped.filter keep).map (sessionScanKey host)).map (·, true) := by
    rw [parted]
    simp [Function.comp_def]
  have keys : traversedKeys host frontier round =
      (beyond.filter keep).map (sessionScanKey host) ++ (wrapped.filter keep).map (sessionScanKey host) := by
    unfold traversedKeys
    rw [parted]
    simp [Function.comp_def]
  have distinct := steady.distinct
  rw [keys] at distinct
  obtain ⟨above, below, apart⟩ := List.nodup_append.mp distinct
  have sorted := @inKeyOrder_sorted host round.sessions
  rw [← parts.cut] at sorted
  obtain ⟨lower, upper, across⟩ := List.pairwise_append.mp sorted
  have strictly : ∀ sessions : List SessionRecord,
      sessions.Pairwise (fun first second => sessionScanKey host first ≤ sessionScanKey host second) →
      ((sessions.filter keep).map (sessionScanKey host)).Nodup →
      ((sessions.filter keep).map (sessionScanKey host)).Pairwise (· < ·) := by
    intro sessions ordered single
    have weakly := List.pairwise_map.mpr (ordered.filter keep)
    exact (weakly.and single).imp fun both => lt_of_le_of_ne both.1 both.2
  rw [shape]
  apply walk_round (strictly beyond upper above) (strictly wrapped lower below)
  · intro key listed
    rw [keys] at listed
    exact List.mem_append.mp listed
  · intro c stands key listed
    obtain ⟨session, member, rfl⟩ := List.mem_map.mp listed
    obtain ⟨present, free⟩ := List.mem_filter.mp member
    rcases parts.placed c stands with none | held
    · rw [none] at present
      cases present
    · obtain ⟨holder, here, rfl⟩ := List.mem_map.mp held
      apply lt_of_le_of_ne (across holder here session present)
      -- a session with the key of the cursor would be traversed twice
      intro same
      have twin : keep holder = true := by
        rw [← free, ← kept]
        simp [same]
      exact apart _ (List.mem_map_of_mem member) _
        (List.mem_map_of_mem (List.mem_filter.mpr ⟨here, twin⟩)) same.symm
  · intro key listed
    obtain ⟨session, member, rfl⟩ := List.mem_map.mp listed
    have present := (List.mem_filter.mp member).1
    cases stands : frontier.cursor with
    | none =>
      rw [parts.fresh stands] at present
      cases present
    | some c =>
      refine ⟨c, rfl, ?_⟩
      rcases steady.inPlace c stands with held | bounded
      · exact parts.reached c stands held session present
      · apply bounded
        rw [keys]
        exact List.mem_append_right _ listed

/-! ### Rounds -/

def KeepsSteady (host : HostPaths) (scans : List Scan) : Prop :=
  ∀ scan ∈ scans, scan.movesCursor host → Steady host scan.frontier scan.round

theorem mem_scansOf {rounds : List Round} {frontier : TranscriptScanFrontier} {scan : Scan}
    (member : scan ∈ scansOf host frontier rounds) :
    scan.attempt ∈ (syncPasses host scan.frontier scan.round).attempts := by
  induction rounds generalizing frontier with
  | nil => cases member
  | cons round rest ih =>
    rcases List.mem_append.mp member with here | later
    · obtain ⟨made, present, rfl⟩ := List.mem_map.mp here
      exact present
    · exact ih later

theorem plan_start (frontier : TranscriptScanFrontier) (sessions : List SessionRecord) (changeLimit : Option Int) (now : Time) :
    (planSessionScan host frontier sessions changeLimit now).frontier = frontier ∧
      (planSessionScan host frontier sessions changeLimit now).cycleAdvanced = false := by
  unfold planSessionScan
  split <;> exact ⟨rfl, rfl⟩

theorem syncSessionsFairly_cursor (frontier : TranscriptScanFrontier) (round : Round) :
    (syncSessionsFairly host frontier round).cursor = (syncPasses host frontier round).plan.frontier.cursor := by
  have turned : ∀ (plan : SessionScanPlan) lane limit,
      (plan.advanceLaneTurn host lane limit).frontier.cursorKey = plan.frontier.cursorKey := by
    intro plan lane limit
    unfold SessionScanPlan.advanceLaneTurn
    split
    · rfl
    · split_ifs <;> rfl
  unfold syncSessionsFairly TranscriptScanFrontier.cursor
  dsimp only
  split
  · rfl
  · rw [turned]

theorem round_walk (frontier : TranscriptScanFrontier) (round : Round)
    (steady : KeepsSteady host ((syncPasses host frontier round).attempts.map (⟨frontier, round, ·⟩))) :
    Walk frontier.cursor (visits host ((syncPasses host frontier round).attempts.map (⟨frontier, round, ·⟩))) ∧
      (syncSessionsFairly host frontier round).cursor =
        cursorAfter frontier.cursor (visits host ((syncPasses host frontier round).attempts.map (⟨frontier, round, ·⟩))) := by
  rw [syncSessionsFairly_cursor]
  generalize planned : planSessionScan host frontier round.sessions (some round.total) round.plannedAt = plan
  obtain ⟨chained, _⟩ := syncPasses_spec frontier round plan planned
  have start := @plan_start host frontier round.sessions (some (round.total : Int)) round.plannedAt
  rw [planned] at start
  obtain ⟨visited, ends⟩ := @visits_chained host frontier round _ _ _ _ chained rfl
  rw [start.1] at ends
  refine ⟨?_, ends⟩
  cases moving : visits host ((syncPasses host frontier round).attempts.map (⟨frontier, round, ·⟩)) with
  | nil => trivial
  | cons visit rest =>
    have calm : Steady host frontier round := by
      have filled : visit ∈ visits host ((syncPasses host frontier round).attempts.map (⟨frontier, round, ·⟩)) := by
        rw [moving]
        exact List.mem_cons_self
      obtain ⟨scan, member, _⟩ := List.mem_map.mp filled
      obtain ⟨listed, moves⟩ := List.mem_filter.mp member
      obtain ⟨made, _, rfl⟩ := List.mem_map.mp listed
      exact steady _ listed moves
    rw [← moving, visited, start.2]
    obtain ⟨later, whole⟩ := attempted_traversed calm planned
    have walk := walk_traversed calm
    -- the flags of the traversal are those of the plan
    have flags : (traversed host frontier round.sessions round.total).map
        (fun entry => (sessionScanKey host entry.1, entry.2)) =
          ((traversed host frontier round.sessions round.total).map (·.1)).map fun session =>
            (sessionScanKey host session, (assigned plan.backlogWrap (sessionScanKey host session)).getD false) := by
      rw [List.map_map]
      apply List.map_congr_left
      intro entry member
      simp only [Function.comp_apply, plan_backlogWrap planned, wrapped_eq calm member, Option.getD_some]
    rw [flags, ← whole, List.map_append, stamped_append] at walk
    exact (walk_append.mp walk).1

theorem visits_append (first second : List Scan) : visits host (first ++ second) = visits host first ++ visits host second := by
  simp [visits]

theorem scansOf_walk {rounds : List Round} {frontier : TranscriptScanFrontier}
    (steady : KeepsSteady host (scansOf host frontier rounds)) :
    Walk frontier.cursor (visits host (scansOf host frontier rounds)) := by
  induction rounds generalizing frontier with
  | nil => trivial
  | cons round rest ih =>
    obtain ⟨walk, ends⟩ := round_walk frontier round fun scan member => steady scan (List.mem_append_left _ member)
    have later := ih fun scan member => steady scan (List.mem_append_right _ member)
    unfold scansOf
    rw [visits_append, walk_append, ← ends]
    exact ⟨walk, later⟩

/-! ### Retries within a round -/

theorem chained_retained {plan final : SessionScanPlan} {attempts : List Attempt}
    (chained : Chained host plan attempts final) {key : String} (waits : key ∈ plan.frontier.pending)
    (untouched : ∀ made ∈ attempts, sessionScanKey host made.session ≠ key) :
    ∀ made ∈ attempts, key ∈ made.before.frontier.pending ∧ key ∈ made.after.frontier.pending := by
  induction chained with
  | nil =>
    intro made member
    cases member
  | @cons plan after final session rest marks _ ih =>
    have other : sessionScanKey host session ≠ key := untouched ⟨session, plan, after⟩ List.mem_cons_self
    have kept : key ∈ after.frontier.pending := marks.retained key other.symm waits
    intro made member
    rcases List.mem_cons.mp member with rfl | later
    · exact ⟨waits, kept⟩
    · exact ih kept (fun other present => untouched other (List.mem_cons_of_mem _ present)) made later

theorem free_when_planned {frontier : TranscriptScanFrontier} {round : Round} (steady : Steady host frontier round)
    {made : Attempt} (member : made ∈ (syncPasses host frontier round).attempts) {key : String}
    (outside : key ∉ recentKeys host round.sessions round.total)
    (free : key ∉ made.before.frontier.pending ∨ key ∉ made.after.frontier.pending) : key ∉ frontier.pending := by
  intro waits
  obtain ⟨chained, _⟩ := syncPasses_spec frontier round _ rfl
  have start := @plan_start host frontier round.sessions (some (round.total : Int)) round.plannedAt
  have untouched : ∀ other ∈ (syncPasses host frontier round).attempts, sessionScanKey host other.session ≠ key := by
    rintro other present rfl
    exact outside (steady.settled other present waits)
  obtain ⟨before, after⟩ := chained_retained chained (start.1.symm ▸ waits) untouched made member
  rcases free with free | free
  · exact free before
  · exact free after

/-! ### The cycle -/

theorem mem_visits_key {scans : List Scan} {key : String} (member : key ∈ (visits host scans).map (·.key)) :
    ∃ scan ∈ scans, sessionScanKey host scan.attempt.session = key := by
  obtain ⟨visit, listed, rfl⟩ := List.mem_map.mp member
  obtain ⟨scan, present, rfl⟩ := List.mem_map.mp listed
  exact ⟨scan, (List.mem_filter.mp present).1, rfl⟩

theorem movesCursor_of_advances {made : Attempt} {plan final : SessionScanPlan} {attempts : List Attempt}
    (chained : Chained host plan attempts final) (member : made ∈ attempts)
    (advances : made.before.frontier.scanCycle < made.after.frontier.scanCycle) :
    (assigned made.before.backlogWrap (sessionScanKey host made.session)).isSome := by
  induction chained with
  | nil => cases member
  | @cons plan after final session rest marks _ ih =>
    rcases List.mem_cons.mp member with rfl | later
    · by_contra outside
      have same := (marks.outside (Option.not_isSome_iff_eq_none.mp outside)).2.1
      exact absurd same (ne_of_gt advances)
    · exact ih later

/-- Where scans of the backlog are made in steady rounds only, a source that stays in the inventory, out of the
recent lane and free of retries between two increments of the cycle is scanned from the first of them on. -/
theorem scanCycle_covers (start : TranscriptScanFrontier) (rounds : List Round) (front mid back : List Scan)
    (first next : Scan) (key : String)
    (run : scansOf host start rounds = front ++ first :: (mid ++ next :: back))
    (steady : KeepsSteady host (scansOf host start rounds))
    (starts : first.advances) (ends : next.advances) (between : ∀ scan ∈ mid, ¬ scan.advances)
    (inventory : ∀ scan ∈ first :: (mid ++ [next]), key ∈ scan.round.sessions.map (sessionScanKey host))
    (backlog : ∀ scan ∈ first :: (mid ++ [next]), key ∉ recentKeys host scan.round.sessions scan.round.total)
    (after : ∀ scan ∈ first :: mid, key ∉ scan.attempt.after.frontier.pending)
    (before : ∀ scan ∈ mid ++ [next], key ∉ scan.attempt.before.frontier.pending) :
    ∃ scan ∈ first :: mid, sessionScanKey host scan.attempt.session = key := by
  have walk := scansOf_walk steady
  have made : ∀ scan ∈ first :: (mid ++ [next]), scan ∈ scansOf host start rounds := by
    intro scan member
    rw [run]
    simp only [List.mem_cons, List.mem_append, List.not_mem_nil, or_false] at member ⊢
    tauto
  have moves : ∀ scan ∈ first :: (mid ++ [next]), scan.advances → scan.movesCursor host := by
    intro scan member advances
    obtain ⟨chained, _⟩ := syncPasses_spec scan.frontier scan.round _ rfl
    exact movesCursor_of_advances chained (mem_scansOf (made scan member)) (of_decide_eq_true advances)
  have firstMoves := moves first List.mem_cons_self starts
  have nextMoves := moves next (by simp) ends
  rw [run, visits_append] at walk
  have shape : visits host (first :: (mid ++ next :: back)) =
      first.visit host :: (visits host mid ++ next.visit host :: visits host back) := by
    simp [visits, firstMoves, nextMoves]
  rw [shape] at walk
  have found : key ∈ (first.visit host :: visits host mid).map (·.key) := by
    apply visited_between_wraps walk starts ends
    · intro visit member
      obtain ⟨scan, listed, rfl⟩ := List.mem_map.mp member
      simpa [Scan.visit] using between scan (List.mem_filter.mp listed).1
    · -- the key is eligible at every visit from the first increment to the next
      have eligible : ∀ scan ∈ first :: (mid ++ [next]), scan.movesCursor host → (scan.visit host).eligible key := by
        intro scan member moving
        have calm := steady scan (made scan member) moving
        have outside := backlog scan member
        refine mem_traversed.mpr ⟨inventory scan member, outside, ?_⟩
        apply free_when_planned calm (mem_scansOf (made scan member)) outside
        rcases List.mem_cons.mp member with rfl | later
        · exact .inr (after _ List.mem_cons_self)
        · exact .inl (before scan later)
      intro visit member
      rcases List.mem_cons.mp member with rfl | later
      · exact eligible first List.mem_cons_self firstMoves
      · rcases List.mem_append.mp later with inside | last
        · obtain ⟨scan, listed, rfl⟩ := List.mem_map.mp inside
          obtain ⟨present, moving⟩ := List.mem_filter.mp listed
          exact eligible scan (by simp [present]) moving
        · rw [List.mem_singleton.mp last]
          exact eligible next (by simp) nextMoves
  rcases List.mem_cons.mp found with rfl | later
  · exact ⟨first, List.mem_cons_self, rfl⟩
  · obtain ⟨scan, member, same⟩ := mem_visits_key later
    exact ⟨scan, List.mem_cons_of_mem _ member, same⟩

theorem cut_twice {α : Type} (l : List α) (i j : Nat) (bound : i + 1 + j < l.length) :
    l = l.take i ++ l.get ⟨i, by omega⟩ ::
      ((l.drop (i + 1)).take j ++ l.get ⟨i + 1 + j, bound⟩ :: l.drop (i + 1 + j + 1)) := by
  have later := List.take_append_drop j (l.drop (i + 1))
  rw [List.drop_drop] at later
  simp only [List.get_eq_getElem, List.getElem_cons_drop, later, List.take_append_drop]

def quietRounds : List Round :=
  let inventory : List SessionRecord := [⟨"/r", "r"⟩, ⟨"/a", "a"⟩, ⟨"/b", "b"⟩]
  [0, 1, 2].map fun time =>
    { sessions := inventory, changeLimit := some 1, plannedAt := time, calls := fun _ => ⟨.unchanged, time⟩, committedAt := time }

theorem quietRounds_length : (scansOf .plain {} quietRounds).length = 9 := by
  decide

/-- The increments of these rounds have the rest of the backlog between them. -/
theorem scanCycle_covers_quiet :
    ∃ scan ∈ (scansOf .plain {} quietRounds).get ⟨4, by rw [quietRounds_length]; decide⟩ ::
        ((scansOf .plain {} quietRounds).drop 5).take 2,
      sessionScanKey .plain scan.attempt.session = "/b#b" := by
  have run := cut_twice (scansOf .plain {} quietRounds) 4 2 (by rw [quietRounds_length]; decide)
  apply scanCycle_covers {} quietRounds _ _ _ _ _ "/b#b" run
  · unfold KeepsSteady
    decide +kernel
  all_goals decide +kernel

/-- A failure and its retry: the cursor jumps behind the retried session, and the restart counts as a cycle. -/
def retriedRounds : List Round :=
  let inventory : List SessionRecord := [⟨"/r", "r"⟩, ⟨"/a", "a"⟩, ⟨"/b", "b"⟩, ⟨"/c", "c"⟩, ⟨"/d", "d"⟩]
  let calls (outcomes : List SyncOutcome) (time : Time) (call : Nat) : SyncCall :=
    ⟨(outcomes[call]?).getD .cancelled, time⟩
  [([.unchanged, .updated], 0), ([.unchanged, .unchanged, .unchanged, .failed "busy"], seconds 1),
    ([.unchanged, .updated], seconds 2), ([.unchanged, .updated], seconds 60), ([.unchanged, .updated], seconds 61)].map
      fun (outcomes, time) =>
        { sessions := inventory, changeLimit := some 1, plannedAt := time, calls := calls outcomes time, committedAt := time }

theorem retriedRounds_length : (scansOf .plain {} retriedRounds).length = 12 := by
  decide

/-- Without steady rounds a source stays unscanned between two increments. -/
theorem scanCycle_skips :
    ¬ ∀ (start : TranscriptScanFrontier) (rounds : List Round) (front mid back : List Scan) (first next : Scan)
        (key : String),
      scansOf .plain start rounds = front ++ first :: (mid ++ next :: back) →
      first.advances → next.advances → (∀ scan ∈ mid, ¬ scan.advances) →
      (∀ scan ∈ first :: (mid ++ [next]), key ∈ scan.round.sessions.map (sessionScanKey .plain)) →
      (∀ scan ∈ first :: (mid ++ [next]), key ∉ recentKeys .plain scan.round.sessions scan.round.total) →
      (∀ scan ∈ first :: mid, key ∉ scan.attempt.after.frontier.pending) →
      (∀ scan ∈ mid ++ [next], key ∉ scan.attempt.before.frontier.pending) →
      ∃ scan ∈ first :: mid, sessionScanKey .plain scan.attempt.session = key := by
  intro covers
  have run := cut_twice (scansOf .plain {} retriedRounds) 7 3 (by rw [retriedRounds_length]; decide)
  have scanned := covers {} retriedRounds _ _ _ _ _ "/b#b" run (by decide +kernel) (by decide +kernel)
    (by decide +kernel) (by decide +kernel) (by decide +kernel) (by decide +kernel) (by decide +kernel)
  revert scanned
  decide +kernel

end HarnessMem.Scanning
