import HarnessMem.Library.Table
import HarnessMem.Schemas.Values
import Mathlib.Data.List.Sort
import Mathlib.Data.String.Basic

/-! Planning which sessions of an inventory are scanned: a bounded recent lane, a
backlog traversed from a stored cursor, and a lane for retries that are due.
-/

set_option autoImplicit false

namespace HarnessMem.Scanning

open Library

structure SessionRecord where
  path : String
  sessionId : String
  deriving DecidableEq, Repr

structure HostPaths where
  canonical : String → String
  casefold : String → String

def HostPaths.plain : HostPaths := ⟨id, id⟩

inductive Lane where
  | recent | backlog
  deriving DecidableEq, Repr

structure TranscriptScanRetry where
  key : String
  attempts : Nat := 0
  nextRetryAt : Option Time := none
  lastError : Option String := none
  updatedAt : Time
  deriving DecidableEq, Repr

/-- The durable position for one project, client and source root. -/
structure TranscriptScanFrontier where
  cursorKey : Option String := none
  nextLane : Lane := .recent
  retrySources : Table TranscriptScanRetry.key := Table.empty
  scanCycle : Nat := 0
  scannedInCycle : Nat := 0
  lastScannedAt : Option Time := none
  lastCompletedCycleAt : Option Time := none
  updatedAt : Time := 0

def TranscriptScanFrontier.pending (frontier : TranscriptScanFrontier) : List String :=
  frontier.retrySources.rows.map (·.key)

structure SessionScanPlan where
  sessions : List SessionRecord
  frontier : TranscriptScanFrontier
  backlogWrap : List (String × Bool) := []
  lanes : List (String × Lane) := []
  primaryLane : Option Lane := none
  cycleAdvanced : Bool := false
  scannedKeys : List String := []

def assigned {α : Type} (assignments : List (String × α)) (key : String) : Option α :=
  (assignments.reverse.find? fun entry => entry.1 = key).map (·.2)

section

variable (host : HostPaths)

def sessionScanKey (session : SessionRecord) : String :=
  host.canonical session.path ++ "#" ++ host.casefold session.sessionId

def SessionScanPlan.laneFor (plan : SessionScanPlan) (session : SessionRecord) : Lane :=
  (assigned plan.lanes (sessionScanKey host session)).getD .backlog

def SessionScanPlan.markScanned (plan : SessionScanPlan) (session : SessionRecord) (now : Time) :
    SessionScanPlan :=
  let key := sessionScanKey host session
  let plan := { plan with scannedKeys := plan.scannedKeys ++ [key] }
  match assigned plan.backlogWrap key with
  | none => plan
  | some wrapped =>
    let advances := wrapped && !plan.cycleAdvanced
    let frontier :=
      if advances then
        { plan.frontier with
          scanCycle := plan.frontier.scanCycle + 1
          scannedInCycle := 0
          lastCompletedCycleAt := some now }
      else plan.frontier
    { plan with
      frontier :=
        { frontier with
          cursorKey := some key
          scannedInCycle := frontier.scannedInCycle + 1
          lastScannedAt := some now }
      cycleAdvanced := plan.cycleAdvanced || advances }

/-- `mark_failed`: a retry after 30 s, 1 min, 2 min and so on, up to one hour. -/
def SessionScanPlan.markFailed (plan : SessionScanPlan) (session : SessionRecord) (error : String) (now : Time) :
    SessionScanPlan :=
  let key := sessionScanKey host session
  let attempts := ((plan.frontier.retrySources.get? key).elim 0 (·.attempts)) + 1
  let delaySeconds := min 3600 (30 * 2 ^ (attempts - 1))
  let retry : TranscriptScanRetry :=
    { key
      attempts
      nextRetryAt := some (now + seconds delaySeconds)
      lastError := some (sliceTo 512 error)
      updatedAt := now }
  ({ plan with frontier := { plan.frontier with retrySources := plan.frontier.retrySources.upsert retry } }).markScanned
    host session now

def SessionScanPlan.markSucceeded (plan : SessionScanPlan) (session : SessionRecord) (now : Time) :
    SessionScanPlan :=
  let key := sessionScanKey host session
  ({ plan with
    frontier :=
      { plan.frontier with
        retrySources := plan.frontier.retrySources.filter fun retry => decide (retry.key ≠ key) } }).markScanned
    host session now

def SessionScanPlan.advanceLaneTurn (plan : SessionScanPlan) (changedLane : Option Lane) (changeLimit : Nat) :
    SessionScanPlan :=
  match changedLane with
  | none => plan
  | some lane =>
    if changeLimit ≠ 1 then plan
    else if !plan.sessions.any fun session => plan.laneFor host session = .recent then plan
    else if !plan.sessions.any fun session => plan.laneFor host session = .backlog then plan
    else
      { plan with
        frontier := { plan.frontier with nextLane := if lane = .recent then .backlog else .recent } }

def totalBudget (sessions : List SessionRecord) (changeLimit : Option Int) : Nat :=
  match changeLimit with
  | none => max 1 sessions.length
  | some limit => max 1 limit.toNat

def recentWindow (sessions : List SessionRecord) (total : Nat) : List SessionRecord :=
  sessions.take (max 1 ((total + 1) / 2))

def inKeyOrder (sessions : List SessionRecord) : List SessionRecord :=
  sessions.insertionSort fun first second => sessionScanKey host first ≤ sessionScanKey host second

def traversal (frontier : TranscriptScanFrontier) (sessions : List SessionRecord) : List (SessionRecord × Bool) :=
  let ordered := inKeyOrder host sessions
  let keys := ordered.map (sessionScanKey host)
  let (start, wrapAtStart) :=
    match frontier.cursorKey with
    | none => (0, false)
    | some cursor =>
      if cursor = "" then (0, false)
      else match keys.findIdx? (· = cursor) with
        -- the session of the cursor is gone
        | none => (0, true)
        | some index => if ordered.length ≤ index + 1 then (0, true) else (index + 1, false)
  (ordered.drop start).map (·, wrapAtStart) ++ (ordered.take start).map (·, true)

def backlogOf (frontier : TranscriptScanFrontier) (sessions : List SessionRecord) (total : Nat) :
    List (SessionRecord × Bool) :=
  let recentKeys := (recentWindow sessions total).map (sessionScanKey host)
  (traversal host frontier sessions).filter fun entry => sessionScanKey host entry.1 ∉ recentKeys

def retrySessions (frontier : TranscriptScanFrontier) (sessions : List SessionRecord) (total : Nat) (now : Time) :
    List SessionRecord :=
  let due := (frontier.retrySources.rows.filter fun retry => retry.nextRetryAt.all (· ≤ now)).map (·.key)
  let byKey (among : List SessionRecord) := assigned (among.map fun session => (sessionScanKey host session, session))
  ((due.insertionSort (· ≤ ·)).filterMap fun key =>
    (byKey ((backlogOf host frontier sessions total).map (·.1)) key).or (byKey (recentWindow sessions total) key)).take
      (max 1 total)

def alternate {α : Type} : List α → List α → List α
  | [], rest => rest
  | first :: rest, [] => first :: rest
  | first :: rest, other :: others => first :: other :: alternate rest others

def planSessionScan (frontier : TranscriptScanFrontier) (sessions : List SessionRecord) (changeLimit : Option Int)
    (now : Time) : SessionScanPlan :=
  if sessions = [] then { sessions := [], frontier }
  else
    let total := totalBudget sessions changeLimit
    let probeBudget := max 4 (total * 4)
    let backlog := backlogOf host frontier sessions total
    let retries := retrySessions host frontier sessions total now
    -- a pending retry does not enter the normal lanes
    let waits (session : SessionRecord) : Bool := sessionScanKey host session ∈ frontier.pending
    let recentLane := ((recentWindow sessions total).filter fun session => !waits session).map (·, Lane.recent)
    let backlogLane := ((backlog.map (·.1)).filter fun session => !waits session).map (·, Lane.backlog)
    let primaryLane :=
      if recentLane ≠ [] ∧ backlogLane ≠ [] then frontier.nextLane
      else if recentLane ≠ [] then .recent else .backlog
    let lanes :=
      (match primaryLane with
        | .recent => alternate recentLane backlogLane
        | .backlog => alternate backlogLane recentLane).take (probeBudget - retries.length)
    { sessions := retries ++ lanes.map (·.1)
      frontier
      backlogWrap := backlog.map fun entry => (sessionScanKey host entry.1, entry.2)
      lanes := (retries.map fun session => (sessionScanKey host session, Lane.backlog)) ++
        lanes.map fun entry => (sessionScanKey host entry.1, entry.2)
      primaryLane := some primaryLane }

def laneChangeLimits (plan : SessionScanPlan) (changeLimit : Nat) (lane : Lane) : Nat :=
  let total := max 1 changeLimit
  let hasRecent := plan.sessions.any fun session => plan.laneFor host session = .recent
  let hasBacklog := plan.sessions.any fun session => plan.laneFor host session = .backlog
  if !hasRecent || !hasBacklog then total
  else if total = 1 then (if lane = plan.primaryLane.getD .recent then 1 else 0)
  else match lane with
    | .recent => (total + 1) / 2
    | .backlog => total - (total + 1) / 2

/-! ### A round -/

/-- What synchronizing a session comes to. A cancellation ends the round. -/
inductive SyncOutcome where
  | ingested | updated | unchanged
  | failed (error : String)
  | cancelled
  deriving DecidableEq, Repr

/-- One call of `sync_session` and the time it is marked. -/
structure SyncCall where
  outcome : SyncOutcome
  now : Time

structure Round where
  sessions : List SessionRecord
  changeLimit : Option Int
  plannedAt : Time
  calls : Nat → SyncCall
  /-- Whether the sources missing from the inventory could be marked. -/
  inventoryMarked : Bool := true
  committedAt : Time

/-- A session that was synchronized and marked, with the plan before and after. -/
structure Attempt where
  session : SessionRecord
  before : SessionScanPlan
  after : SessionScanPlan

structure SyncState where
  plan : SessionScanPlan
  ingested : Nat := 0
  updated : Nat := 0
  unchanged : Nat := 0
  scanned : Nat := 0
  laneChanges : Lane → Nat := fun _ => 0
  deferred : List SessionRecord := []
  firstChangedLane : Option Lane := none
  failures : List (SessionRecord × String) := []
  cancelled : Bool := false
  attempts : List Attempt := []

def SyncState.changed (state : SyncState) (lane : Lane) : SyncState :=
  { state with
    laneChanges := fun other => if other = lane then state.laneChanges other + 1 else state.laneChanges other
    firstChangedLane := state.firstChangedLane.or (some lane) }

def SyncState.marked (state : SyncState) (session : SessionRecord) (plan : SessionScanPlan) : SyncState :=
  { state with plan, attempts := state.attempts ++ [⟨session, state.plan, plan⟩] }

def attempt (calls : Nat → SyncCall) (state : SyncState) (session : SessionRecord) : SyncState :=
  let call := calls state.scanned
  let lane := state.plan.laneFor host session
  let state := { state with scanned := state.scanned + 1 }
  match call.outcome with
  | .ingested =>
    (({ state with ingested := state.ingested + 1 }).changed lane).marked session
      (state.plan.markSucceeded host session call.now)
  | .updated =>
    (({ state with updated := state.updated + 1 }).changed lane).marked session
      (state.plan.markSucceeded host session call.now)
  | .unchanged =>
    ({ state with unchanged := state.unchanged + 1 }).marked session (state.plan.markSucceeded host session call.now)
  | .failed error =>
    ({ state with failures := state.failures ++ [(session, error)] }).marked session
      (state.plan.markFailed host session error call.now)
  | .cancelled => { state with cancelled := true }

def firstPass (calls : Nat → SyncCall) (workLimit : Nat) (limits : Lane → Nat) : SyncState → List SessionRecord → SyncState
  | state, [] => state
  | state, session :: rest =>
    if state.cancelled ∨ workLimit ≤ state.ingested + state.updated then state
    else if limits (state.plan.laneFor host session) ≤ state.laneChanges (state.plan.laneFor host session) then
      firstPass calls workLimit limits { state with deferred := state.deferred ++ [session] } rest
    else firstPass calls workLimit limits (attempt host calls state session) rest

def secondPass (calls : Nat → SyncCall) (workLimit : Nat) : SyncState → List SessionRecord → SyncState
  | state, [] => state
  | state, session :: rest =>
    if state.cancelled ∨ workLimit ≤ state.ingested + state.updated then state
    else secondPass calls workLimit (attempt host calls state session) rest

def syncPasses (frontier : TranscriptScanFrontier) (round : Round) : SyncState :=
  let workLimit := totalBudget round.sessions round.changeLimit
  let plan := planSessionScan host frontier round.sessions (some workLimit) round.plannedAt
  let first := firstPass host round.calls workLimit (laneChangeLimits host plan workLimit) { plan } plan.sessions
  secondPass host round.calls workLimit first first.deferred

/-- `sync_sessions_fairly`: the frontier that is committed. -/
def syncSessionsFairly (frontier : TranscriptScanFrontier) (round : Round) : TranscriptScanFrontier :=
  let workLimit := totalBudget round.sessions round.changeLimit
  let state := syncPasses host frontier round
  let plan :=
    if state.cancelled || !round.inventoryMarked then state.plan
    else state.plan.advanceLaneTurn host state.firstChangedLane workLimit
  { plan.frontier with updatedAt := round.committedAt }

/-- An attempt with the round it belongs to and the frontier the round was planned from. -/
structure Scan where
  frontier : TranscriptScanFrontier
  round : Round
  attempt : Attempt

def scansOf (frontier : TranscriptScanFrontier) : List Round → List Scan
  | [] => []
  | round :: rest =>
    (syncPasses host frontier round).attempts.map (⟨frontier, round, ·⟩) ++ scansOf (syncSessionsFairly host frontier round) rest

end

end HarnessMem.Scanning

/-! What the two passes of a round do to the plan: which sessions they attempt, in
which order, and how each attempt moves the frontier.
-/

namespace HarnessMem.Scanning

open Library

variable {host : HostPaths}

/-! ### Assignments -/

theorem mem_of_assigned {α : Type} {assignments : List (String × α)} {key : String} {value : α}
    (found : assigned assignments key = some value) : (key, value) ∈ assignments := by
  unfold assigned at found
  obtain ⟨⟨other, _⟩, listed, rfl⟩ := Option.map_eq_some_iff.mp found
  have same := List.find?_some listed
  simp only [decide_eq_true_eq] at same
  subst same
  exact List.mem_reverse.mp (List.mem_of_find?_eq_some listed)

theorem assigned_isSome {α : Type} {assignments : List (String × α)} {key : String} :
    (assigned assignments key).isSome ↔ key ∈ assignments.map (·.1) := by
  unfold assigned
  rw [Option.isSome_map, List.find?_isSome]
  simp

theorem assigned_eq {α : Type} {assignments : List (String × α)} {key : String} {value : α}
    (present : key ∈ assignments.map (·.1)) (only : ∀ other, (key, other) ∈ assignments → other = value) :
    assigned assignments key = some value := by
  obtain ⟨other, found⟩ := Option.isSome_iff_exists.mp (assigned_isSome.mpr present)
  rw [found, only other (mem_of_assigned found)]

/-! ### One attempt -/

structure Marks (host : HostPaths) (plan : SessionScanPlan) (session : SessionRecord) (after : SessionScanPlan) :
    Prop where
  lanes : after.lanes = plan.lanes
  backlogWrap : after.backlogWrap = plan.backlogWrap
  outside : assigned plan.backlogWrap (sessionScanKey host session) = none →
    after.frontier.cursorKey = plan.frontier.cursorKey ∧ after.frontier.scanCycle = plan.frontier.scanCycle ∧
      after.cycleAdvanced = plan.cycleAdvanced
  inside : ∀ wrapped, assigned plan.backlogWrap (sessionScanKey host session) = some wrapped →
    after.frontier.cursorKey = some (sessionScanKey host session) ∧
      (plan.frontier.scanCycle < after.frontier.scanCycle ↔ wrapped && !plan.cycleAdvanced) ∧
      after.cycleAdvanced = (plan.cycleAdvanced || wrapped)
  retained : ∀ key ≠ sessionScanKey host session, key ∈ plan.frontier.pending → key ∈ after.frontier.pending

theorem marks_scanned (plan : SessionScanPlan) (session : SessionRecord) (now : Time) :
    Marks host plan session (plan.markScanned host session now) := by
  unfold SessionScanPlan.markScanned
  cases place : assigned plan.backlogWrap (sessionScanKey host session) with
  | none =>
    constructor
    · simp only [place]
    · simp only [place]
    · intro _
      simp only [place, and_self]
    · intro wrapped found
      rw [place] at found
      cases found
    · intro key _ waits
      simp only [place]
      exact waits
  | some flag =>
    simp only [place]
    constructor
    · rfl
    · rfl
    · intro absent
      rw [place] at absent
      cases absent
    · intro wrapped found
      obtain rfl := Option.some.inj (place.symm.trans found)
      refine ⟨rfl, ?_, ?_⟩
      · cases flag <;> cases plan.cycleAdvanced <;> simp
      · cases flag <;> cases plan.cycleAdvanced <;> rfl
    · intro key _ waits
      cases (flag && !plan.cycleAdvanced) <;> exact waits

theorem Marks.of_retries {plan : SessionScanPlan} {session : SessionRecord} {after : SessionScanPlan}
    {retries : Table TranscriptScanRetry.key}
    (marks : Marks host { plan with frontier := { plan.frontier with retrySources := retries } } session after)
    (kept : ∀ key ≠ sessionScanKey host session, key ∈ plan.frontier.pending → key ∈ retries.rows.map (·.key)) :
    Marks host plan session after := by
  refine ⟨marks.lanes, marks.backlogWrap, marks.outside, marks.inside, fun key other waits => ?_⟩
  exact marks.retained key other (kept key other waits)

theorem marks_failed (plan : SessionScanPlan) (session : SessionRecord) (error : String) (now : Time) :
    Marks host plan session (plan.markFailed host session error now) := by
  unfold SessionScanPlan.markFailed
  apply Marks.of_retries (marks_scanned _ session now)
  intro key other waits
  obtain ⟨retry, member, rfl⟩ := List.mem_map.mp waits
  exact List.mem_map_of_mem ((Table.mem_upsert _ _ _).mpr (.inr ⟨member, other⟩))

theorem marks_succeeded (plan : SessionScanPlan) (session : SessionRecord) (now : Time) :
    Marks host plan session (plan.markSucceeded host session now) := by
  unfold SessionScanPlan.markSucceeded
  apply Marks.of_retries (marks_scanned _ session now)
  intro key other waits
  obtain ⟨retry, member, rfl⟩ := List.mem_map.mp waits
  exact List.mem_map_of_mem (List.mem_filter.mpr ⟨member, decide_eq_true other⟩)

/-- Attempts one after another, each from the plan the one before left. -/
inductive Chained (host : HostPaths) : SessionScanPlan → List Attempt → SessionScanPlan → Prop where
  | nil (plan : SessionScanPlan) : Chained host plan [] plan
  | cons {plan after final : SessionScanPlan} {session : SessionRecord} {rest : List Attempt} :
      Marks host plan session after → Chained host after rest final →
      Chained host plan (⟨session, plan, after⟩ :: rest) final

theorem Chained.append {plan middle final : SessionScanPlan} {first second : List Attempt}
    (left : Chained host plan first middle) (right : Chained host middle second final) :
    Chained host plan (first ++ second) final := by
  induction left with
  | nil => exact right
  | cons marks _ ih => exact .cons marks (ih right)

/-- What an attempt does to the state of a round. -/
structure Attempted (host : HostPaths) (state : SyncState) (session : SessionRecord) (next : SyncState) : Prop where
  deferred : next.deferred = state.deferred
  used : ∀ lane, state.laneChanges lane ≤ next.laneChanges lane
  step : (next.cancelled = true ∧ next.plan = state.plan ∧ next.attempts = state.attempts) ∨
    (Marks host state.plan session next.plan ∧ next.attempts = state.attempts ++ [⟨session, state.plan, next.plan⟩])

variable (host) in
theorem attempted (calls : Nat → SyncCall) (state : SyncState) (session : SessionRecord) :
    Attempted host state session (attempt host calls state session) := by
  have more : ∀ lane other, state.laneChanges other ≤
      if other = lane then state.laneChanges other + 1 else state.laneChanges other := by
    intro lane other
    split <;> omega
  unfold attempt
  dsimp only
  split
  · exact ⟨rfl, more _, .inr ⟨marks_succeeded _ _ _, rfl⟩⟩
  · exact ⟨rfl, more _, .inr ⟨marks_succeeded _ _ _, rfl⟩⟩
  · exact ⟨rfl, fun _ => le_refl _, .inr ⟨marks_succeeded _ _ _, rfl⟩⟩
  · exact ⟨rfl, fun _ => le_refl _, .inr ⟨marks_failed _ _ _ _, rfl⟩⟩
  · exact ⟨rfl, fun _ => le_refl _, .inl ⟨rfl, rfl, rfl⟩⟩

/-! ### The passes -/

def inLane (lane : SessionRecord → Lane) (which : Lane) (sessions : List SessionRecord) : List SessionRecord :=
  sessions.filter fun session => lane session = which

variable (host) in
theorem firstPass_spec (calls : Nat → SyncCall) (workLimit : Nat) (limits : Lane → Nat) (lane : SessionRecord → Lane)
    (sessions : List SessionRecord) :
    ∀ state : SyncState, (∀ session, state.plan.laneFor host session = lane session) →
      ∃ taken later, (firstPass host calls workLimit limits state sessions).attempts = state.attempts ++ taken ∧
        (firstPass host calls workLimit limits state sessions).deferred = state.deferred ++ later ∧
        Chained host state.plan taken (firstPass host calls workLimit limits state sessions).plan ∧
        (∀ which, inLane lane which (taken.map (·.session)) ++ inLane lane which later <+: inLane lane which sessions) ∧
        (∀ which, limits which ≤ state.laneChanges which → inLane lane which (taken.map (·.session)) = []) := by
  induction sessions with
  | nil =>
    intro state _
    exact ⟨[], [], by simp [firstPass], by simp [firstPass], .nil _, by simp [inLane], by simp [inLane]⟩
  | cons session rest ih =>
    intro state lanes
    unfold firstPass
    split
    · exact ⟨[], [], by simp, by simp, .nil _, by simp [inLane], by simp [inLane]⟩
    · next goesOn =>
      rw [lanes session]
      split
      · -- the lane has used its slots: nothing more of it is taken
        next full =>
        obtain ⟨taken, later, attempts, deferred, chained, ordered, closed⟩ :=
          ih { state with deferred := state.deferred ++ [session] } lanes
        refine ⟨taken, session :: later, attempts, by simpa using deferred, chained, fun which => ?_, closed⟩
        by_cases here : lane session = which
        · subst here
          have none := closed _ full
          have step := ordered (lane session)
          rw [none, List.nil_append] at step ⊢
          simpa [inLane] using step
        · simpa [inLane, here] using ordered which
      · next free =>
        have made := attempted host calls state session
        rcases made.step with ⟨cancelled, plan, attempts⟩ | ⟨marks, attempts⟩
        · have stopped : firstPass host calls workLimit limits (attempt host calls state session) rest =
              attempt host calls state session := by
            cases rest with
            | nil => rfl
            | cons => simp [firstPass, cancelled]
          rw [stopped]
          refine ⟨[], [], by simpa using attempts, by simpa using made.deferred, ?_, by simp [inLane], by simp [inLane]⟩
          rw [plan]
          exact .nil _
        · have lanes' : ∀ other, (attempt host calls state session).plan.laneFor host other = lane other := by
            intro other
            rw [← lanes other]
            unfold SessionScanPlan.laneFor
            rw [marks.lanes]
          obtain ⟨taken, later, attempts', deferred, chained, ordered, closed⟩ := ih _ lanes'
          refine ⟨⟨session, state.plan, (attempt host calls state session).plan⟩ :: taken, later, ?_, ?_,
            .cons marks chained, fun which => ?_, fun which limit => ?_⟩
          · rw [attempts', attempts, List.append_assoc, List.singleton_append]
          · rw [deferred, made.deferred]
          · by_cases here : lane session = which
            · simpa [inLane, here] using ordered which
            · simpa [inLane, here] using ordered which
          · have elsewhere : lane session ≠ which := by
              rintro rfl
              exact free limit
            have none := closed which (limit.trans (made.used which))
            simpa [inLane, elsewhere] using none

variable (host) in
theorem secondPass_spec (calls : Nat → SyncCall) (workLimit : Nat) (sessions : List SessionRecord) :
    ∀ state : SyncState,
      ∃ taken, (secondPass host calls workLimit state sessions).attempts = state.attempts ++ taken ∧
        Chained host state.plan taken (secondPass host calls workLimit state sessions).plan ∧
        taken.map (·.session) <+: sessions := by
  induction sessions with
  | nil =>
    intro state
    exact ⟨[], by simp [secondPass], .nil _, by simp⟩
  | cons session rest ih =>
    intro state
    unfold secondPass
    split
    · exact ⟨[], by simp, .nil _, by simp⟩
    · have made := attempted host calls state session
      rcases made.step with ⟨cancelled, plan, attempts⟩ | ⟨marks, attempts⟩
      · have stopped : secondPass host calls workLimit (attempt host calls state session) rest =
            attempt host calls state session := by
          cases rest with
          | nil => rfl
          | cons => simp [secondPass, cancelled]
        rw [stopped]
        refine ⟨[], by simpa using attempts, ?_, by simp⟩
        rw [plan]
        exact .nil _
      · obtain ⟨taken, attempts', chained, ordered⟩ := ih (attempt host calls state session)
        refine ⟨⟨session, state.plan, (attempt host calls state session).plan⟩ :: taken, ?_, .cons marks chained, ?_⟩
        · rw [attempts', attempts, List.append_assoc, List.singleton_append]
        · simpa using ordered

theorem syncPasses_spec (frontier : TranscriptScanFrontier) (round : Round) (plan : SessionScanPlan)
    (planned : planSessionScan host frontier round.sessions
      (some (totalBudget round.sessions round.changeLimit)) round.plannedAt = plan) :
    Chained host plan (syncPasses host frontier round).attempts (syncPasses host frontier round).plan ∧
      ∀ which, inLane (plan.laneFor host) which ((syncPasses host frontier round).attempts.map (·.session)) <+:
        inLane (plan.laneFor host) which plan.sessions := by
  subst planned
  unfold syncPasses
  dsimp only
  generalize planSessionScan host frontier round.sessions
    (some (totalBudget round.sessions round.changeLimit : Int)) round.plannedAt = plan
  obtain ⟨taken, later, attempts, deferred, chained, ordered, _⟩ :=
    firstPass_spec host round.calls (totalBudget round.sessions round.changeLimit)
      (laneChangeLimits host plan (totalBudget round.sessions round.changeLimit)) (plan.laneFor host) plan.sessions
      { plan } fun _ => rfl
  generalize firstPass host round.calls (totalBudget round.sessions round.changeLimit)
    (laneChangeLimits host plan (totalBudget round.sessions round.changeLimit)) { plan } plan.sessions = first
    at attempts deferred chained
  obtain ⟨more, attempts', chained', resumed⟩ :=
    secondPass_spec host round.calls (totalBudget round.sessions round.changeLimit) first.deferred first
  rw [attempts', attempts]
  refine ⟨by simpa using chained.append chained', fun which => ?_⟩
  rw [deferred, List.nil_append] at resumed
  simp only [List.nil_append, List.map_append, inLane, List.filter_append]
  refine List.IsPrefix.trans ?_ (ordered which)
  exact (List.prefix_append_right_inj _).mpr (resumed.filter _)

end HarnessMem.Scanning
