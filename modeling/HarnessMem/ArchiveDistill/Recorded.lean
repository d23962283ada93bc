import HarnessMem.ArchiveDistill.Records
import HarnessMem.ArchiveDistill.Stores

/-! What archive runs have recorded stays recorded, as long as no run stores over what another
has stored since it read the files.
-/

set_option autoImplicit false

namespace HarnessMem.ArchiveDistill

open Library

variable {host : Host}

/-! ### What a later version holds -/

/-- A later index holds every verified entry and every attempt, or what a run recorded for the session since.
The count of an attempt is no smaller under the same revision. -/
structure IndexHolds (since : List Start) (older newer : TerminalIndex) : Prop where
  sessions : ∀ id entry, older.sessions.get? id = some entry → entry.disposition = .verifiedCompleted →
    ∃ later, newer.sessions.get? id = some later ∧ later.disposition = .verifiedCompleted ∧
      (later = entry ∨ later.sessionId = id ∧ ∃ run ∈ since, later.runId = some run.call.runId)
  attempts : ∀ id attempt, older.attempts.get? id = some attempt →
    ∃ later, newer.attempts.get? id = some later ∧
      (later = attempt ∨ later.sessionId = id ∧ ∃ run ∈ since, later.lastRunId = run.call.runId) ∧
      (later.sourceRevision = attempt.sourceRevision → attempt.count ≤ later.count)

/-- The run has read the session at a revision its last attempt was not recorded under. -/
def Start.Moved (host : Host) (start : Start) (id : String) : Prop :=
  ∃ row ∈ start.eligible host, row.sessionId = id ∧ ∃ revision, row.sourceRevision = some revision ∧
    ∃ attempt, start.index.attempts.get? id = some attempt ∧ attempt.sourceRevision ≠ some revision

/-- A later ledger of the day holds the sessions and the runs. The count of a session attempted that day is
no smaller, unless a run since has read the session at another revision. -/
structure LedgerHolds (host : Host) (since : List Start) (older newer : Ledger) : Prop where
  processed : ∀ id ∈ older.processedSessionIds, id ∈ newer.processedSessionIds
  attempted : ∀ id ∈ older.attemptedSessionIds, id ∈ newer.attemptedSessionIds
  runs : older.runs <+: newer.runs
  counts : ∀ id ∈ older.attemptedSessionIds, ∀ count, older.attemptCounts.get? id = some count →
    ∃ later, newer.attemptCounts.get? id = some later ∧ (count ≤ later ∨ ∃ run ∈ since, run.Moved host id)

theorem IndexHolds.refl (index : TerminalIndex) : IndexHolds [] index index where
  sessions _ entry found verified := ⟨entry, found, verified, .inl rfl⟩
  attempts _ attempt found := ⟨attempt, found, .inl rfl, fun _ => le_rfl⟩

theorem LedgerHolds.refl (ledger : Ledger) : LedgerHolds host [] ledger ledger where
  processed _ member := member
  attempted _ member := member
  runs := List.prefix_rfl
  counts _ _ count found := ⟨count, found, .inl le_rfl⟩

/-! ### The condition -/

def Start.Legible (host : Host) (start : Start) : Prop :=
  ∀ row ∈ start.eligible host, row.sourceRevision = none →
    ∀ attempt, start.index.attempts.get? row.sessionId = some attempt → attempt.sourceRevision = none

/-- A session recorded once more under the revision of an attempt stored earlier was at that revision all the while:
its last attempt was recorded under it, and the run read its rows so. -/
def Continues (host : Host) (start : Start) (batch : Batch) (index : TerminalIndex) : Prop :=
  ∀ id ∈ batch.attemptedIds, ∀ pair, batch.outcomeOf id = some pair →
    ∀ earlier, index.attempts.get? id = some earlier → attemptRevision start id pair.2 = earlier.sourceRevision →
      (∃ attempt, start.index.attempts.get? id = some attempt ∧ attempt.sourceRevision = earlier.sourceRevision) ∧
        ∀ row ∈ start.eligible host, row.sessionId = id → row.sourceRevision = earlier.sourceRevision

namespace World

def Undisturbed (host : Host) (world : World) : Event → Prop
  | .storesLedger run _ => ∀ start sessions, world.runs[run]? = some (.repaired start sessions) →
      (world.ledgers start.call.day).current?.getD (.default start.call.day) = start.ledger ∧
        world.index.current?.getD .default = start.index ∧ start.Legible host
  | .storesIndex run => ∀ start sessions batch, world.runs[run]? = some (.storing start sessions batch) →
      ∀ version ∈ world.index.stored, Continues host start batch version.content
  | _ => True

end World

/-! ### One store -/

variable {start : Start} {id : String}

theorem Start.Moved.of_changed (legible : start.Legible host) (changed : start.Changed host id) :
    start.Moved host id := by
  obtain ⟨row, member, rfl, attempt, durable, differs⟩ := changed
  cases read : row.sourceRevision with
  | none =>
    rw [read] at differs
    exact absurd (legible row member read attempt durable) differs
  | some revision =>
    rw [read] at differs
    exact ⟨row, member, rfl, revision, read, attempt, durable, differs⟩

variable {batch : Batch}

theorem LedgerHolds.stored {since : List Start} {older : Ledger} (legible : start.Legible host)
    (holds : LedgerHolds host since older start.ledger) :
    LedgerHolds host (start :: since) older (storedLedger host start batch) where
  processed id member := mem_sortedSet.mpr (List.mem_append_left _ (holds.processed id member))
  attempted id member := mem_sortedSet.mpr (List.mem_append_left _ (holds.attempted id member))
  runs := holds.runs.trans (List.prefix_append _ _)
  counts := by
    intro id member count found
    have ⟨read, there, enough⟩ := holds.counts id member count found
    have ⟨begun, first, below⟩ := countsToday_of_attempted (holds.attempted id member) there
    have ⟨taken, second, grown⟩ := attemptCounts_grow host first
    have ⟨final, last, more⟩ := finalCounts_grow batch second
    refine ⟨final, last, ?_⟩
    rcases enough with enough | ⟨run, before, moved⟩
    · rcases grown with grown | changed
      · exact .inl (by omega)
      · exact .inr ⟨start, List.mem_cons_self .., .of_changed legible changed⟩
    · exact .inr ⟨run, List.mem_cons_of_mem _ before, moved⟩

theorem eligible_of_attempted (covered : World.covers host start batch = true)
    (attempted : id ∈ batch.attemptedIds) : ∃ row ∈ start.eligible host, row.sessionId = id := by
  obtain ⟨pair, there, rfl⟩ := List.mem_map.mp attempted
  have row : pair.1 ∈ batch.outcomes.map (·.1) := List.mem_map.mpr ⟨pair, (List.mem_filter.mp there).1, rfl⟩
  have selected : pair.1 ∈ start.selected host := (List.isPrefixOf_iff_prefix.mp covered).subset row
  refine ⟨pair.1, ?_, rfl⟩
  unfold Start.selected at selected
  split at selected
  · cases selected
  · split at selected
    · exact selected
    · exact List.mem_of_mem_take selected

theorem attempt_grows {pair : Row × Outcome} {attempt : AttemptEntry}
    (covered : World.covers host start batch = true) (attempted : id ∈ batch.attemptedIds)
    (durable : start.index.attempts.get? id = some attempt)
    (same : ∀ row ∈ start.eligible host, row.sessionId = id → row.sourceRevision = attempt.sourceRevision) :
    attempt.count ≤ (attemptEntry host start batch id pair.2).count := by
  have ⟨taken, first, below⟩ := attemptCounts_durable durable (eligible_of_attempted covered attempted) same
  have ⟨final, last, more⟩ := finalCounts_grow batch first
  unfold attemptEntry
  rw [last]
  exact below.trans more

theorem IndexHolds.stored {sessions : KeyMap String TerminalEntry} {since : List Start}
    {older : TerminalIndex} (kept : KeepsVerified start.index.sessions sessions) (covered : World.covers host start batch = true)
    (continues_ : Continues host start batch older) (holds : IndexHolds since older start.index) :
    IndexHolds (start :: since) older (storedIndex host start batch sessions) where
  sessions := by
    intro id entry found verified
    have ⟨read, there, readVerified, same⟩ := holds.sessions id entry found verified
    rcases @stored_session host start batch sessions id with before | ⟨pair, rfl, recorded⟩
    · refine ⟨read, before.trans (kept id read there readVerified), readVerified, ?_⟩
      rcases same with same | ⟨ours, run, member, byRun⟩
      · exact .inl same
      · exact .inr ⟨ours, run, List.mem_cons_of_mem _ member, byRun⟩
    · exact ⟨_, recorded, rfl, .inr ⟨rfl, start, List.mem_cons_self .., rfl⟩⟩
  attempts := by
    intro id attempt found
    have ⟨read, there, same, more⟩ := holds.attempts id attempt found
    by_cases attempted : id ∈ batch.attemptedIds
    · obtain ⟨pair, outcome⟩ := Batch.outcomeOf_isSome attempted
      refine ⟨_, stored_attempt_of_mem outcome attempted, .inr ⟨rfl, start, List.mem_cons_self .., rfl⟩, ?_⟩
      intro again
      have ⟨⟨last, durable, under⟩, rows⟩ := continues_ id attempted pair outcome attempt found again
      have here : last = read := Option.some.inj (durable.symm.trans there)
      subst here
      exact (more under).trans (attempt_grows covered attempted durable fun row member ours => (rows row member ours).trans under.symm)
    · refine ⟨read, (stored_attempt_of_notMem attempted).trans there, ?_, more⟩
      rcases same with same | ⟨ours, run, member, byRun⟩
      · exact .inl same
      · exact .inr ⟨ours, run, List.mem_cons_of_mem _ member, byRun⟩

/-! ### Runs -/

def Phase.holdsLock : Phase → Bool
  | .locked _ | .repaired .. | .storing .. | .stored _ => true
  | _ => false

/-- What a phase says of the copies of its run, and of the index while the run has only its ledger stored. -/
def Phase.Sound (host : Host) (index : File Start TerminalIndex) : Phase → Prop
  | .repaired start sessions => KeepsVerified start.index.sessions sessions
  | .storing start sessions batch =>
    KeepsVerified start.index.sessions sessions ∧ World.covers host start batch = true ∧ index.current?.getD .default = start.index
  | _ => True

/-- Every stored version holds the earlier ones. The lock stands for the one run past it. -/
structure World.Recorded (host : Host) (world : World) : Prop where
  index : Holding IndexHolds world.index.stored
  ledgers : ∀ day, Holding (LedgerHolds host) (world.ledgers day).stored
  held : ∀ (run : Nat) (phase : Phase), world.runs[run]? = some phase → phase.holdsLock = true → world.lock = some run
  sound : ∀ (run : Nat) (phase : Phase), world.runs[run]? = some phase → phase.Sound host world.index

namespace World

variable {world : World}

theorem put_cases {run other : Nat} {next phase : Phase} (there : (world.put run next).runs[other]? = some phase) :
    other = run ∧ phase = next ∨ other ≠ run ∧ world.runs[other]? = some phase := by
  change (world.runs.set run next)[other]? = some phase at there
  rw [List.getElem?_set] at there
  split at there
  · next same =>
    split at there
    · exact .inl ⟨same.symm, (Option.some.inj there).symm⟩
    · cases there
  · next differs => exact .inr ⟨Ne.symm differs, there⟩

theorem Recorded.put {world : World} (recorded : world.Recorded host) (run : Nat) {next : Phase} (free : next.holdsLock = false)
    (sound : next.Sound host world.index) : (world.put run next).Recorded host where
  index := recorded.index
  ledgers := recorded.ledgers
  held := by
    intro other phase there holds
    rcases put_cases there with ⟨_, rfl⟩ | ⟨_, before⟩
    · rw [free] at holds
      cases holds
    · exact recorded.held other phase before holds
  sound := by
    intro other phase there
    rcases put_cases there with ⟨_, rfl⟩ | ⟨_, before⟩
    · exact sound
    · exact recorded.sound other phase before

theorem Recorded.hold {world : World} (recorded : world.Recorded host) {run : Nat} {phase next : Phase}
    (there : world.runs[run]? = some phase) (holds : phase.holdsLock = true) (sound : next.Sound host world.index) :
    (world.put run next).Recorded host where
  index := recorded.index
  ledgers := recorded.ledgers
  held := by
    intro other phase' after holds'
    rcases put_cases after with ⟨rfl, _⟩ | ⟨_, before⟩
    · exact recorded.held other phase there holds
    · exact recorded.held other phase' before holds'
  sound := by
    intro other phase' after
    rcases put_cases after with ⟨_, rfl⟩ | ⟨_, before⟩
    · exact sound
    · exact recorded.sound other phase' before

theorem Recorded.free (recorded : world.Recorded host) (unlocked : world.lock = none) {run : Nat} {phase : Phase}
    (there : world.runs[run]? = some phase) : phase.holdsLock = false := by
  by_contra holds
  rw [Bool.not_eq_false] at holds
  have held := recorded.held run phase there holds
  rw [unlocked] at held
  cases held

theorem recorded_step {next : World} {event : Event} (recorded : world.Recorded host) (stepped : Step host world event next)
    (undisturbed : world.Undisturbed host event) : next.Recorded host := by
  cases event with
  | calls call =>
    cases stepped
    have added : ∀ (run : Nat) (phase : Phase), (world.runs ++ [if call.batchSize = some 0 then .ended else .called call])[run]? = some phase →
        world.runs[run]? = some phase ∨ phase.holdsLock = false ∧ phase.Sound host world.index := by
      intro run phase there
      rw [List.getElem?_append] at there
      split at there
      · exact .inl there
      · have member := List.mem_singleton.mp (List.mem_of_getElem? there)
        subst member
        split
        · exact .inr ⟨rfl, trivial⟩
        · exact .inr ⟨rfl, trivial⟩
    constructor
    · exact recorded.index
    · exact recorded.ledgers
    · intro run phase there holds
      rcases added run phase there with before | ⟨free, _⟩
      · exact recorded.held run phase before holds
      · rw [free] at holds
        cases holds
    · intro run phase there
      rcases added run phase there with before | ⟨_, sound⟩
      · exact recorded.sound run phase before
      · exact sound
  | readsLedger run failed =>
    simp only [Step, step] at stepped
    split at stepped
    · cases stepped
      exact recorded.put run rfl trivial
    · cases stepped
  | readsIndex run failed =>
    simp only [Step, step] at stepped
    split at stepped
    · cases stepped
      apply recorded.put run
      · split <;> rfl
      · split <;> trivial
    · cases stepped
  | locks run =>
    simp only [Step, step] at stepped
    split at stepped
    · next start there =>
      split at stepped
      · cases stepped
        exact recorded.put run rfl trivial
      · next unlocked =>
        cases stepped
        constructor
        · exact recorded.index
        · exact recorded.ledgers
        · intro other phase after holds
          rcases put_cases after with ⟨rfl, _⟩ | ⟨_, before⟩
          · rfl
          · rw [recorded.free unlocked before] at holds
            cases holds
        · intro other phase after
          rcases put_cases after with ⟨_, rfl⟩ | ⟨_, before⟩
          · trivial
          · exact recorded.sound other phase before
    · cases stepped
  | repairs run repair =>
    simp only [Step, step] at stepped
    split at stepped
    · next start there =>
      cases stepped
      exact recorded.hold there rfl keepsVerified_repair
    · cases stepped
  | storesLedger run batch =>
    simp only [Step, step] at stepped
    split at stepped
    · next start sessions there =>
      split at stepped
      · next covered =>
        cases stepped
        have ⟨sameLedger, sameIndex, legible⟩ := undisturbed start sessions there
        have kept : KeepsVerified start.index.sessions sessions := recorded.sound run _ there
        have held := @Recorded.hold host world recorded run _ (.storing start sessions batch) there rfl ⟨kept, covered, sameIndex⟩
        constructor
        · exact recorded.index
        · intro day
          change Holding (LedgerHolds host) (Function.update world.ledgers start.call.day _ day).stored
          rw [Function.update_apply]
          split
          · apply (recorded.ledgers start.call.day).store LedgerHolds.refl
            intro newest current since old _ holds
            rw [current] at sameLedger
            exact LedgerHolds.stored legible (sameLedger ▸ holds)
          · exact recorded.ledgers day
        · exact held.held
        · exact held.sound
      · cases stepped
    · cases stepped
  | storesIndex run =>
    simp only [Step, step] at stepped
    split at stepped
    · next start sessions batch there =>
      cases stepped
      have ⟨kept, covered, same⟩ : Phase.Sound host world.index (.storing start sessions batch) := recorded.sound run _ there
      constructor
      · apply recorded.index.store IndexHolds.refl
        intro newest current since old member holds
        rw [current] at same
        exact IndexHolds.stored kept covered (undisturbed start sessions batch there old member) (same ▸ holds)
      · exact recorded.ledgers
      · exact (@Recorded.hold host world recorded run _ (.stored start) there rfl trivial).held
      · intro other phase after
        rcases put_cases after with ⟨_, rfl⟩ | ⟨differs, before⟩
        · trivial
        · -- another run that stores would hold the lock too
          have ours := recorded.held run _ there rfl
          have sound := recorded.sound other phase before
          cases phase with
          | storing =>
            have theirs := recorded.held other _ before rfl
            exact absurd (Option.some.inj (theirs.symm.trans ours)) differs
          | repaired => exact sound
          | _ => trivial
    · cases stepped
  | releases run =>
    simp only [Step, step] at stepped
    split at stepped
    · next ours =>
      cases stepped
      constructor
      · exact recorded.index
      · exact recorded.ledgers
      · intro other phase after holds
        rcases put_cases after with ⟨_, rfl⟩ | ⟨differs, before⟩
        · cases holds
        · have theirs := recorded.held other phase before holds
          exact absurd (Option.some.inj (theirs.symm.trans ours)) differs
      · exact (@Recorded.put host world recorded run .ended rfl trivial).sound
    · cases stepped

theorem recorded_initial (index : Option TerminalIndex) (ledgers : String → Option Ledger) : (initial index ledgers).Recorded host where
  index := trivial
  ledgers _ := trivial
  held _ _ there _ := by cases there
  sound _ _ there := by cases there

end World

/-- Where every run that stores finds in the files what it has read, every version stored later holds what runs
have recorded: the verified entries and the attempts of the terminal index, and the records of the day's ledger. -/
theorem results_recorded {index : Option TerminalIndex} {ledgers : String → Option Ledger} {events : List Event} {world : World}
    (run : Exec (Restrict (World.Step host) (World.Undisturbed host)) (World.initial index ledgers) events world) :
    Holding IndexHolds world.index.stored ∧ ∀ day, Holding (LedgerHolds host) (world.ledgers day).stored := by
  have recorded := run.invariant (World.Recorded host)
    (fun _ _ _ recorded stepped => World.recorded_step recorded stepped.1 stepped.2) (World.recorded_initial index ledgers)
  exact ⟨recorded.index, recorded.ledgers⟩

/-! ### Two runs of one day -/

def sampleHost : Host := ⟨fun _ => true, some⟩

def sampleRow (session : String) : Row where
  sessionId := session
  sourcePath := "/archive"
  cwd := "/work/app"
  projectRoot := some "/work/app"
  projectName := some "app"
  updatedAt := "2026-01-01"
  status := .eligible
  sourceRevision := some "r1"

def sampleCall (runId session : String) : Call where
  runId
  day := "2026-01-02"
  now := "2026-01-02T03:04:05+00:00"
  root := "/work/app"
  enabled := true
  order := .recentFirst
  projectScope := .current
  unresolvedProject := .defer
  batchSize := none
  repairOnly := false
  sessions := [sampleRow session]

def sampleBatch (session : String) : Batch where
  outcomes := [(sampleRow session, ⟨true, "completed", none, some "r1", some "/work/app", some "job", true⟩)]
  verifiedAt := "2026-01-02T03:10:00+00:00"

def sampleReads (run : Nat) (session : String) : List Event :=
  [.calls (sampleCall session session), .readsLedger run false, .readsIndex run false]

def sampleStores (run : Nat) (session : String) : List Event :=
  [.locks run, .repairs run ⟨[], [], ""⟩, .storesLedger run (sampleBatch session), .storesIndex run, .releases run]

/-- One run after the other. -/
theorem results_recorded_sample : ∃ world,
    Exec (Restrict (World.Step sampleHost) (World.Undisturbed sampleHost)) (World.initial none fun _ => none)
      (sampleReads 0 "a" ++ sampleStores 0 "a" ++ (sampleReads 1 "b" ++ sampleStores 1 "b")) world ∧
    world.index.stored.length = 2 ∧ Holding IndexHolds world.index.stored ∧
      ∀ day, Holding (LedgerHolds sampleHost) (world.ledgers day).stored := by
  have run : ∃ world, Exec (Restrict (World.Step sampleHost) (World.Undisturbed sampleHost)) (World.initial none fun _ => none)
      (sampleReads 0 "a" ++ sampleStores 0 "a" ++ (sampleReads 1 "b" ++ sampleStores 1 "b")) world ∧
      world.index.stored.length = 2 := by
    refine ⟨_, .cons ⟨rfl, trivial⟩ <| .cons ⟨rfl, trivial⟩ <| .cons ⟨rfl, trivial⟩ <| .cons ⟨rfl, trivial⟩ <|
      .cons ⟨rfl, trivial⟩ <| .cons ⟨rfl, ?_⟩ <| .cons ⟨rfl, ?_⟩ <| .cons ⟨rfl, trivial⟩ <| .cons ⟨rfl, trivial⟩ <|
      .cons ⟨rfl, trivial⟩ <| .cons ⟨rfl, trivial⟩ <| .cons ⟨rfl, trivial⟩ <| .cons ⟨rfl, trivial⟩ <|
      .cons ⟨rfl, ?_⟩ <| .cons ⟨rfl, ?_⟩ <| .cons ⟨rfl, trivial⟩ <| .nil _, rfl⟩
    · intro start sessions there
      cases there
      exact ⟨rfl, rfl, fun _ _ _ _ found => nomatch found⟩
    · intro start sessions batch there version stored
      cases stored
    · intro start sessions there
      cases there
      refine ⟨rfl, rfl, ?_⟩
      intro row member unread
      cases List.mem_singleton.mp (show row ∈ [sampleRow "b"] from member)
      cases unread
    · intro start sessions batch there version stored
      cases there
      cases List.mem_singleton.mp stored
      intro id attempted pair _ earlier found
      cases List.mem_singleton.mp attempted
      have absent : (none : Option AttemptEntry) = some earlier := found
      cases absent
  obtain ⟨world, run, two⟩ := run
  exact ⟨world, run, two, results_recorded run⟩

/-- Both read before the first has the lock: the second stores over it. -/
theorem results_lost : ¬ ∀ (host : Host) (index : Option TerminalIndex) (ledgers : String → Option Ledger) (events : List Event)
    (world : World), Exec (World.Step host) (World.initial index ledgers) events world →
      Holding IndexHolds world.index.stored ∧ ∀ day, Holding (LedgerHolds host) (world.ledgers day).stored := by
  intro all
  let events := sampleReads 0 "a" ++ sampleReads 1 "b" ++ (sampleStores 0 "a" ++ sampleStores 1 "b")
  -- the entry of the first session in the two versions of the index, the newest first
  let entries := fun world : World => world.index.stored.map fun version =>
    (version.content.sessions.get? "a").map (·.disposition)
  have ran : (World.after sampleHost (World.initial none fun _ => none) events).map entries = some [none, some .verifiedCompleted] := by
    decide +kernel
  obtain ⟨world, reached, found⟩ := Option.map_eq_some_iff.mp ran
  have ⟨held, _⟩ := all sampleHost none (fun _ => none) events world (World.exec_of_after reached)
  obtain ⟨newest, rest, stored, lost, found⟩ := List.map_eq_cons_iff.mp found
  obtain ⟨older, rest, rfl, kept, found⟩ := List.map_eq_cons_iff.mp found
  cases List.map_eq_nil_iff.mp found
  rw [stored] at held
  obtain ⟨entry, there, verified⟩ := Option.map_eq_some_iff.mp kept
  have ⟨later, here, _⟩ := (held.1 [] older [] rfl).sessions "a" entry there verified
  rw [here] at lost
  cases lost

end HarnessMem.ArchiveDistill
