import HarnessMem.Library.Execution
import HarnessMem.Library.Histories
import HarnessMem.Library.KeyMap
import HarnessMem.Library.Text
import Mathlib.Data.String.Basic
import Mathlib.Logic.Function.Basic

/-! The terminal index and the day's ledger of the archive runs, and what a run works out
from the copies it has read before it takes the maintenance lock.
-/

set_option autoImplicit false

namespace HarnessMem.ArchiveDistill

open Library

/-! ### The files -/

inductive Disposition where
  | verifiedCompleted
  | quarantined
  | other (text : String)
  deriving DecidableEq

inductive RepairKind where
  | completedReceiptReverification
  | completedJobAfterDeferredReceipt
  deriving DecidableEq

/-- An entry under `sessions` of the terminal index. -/
structure TerminalEntry where
  sessionId : String
  sourceRevision : Option String
  projectName : Option String
  projectRoot : Option String
  distillJobId : Option String
  disposition : Disposition
  verifiedAt : String
  runId : Option String
  /-- Present beside `repaired_from_partial_receipt`. -/
  repairKind : Option RepairKind := none
  deriving DecidableEq

/-- An entry under `attempts` of the terminal index. -/
structure AttemptEntry where
  sessionId : String
  sourceRevision : Option String
  count : Nat
  lastStatus : String
  lastReason : Option String
  lastRunId : String
  updatedAt : String
  deriving DecidableEq

structure InventoryDisposition where
  sessionId : String
  disposition : String
  reason : String
  cwd : String
  sourcePath : String
  observedAt : String
  deriving DecidableEq

structure TerminalIndex where
  sessions : KeyMap String TerminalEntry
  attempts : KeyMap String AttemptEntry
  inventoryDispositions : KeyMap String InventoryDisposition
  deriving DecidableEq

/-- An entry under `runs` of a ledger. -/
structure RunRecord where
  runId : String
  at_ : String
  selected : List String
  verified : List String
  deriving DecidableEq

structure Ledger where
  day : String
  processedSessionIds : List String
  attemptedSessionIds : List String
  attemptCounts : KeyMap String Nat
  retryableSessionIds : List String
  runs : List RunRecord
  deriving DecidableEq

/-- `_read_terminal_index` where there is nothing it can read. -/
def TerminalIndex.default : TerminalIndex := ⟨.empty, .empty, .empty⟩

/-- `_read_ledger` where there is nothing it can read. -/
def Ledger.default (day : String) : Ledger := ⟨day, [], [], .empty, [], []⟩

/-! ### One call -/

inductive RowStatus where
  | eligible
  | unresolvedProject
  | outsideCurrentProject
  deriving DecidableEq

def RowStatus.text : RowStatus → String
  | .eligible => "eligible"
  | .unresolvedProject => "unresolved_project"
  | .outsideCurrentProject => "outside_current_project"

/-- A row of the inventory, with what `_row_source_revision` makes of its file: nothing on an `OSError`. -/
structure Row where
  sessionId : String
  sourcePath : String
  cwd : String
  projectRoot : Option String
  projectName : Option String
  updatedAt : String
  status : RowStatus
  sourceRevision : Option String
  deriving DecidableEq

inductive Order where
  | recentFirst
  | oldestFirst
  deriving DecidableEq

inductive ProjectScope where
  | detected
  | current
  | all
  deriving DecidableEq

inductive UnresolvedProject where
  | defer
  | skip
  | error
  deriving DecidableEq

/-- The paths of the host: whether one is absolute once its home is expanded, and what it resolves to. -/
structure Host where
  isAbsolute : String → Bool
  resolve : String → Option String

/-- A call with `apply = true`, and the inventory it finds. -/
structure Call where
  runId : String
  day : String
  now : String
  root : String
  enabled : Bool
  order : Order
  projectScope : ProjectScope
  unresolvedProject : UnresolvedProject
  batchSize : Option Nat
  repairOnly : Bool
  sessions : List Row
  deriving DecidableEq

namespace Call

variable (call : Call)

def precedes (first second : Row) : Prop :=
  first.updatedAt < second.updatedAt ∨ first.updatedAt = second.updatedAt ∧ first.sessionId ≤ second.sessionId

instance : DecidableRel precedes := fun _ _ => inferInstanceAs (Decidable (_ ∨ _))

/-- `inventory["eligible_sessions"]`. -/
def eligibleSessions : List Row :=
  let eligible := call.sessions.filter (·.status = .eligible)
  match call.order with
  | .oldestFirst => eligible.insertionSort precedes
  | .recentFirst => eligible.insertionSort fun first second => precedes second first

def inventoryDispositions : KeyMap String InventoryDisposition :=
  .ofEntries <| (call.sessions.filter (·.status ≠ .eligible)).map fun row => (row.sessionId,
    { sessionId := row.sessionId
      disposition := if row.status = .unresolvedProject then "deferred_unresolved" else "excluded"
      reason := row.status.text
      cwd := row.cwd
      sourcePath := row.sourcePath
      observedAt := call.now })

/-- `current_source_revisions`: the last row of a session decides. -/
def currentSourceRevisions : KeyMap String (Option String) :=
  .ofEntries <| call.eligibleSessions.map fun row => (row.sessionId, row.sourceRevision)

def unresolved : Nat := call.sessions.countP (·.status = .unresolvedProject)

def proceeds : Bool := call.enabled && !(call.unresolved ≠ 0 && call.unresolvedProject = .error)

def allowedProjectRoot : Option String := if call.projectScope = .current then some call.root else none

end Call

/-! ### What a run holds before the lock -/

def terminalEntryMatches (row : Row) (entry : TerminalEntry) : Bool :=
  entry.sourceRevision = row.sourceRevision && entry.projectName = row.projectName

/-- `not text.strip()`. -/
def isBlank (text : String) : Bool := stripped text = ""

def terminalEntryInProject (host : Host) (root : String) (entry : TerminalEntry) : Bool :=
  match entry.projectRoot with
  | none => false
  | some raw => !isBlank raw && (host.isAbsolute raw && host.resolve raw = some root)

structure Start where
  call : Call
  ledger : Ledger
  index : TerminalIndex
  deriving DecidableEq

namespace Start

variable (host : Host) (start : Start)

def settled (row : Row) : Bool :=
  match start.index.sessions.get? row.sessionId with
  | none => false
  | some entry =>
    (start.call.projectScope ≠ .current || terminalEntryInProject host start.call.root entry) && terminalEntryMatches row entry

def eligible : List Row := start.call.eligibleSessions.filter fun row => !start.settled host row

def countsToday : KeyMap String Nat :=
  .ofEntries <| start.ledger.attemptedSessionIds.map fun id => (id, max 1 ((start.ledger.attemptCounts.get? id).getD 1))

def countRow (counts : KeyMap String Nat) (row : Row) : KeyMap String Nat :=
  match start.index.attempts.get? row.sessionId with
  | none => counts
  | some attempt =>
    if attempt.sourceRevision = row.sourceRevision then
      counts.set row.sessionId (max ((counts.get? row.sessionId).getD 0) attempt.count)
    else counts.set row.sessionId 0

def attemptCounts : KeyMap String Nat := (start.eligible host).foldl start.countRow start.countsToday

def selected : List Row :=
  if start.call.repairOnly then []
  else match start.call.batchSize with
    | none => start.eligible host
    | some size => (start.eligible host).take size

end Start

/-! ### Repair -/

/-- An outcome of a partial receipt, or one made from a completed job; `passed` is the verdict of the run verifier. -/
structure CompletedOutcome where
  sessionId : String
  projectName : Option String
  projectRoot : Option String
  sourceRevision : Option String
  distillJobId : Option String
  completed : Bool
  passed : Bool
  deriving DecidableEq

structure Receipt where
  runId : Option String
  outcomes : List CompletedOutcome
  deriving DecidableEq

/-- A completed job of the ledger, with the times that order jobs. -/
structure CompletedJob where
  outcome : CompletedOutcome
  completedAt : Option Nat
  updatedAt : Nat
  deriving DecidableEq

namespace CompletedJob

def precedes (first second : CompletedJob) : Bool :=
  let ended := fun job : CompletedJob => job.completedAt.getD job.updatedAt
  ended first < ended second || (ended first = ended second && first.updatedAt < second.updatedAt)

/-- `max(jobs, key=...)`: the first of the greatest. -/
def latest : List CompletedJob → Option CompletedJob
  | [] => none
  | job :: jobs => some (jobs.foldl (fun best other => if best.precedes other then other else best) job)

end CompletedJob

structure Repair where
  receipts : List Receipt
  jobs : List CompletedJob
  verifiedAt : String
  deriving DecidableEq

section Repairing

variable (host : Host) (call : Call)

def inScope (outcome : CompletedOutcome) : Bool :=
  (match call.allowedProjectRoot with
    | none => true
    | some allowed =>
      !isBlank (outcome.projectRoot.getD "") && host.resolve (outcome.projectRoot.getD "") = some allowed) &&
  match (call.currentSourceRevisions.get? outcome.sessionId).join with
  | none => true
  | some revision => outcome.sourceRevision.getD "" = revision

/-- `_admit` on an outcome that has passed. -/
def admitted (verifiedAt : String) (runId : Option String) (kind : RepairKind) (outcome : CompletedOutcome) : TerminalEntry where
  sessionId := outcome.sessionId
  sourceRevision := outcome.sourceRevision
  projectName := outcome.projectName
  projectRoot := outcome.projectRoot
  distillJobId := outcome.distillJobId
  disposition := .verifiedCompleted
  verifiedAt
  runId
  repairKind := some kind

/-- The outcome of a receipt is pending where its session has no entry, or the quarantined one of the same job and revision. -/
def pendingOutcome (sessions : KeyMap String TerminalEntry) (outcome : CompletedOutcome) : Bool :=
  outcome.completed && inScope host call outcome &&
    match sessions.get? outcome.sessionId with
    | none => true
    | some prior => prior.disposition = .quarantined && prior.distillJobId = outcome.distillJobId
        && prior.sourceRevision = outcome.sourceRevision

def admitAll (verifiedAt : String) (runId : Option String) (kind : RepairKind) (sessions : KeyMap String TerminalEntry)
    (outcomes : List CompletedOutcome) : KeyMap String TerminalEntry :=
  (outcomes.filter (·.passed)).foldl
    (fun sessions outcome => sessions.set outcome.sessionId (admitted verifiedAt runId kind outcome)) sessions

def repairReceipt (verifiedAt : String) (sessions : KeyMap String TerminalEntry) (receipt : Receipt) : KeyMap String TerminalEntry :=
  admitAll verifiedAt receipt.runId .completedReceiptReverification sessions
    (receipt.outcomes.filter (pendingOutcome host call sessions))

def completedAfterDeferred (jobs : List CompletedJob) (id : String) (entry : TerminalEntry) : Option CompletedOutcome := do
  let job ← CompletedJob.latest <| jobs.filter fun job =>
    job.outcome.sessionId = id && job.outcome.sourceRevision = entry.sourceRevision
      && job.outcome.projectName = entry.projectName && job.outcome.projectRoot = entry.projectRoot
  if inScope host call job.outcome then some job.outcome else none

/-- `_repair_partial_completed_receipts`: what becomes of the copy of the terminal entries. -/
def repairPartialCompletedReceipts (repair : Repair) (sessions : KeyMap String TerminalEntry) : KeyMap String TerminalEntry :=
  let repaired := repair.receipts.foldl (repairReceipt host call repair.verifiedAt) sessions
  -- A session admitted above is no longer quarantined.
  let deferred := (repaired.entries.filter fun entry => entry.2.disposition = .quarantined).filterMap fun entry =>
    completedAfterDeferred host call repair.jobs entry.1 entry.2
  admitAll repair.verifiedAt none .completedJobAfterDeferredReceipt repaired deferred

end Repairing

/-! ### The batch -/

/-- How the batch ended for one selected row; `passed` is the verdict of the run verifier. -/
structure Outcome where
  attempted : Bool
  status : String
  reason : Option String
  sourceRevision : Option String
  projectRoot : Option String
  distillJobId : Option String
  passed : Bool
  deriving DecidableEq

namespace Outcome

def finalStatus (outcome : Outcome) : String :=
  if outcome.status = "completed" && !outcome.passed then "deferred" else outcome.status

def finalReason (outcome : Outcome) : Option String :=
  if outcome.status = "completed" && !outcome.passed then some "archive_completion_verification_failed" else outcome.reason

end Outcome

/-- The outcomes of a batch, each beside its row. A worker error of the whole system leaves the later rows out. -/
structure Batch where
  outcomes : List (Row × Outcome)
  verifiedAt : String
  deriving DecidableEq

namespace Batch

variable (batch : Batch)

def attemptedIds : List String := (batch.outcomes.filter (·.2.attempted)).map (·.1.sessionId)

def verifiedIds : List String := (batch.outcomes.filter (·.2.passed)).map (·.1.sessionId)

def retryableIds : List String := (batch.outcomes.filter fun pair => !pair.2.passed).map (·.1.sessionId)

/-- `outcomes_by_session`. -/
def outcomeOf (id : String) : Option (Row × Outcome) :=
  (KeyMap.ofEntries (batch.outcomes.map fun pair => (pair.1.sessionId, pair))).get? id

end Batch

section Storing

variable (host : Host) (start : Start) (batch : Batch)

def countAttempt (counts : KeyMap String Nat) (id : String) : KeyMap String Nat :=
  counts.set id ((counts.get? id).getD 0 + 1)

def finalCounts : KeyMap String Nat := batch.attemptedIds.foldl countAttempt (start.attemptCounts host)

def storedLedger : Ledger where
  day := start.call.day
  processedSessionIds := sortedSet (start.ledger.processedSessionIds ++ batch.verifiedIds)
  attemptedSessionIds := sortedSet (start.ledger.attemptedSessionIds ++ batch.attemptedIds)
  attemptCounts := finalCounts host start batch
  retryableSessionIds := sortedSet batch.retryableIds
  runs := start.ledger.runs ++ [{
    runId := start.call.runId
    at_ := start.call.now
    selected := batch.outcomes.map (·.1.sessionId)
    verified := sortedSet batch.verifiedIds }]

def verifiedEntry (pair : Row × Outcome) : TerminalEntry where
  sessionId := pair.1.sessionId
  sourceRevision := pair.2.sourceRevision
  projectName := pair.1.projectName
  projectRoot := pair.2.projectRoot
  distillJobId := pair.2.distillJobId
  disposition := .verifiedCompleted
  verifiedAt := batch.verifiedAt
  runId := some start.call.runId

def storeOutcome (sessions : KeyMap String TerminalEntry) (pair : Row × Outcome) : KeyMap String TerminalEntry :=
  if pair.1.sessionId ∈ batch.verifiedIds then sessions.set pair.1.sessionId (verifiedEntry start batch pair) else sessions

/-- The revision an attempt is recorded under: that of its outcome, or else the one the run has found at its start. -/
def attemptRevision (id : String) (outcome : Outcome) : Option String :=
  match outcome.sourceRevision.filter (· ≠ "") with
  | some revision => some revision
  | none => (start.call.currentSourceRevisions.get? id).join

def attemptEntry (id : String) (outcome : Outcome) : AttemptEntry where
  sessionId := id
  sourceRevision := attemptRevision start id outcome
  count := ((finalCounts host start batch).get? id).getD 0
  lastStatus := outcome.finalStatus
  lastReason := outcome.finalReason
  lastRunId := start.call.runId
  updatedAt := batch.verifiedAt

def storeAttempt (attempts : KeyMap String AttemptEntry) (id : String) : KeyMap String AttemptEntry :=
  match batch.outcomeOf id with
  | none => attempts
  | some pair => attempts.set id (attemptEntry host start batch id pair.2)

def storedIndex (sessions : KeyMap String TerminalEntry) : TerminalIndex where
  sessions := batch.outcomes.foldl (storeOutcome start batch) sessions
  attempts := batch.attemptedIds.foldl (storeAttempt host start batch) start.index.attempts
  inventoryDispositions := start.call.inventoryDispositions

end Storing

end HarnessMem.ArchiveDistill

/-! Runs of the archive batch that share a data directory. A step is one file read, one
atomic replacement, or one operation on the maintenance lock.
-/

namespace HarnessMem.ArchiveDistill

open Library

inductive Phase where
  | called (call : Call)
  | readLedger (call : Call) (ledger : Ledger)
  | prepared (start : Start)
  | locked (start : Start)
  | repaired (start : Start) (sessions : KeyMap String TerminalEntry)
  | storing (start : Start) (sessions : KeyMap String TerminalEntry) (batch : Batch)
  | stored (start : Start)
  | ended

structure World where
  index : File Start TerminalIndex
  ledgers : String → File Start Ledger
  lock : Option Nat
  runs : List Phase

def World.initial (index : Option TerminalIndex) (ledgers : String → Option Ledger) : World :=
  ⟨⟨index, []⟩, fun day => ⟨ledgers day, []⟩, none, []⟩

inductive Event where
  | calls (call : Call)
  | readsLedger (run : Nat) (failed : Bool)
  | readsIndex (run : Nat) (failed : Bool)
  | locks (run : Nat)
  | repairs (run : Nat) (repair : Repair)
  | storesLedger (run : Nat) (batch : Batch)
  | storesIndex (run : Nat)
  | releases (run : Nat)

namespace World

variable (host : Host) (world : World)

def put (run : Nat) (phase : Phase) : World := { world with runs := world.runs.set run phase }

def covers (start : Start) (batch : Batch) : Bool := (batch.outcomes.map (·.1)).isPrefixOf (start.selected host)

def step : Event → Option World
  | .calls call =>
    -- A batch size below one is refused before anything is read.
    some { world with runs := world.runs ++ [if call.batchSize = some 0 then .ended else .called call] }
  | .readsLedger run failed =>
    match world.runs[run]? with
    | some (.called call) =>
      let found := if failed then none else (world.ledgers call.day).current?
      some (world.put run (.readLedger call (found.getD (.default call.day))))
    | _ => none
  | .readsIndex run failed =>
    match world.runs[run]? with
    | some (.readLedger call ledger) =>
      let found := if failed then none else world.index.current?
      some (world.put run (if call.proceeds then .prepared ⟨call, ledger, found.getD .default⟩ else .ended))
    | _ => none
  | .locks run =>
    match world.runs[run]? with
    | some (.prepared start) =>
      match world.lock with
      | some _ => some (world.put run .ended)
      | none => some { world.put run (.locked start) with lock := some run }
    | _ => none
  | .repairs run repair =>
    match world.runs[run]? with
    | some (.locked start) =>
      some (world.put run (.repaired start (repairPartialCompletedReceipts host start.call repair start.index.sessions)))
    | _ => none
  | .storesLedger run batch =>
    match world.runs[run]? with
    | some (.repaired start sessions) =>
      if covers host start batch then
        let day := start.call.day
        some { world.put run (.storing start sessions batch) with
          ledgers := Function.update world.ledgers day ((world.ledgers day).store start (storedLedger host start batch)) }
      else none
    | _ => none
  | .storesIndex run =>
    match world.runs[run]? with
    | some (.storing start sessions batch) =>
      some { world.put run (.stored start) with index := world.index.store start (storedIndex host start batch sessions) }
    | _ => none
  | .releases run =>
    -- The end of the run, an exception on the way, or the end of its process.
    if world.lock = some run then some { world.put run .ended with lock := none } else none

def Step : World → Event → World → Prop := fun world event next => world.step host event = some next

end World

variable {host : Host}

def World.after (host : Host) : World → List Event → Option World
  | world, [] => some world
  | world, event :: events => (world.step host event).bind fun next => after host next events

theorem World.exec_of_after {world final : World} {events : List Event} (reached : after host world events = some final) :
    Exec (Step host) world events final := by
  induction events generalizing world with
  | nil =>
    cases reached
    exact .nil _
  | cons event events ih =>
    obtain ⟨next, stepped, rest⟩ := Option.bind_eq_some_iff.mp reached
    exact .cons stepped (ih rest)

end HarnessMem.ArchiveDistill
