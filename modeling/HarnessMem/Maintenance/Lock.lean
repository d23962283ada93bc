import HarnessMem.Library.Execution
import HarnessMem.Library.Text
import HarnessMem.Schemas.Values
import Mathlib.Data.List.Sort
import Mathlib.Data.String.Basic
import Mathlib.Logic.Function.Basic

/-! The lock file of maintenance runs: what is at its path, and the processes that enter and leave
a run or ask whether one is on, one file-system operation at a time.
-/

set_option autoImplicit false

namespace HarnessMem.Maintenance

open Library

/-! ### The file -/

/-- `suppress_until` of a lock: absent or not a text, no instant, an instant without a zone, an instant. -/
inductive Suppression where
  | absent
  | malformed
  | naive
  | until (time : Time)
  deriving DecidableEq

structure LockPayload where
  /-- `int(payload["pid"])`, where it is a number. -/
  pid : Option Nat
  suppression : Suppression
  ownerSessionIds : List String
  deriving DecidableEq

/-- What a file holds: bytes that are no text, a text that is no filled JSON object, a payload. -/
inductive Content where
  | undecodable
  | unreadable
  | payload (payload : LockPayload)
  deriving DecidableEq

structure LockFile where
  inode : Nat
  content : Content
  deriving DecidableEq

/-- `maintenance_lock_path`: the file there, and how many files have been made. -/
structure LockPath where
  file : Option LockFile
  inodes : Nat
  numbered : ∀ lock ∈ file, lock.inode < inodes
  deriving DecidableEq

namespace LockPath

/-- `os.open` with `O_CREAT | O_EXCL`: the number of the new file, which is empty. -/
def create (path : LockPath) : Option (Nat × LockPath) :=
  match path.file with
  | none => some (path.inodes, ⟨some ⟨path.inodes, .unreadable⟩, path.inodes + 1, by simp⟩)
  | some _ => none

/-- `os.write` to the descriptor of a file, which may no longer be at the path. -/
def write (path : LockPath) (inode : Nat) (content : Content) : LockPath where
  file := path.file.map fun lock => if lock.inode = inode then { lock with content } else lock
  inodes := path.inodes
  numbered lock inside := by
    obtain ⟨old, member, rfl⟩ := Option.mem_map.mp inside
    have bound := path.numbered old member
    split <;> exact bound

/-- `path.write_text`: the file at the path gets the text, whichever it is. -/
def writeText (path : LockPath) (content : Content) : LockPath :=
  match shape : path.file with
  | some lock => ⟨some { lock with content }, path.inodes, by
      rintro _ ⟨⟩
      exact path.numbered lock shape⟩
  | none => ⟨some ⟨path.inodes, content⟩, path.inodes + 1, by simp⟩

/-- `_remove_lock`. -/
def remove (path : LockPath) : LockPath := ⟨none, path.inodes, nofun⟩

end LockPath

/-! ### The calls -/

/-- The arguments of `exclusive_maintenance_run` that its lock depends on. -/
structure RunOptions where
  ownerSessionIds : List String
  postRunSuppressionSeconds : Int := 300

def ownerSessionIds (values : List String) : List String :=
  ((values.map stripped).filter (· ≠ "")).eraseDups.insertionSort (· ≤ ·)

structure Run where
  inode : Nat
  options : RunOptions

/-- Where `_open_lock` and the writing of its lock stand. What the removal is based on, the file
`found` when it was read, is not kept by the source. -/
inductive EnterPhase where
  | create
  | read
  | owner
  | probe (pid found : Nat)
  | unlink (found : Nat)
  | recreate
  | write (inode : Nat)

/-- Where `maintenance_is_locked` stands. -/
inductive ObservePhase where
  | read
  | owner
  | probe (pid found : Nat)
  | unlink (found : Nat)

inductive Call where
  | entering (options : RunOptions) (phase : EnterPhase)
  | observing (triggerId : Option String) (phase : ObservePhase)
  | releasing (run : Run)

inductive Reply where
  | entered
  | fileExists
  | locked (answer : Bool)
  | left
  | raised
  deriving DecidableEq

/-- A process that is alive: the runs it is inside, the innermost first, the call it is in, and
what its last call came to. -/
structure Process where
  pid : Nat
  runs : List Run
  call : Option Call
  reply : Option Reply

namespace Process

def goesOn (process : Process) (call : Call) : Process := { process with call := some call }

def ends (process : Process) (reply : Reply) : Process := { process with call := none, reply := some reply }

end Process

/-- `os.kill(pid, 0)`: somebody answers, or `ProcessLookupError`, or another exception. -/
inductive Probe where
  | alive
  | gone
  | raised
  deriving DecidableEq

/-- What is outside a process: its clock, the answer to a probe, and whether a write succeeds. -/
structure Choice where
  now : Time := 0
  probe : Probe := .alive
  writes : Bool := true

/-- The reading of `_owner_is_alive`: the process to probe, unless the owner counts as alive. -/
def LockPath.probed (path : LockPath) (own : Nat) : Option (Nat × Nat) :=
  match path.file with
  | some ⟨inode, .payload payload⟩ => payload.pid.bind fun pid => if pid = own then none else some (pid, inode)
  | _ => none

def LockPayload.run (pid : Nat) (options : RunOptions) : LockPayload :=
  ⟨some pid, .absent, Maintenance.ownerSessionIds options.ownerSessionIds⟩

def LockPayload.released (pid : Nat) (options : RunOptions) (now : Time) : LockPayload :=
  { LockPayload.run pid options with suppression := .until (now + seconds options.postRunSuppressionSeconds.toNat) }

namespace Process

/-- The next operation of a process that enters a run: `_open_lock`, then the write of the lock. -/
def stepEntering (path : LockPath) (choice : Choice) (process : Process) (options : RunOptions) :
    EnterPhase → LockPath × Process
  | .create =>
    match path.create with
    | some (inode, made) => (made, process.goesOn (.entering options (.write inode)))
    | none => (path, process.goesOn (.entering options .read))
  | .read =>
    match path.file with
    | some ⟨_, .undecodable⟩ => (path, process.ends .raised)
    | some ⟨inode, .payload payload⟩ =>
      if payload.suppression = .absent then (path, process.goesOn (.entering options .owner))
      else (path, process.goesOn (.entering options (.unlink inode)))
    | _ => (path, process.goesOn (.entering options .owner))
  | .owner =>
    match path.probed process.pid with
    | some (pid, inode) => (path, process.goesOn (.entering options (.probe pid inode)))
    | none => (path, process.ends .fileExists)
  | .probe _ found =>
    match choice.probe with
    | .alive => (path, process.ends .fileExists)
    | .gone => (path, process.goesOn (.entering options (.unlink found)))
    | .raised => (path, process.ends .raised)
  | .unlink _ => (path.remove, process.goesOn (.entering options .recreate))
  | .recreate =>
    match path.create with
    | some (inode, made) => (made, process.goesOn (.entering options (.write inode)))
    | none => (path, process.ends .fileExists)
  | .write inode =>
    if choice.writes then
      (path.write inode (.payload (.run process.pid options)),
        { process.ends .entered with runs := ⟨inode, options⟩ :: process.runs })
    else (path, process.goesOn (.releasing ⟨inode, options⟩))

/-- The next operation of `maintenance_is_locked`. -/
def stepObserving (path : LockPath) (choice : Choice) (process : Process) (triggerId : Option String) :
    ObservePhase → LockPath × Process
  | .read =>
    match path.file with
    | none => (path, process.ends (.locked false))
    | some ⟨_, .undecodable⟩ => (path, process.ends .raised)
    | some ⟨_, .unreadable⟩ => (path, process.ends (.locked true))
    | some ⟨inode, .payload payload⟩ =>
      match payload.suppression with
      | .absent => (path, process.goesOn (.observing triggerId .owner))
      | .malformed => (path, process.ends (.locked true))
      | .naive => (path, process.ends .raised)
      | .until time =>
        if time ≤ choice.now then (path, process.goesOn (.observing triggerId (.unlink inode)))
        else (path, process.ends (.locked (triggerId.any fun id => id ≠ "" ∧ id ∈ payload.ownerSessionIds)))
  | .owner =>
    match path.probed process.pid with
    | some (pid, inode) => (path, process.goesOn (.observing triggerId (.probe pid inode)))
    | none => (path, process.ends (.locked true))
  | .probe _ found =>
    match choice.probe with
    | .alive => (path, process.ends (.locked true))
    | .gone => (path, process.goesOn (.observing triggerId (.unlink found)))
    | .raised => (path, process.ends .raised)
  | .unlink _ => (path.remove, process.ends (.locked false))

/-- The `finally` of a run. -/
def stepReleasing (path : LockPath) (choice : Choice) (process : Process) (run : Run) : LockPath × Process :=
  if ownerSessionIds run.options.ownerSessionIds ≠ [] ∧ 0 < run.options.postRunSuppressionSeconds then
    (path.writeText (.payload (.released process.pid run.options choice.now)), process.ends .left)
  else (path.remove, process.ends .left)

def step (path : LockPath) (choice : Choice) (process : Process) : Option (LockPath × Process) :=
  process.call.map fun
    | .entering options phase => process.stepEntering path choice options phase
    | .observing triggerId phase => process.stepObserving path choice triggerId phase
    | .releasing run => process.stepReleasing path choice run

def probing? (process : Process) : Option (Nat × Nat) :=
  match process.call with
  | some (.entering _ (.probe pid found)) | some (.observing _ (.probe pid found)) => some (pid, found)
  | _ => none

end Process

/-! ### Runs -/

structure World where
  path : LockPath
  processes : Nat → Option Process

inductive Event where
  | spawn (number pid : Nat)
  | die (number : Nat)
  | enter (number : Nat) (options : RunOptions)
  | observe (number : Nat) (triggerId : Option String)
  | leave (number : Nat)
  | act (number : Nat) (choice : Choice)

namespace World

def put (world : World) (number : Nat) (process : Option Process) : World :=
  { world with processes := Function.update world.processes number process }

def Alive (world : World) (pid : Nat) : Prop := ∃ number process, world.processes number = some process ∧ process.pid = pid

end World

/-- One event after another. Of a process that is alive the system never says that it is gone. -/
inductive Step : World → Event → World → Prop where
  | spawn {world : World} {number pid : Nat} : world.processes number = none → ¬ world.Alive pid →
      Step world (.spawn number pid) (world.put number (some ⟨pid, [], none, none⟩))
  | die {world : World} {number : Nat} : Step world (.die number) (world.put number none)
  | enter {world : World} {number : Nat} {process : Process} {options : RunOptions} :
      world.processes number = some process → process.call = none →
      Step world (.enter number options) (world.put number (some (process.goesOn (.entering options .create))))
  | observe {world : World} {number : Nat} {process : Process} {triggerId : Option String} :
      world.processes number = some process → process.call = none →
      Step world (.observe number triggerId) (world.put number (some (process.goesOn (.observing triggerId .read))))
  | leave {world : World} {number : Nat} {process : Process} {run : Run} {others : List Run} :
      world.processes number = some process → process.call = none → process.runs = run :: others →
      Step world (.leave number) (world.put number (some { process.goesOn (.releasing run) with runs := others }))
  | act {world : World} {number : Nat} {process next : Process} {choice : Choice} {path : LockPath} :
      world.processes number = some process →
      (∀ pid found, process.probing? = some (pid, found) → world.Alive pid → choice.probe ≠ .gone) →
      process.step world.path choice = some (path, next) →
      Step world (.act number choice) { world.put number (some next) with path }

end HarnessMem.Maintenance
