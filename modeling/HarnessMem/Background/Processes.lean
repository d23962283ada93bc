import HarnessMem.Library.Execution
import HarnessMem.Library.Table
import HarnessMem.Schemas.Values

/-! Post-turn requests: their order, the session each one belongs to, and the choice of
the request a worker serves next.
-/

set_option autoImplicit false

namespace HarnessMem.Background

structure BackgroundRequest where
  generation : String
  projectRoot : String
  client : String
  source : String
  triggerId : Option String
  requestedAt : Time
  nativeTranscriptPath : Option String := none
  deriving DecidableEq

/-- What is written between the stem and the ending of the name of a pending file. -/
inductive PendingName where
  | identity (digest : String)
  | legacy (uuid : String)
  deriving DecidableEq

/-- `_pending_path`. -/
def pendingName (hashes : Hashes) (generation : String) : PendingName := .identity (hashes.sha256Text generation)

theorem pendingName_injective (hashes : Hashes) : Function.Injective (pendingName hashes) := by
  intro first second same
  exact hashes.sha256Text_injective (PendingName.identity.inj same)

abbrev Pending := PendingName × BackgroundRequest

namespace BackgroundRequest

/-- `_request_order(first) < _request_order(second)`. -/
def before (first second : BackgroundRequest) : Bool :=
  first.requestedAt < second.requestedAt ||
    (first.requestedAt = second.requestedAt && first.generation < second.generation)

/-- `_session_key`; the defaults of the adapters name no conversation. -/
def sessionKey (request : BackgroundRequest) : String × String :=
  match request.triggerId with
  | none => (request.source, request.generation)
  | some identity =>
    if identity = "" ∨ identity ∈ ["codex-stop", "antigravity-stop", "hermes-post-llm"] then
      (request.source, request.generation)
    else (request.source, identity)

end BackgroundRequest

/-- `min` or `max` by a strict order: the first of the best. -/
def best? (better : BackgroundRequest → BackgroundRequest → Bool) : List Pending → Option Pending
  | [] => none
  | first :: rest => some (rest.foldl (fun best item => if better item.2 best.2 then item else best) first)

def oldest? : List Pending → Option Pending := best? fun item best => item.before best

def latest? : List Pending → Option Pending := best? fun item best => best.before item

theorem best?_eq_none {better : BackgroundRequest → BackgroundRequest → Bool} {requests : List Pending} :
    best? better requests = none ↔ requests = [] := by
  cases requests <;> simp [best?]

theorem mem_of_best? {better : BackgroundRequest → BackgroundRequest → Bool} {requests : List Pending} {best : Pending}
    (found : best? better requests = some best) : best ∈ requests := by
  cases requests with
  | nil => cases found
  | cons first rest =>
    cases found
    induction rest generalizing first with
    | nil => exact List.mem_singleton_self _
    | cons item rest ih =>
      rw [List.foldl_cons]
      split
      · exact List.mem_cons_of_mem _ (ih item)
      · rcases List.mem_cons.mp (ih first) with same | later
        · rw [same]
          exact List.mem_cons_self
        · exact List.mem_cons_of_mem _ (List.mem_cons_of_mem _ later)

/-- `POST_TURN_IDLE_SECONDS`. -/
def postTurnIdle : Time := seconds 30

/-- When a load looks for requests that are ready, and what `background_request_cancelled` tells it. -/
structure Readiness where
  timestamp : Time
  cancelled : BackgroundRequest → Bool

def Readiness.eligible (readiness : Readiness) (requests : List Pending) (item : Pending) : Bool :=
  (latest? (requests.filter fun other => other.2.sessionKey = item.2.sessionKey)).any fun latest =>
    decide (latest.2.requestedAt + postTurnIdle ≤ readiness.timestamp) || readiness.cancelled latest.2

/-- `load_background_request` past its reads: the latest request of the session that waits longest, with
the files of that session. -/
def chooseRequest (readiness : Option Readiness) (requests : List Pending) : Option (BackgroundRequest × List Pending) :=
  let requests := match readiness with
    | none => requests
    | some readiness => requests.filter (readiness.eligible requests)
  match oldest? requests with
  | none => none
  | some oldest =>
    let selected := requests.filter fun item => item.2.sessionKey = oldest.2.sessionKey
    (latest? selected).map fun latest => (latest.2, selected)

theorem chooseRequest_eq_none {requests : List Pending} : chooseRequest none requests = none ↔ requests = [] := by
  unfold chooseRequest
  dsimp only
  cases found : oldest? requests with
  | none => simpa using best?_eq_none.mp found
  | some oldest =>
    have member : oldest ∈ requests := mem_of_best? found
    have filled : requests.filter (fun item => item.2.sessionKey = oldest.2.sessionKey) ≠ [] :=
      List.ne_nil_of_mem (List.mem_filter.mpr ⟨member, decide_eq_true rfl⟩)
    simp only [Option.map_eq_none_iff]
    constructor
    · intro nothing
      exact absurd (best?_eq_none.mp nothing) filled
    · rintro rfl
      cases member

theorem chosen_of_chooseRequest {readiness : Option Readiness} {requests selected : List Pending}
    {latest : BackgroundRequest} (chosen : chooseRequest readiness requests = some (latest, selected)) :
    ∀ item ∈ selected, item ∈ requests := by
  unfold chooseRequest at chosen
  dsimp only at chosen
  intro item member
  split at chosen
  · cases chosen
  · next oldest found =>
    obtain ⟨best, _, same⟩ := Option.map_eq_some_iff.mp chosen
    cases same
    have listed := (List.mem_filter.mp member).1
    cases readiness with
    | none => exact listed
    | some readiness => exact (List.mem_filter.mp listed).1

theorem filled_of_chooseRequest {readiness : Option Readiness} {requests selected : List Pending}
    {latest : BackgroundRequest} (chosen : chooseRequest readiness requests = some (latest, selected)) : selected ≠ [] := by
  unfold chooseRequest at chosen
  dsimp only at chosen
  split at chosen
  · cases chosen
  · obtain ⟨best, found, same⟩ := Option.map_eq_some_iff.mp chosen
    cases same
    exact List.ne_nil_of_mem (mem_of_best? found)

end HarnessMem.Background

/-! The processes that share the state directory of one project and client: hooks that
dispatch, the workers they spawn, and heartbeats. A step is one operation on a file.
-/

namespace HarnessMem.Background

open Library

/-! ### The lock file -/

/-- The lock file: which file it is, when it was last touched, and the generation written in it. -/
structure LockFile where
  inode : Nat
  mtime : Time
  generation : Option String := none
  deriving DecidableEq

/-- What stands under the name of the lock. Files made later have larger numbers. -/
structure LockSlot where
  file : Option LockFile
  inodes : Nat
  numbered : ∀ lock, file = some lock → lock.inode < inodes

namespace LockSlot

def empty : LockSlot := ⟨none, 0, nofun⟩

/-- `os.open` with `O_CREAT | O_EXCL`: the number of the new file. -/
def create (slot : LockSlot) (clock : Time) : Option (Nat × LockSlot) :=
  match slot.file with
  | some _ => none
  | none => some (slot.inodes, ⟨some ⟨slot.inodes, clock, none⟩, slot.inodes + 1, by rintro _ ⟨⟩; exact Nat.lt_succ_self _⟩)

def write (slot : LockSlot) (clock : Time) (inode : Nat) (generation : String) : LockSlot where
  file := slot.file.map fun lock => if lock.inode = inode then ⟨inode, clock, some generation⟩ else lock
  inodes := slot.inodes
  numbered := by
    intro lock written
    obtain ⟨old, found, rfl⟩ := Option.map_eq_some_iff.mp written
    have bound := slot.numbered old found
    split
    · next same => exact same ▸ bound
    · exact bound

/-- `unlink(missing_ok=True)`. -/
def remove (slot : LockSlot) : LockSlot := ⟨none, slot.inodes, nofun⟩

/-- `os.utime`. -/
def touch (slot : LockSlot) (mtime : Time) : LockSlot where
  file := slot.file.map fun lock => { lock with mtime }
  inodes := slot.inodes
  numbered := by
    intro lock touched
    obtain ⟨old, found, rfl⟩ := Option.map_eq_some_iff.mp touched
    exact slot.numbered old found

/-- `_lease_matches` in a process that was spawned with a lease. -/
def leaseMatches (slot : LockSlot) (lease : String) : Bool := slot.file.any fun lock => lock.generation = some lease

end LockSlot

/-- `_LOCK_STALE_SECONDS`. -/
def lockStale : Time := seconds 300

def LockFile.stale (lock : LockFile) (now : Time) : Bool := lock.mtime + lockStale < now

/-! ### Ensuring that a worker holds the lock -/

/-- Where `_acquire_lock` and the spawn after it stand. -/
inductive Phase where
  | create
  | stat
  | unlink (stale : Nat)
  | recreate
  | write (inode : Nat)
  | spawn (inode : Nat)
  deriving DecidableEq

/-- A spawned worker: the generation it was given as its lease, the lock file made for it, and
`_loaded_requests`, the paths with what was read there. -/
structure Worker where
  lease : String
  inode : Nat
  loaded : List (String × List Pending) := []
  deriving DecidableEq

inductive Ensured where
  | goesOn (phase : Phase)
  | ends
  | hands (worker : Worker)

/-- One operation of `_acquire_lock` or `_spawn_worker`; `spawns` is false where the spawn raises. -/
def Phase.step (slot : LockSlot) (clock now : Time) (generation : String) (spawns : Bool) : Phase → LockSlot × Ensured
  | .create =>
    match slot.create clock with
    | some (inode, slot) => (slot, .goesOn (.write inode))
    | none => (slot, .goesOn .stat)
  | .stat =>
    match slot.file with
    | none => (slot, .ends)
    | some lock => (slot, if lock.stale now then .goesOn (.unlink lock.inode) else .ends)
  | .unlink _ =>
    match slot.file with
    | none => (slot, .ends)
    | some _ => (slot.remove, .goesOn .recreate)
  | .recreate =>
    match slot.create clock with
    | some (inode, slot) => (slot, .goesOn (.write inode))
    | none => (slot, .ends)
  | .write inode => (slot.write clock inode generation, .goesOn (.spawn inode))
  | .spawn inode => if spawns then (slot, .hands ⟨generation, inode, []⟩) else (slot.remove, .ends)

/-! ### Pending files -/

/-- A pending file with what `_read_request` makes of its content. -/
structure PendingFile where
  name : PendingName
  request : Option BackgroundRequest

/-- The state directory: the lock, the files the pattern of pending requests matches, and the base slot. -/
structure Files where
  lock : LockSlot
  pending : Table PendingFile.name
  legacy : Option (Option BackgroundRequest)

namespace Files

/-- `_write_request`, whose temporary file no pattern matches. -/
def persist (files : Files) (hashes : Hashes) (request : BackgroundRequest) : Files :=
  { files with pending := files.pending.upsert ⟨pendingName hashes request.generation, some request⟩ }

def renameLegacy (files : Files) (uuid : String) : Files :=
  match files.legacy with
  | none => files
  | some content => { files with pending := files.pending.upsert ⟨.legacy uuid, content⟩, legacy := none }

def readRequest (files : Files) (name : PendingName) : Option BackgroundRequest :=
  (files.pending.get? name).bind (·.request)

def unlinkPending (files : Files) (name : PendingName) : Files :=
  { files with pending := files.pending.filter fun file => file.name ≠ name }

end Files

/-- Where `_pending_requests` stands. -/
inductive PendingScan where
  | rename
  | list
  | read (left : List PendingName) (found : List Pending)

inductive Scanned where
  | goesOn (scan : PendingScan)
  | done (requests : List Pending)

def PendingScan.step (files : Files) (uuid : String) (order : Scan PendingName) : PendingScan → Files × Scanned
  | .rename => (files.renameLegacy uuid, .goesOn .list)
  | .list => (files, .goesOn (.read (order.order (files.pending.rows.map (·.name))) []))
  | .read (name :: left) found =>
    match files.readRequest name with
    | some request => (files, .goesOn (.read left (found ++ [(name, request)])))
    | none => (files, .goesOn (.read left found))
  | .read [] found => (files, .done found)

/-! ### Processes -/

namespace Worker

def loadedAs (worker : Worker) (generation : String) : Option (List Pending) :=
  (worker.loaded.find? fun entry => entry.1 = generation).map (·.2)

/-- `_loaded_requests.setdefault`. -/
def remember (worker : Worker) (generation : String) (selected : List Pending) : Worker :=
  if (worker.loadedAs generation).isSome then worker
  else { worker with loaded := worker.loaded ++ [(generation, selected)] }

/-- `_loaded_requests.pop`. -/
def forget (worker : Worker) (generation : String) : Worker :=
  { worker with loaded := worker.loaded.filter fun entry => entry.1 ≠ generation }

end Worker

/-- Where `heartbeat_background_worker` stands. -/
inductive Renewal where
  | look
  | lease
  | stamp
  | touch (timestamp : Time)
  deriving DecidableEq

inductive Process where
  /-- `dispatch_post_turn`, before its request is written. -/
  | persisting (request : BackgroundRequest)
  /-- The rest of `dispatch_post_turn`, and the same steps of `finish_background_worker`. -/
  | ensuring (request : BackgroundRequest) (now : Time) (phase : Phase)
  /-- A spawned worker between its calls. -/
  | working (worker : Worker)
  /-- `load_background_request`. -/
  | loading (worker : Worker) (readiness : Option Readiness) (scan : PendingScan)
  /-- `finish_background_worker`: the lease, the paths to retire, their unlinks, the unlink of the lock, the reload. -/
  | leasing (worker : Worker) (processed : Option String)
  | recovering (worker : Worker) (processed : String) (scan : PendingScan)
  | retiring (worker : Worker) (processed : Option String) (left : List Pending)
  | releasing (worker : Worker)
  | handing (worker : Worker) (scan : PendingScan)
  /-- `heartbeat_background_worker` of a process with this lease. -/
  | renewing (lease : String) (phase : Renewal)
  | returned

structure Choice where
  uuid : String
  order : Scan PendingName := .insertion
  spawns : Bool := true

def Process.step (hashes : Hashes) (files : Files) (clock : Time) (choice : Choice) :
    Process → Option (Files × Process × Option Worker)
  | persisting request => some (files.persist hashes request, ensuring request request.requestedAt .create, none)
  | ensuring request now phase =>
    let (lock, ensured) := phase.step files.lock clock now request.generation choice.spawns
    match ensured with
    | .goesOn phase => some ({ files with lock }, ensuring request now phase, none)
    | .ends => some ({ files with lock }, returned, none)
    | .hands worker => some ({ files with lock }, returned, some worker)
  | loading worker readiness scan =>
    match scan.step files choice.uuid choice.order with
    | (files, .goesOn scan) => some (files, loading worker readiness scan, none)
    | (files, .done requests) =>
      match chooseRequest readiness requests with
      | none => some (files, working worker, none)
      | some (latest, selected) => some (files, working (worker.remember latest.generation selected), none)
  | leasing worker processed =>
    if files.lock.leaseMatches worker.lease then
      let key := processed.getD ""
      match (worker.loadedAs key).getD [], processed with
      | [], some generation => some (files, recovering (worker.forget key) generation .rename, none)
      | paths, _ => some (files, retiring (worker.forget key) processed paths, none)
    else some (files, returned, none)
  | recovering worker processed scan =>
    match scan.step files choice.uuid choice.order with
    | (files, .goesOn scan) => some (files, recovering worker processed scan, none)
    | (files, .done requests) =>
      some (files, retiring worker (some processed) (requests.filter fun item => item.2.generation = processed), none)
  | retiring worker processed (item :: left) => some (files.unlinkPending item.1, retiring worker processed left, none)
  | retiring worker _ [] => some (files, releasing worker, none)
  | releasing worker => some ({ files with lock := files.lock.remove }, handing worker .rename, none)
  | handing worker scan =>
    match scan.step files choice.uuid choice.order with
    | (files, .goesOn scan) => some (files, handing worker scan, none)
    | (files, .done requests) =>
      match chooseRequest none requests with
      | none => some (files, returned, none)
      | some (latest, _) => some (files, ensuring latest clock .create, none)
  | renewing lease .look => some (files, if files.lock.file.isSome then renewing lease .lease else returned, none)
  | renewing lease .lease => some (files, if files.lock.leaseMatches lease then renewing lease .stamp else returned, none)
  | renewing lease .stamp => some (files, renewing lease (.touch clock), none)
  | renewing _ (.touch timestamp) => some ({ files with lock := files.lock.touch timestamp }, returned, none)
  | working _ | returned => none

def Process.live? : Process → Option Worker
  | working worker | loading worker _ _ | leasing worker _ | recovering worker _ _ | retiring worker _ _ | releasing worker => some worker
  | _ => none

/-! ### Runs -/

/-- The files, the clock, the identifiers `uuid4` has given, and the processes under their numbers. -/
structure World where
  files : Files
  clock : Time
  issued : List String
  processes : List Process

inductive Event where
  | tick (elapsed : Time)
  | dispatch (request : BackgroundRequest)
  | load (number : Nat) (readiness : Option Readiness)
  | finish (number : Nat) (processed : Option String)
  | renew (number : Nat)
  | act (number : Nat) (choice : Choice)
  | die (number : Nat)

namespace World

def put (world : World) (number : Nat) (process : Process) : World :=
  { world with processes := world.processes.set number process }

def next (hashes : Hashes) (world : World) : Event → Option World
  | .tick elapsed => some { world with clock := world.clock + elapsed }
  | .dispatch request =>
    if request.requestedAt = world.clock ∧ request.generation ∉ world.issued then
      some { world with
        issued := request.generation :: world.issued
        processes := world.processes ++ [.persisting request] }
    else none
  | .load number readiness =>
    match world.processes[number]? with
    | some (.working worker) => some (world.put number (.loading worker readiness .rename))
    | _ => none
  | .finish number processed =>
    match world.processes[number]? with
    | some (.working worker) => some (world.put number (.leasing worker processed))
    | _ => none
  | .renew number =>
    match world.processes[number]?.bind Process.live? with
    | some worker => some { world with processes := world.processes ++ [.renewing worker.lease .look] }
    | none => none
  | .act number choice =>
    if choice.uuid ∈ world.issued then none
    else
      match world.processes[number]?.bind (Process.step hashes world.files world.clock choice) with
      | some (files, process, spawned) =>
        some { world with
          files
          issued := choice.uuid :: world.issued
          processes := world.processes.set number process ++ (spawned.map Process.working).toList }
      | none => none
  | .die number => if number < world.processes.length then some (world.put number .returned) else none

def run (hashes : Hashes) (guard : World → Event → Prop) [∀ world event, Decidable (guard world event)] (world : World) :
    List Event → Option World
  | [] => some world
  | event :: rest => if guard world event then (world.next hashes event).bind fun world => world.run hashes guard rest else none

end World

def Step (hashes : Hashes) (before : World) (event : Event) (after : World) : Prop := before.next hashes event = some after

theorem exec_run {hashes : Hashes} {guard : World → Event → Prop} [∀ world event, Decidable (guard world event)]
    {start final : World} {events : List Event} (ran : start.run hashes guard events = some final) :
    Exec (Restrict (Step hashes) guard) start events final := by
  induction events generalizing start with
  | nil =>
    cases ran
    exact .nil _
  | cons event rest ih =>
    unfold World.run at ran
    split at ran
    · next held =>
      obtain ⟨next, moved, later⟩ := Option.bind_eq_some_iff.mp ran
      exact .cons ⟨moved, held⟩ (ih later)
    · cases ran

/-- The processes take turns, each turn one operation; `first` tells the identifiers of the turns apart. -/
def turns (first : Nat) (numbers : List Nat) : List Event :=
  (numbers.zipIdx first).map fun (number, turn) => .act number { uuid := String.ofList (List.replicate turn 'u') }

end HarnessMem.Background
