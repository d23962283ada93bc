import HarnessMem.Background.Processes

/-! One worker at a time: the lock stands for its holder, which is a process that has made
it and not spawned yet, or the worker it spawned.
-/

set_option autoImplicit false

namespace HarnessMem.Background

open Library

variable {hashes : Hashes}

/-! ### Holding the lock -/

def Process.holds? : Process → Option Nat
  | .ensuring _ _ (.write inode) | .ensuring _ _ (.spawn inode) => some inode
  | process => process.live?.map (·.inode)

def Process.written? : Process → Option (Nat × String)
  | .ensuring request _ (.spawn inode) => some (inode, request.generation)
  | process => process.live?.map fun worker => (worker.inode, worker.lease)

variable {process : Process}

theorem Process.holds_of_live {worker : Worker} (live : process.live? = some worker) :
    process.holds? = some worker.inode := by
  cases process <;> simp_all [Process.live?, Process.holds?]

def Process.reading? : Process → Option Time
  | .persisting request => some request.requestedAt
  | .ensuring _ now _ => some now
  | _ => none

def Process.stale? : Process → Option Nat
  | .ensuring _ _ (.unlink stale) => some stale
  | _ => none

/-- What one operation of a process does to the lock. -/
inductive LockMove (clock : Time) (spawns : Bool) : LockSlot → Process → LockSlot → Process → Option Worker → Prop where
  | keeps {slot : LockSlot} {process next : Process} :
      next.holds? = process.holds? → next.written? = process.written? → next.stale? = none →
      (next.reading? = none ∨ next.reading? = process.reading? ∨ next.reading? = some clock) →
      LockMove clock spawns slot process slot next none
  | yields {slot : LockSlot} {worker : Worker} {processed : Option String} : slot.leaseMatches worker.lease = false →
      LockMove clock spawns slot (.leasing worker processed) slot .returned none
  | touches {slot : LockSlot} {lease : String} (mtime : Time) :
      LockMove clock spawns slot (.renewing lease (.touch mtime)) (slot.touch mtime) .returned none
  | makes {slot made : LockSlot} {request : BackgroundRequest} {now : Time} {phase : Phase} {inode : Nat} :
      slot.create clock = some (inode, made) →
      LockMove clock spawns slot (.ensuring request now phase) made (.ensuring request now (.write inode)) none
  | finds {slot : LockSlot} {request : BackgroundRequest} {now : Time} {lock : LockFile} :
      slot.file = some lock → lock.stale now = true →
      LockMove clock spawns slot (.ensuring request now .stat) slot (.ensuring request now (.unlink lock.inode)) none
  | takes {slot : LockSlot} {request : BackgroundRequest} {now : Time} {stale : Nat} {lock : LockFile} :
      slot.file = some lock →
      LockMove clock spawns slot (.ensuring request now (.unlink stale)) slot.remove (.ensuring request now .recreate) none
  | writes {slot : LockSlot} {request : BackgroundRequest} {now : Time} {inode : Nat} :
      LockMove clock spawns slot (.ensuring request now (.write inode)) (slot.write clock inode request.generation)
        (.ensuring request now (.spawn inode)) none
  | hands {slot : LockSlot} {request : BackgroundRequest} {now : Time} {inode : Nat} :
      LockMove clock spawns slot (.ensuring request now (.spawn inode)) slot .returned (some ⟨request.generation, inode, []⟩)
  | frees {slot : LockSlot} {worker : Worker} : LockMove clock spawns slot (.releasing worker) slot.remove (.handing worker .rename) none
  | fails {slot : LockSlot} {request : BackgroundRequest} {now : Time} {inode : Nat} : spawns = false →
      LockMove clock spawns slot (.ensuring request now (.spawn inode)) slot.remove .returned none

variable {files after : Files}

theorem PendingScan.lock_step {uuid : String} {order : Scan PendingName} {scan : PendingScan} {scanned : Scanned} (ran : scan.step files uuid order = (after, scanned)) : after.lock = files.lock := by
  cases scan with
  | rename =>
    cases ran
    unfold Files.renameLegacy
    split <;> rfl
  | list => cases ran; rfl
  | read left found =>
    cases left with
    | nil => cases ran; rfl
    | cons name left =>
      simp only [PendingScan.step] at ran
      split at ran <;> cases ran <;> rfl

theorem Phase.step_stat (slot : LockSlot) (clock now : Time) (generation : String) (spawns : Bool) :
    Phase.step slot clock now generation spawns .stat =
      (slot, match slot.file with
        | none => .ends
        | some lock => if lock.stale now then .goesOn (.unlink lock.inode) else .ends) := by
  unfold Phase.step
  cases slot.file <;> rfl

variable {clock now : Time} {next : Process} {spawned : Option Worker}

theorem Process.lock_ensuring {choice : Choice} {request : BackgroundRequest}
    {phase : Phase}
    (ran : (Process.ensuring request now phase).step hashes files clock choice = some (after, next, spawned)) :
    LockMove clock choice.spawns files.lock (.ensuring request now phase) after.lock next spawned := by
  cases phase with
  | create =>
    simp only [Process.step, Phase.step] at ran
    cases made : files.lock.create clock with
    | none =>
      rw [made] at ran
      cases ran
      exact .keeps rfl rfl rfl (.inr (.inl rfl))
    | some pair =>
      rw [made] at ran
      cases ran
      exact .makes made
  | stat =>
    have stepped := Phase.step_stat files.lock clock now request.generation choice.spawns
    cases file : files.lock.file with
    | none =>
      rw [file] at stepped
      simp only [Process.step, stepped] at ran
      cases ran
      exact .keeps rfl rfl rfl (.inl rfl)
    | some lock =>
      rw [file] at stepped
      by_cases stale : lock.stale now = true
      · simp only [Process.step, stepped, if_pos stale] at ran
        cases ran
        exact .finds file stale
      · simp only [Process.step, stepped, if_neg stale] at ran
        cases ran
        exact .keeps rfl rfl rfl (.inl rfl)
  | unlink stale =>
    simp only [Process.step, Phase.step] at ran
    cases file : files.lock.file with
    | none =>
      rw [file] at ran
      cases ran
      exact .keeps rfl rfl rfl (.inl rfl)
    | some lock =>
      rw [file] at ran
      cases ran
      exact .takes file
  | recreate =>
    simp only [Process.step, Phase.step] at ran
    cases made : files.lock.create clock with
    | none =>
      rw [made] at ran
      cases ran
      exact .keeps rfl rfl rfl (.inl rfl)
    | some pair =>
      rw [made] at ran
      cases ran
      exact .makes made
  | write inode =>
    cases ran
    exact .writes
  | spawn inode =>
    simp only [Process.step, Phase.step] at ran
    by_cases spawns : choice.spawns = true
    · rw [if_pos spawns] at ran
      cases ran
      exact .hands
    · rw [if_neg spawns] at ran
      cases ran
      exact .fails ((Bool.not_eq_true _).mp spawns)

theorem Process.lock_step {choice : Choice} (ran : process.step hashes files clock choice = some (after, next, spawned)) :
    LockMove clock choice.spawns files.lock process after.lock next spawned := by
  cases process with
  | persisting request =>
    cases ran
    exact .keeps rfl rfl rfl (.inr (.inl rfl))
  | ensuring request now phase =>
    exact Process.lock_ensuring ran
  | working worker => cases ran
  | loading worker readiness scan =>
    simp only [Process.step] at ran
    split at ran
    · next scanned =>
      cases ran
      rw [PendingScan.lock_step scanned]
      exact .keeps rfl rfl rfl (.inl rfl)
    · next scanned =>
      split at ran <;> cases ran <;> rw [PendingScan.lock_step scanned]
      · exact .keeps rfl rfl rfl (.inl rfl)
      · have same : ∀ generation selected, (worker.remember generation selected).inode = worker.inode ∧
            (worker.remember generation selected).lease = worker.lease := by
          intro generation selected
          unfold Worker.remember
          split <;> exact ⟨rfl, rfl⟩
        refine .keeps (congrArg some (same _ _).1) ?_ rfl (.inl rfl)
        exact congrArg some (Prod.ext (same _ _).1 (same _ _).2)
  | leasing worker processed =>
    simp only [Process.step] at ran
    split at ran
    · split at ran <;> cases ran <;> exact .keeps rfl rfl rfl (.inl rfl)
    · next replaced =>
      cases ran
      exact .yields ((Bool.not_eq_true _).mp replaced)
  | recovering worker processed scan =>
    simp only [Process.step] at ran
    split at ran
    all_goals
      next scanned =>
        cases ran
        rw [PendingScan.lock_step scanned]
        exact .keeps rfl rfl rfl (.inl rfl)
  | retiring worker processed left =>
    cases left <;> cases ran <;> exact .keeps rfl rfl rfl (.inl rfl)
  | releasing worker =>
    cases ran
    exact .frees
  | handing worker scan =>
    simp only [Process.step] at ran
    split at ran
    · next scanned =>
      cases ran
      rw [PendingScan.lock_step scanned]
      exact .keeps rfl rfl rfl (.inl rfl)
    · next scanned =>
      split at ran <;> cases ran <;> rw [PendingScan.lock_step scanned]
      · exact .keeps rfl rfl rfl (.inl rfl)
      · exact .keeps rfl rfl rfl (.inr (.inr rfl))
  | renewing lease phase =>
    cases phase with
    | look =>
      simp only [Process.step] at ran
      split at ran <;> cases ran <;> exact .keeps rfl rfl rfl (.inl rfl)
    | lease =>
      simp only [Process.step] at ran
      split at ran <;> cases ran <;> exact .keeps rfl rfl rfl (.inl rfl)
    | stamp =>
      cases ran
      exact .keeps rfl rfl rfl (.inl rfl)
    | touch timestamp =>
      cases ran
      exact .touches timestamp
  | returned => cases ran

/-! ### The processes after an event -/

namespace World

def Holds (world : World) (number inode : Nat) : Prop :=
  ∃ process, world.processes[number]? = some process ∧ process.holds? = some inode

def live (world : World) (number : Nat) : Option Worker := world.processes[number]?.bind Process.live?

theorem holds_of_live {world : World} {number : Nat} {worker : Worker} (live : world.live number = some worker) :
    world.Holds number worker.inode := by
  obtain ⟨process, found, alive⟩ := Option.bind_eq_some_iff.mp live
  exact ⟨process, found, Process.holds_of_live alive⟩

end World

variable {number : Nat}

theorem process_after {processes : List Process} {other : Nat} {spawned : List Process}
    (found : (processes.set number next ++ spawned)[other]? = some process) :
    (other = number ∧ process = next) ∨ (other ≠ number ∧ processes[other]? = some process) ∨
      (processes.length ≤ other ∧ spawned[other - processes.length]? = some process) := by
  rcases Nat.lt_or_ge other processes.length with inside | outside
  · rw [List.getElem?_append_left (by simpa using inside)] at found
    by_cases same : other = number
    · subst same
      rw [List.getElem?_set_self inside] at found
      exact .inl ⟨rfl, (Option.some.inj found).symm⟩
    · rw [List.getElem?_set_ne (Ne.symm same)] at found
      exact .inr (.inl ⟨same, found⟩)
  · rw [List.getElem?_append_right (by simpa using outside), List.length_set] at found
    exact .inr (.inr ⟨outside, found⟩)

variable {world : World}

theorem process_put {other : Nat}
    (found : (world.put number next).processes[other]? = some process) :
    (other = number ∧ process = next) ∨ (other ≠ number ∧ world.processes[other]? = some process) := by
  have found : (world.processes.set number next ++ [])[other]? = some process := by rwa [List.append_nil]
  rcases process_after found with here | there | ⟨_, none_⟩
  · exact .inl here
  · exact .inr there
  · cases none_

theorem process_added {added : Process}
    (found : (world.processes ++ [added])[number]? = some process) :
    (number = world.processes.length ∧ process = added) ∨ world.processes[number]? = some process := by
  rcases Nat.lt_trichotomy number world.processes.length with inside | same | outside
  · rw [List.getElem?_append_left inside] at found
    exact .inr found
  · subst same
    rw [List.getElem?_concat_length] at found
    exact .inl ⟨rfl, (Option.some.inj found).symm⟩
  · rw [List.getElem?_eq_none (by simp; omega)] at found
    cases found

/-! ### The holder is the only one -/

/-- The lock is its holder's, a takeover is about a file that has no holder, and no reading of the clock is ahead. -/
structure Sole (world : World) : Prop where
  held : ∀ number inode, world.Holds number inode → ∃ lock, world.files.lock.file = some lock ∧ lock.inode = inode
  one : ∀ first second i j, world.Holds first i → world.Holds second j → first = second
  stale : ∀ (number : Nat) (process : Process) inode, world.processes[number]? = some process → process.stale? = some inode →
    inode < world.files.lock.inodes ∧ ∀ other, ¬ world.Holds other inode
  past : ∀ (number : Nat) (process : Process) now, world.processes[number]? = some process → process.reading? = some now → now ≤ world.clock

def World.Renewed (world : World) : Prop :=
  ∀ number worker lock, world.live number = some worker → world.files.lock.file = some lock →
    lock.inode = worker.inode → lock.stale world.clock = false

def World.Prompt (world : World) : Prop :=
  ∀ (number : Nat) request now inode lock, (world.processes[number]? = some (Process.ensuring request now (.write inode)) ∨
    world.processes[number]? = some (Process.ensuring request now (.spawn inode))) →
    world.files.lock.file = some lock → lock.inode = inode → lock.stale world.clock = false

def TakesWhatItFound (world : World) (event : Event) : Prop :=
  ∀ number choice request now stale lock, event = .act number choice →
    world.processes[number]? = some (.ensuring request now (.unlink stale)) → world.files.lock.file = some lock →
    lock.inode = stale

variable {lock : LockFile}

theorem LockFile.stale_mono {later : Time} (stale : lock.stale now = true) (passed : now ≤ later) :
    lock.stale later = true :=
  decide_eq_true (Nat.lt_of_lt_of_le (of_decide_eq_true stale) passed)

theorem unheld_of_stale (renewed : world.Renewed) (prompt : world.Prompt)
    (file : world.files.lock.file = some lock) (stale : lock.stale now = true) (passed : now ≤ world.clock) (number : Nat) :
    ¬ world.Holds number lock.inode := by
  have old := LockFile.stale_mono stale passed
  rintro ⟨process, found, holds⟩
  have ofLive : ∀ worker, process.live? = some worker → process.holds? = some worker.inode → False := by
    intro worker live same
    rw [holds, Option.some.injEq] at same
    have fresh := renewed number worker lock (by rw [World.live, found]; exact live) file same
    rw [old] at fresh
    cases fresh
  have ofMaker : ∀ request now inode, (process = .ensuring request now (.write inode) ∨
      process = .ensuring request now (.spawn inode)) → inode = lock.inode → False := by
    intro request now inode maker same
    have fresh := prompt number request now inode lock (by rw [found]; simpa using maker) file same.symm
    rw [old] at fresh
    cases fresh
  cases process with
  | ensuring request now phase =>
    cases phase with
    | write inode => exact ofMaker request now inode (.inl rfl) (Option.some.inj holds)
    | spawn inode => exact ofMaker request now inode (.inr rfl) (Option.some.inj holds)
    | _ => cases holds
  | working worker => exact ofLive worker rfl rfl
  | loading worker _ _ => exact ofLive worker rfl rfl
  | leasing worker _ => exact ofLive worker rfl rfl
  | recovering worker _ _ => exact ofLive worker rfl rfl
  | retiring worker _ _ => exact ofLive worker rfl rfl
  | releasing worker => exact ofLive worker rfl rfl
  | _ => cases holds

variable {slot : LockSlot}

theorem LockMove.reading {spawns : Bool} {after : LockSlot}
    (move : LockMove clock spawns slot process after next spawned) :
    next.reading? = none ∨ next.reading? = process.reading? ∨ next.reading? = some clock := by
  cases move with
  | keeps _ _ _ reading => exact reading
  | yields | touches | hands | frees | fails => exact .inl rfl
  | makes | finds | takes | writes => exact .inr (.inl rfl)

variable {inode : Nat}

theorem LockSlot.create_some {made : LockSlot} (created : slot.create clock = some (inode, made)) :
    slot.file = none ∧ inode = slot.inodes ∧ made.inodes = slot.inodes + 1 ∧ ∃ lock, made.file = some lock ∧ lock.inode = inode := by
  unfold LockSlot.create at created
  split at created
  · cases created
  · next free =>
    cases created
    exact ⟨free, rfl, rfl, _, rfl, rfl⟩

theorem LockSlot.write_inode {generation : String}
    (file : slot.file = some lock) : ∃ written, (slot.write clock inode generation).file = some written ∧ written.inode = lock.inode := by
  refine ⟨_, congrArg (Option.map _) file, ?_⟩
  dsimp only
  split
  · next same => exact same.symm
  · rfl

section Move

variable {world after : World} {number : Nat} {process next : Process} {spawned : Option Worker} {spawns : Bool}
  (processes : after.processes = world.processes.set number next ++ (spawned.map Process.working).toList)

include processes

theorem holds_after {other inode : Nat} (holds : after.Holds other inode) :
    (other = number ∧ next.holds? = some inode) ∨ (other ≠ number ∧ world.Holds other inode) ∨
      ∃ worker, spawned = some worker ∧ other = world.processes.length ∧ inode = worker.inode := by
  obtain ⟨holder, found, held⟩ := holds
  rw [processes] at found
  rcases process_after found with ⟨rfl, rfl⟩ | ⟨differs, there⟩ | ⟨outside, new⟩
  · exact .inl ⟨rfl, held⟩
  · exact .inr (.inl ⟨differs, holder, there, held⟩)
  · cases spawned with
    | none => cases new
    | some worker =>
      have inside := (List.getElem?_eq_some_iff.mp new).1
      simp only [Option.map_some, Option.toList_some, List.length_singleton] at inside
      have last : other = world.processes.length := by omega
      subst last
      rw [Nat.sub_self] at new
      cases new
      exact .inr (.inr ⟨worker, rfl, rfl, (Option.some.inj held).symm⟩)

theorem stale_after {other inode : Nat} {holder : Process} (found : after.processes[other]? = some holder)
    (stale : holder.stale? = some inode) :
    next.stale? = some inode ∨ ∃ old, world.processes[other]? = some old ∧ old.stale? = some inode := by
  rw [processes] at found
  rcases process_after found with ⟨_, rfl⟩ | ⟨_, there⟩ | ⟨_, new⟩
  · exact .inl stale
  · exact .inr ⟨holder, there, stale⟩
  · obtain ⟨worker, _, rfl⟩ : ∃ worker, spawned = some worker ∧ Process.working worker = holder := by
        simpa using List.mem_of_getElem? new
    cases stale

theorem past_after (sole : Sole world) (found : world.processes[number]? = some process) (clock : after.clock = world.clock)
    (reads : next.reading? = none ∨ next.reading? = process.reading? ∨ next.reading? = some world.clock)
    (other : Nat) (holder : Process) (now : Time) (here : after.processes[other]? = some holder)
    (reading : holder.reading? = some now) : now ≤ after.clock := by
  rw [clock]
  rw [processes] at here
  rcases process_after here with ⟨_, rfl⟩ | ⟨_, there⟩ | ⟨_, new⟩
  · rcases reads with none_ | same | now_
    · rw [none_] at reading
      cases reading
    · exact sole.past number process now found (same.symm.trans reading)
    · exact (Option.some.inj (now_.symm.trans reading)).ge
  · exact sole.past other holder now there reading
  · obtain ⟨worker, _, rfl⟩ : ∃ worker, spawned = some worker ∧ Process.working worker = holder := by
      simpa using List.mem_of_getElem? new
    cases reading

theorem Sole.still (sole : Sole world) (found : world.processes[number]? = some process) (clock : after.clock = world.clock)
    (reads : next.reading? = none ∨ next.reading? = process.reading? ∨ next.reading? = some world.clock)
    (fewer : ∀ inode, next.holds? = some inode → process.holds? = some inode) (nobody : spawned = none)
    (file : ∀ lock, world.files.lock.file = some lock → ∃ lock', after.files.lock.file = some lock' ∧ lock'.inode = lock.inode)
    (inodes : world.files.lock.inodes = after.files.lock.inodes)
    (stale : ∀ inode, next.stale? = some inode → inode < world.files.lock.inodes ∧ ∀ other, ¬ world.Holds other inode) :
    Sole after := by
  have holds : ∀ other inode, after.Holds other inode → world.Holds other inode := by
    intro other inode here
    rcases holds_after processes here with ⟨rfl, held⟩ | ⟨_, there⟩ | ⟨_, some_, _⟩
    · exact ⟨process, found, fewer inode held⟩
    · exact there
    · rw [nobody] at some_
      cases some_
  refine ⟨?_, ?_, ?_, past_after processes sole found clock reads⟩
  · intro other inode here
    obtain ⟨lock, was, same⟩ := sole.held other inode (holds other inode here)
    obtain ⟨lock', is, kept⟩ := file lock was
    exact ⟨lock', is, kept.trans same⟩
  · intro first second i j left right
    exact sole.one first second i j (holds first i left) (holds second j right)
  · intro other holder inode here taken
    have old : inode < world.files.lock.inodes ∧ ∀ other, ¬ world.Holds other inode := by
      rcases stale_after processes here taken with mine | ⟨was, there, same⟩
      · exact stale inode mine
      · exact sole.stale other was inode there same
    exact ⟨inodes ▸ old.1, fun number here => old.2 number (holds number inode here)⟩

theorem Sole.gone (sole : Sole world) (found : world.processes[number]? = some process) (clock : after.clock = world.clock)
    (reads : next.reading? = none ∨ next.reading? = process.reading? ∨ next.reading? = some world.clock)
    (drops : next.holds? = none) (calm : next.stale? = none) (nobody : spawned = none)
    (lock : after.files.lock = world.files.lock.remove) (alone : ∀ other inode, other ≠ number → ¬ world.Holds other inode) :
    Sole after := by
  have unheld : ∀ other inode, ¬ after.Holds other inode := by
    intro other inode here
    rcases holds_after processes here with ⟨_, held⟩ | ⟨differs, there⟩ | ⟨_, some_, _⟩
    · rw [drops] at held
      cases held
    · exact alone other inode differs there
    · rw [nobody] at some_
      cases some_
  refine ⟨fun other inode here => (unheld other inode here).elim, fun first _ i _ here => (unheld first i here).elim, ?_,
    past_after processes sole found clock reads⟩
  intro other holder inode here taken
  rcases stale_after processes here taken with mine | ⟨was, there, same⟩
  · rw [calm] at mine
    cases mine
  · have bound := (sole.stale other was inode there same).1
    exact ⟨by rw [lock]; exact bound, fun number => unheld number inode⟩

theorem Sole.move (sole : Sole world) (found : world.processes[number]? = some process) (clock : after.clock = world.clock)
    (move : LockMove world.clock spawns world.files.lock process after.files.lock next spawned)
    (renewed : world.Renewed) (prompt : world.Prompt)
    (takes : ∀ request now stale lock, process = .ensuring request now (.unlink stale) →
      world.files.lock.file = some lock → lock.inode = stale) : Sole after := by
  have still := sole.still processes found clock move.reading
  have gone := sole.gone processes found clock move.reading
  have past := past_after processes sole found clock move.reading
  generalize slot : after.files.lock = afterLock at move
  cases move with
  | keeps held _ calm _ =>
    apply still (fun inode holds => held ▸ holds) rfl
    · intro lock file
      exact ⟨lock, slot ▸ file, rfl⟩
    · rw [slot]
    · intro inode taken
      rw [calm] at taken
      cases taken
  | yields =>
    apply still nofun rfl
    · intro lock file
      exact ⟨lock, slot ▸ file, rfl⟩
    · rw [slot]
    · exact nofun
  | touches mtime =>
    apply still nofun rfl
    · intro lock file
      rw [slot]
      exact ⟨_, congrArg (Option.map _) file, rfl⟩
    · rw [slot]
      rfl
    · exact nofun
  | @finds request now lock file stale =>
    apply still nofun rfl
    · intro other file
      exact ⟨other, slot ▸ file, rfl⟩
    · rw [slot]
    · intro inode taken
      cases taken
      have passed := sole.past number _ now found rfl
      exact ⟨world.files.lock.numbered lock file, unheld_of_stale renewed prompt file stale passed⟩
  | writes =>
    apply still (fun inode holds => holds) rfl
    · intro lock file
      rw [slot]
      exact LockSlot.write_inode file
    · rw [slot]
      rfl
    · exact nofun
  | @takes request now stale lock file =>
    apply gone rfl rfl rfl slot
    intro other inode _ there
    obtain ⟨held, is, rfl⟩ := sole.held other inode there
    have same := takes request now stale held rfl is
    exact (sole.stale number _ stale found rfl).2 other (same ▸ there)
  | frees =>
    apply gone rfl rfl rfl slot
    intro other inode differs there
    exact differs (sole.one other number inode _ there ⟨_, found, rfl⟩)
  | fails =>
    apply gone rfl rfl rfl slot
    intro other inode differs there
    exact differs (sole.one other number inode _ there ⟨_, found, rfl⟩)
  | makes created =>
    obtain ⟨free, rfl, inodes, lock, file, same⟩ := LockSlot.create_some created
    have nobody : ∀ other inode, ¬ world.Holds other inode := by
      intro other inode there
      obtain ⟨held, is, _⟩ := sole.held other inode there
      rw [free] at is
      cases is
    have only : ∀ other inode, after.Holds other inode → other = number ∧ inode = world.files.lock.inodes := by
      intro other inode here
      rcases holds_after processes here with ⟨rfl, held⟩ | ⟨_, there⟩ | ⟨_, some_, _⟩
      · exact ⟨rfl, (Option.some.inj held).symm⟩
      · exact (nobody other inode there).elim
      · cases some_
    refine ⟨?_, ?_, ?_, past⟩
    · intro other inode here
      exact ⟨lock, slot ▸ file, same.trans (only other inode here).2.symm⟩
    · intro first second i j left right
      exact (only first i left).1.trans (only second j right).1.symm
    · intro other holder inode here taken
      rcases stale_after processes here taken with mine | ⟨was, there, same⟩
      · cases mine
      · have bound := (sole.stale other was inode there same).1
        constructor
        · rw [slot, inodes]
          omega
        · intro number here
          have := (only number inode here).2
          omega
  | @hands request now inode =>
    have mine : world.Holds number inode := ⟨_, found, rfl⟩
    have only : ∀ other i, after.Holds other i → other = world.processes.length ∧ i = inode := by
      intro other i here
      rcases holds_after processes here with ⟨_, held⟩ | ⟨differs, there⟩ | ⟨worker, some_, last, same⟩
      · cases held
      · exact (differs (sole.one other number i inode there mine)).elim
      · cases some_
        exact ⟨last, same⟩
    refine ⟨?_, ?_, ?_, past⟩
    · intro other i here
      rw [slot, (only other i here).2]
      exact sole.held number inode mine
    · intro first second i j left right
      exact (only first i left).1.trans (only second j right).1.symm
    · intro other holder i here taken
      rcases stale_after processes here taken with none_ | ⟨was, there, same⟩
      · cases none_
      · obtain ⟨bound, unheld⟩ := sole.stale other was i there same
        refine ⟨slot ▸ bound, fun third here => ?_⟩
        rw [(only third i here).2] at unheld
        exact unheld number mine

end Move

/-! ### Runs -/

theorem Sole.put {world : World} {number : Nat} {process next : Process} (sole : Sole world)
    (found : world.processes[number]? = some process) (fewer : ∀ inode, next.holds? = some inode → process.holds? = some inode)
    (calm : next.stale? = none) (reading : next.reading? = none) : Sole (world.put number next) := by
  have processes : (world.put number next).processes =
      world.processes.set number next ++ ((none : Option Worker).map Process.working).toList := (List.append_nil _).symm
  apply sole.still processes found rfl (.inl reading) fewer rfl
  · exact fun lock file => ⟨lock, file, rfl⟩
  · rfl
  · intro inode stale
    rw [calm] at stale
    cases stale

theorem Sole.add {after : World} {added : Process} (sole : Sole world) (files : after.files = world.files)
    (clock : after.clock = world.clock) (processes : after.processes = world.processes ++ [added])
    (free : added.holds? = none) (calm : added.stale? = none) (reading : ∀ now, added.reading? = some now → now ≤ world.clock) :
    Sole after := by
  have holds : ∀ number inode, after.Holds number inode → world.Holds number inode := by
    rintro number inode ⟨holder, found, held⟩
    rw [processes] at found
    rcases process_added found with ⟨_, rfl⟩ | there
    · rw [free] at held
      cases held
    · exact ⟨holder, there, held⟩
  refine ⟨?_, ?_, ?_, ?_⟩
  · intro number inode here
    rw [files]
    exact sole.held number inode (holds number inode here)
  · intro first second i j left right
    exact sole.one first second i j (holds first i left) (holds second j right)
  · intro number holder inode found stale
    rw [processes] at found
    rcases process_added found with ⟨_, rfl⟩ | there
    · rw [calm] at stale
      cases stale
    · obtain ⟨bound, unheld⟩ := sole.stale number holder inode there stale
      exact ⟨files ▸ bound, fun other here => unheld other (holds other inode here)⟩
  · intro number holder now found read
    rw [processes] at found
    rw [clock]
    rcases process_added found with ⟨_, rfl⟩ | there
    · exact reading now read
    · exact sole.past number holder now there read

/-- The assumption on live workers, and the condition under which there is never a second one. -/
def Careful (world : World) (event : Event) : Prop := world.Renewed ∧ world.Prompt ∧ TakesWhatItFound world event

theorem sole_step {before after : World} {event : Event} (sole : Sole before) (step : Step hashes before event after)
    (careful : Careful before event) : Sole after := by
  obtain ⟨renewed, prompt, takes⟩ := careful
  unfold Step at step
  cases event with
  | tick elapsed =>
    cases step
    refine ⟨sole.held, sole.one, sole.stale, ?_⟩
    intro number process now found reading
    exact Nat.le_trans (sole.past number process now found reading) (Nat.le_add_right _ _)
  | dispatch request =>
    simp only [World.next] at step
    split at step
    · next current =>
      cases step
      refine sole.add rfl rfl rfl rfl rfl ?_
      intro now read
      cases read
      exact current.1.le
    · cases step
  | load number readiness =>
    simp only [World.next] at step
    split at step
    · next worker found =>
      cases step
      exact sole.put found (fun _ => id) rfl rfl
    · cases step
  | finish number processed =>
    simp only [World.next] at step
    split at step
    · next worker found =>
      cases step
      exact sole.put found (fun _ => id) rfl rfl
    · cases step
  | renew number =>
    simp only [World.next] at step
    split at step
    · cases step
      exact sole.add rfl rfl rfl rfl rfl nofun
    · cases step
  | act number choice =>
    simp only [World.next] at step
    split at step
    · cases step
    · split at step
      · next ran =>
        cases step
        obtain ⟨process, found, moved⟩ := Option.bind_eq_some_iff.mp ran
        refine sole.move rfl found rfl (Process.lock_step moved) renewed prompt ?_
        rintro request now stale lock rfl file
        exact takes number choice request now stale lock rfl found file
      · cases step
  | die number =>
    simp only [World.next] at step
    split at step
    · next inside =>
      cases step
      exact sole.put (List.getElem?_eq_getElem inside) nofun rfl rfl
    · cases step

def World.Exclusive (world : World) : Prop :=
  ∀ first second worker other, world.live first = some worker → world.live second = some other → first = second

theorem sole_initial {start : World} (alone : start.processes = []) : Sole start := by
  have nobody : ∀ (number : Nat) (process : Process), start.processes[number]? ≠ some process := by
    intro number process found
    rw [alone] at found
    cases found
  refine ⟨?_, ?_, ?_, ?_⟩
  · rintro number inode ⟨process, found, _⟩
    exact (nobody number process found).elim
  · rintro first second i j ⟨process, found, _⟩
    exact (nobody first process found).elim
  · exact fun number process inode found => (nobody number process found).elim
  · exact fun number process now found => (nobody number process found).elim

theorem one_worker_at_a_time {start final : World} {events : List Event} (alone : start.processes = [])
    (run : Exec (Restrict (Step hashes) Careful) start events final) : final.Exclusive := by
  have sole : Sole final :=
    run.invariant Sole (fun _ _ _ held step => sole_step held step.1 step.2) (sole_initial alone)
  intro first second worker other left right
  exact sole.one first second _ _ (World.holds_of_live left) (World.holds_of_live right)

instance (world : World) : Decidable world.Renewed :=
  decidable_of_iff (∀ process ∈ world.processes, ∀ worker ∈ process.live?, ∀ lock ∈ world.files.lock.file,
    lock.inode = worker.inode → lock.stale world.clock = false) <| by
    constructor
    · intro all number worker lock live file
      obtain ⟨process, found, alive⟩ := Option.bind_eq_some_iff.mp live
      exact all process (List.mem_of_getElem? found) worker alive lock file
    · intro renewed process member worker alive lock file
      obtain ⟨number, found⟩ := List.mem_iff_getElem?.mp member
      exact renewed number worker lock (Option.bind_eq_some_iff.mpr ⟨process, found, alive⟩) file

def Process.made? : Process → Option Nat
  | .ensuring _ _ (.write inode) | .ensuring _ _ (.spawn inode) => some inode
  | _ => none

theorem Process.made?_eq_some :
    process.made? = some inode ↔ ∃ request now, process = .ensuring request now (.write inode) ∨
      process = .ensuring request now (.spawn inode) := by
  constructor
  · intro made
    cases process with
    | ensuring request now phase => cases phase <;> simp_all [Process.made?]
    | _ => cases made
  · rintro ⟨request, now, rfl | rfl⟩ <;> rfl

instance (world : World) : Decidable world.Prompt :=
  decidable_of_iff (∀ process ∈ world.processes, ∀ inode ∈ process.made?, ∀ lock ∈ world.files.lock.file,
    lock.inode = inode → lock.stale world.clock = false) <| by
    constructor
    · intro all number request now inode lock found file
      rcases found with found | found
      · exact all _ (List.mem_of_getElem? found) inode rfl lock file
      · exact all _ (List.mem_of_getElem? found) inode rfl lock file
    · intro prompt process member inode made lock file
      obtain ⟨number, found⟩ := List.mem_iff_getElem?.mp member
      obtain ⟨request, now, rfl | rfl⟩ := Process.made?_eq_some.mp made
      · exact prompt number request now inode lock (.inl found) file
      · exact prompt number request now inode lock (.inr found) file

instance (world : World) (event : Event) : Decidable (TakesWhatItFound world event) :=
  match event with
  | .act number choice =>
    decidable_of_iff (∀ process ∈ world.processes[number]?, ∀ stale ∈ process.stale?, ∀ lock ∈ world.files.lock.file,
      lock.inode = stale) <| by
      constructor
      · rintro all _ _ request now stale lock ⟨⟩ found file
        exact all _ found stale rfl lock file
      · intro takes process found stale same lock file
        cases process with
        | ensuring request now phase =>
          cases phase with
          | unlink inode =>
            cases same
            exact takes number choice request now _ lock rfl found file
          | _ => cases same
        | _ => cases same
  | .tick _ | .dispatch _ | .load _ _ | .finish _ _ | .renew _ | .die _ => .isTrue nofun

instance (world : World) (event : Event) : Decidable (Careful world event) := inferInstanceAs (Decidable (_ ∧ _ ∧ _))

def sampleRequest (generation : String) (requestedAt : Time) : BackgroundRequest :=
  ⟨generation, "/p", "codex", "ide_hook", some "s", requestedAt, none⟩

def abandoned : World where
  files := ⟨⟨some ⟨0, 0, some "g0"⟩, 1, by rintro _ ⟨⟩; exact Nat.zero_lt_one⟩, .empty, none⟩
  clock := seconds 301
  issued := []
  processes := []

/-- One hook takes the lock over and spawns, a second one finds the new lock fresh. -/
theorem one_worker_takes_over : ∃ final, Exec (Restrict (Step .spelled) Careful) abandoned
    (.dispatch (sampleRequest "g1" (seconds 301)) :: turns 0 [0, 0, 0, 0, 0, 0, 0] ++
      .dispatch (sampleRequest "g2" (seconds 301)) :: [.renew 1]) final ∧ final.Exclusive := by
  have ran : ((abandoned.run .spelled Careful (.dispatch (sampleRequest "g1" (seconds 301)) :: turns 0 [0, 0, 0, 0, 0, 0, 0] ++
      .dispatch (sampleRequest "g2" (seconds 301)) :: [.renew 1])).any fun final => (final.live 1).isSome) = true := by
    decide +kernel
  obtain ⟨final, found, _⟩ := (Option.any_eq_true _ _).mp ran
  exact ⟨final, exec_run found, one_worker_at_a_time rfl (exec_run found)⟩

/-- Two hooks find the same lock stale: the second one unlinks the lock that the first one has made. -/
theorem one_worker_fails : ¬ ∀ (start final : World) (events : List Event), start.processes = [] →
    Exec (Restrict (Step .spelled) fun world _ => world.Renewed) start events final → final.Exclusive := by
  intro all
  have ran : ((abandoned.run .spelled (fun world _ => world.Renewed) (.dispatch (sampleRequest "g1" (seconds 301)) ::
      .dispatch (sampleRequest "g2" (seconds 301)) :: turns 0 [0, 0, 0, 1, 1, 1, 0, 0, 0, 0, 1, 1, 1, 1])).any fun final =>
        (final.live 2).isSome && (final.live 3).isSome) = true := by decide +kernel
  obtain ⟨final, found, alive⟩ := (Option.any_eq_true _ _).mp ran
  obtain ⟨left, right⟩ := Bool.and_eq_true_iff.mp alive
  obtain ⟨worker, first⟩ := Option.isSome_iff_exists.mp left
  obtain ⟨other, second⟩ := Option.isSome_iff_exists.mp right
  have same := all abandoned final _ rfl (exec_run found) 2 3 worker other first second
  cases same

end HarnessMem.Background
