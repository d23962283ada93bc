import HarnessMem.Maintenance.Lock

/-! One maintenance run at a time: the lock at the path is the one of the process inside, as long
as what is removed is what was read.
-/

set_option autoImplicit false

namespace HarnessMem.Maintenance

open Library

/-! ### Holding the lock -/

namespace Process

def held (process : Process) : List Nat :=
  process.runs.map (·.inode) ++
    match process.call with
    | some (.entering _ (.write inode)) => [inode]
    | some (.releasing run) => [run.inode]
    | _ => []

def taking? (process : Process) : Option Nat :=
  match process.call with
  | some (.entering _ (.unlink found)) | some (.observing _ (.unlink found)) => some found
  | _ => none

end Process

def OwnedBy (pid : Nat) (content : Content) : Prop :=
  content = .unreadable ∨ ∃ payload, content = .payload payload ∧ payload.pid = some pid ∧ payload.suppression = .absent

namespace World

def Holds (world : World) (number inode : Nat) : Prop := ∃ process, world.processes number = some process ∧ inode ∈ process.held

def Inside (world : World) (number : Nat) : Prop := ∃ process, world.processes number = some process ∧ process.runs ≠ []

def Exclusive (world : World) : Prop := ∀ first second, world.Inside first → world.Inside second → first = second

end World

def TakesWhatItFound (world : World) (event : Event) : Prop :=
  ∀ number choice process found lock, event = .act number choice → world.processes number = some process →
    process.taking? = some found → world.path.file = some lock → lock.inode = found

/-- The lock is its holder's, and no process is on the way to remove it. -/
structure Sole (world : World) : Prop where
  held : ∀ number process inode, world.processes number = some process → inode ∈ process.held →
    ∃ lock, world.path.file = some lock ∧ lock.inode = inode ∧ OwnedBy process.pid lock.content
  once : ∀ number process, world.processes number = some process → process.held.length ≤ 1
  one : ∀ first second i j, world.Holds first i → world.Holds second j → first = second
  taken : ∀ number process found, world.processes number = some process → process.taking? = some found →
    found < world.path.inodes ∧ ∀ other, ¬ world.Holds other found
  probed : ∀ number process pid found, world.processes number = some process → process.probing? = some (pid, found) →
    found < world.path.inodes ∧ ∀ other holder, world.processes other = some holder → found ∈ holder.held → holder.pid = pid

variable {world : World}

theorem sole_initial {start : World} (alone : ∀ number, start.processes number = none) : Sole start := by
  have nobody : ∀ number process, start.processes number ≠ some process := fun number process found => by
    rw [alone] at found
    cases found
  exact {
    held := fun number process _ found => absurd found (nobody number process)
    once := fun number process found => absurd found (nobody number process)
    one := fun _ _ _ _ ⟨process, found, _⟩ => absurd found (nobody _ process)
    taken := fun number process _ found => absurd found (nobody number process)
    probed := fun number process _ _ found => absurd found (nobody number process) }

variable {number : Nat} {next : Option Process} {process : Process}

theorem processes_put {other : Nat} :
    (world.put number next).processes other = some process ↔
      (other = number ∧ next = some process) ∨ (other ≠ number ∧ world.processes other = some process) := by
  unfold World.put
  dsimp only
  rw [Function.update_apply]
  split
  · next same => simp [same]
  · next differs => simp [differs]

theorem Sole.exclusive (sole : Sole world) : world.Exclusive := by
  intro first second ⟨left, found, filled⟩ ⟨right, found', filled'⟩
  obtain ⟨run, others, shape⟩ := List.exists_cons_of_ne_nil filled
  obtain ⟨run', others', shape'⟩ := List.exists_cons_of_ne_nil filled'
  refine sole.one first second run.inode run'.inode ⟨left, found, ?_⟩ ⟨right, found', ?_⟩
  · simp [Process.held, shape]
  · simp [Process.held, shape']

/-! ### What one operation does -/

variable {path : LockPath}

/-- A process goes on and keeps what it has, and the lock stays its holder's. -/
theorem Sole.move (sole : Sole world) {next : Process}
    (found : world.processes number = some process) (pid : next.pid = process.pid) (held : next.held.Perm process.held)
    (inodes : world.path.inodes ≤ path.inodes)
    (keeps : ∀ other holder lock, world.processes other = some holder → world.path.file = some lock → lock.inode ∈ holder.held →
      OwnedBy holder.pid lock.content → ∃ kept, path.file = some kept ∧ kept.inode = lock.inode ∧ OwnedBy holder.pid kept.content)
    (taking : ∀ inode, next.taking? = some inode → inode < world.path.inodes ∧ ∀ other, ¬ world.Holds other inode)
    (probing : ∀ owner inode, next.probing? = some (owner, inode) → inode < world.path.inodes ∧
      ∀ other holder, world.processes other = some holder → inode ∈ holder.held → holder.pid = owner) :
    Sole { world.put number (some next) with path } := by
  have before : ∀ other holder, (world.put number (some next)).processes other = some holder →
      ∃ old, world.processes other = some old ∧ holder.pid = old.pid ∧ holder.held.Perm old.held := by
    intro other holder there
    rcases processes_put.mp there with ⟨rfl, same⟩ | ⟨-, there⟩
    · cases same
      exact ⟨process, found, pid, held⟩
    · exact ⟨holder, there, rfl, .refl _⟩
  have holds : ∀ other inode, World.Holds { world.put number (some next) with path } other inode → world.Holds other inode := by
    rintro other inode ⟨holder, there, inside⟩
    obtain ⟨old, earlier, -, same⟩ := before other holder there
    exact ⟨old, earlier, same.mem_iff.mp inside⟩
  constructor
  · intro other holder inode there inside
    obtain ⟨old, earlier, same, kept⟩ := before other holder there
    obtain ⟨lock, file, rfl, owned⟩ := sole.held other old inode earlier (kept.mem_iff.mp inside)
    rw [same]
    exact keeps other old lock earlier file (kept.mem_iff.mp inside) owned
  · intro other holder there
    obtain ⟨old, earlier, -, kept⟩ := before other holder there
    rw [kept.length_eq]
    exact sole.once other old earlier
  · exact fun first second i j left right => sole.one first second i j (holds _ _ left) (holds _ _ right)
  · intro other holder inode there takes
    have both : inode < world.path.inodes ∧ ∀ other, ¬ world.Holds other inode := by
      rcases processes_put.mp there with ⟨rfl, same⟩ | ⟨-, there⟩
      · cases same
        exact taking inode takes
      · exact sole.taken other holder inode there takes
    exact ⟨lt_of_lt_of_le both.1 inodes, fun other held => both.2 other (holds _ _ held)⟩
  · intro other holder owner inode there probes
    have both : inode < world.path.inodes ∧
        ∀ other holder, world.processes other = some holder → inode ∈ holder.held → holder.pid = owner := by
      rcases processes_put.mp there with ⟨rfl, same⟩ | ⟨-, there⟩
      · cases same
        exact probing owner inode probes
      · exact sole.probed other holder owner inode there probes
    refine ⟨lt_of_lt_of_le both.1 inodes, fun other holder there inside => ?_⟩
    obtain ⟨old, earlier, same, kept⟩ := before other holder there
    rw [same]
    exact both.2 other old earlier (kept.mem_iff.mp inside)

theorem Sole.alone (sole : Sole world)
    (inodes : world.path.inodes ≤ path.inodes)
    (others : ∀ other process, other ≠ number → world.processes other = some process → process.held = [])
    (idle : ∀ process, next = some process → process.taking? = none ∧ process.probing? = none)
    (own : ∀ process, next = some process → process.held = [] ∨ process.held = [world.path.inodes] ∧
      ∃ lock, path.file = some lock ∧ lock.inode = world.path.inodes ∧ OwnedBy process.pid lock.content) :
    Sole { world.put number next with path } := by
  have holder : ∀ other process inode, (world.put number next).processes other = some process → inode ∈ process.held →
      other = number ∧ inode = world.path.inodes ∧
        ∃ lock, path.file = some lock ∧ lock.inode = world.path.inodes ∧ OwnedBy process.pid lock.content := by
    intro other process inode there inside
    rcases processes_put.mp there with ⟨rfl, same⟩ | ⟨differs, there⟩
    · rcases own process same with none_ | ⟨one, lock, file⟩
      · rw [none_] at inside
        cases inside
      · rw [one, List.mem_singleton] at inside
        exact ⟨rfl, inside, lock, file⟩
    · rw [others other process differs there] at inside
      cases inside
  have fresh : ∀ other inode, inode < world.path.inodes → ¬ World.Holds { world.put number next with path } other inode := by
    rintro other inode bound ⟨process, there, inside⟩
    rw [(holder other process inode there inside).2.1] at bound
    exact lt_irrefl _ bound
  constructor
  · intro other process inode there inside
    obtain ⟨-, rfl, file⟩ := holder other process inode there inside
    exact file
  · intro other process there
    rcases processes_put.mp there with ⟨rfl, same⟩ | ⟨differs, there⟩
    · rcases own process same with none_ | ⟨one, -⟩
      · simp [none_]
      · simp [one]
    · simp [others other process differs there]
  · rintro first second i j ⟨left, there, inside⟩ ⟨right, there', inside'⟩
    rw [(holder first left i there inside).1, (holder second right j there' inside').1]
  · intro other process inode there takes
    rcases processes_put.mp there with ⟨rfl, same⟩ | ⟨-, there⟩
    · rw [(idle process same).1] at takes
      cases takes
    · have bound := (sole.taken other process inode there takes).1
      exact ⟨lt_of_lt_of_le bound inodes, fun other => fresh other inode bound⟩
  · intro other process owner inode there probes
    rcases processes_put.mp there with ⟨rfl, same⟩ | ⟨-, there⟩
    · rw [(idle process same).2] at probes
      cases probes
    · have bound := (sole.probed other process owner inode there probes).1
      exact ⟨lt_of_lt_of_le bound inodes, fun other holder there inside => absurd ⟨holder, there, inside⟩ (fresh other inode bound)⟩

theorem Sole.clear (sole : Sole world)
    (idle : ∀ process, next = some process → process.held = [] ∧ process.taking? = none ∧ process.probing? = none) :
    Sole (world.put number next) := by
  have before : ∀ other process inode, (world.put number next).processes other = some process → inode ∈ process.held →
      world.processes other = some process := by
    intro other process inode there inside
    rcases processes_put.mp there with ⟨rfl, same⟩ | ⟨-, there⟩
    · rw [(idle process same).1] at inside
      cases inside
    · exact there
  have holds : ∀ other inode, (world.put number next).Holds other inode → world.Holds other inode :=
    fun other inode ⟨process, there, inside⟩ => ⟨process, before other process inode there inside, inside⟩
  constructor
  · exact fun other process inode there inside => sole.held other process inode (before other process inode there inside) inside
  · intro other process there
    rcases processes_put.mp there with ⟨rfl, same⟩ | ⟨-, there⟩
    · rw [(idle process same).1]
      exact Nat.zero_le _
    · exact sole.once other process there
  · exact fun first second i j left right => sole.one first second i j (holds _ _ left) (holds _ _ right)
  · intro other process inode there takes
    rcases processes_put.mp there with ⟨rfl, same⟩ | ⟨-, there⟩
    · rw [(idle process same).2.1] at takes
      cases takes
    · obtain ⟨bound, nobody⟩ := sole.taken other process inode there takes
      exact ⟨bound, fun other held => nobody other (holds _ _ held)⟩
  · intro other process owner inode there probes
    rcases processes_put.mp there with ⟨rfl, same⟩ | ⟨-, there⟩
    · rw [(idle process same).2.2] at probes
      cases probes
    · obtain ⟨bound, holders⟩ := sole.probed other process owner inode there probes
      exact ⟨bound, fun other holder there inside => holders other holder (before other holder inode there inside) inside⟩

theorem Sole.nobody (sole : Sole world) (unheld : ∀ lock number, world.path.file = some lock → ¬ world.Holds number lock.inode)
    (number : Nat) (process : Process) (found : world.processes number = some process) : process.held = [] := by
  cases shape : process.held with
  | nil => rfl
  | cons inode rest =>
    have inside : inode ∈ process.held := by rw [shape]; exact List.mem_cons_self
    obtain ⟨lock, file, same, -⟩ := sole.held number process inode found inside
    exact absurd ⟨process, found, same ▸ inside⟩ (unheld lock number file)

/-- What one operation of a process does to the lock and to what the process has. -/
inductive LockMove (path : LockPath) (choice : Choice) (process : Process) : LockPath → Process → Prop where
  | keeps {next : Process} : next.pid = process.pid → next.held = process.held → next.taking? = none → next.probing? = none →
      LockMove path choice process path next
  | asks {next : Process} {lock : LockFile} {payload : LockPayload} {pid : Nat} : next.pid = process.pid →
      next.held = process.held → next.taking? = none → path.file = some lock → lock.content = .payload payload →
      payload.pid = some pid → next.probing? = some (pid, lock.inode) → LockMove path choice process path next
  | finds {next : Process} {lock : LockFile} {payload : LockPayload} : next.pid = process.pid → next.held = process.held →
      next.probing? = none → path.file = some lock → lock.content = .payload payload → payload.suppression ≠ .absent →
      next.taking? = some lock.inode → LockMove path choice process path next
  | hears {next : Process} {pid found : Nat} : next.pid = process.pid → next.held = process.held → next.probing? = none →
      process.probing? = some (pid, found) → choice.probe = .gone → next.taking? = some found →
      LockMove path choice process path next
  | makes {next : Process} {made : LockPath} {inode : Nat} : next.pid = process.pid → path.create = some (inode, made) →
      next.held = process.held ++ [inode] → next.taking? = none → next.probing? = none → LockMove path choice process made next
  | writes {next : Process} {inode : Nat} {options : RunOptions} : next.pid = process.pid → inode ∈ process.held →
      next.held.Perm process.held → next.taking? = none → next.probing? = none →
      LockMove path choice process (path.write inode (.payload (.run process.pid options))) next
  | takes {next : Process} {found : Nat} : next.pid = process.pid → process.taking? = some found → next.held = process.held →
      next.taking? = none → next.probing? = none → LockMove path choice process path.remove next
  | releases {next : Process} {after : LockPath} {inode : Nat} : process.held = next.held ++ [inode] →
      path.inodes ≤ after.inodes → next.taking? = none → next.probing? = none → LockMove path choice process after next

theorem LockPath.probed_some {own pid inode : Nat} (probed : path.probed own = some (pid, inode)) :
    ∃ lock payload, path.file = some lock ∧ lock.inode = inode ∧ lock.content = .payload payload ∧ payload.pid = some pid := by
  unfold LockPath.probed at probed
  split at probed
  · next payload file =>
    obtain ⟨pid', named, same⟩ := Option.bind_eq_some_iff.mp probed
    split at same
    · cases same
    · cases same
      exact ⟨_, payload, file, rfl, rfl, named⟩
  · cases probed

theorem LockPath.le_writeText (path : LockPath) (content : Content) : path.inodes ≤ (path.writeText content).inodes := by
  unfold LockPath.writeText
  split
  · exact le_refl _
  · exact Nat.le_succ _

section
variable {path after : LockPath} {choice : Choice} {process next : Process}

theorem moves_entering {options : RunOptions} {phase : EnterPhase} (called : process.call = some (.entering options phase))
    (ran : process.stepEntering path choice options phase = (after, next)) : LockMove path choice process after next := by
  cases phase with
  | create =>
    unfold Process.stepEntering at ran
    dsimp only at ran
    split at ran
    · next inode made created =>
      cases ran
      exact .makes rfl created (by simp [Process.held, Process.goesOn, called]) rfl rfl
    · cases ran
      exact .keeps rfl (by simp [Process.held, Process.goesOn, called]) rfl rfl
  | read =>
    unfold Process.stepEntering at ran
    dsimp only at ran
    split at ran
    · cases ran
      exact .keeps rfl (by simp [Process.held, Process.ends, called]) rfl rfl
    · next inode payload file =>
      split at ran
      · cases ran
        exact .keeps rfl (by simp [Process.held, Process.goesOn, called]) rfl rfl
      · next stated =>
        cases ran
        exact .finds rfl (by simp [Process.held, Process.goesOn, called]) rfl file rfl stated rfl
    · cases ran
      exact .keeps rfl (by simp [Process.held, Process.goesOn, called]) rfl rfl
  | owner =>
    unfold Process.stepEntering at ran
    dsimp only at ran
    split at ran
    · next pid inode probed =>
      cases ran
      obtain ⟨lock, payload, file, rfl, content, named⟩ := LockPath.probed_some probed
      exact .asks rfl (by simp [Process.held, Process.goesOn, called]) rfl file content named rfl
    · cases ran
      exact .keeps rfl (by simp [Process.held, Process.ends, called]) rfl rfl
  | probe pid found =>
    unfold Process.stepEntering at ran
    dsimp only at ran
    split at ran
    · cases ran
      exact .keeps rfl (by simp [Process.held, Process.ends, called]) rfl rfl
    · next gone =>
      cases ran
      exact .hears rfl (by simp [Process.held, Process.goesOn, called]) rfl (show process.probing? = some (pid, found) by simp [Process.probing?, called])
        gone rfl
    · cases ran
      exact .keeps rfl (by simp [Process.held, Process.ends, called]) rfl rfl
  | unlink found =>
    cases ran
    exact .takes rfl (show process.taking? = some found by simp [Process.taking?, called]) (by simp [Process.held, Process.goesOn, called]) rfl rfl
  | recreate =>
    unfold Process.stepEntering at ran
    dsimp only at ran
    split at ran
    · next inode made created =>
      cases ran
      exact .makes rfl created (by simp [Process.held, Process.goesOn, called]) rfl rfl
    · cases ran
      exact .keeps rfl (by simp [Process.held, Process.ends, called]) rfl rfl
  | write inode =>
    unfold Process.stepEntering at ran
    dsimp only at ran
    split at ran
    · cases ran
      refine .writes rfl (by simp [Process.held, called]) ?_ rfl rfl
      simp only [Process.held, Process.ends, called, List.map_cons, List.append_nil]
      exact (List.perm_append_singleton _ _).symm
    · cases ran
      exact .keeps rfl (by simp [Process.held, Process.goesOn, called]) rfl rfl

theorem moves_observing {triggerId : Option String} {phase : ObservePhase} (called : process.call = some (.observing triggerId phase))
    (ran : process.stepObserving path choice triggerId phase = (after, next)) : LockMove path choice process after next := by
  have ended : ∀ reply, LockMove path choice process path (process.ends reply) := fun reply =>
    .keeps rfl (by simp [Process.held, Process.ends, called]) rfl rfl
  cases phase with
  | read =>
    unfold Process.stepObserving at ran
    dsimp only at ran
    split at ran
    · cases ran
      exact ended _
    · cases ran
      exact ended _
    · cases ran
      exact ended _
    · next inode payload file =>
      split at ran
      · cases ran
        exact .keeps rfl (by simp [Process.held, Process.goesOn, called]) rfl rfl
      · cases ran
        exact ended _
      · cases ran
        exact ended _
      · next time stated =>
        split at ran
        · cases ran
          exact .finds rfl (by simp [Process.held, Process.goesOn, called]) rfl file rfl (by simp [stated]) rfl
        · cases ran
          exact ended _
  | owner =>
    unfold Process.stepObserving at ran
    dsimp only at ran
    split at ran
    · next pid inode probed =>
      cases ran
      obtain ⟨lock, payload, file, rfl, content, named⟩ := LockPath.probed_some probed
      exact .asks rfl (by simp [Process.held, Process.goesOn, called]) rfl file content named rfl
    · cases ran
      exact ended _
  | probe pid found =>
    unfold Process.stepObserving at ran
    dsimp only at ran
    split at ran
    · cases ran
      exact ended _
    · next gone =>
      cases ran
      exact .hears rfl (by simp [Process.held, Process.goesOn, called]) rfl (show process.probing? = some (pid, found) by simp [Process.probing?, called])
        gone rfl
    · cases ran
      exact ended _
  | unlink found =>
    cases ran
    exact .takes rfl (show process.taking? = some found by simp [Process.taking?, called]) (by simp [Process.held, Process.ends, called]) rfl rfl

theorem moves_releasing {run : Run} (called : process.call = some (.releasing run))
    (ran : process.stepReleasing path choice run = (after, next)) : LockMove path choice process after next := by
  unfold Process.stepReleasing at ran
  have held : process.held = (process.ends .left).held ++ [run.inode] := by simp [Process.held, Process.ends, called]
  split at ran
  · cases ran
    exact .releases held (LockPath.le_writeText path _) rfl rfl
  · cases ran
    exact .releases held (le_refl _) rfl rfl

theorem moves_step (ran : process.step path choice = some (after, next)) : LockMove path choice process after next := by
  obtain ⟨call, called, ran⟩ := Option.map_eq_some_iff.mp ran
  cases call with
  | entering options phase => exact moves_entering called ran
  | observing triggerId phase => exact moves_observing called ran
  | releasing run => exact moves_releasing called ran

end

/-! ### Runs -/

theorem LockPath.create_some {made : LockPath} {inode : Nat} (created : path.create = some (inode, made)) :
    path.file = none ∧ inode = path.inodes ∧ made.file = some ⟨inode, .unreadable⟩ ∧ path.inodes ≤ made.inodes := by
  unfold LockPath.create at created
  split at created
  · next absent =>
    cases created
    exact ⟨absent, rfl, rfl, Nat.le_succ _⟩
  · cases created

/-- One operation of a process, where it removes nothing but what it read. -/
theorem sole_act (sole : Sole world) {next : Process} {choice : Choice}
    (found : world.processes number = some process)
    (honest : ∀ pid inode, process.probing? = some (pid, inode) → world.Alive pid → choice.probe ≠ .gone)
    (same : ∀ inode lock, process.taking? = some inode → world.path.file = some lock → lock.inode = inode)
    (move : LockMove world.path choice process path next) : Sole { world.put number (some next) with path } := by
  have stays : ∀ other holder lock, world.processes other = some holder → world.path.file = some lock → lock.inode ∈ holder.held →
      OwnedBy holder.pid lock.content →
      ∃ kept, world.path.file = some kept ∧ kept.inode = lock.inode ∧ OwnedBy holder.pid kept.content :=
    fun _ _ lock _ file _ owned => ⟨lock, file, rfl, owned⟩
  cases move with
  | keeps pid held taking probing =>
    exact sole.move found pid (.of_eq held) (le_refl _) stays (by simp [taking]) (by simp [probing])
  | @asks next lock payload owner pid held taking file content named probing =>
    refine sole.move found pid (.of_eq held) (le_refl _) stays (by simp [taking]) fun asked inode asks => ?_
    rw [probing] at asks
    cases asks
    refine ⟨world.path.numbered lock file, fun other holder there inside => ?_⟩
    -- a lock that can be read is its holder's
    obtain ⟨other_lock, other_file, -, unreadable | ⟨own, stated, mine, -⟩⟩ := sole.held other holder _ there inside
    · cases file.symm.trans other_file
      rw [content] at unreadable
      cases unreadable
    · cases file.symm.trans other_file
      rw [content] at stated
      cases stated
      exact Option.some.inj (mine.symm.trans named)
  | @finds next lock payload pid held probing file content stated taking =>
    refine sole.move found pid (.of_eq held) (le_refl _) stays (fun inode takes => ?_) (by simp [probing])
    rw [taking] at takes
    cases takes
    refine ⟨world.path.numbered lock file, fun other ⟨holder, there, inside⟩ => ?_⟩
    obtain ⟨other_lock, other_file, -, unreadable | ⟨own, same_content, -, absent⟩⟩ := sole.held other holder _ there inside
    · cases file.symm.trans other_file
      rw [content] at unreadable
      cases unreadable
    · cases file.symm.trans other_file
      rw [content] at same_content
      cases same_content
      exact stated absent
  | @hears next owner inode pid held probing asked gone taking =>
    refine sole.move found pid (.of_eq held) (le_refl _) stays (fun taken takes => ?_) (by simp [probing])
    rw [taking] at takes
    cases takes
    obtain ⟨bound, holders⟩ := sole.probed number process owner inode found asked
    refine ⟨bound, fun other ⟨holder, there, inside⟩ => ?_⟩
    exact honest owner inode asked ⟨other, holder, there, holders other holder there inside⟩ gone
  | @makes next made inode pid created held taking probing =>
    obtain ⟨absent, rfl, file, inodes⟩ := LockPath.create_some created
    have unheld := sole.nobody fun lock number stored => by
      rw [absent] at stored
      cases stored
    refine sole.alone inodes (fun other holder _ there => unheld other holder there) (fun _ shape => ?_) fun _ shape => .inr ?_
    · cases shape
      exact ⟨taking, probing⟩
    · cases shape
      rw [held, unheld number process found]
      exact ⟨rfl, _, file, rfl, .inl rfl⟩
  | @writes next inode options pid mine held taking probing =>
    refine sole.move found pid held (le_refl _) (fun other holder lock there file inside owned => ?_) (by simp [taking]) (by simp [probing])
    refine ⟨if lock.inode = inode then { lock with content := .payload (.run process.pid options) } else lock,
      congrArg (Option.map _) file, by split <;> rfl, ?_⟩
    -- the file at the path is the one this process writes, so the holder is this process
    obtain ⟨own_lock, own_file, rfl, -⟩ := sole.held number process inode found mine
    cases file.symm.trans own_file
    cases sole.one other number lock.inode lock.inode ⟨holder, there, inside⟩ ⟨process, found, mine⟩
    cases found.symm.trans there
    rw [if_pos rfl]
    exact .inr ⟨_, rfl, rfl, rfl⟩
  | @takes next inode pid taken held taking probing =>
    obtain ⟨-, nobody⟩ := sole.taken number process inode found taken
    have unheld := sole.nobody fun lock other stored => by
      rw [same inode lock taken stored]
      exact nobody other
    refine sole.alone (le_refl _) (fun other holder _ there => unheld other holder there) (fun _ shape => ?_) fun _ shape => .inl ?_
    · cases shape
      exact ⟨taking, probing⟩
    · cases shape
      rw [held, unheld number process found]
  | @releases next after inode held inodes taking probing =>
    have mine : world.Holds number inode := ⟨process, found, by rw [held]; simp⟩
    have none_left : next.held = [] := by
      have bound := sole.once number process found
      rw [held, List.length_append, List.length_singleton] at bound
      exact List.eq_nil_of_length_eq_zero (by omega)
    refine sole.alone inodes (fun other holder differs there => ?_) (fun _ shape => ?_) fun _ shape => .inl ?_
    · cases shape : holder.held with
      | nil => rfl
      | cons first rest =>
        have holds : world.Holds other first := ⟨holder, there, by rw [shape]; exact List.mem_cons_self⟩
        exact absurd (sole.one other number first inode holds mine) differs
    · cases shape
      exact ⟨taking, probing⟩
    · cases shape
      exact none_left

theorem sole_step {before after : World} {event : Event} (sole : Sole before) (step : Step before event after)
    (careful : TakesWhatItFound before event) : Sole after := by
  cases step with
  | spawn absent unused =>
    refine sole.clear fun process shape => ?_
    cases shape
    exact ⟨rfl, rfl, rfl⟩
  | die => exact sole.clear nofun
  | @enter number process options found idle =>
    refine sole.move found rfl ?_ (le_refl _) (fun _ _ lock _ file _ owned => ⟨lock, file, rfl, owned⟩) nofun nofun
    simp [Process.held, Process.goesOn, idle]
  | @observe number process triggerId found idle =>
    refine sole.move found rfl ?_ (le_refl _) (fun _ _ lock _ file _ owned => ⟨lock, file, rfl, owned⟩) nofun nofun
    simp [Process.held, Process.goesOn, idle]
  | @leave number process run others found idle shape =>
    refine sole.move found rfl ?_ (le_refl _) (fun _ _ lock _ file _ owned => ⟨lock, file, rfl, owned⟩) nofun nofun
    simp only [Process.held, Process.goesOn, idle, shape, List.map_cons, List.append_nil]
    exact List.perm_append_singleton _ _
  | @act number process next choice path found honest ran =>
    exact sole_act sole found honest (fun inode lock takes file => careful number choice process inode lock rfl found takes file)
      (moves_step ran)

theorem one_maintenance_run_at_a_time {start final : World} {events : List Event} (alone : ∀ number, start.processes number = none)
    (run : Exec (Restrict Step TakesWhatItFound) start events final) : final.Exclusive :=
  (run.invariant Sole (fun _ _ _ sole step => sole_step sole step.1 step.2) (sole_initial alone)).exclusive

/-! ### A lock that is taken over -/

/-- A run of process `9` is over, and so is the time its session stays out. -/
def afterRun : World where
  path := ⟨some ⟨0, .payload ⟨some 9, .until 0, ["session"]⟩⟩, 1, by simp⟩
  processes _ := none

theorem alive_put {pid : Nat} (alive : (world.put number (some process)).Alive pid) :
    process.pid = pid ∨ world.Alive pid := by
  obtain ⟨other, found, there, same⟩ := alive
  rcases processes_put.mp there with ⟨-, shape⟩ | ⟨-, there⟩
  · cases shape
    exact .inl same
  · exact .inr ⟨other, found, there, same⟩

theorem alone_afterRun (pid : Nat) : ¬ afterRun.Alive pid := by
  rintro ⟨number, process, found, -⟩
  cases found

def defaults : RunOptions := { ownerSessionIds := ["session"] }

def single (path : LockPath) (process : Process) : World := ⟨path, Function.update (fun _ => none) 0 (some process)⟩

theorem single_found : (single path process).processes 0 = some process := by
  simp [single]

theorem single_put {path after : LockPath} {process next : Process} :
    ⟨after, ((single path process).put 0 (some next)).processes⟩ = single after next := by
  simp [single, World.put]

theorem single_enter {options : RunOptions} (idle : process.call = none) :
    Restrict Step TakesWhatItFound (single path process) (.enter 0 options)
      (single path (process.goesOn (.entering options .create))) := by
  rw [← @single_put path path process (process.goesOn _)]
  exact ⟨.enter single_found idle, by rintro _ _ _ _ _ ⟨⟩⟩

theorem single_act {after : LockPath} {next : Process} {choice : Choice} (honest : choice.probe ≠ .gone)
    (ran : process.step path choice = some (after, next))
    (same : ∀ inode, process.taking? = some inode → ∀ lock ∈ path.file, lock.inode = inode) :
    Restrict Step TakesWhatItFound (single path process) (.act 0 choice) (single after next) := by
  rw [← @single_put path after process]
  refine ⟨.act single_found (fun _ _ _ _ => honest) ran, ?_⟩
  rintro _ _ other inode lock ⟨⟩ there takes file
  cases single_found.symm.trans there
  exact same inode takes lock file

/-- One process takes the lock of the run that is over and is inside its own. -/
theorem one_maintenance_run_takes_over : ∃ final, Exec (Restrict Step TakesWhatItFound) afterRun
    [.spawn 0 1, .enter 0 defaults, .act 0 {}, .act 0 {}, .act 0 {}, .act 0 {}, .act 0 {}] final ∧ final.Inside 0 ∧ final.Exclusive := by
  let born : Process := ⟨1, [], none, none⟩
  let made : LockPath := ⟨some ⟨1, .unreadable⟩, 2, by simp⟩
  have spawned : Restrict Step TakesWhatItFound afterRun (.spawn 0 1) (single afterRun.path born) :=
    ⟨.spawn rfl (alone_afterRun 1), by rintro _ _ _ _ _ ⟨⟩⟩
  have enters : Restrict Step TakesWhatItFound (single afterRun.path born) (.enter 0 defaults)
      (single afterRun.path (born.goesOn (.entering defaults .create))) :=
    single_enter rfl
  have failed : Restrict Step TakesWhatItFound (single afterRun.path (born.goesOn (.entering defaults .create))) (.act 0 {})
      (single afterRun.path (born.goesOn (.entering defaults .read))) :=
    single_act nofun rfl nofun
  have reads : Restrict Step TakesWhatItFound (single afterRun.path (born.goesOn (.entering defaults .read))) (.act 0 {})
      (single afterRun.path (born.goesOn (.entering defaults (.unlink 0)))) :=
    single_act nofun rfl nofun
  have removes : Restrict Step TakesWhatItFound (single afterRun.path (born.goesOn (.entering defaults (.unlink 0)))) (.act 0 {})
      (single afterRun.path.remove (born.goesOn (.entering defaults .recreate))) :=
    single_act nofun rfl (by simp [Process.taking?, Process.goesOn, afterRun])
  have makes : Restrict Step TakesWhatItFound (single afterRun.path.remove (born.goesOn (.entering defaults .recreate))) (.act 0 {})
      (single made (born.goesOn (.entering defaults (.write 1)))) :=
    single_act nofun rfl nofun
  have writes : Restrict Step TakesWhatItFound (single made (born.goesOn (.entering defaults (.write 1)))) (.act 0 {})
      (single (made.write 1 (.payload (.run 1 defaults))) { born.ends .entered with runs := [⟨1, defaults⟩] }) :=
    single_act nofun rfl nofun
  have run := Exec.cons spawned (.cons enters (.cons failed (.cons reads (.cons removes (.cons makes (.cons writes (.nil _)))))))
  exact ⟨_, run, ⟨_, single_found, List.cons_ne_nil _ _⟩, one_maintenance_run_at_a_time (fun _ => rfl) run⟩

/-- Two processes read the lock of the run that is over; the first one removes it after the second one has
made its own. -/
theorem one_maintenance_run_fails : ¬ ∀ (start final : World) (events : List Event), (∀ number, start.processes number = none) →
    Exec Step start events final → final.Exclusive := by
  intro all
  have ran : ∃ final, Exec Step afterRun [.spawn 0 1, .spawn 1 2, .enter 0 defaults, .act 0 {}, .act 0 {}, .enter 1 defaults,
      .act 1 {}, .act 1 {}, .act 1 {}, .act 1 {}, .act 1 {}, .act 0 {}, .act 0 {}, .act 0 {}] final ∧
      final.Inside 0 ∧ final.Inside 1 := by
    refine ⟨_, .cons (.spawn rfl (alone_afterRun 1)) (.cons (.spawn rfl fun alive => ?_) (.cons (.enter rfl rfl)
      (.cons (.act rfl nofun rfl) (.cons (.act rfl nofun rfl) (.cons (.enter rfl rfl) (.cons (.act rfl nofun rfl)
      (.cons (.act rfl nofun rfl) (.cons (.act rfl nofun rfl) (.cons (.act rfl nofun rfl) (.cons (.act rfl nofun rfl)
      (.cons (.act rfl nofun rfl) (.cons (.act rfl nofun rfl) (.cons (.act rfl nofun rfl) (.nil _)))))))))))))), ?_, ?_⟩
    · rcases alive_put alive with same | alive
      · cases same
      · exact alone_afterRun 2 alive
    · exact ⟨_, rfl, List.cons_ne_nil _ _⟩
    · exact ⟨_, rfl, List.cons_ne_nil _ _⟩
  obtain ⟨final, run, first, second⟩ := ran
  exact absurd (all afterRun final _ (fun _ => rfl) run 0 1 first second) (by decide)

end HarnessMem.Maintenance
