import HarnessMem.Background.Exclusion

/-! No trigger is lost: a pending request is covered by the lock, or by a process that will
look at the lock or read the directory again.
-/

set_option autoImplicit false

namespace HarnessMem.Background

open Library

variable {hashes : Hashes}

/-! ### Who covers a pending file -/

def PendingScan.Covers (name : PendingName) : PendingScan → Prop
  | .rename | .list => True
  | .read left found => name ∈ left ∨ found ≠ []

/-- A process that will try to make the lock, or reload the directory, after this moment. -/
def Process.Covers (name : PendingName) : Process → Prop
  | .persisting _ | .ensuring _ _ .create | .ensuring _ _ .recreate => True
  | .handing _ scan => scan.Covers name
  | _ => False

def Process.CoversLegacy : Process → Prop
  | .persisting _ | .ensuring _ _ .create | .ensuring _ _ .recreate | .handing _ .rename => True
  | _ => False

def Choice.Steady (choice : Choice) : Prop := choice.spawns = true

variable {process : Process}

theorem Process.covers_of_legacy (covers : process.CoversLegacy) (name : PendingName) : process.Covers name := by
  cases process with
  | persisting => trivial
  | ensuring request now phase => cases phase <;> trivial
  | handing worker scan =>
    cases scan with
    | rename => trivial
    | _ => cases covers
  | _ => cases covers

/-- The lock stands, or some process covers what `covers` says. -/
def World.Guarded (world : World) (covers : Process → Prop) : Prop :=
  world.files.lock.file.isSome = true ∨ ∃ number : Nat, ∃ process, world.processes[number]? = some process ∧ covers process

/-- Every readable pending file and a readable base slot are seen to. -/
structure Covered (world : World) : Prop where
  pending : ∀ file ∈ world.files.pending.rows, file.request.isSome = true → world.Guarded (Process.Covers file.name)
  legacy : world.processes ≠ [] → ∀ request, world.files.legacy = some (some request) → world.Guarded Process.CoversLegacy

/-! ### One operation -/

/-- What one operation of a process does to the pending files and the base slot. -/
inductive DirectoryMove (hashes : Hashes) (uuid : String) (files : Files) : Process → Files → Prop where
  | keeps {process : Process} {after : Files} : after.pending = files.pending → after.legacy = files.legacy →
      DirectoryMove hashes uuid files process after
  | persists {request : BackgroundRequest} : DirectoryMove hashes uuid files (.persisting request) (files.persist hashes request)
  | renames {process : Process} : DirectoryMove hashes uuid files process (files.renameLegacy uuid)
  | unlinks {worker : Worker} {processed : Option String} {item : Pending} {left : List Pending} :
      DirectoryMove hashes uuid files (.retiring worker processed (item :: left)) (files.unlinkPending item.1)

variable {files after : Files} {uuid : String}

theorem PendingScan.directory_step {order : Scan PendingName} {scan : PendingScan}
    {scanned : Scanned} (ran : scan.step files uuid order = (after, scanned)) (process : Process) :
    DirectoryMove hashes uuid files process after := by
  cases scan with
  | rename =>
    cases ran
    exact .renames
  | list =>
    cases ran
    exact .keeps rfl rfl
  | read left found =>
    cases left with
    | nil =>
      cases ran
      exact .keeps rfl rfl
    | cons name left =>
      simp only [PendingScan.step] at ran
      split at ran <;> cases ran <;> exact .keeps rfl rfl

variable {clock : Time} {choice : Choice} {next : Process} {spawned : Option Worker}

theorem Process.directory_step (ran : process.step hashes files clock choice = some (after, next, spawned)) :
    DirectoryMove hashes choice.uuid files process after := by
  cases process with
  | persisting request =>
    cases ran
    exact .persists
  | ensuring request now phase =>
    simp only [Process.step] at ran
    split at ran <;> cases ran <;> exact .keeps rfl rfl
  | loading worker readiness scan =>
    simp only [Process.step] at ran
    split at ran
    · next stepped =>
      cases ran
      exact PendingScan.directory_step stepped _
    · next stepped =>
      split at ran <;> cases ran <;> exact PendingScan.directory_step stepped _
  | leasing worker processed =>
    simp only [Process.step] at ran
    split at ran
    · split at ran <;> cases ran <;> exact .keeps rfl rfl
    · cases ran
      exact .keeps rfl rfl
  | recovering worker processed scan =>
    simp only [Process.step] at ran
    split at ran
    all_goals
      next stepped =>
        cases ran
        exact PendingScan.directory_step stepped _
  | retiring worker processed left =>
    cases left with
    | nil =>
      cases ran
      exact .keeps rfl rfl
    | cons item left =>
      cases ran
      exact .unlinks
  | releasing worker =>
    cases ran
    exact .keeps rfl rfl
  | handing worker scan =>
    simp only [Process.step] at ran
    split at ran
    · next stepped =>
      cases ran
      exact PendingScan.directory_step stepped _
    · next stepped =>
      split at ran <;> cases ran <;> exact PendingScan.directory_step stepped _
  | renewing lease phase => cases phase <;> cases ran <;> exact .keeps rfl rfl
  | working | returned => cases ran

variable {file : PendingFile}

theorem DirectoryMove.pending (move : DirectoryMove hashes uuid files process after) (member : file ∈ after.pending.rows) :
    file ∈ files.pending.rows ∨ (∃ request, process = .persisting request ∧ file = ⟨pendingName hashes request.generation, some request⟩) ∨
      (files.legacy = some file.request ∧ file.name = .legacy uuid) := by
  cases move with
  | keeps pending _ => exact .inl (pending ▸ member)
  | @persists request =>
    rcases (Table.mem_upsert _ _ _).mp member with same | old
    · exact .inr (.inl ⟨request, rfl, same⟩)
    · exact .inl old.1
  | renames =>
    unfold Files.renameLegacy at member
    split at member
    · exact .inl member
    · next content legacy =>
      rcases (Table.mem_upsert _ _ _).mp member with rfl | old
      · exact .inr (.inr ⟨legacy, rfl⟩)
      · exact .inl old.1
  | unlinks => exact .inl (List.mem_filter.mp member).1

theorem DirectoryMove.legacy (move : DirectoryMove hashes uuid files process after) {content : Option BackgroundRequest}
    (stands : after.legacy = some content) : files.legacy = some content := by
  cases move with
  | keeps _ legacy => exact legacy ▸ stands
  | persists | unlinks => exact stands
  | renames =>
    unfold Files.renameLegacy at stands
    split at stands
    · exact stands
    · cases stands

theorem Process.lock_lost (ran : process.step hashes files clock choice = some (after, next, spawned))
    (steady : choice.Steady) (stood : files.lock.file.isSome = true) :
    after.lock.file.isSome = true ∨ next.CoversLegacy := by
  have move := Process.lock_step ran
  generalize slot : after.lock = afterLock at move
  cases move with
  | keeps | yields | finds | hands => exact .inl stood
  | touches | writes =>
    left
    exact (Option.isSome_map ..).trans stood
  | makes made =>
    obtain ⟨_, _, _, lock, file, _⟩ := LockSlot.create_some made
    exact .inl (Option.isSome_iff_exists.mpr ⟨lock, file⟩)
  | takes => exact .inr trivial
  | frees => exact .inr trivial
  | fails failed =>
    rw [show choice.spawns = true from steady] at failed
    cases failed

theorem Process.lock_made {now : Time} {request : BackgroundRequest}
    {phase : Phase} (tries : phase = .create ∨ phase = .recreate)
    (ran : (Process.ensuring request now phase).step hashes files clock choice = some (after, next, spawned)) :
    after.lock.file.isSome = true := by
  cases made : files.lock.create clock with
  | some pair =>
    obtain ⟨_, _, _, lock, file, _⟩ := LockSlot.create_some made
    have stands := Option.isSome_iff_exists.mpr ⟨lock, file⟩
    rcases tries with rfl | rfl
    all_goals
      simp only [Process.step, Phase.step, made] at ran
      cases ran
      exact stands
  | none =>
    have stands : files.lock.file.isSome = true := by
      unfold LockSlot.create at made
      split at made
      · next lock file => rw [file]; rfl
      · cases made
    rcases tries with rfl | rfl
    all_goals
      simp only [Process.step, Phase.step, made] at ran
      cases ran
      exact stands

theorem Process.covers_step (ran : process.step hashes files clock choice = some (after, next, spawned))
    (member : file ∈ after.pending.rows) (readable : file.request.isSome = true) (covers : process.Covers file.name) :
    after.lock.file.isSome = true ∨ next.Covers file.name := by
  cases process with
  | persisting request =>
    cases ran
    exact .inr trivial
  | ensuring request now phase =>
    left
    cases phase with
    | create => exact Process.lock_made (.inl rfl) ran
    | recreate => exact Process.lock_made (.inr rfl) ran
    | _ => cases covers
  | handing worker scan =>
    right
    cases scan with
    | rename =>
      cases ran
      trivial
    | list =>
      cases ran
      left
      exact (choice.order.mem_order _ _).mpr (List.mem_map_of_mem member)
    | read left found =>
      cases left with
      | nil =>
        have filled : found ≠ [] := covers.resolve_left List.not_mem_nil
        cases chosen : chooseRequest none found with
        | none => exact absurd (chooseRequest_eq_none.mp chosen) filled
        | some pair =>
          simp only [Process.step, PendingScan.step, chosen] at ran
          cases ran
          trivial
      | cons name left =>
        simp only [Process.step, PendingScan.step] at ran
        cases read : files.readRequest name with
        | some request =>
          rw [read] at ran
          cases ran
          exact .inr (by simp)
        | none =>
          rw [read] at ran
          cases ran
          rcases covers with here | filled
          · rcases List.mem_cons.mp here with same | later
            · -- the file is there and can be read
              have found := Table.get?_of_mem member
              rw [same] at found
              unfold Files.readRequest at read
              rw [found] at read
              rw [show file.request = none from read] at readable
              cases readable
            · exact .inl later
          · exact .inr filled
  | _ => cases covers

theorem Process.legacy_step (ran : process.step hashes files clock choice = some (after, next, spawned))
    (covers : process.CoversLegacy) :
    after.lock.file.isSome = true ∨ next.CoversLegacy ∨ (after.legacy = none ∧ ∀ name, next.Covers name) := by
  cases process with
  | persisting request =>
    cases ran
    exact .inr (.inl trivial)
  | ensuring request now phase =>
    left
    cases phase with
    | create => exact Process.lock_made (.inl rfl) ran
    | recreate => exact Process.lock_made (.inr rfl) ran
    | _ => cases covers
  | handing worker scan =>
    cases scan with
    | rename =>
      cases ran
      refine .inr (.inr ⟨?_, fun _ => trivial⟩)
      show (files.renameLegacy choice.uuid).legacy = none
      unfold Files.renameLegacy
      split
      · assumption
      · rfl
    | _ => cases covers
  | _ => cases covers

/-! ### Runs -/

def Event.Steady : Event → Prop
  | .act _ choice => choice.Steady
  | .die _ => False
  | _ => True

theorem process_kept {processes : List Process} {number other : Nat} {spawned : List Process}
    (found : processes[other]? = some process) (differs : other ≠ number) :
    (processes.set number next ++ spawned)[other]? = some process := by
  have inside := (List.getElem?_eq_some_iff.mp found).1
  rw [List.getElem?_append_left (by simpa using inside), List.getElem?_set_ne (Ne.symm differs)]
  exact found

variable {before : World}

theorem World.Guarded.move {after : World} {number : Nat} {spawned : List Process}
    {covers covers' : Process → Prop} (guarded : before.Guarded covers) (found : before.processes[number]? = some process)
    (processes : after.processes = before.processes.set number next ++ spawned)
    (lock : before.files.lock.file.isSome = true → after.files.lock.file.isSome = true ∨ covers' next)
    (others : ∀ other, covers other → covers' other) (own : covers process → after.files.lock.file.isSome = true ∨ covers' next) :
    after.Guarded covers' := by
  have here : after.processes[number]? = some next := by
    have inside := (List.getElem?_eq_some_iff.mp found).1
    rw [processes, List.getElem?_append_left (by simpa using inside), List.getElem?_set_self inside]
  rcases guarded with stands | ⟨other, holder, there, covered⟩
  · exact (lock stands).imp id fun covered => ⟨number, next, here, covered⟩
  · by_cases same : other = number
    · subst same
      cases found.symm.trans there
      exact (own covered).imp id fun covered => ⟨other, next, here, covered⟩
    · exact .inr ⟨other, holder, processes ▸ process_kept there same, others holder covered⟩

theorem World.Guarded.mono {after : World} {covers : Process → Prop} (guarded : before.Guarded covers)
    (lock : after.files.lock = before.files.lock)
    (kept : ∀ number : Nat, ∀ process, before.processes[number]? = some process → covers process →
      after.processes[number]? = some process) : after.Guarded covers := by
  rcases guarded with stands | ⟨number, process, found, covered⟩
  · exact .inl (lock ▸ stands)
  · exact .inr ⟨number, process, kept number process found covered, covered⟩

theorem Covered.act {before after : World} {number : Nat} {choice : Choice} {process next : Process} {spawned : Option Worker}
    (covered : Covered before) (steady : choice.Steady) (found : before.processes[number]? = some process)
    (ran : process.step hashes before.files before.clock choice = some (after.files, next, spawned))
    (processes : after.processes = before.processes.set number next ++ (spawned.map Process.working).toList) : Covered after := by
  have busy : before.processes ≠ [] := List.ne_nil_of_mem (List.mem_of_getElem? found)
  have lost : ∀ covers : Process → Prop, (∀ other : Process, other.CoversLegacy → covers other) →
      before.files.lock.file.isSome = true → after.files.lock.file.isSome = true ∨ covers next := by
    intro covers weaker stood
    exact (Process.lock_lost ran steady stood).imp id (weaker next)
  constructor
  · intro file member readable
    have all : ∀ other : Process, other.CoversLegacy → other.Covers file.name :=
      fun other legacy => Process.covers_of_legacy legacy file.name
    rcases (Process.directory_step ran).pending member with old | ⟨request, rfl, _⟩ | ⟨legacy, _⟩
    · exact (covered.pending file old readable).move found processes (lost _ all) (fun _ => id)
        (Process.covers_step ran member readable)
    · have covers : next.Covers file.name := by
        simp only [Process.step, Option.some.injEq, Prod.mk.injEq] at ran
        rw [← ran.2.1]
        trivial
      have moved : after.processes[number]? = some next := by
        have inside := (List.getElem?_eq_some_iff.mp found).1
        rw [processes, List.getElem?_append_left (by simpa using inside), List.getElem?_set_self inside]
      exact .inr ⟨number, next, moved, covers⟩
    · obtain ⟨request, content⟩ := Option.isSome_iff_exists.mp readable
      rw [content] at legacy
      refine (covered.legacy busy request legacy).move found processes (lost _ all) all fun covers => ?_
      rcases Process.legacy_step ran covers with stands | still | ⟨_, everything⟩
      · exact .inl stands
      · exact .inr (all next still)
      · exact .inr (everything file.name)
  · intro _ request legacy
    have old := (Process.directory_step ran).legacy legacy
    refine (covered.legacy busy request old).move found processes (lost _ fun _ => id) (fun _ => id) fun covers => ?_
    rcases Process.legacy_step ran covers with stands | still | ⟨gone, _⟩
    · exact .inl stands
    · exact .inr still
    · rw [gone] at legacy
      cases legacy

theorem Covered.step {after : World} {event : Event} (covered : Covered before) (step : Step hashes before event after)
    (steady : event.Steady) : Covered after := by
  -- a worker that begins a call has covered nothing
  have begins : ∀ {number : Nat} {worker : Worker} {next : Process}, before.processes[number]? = some (.working worker) →
      Covered (before.put number next) := by
    intro number worker next found
    have kept : ∀ covers : Process → Prop, ¬ covers (.working worker) → ∀ other : Nat, ∀ process,
        before.processes[other]? = some process → covers process → (before.put number next).processes[other]? = some process := by
      intro covers idle other process there covered
      have differs : number ≠ other := by
        rintro rfl
        cases found.symm.trans there
        exact idle covered
      exact (List.getElem?_set_ne differs).trans there
    refine ⟨fun file member readable => (covered.pending file member readable).mono rfl (kept _ id), fun _ request legacy => ?_⟩
    exact (covered.legacy (List.ne_nil_of_mem (List.mem_of_getElem? found)) request legacy).mono rfl (kept _ id)
  unfold Step at step
  cases event with
  | tick elapsed =>
    cases step
    exact ⟨covered.pending, covered.legacy⟩
  | dispatch request =>
    simp only [World.next] at step
    split at step
    · cases step
      have added : (before.processes ++ [Process.persisting request])[before.processes.length]? = some (.persisting request) :=
        List.getElem?_concat_length
      exact ⟨fun _ _ _ => .inr ⟨_, _, added, trivial⟩, fun _ _ _ => .inr ⟨_, _, added, trivial⟩⟩
    · cases step
  | load number readiness =>
    simp only [World.next] at step
    split at step
    · next worker found =>
      cases step
      exact begins found
    · cases step
  | finish number processed =>
    simp only [World.next] at step
    split at step
    · next worker found =>
      cases step
      exact begins found
    · cases step
  | renew number =>
    simp only [World.next] at step
    split at step
    · next worker alive =>
      cases step
      have kept : ∀ covers : Process → Prop, ∀ other : Nat, ∀ process, before.processes[other]? = some process → covers process →
          (before.processes ++ [Process.renewing worker.lease .look])[other]? = some process := by
        intro covers other process there _
        rw [List.getElem?_append_left (List.getElem?_eq_some_iff.mp there).1]
        exact there
      obtain ⟨process, found, _⟩ := Option.bind_eq_some_iff.mp alive
      refine ⟨fun file member readable => (covered.pending file member readable).mono rfl (kept _), fun _ request legacy => ?_⟩
      exact (covered.legacy (List.ne_nil_of_mem (List.mem_of_getElem? found)) request legacy).mono rfl (kept _)
    · cases step
  | act number choice =>
    simp only [World.next] at step
    split at step
    · cases step
    · split at step
      · next ran =>
        cases step
        obtain ⟨process, found, moved⟩ := Option.bind_eq_some_iff.mp ran
        exact covered.act steady found moved rfl
      · cases step
  | die number => cases steady

/-! ### The owner of the lock -/

/-- The lock has one holder, and it bears the generation that its holder has written. -/
structure Owned (world : World) : Prop where
  owned : ∀ lock, world.files.lock.file = some lock → ∃ number, world.Holds number lock.inode
  bound : ∀ number inode, world.Holds number inode → inode < world.files.lock.inodes
  one : ∀ first second inode, world.Holds first inode → world.Holds second inode → first = second
  written : ∀ (number : Nat) (process : Process) inode generation lock, world.processes[number]? = some process →
    process.written? = some (inode, generation) → world.files.lock.file = some lock → lock.inode = inode →
    lock.generation = some generation

theorem Process.holds_of_written {inode : Nat} {generation : String}
    (written : process.written? = some (inode, generation)) : process.holds? = some inode := by
  cases process with
  | ensuring request now phase =>
    cases phase with
    | spawn inode' =>
      cases written
      rfl
    | _ => cases written
  | working | loading | leasing | recovering | retiring | releasing =>
    cases written
    rfl
  | _ => cases written

section Move

variable {world after : World} {number : Nat} {process next : Process} {spawned : Option Worker} {spawns : Bool}
  (processes : after.processes = world.processes.set number next ++ (spawned.map Process.working).toList)

include processes

theorem written_after {other : Nat} {holder : Process} {written : Nat × String} (found : after.processes[other]? = some holder)
    (holds : holder.written? = some written) :
    next.written? = some written ∨ (other ≠ number ∧ ∃ old, world.processes[other]? = some old ∧ old.written? = some written) ∨
      ∃ worker, spawned = some worker ∧ written = (worker.inode, worker.lease) := by
  rw [processes] at found
  rcases process_after found with ⟨_, rfl⟩ | ⟨differs, there⟩ | ⟨_, new⟩
  · exact .inl holds
  · exact .inr (.inl ⟨differs, holder, there, holds⟩)
  · obtain ⟨worker, some_, rfl⟩ : ∃ worker, spawned = some worker ∧ Process.working worker = holder := by
      simpa using List.mem_of_getElem? new
    exact .inr (.inr ⟨worker, some_, (Option.some.inj holds).symm⟩)

theorem Owned.keep (owned : Owned world) (found : world.processes[number]? = some process)
    (holds : next.holds? = process.holds?) (written : next.written? = process.written?) (nobody : spawned = none)
    (file : ∀ lock', after.files.lock.file = some lock' → ∃ lock, world.files.lock.file = some lock ∧ lock'.inode = lock.inode ∧
      lock'.generation = lock.generation)
    (inodes : after.files.lock.inodes = world.files.lock.inodes) : Owned after := by
  have back : ∀ other inode, after.Holds other inode → world.Holds other inode := by
    intro other inode here
    rcases holds_after processes here with ⟨rfl, held⟩ | ⟨_, there⟩ | ⟨_, some_, _⟩
    · exact ⟨process, found, holds ▸ held⟩
    · exact there
    · rw [nobody] at some_
      cases some_
  refine ⟨?_, ?_, ?_, ?_⟩
  · intro lock' is
    obtain ⟨lock, was, same, _⟩ := file lock' is
    obtain ⟨other, holder, there, held⟩ := owned.owned lock was
    by_cases mine : other = number
    · subst mine
      cases found.symm.trans there
      have inside := (List.getElem?_eq_some_iff.mp found).1
      refine ⟨other, next, ?_, by rw [holds, held, same]⟩
      rw [processes, List.getElem?_append_left (by simpa using inside), List.getElem?_set_self inside]
    · exact ⟨other, holder, processes ▸ process_kept there mine, same ▸ held⟩
  · intro other inode here
    exact inodes ▸ owned.bound other inode (back other inode here)
  · intro first second inode left right
    exact owned.one first second inode (back first inode left) (back second inode right)
  · intro other holder inode generation lock' here wrote is same
    obtain ⟨lock, was, inode_, generation_⟩ := file lock' is
    rw [generation_]
    rcases written_after processes here wrote with mine | ⟨_, old, there, held⟩ | ⟨_, some_, _⟩
    · exact owned.written number process inode generation lock found (written ▸ mine) was (inode_ ▸ same)
    · exact owned.written other old inode generation lock there held was (inode_ ▸ same)
    · rw [nobody] at some_
      cases some_

theorem Owned.bare (owned : Owned world) (fewer : ∀ other inode, after.Holds other inode → world.Holds other inode)
    (lock : after.files.lock = world.files.lock.remove) : Owned after := by
  have none_ : after.files.lock.file = none := by
    rw [lock]
    rfl
  refine ⟨?_, ?_, ?_, ?_⟩
  · intro lock' is
    rw [none_] at is
    cases is
  · intro other inode here
    rw [lock]
    exact owned.bound other inode (fewer other inode here)
  · intro first second inode left right
    exact owned.one first second inode (fewer first inode left) (fewer second inode right)
  · intro _ _ _ _ lock' _ _ is
    rw [none_] at is
    cases is

theorem Owned.move (owned : Owned world) (found : world.processes[number]? = some process)
    (move : LockMove world.clock spawns world.files.lock process after.files.lock next spawned) : Owned after := by
  have keep := owned.keep processes found
  have others : spawned = none → (∀ inode, next.holds? = some inode → process.holds? = some inode) →
      ∀ other inode, after.Holds other inode → world.Holds other inode := by
    intro nobody fewer other inode here
    rcases holds_after processes here with ⟨rfl, held⟩ | ⟨_, there⟩ | ⟨_, some_, _⟩
    · exact ⟨process, found, fewer inode held⟩
    · exact there
    · rw [nobody] at some_
      cases some_
  have here : after.processes[number]? = some next := by
    have inside := (List.getElem?_eq_some_iff.mp found).1
    rw [processes, List.getElem?_append_left (by simpa using inside), List.getElem?_set_self inside]
  generalize slot : after.files.lock = afterLock at move
  cases move with
  | keeps holds written _ _ => exact keep holds written rfl (fun lock is => ⟨lock, slot ▸ is, rfl, rfl⟩) (by rw [slot])
  | finds => exact keep rfl rfl rfl (fun lock is => ⟨lock, slot ▸ is, rfl, rfl⟩) (by rw [slot])
  | touches mtime =>
    apply keep rfl rfl rfl
    · intro lock' is
      rw [slot] at is
      obtain ⟨lock, was, rfl⟩ := Option.map_eq_some_iff.mp is
      exact ⟨lock, was, rfl, rfl⟩
    · rw [slot]
      rfl
  | takes => exact owned.bare processes (others rfl nofun) slot
  | frees => exact owned.bare processes (others rfl nofun) slot
  | fails => exact owned.bare processes (others rfl nofun) slot
  | @yields worker processed replaced =>
    -- the lock is not the worker's, or it would bear its lease
    have back := others rfl nofun
    refine ⟨?_, ?_, ?_, ?_⟩
    · intro lock is
      rw [slot] at is
      obtain ⟨other, holder, there, held⟩ := owned.owned lock is
      by_cases mine : other = number
      · subst mine
        cases found.symm.trans there
        have bears := owned.written other _ worker.inode worker.lease lock found rfl is (Option.some.inj held).symm
        unfold LockSlot.leaseMatches at replaced
        rw [is, Option.any_some, bears] at replaced
        simp at replaced
      · exact ⟨other, holder, processes ▸ process_kept there mine, held⟩
    · intro other inode held
      rw [slot]
      exact owned.bound other inode (back other inode held)
    · intro first second inode left right
      exact owned.one first second inode (back first inode left) (back second inode right)
    · intro other holder inode generation lock there wrote is same
      rw [slot] at is
      rcases written_after processes there wrote with none_ | ⟨_, old, before, held⟩ | ⟨_, none_, _⟩
      · cases none_
      · exact owned.written other old inode generation lock before held is same
      · cases none_
  | makes created =>
    obtain ⟨free, rfl, inodes, lock, file, same⟩ := LockSlot.create_some created
    have cases_ : ∀ other inode, after.Holds other inode → (other = number ∧ inode = world.files.lock.inodes) ∨
        (other ≠ number ∧ world.Holds other inode) := by
      intro other inode held
      rcases holds_after processes held with ⟨rfl, mine⟩ | there | ⟨_, some_, _⟩
      · exact .inl ⟨rfl, (Option.some.inj mine).symm⟩
      · exact .inr there
      · cases some_
    refine ⟨?_, ?_, ?_, ?_⟩
    · intro other is
      rw [slot, file] at is
      cases is
      exact ⟨number, _, here, congrArg some same.symm⟩
    · intro other inode held
      rw [slot, inodes]
      rcases cases_ other inode held with ⟨_, rfl⟩ | ⟨_, there⟩
      · omega
      · have := owned.bound other inode there
        omega
    · intro first second inode left right
      rcases cases_ first inode left with ⟨rfl, rfl⟩ | ⟨_, there⟩ <;> rcases cases_ second _ right with ⟨rfl, same⟩ | ⟨_, there'⟩
      · rfl
      · exact absurd (owned.bound second _ there') (Nat.lt_irrefl _)
      · subst same
        exact absurd (owned.bound first _ there) (Nat.lt_irrefl _)
      · exact owned.one first second _ there there'
    · intro other holder inode generation lock' there wrote is same'
      rw [slot, file] at is
      cases is
      rcases written_after processes there wrote with none_ | ⟨_, old, before, held⟩ | ⟨_, none_, _⟩
      · cases none_
      · have bound := owned.bound other inode ⟨old, before, Process.holds_of_written held⟩
        omega
      · cases none_
  | @writes request now inode =>
    have back := others rfl fun _ => id
    have wrote : ∀ lock', after.files.lock.file = some lock' → ∃ lock, world.files.lock.file = some lock ∧ lock'.inode = lock.inode ∧
        (lock.inode = inode → lock'.generation = some request.generation) ∧ (lock.inode ≠ inode → lock' = lock) := by
      intro lock' is
      rw [slot] at is
      obtain ⟨lock, was, rfl⟩ := Option.map_eq_some_iff.mp is
      refine ⟨lock, was, ?_, ?_, ?_⟩
      · split
        · next same => exact same.symm
        · rfl
      · intro same
        rw [if_pos same]
      · intro differs
        rw [if_neg differs]
    refine ⟨?_, ?_, ?_, ?_⟩
    · intro lock' is
      obtain ⟨lock, was, same, _⟩ := wrote lock' is
      obtain ⟨other, holder, there, held⟩ := owned.owned lock was
      by_cases mine : other = number
      · subst mine
        cases found.symm.trans there
        exact ⟨other, _, here, same ▸ held⟩
      · exact ⟨other, holder, processes ▸ process_kept there mine, same ▸ held⟩
    · intro other i held
      rw [slot]
      exact owned.bound other i (back other i held)
    · intro first second i left right
      exact owned.one first second i (back first i left) (back second i right)
    · intro other holder i generation lock' there bears is same
      obtain ⟨lock, was, same', new, old⟩ := wrote lock' is
      rcases written_after processes there bears with mine | ⟨differs, before, there', held⟩ | ⟨_, none_, _⟩
      · cases mine
        exact new (same'.symm.trans same)
      · by_cases mine : lock.inode = inode
        · have holdsToo : world.Holds other inode := ⟨before, there', by rw [Process.holds_of_written held, ← mine, ← same', same]⟩
          exact absurd (owned.one other number inode holdsToo ⟨_, found, rfl⟩) differs
        · obtain rfl := old mine
          exact owned.written other before i generation lock' there' held was same
      · cases none_
  | @hands request now inode =>
    have mine : world.Holds number inode := ⟨_, found, rfl⟩
    have cases_ : ∀ other i, after.Holds other i → (other = world.processes.length ∧ i = inode) ∨ (other ≠ number ∧ world.Holds other i) := by
      intro other i held
      rcases holds_after processes held with ⟨_, none_⟩ | there | ⟨worker, some_, last, same⟩
      · cases none_
      · exact .inr there
      · cases some_
        exact .inl ⟨last, same⟩
    have new : after.Holds world.processes.length inode := by
      refine ⟨.working ⟨request.generation, inode, []⟩, ?_, rfl⟩
      rw [processes, List.getElem?_append_right (by simp)]
      simp
    refine ⟨?_, ?_, ?_, ?_⟩
    · intro lock is
      rw [slot] at is
      obtain ⟨other, holder, there, held⟩ := owned.owned lock is
      by_cases same : other = number
      · subst same
        cases found.symm.trans there
        exact ⟨_, Option.some.inj held ▸ new⟩
      · exact ⟨other, holder, processes ▸ process_kept there same, held⟩
    · intro other i held
      rw [slot]
      rcases cases_ other i held with ⟨_, rfl⟩ | ⟨_, there⟩
      · exact owned.bound number i mine
      · exact owned.bound other i there
    · intro first second i left right
      rcases cases_ first i left with ⟨rfl, rfl⟩ | ⟨away, there⟩ <;> rcases cases_ second _ right with ⟨rfl, same⟩ | ⟨away', there'⟩
      · rfl
      · exact absurd (owned.one second number _ there' mine) away'
      · subst same
        exact absurd (owned.one first number _ there mine) away
      · exact owned.one first second _ there there'
    · intro other holder i generation lock there bears is same
      rw [slot] at is
      rcases written_after processes there bears with none_ | ⟨_, old, before, held⟩ | ⟨worker, some_, written⟩
      · cases none_
      · exact owned.written other old i generation lock before held is same
      · cases some_
        cases written
        exact owned.written number _ inode request.generation lock found rfl is same

end Move

variable {world : World}

theorem Owned.add {after : World} {added : Process} (owned : Owned world) (files : after.files = world.files)
    (processes : after.processes = world.processes ++ [added]) (free : added.holds? = none) : Owned after := by
  have kept : ∀ (number : Nat) process, world.processes[number]? = some process → after.processes[number]? = some process := by
    intro number process found
    rw [processes, List.getElem?_append_left (List.getElem?_eq_some_iff.mp found).1]
    exact found
  have back : ∀ (number : Nat) process inode, after.processes[number]? = some process → process.holds? = some inode →
      world.processes[number]? = some process := by
    intro number process inode found held
    rw [processes] at found
    rcases process_added found with ⟨_, rfl⟩ | there
    · rw [free] at held
      cases held
    · exact there
  have holds : ∀ number inode, after.Holds number inode → world.Holds number inode :=
    fun number inode ⟨process, found, held⟩ => ⟨process, back number process inode found held, held⟩
  refine ⟨?_, ?_, ?_, ?_⟩
  · intro lock is
    obtain ⟨number, process, found, held⟩ := owned.owned lock (files ▸ is)
    exact ⟨number, process, kept number process found, held⟩
  · intro number inode held
    rw [files]
    exact owned.bound number inode (holds number inode held)
  · intro first second inode left right
    exact owned.one first second inode (holds first inode left) (holds second inode right)
  · intro number process inode generation lock found wrote is same
    have there := back number process inode found (Process.holds_of_written wrote)
    exact owned.written number process inode generation lock there wrote (files ▸ is) same

theorem Owned.step {after : World} {event : Event} (owned : Owned before) (step : Step hashes before event after)
    (steady : event.Steady) : Owned after := by
  have begins : ∀ {number : Nat} {worker : Worker} {next : Process}, before.processes[number]? = some (.working worker) →
      next.holds? = some worker.inode → next.written? = some (worker.inode, worker.lease) → Owned (before.put number next) := by
    intro number worker next found holds written
    have processes : (before.put number next).processes =
        before.processes.set number next ++ ((none : Option Worker).map Process.working).toList := (List.append_nil _).symm
    exact owned.keep processes found holds written rfl (fun lock is => ⟨lock, is, rfl, rfl⟩) rfl
  unfold Step at step
  cases event with
  | tick elapsed =>
    cases step
    exact ⟨owned.owned, owned.bound, owned.one, owned.written⟩
  | dispatch request =>
    simp only [World.next] at step
    split at step
    · cases step
      exact owned.add rfl rfl rfl
    · cases step
  | load number readiness =>
    simp only [World.next] at step
    split at step
    · next worker found =>
      cases step
      exact begins found rfl rfl
    · cases step
  | finish number processed =>
    simp only [World.next] at step
    split at step
    · next worker found =>
      cases step
      exact begins found rfl rfl
    · cases step
  | renew number =>
    simp only [World.next] at step
    split at step
    · cases step
      exact owned.add rfl rfl rfl
    · cases step
  | act number choice =>
    simp only [World.next] at step
    split at step
    · cases step
    · split at step
      · next ran =>
        cases step
        obtain ⟨process, found, moved⟩ := Option.bind_eq_some_iff.mp ran
        exact Owned.move rfl owned found (Process.lock_step moved)
      · cases step
  | die number => cases steady

def Process.InCall : Process → Prop
  | .persisting _ | .ensuring _ _ _ | .leasing _ _ | .recovering _ _ _ | .retiring _ _ _ | .releasing _ | .handing _ _ => True
  | _ => False

/-- Neither a lock, nor a request that can be read, nor a process. -/
structure Idle (world : World) : Prop where
  processes : world.processes = []
  lock : world.files.lock.file = none
  pending : ∀ file ∈ world.files.pending.rows, file.request = none

theorem Idle.covered (idle : Idle world) : Covered world := by
  constructor
  · intro file member readable
    rw [idle.pending file member] at readable
    cases readable
  · intro busy
    exact absurd idle.processes busy

theorem Idle.owned (idle : Idle world) : Owned world := by
  have nobody : ∀ (number : Nat) (process : Process), world.processes[number]? ≠ some process := by
    intro number process found
    rw [idle.processes] at found
    cases found
  refine ⟨?_, ?_, ?_, ?_⟩
  · intro lock is
    rw [idle.lock] at is
    cases is
  · rintro number inode ⟨process, found, _⟩
    exact (nobody number process found).elim
  · rintro first second inode ⟨process, found, _⟩
    exact (nobody first process found).elim
  · exact fun number process _ _ _ found => (nobody number process found).elim

def World.Served (world : World) : Prop :=
  ∃ number worker lock, world.live number = some worker ∧ world.files.lock.file = some lock ∧ lock.inode = worker.inode

theorem Covered.served (covered : Covered world) (owned : Owned world)
    (quiet : ∀ process ∈ world.processes, ¬ process.InCall) (member : file ∈ world.files.pending.rows)
    (readable : file.request.isSome = true) : world.Served := by
  rcases covered.pending file member readable with stands | ⟨number, process, found, covers⟩
  · obtain ⟨lock, is⟩ := Option.isSome_iff_exists.mp stands
    obtain ⟨number, process, found, holds⟩ := owned.owned lock is
    have calm := quiet process (List.mem_of_getElem? found)
    cases process with
    | working worker => exact ⟨number, worker, lock, by rw [World.live, found]; rfl, is, (Option.some.inj holds).symm⟩
    | loading worker readiness scan =>
      exact ⟨number, worker, lock, by rw [World.live, found]; rfl, is, (Option.some.inj holds).symm⟩
    | renewing | returned => cases holds
    | _ => exact absurd trivial calm
  · have calm := quiet process (List.mem_of_getElem? found)
    cases process with
    | working | loading | renewing | returned => cases covers
    | _ => exact absurd trivial calm

end HarnessMem.Background
