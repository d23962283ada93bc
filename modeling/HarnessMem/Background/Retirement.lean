import HarnessMem.Background.Wakeup

/-! Which pending files are deleted: those that the worker read in the load that answered the
generation it finishes, and that are still what they were.
-/

set_option autoImplicit false

namespace HarnessMem.Background

open Library

variable {hashes : Hashes}

/-! ### A name is written once -/

def Named (hashes : Hashes) (issued : List String) (name : PendingName) : Prop :=
  ∃ identifier ∈ issued, name = pendingName hashes identifier ∨ name = .legacy identifier

/-- The file of this name holds this request, or is gone, and nothing will be written under the name. -/
structure Fixed (hashes : Hashes) (world : World) (item : Pending) : Prop where
  named : Named hashes world.issued item.1
  same : ∀ file ∈ world.files.pending.rows, file.name = item.1 → file.request = some item.2
  unwritten : ∀ request, .persisting request ∈ world.processes → pendingName hashes request.generation ≠ item.1

/-- The identifiers of requests that are not written yet are theirs alone. -/
structure Distinct (hashes : Hashes) (world : World) : Prop where
  issued : ∀ request, .persisting request ∈ world.processes → request.generation ∈ world.issued
  one : ∀ (first second : Nat) request other, world.processes[first]? = some (.persisting request) →
    world.processes[second]? = some (.persisting other) → request.generation = other.generation → first = second
  fixed : ∀ file ∈ world.files.pending.rows, ∀ request, file.request = some request → Fixed hashes world (file.name, request)

variable {uuid generation : String}

theorem legacy_ne_pendingName : PendingName.legacy uuid ≠ pendingName hashes generation := nofun

theorem Named.ne_of_fresh {issued : List String} {name : PendingName} {fresh : String} (named : Named hashes issued name)
    (unused : fresh ∉ issued) : name ≠ pendingName hashes fresh ∧ name ≠ .legacy fresh := by
  obtain ⟨identifier, member, rfl | rfl⟩ := named
  · refine ⟨fun same => ?_, Ne.symm legacy_ne_pendingName⟩
    exact unused (pendingName_injective hashes same ▸ member)
  · refine ⟨legacy_ne_pendingName, fun same => ?_⟩
    exact unused (PendingName.legacy.inj same ▸ member)

theorem Named.later {issued later : List String} {name : PendingName} (named : Named hashes issued name) (more : issued ⊆ later) :
    Named hashes later name :=
  let ⟨identifier, member, made⟩ := named
  ⟨identifier, more member, made⟩

/-- The steps of the system, as far as names are concerned. -/
inductive NameMove (hashes : Hashes) (before after : World) : Prop where
  /-- Nothing new under any name. -/
  | keeps : before.issued ⊆ after.issued → (∀ file ∈ after.files.pending.rows, file ∈ before.files.pending.rows) →
      (∀ (number : Nat) request, after.processes[number]? = some (.persisting request) →
        before.processes[number]? = some (.persisting request)) → NameMove hashes before after
  /-- A dispatch begins. -/
  | begins (request : BackgroundRequest) : request.generation ∉ before.issued → after.issued = request.generation :: before.issued →
      after.files = before.files → after.processes = before.processes ++ [.persisting request] → NameMove hashes before after
  /-- A request is written. -/
  | writes (number : Nat) (request : BackgroundRequest) : before.issued ⊆ after.issued →
      before.processes[number]? = some (.persisting request) →
      (∀ file ∈ after.files.pending.rows, file = ⟨pendingName hashes request.generation, some request⟩ ∨
        (file ∈ before.files.pending.rows ∧ file.name ≠ pendingName hashes request.generation)) →
      (∀ (other : Nat) request', after.processes[other]? = some (.persisting request') →
        other ≠ number ∧ before.processes[other]? = some (.persisting request')) → NameMove hashes before after
  /-- The base slot is renamed. -/
  | renames (uuid : String) : uuid ∉ before.issued → after.issued = uuid :: before.issued →
      (∀ file ∈ after.files.pending.rows, file ∈ before.files.pending.rows ∨ file.name = .legacy uuid) →
      (∀ (number : Nat) request, after.processes[number]? = some (.persisting request) →
        before.processes[number]? = some (.persisting request)) → NameMove hashes before after

theorem persisting_of_mem {processes : List Process} {request : BackgroundRequest} (member : .persisting request ∈ processes) :
    ∃ number : Nat, processes[number]? = some (.persisting request) := List.mem_iff_getElem?.mp member

variable {before : World} {item : Pending}

theorem Fixed.move {after : World} (fixed : Fixed hashes before item) (distinct : Distinct hashes before)
    (move : NameMove hashes before after) : Fixed hashes after item := by
  cases move with
  | keeps issued files processes =>
    refine ⟨fixed.named.later issued, fun file member => fixed.same file (files file member), fun request member => ?_⟩
    obtain ⟨number, found⟩ := persisting_of_mem member
    exact fixed.unwritten request (List.mem_of_getElem? (processes number request found))
  | begins request fresh issued files processes =>
    refine ⟨fixed.named.later (issued ▸ List.subset_cons_self _ _), files ▸ fixed.same, fun other member => ?_⟩
    rw [processes] at member
    rcases List.mem_append.mp member with old | new
    · exact fixed.unwritten other old
    · cases List.mem_singleton.mp new
      exact Ne.symm (fixed.named.ne_of_fresh fresh).1
  | writes number request issued found files processes =>
    refine ⟨fixed.named.later issued, fun file member same => ?_, fun other member => ?_⟩
    · rcases files file member with rfl | ⟨old, _⟩
      · exact absurd same (fixed.unwritten request (List.mem_of_getElem? found))
      · exact fixed.same file old same
    · obtain ⟨index, there⟩ := persisting_of_mem member
      exact fixed.unwritten other (List.mem_of_getElem? (processes index other there).2)
  | renames uuid fresh issued files processes =>
    refine ⟨fixed.named.later (issued ▸ List.subset_cons_self _ _), fun file member same => ?_, fun other member => ?_⟩
    · rcases files file member with old | new
      · exact fixed.same file old same
      · exact absurd (same.symm.trans new) (fixed.named.ne_of_fresh fresh).2
    · obtain ⟨index, there⟩ := persisting_of_mem member
      exact fixed.unwritten other (List.mem_of_getElem? (processes index other there))

theorem Distinct.move {after : World} (distinct : Distinct hashes before) (move : NameMove hashes before after) :
    Distinct hashes after := by
  have old : ∀ file ∈ before.files.pending.rows, ∀ request, file.request = some request → Fixed hashes after (file.name, request) :=
    fun file member request readable => (distinct.fixed file member request readable).move distinct move
  cases move with
  | keeps issued files processes =>
    refine ⟨?_, ?_, fun file member => old file (files file member)⟩
    · intro request member
      obtain ⟨number, found⟩ := persisting_of_mem member
      exact issued (distinct.issued request (List.mem_of_getElem? (processes number request found)))
    · intro first second request other left right
      exact distinct.one first second request other (processes first request left) (processes second other right)
  | begins request fresh issued files processes =>
    refine ⟨?_, ?_, files ▸ old⟩
    · intro other member
      rw [processes] at member
      rw [issued]
      rcases List.mem_append.mp member with there | new
      · exact List.mem_cons_of_mem _ (distinct.issued other there)
      · cases List.mem_singleton.mp new
        exact List.mem_cons_self
    · intro first second left_ right_ left right same
      rw [processes] at left right
      rcases process_added left with ⟨rfl, here⟩ | there <;> rcases process_added right with ⟨rfl, here'⟩ | there'
      · rfl
      · cases here
        exact absurd (same ▸ distinct.issued right_ (List.mem_of_getElem? there')) fresh
      · cases here'
        exact absurd (same ▸ distinct.issued left_ (List.mem_of_getElem? there)) fresh
      · exact distinct.one first second left_ right_ there there' same
  | writes number request issued found files processes =>
    refine ⟨?_, ?_, ?_⟩
    · intro other member
      obtain ⟨index, there⟩ := persisting_of_mem member
      exact issued (distinct.issued other (List.mem_of_getElem? (processes index other there).2))
    · intro first second left_ right_ left right
      exact distinct.one first second left_ right_ (processes first left_ left).2 (processes second right_ right).2
    · intro file member read readable
      rcases files file member with rfl | ⟨there, _⟩
      · cases readable
        refine ⟨⟨_, issued (distinct.issued request (List.mem_of_getElem? found)), .inl rfl⟩, ?_, ?_⟩
        · intro other there same
          rcases files other there with rfl | ⟨_, differs⟩
          · rfl
          · exact absurd same differs
        · intro other unwritten same
          obtain ⟨index, there⟩ := persisting_of_mem unwritten
          obtain ⟨differs, was⟩ := processes index other there
          exact differs (distinct.one index number other request was found (pendingName_injective hashes same))
      · exact old file there read readable
  | renames uuid fresh issued files processes =>
    refine ⟨?_, ?_, ?_⟩
    · intro other member
      obtain ⟨index, there⟩ := persisting_of_mem member
      rw [issued]
      exact List.mem_cons_of_mem _ (distinct.issued other (List.mem_of_getElem? (processes index other there)))
    · intro first second left_ right_ left right
      exact distinct.one first second left_ right_ (processes first left_ left) (processes second right_ right)
    · intro file member read readable
      rcases files file member with there | named
      · exact old file there read readable
      · refine ⟨⟨uuid, issued ▸ List.mem_cons_self, .inr named⟩, ?_, ?_⟩
        · intro other there same
          rw [after.files.pending.eq_of_key there member same]
          exact readable
        · intro other _
          rw [named]
          exact Ne.symm legacy_ne_pendingName

variable {files after : Files} {clock : Time} {choice : Choice} {process : Process} {spawned : Option Worker}

theorem Process.not_persisting {request : BackgroundRequest} :
    process.step hashes files clock choice ≠ some (after, .persisting request, spawned) := by
  intro ran
  cases process with
  | ensuring _ now phase =>
    simp only [Process.step] at ran
    split at ran <;> cases ran
  | loading worker readiness scan =>
    simp only [Process.step] at ran
    split at ran
    · cases ran
    · split at ran <;> cases ran
  | leasing worker processed =>
    simp only [Process.step] at ran
    split at ran
    · split at ran <;> cases ran
    · cases ran
  | recovering worker processed scan =>
    simp only [Process.step] at ran
    split at ran <;> cases ran
  | retiring worker processed left => cases left <;> cases ran
  | handing worker scan =>
    simp only [Process.step] at ran
    split at ran
    · cases ran
    · split at ran <;> cases ran
  | renewing lease phase =>
    cases phase with
    | look | lease =>
      simp only [Process.step] at ran
      split at ran <;> cases ran
    | _ => cases ran
  | _ => cases ran

variable {event : Event}

theorem Step.names {after : World} (step : Step hashes before event after) : NameMove hashes before after := by
  -- a process that is put in the place of another one is none that has yet to write
  have puts : ∀ {number : Nat} {next : Process} (_ : ∀ request, next ≠ .persisting request),
      NameMove hashes before (before.put number next) := by
    intro number next other
    refine .keeps (fun _ => id) (fun _ => id) fun index request found => ?_
    rcases process_put found with ⟨_, same⟩ | ⟨_, there⟩
    · exact absurd same.symm (other request)
    · exact there
  unfold Step at step
  cases event with
  | tick elapsed =>
    cases step
    exact .keeps (fun _ => id) (fun _ => id) fun _ _ => id
  | dispatch request =>
    simp only [World.next] at step
    split at step
    · next fresh =>
      cases step
      exact .begins request fresh.2 rfl rfl rfl
    · cases step
  | load number readiness =>
    simp only [World.next] at step
    split at step
    · cases step
      exact puts (by intro _ equal; cases equal)
    · cases step
  | finish number processed =>
    simp only [World.next] at step
    split at step
    · cases step
      exact puts (by intro _ equal; cases equal)
    · cases step
  | renew number =>
    simp only [World.next] at step
    split at step
    · cases step
      refine .keeps (fun _ => id) (fun _ => id) fun index request found => ?_
      rcases process_added found with ⟨_, same⟩ | there
      · cases same
      · exact there
    · cases step
  | act number choice =>
    simp only [World.next] at step
    split at step
    · cases step
    · next fresh =>
      split at step
      · next files next spawned ran =>
        cases step
        obtain ⟨process, found, moved⟩ := Option.bind_eq_some_iff.mp ran
        have processes : ∀ (other : Nat) request, (before.processes.set number next ++
            (spawned.map Process.working).toList)[other]? = some (.persisting request) →
              other ≠ number ∧ before.processes[other]? = some (.persisting request) := by
          intro other request there
          rcases process_after there with ⟨_, rfl⟩ | kept | ⟨_, new⟩
          · exact absurd moved Process.not_persisting
          · exact kept
          · obtain ⟨worker, _, same⟩ : ∃ worker, spawned = some worker ∧ Process.working worker = .persisting request := by
              simpa using List.mem_of_getElem? new
            cases same
        have more : before.issued ⊆ choice.uuid :: before.issued := List.subset_cons_self _ _
        cases Process.directory_step moved with
        | keeps pending _ => exact .keeps more (fun file member => pending ▸ member) fun other request there => (processes other request there).2
        | @persists request =>
          refine .writes number request more found (fun file member => ?_) processes
          rcases (Table.mem_upsert _ _ _).mp member with same | old
          · exact .inl same
          · exact .inr old
        | renames =>
          refine .renames choice.uuid fresh rfl (fun file member => ?_) fun other request there => (processes other request there).2
          unfold Files.renameLegacy at member
          split at member
          · exact .inl member
          · rcases (Table.mem_upsert _ _ _).mp member with rfl | old
            · exact .inr rfl
            · exact .inl old.1
        | unlinks =>
          exact .keeps more (fun file member => (List.mem_filter.mp member).1) fun other request there => (processes other request there).2
      · cases step
  | die number =>
    simp only [World.next] at step
    split at step
    · cases step
      exact puts (by intro _ equal; cases equal)
    · cases step

variable {next : Process} {worker : Worker}

theorem Process.spawned_fresh
    (ran : process.step hashes files clock choice = some (after, next, some worker)) : worker.loaded = [] := by
  have move := Process.lock_step ran
  generalize after.lock = afterLock at move
  generalize handed : some worker = spawned at move
  cases move with
  | hands =>
    cases handed
    rfl
  | _ => cases handed

/-! ### What a worker knows of pending files -/

def PendingScan.found : PendingScan → List Pending
  | .read _ found => found
  | _ => []

def Worker.Loaded (worker : Worker) (item : Pending) : Prop := ∃ entry ∈ worker.loaded, item ∈ entry.2

def Process.Knows (item : Pending) : Process → Prop
  | .working worker | .leasing worker _ => worker.Loaded item
  | .loading worker _ scan => worker.Loaded item ∨ item ∈ scan.found
  | .recovering _ _ scan => item ∈ scan.found
  | .retiring _ _ left => item ∈ left
  | _ => False

theorem PendingScan.found_step {order : Scan PendingName} {scan next : PendingScan}
    (ran : scan.step files uuid order = (after, .goesOn next)) (member : item ∈ next.found) :
    item ∈ scan.found ∨ files.readRequest item.1 = some item.2 := by
  cases scan with
  | rename =>
    cases ran
    cases member
  | list =>
    cases ran
    cases member
  | read left found =>
    cases left with
    | nil => cases ran
    | cons name left =>
      simp only [PendingScan.step] at ran
      split at ran
      · next request read =>
        cases ran
        rcases List.mem_append.mp member with old | new
        · exact .inl old
        · cases List.mem_singleton.mp new
          exact .inr read
      · cases ran
        exact .inl member

theorem PendingScan.done_step {order : Scan PendingName} {scan : PendingScan}
    {requests : List Pending} (ran : scan.step files uuid order = (after, .done requests)) :
    scan = .read [] requests ∧ after = files := by
  cases scan with
  | rename | list => cases ran
  | read left found =>
    cases left with
    | nil =>
      cases ran
      exact ⟨rfl, rfl⟩
    | cons name left =>
      simp only [PendingScan.step] at ran
      split at ran <;> cases ran

variable {selected : List Pending}

theorem Worker.loaded_remember {entry : String × List Pending}
    (member : entry ∈ (worker.remember generation selected).loaded) : entry ∈ worker.loaded ∨ entry = (generation, selected) := by
  unfold Worker.remember at member
  split at member
  · exact .inl member
  · exact (List.mem_append.mp member).imp id List.mem_singleton.mp

theorem Worker.mem_of_loadedAs
    (found : worker.loadedAs generation = some selected) : (generation, selected) ∈ worker.loaded := by
  obtain ⟨⟨key, items⟩, entry, rfl⟩ := Option.map_eq_some_iff.mp found
  have same : key = generation := by simpa using List.find?_some entry
  exact same ▸ List.mem_of_find?_eq_some entry

theorem Process.leasing_step {processed : Option String}
    (ran : (Process.leasing worker processed).step hashes files clock choice = some (after, next, spawned)) :
    (next = .returned ∧ after = files) ∨
      (∃ generation, processed = some generation ∧ (worker.loadedAs generation).getD [] = [] ∧
        next = .recovering (worker.forget generation) generation .rename) ∨
      next = .retiring (worker.forget (processed.getD "")) processed ((worker.loadedAs (processed.getD "")).getD []) := by
  simp only [Process.step] at ran
  split at ran
  · split at ran
    · next generation nothing =>
      cases ran
      exact .inr (.inl ⟨generation, rfl, nothing, rfl⟩)
    · cases ran
      exact .inr (.inr rfl)
  · cases ran
    exact .inl ⟨rfl, rfl⟩

/-- What a process knows after an operation it has known before, or has just read. -/
theorem Process.knows_step (ran : process.step hashes files clock choice = some (after, next, spawned))
    (knows : next.Knows item) : process.Knows item ∨ files.readRequest item.1 = some item.2 := by
  cases process with
  | ensuring _ now phase =>
    simp only [Process.step] at ran
    split at ran <;> cases ran <;> cases knows
  | loading worker readiness scan =>
    simp only [Process.step] at ran
    split at ran
    · next stepped =>
      cases ran
      rcases knows with old | new
      · exact .inl (.inl old)
      · exact (PendingScan.found_step stepped new).imp .inr id
    · next requests stepped =>
      obtain ⟨rfl, rfl⟩ := PendingScan.done_step stepped
      split at ran
      · cases ran
        exact .inl (.inl knows)
      · next latest selected chosen =>
        cases ran
        obtain ⟨entry, member, inside⟩ := knows
        rcases Worker.loaded_remember member with old | rfl
        · exact .inl (.inl ⟨entry, old, inside⟩)
        · exact .inl (.inr (chosen_of_chooseRequest chosen item inside))
  | leasing worker processed =>
    rcases Process.leasing_step ran with ⟨rfl, _⟩ | ⟨generation, rfl, _, rfl⟩ | rfl
    · cases knows
    · cases knows
    · left
      obtain ⟨selected, found, inside⟩ : ∃ selected, worker.loadedAs (processed.getD "") = some selected ∧ item ∈ selected := by
        cases loaded : worker.loadedAs (processed.getD "") with
        | none => simp [Process.Knows, loaded] at knows
        | some selected => exact ⟨selected, rfl, by simpa [Process.Knows, loaded] using knows⟩
      exact ⟨_, Worker.mem_of_loadedAs found, inside⟩
  | recovering worker processed scan =>
    simp only [Process.step] at ran
    split at ran
    · next stepped =>
      cases ran
      exact (PendingScan.found_step stepped knows).imp id id
    · next requests stepped =>
      obtain ⟨rfl, rfl⟩ := PendingScan.done_step stepped
      cases ran
      exact .inl (List.mem_filter.mp knows).1
  | retiring worker processed left =>
    cases left with
    | nil =>
      cases ran
      cases knows
    | cons first left =>
      cases ran
      exact .inl (List.mem_cons_of_mem _ knows)
  | handing worker scan =>
    simp only [Process.step] at ran
    split at ran
    · cases ran
      cases knows
    · split at ran <;> cases ran <;> cases knows
  | renewing lease phase =>
    cases phase with
    | look | lease =>
      simp only [Process.step] at ran
      split at ran <;> cases ran <;> cases knows
    | _ => cases ran; cases knows
  | releasing | persisting => cases ran; cases knows
  | working | returned => cases ran

def Known (hashes : Hashes) (world : World) : Prop :=
  ∀ process ∈ world.processes, ∀ item, process.Knows item → Fixed hashes world item

theorem Known.step {after : World} (known : Known hashes before) (distinct : Distinct hashes before)
    (step : Step hashes before event after) : Known hashes after := by
  have later : ∀ {item : Pending}, Fixed hashes before item → Fixed hashes after item :=
    fun fixed => fixed.move distinct step.names
  have old : ∀ {process : Process} {item : Pending}, process ∈ before.processes → process.Knows item → Fixed hashes after item :=
    fun member knows => later (known _ member _ knows)
  have puts : ∀ {number : Nat} {worker : Worker} {next : Process}, before.processes[number]? = some (.working worker) →
      (∀ item, next.Knows item → worker.Loaded item) → (∀ process ∈ (before.put number next).processes, ∀ item,
        process.Knows item → Fixed hashes after item) := by
    intro number worker next found fewer process member item knows
    obtain ⟨index, there⟩ := List.mem_iff_getElem?.mp member
    rcases process_put there with ⟨_, rfl⟩ | ⟨_, kept⟩
    · exact old (List.mem_of_getElem? found) (fewer item knows)
    · exact old (List.mem_of_getElem? kept) knows
  have whole := step
  unfold Step at step
  cases event with
  | tick elapsed =>
    cases step
    exact fun _ member _ knows => old member knows
  | dispatch request =>
    simp only [World.next] at step
    split at step
    · cases step
      intro process member item knows
      rcases List.mem_append.mp member with there | new
      · exact old there knows
      · cases List.mem_singleton.mp new
        cases knows
    · cases step
  | load number readiness =>
    simp only [World.next] at step
    split at step
    · next worker found =>
      cases step
      exact puts found fun item knows => knows.resolve_right List.not_mem_nil
    · cases step
  | finish number processed =>
    simp only [World.next] at step
    split at step
    · next worker found =>
      cases step
      exact puts found fun item => id
    · cases step
  | renew number =>
    simp only [World.next] at step
    split at step
    · cases step
      intro process member item knows
      rcases List.mem_append.mp member with there | new
      · exact old there knows
      · cases List.mem_singleton.mp new
        cases knows
    · cases step
  | act number choice =>
    simp only [World.next] at step
    split at step
    · cases step
    · split at step
      · next ran =>
        cases step
        obtain ⟨process, found, moved⟩ := Option.bind_eq_some_iff.mp ran
        intro holder member item knows
        obtain ⟨index, there⟩ := List.mem_iff_getElem?.mp member
        rcases process_after there with ⟨_, rfl⟩ | ⟨_, kept⟩ | ⟨_, new⟩
        · rcases Process.knows_step moved knows with before_ | read
          · exact old (List.mem_of_getElem? found) before_
          · obtain ⟨file, stored, readable⟩ := Option.bind_eq_some_iff.mp read
            have fixed := distinct.fixed file (Table.mem_of_get? stored) item.2 readable
            rw [Table.key_of_get? stored] at fixed
            exact later fixed
        · exact old (List.mem_of_getElem? kept) knows
        · obtain ⟨worker, spawned, rfl⟩ : ∃ worker, _ = some worker ∧ Process.working worker = holder := by
            simpa using List.mem_of_getElem? new
          subst spawned
          obtain ⟨entry, member, _⟩ := knows
          rw [Process.spawned_fresh moved] at member
          cases member
      · cases step
  | die number =>
    simp only [World.next] at step
    split at step
    · cases step
      intro process member item knows
      obtain ⟨index, there⟩ := List.mem_iff_getElem?.mp member
      rcases process_put there with ⟨_, rfl⟩ | ⟨_, kept⟩
      · cases knows
      · exact old (List.mem_of_getElem? kept) knows
    · cases step

/-! ### What a worker has been answered -/

/-- A load of this process is about to return the generation, and has read the file for it. -/
def World.Loads (world : World) (number : Nat) (generation : String) (item : Pending) : Prop :=
  ∃ worker readiness found latest selected, world.processes[number]? = some (.loading worker readiness (.read [] found)) ∧
    chooseRequest readiness found = some (latest, selected) ∧ latest.generation = generation ∧ item ∈ selected

/-- A load of this process has returned the generation, and had read the file for it. -/
def Answered (hashes : Hashes) (start : World) (events : List Event) (number : Nat) (generation : String) (item : Pending) : Prop :=
  ∃ front choice back moment, events = front ++ .act number choice :: back ∧ Exec (Step hashes) start front moment ∧
    moment.Loads number generation item

variable {start : World} {events : List Event}

theorem exec_unique {first second : World} (left : Exec (Step hashes) start events first)
    (right : Exec (Step hashes) start events second) : first = second := by
  induction left with
  | nil =>
    cases right
    rfl
  | cons step _ ih =>
    cases right with
    | cons step' rest =>
      cases Option.some.inj (Eq.trans (Eq.symm step) step')
      exact ih rest

theorem answered_snoc {world : World} {number : Nat} (run : Exec (Step hashes) start events world) :
    Answered hashes start (events ++ [event]) number generation item ↔
      Answered hashes start events number generation item ∨ ∃ choice, event = .act number choice ∧ world.Loads number generation item := by
  constructor
  · rintro ⟨front, choice, back, moment, split, reached, loads⟩
    rcases List.eq_nil_or_concat back with rfl | ⟨rest, last, rfl⟩
    · obtain ⟨rfl, same⟩ := List.append_inj' split rfl
      cases same
      exact .inr ⟨choice, rfl, exec_unique reached run ▸ loads⟩
    · rw [List.concat_eq_append, ← List.cons_append, ← List.append_assoc] at split
      exact .inl ⟨front, choice, rest, moment, (List.append_inj' split rfl).1, reached, loads⟩
  · rintro (⟨front, choice, back, moment, rfl, reached, loads⟩ | ⟨choice, rfl, loads⟩)
    · exact ⟨front, choice, back ++ [event], moment, by simp, reached, loads⟩
    · exact ⟨events, choice, [], world, rfl, run, loads⟩

section

variable (answered : String → Pending → Prop)

/-- `_loaded_requests` holds what the loads have answered. -/
def Worker.Recalls (worker : Worker) : Prop :=
  (∀ entry ∈ worker.loaded, entry.2 ≠ [] ∧ ∀ item ∈ entry.2, answered entry.1 item) ∧
    ∀ generation item, answered generation item → (worker.loadedAs generation).isSome = true

/-- A file to retire was read in a load that answered the generation to finish, or no load has answered
that generation and the file is the one that bears it. -/
def Retires (processed : Option String) (item : Pending) : Prop :=
  answered (processed.getD "") item ∨ (processed = some item.2.generation ∧ ∀ other, ¬ answered item.2.generation other)

def Process.Recalls : Process → Prop
  | .working worker | .loading worker _ _ | .leasing worker _ => worker.Recalls answered
  | .recovering _ processed _ => ∀ item, ¬ answered processed item
  | .retiring _ processed left => ∀ item ∈ left, Retires answered processed item
  | _ => True

end

theorem Worker.loadedAs_remember {key : String} :
    ((worker.remember generation selected).loadedAs key).isSome = true ↔
      (worker.loadedAs key).isSome = true ∨ key = generation := by
  unfold Worker.remember
  split
  · next known =>
    constructor
    · exact .inl
    · rintro (there | rfl)
      · exact there
      · exact known
  · simp only [Worker.loadedAs, Option.isSome_map, List.find?_isSome, List.mem_append, List.mem_singleton, decide_eq_true_eq]
    constructor
    · rintro ⟨entry, old | rfl, same⟩
      · exact .inl ⟨entry, old, same⟩
      · exact .inr same.symm
    · rintro (⟨entry, old, same⟩ | rfl)
      · exact ⟨entry, .inl old, same⟩
      · exact ⟨_, .inr rfl, rfl⟩

def Process.Loads (process : Process) (generation : String) (item : Pending) : Prop :=
  ∃ worker readiness found latest selected, process = .loading worker readiness (.read [] found) ∧
    chooseRequest readiness found = some (latest, selected) ∧ latest.generation = generation ∧ item ∈ selected

theorem Process.recalls_step (ran : process.step hashes files clock choice = some (after, next, spawned))
    {answered later : String → Pending → Prop}
    (more : ∀ generation item, later generation item ↔ answered generation item ∨ process.Loads generation item)
    (recalls : process.Recalls answered) : next.Recalls later := by
  have same : (∀ worker readiness found, process ≠ .loading worker readiness (.read [] found)) → later = answered := by
    intro other
    funext generation item
    refine propext ((more generation item).trans ⟨fun either => either.elim id ?_, .inl⟩)
    rintro ⟨worker, readiness, found, _, _, is, _⟩
    exact absurd is (other worker readiness found)
  cases process with
  | ensuring _ now phase =>
    simp only [Process.step] at ran
    split at ran <;> cases ran <;> trivial
  | loading worker readiness scan =>
    simp only [Process.step] at ran
    split at ran
    · next stepped =>
      cases ran
      rw [same]
      · exact recalls
      · rintro _ _ found ⟨⟩
        cases stepped
    · next requests stepped =>
      obtain ⟨rfl, rfl⟩ := PendingScan.done_step stepped
      obtain ⟨held, known⟩ := recalls
      split at ran
      · next nothing =>
        cases ran
        -- the load answers nothing
        have still : later = answered := by
          funext generation item
          refine propext ((more generation item).trans ⟨fun either => either.elim id ?_, .inl⟩)
          rintro ⟨_, _, _, _, _, is, chosen, _⟩
          cases is
          rw [nothing] at chosen
          cases chosen
        rw [still]
        exact ⟨held, known⟩
      · next latest selected chosen =>
        cases ran
        refine ⟨fun entry member => ?_, fun generation item told => ?_⟩
        · rcases Worker.loaded_remember member with old | rfl
          · exact ⟨(held entry old).1, fun item inside => (more _ _).mpr (.inl ((held entry old).2 item inside))⟩
          · exact ⟨filled_of_chooseRequest chosen, fun item inside => (more _ _).mpr (.inr ⟨_, _, _, _, _, rfl, chosen, rfl, inside⟩)⟩
        · refine Worker.loadedAs_remember.mpr (((more generation item).mp told).imp (known generation item) ?_)
          rintro ⟨_, _, _, _, _, is, chosen', same', _⟩
          cases is
          cases chosen.symm.trans chosen'
          exact same'.symm
  | leasing worker processed =>
    rw [same (by intro _ _ _ equal; cases equal)]
    obtain ⟨held, known⟩ := recalls
    rcases Process.leasing_step ran with ⟨rfl, _⟩ | ⟨generation, rfl, nothing, rfl⟩ | rfl
    · trivial
    · intro item told
      obtain ⟨selected, loaded⟩ := Option.isSome_iff_exists.mp (known generation item told)
      rw [loaded] at nothing
      exact (held _ (Worker.mem_of_loadedAs loaded)).1 nothing
    · intro item member
      cases loaded : worker.loadedAs (processed.getD "") with
      | none =>
        rw [loaded] at member
        cases member
      | some selected =>
        rw [loaded] at member
        exact .inl ((held _ (Worker.mem_of_loadedAs loaded)).2 item member)
  | recovering worker processed scan =>
    rw [same (by intro _ _ _ equal; cases equal)]
    simp only [Process.step] at ran
    split at ran
    · cases ran
      exact recalls
    · cases ran
      intro item member
      have bears : item.2.generation = processed := by simpa using (List.mem_filter.mp member).2
      exact .inr ⟨congrArg some bears.symm, fun other told => recalls other (bears ▸ told)⟩
  | retiring worker processed left =>
    rw [same (by intro _ _ _ equal; cases equal)]
    cases left with
    | nil =>
      cases ran
      trivial
    | cons item left =>
      cases ran
      exact fun other member => recalls other (List.mem_cons_of_mem _ member)
  | handing worker scan =>
    simp only [Process.step] at ran
    split at ran
    · cases ran
      trivial
    · split at ran <;> cases ran <;> trivial
  | renewing lease phase =>
    cases phase with
    | look | lease =>
      simp only [Process.step] at ran
      split at ran <;> cases ran <;> trivial
    | _ => cases ran; trivial
  | releasing | persisting => cases ran; trivial
  | working | returned => cases ran

/-- Every process knows what its own loads have answered, and those of the future have answered nothing. -/
structure Remembers (hashes : Hashes) (start : World) (events : List Event) (world : World) : Prop where
  inside : ∀ number generation item, Answered hashes start events number generation item → number < world.processes.length
  recalls : ∀ (number : Nat) process, world.processes[number]? = some process →
    process.Recalls (Answered hashes start events number)

theorem Remembers.step {after : World}
    (remembers : Remembers hashes start events before) (run : Exec (Step hashes) start events before)
    (step : Step hashes before event after) : Remembers hashes start (events ++ [event]) after := by
  -- only an operation of the process itself answers it anything
  have quiet : ∀ number, (∀ choice, event ≠ .act number choice) →
      Answered hashes start (events ++ [event]) number = Answered hashes start events number := by
    intro number other
    funext generation item
    refine propext ((answered_snoc run).trans ⟨fun either => either.elim id ?_, .inl⟩)
    rintro ⟨choice, same, _⟩
    exact absurd same (other choice)
  have answered : ∀ number generation item, Answered hashes start (events ++ [event]) number generation item →
      number < before.processes.length := by
    intro number generation item told
    rcases (answered_snoc run).mp told with old | ⟨_, _, _, _, _, _, _, found, _⟩
    · exact remembers.inside number generation item old
    · exact (List.getElem?_eq_some_iff.mp found).1
  have puts : ∀ {number : Nat} {next : Process}, (∀ other choice, event ≠ .act other choice) →
      next.Recalls (Answered hashes start events number) → Remembers hashes start (events ++ [event]) (before.put number next) := by
    intro number next silent recalls
    refine ⟨fun other generation item told => by simpa [World.put] using answered other generation item told, ?_⟩
    intro other process found
    rw [quiet other (silent other)]
    rcases process_put found with ⟨rfl, rfl⟩ | ⟨_, there⟩
    · exact recalls
    · exact remembers.recalls other process there
  have adds : ∀ {added : Process} {after : World}, (∀ other choice, event ≠ .act other choice) →
      after.processes = before.processes ++ [added] → (∀ told, added.Recalls told) →
      Remembers hashes start (events ++ [event]) after := by
    intro added after silent processes recalls
    refine ⟨fun other generation item told => ?_, ?_⟩
    · rw [processes, List.length_append]
      exact Nat.lt_of_lt_of_le (answered other generation item told) (Nat.le_add_right _ _)
    · intro other process found
      rw [quiet other (silent other)]
      rw [processes] at found
      rcases process_added found with ⟨_, rfl⟩ | there
      · exact recalls _
      · exact remembers.recalls other process there
  unfold Step at step
  cases event with
  | tick elapsed =>
    cases step
    refine ⟨answered, fun number process found => ?_⟩
    rw [quiet number (by intro _ equal; cases equal)]
    exact remembers.recalls number process found
  | dispatch request =>
    simp only [World.next] at step
    split at step
    · cases step
      exact adds (by intro _ _ equal; cases equal) rfl fun _ => trivial
    · cases step
  | load number readiness =>
    simp only [World.next] at step
    split at step
    · next worker found =>
      cases step
      exact puts (by intro _ _ equal; cases equal) (show worker.Recalls _ from remembers.recalls number (.working worker) found)
    · cases step
  | finish number processed =>
    simp only [World.next] at step
    split at step
    · next worker found =>
      cases step
      exact puts (by intro _ _ equal; cases equal) (show worker.Recalls _ from remembers.recalls number (.working worker) found)
    · cases step
  | renew number =>
    simp only [World.next] at step
    split at step
    · cases step
      exact adds (by intro _ _ equal; cases equal) rfl fun _ => trivial
    · cases step
  | act number choice =>
    simp only [World.next] at step
    split at step
    · cases step
    · split at step
      · next ran =>
        cases step
        obtain ⟨process, found, moved⟩ := Option.bind_eq_some_iff.mp ran
        refine ⟨fun other generation item told => ?_, fun other holder there => ?_⟩
        · have bound := answered other generation item told
          simp only [List.length_append, List.length_set]
          omega
        · rcases process_after there with ⟨rfl, rfl⟩ | ⟨differs, kept⟩ | ⟨outside, new⟩
          · refine Process.recalls_step moved (fun generation item => ?_) (remembers.recalls other process found)
            refine (answered_snoc run).trans (or_congr Iff.rfl ⟨?_, ?_⟩)
            · rintro ⟨_, _, worker, readiness, requests, latest, selected, is, rest⟩
              exact ⟨worker, readiness, requests, latest, selected, Option.some.inj (found.symm.trans is), rest⟩
            · rintro ⟨worker, readiness, requests, latest, selected, is, rest⟩
              exact ⟨choice, rfl, worker, readiness, requests, latest, selected, is ▸ found, rest⟩
          · rw [quiet other fun choice' same => differs (by cases same; rfl)]
            exact remembers.recalls other holder kept
          · obtain ⟨worker, spawned, rfl⟩ : ∃ worker, _ = some worker ∧ Process.working worker = holder := by
              simpa using List.mem_of_getElem? new
            subst spawned
            refine ⟨fun entry member => ?_, fun generation item told => ?_⟩
            · rw [Process.spawned_fresh moved] at member
              cases member
            · exact absurd (answered other generation item told) (Nat.not_lt.mpr outside)
      · cases step
  | die number =>
    simp only [World.next] at step
    split at step
    · cases step
      exact puts (by intro _ _ equal; cases equal) trivial
    · cases step

theorem Remembers.initial (alone : start.processes = []) : Remembers hashes start [] start := by
  constructor
  · rintro number generation item ⟨front, choice, back, _, split, _⟩
    simp at split
  · intro number process found
    rw [alone] at found
    cases found

theorem Distinct.initial (idle : Idle start) : Distinct hashes start := by
  refine ⟨fun request member => ?_, fun first _ _ _ found => ?_, fun file member request readable => ?_⟩
  · rw [idle.processes] at member
    cases member
  · rw [idle.processes] at found
    cases found
  · rw [idle.pending file member] at readable
    cases readable

theorem known_initial (idle : Idle start) : Known hashes start := by
  intro process member
  rw [idle.processes] at member
  cases member

theorem remembers_run {world : World} (idle : Idle start) (run : Exec (Step hashes) start events world) :
    Distinct hashes world ∧ Known hashes world ∧ Remembers hashes start events world := by
  induction events using List.reverseRecOn generalizing world with
  | nil =>
    cases run
    exact ⟨.initial idle, known_initial idle, .initial idle.processes⟩
  | append_singleton events event ih =>
    obtain ⟨before, front, step⟩ := run.snoc_cases
    obtain ⟨distinct, known, remembers⟩ := ih front
    exact ⟨distinct.move step.names, known.step distinct step, remembers.step front step⟩

/-! ### Deletions -/

/-- The event is the unlink by a finish whose worker may retire the file, which holds what the worker read. -/
def Retired (hashes : Hashes) (start : World) (events : List Event) (before : World) (event : Event) (file : PendingFile) : Prop :=
  ∃ number choice worker processed item left, event = .act number choice ∧
    before.processes[number]? = some (.retiring worker processed (item :: left)) ∧ file.name = item.1 ∧
    file.request = some item.2 ∧ Retires (Answered hashes start events number) processed item

theorem DirectoryMove.deleted
    (move : DirectoryMove hashes uuid files process after) {file : PendingFile} (member : file ∈ files.pending.rows)
    (gone : after.pending.get? file.name = none) :
    ∃ worker processed item left, process = .retiring worker processed (item :: left) ∧ file.name = item.1 := by
  have there : files.pending.get? file.name = some file := Table.get?_of_mem member
  have kept : ∀ {row : PendingFile}, (files.pending.upsert row).get? file.name ≠ none := by
    intro row none_
    rw [Table.get?_upsert] at none_
    split at none_
    · cases none_
    · rw [there] at none_
      cases none_
  cases move with
  | keeps pending _ =>
    rw [pending, there] at gone
    cases gone
  | persists => exact absurd gone kept
  | renames =>
    unfold Files.renameLegacy at gone
    split at gone
    · rw [there] at gone
      cases gone
    · exact absurd gone kept
  | @unlinks worker processed item left =>
    refine ⟨worker, processed, item, left, rfl, ?_⟩
    by_contra differs
    have listed : file ∈ (files.unlinkPending item.1).pending.rows := List.mem_filter.mpr ⟨member, by simpa using differs⟩
    rw [Table.get?_of_mem listed] at gone
    cases gone

theorem retired_of_deleted {after : World} (idle : Idle start)
    (run : Exec (Step hashes) start events before) (step : Step hashes before event after) {file : PendingFile}
    (member : file ∈ before.files.pending.rows) (gone : after.files.pending.get? file.name = none) :
    Retired hashes start events before event file := by
  obtain ⟨_, known, remembers⟩ := remembers_run idle run
  have there : before.files.pending.get? file.name = some file := Table.get?_of_mem member
  have same : after.files = before.files → False := by
    intro files
    rw [files, there] at gone
    cases gone
  unfold Step at step
  cases event with
  | tick elapsed =>
    cases step
    exact (same rfl).elim
  | act number choice =>
    simp only [World.next] at step
    split at step
    · cases step
    · split at step
      · next ran =>
        cases step
        obtain ⟨process, found, moved⟩ := Option.bind_eq_some_iff.mp ran
        obtain ⟨worker, processed, item, left, rfl, name⟩ := (Process.directory_step moved).deleted member gone
        have fixed := known _ (List.mem_of_getElem? found) item List.mem_cons_self
        exact ⟨number, choice, worker, processed, item, left, rfl, found, name, fixed.same file member name,
          remembers.recalls number _ found item List.mem_cons_self⟩
      · cases step
  | dispatch | load | finish | renew | die =>
    simp only [World.next] at step
    split at step
    · cases step
      exact (same rfl).elim
    · cases step

/-- Every deletion is a retirement, and a request that waits has a worker or a process that will see to it. -/
theorem triggers_kept {start final : World} {events : List Event} (idle : Idle start)
    (run : Exec (Restrict (Step hashes) fun _ event => event.Steady) start events final) :
    (∀ front event back before after, events = front ++ event :: back → Exec (Step hashes) start front before →
      Step hashes before event after → ∀ file ∈ before.files.pending.rows, after.files.pending.get? file.name = none →
        Retired hashes start front before event file) ∧
      ((∀ process ∈ final.processes, ¬ process.InCall) →
        ∀ file ∈ final.files.pending.rows, file.request.isSome = true → final.Served) := by
  constructor
  · intro front event back before after _ reached step file member gone
    exact retired_of_deleted idle reached step member gone
  · intro quiet file member readable
    have covered : Covered final :=
      run.invariant Covered (fun _ _ _ held step => held.step step.1 step.2) idle.covered
    have owned : Owned final :=
      run.invariant Owned (fun _ _ _ held step => held.step step.1 step.2) idle.owned
    exact covered.served owned quiet member readable

instance (event : Event) : Decidable event.Steady :=
  match event with
  | .act _ choice => inferInstanceAs (Decidable (choice.spawns = true))
  | .die _ => .isFalse id
  | .tick _ | .dispatch _ | .load _ _ | .finish _ _ | .renew _ => .isTrue trivial

def quietWorld : World := ⟨⟨.empty, .empty, none⟩, 0, [], []⟩

theorem idle_quietWorld : Idle quietWorld := ⟨rfl, rfl, nofun⟩

instance : DecidablePred Process.InCall := fun process =>
  match process with
  | .persisting _ | .ensuring _ _ _ | .leasing _ _ | .recovering _ _ _ | .retiring _ _ _ | .releasing _ | .handing _ _ => .isTrue trivial
  | .working _ | .loading _ _ _ | .renewing _ _ | .returned => .isFalse id

/-- A request that comes while a worker processes another one waits for that worker. -/
theorem triggers_kept_waiting : ∃ final, Exec (Restrict (Step .spelled) fun _ event => event.Steady) quietWorld
    (.dispatch (sampleRequest "g1" 0) :: turns 0 [0, 0, 0, 0] ++ .dispatch (sampleRequest "g2" 0) :: turns 4 [2, 2, 2]) final ∧
      final.Served := by
  have ran : ((quietWorld.run .spelled (fun _ event => event.Steady) (.dispatch (sampleRequest "g1" 0) :: turns 0 [0, 0, 0, 0] ++
      .dispatch (sampleRequest "g2" 0) :: turns 4 [2, 2, 2])).any fun final =>
        final.processes.all (fun process => !decide process.InCall) && final.files.pending.rows.any (·.request.isSome)) = true := by
    decide +kernel
  obtain ⟨final, found, facts⟩ := (Option.any_eq_true _ _).mp ran
  simp only [Bool.and_eq_true, List.all_eq_true, List.any_eq_true, Bool.not_eq_true', decide_eq_false_iff_not] at facts
  obtain ⟨quiet, file, member, readable⟩ := facts
  exact ⟨final, exec_run found, (triggers_kept idle_quietWorld (exec_run found)).2 quiet file member readable⟩

def finishesUnloaded : List Event :=
  .dispatch (sampleRequest "g1" 0) :: turns 0 [0, 0, 0, 0] ++ .finish 1 (some "g1") :: turns 4 [1, 1, 1, 1]

/-- A finish for a generation that the worker has never loaded deletes the file that bears it. -/
theorem triggers_kept_fails : ¬ ∀ (start final : World) (events : List Event), Idle start →
    Exec (Restrict (Step .spelled) fun _ event => event.Steady) start events final →
    ∀ front event back before after, events = front ++ event :: back → Exec (Step .spelled) start front before →
      Step .spelled before event after → ∀ file ∈ before.files.pending.rows, after.files.pending.get? file.name = none →
        ∃ number choice worker processed item left, event = .act number choice ∧
          before.processes[number]? = some (.retiring worker processed (item :: left)) ∧ file.name = item.1 ∧
          Answered .spelled start front number (processed.getD "") item := by
  intro all
  -- the worker looks for the generation itself, finds its file, and unlinks it
  have ran : ((quietWorld.run .spelled (fun _ event => event.Steady) finishesUnloaded).any fun early =>
      (early.processes[1]?.any fun process => match process with
        | .recovering _ generation _ => generation = "g1"
        | _ => false) &&
      (early.next .spelled (.act 1 ⟨"found", .insertion, true⟩)).any fun before =>
        (before.processes[1]?.any fun process => match process with
          | .retiring _ processed _ => processed = some "g1"
          | _ => false) &&
        (before.next .spelled (.act 1 ⟨"unlink", .insertion, true⟩)).any fun after => before.files.pending.rows.any fun file =>
          (after.files.pending.get? file.name).isNone) = true := by decide +kernel
  obtain ⟨early, reached, facts⟩ := (Option.any_eq_true _ _).mp ran
  obtain ⟨looking, facts⟩ := Bool.and_eq_true_iff.mp facts
  obtain ⟨before, first, facts⟩ := (Option.any_eq_true _ _).mp facts
  obtain ⟨retiring, facts⟩ := Bool.and_eq_true_iff.mp facts
  obtain ⟨after, second, facts⟩ := (Option.any_eq_true _ _).mp facts
  obtain ⟨file, member, gone⟩ := List.any_eq_true.mp facts
  have run : Exec (Restrict (Step .spelled) fun _ event => event.Steady) quietWorld finishesUnloaded early := exec_run reached
  have whole := (run.append (.single ⟨first, rfl⟩)).append (.single ⟨second, rfl⟩)
  have toBefore := run.unguarded.append (.single first)
  obtain ⟨number, choice, worker, processed, item, left, same, there, _, told⟩ :=
    all quietWorld after _ idle_quietWorld whole _ _ [] before after rfl toBefore second file member (Option.isNone_iff_eq_none.mp gone)
  cases same
  rw [there] at retiring
  have generation : processed = some "g1" := by simpa using retiring
  subst generation
  -- while it looked for the generation no load had answered it, and looking is no load
  obtain ⟨process, here, shape⟩ := (Option.any_eq_true _ _).mp looking
  cases process with
  | recovering worker' processed scan =>
    obtain rfl : processed = "g1" := by simpa using shape
    rcases (answered_snoc run.unguarded).mp told with old | ⟨_, _, _, _, _, _, _, loading, _⟩
    · exact (remembers_run idle_quietWorld run.unguarded).2.2.recalls 1 _ here item old
    · cases here.symm.trans loading
  | _ => cases shape

end HarnessMem.Background
