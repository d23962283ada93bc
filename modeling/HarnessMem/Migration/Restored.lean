import HarnessMem.Migration.Migrate

/-! When a migration that raises leaves the store as it was. The rollback lays the
backup over the live file, and so leaves the tables that the backup lacks.
-/

set_option autoImplicit false

namespace HarnessMem.Migration

open HarnessMem.Library

def createdTables : List String := migrationTables ++ canonicalTables

theorem createdTables_visible : ∀ name ∈ createdTables, visible name := by decide

theorem runsTable_created : runsTable ∈ createdTables :=
  List.mem_append_left _ (List.mem_cons_of_mem _ (List.mem_singleton_self _))

/-- A staging file on the store it was copied from. -/
structure Staged (start staging : Objects) : Prop where
  grows : Grows createdTables start staging
  present : ∀ name ∈ createdTables, (staging.tables.get? name).isSome
  recorded : contents staging runsTable ≠ contents start runsTable

namespace Attempt

variable {attempt : Attempt} {before : World}

theorem raise_ok {point : Point} : attempt.raise point = .ok () ↔ attempt.raises point = none := by
  unfold raise
  cases attempt.raises point with
  | none => exact ⟨fun _ => rfl, fun _ => rfl⟩
  | some failure => simp

theorem buildStaging_staged {runtime : Option Bytes} {start staging : Objects}
    (done : attempt.buildStaging runtime start = .ok staging) : Staged start staging := by
  unfold buildStaging at done
  obtain ⟨_, _, done⟩ := bind_eq_ok.mp done
  obtain ⟨⟨loaded, payloadsMatch⟩, payloads, done⟩ := bind_eq_ok.mp done
  obtain ⟨_, _, done⟩ := bind_eq_ok.mp done
  obtain ⟨⟨built, accounted⟩, canonical, done⟩ := bind_eq_ok.mp done
  obtain ⟨_, _, done⟩ := bind_eq_ok.mp done
  -- the checks let nothing but this file through
  have same : built = staging := by
    dsimp only at done
    split at done
    · cases done
    split at done
    · cases done
    split at done
    · cases done
    split at done
    · cases done
    · exact Except.ok.inj done
  subst same
  have ⟨grown, there⟩ := buildCanonicalStore_spec canonical
  constructor
  case grows =>
    exact ((applyStoreV2Migration_grows payloads).mono (List.subset_append_left _ _)).trans
      (grown.mono (List.subset_append_right _ _))
  case present =>
    intro name member
    rcases List.mem_append.mp member with first | second
    · exact grown.present (applyStoreV2Migration_present payloads first)
    · exact there name second
  case recorded =>
    have untouched : contents built runsTable = contents loaded runsTable := by
      unfold contents
      rw [grown.others runsTable (by decide)]
    rw [untouched]
    exact applyStoreV2Migration_records payloads

end Attempt

/-! ### The activated store -/

section activated

variable {main staging after : Objects}

theorem Staged.hidden (staged : Staged main staging) {name : String} (unseen : visible name = false) :
    staging.tables.get? name = main.tables.get? name := by
  apply staged.grows.others
  intro member
  rw [createdTables_visible name member] at unseen
  cases unseen

theorem Staged.contents_after (staged : Staged main staging) (activated : Activated staging main after) :
    contents after = layered (contents staging) (contents main) :=
  activated.contents fun _ unseen => staged.hidden unseen

theorem Staged.fingerprint_after (staged : Staged main staging) (activated : Activated staging main after)
    (digest : Snapshot → String) : fingerprint digest after = fingerprint digest staging := by
  unfold fingerprint
  congr 1
  apply snapshot_congr
  · intro name shown
    cases there : staging.tables.get? name with
    | none =>
      rw [activated.others name fun _ => there]
      cases own : main.tables.get? name with
      | none => rfl
      | some mine =>
        obtain ⟨_, found, _⟩ := staged.grows.kept name mine own
        rw [there] at found
        cases found
    | some table =>
      rw [activated.tables name table shown there]
      cases own : main.tables.get? name with
      | none => rfl
      | some mine =>
        have alike := staged.grows.alike name table mine there own
        rw [Option.map_some, Option.map_some, Option.getD_some, alike]
  · intro name shown
    rw [activated.indexes, if_pos shown]
    cases own : main.indexes.get? name with
    | none => exact Option.none_or
    | some index => rw [staged.grows.indexes name index own, Option.some_or]

theorem Activated.backup_alike (activated : Activated staging main after) : Alike main after := by
  intro name table own mine now
  by_cases there : visible name ∧ (staging.tables.get? name).isSome
  · obtain ⟨shown, present⟩ := there
    obtain ⟨new, found⟩ := Option.isSome_iff_exists.mp present
    rw [activated.tables name new shown found, mine] at now
    cases now
    rfl
  · have missing : visible name → staging.tables.get? name = none := fun shown =>
      Option.not_isSome_iff_eq_none.mp fun present => there ⟨shown, present⟩
    rw [activated.others name missing, mine] at now
    cases now
    rfl

theorem Staged.rolled_back_iff (staged : Staged main staging) (activated : Activated staging main after) {back : Objects}
    (restored : Activated main after back) :
    contents back = contents main ↔ ∀ name ∈ createdTables, (main.tables.get? name).isSome := by
  have hidden : ∀ name, visible name = false → main.tables.get? name = after.tables.get? name := by
    intro name unseen
    symm
    apply activated.others
    intro shown
    rw [unseen] at shown
    cases shown
  rw [restored.contents hidden, staged.contents_after activated, layered_undoes_iff]
  constructor
  · intro covers name member
    have present := covers name (by rw [contents, Option.isSome_map]; exact staged.present name member)
    rwa [contents, Option.isSome_map] at present
  · intro all name present
    rw [contents, Option.isSome_map] at present ⊢
    by_cases member : name ∈ createdTables
    · exact all name member
    · rwa [staged.grows.others name member] at present

theorem Staged.contents_ne (staged : Staged main staging) (activated : Activated staging main after) :
    contents after ≠ contents main := by
  intro same
  have here := congrFun same runsTable
  rw [staged.contents_after activated, layered] at here
  have present : (contents staging runsTable).isSome := by
    rw [contents, Option.isSome_map]
    exact staged.present runsTable runsTable_created
  rw [Option.or_of_isSome present] at here
  exact staged.recorded here

end activated

/-! ### The call -/

namespace Attempt

variable (attempt : Attempt) (before : World)

/-- Nothing stops the call before the staging file is activated. -/
structure Activates (staging : Objects) : Prop where
  quiet : ∀ point ∈ [Point.prepare, .compareLive, .activate], attempt.raises point = none
  copied : before.live.isSome → ∀ point ∈ [Point.backUp, .copyStaging, .noteBackup], attempt.raises point = none
  built : attempt.buildStaging before.runtime (before.live.getD .empty) = .ok staging

def StoreReturns : Prop :=
  match before.live with
  | some live => attempt.raises .rollBack = none ∧ ∀ name ∈ createdTables, (live.tables.get? name).isSome
  | none => ∀ point ∈ [Point.inspectTarget, .makeQuarantine, .moveAside], attempt.raises point = none

def RuntimeReturns (written : Prop) : Prop :=
  match before.runtime with
  | some text => attempt.raises .restoreRuntime = none ∨ attempt.leftRuntime = some text
  | none => attempt.raises .restoreRuntime = none ∨ ¬written

def Undone : Prop :=
  attempt.raises .prepare ≠ none ∨
    ((∃ staging, attempt.Activates before staging) →
      (attempt.raises .writeRuntime ≠ none ∨ attempt.raises .finalize ≠ none) ∧ attempt.StoreReturns before) ∧
    attempt.RuntimeReturns before ((∃ staging, attempt.Activates before staging) ∧ attempt.raises .writeRuntime = none)

/-- The store is what it was; one that was made by the call is moved aside. -/
structure Restored (after : World) : Prop where
  contents : after.live.map Migration.contents = before.live.map Migration.contents
  runtime : after.runtime = before.runtime
  aside : before.live = none → ∀ staging, attempt.Activates before staging → after.aside = staging :: before.aside

variable {attempt before}

/-- The state in which the handler finds the store after an activation. -/
structure Activation (staging after : Objects) : Prop where
  activates : attempt.Activates before staging
  staged : Staged (before.live.getD .empty) staging
  copied : ∀ main, before.live = some main → Activated staging main after
  linked : before.live = none → after = staging

theorem stage_eq {staging : Objects} (activates : attempt.Activates before staging) :
    attempt.stage before = (before.live, .ok staging) := by
  have built := activates.built
  unfold stage
  cases live : before.live with
  | none =>
    rw [live] at built
    rw [← built]
    rfl
  | some main =>
    rw [live] at built
    have quiet := activates.copied (by rw [live]; rfl)
    have first := raise_ok.mpr (quiet .backUp (by simp))
    have second := raise_ok.mpr (quiet .copyStaging (by simp))
    have third := raise_ok.mpr (quiet .noteBackup (by simp))
    simp only [first, second, third, ok_bind]
    rw [← built]
    rfl

theorem stage_ok {staging : Objects} (done : (attempt.stage before).2 = .ok staging) :
    (attempt.stage before).1 = before.live ∧
      (before.live.isSome → ∀ point ∈ [Point.backUp, .copyStaging, .noteBackup], attempt.raises point = none) ∧
      attempt.buildStaging before.runtime (before.live.getD .empty) = .ok staging := by
  unfold stage at done ⊢
  cases live : before.live with
  | none =>
    rw [live] at done
    exact ⟨rfl, fun impossible => absurd impossible Bool.false_ne_true, done⟩
  | some main =>
    rw [live] at done
    simp only at done ⊢
    cases first : attempt.raise .backUp with
    | error failure =>
      rw [first] at done
      cases done
    | ok _ =>
      rw [first] at done
      obtain ⟨_, second, done⟩ := bind_eq_ok.mp done
      obtain ⟨_, third, done⟩ := bind_eq_ok.mp done
      refine ⟨rfl, fun _ point member => ?_, done⟩
      simp only [List.mem_cons, List.not_mem_nil, or_false] at member
      rcases member with rfl | rfl | rfl
      · exact raise_ok.mp first
      · exact raise_ok.mp second
      · exact raise_ok.mp third

theorem fingerprintAt_some (objects : Objects) :
    attempt.fingerprintAt (some objects) = some (fingerprint attempt.outside.fingerprint objects) := rfl

theorem activateStore_ok {staging : Objects} {backup : Option Objects} (staged : Staged (before.live.getD .empty) staging)
    (compares : attempt.raises .compareLive = none) (activates : attempt.raises .activate = none) :
    ∃ after, attempt.activateStore before { before with backup := backup } staging = .ok after ∧
      (∀ main, before.live = some main → Activated staging main after) ∧ (before.live = none → after = staging) := by
  unfold activateStore
  rw [raise_ok.mpr compares, ok_bind, if_neg (not_not.mpr rfl)]
  cases live : before.live with
  | none =>
    dsimp only
    rw [raise_ok.mpr activates]
    exact ⟨staging, rfl, fun main none => absurd none (Option.some_ne_none main).symm, fun _ => rfl⟩
  | some main =>
    rw [live, Option.getD_some] at staged
    obtain ⟨after, activated, run⟩ := activateStaging_ok attempt.outside.fingerprint staged.grows.alike
    refine ⟨after, ?_, ?_, fun some => absurd some (Option.some_ne_none main)⟩
    · dsimp only
      rw [activates, fingerprintAt_some, run]
      rfl
    · intro other same
      cases same
      exact activated

theorem activateStore_error {staging : Objects} {backup : Option Objects} (staged : Staged (before.live.getD .empty) staging)
    (loud : attempt.raises .compareLive ≠ none ∨ attempt.raises .activate ≠ none) :
    ∃ failure, attempt.activateStore before { before with backup := backup } staging = .error failure := by
  unfold activateStore
  cases compares : attempt.raises .compareLive with
  | some failure =>
    unfold raise
    rw [compares]
    exact ⟨failure, rfl⟩
  | none =>
    obtain ⟨failure, stops⟩ := Option.ne_none_iff_exists'.mp (loud.resolve_left (not_not.mpr compares))
    refine ⟨failure, ?_⟩
    rw [raise_ok.mpr compares, ok_bind, if_neg (not_not.mpr rfl)]
    cases live : before.live with
    | none =>
      dsimp only
      unfold raise
      rw [stops]
      rfl
    | some main =>
      rw [live, Option.getD_some] at staged
      have run := activateStaging_failed attempt.outside.fingerprint failure staged.grows.alike
      dsimp only
      rw [stops, fingerprintAt_some, run]
      rfl

theorem migrate_cases (attempt : Attempt) (before : World) :
    (attempt.raises .prepare ≠ none ∧ attempt.migrate before = ⟨before, true⟩) ∨
    (attempt.raises .prepare = none ∧ (¬∃ staging, attempt.Activates before staging) ∧
      ∃ backup, attempt.migrate before = ⟨attempt.recover before ⟨{ before with backup := backup }, none⟩, true⟩) ∨
    (attempt.raises .prepare = none ∧ ∃ staging after, @Activation attempt before staging after ∧
      attempt.migrate before = attempt.settle before { before with backup := before.live, live := some after }
        (fingerprint attempt.outside.fingerprint staging)) := by
  unfold migrate
  cases prepares : attempt.raise .prepare with
  | error failure =>
    refine .inl ⟨fun quiet => ?_, rfl⟩
    rw [raise_ok.mpr quiet] at prepares
    cases prepares
  | ok _ =>
    have prepared := raise_ok.mp prepares
    refine .inr ?_
    dsimp only
    cases built : (attempt.stage before).2 with
    | error failure =>
      refine .inl ⟨prepared, ?_, _, rfl⟩
      rintro ⟨staging, activates⟩
      rw [stage_eq activates] at built
      cases built
    | ok staging =>
      obtain ⟨backup, copied, made⟩ := stage_ok built
      have staged := buildStaging_staged made
      dsimp only
      by_cases quiet : attempt.raises .compareLive = none ∧ attempt.raises .activate = none
      · obtain ⟨after, run, activated, linked⟩ := @activateStore_ok attempt before staging (attempt.stage before).1 staged quiet.1 quiet.2
        refine .inr ⟨prepared, staging, after, ⟨⟨?_, copied, made⟩, staged, activated, linked⟩, ?_⟩
        · simp [prepared, quiet.1, quiet.2]
        · rw [run, backup]
      · have loud := not_and_or.mp quiet
        obtain ⟨failure, run⟩ := @activateStore_error attempt before staging (attempt.stage before).1 staged loud
        refine .inl ⟨prepared, ?_, (attempt.stage before).1, ?_⟩
        · rintro ⟨other, activates⟩
          exact quiet ⟨activates.quiet .compareLive (by simp), activates.quiet .activate (by simp)⟩
        · rw [run]

/-! ### What the handler leaves -/

theorem recover_not_required (backup : Option Objects) :
    attempt.recover before ⟨{ before with backup := backup }, none⟩ =
      attempt.restoreRuntime before.runtime { before with backup := backup } := rfl

theorem restoreRuntime_live (runtime : Option Bytes) (world : World) : (attempt.restoreRuntime runtime world).live = world.live := by
  unfold restoreRuntime
  split
  · split <;> rfl
  · split <;> rfl

theorem restoreRuntime_aside (runtime : Option Bytes) (world : World) : (attempt.restoreRuntime runtime world).aside = world.aside := by
  unfold restoreRuntime
  split
  · split <;> rfl
  · split <;> rfl

theorem restoreRuntime_iff {world : World} {written : Prop}
    (before_written : ¬written → world.runtime = before.runtime) (after_written : written → world.runtime.isSome) :
    (attempt.restoreRuntime before.runtime world).runtime = before.runtime ↔ attempt.RuntimeReturns before written := by
  unfold restoreRuntime RuntimeReturns
  cases runtime : before.runtime with
  | some text =>
    dsimp only
    cases fault : attempt.raises .restoreRuntime with
    | none =>
      rw [raise_ok.mpr fault]
      exact ⟨fun _ => .inl rfl, fun _ => rfl⟩
    | some failure =>
      rw [raise, fault]
      simp
  | none =>
    rw [runtime] at before_written
    dsimp only
    by_cases wrote : written
    · obtain ⟨text, there⟩ := Option.isSome_iff_exists.mp (after_written wrote)
      cases fault : attempt.raises .restoreRuntime with
      | none =>
        rw [raise_ok.mpr fault, there]
        exact ⟨fun _ => .inl rfl, fun _ => rfl⟩
      | some failure =>
        rw [raise, fault, there]
        simp [wrote, there]
    · rw [before_written wrote]
      exact ⟨fun _ => .inr wrote, fun _ => before_written wrote⟩

def activatedWorld (before : World) (after : Objects) (runtime : Option Bytes) : World :=
  { before with backup := before.live, live := some after, runtime := runtime }

section handler

variable {staging after : Objects} {runtime : Option Bytes}

theorem Activation.contents_ne (activation : @Activation attempt before staging after) :
    some (contents after) ≠ before.live.map contents := by
  have staged := activation.staged
  cases live : before.live with
  | none => exact Option.some_ne_none _
  | some main =>
    rw [live, Option.getD_some] at staged
    intro same
    exact staged.contents_ne (activation.copied main live) (Option.some.inj same)

theorem recover_copied {main : Objects} (activation : @Activation attempt before staging after) (live : before.live = some main) :
    (attempt.raises .rollBack = none ∧ ∃ back, Activated main after back ∧
      attempt.recover before ⟨activatedWorld before after runtime, some (fingerprint attempt.outside.fingerprint staging)⟩ =
        attempt.restoreRuntime before.runtime { activatedWorld before after runtime with live := some back }) ∨
    (attempt.raises .rollBack ≠ none ∧
      attempt.recover before ⟨activatedWorld before after runtime, some (fingerprint attempt.outside.fingerprint staging)⟩ =
        activatedWorld before after runtime) := by
  have staged := activation.staged
  rw [live, Option.getD_some] at staged
  have activated := activation.copied main live
  have expected := staged.fingerprint_after activated attempt.outside.fingerprint
  unfold recover rollBack activatedWorld
  cases fault : attempt.raises .rollBack with
  | none =>
    obtain ⟨back, restored, run⟩ := activateStaging_ok attempt.outside.fingerprint activated.backup_alike
    refine .inl ⟨rfl, back, restored, ?_⟩
    simp only [live, ← expected, run]
    rfl
  | some failure =>
    have run := activateStaging_failed attempt.outside.fingerprint failure activated.backup_alike
    refine .inr ⟨Option.some_ne_none _, ?_⟩
    simp only [live, ← expected, run]
    cases failure <;> rfl

theorem recover_linked (activation : @Activation attempt before staging after) (live : before.live = none) :
    ((∀ point ∈ [Point.inspectTarget, .makeQuarantine, .moveAside], attempt.raises point = none) ∧
      attempt.recover before ⟨activatedWorld before after runtime, some (fingerprint attempt.outside.fingerprint staging)⟩ =
        attempt.restoreRuntime before.runtime { activatedWorld before after runtime with live := none, aside := staging :: before.aside }) ∨
    (¬(∀ point ∈ [Point.inspectTarget, .makeQuarantine, .moveAside], attempt.raises point = none) ∧
      attempt.recover before ⟨activatedWorld before after runtime, some (fingerprint attempt.outside.fingerprint staging)⟩ =
        activatedWorld before after runtime) := by
  have linked := activation.linked live
  subst linked
  unfold recover rollBack activatedWorld raise
  cases inspect : attempt.raises .inspectTarget with
  | some failure => exact .inr ⟨fun quiet => by simpa [inspect] using quiet .inspectTarget, by simp only [live]⟩
  | none =>
    cases quarantine : attempt.raises .makeQuarantine with
    | some failure =>
      refine .inr ⟨fun quiet => by simpa [quarantine] using quiet .makeQuarantine, ?_⟩
      simp only [live, ne_eq, not_true_eq_false, if_false]
    | none =>
      cases move : attempt.raises .moveAside with
      | some failure =>
        refine .inr ⟨fun quiet => by simpa [move] using quiet .moveAside, ?_⟩
        simp only [live, ne_eq, not_true_eq_false, if_false]
      | none =>
        refine .inl ⟨by simp [inspect, quarantine, move], ?_⟩
        simp only [live, ne_eq, not_true_eq_false, if_false]

theorem recover_restored_iff (activation : @Activation attempt before staging after) {written : Prop}
    (before_written : ¬written → runtime = before.runtime) (after_written : written → runtime.isSome) :
    attempt.Restored before
        (attempt.recover before ⟨activatedWorld before after runtime, some (fingerprint attempt.outside.fingerprint staging)⟩) ↔
      attempt.StoreReturns before ∧ attempt.RuntimeReturns before written := by
  have stays : ¬attempt.Restored before (activatedWorld before after runtime) := fun restored =>
    activation.contents_ne restored.contents
  cases live : before.live with
  | some main =>
    have staged := activation.staged
    rw [live, Option.getD_some] at staged
    have rolled := @Staged.rolled_back_iff main staging after staged (activation.copied main live)
    obtain ⟨quiet, back, restored, result⟩ | ⟨loud, result⟩ := @recover_copied _ _ _ _ runtime main activation live
    · rw [result]
      have text := @restoreRuntime_iff attempt before { activatedWorld before after runtime with live := some back } written
        before_written after_written
      unfold StoreReturns
      rw [live]
      constructor
      · intro whole
        have contents := whole.contents
        rw [restoreRuntime_live, live] at contents
        exact ⟨⟨quiet, (rolled restored).mp (Option.some.inj contents)⟩, text.mp whole.runtime⟩
      · rintro ⟨⟨_, all⟩, returns⟩
        constructor
        case contents =>
          rw [restoreRuntime_live, live]
          exact congrArg some ((rolled restored).mpr all)
        case runtime => exact text.mpr returns
        case aside => exact fun none => absurd (live.symm.trans none) (Option.some_ne_none main)
    · rw [result]
      unfold StoreReturns
      rw [live]
      exact ⟨fun restored => absurd restored stays, fun returns => absurd returns.1.1 loud⟩
  | none =>
    obtain ⟨quiet, result⟩ | ⟨loud, result⟩ := @recover_linked _ _ _ _ runtime activation live
    · rw [result]
      have text := @restoreRuntime_iff attempt before
        { activatedWorld before after runtime with live := none, aside := staging :: before.aside } written before_written after_written
      unfold StoreReturns
      rw [live]
      constructor
      · intro whole
        exact ⟨quiet, text.mp whole.runtime⟩
      · rintro ⟨_, returns⟩
        constructor
        case contents => rw [restoreRuntime_live, live]
        case runtime => exact text.mpr returns
        case aside =>
          intro _ other activates
          have same : staging = other := Except.ok.inj (activation.activates.built.symm.trans activates.built)
          rw [restoreRuntime_aside, same]
    · rw [result]
      unfold StoreReturns
      rw [live]
      exact ⟨fun restored => absurd restored stays, fun returns => absurd returns.1 loud⟩

end handler

/-! ### When a failure leaves nothing behind -/

/-- The store is what it was exactly when the call stopped before the activation, or the rollback
of the live file and of the runtime state went through and no table was created. -/
theorem restored_iff_undone (attempt : Attempt) (before : World) :
    attempt.Restored before (attempt.migrate before).world ↔ attempt.Undone before := by
  unfold Undone
  obtain ⟨loud, result⟩ | ⟨quiet, idle, backup, result⟩ | ⟨quiet, staging, after, activation, result⟩ := migrate_cases attempt before
  · rw [result]
    refine ⟨fun _ => .inl loud, fun _ => ⟨rfl, rfl, ?_⟩⟩
    intro _ staging activates
    exact absurd (activates.quiet .prepare (by simp)) loud
  · rw [result, recover_not_required]
    have text := @restoreRuntime_iff attempt before { before with backup := backup } False (fun _ => rfl) (fun impossible => impossible.elim)
    have unwritten : ((∃ staging, attempt.Activates before staging) ∧ attempt.raises .writeRuntime = none) ↔ False :=
      iff_false_intro fun wrote => idle wrote.1
    rw [or_iff_right (not_not.mpr quiet), unwritten, ← text]
    constructor
    · intro restored
      exact ⟨fun activates => absurd activates idle, restored.runtime⟩
    · rintro ⟨_, returned⟩
      refine ⟨?_, returned, fun _ staging activates => absurd ⟨staging, activates⟩ idle⟩
      rw [restoreRuntime_live]
  · rw [result]
    have activates : ∃ staging, attempt.Activates before staging := ⟨staging, activation.activates⟩
    rw [or_iff_right (not_not.mpr quiet), imp_iff_right activates, iff_true_intro activates, true_and]
    unfold settle
    cases write : attempt.raises .writeRuntime with
    | some failure =>
      unfold raise
      rw [write]
      have whole := @recover_restored_iff attempt before staging after before.runtime activation False (fun _ => rfl)
        (fun impossible => impossible.elim)
      refine whole.trans ?_
      simp
    | none =>
      rw [raise_ok.mpr write]
      have whole := @recover_restored_iff attempt before staging after (some attempt.newRuntime) activation True
        (fun impossible => absurd trivial impossible) (fun _ => rfl)
      cases last : attempt.raises .finalize with
      | some failure =>
        unfold raise
        rw [last]
        refine whole.trans ?_
        simp
      | none =>
        -- the migration itself succeeded
        rw [raise_ok.mpr last]
        simp only [ne_eq, not_true_eq_false, or_self, false_and, iff_false]
        exact fun restored => activation.contents_ne restored.contents

def Succeeds (attempt : Attempt) (before : World) : Prop :=
  (∃ staging, attempt.Activates before staging) ∧
    ∀ point ∈ [Point.writeRuntime, .finalize, .removeStaging], attempt.raises point = none

theorem raised_iff (attempt : Attempt) (before : World) : (attempt.migrate before).raised = true ↔ ¬attempt.Succeeds before := by
  unfold Succeeds
  obtain ⟨loud, result⟩ | ⟨_, idle, backup, result⟩ | ⟨_, staging, after, activation, result⟩ := migrate_cases attempt before
  · rw [result]
    refine iff_of_true rfl ?_
    rintro ⟨⟨staging, activates⟩, _⟩
    exact loud (activates.quiet .prepare (by simp))
  · rw [result]
    exact iff_of_true rfl fun succeeds => idle succeeds.1
  · have activates : ∃ staging, attempt.Activates before staging := ⟨staging, activation.activates⟩
    rw [result, iff_true_intro activates, true_and]
    unfold settle raise
    cases write : attempt.raises .writeRuntime with
    | some failure => simp [write]
    | none =>
      cases last : attempt.raises .finalize with
      | some failure => simp [last]
      | none => simp [write, last, Option.isSome_iff_ne_none]

/-- If the call raises then the store is what it was, exactly for the calls that do not raise and
those that leave nothing behind. -/
theorem raised_restored_iff (attempt : Attempt) (before : World) :
    ((attempt.migrate before).raised = true → attempt.Restored before (attempt.migrate before).world) ↔
      attempt.Succeeds before ∨ attempt.Undone before := by
  rw [restored_iff_undone, raised_iff]
  exact imp_iff_not_or.trans (or_congr_left not_not)

/-! ### A first migration that cannot write the runtime state -/

def sampleLive : Objects :=
  match initializeCanonicalSchema .empty with
  | .ok objects => objects
  | .error _ => .empty

def sampleBefore : World := ⟨some sampleLive, some [123, 125], none, []⟩

def sampleLegacy : Legacy where
  rows := [⟨"k1", "observations", "o1", some "demo", "verbatim/o1.json", "{}", "44136f", 2⟩]
  invalid := []

def sampleOutside : Outside where
  fingerprint snapshot := String.join (snapshot.tables.entries.map fun entry => entry.1 ++ ":" ++ toString entry.2.2.card ++ ";")
  sha256 := id
  str
    | .text value => value
    | _ => ""
  mode _ := none
  derived _ := .ok [("corpus_id", .text "default"), ("type", .text "transcript"), ("truth_status", .text "unknown"), ("tier", .text "hot"),
    ("access_count", .integer 0), ("decay_score", .real 0)]

def sampleAttempt : Attempt where
  outside := sampleOutside
  legacy := sampleLegacy
  stamp := ⟨"2026-01-01T00:00:00+00:00", "r1"⟩
  integrity := "ok"
  newRuntime := [123, 32, 125]
  raises
    | .writeRuntime => some (.other "PermissionError")
    | _ => none
  leftRuntime := none

/-- The call raises and the payload and run tables stay in the live file, with their rows. -/
theorem migration_tables_left : (sampleAttempt.migrate sampleBefore).raised = true ∧
    ¬sampleAttempt.Restored sampleBefore (sampleAttempt.migrate sampleBefore).world := by
  have run : ((sampleAttempt.migrate sampleBefore).raised,
      (sampleAttempt.migrate sampleBefore).world.live.map fun live => (live.tables.get? payloadsTable).map (·.rows.length)) =
        (true, some (some 1)) := by decide +kernel
  obtain ⟨raised, now⟩ := Prod.mk.inj run
  refine ⟨raised, fun restored => ?_⟩
  have here := congrArg (Option.map fun rows => rows payloadsTable) restored.contents
  have earlier : sampleLive.tables.get? payloadsTable = none := by decide +kernel
  obtain ⟨live, there, rows⟩ := Option.map_eq_some_iff.mp now
  rw [there, Option.map_some, Option.map_some, sampleBefore, Option.map_some, Option.map_some, Option.some_inj] at here
  unfold contents at here
  rw [earlier, Option.map_none, Option.map_eq_none_iff] at here
  rw [here] at rows
  cases rows

end Attempt

end HarnessMem.Migration
