import HarnessMem.Migration.Import

/-! `migrate_canonical_store_atomically`: the staging file, the activation, and the
handler that takes an activation back. Nobody else writes while it runs.
-/

set_option autoImplicit false

namespace HarnessMem.Migration

open HarnessMem.Library

abbrev Bytes := List UInt8

/-- The places where something can be raised from outside the program, in their order. -/
inductive Point where
  /-- Reading the state before, and the receipt that says so. -/
  | prepare
  | backUp
  | copyStaging
  | noteBackup
  | importPayloads
  | importEntities
  /-- Reading back the staging file, up to its fingerprint. -/
  | checkStaging
  | compareLive
  | activate
  /-- Anything up to the replacement of the runtime state. -/
  | writeRuntime
  /-- Anything behind it, up to the final receipt. -/
  | finalize
  | rollBack
  | inspectTarget
  | makeQuarantine
  | moveAside
  | restoreRuntime
  | removeStaging
  deriving DecidableEq, Repr

structure World where
  live : Option Objects
  runtime : Option Bytes
  backup : Option Objects
  /-- The files under `failed_activations`. -/
  aside : List Objects

structure Attempt where
  outside : Outside
  legacy : Legacy
  stamp : Stamp
  /-- The result of PRAGMA integrity_check on the staging file. -/
  integrity : String
  newRuntime : Bytes
  raises : Point → Option Failure
  /-- What a write of the old runtime state leaves where it is interrupted. -/
  leftRuntime : Option Bytes

namespace Attempt

variable (attempt : Attempt)

def raise (point : Point) : Except Failure Unit :=
  match attempt.raises point with
  | some failure => .error failure
  | none => .ok ()

/-- `_sqlite_logical_fingerprint` of a path. -/
def fingerprintAt (file : Option Objects) : Option String := file.map (fingerprint attempt.outside.fingerprint)

def buildStaging (runtime : Option Bytes) (start : Objects) : Except Failure Objects := do
  attempt.raise .importPayloads
  let payloads ← applyStoreV2Migration attempt.outside attempt.legacy attempt.stamp start
  attempt.raise .importEntities
  let canonical ← buildCanonicalStore attempt.outside attempt.legacy attempt.stamp payloads.1
  attempt.raise .checkStaging
  let relation := canonicalChecksumRelation attempt.outside attempt.legacy (runtime.bind attempt.outside.mode) canonical.1
  if payloads.2 = false then throw (.migration "staging payload checksum mismatch")
  else if canonical.2 = false then throw (.migration "staging canonical coverage is incomplete")
  else if attempt.integrity ≠ "ok" then throw (.migration ("staging SQLite integrity check failed: " ++ attempt.integrity))
  else if relation ∈ [.invalidLegacy, .legacyMissingInCanonical, .contentConflict] then
    throw (.migration "staging checksum relation is unsafe")
  else pure canonical.1

def stage (before : World) : Option Objects × Except Failure Objects :=
  match before.live with
  | none => (none, attempt.buildStaging before.runtime .empty)
  | some live =>
    match attempt.raise .backUp with
    | .error failure => (none, .error failure)
    | .ok () => (some live, do
      attempt.raise .copyStaging
      attempt.raise .noteBackup
      attempt.buildStaging before.runtime live)

def activateStore (before world : World) (staging : Objects) : Except Failure Objects := do
  attempt.raise .compareLive
  if attempt.fingerprintAt world.live ≠ attempt.fingerprintAt before.live then throw (.migration changedMessage)
  else
    match world.live with
    | some live =>
      match activateStaging attempt.outside.fingerprint (attempt.raises .activate) staging (attempt.fingerprintAt before.live) (.idle live) with
      | .ok _ after => pure after.tables
      | .error failure _ => throw failure
    | none => do
      -- a hard link to the staging file
      attempt.raise .activate
      pure staging

/-! ### The handler -/

inductive RollbackStatus where
  | notRequired
  | restored
  | abortedConcurrentWrite
  | quarantinedNewStore
  deriving DecidableEq, Repr

/-- What the handler finds: the files, and the fingerprint of the staging file if that was activated. -/
structure Progress where
  world : World
  activated : Option String

def rollBack (before : World) (progress : Progress) : World × Except Failure RollbackStatus :=
  let world := progress.world
  match progress.activated with
  | none => (world, .ok .notRequired)
  | some active =>
    match before.live, world.backup, world.live with
    | some _, some backup, some live =>
      match activateStaging attempt.outside.fingerprint (attempt.raises .rollBack) backup (some active) (.idle live) with
      | .ok _ after => ({ world with live := some after.tables }, .ok .restored)
      | .error (.migration _) _ => (world, .ok .abortedConcurrentWrite)
      | .error failure _ => (world, .error failure)
    | _, _, some live =>
      match attempt.raise .inspectTarget with
      | .error failure => (world, .error failure)
      | .ok () =>
        if fingerprint attempt.outside.fingerprint live ≠ active then (world, .ok .abortedConcurrentWrite)
        else
          match attempt.raise .makeQuarantine, attempt.raise .moveAside with
          | .error failure, _ => (world, .error failure)
          | .ok (), .error _ => (world, .ok .abortedConcurrentWrite)
          | .ok (), .ok () => ({ world with live := none, aside := live :: world.aside }, .ok .quarantinedNewStore)
    | _, _, none => (world, .ok .notRequired)

def restoreRuntime (before : Option Bytes) (world : World) : World :=
  match before with
  | some text =>
    match attempt.raise .restoreRuntime with
    | .ok () => { world with runtime := some text }
    | .error _ => { world with runtime := attempt.leftRuntime }
  | none =>
    match world.runtime, attempt.raise .restoreRuntime with
    | some _, .ok () => { world with runtime := none }
    | _, _ => world

def recover (before : World) (progress : Progress) : World :=
  match attempt.rollBack before progress with
  | (world, .error _) => world
  | (world, .ok .abortedConcurrentWrite) => world
  | (world, .ok _) => attempt.restoreRuntime before.runtime world

/-! ### The call -/

structure Outcome where
  world : World
  raised : Bool

def settle (before world : World) (active : String) : Outcome :=
  match attempt.raise .writeRuntime with
  | .error _ => ⟨attempt.recover before ⟨world, some active⟩, true⟩
  | .ok () =>
    let written := { world with runtime := some attempt.newRuntime }
    match attempt.raise .finalize with
    | .error _ => ⟨attempt.recover before ⟨written, some active⟩, true⟩
    | .ok () => ⟨written, (attempt.raises .removeStaging).isSome⟩

/-- `migrate_canonical_store_atomically`. -/
def migrate (before : World) : Outcome :=
  match attempt.raise .prepare with
  | .error _ => ⟨before, true⟩
  | .ok () =>
    let staged := attempt.stage before
    let world := { before with backup := staged.1 }
    match staged.2 with
    | .error _ => ⟨attempt.recover before ⟨world, none⟩, true⟩
    | .ok staging =>
      match attempt.activateStore before world staging with
      | .error _ => ⟨attempt.recover before ⟨world, none⟩, true⟩
      | .ok live => attempt.settle before { world with live := some live } (fingerprint attempt.outside.fingerprint staging)

end Attempt

end HarnessMem.Migration
