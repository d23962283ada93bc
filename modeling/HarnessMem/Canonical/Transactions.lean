import HarnessMem.Canonical.Store
import HarnessMem.Library.Table

/-! What a transaction of mutations does: it raises and changes nothing, or it
replays its record, or it makes every write of the request at once.
-/

set_option autoImplicit false

namespace HarnessMem.Canonical

open Library Library.Session

variable {π : Type} {hashes : Hashes} {codec : PayloadCodec π} {conditions : Conditions}

/-! ### Statements stay inside the transaction -/

theorem inside_checkPrecondition (mutation : Mutation π) : Inside (checkPrecondition hashes conditions mutation) := by
  unfold checkPrecondition
  split
  · exact .pure []
  · apply Inside.bind (.statement _)
    intro _
    apply Inside.bind (.query _)
    intro current
    dsimp only
    split
    · exact .pure []
    · exact .throw _

theorem inside_applyMutation (mutation : Mutation π) : Inside (applyMutation hashes codec conditions mutation) := by
  unfold applyMutation
  split
  · exact .pure []
  · apply Inside.bind (.statement _)
    intro _
    apply Inside.bind (.query _)
    intro found
    exact .bind (.write _) fun _ => .pure _
  · split
    · exact .throw _
    · exact .bind (.statement _) fun _ => .bind (.write _) fun _ => .pure _

theorem inside_insertRecord (record : TransactionRecord) :
    Inside (insertRecord record : Session CanonicalError (CanonicalTables π) Unit) := by
  apply Inside.bind (.query _)
  intro known
  split
  · exact .throw _
  · exact .write _

variable {record : TransactionRecord} {mutations : List (Mutation π)} {db after : Database (CanonicalTables π)}
  {failure : CanonicalError}

theorem replayRecord_error (raised : replayRecord hashes codec record mutations db = .error failure after) : after = db := by
  unfold replayRecord at raised
  split at raised
  · cases raised
  · cases raised
    rfl

variable {key : String}

theorem firstUse_error
    (raised : firstUse hashes codec conditions key mutations db = .error failure after) : after.saved = db.saved := by
  have checks : Inside (each mutations (checkPrecondition hashes conditions)) := .each inside_checkPrecondition
  obtain early | ⟨_, checked, check, raised⟩ := bind_error.mp raised
  · exact checks.error _ _ _ early
  rw [← checks.ok _ _ _ check]
  obtain early | ⟨applied, written, apply, raised⟩ := bind_error.mp raised
  · exact (Inside.each inside_applyMutation).error _ _ _ early
  rw [← (Inside.each inside_applyMutation).ok _ _ _ apply]
  obtain early | ⟨_, ready, wait, raised⟩ := bind_error.mp raised
  · exact (Inside.statement _).error _ _ _ early
  rw [← (Inside.statement _).ok _ _ _ wait]
  obtain early | ⟨_, recorded, record, raised⟩ := bind_error.mp raised
  · exact (inside_insertRecord _).error _ _ _ early
  rw [← (inside_insertRecord _).ok _ _ _ record]
  obtain early | ⟨_, _, _, raised⟩ := bind_error.mp raised
  · exact (Inside.statement _).error _ _ _ early
  · cases raised

variable {tables : CanonicalTables π}

theorem transactionBody_error
    (raised : transactionBody hashes codec conditions key mutations (.opened tables) = .error failure after) :
    after.saved = some tables := by
  obtain early | ⟨_, looking, wait, raised⟩ := bind_error.mp raised
  · exact (Inside.statement _).error _ _ _ early
  have opened : looking.saved = some tables := (Inside.statement _).ok _ _ _ wait
  obtain early | ⟨replay, found, look, raised⟩ := bind_error.mp raised
  · cases early
  replace opened := ((Inside.query _).ok _ _ _ look).trans opened
  cases replay with
  | some record =>
    rw [replayRecord_error raised]
    exact opened
  | none => exact (firstUse_error raised).trans opened

theorem applyNormalized_error
    (raised : applyNormalized hashes codec conditions key mutations (.idle tables) = .error failure after) :
    after = .idle tables := by
  unfold applyNormalized at raised
  split at raised
  · cases raised
    rfl
  split at raised
  · cases raised
    rfl
  exact rollingBack_error (fun _ _ => transactionBody_error) raised

/-! ### The writes of a request -/

namespace Mutation

def write? (hashes : Hashes) (codec : PayloadCodec π) (conditions : Conditions) (mutation : Mutation π) :
    Option (Write (CanonicalEntityRow.key : CanonicalEntityRow π → EntityTable × String)) :=
  match mutation.operation with
  | .assert => none
  | .delete => some (.remove (mutation.statedKey hashes))
  | .upsert payload sourceRelpath =>
    (upsertedRow hashes codec (conditions.clock (.write mutation.target)) mutation payload sourceRelpath).toOption.map .put

def rowKey (hashes : Hashes) (codec : PayloadCodec π) (mutation : Mutation π) : EntityTable × String :=
  match mutation.operation with
  | .upsert payload _ =>
    (mutation.collection.table,
      Canonical.rowKey hashes mutation.collection (codec.projectId payload) mutation.entityId)
  | _ => mutation.statedKey hashes

def isWriting (mutation : Mutation π) : Bool :=
  match mutation.operation with
  | .assert => false
  | _ => true

def Expects (mutation : Mutation π) (row : Option (CanonicalEntityRow π)) : Prop :=
  ∀ expected ∈ mutation.expectedSha256, row.map (·.payloadSha256) = expected

def Writable (codec : PayloadCodec π) (mutation : Mutation π) : Prop :=
  ∀ payload sourceRelpath, mutation.operation = .upsert payload sourceRelpath →
    ∃ columns, codec.columns mutation.collection payload = .ok columns

end Mutation

def writes (hashes : Hashes) (codec : PayloadCodec π) (conditions : Conditions) (mutations : List (Mutation π)) :
    List (Write (CanonicalEntityRow.key : CanonicalEntityRow π → EntityTable × String)) :=
  mutations.filterMap (Mutation.write? hashes codec conditions)

variable {mutation : Mutation π}

theorem upsertedRow_key {time : Time} {payload : π} {sourceRelpath : Option String}
    {row : CanonicalEntityRow π} (operation : mutation.operation = .upsert payload sourceRelpath)
    (built : upsertedRow hashes codec time mutation payload sourceRelpath = .ok row) :
    row.key = mutation.rowKey hashes codec := by
  unfold upsertedRow at built
  unfold Mutation.rowKey
  rw [operation]
  cases columns : codec.columns mutation.collection payload with
  | error failure => simp [columns, bind, Except.bind] at built
  | ok value =>
    simp only [columns, bind, Except.bind, pure, Except.pure, Except.ok.injEq] at built
    rw [← built]
    rfl

theorem write?_place {write : Write CanonicalEntityRow.key}
    (written : mutation.write? hashes codec conditions = some write) :
    write.place = mutation.rowKey hashes codec ∧ mutation.isWriting = true := by
  unfold Mutation.write? at written
  unfold Mutation.isWriting
  split at written
  · cases written
  · next operation =>
    cases written
    simp [Mutation.rowKey, operation, Write.place]
  · next payload sourceRelpath operation =>
    simp only [Option.map_eq_some_iff] at written
    obtain ⟨row, built, rfl⟩ := written
    cases made : upsertedRow hashes codec (conditions.clock (.write mutation.target)) mutation payload sourceRelpath with
    | error failure => simp [made, Except.toOption] at built
    | ok value =>
      simp only [made, Except.toOption, Option.some.injEq] at built
      subst built
      exact ⟨upsertedRow_key operation made, by simp [operation]⟩

theorem writes_places (mutations : List (Mutation π)) :
    ((writes hashes codec conditions mutations).map Write.place).Sublist
      ((mutations.filter Mutation.isWriting).map (Mutation.rowKey hashes codec)) := by
  induction mutations with
  | nil => exact .slnil
  | cons mutation rest ih =>
    unfold writes at ih ⊢
    rw [List.filterMap_cons, List.filter_cons]
    cases written : mutation.write? hashes codec conditions with
    | none =>
      dsimp only
      split
      · exact ih.trans (List.sublist_cons_self _ _)
      · exact ih
    | some write =>
      obtain ⟨place, writing⟩ := write?_place written
      rw [if_pos writing, List.map_cons, List.map_cons, place]
      exact ih.cons_cons _

theorem write?_upsert {payload : π} {sourceRelpath : Option String}
    (operation : mutation.operation = .upsert payload sourceRelpath) (writable : mutation.Writable codec) :
    ∃ row, upsertedRow hashes codec (conditions.clock (.write mutation.target)) mutation payload sourceRelpath = .ok row ∧
      mutation.write? hashes codec conditions = some (.put row) := by
  obtain ⟨columns, computed⟩ := writable payload sourceRelpath operation
  have built : ∃ row, upsertedRow hashes codec (conditions.clock (.write mutation.target)) mutation payload
      sourceRelpath = .ok row := by
    unfold upsertedRow
    rw [computed]
    exact ⟨_, rfl⟩
  obtain ⟨row, built⟩ := built
  refine ⟨row, built, ?_⟩
  unfold Mutation.write?
  rw [operation]
  dsimp only
  rw [built]
  rfl

def Mutation.perform (hashes : Hashes) (codec : PayloadCodec π) (conditions : Conditions) (mutation : Mutation π)
    (tables : CanonicalTables π) : CanonicalTables π :=
  { tables with rows := tables.rows.performAll (mutation.write? hashes codec conditions).toList }

theorem checkPrecondition_ok {values : List Unit}
    (run : checkPrecondition hashes conditions mutation db = .ok values after) :
    after = db ∧ mutation.Expects (db.tables.rows.get? (mutation.statedKey hashes)) := by
  unfold checkPrecondition at run
  unfold Mutation.Expects
  cases stated : mutation.expectedSha256 with
  | none =>
    rw [stated] at run
    cases run
    exact ⟨rfl, fun _ absurd => nomatch absurd⟩
  | some expected =>
    rw [stated] at run
    obtain ⟨_, ready, wait, read⟩ := bind_ok.mp run
    obtain ⟨current, looked, look, compare⟩ := bind_ok.mp read
    cases look
    rw [statement_ok wait] at compare
    dsimp only at compare
    split at compare
    · next same =>
      cases compare
      refine ⟨rfl, ?_⟩
      rintro _ ⟨⟩
      exact same
    · cases compare

theorem applyMutation_ok
    {values : List AppliedMutation} (run : applyMutation hashes codec conditions mutation db = .ok values after) :
    after = { db with tables := mutation.perform hashes codec conditions db.tables } ∧ mutation.Writable codec := by
  unfold applyMutation at run
  unfold Mutation.perform Mutation.write? Mutation.Writable
  cases operation : mutation.operation with
  | assert =>
    rw [operation] at run
    cases run
    exact ⟨rfl, fun _ _ absurd => nomatch absurd⟩
  | delete =>
    rw [operation] at run
    obtain ⟨_, ready, wait, goesOn⟩ := bind_ok.mp run
    cases statement_ok wait
    cases goesOn
    exact ⟨rfl, fun _ _ absurd => nomatch absurd⟩
  | upsert payload sourceRelpath =>
    rw [operation] at run
    dsimp only at run
    cases built : upsertedRow hashes codec (conditions.clock (.write mutation.target)) mutation payload sourceRelpath with
    | error failure =>
      rw [built] at run
      cases run
    | ok row =>
      rw [built] at run
      obtain ⟨_, ready, wait, goesOn⟩ := bind_ok.mp run
      cases statement_ok wait
      cases goesOn
      constructor
      · simp only [built, Except.toOption, Option.map_some, Option.toList_some]
        rfl
      rintro _ _ ⟨⟩
      cases columns : codec.columns mutation.collection payload with
      | error failure => simp [upsertedRow, columns, bind, Except.bind] at built
      | ok value => exact ⟨value, rfl⟩

theorem perform_all (mutations : List (Mutation π)) (tables : CanonicalTables π) :
    mutations.foldl (fun tables mutation => mutation.perform hashes codec conditions tables) tables =
      { tables with rows := tables.rows.performAll (writes hashes codec conditions mutations) } := by
  induction mutations generalizing tables with
  | nil => rfl
  | cons mutation rest ih =>
    rw [List.foldl_cons, ih]
    unfold writes Mutation.perform
    rw [List.filterMap_cons]
    cases mutation.write? hashes codec conditions <;> rfl

structure Committed (hashes : Hashes) (codec : PayloadCodec π) (conditions : Conditions) (key : String)
    (mutations : List (Mutation π)) (before after : CanonicalTables π) (result : TransactionResult) : Prop where
  unused : before.records.get? key = none
  expected : ∀ mutation ∈ mutations, mutation.Expects (before.rows.get? (mutation.statedKey hashes))
  writable : ∀ mutation ∈ mutations, mutation.Writable codec
  rows : after.rows = before.rows.performAll (writes hashes codec conditions mutations)
  records : after.records =
    before.records.upsert ⟨key, requestSha256 hashes codec mutations, result, conditions.clock .record⟩
  fresh : result.replayed = false

structure Replayed (hashes : Hashes) (codec : PayloadCodec π) (key : String) (mutations : List (Mutation π))
    (before after : CanonicalTables π) (result : TransactionResult) : Prop where
  unchanged : after = before
  recorded : ∃ record, before.records.get? key = some record ∧
    record.requestSha256 = requestSha256 hashes codec mutations ∧ result = { record.result with replayed := true }

theorem insertRecord_ok {value : Unit}
    (run : insertRecord record db = .ok value after) :
    after = { db with tables := { db.tables with records := db.tables.records.upsert record } } := by
  obtain ⟨known, looked, look, goesOn⟩ := bind_ok.mp run
  cases look
  split at goesOn
  · cases goesOn
  · cases goesOn
    rfl

theorem firstUse_ok {result : TransactionResult} (unused : tables.records.get? key = none)
    (run : firstUse hashes codec conditions key mutations (.opened tables) = .ok result after) :
    ∃ final, after = .idle final ∧ Committed hashes codec conditions key mutations tables final result := by
  obtain ⟨_, checked, check, first⟩ := bind_ok.mp run
  obtain ⟨rfl, expected⟩ := each_reads (fun _ _ _ _ step => checkPrecondition_ok step) check
  obtain ⟨applied, written, apply, second⟩ := bind_ok.mp first
  obtain ⟨rows, writable⟩ := each_writes (fun _ _ _ _ step => applyMutation_ok step) apply
  rw [perform_all] at rows
  obtain ⟨_, ready, wait, third⟩ := bind_ok.mp second
  obtain ⟨_, recorded, record, fourth⟩ := bind_ok.mp third
  obtain ⟨_, last, finish, done⟩ := bind_ok.mp fourth
  -- COMMIT keeps the tables the INSERT left
  cases done
  rw [statement_ok finish, insertRecord_ok record, statement_ok wait, rows]
  exact ⟨_, rfl, ⟨unused, expected, writable, rfl, rfl, rfl⟩⟩

theorem applyNormalized_replay (calm : ∀ statement, conditions.failure statement = none) (filled : mutations ≠ [])
    (distinct : (mutations.map Mutation.target).Nodup) (known : tables.records.get? key = some record)
    (same : record.requestSha256 = requestSha256 hashes codec mutations) :
    applyNormalized hashes codec conditions key mutations (.idle tables) =
      .ok { record.result with replayed := true } (.idle tables) := by
  have body : transactionBody hashes codec conditions key mutations (.opened tables) =
      .ok { record.result with replayed := true } (.idle tables) := by
    apply bind_ok.mpr
    refine ⟨(), .opened tables, by rw [calm]; rfl, ?_⟩
    apply bind_ok.mpr
    refine ⟨some record, .opened tables, by rw [query, ← known]; rfl, ?_⟩
    dsimp only [replayRecord]
    rw [if_pos same]
    rfl
  have behind : (do statement (conditions.failure .beginImmediate)
                    beginTransaction
                    transactionBody hashes codec conditions key mutations) (.idle tables) =
      .ok { record.result with replayed := true } (.idle tables) := by
    rw [calm]
    exact body
  rw [applyNormalized, if_neg filled, if_neg (not_not.mpr distinct), rollingBack, behind]

theorem applyNormalized_ok {result : TransactionResult}
    (run : applyNormalized hashes codec conditions key mutations (.idle tables) = .ok result after) :
    ∃ final, after = .idle final ∧ mutations ≠ [] ∧ (mutations.map Mutation.target).Nodup ∧
      (Committed hashes codec conditions key mutations tables final result ∨
        Replayed hashes codec key mutations tables final result) := by
  unfold applyNormalized at run
  split at run
  · cases run
  next filled =>
  split at run
  · cases run
  next distinct =>
  obtain ⟨_, looking, wait, body⟩ := bind_ok.mp (rollingBack_ok run)
  cases statement_ok wait
  obtain ⟨replay, found, look, goesOn⟩ := bind_ok.mp body
  obtain ⟨rfl, known⟩ := query_ok look
  cases replay with
  | none =>
    obtain ⟨final, same, committed⟩ := firstUse_ok known goesOn
    exact ⟨final, same, filled, not_not.mp distinct, .inl committed⟩
  | some record =>
    dsimp only [replayRecord] at goesOn
    split at goesOn
    · next same =>
      cases goesOn
      exact ⟨tables, rfl, filled, not_not.mp distinct, .inr ⟨rfl, record, known, same, rfl⟩⟩
    · cases goesOn

end HarnessMem.Canonical
