import HarnessMem.Archive.Revisions

/-! Capturing a revision that is stored already. The snapshot writer deletes the
chunk rows of the revision and inserts them again, and the checkpoints of queued
jobs refer to those rows.
-/

set_option autoImplicit false

namespace HarnessMem.Archive

open Storage Library TranscriptChunking

variable {hashes : Hashes}

/-- A snapshot that passes validation, for a revision that is new or stored under the same digests. -/
structure Accepted (hashes : Hashes) (ledger : Ledger) (source : TranscriptSource) (chunks : List TranscriptChunk)
    (native : List UInt8) : Prop where
  valid : ∃ normalized, validateSnapshot hashes source chunks native = .ok normalized
  compatible : (ledger.getRevision source.id source.sourceRevision).all fun row =>
    row.rawSha256 = source.rawSha256 ∧ row.normalizedSha256 = source.normalizedSha256

/-- No constraint of the schema stands against replacing the rows of the revision. -/
structure Recapturable (ledger : Ledger) (source : TranscriptSource) (chunks : List TranscriptChunk) : Prop where
  unreferenced : ∀ checkpoint ∈ ledger.checkpoints.rows, ∀ chunk ∈ ledger.chunksOf source.id source.sourceRevision,
    chunk.id ≠ checkpoint.chunkId
  alone : ∀ other ∈ ledger.sources.rows, other.identity = source.identity → other.id = source.id
  distinct : (chunks.map (·.id)).Nodup
  unused : ∀ other ∈ ledger.chunks.rows, other.id ∈ chunks.map (·.id) →
    other.sourceId = source.id ∧ other.sourceRevision = source.sourceRevision

/-- The snapshot is saved and its revision current; bytes, texts, jobs and checkpoints stay; and a
second save changes nothing but the two instants of the source row. -/
structure Recaptured (hashes : Hashes) (ledger : Ledger) (source : TranscriptSource) (chunks : List TranscriptChunk)
    (rawBytes : Option (List UInt8)) (now : Time) (next : Ledger) : Prop where
  saved : ledger.saveSnapshot hashes source chunks rawBytes now = .ok next
  current : next.getSource source.id = some (syncedSource source chunks now)
  stored : (next.getRevision source.id source.sourceRevision).isSome
  raw : ∀ sourceId sourceRevision bytes, ledger.reconstructRaw hashes sourceId sourceRevision = .ok bytes →
    next.reconstructRaw hashes sourceId sourceRevision = .ok bytes
  text : ∀ sourceId sourceRevision text, ledger.reconstruct hashes sourceId sourceRevision = .ok text →
    next.reconstruct hashes sourceId sourceRevision = .ok text
  jobs : next.jobs = ledger.jobs
  checkpoints : next.checkpoints = ledger.checkpoints
  again : ∀ later, next.saveSnapshot hashes source chunks rawBytes later =
    .ok { next with sources := next.sources.upsert (syncedSource source chunks later) }

/-! ### When the writes go through -/

variable {chunks : List TranscriptChunk}

theorem joinChecked_indices {sourceId revision value : String} {index start : Int}
    (read : joinChecked hashes sourceId revision chunks index start = .ok value) :
    (chunks.map (·.chunkIndex)).Nodup ∧ ∀ chunk ∈ chunks, index ≤ chunk.chunkIndex := by
  induction chunks generalizing value index start with
  | nil => exact ⟨List.nodup_nil, List.forall_mem_nil _⟩
  | cons chunk rest ih =>
    simp only [joinChecked] at read
    split at read
    · cases read
    · split at read
      · cases read
      · next here =>
        rw [ne_eq, not_not] at here
        iterate 3
          split at read
          · cases read
        split at read
        · next later front =>
          obtain ⟨distinct, bounds⟩ := ih front
          refine ⟨List.nodup_cons.mpr ⟨fun clash => ?_, distinct⟩, fun other member => ?_⟩
          · obtain ⟨other, present, same⟩ := List.mem_map.mp clash
            have above := bounds other present
            simp only at same
            omega
          · rcases List.mem_cons.mp member with rfl | later
            · omega
            · have above := bounds other later
              omega
        · cases read

theorem nodup_indices {expected : Option String} {value : String}
    (read : reconstructTranscript hashes chunks expected = .ok value) : (chunks.map (·.chunkIndex)).Nodup := by
  have ordered : (inOrder chunks).Perm chunks := List.perm_insertionSort _ _
  refine (ordered.map _).nodup_iff.mp ?_
  unfold reconstructTranscript at read
  split at read
  · next empty =>
    rw [empty]
    exact List.nodup_nil
  · next first rest listed =>
    split at read
    · cases read
    · next joined =>
      rw [listed]
      exact (joinChecked_indices joined).1

variable {ledger : Ledger}

theorem insertChunks_succeeds (distinct : (chunks.map (·.id)).Nodup) (indices : (chunks.map (·.chunkIndex)).Nodup)
    (unused : ∀ other ∈ ledger.chunks.rows, ∀ chunk ∈ chunks, other.id ≠ chunk.id)
    (unindexed : ∀ other ∈ ledger.chunks.rows, ∀ chunk ∈ chunks, ¬ (other.sourceId = chunk.sourceId ∧
      other.sourceRevision = chunk.sourceRevision ∧ other.chunkIndex = chunk.chunkIndex))
    (revision : ∀ chunk ∈ chunks, (ledger.getRevision chunk.sourceId chunk.sourceRevision).isSome) :
    ∃ next, ledger.insertChunks chunks = .ok next := by
  induction chunks generalizing ledger with
  | nil => exact ⟨ledger, rfl⟩
  | cons chunk rest ih =>
    rw [List.map_cons, List.nodup_cons] at distinct indices
    have fresh : ledger.chunks.get? chunk.id = none :=
      (Table.get?_eq_none _ _).mpr fun other member => unused other member chunk List.mem_cons_self
    have free : (ledger.chunks.rows.any fun other => other.sourceId = chunk.sourceId ∧
        other.sourceRevision = chunk.sourceRevision ∧ other.chunkIndex = chunk.chunkIndex) = false := by
      rw [List.any_eq_false]
      exact fun other member clash => unindexed other member chunk List.mem_cons_self (of_decide_eq_true clash)
    have known : (ledger.getRevision chunk.sourceId chunk.sourceRevision).isNone = false := by
      rw [Option.isNone_eq_false_iff]
      exact revision chunk List.mem_cons_self
    have written : ledger.insertChunkLocked chunk = .ok { ledger with chunks := ledger.chunks.insert chunk fresh } := by
      unfold Ledger.insertChunkLocked
      rw [dif_pos fresh, if_neg (Bool.not_eq_true _ ▸ free), if_neg (Bool.not_eq_true _ ▸ known)]
    unfold Ledger.insertChunks
    rw [written]
    refine ih distinct.2 indices.2 ?_ ?_ fun other member => revision other (List.mem_cons_of_mem _ member)
    · intro other member later present same
      rcases List.mem_append.mp member with old | new
      · exact unused other old later (List.mem_cons_of_mem _ present) same
      · obtain rfl := List.mem_singleton.mp new
        exact distinct.1 (List.mem_map.mpr ⟨later, present, same.symm⟩)
    · intro other member later present clash
      rcases List.mem_append.mp member with old | new
      · exact unindexed other old later (List.mem_cons_of_mem _ present) clash
      · obtain rfl := List.mem_singleton.mp new
        exact indices.1 (List.mem_map.mpr ⟨later, present, clash.2.2.symm⟩)

theorem insertRevision_keeps (ledger : Ledger) (row : RevisionRow) :
    (ledger.insertRevision row).chunks = ledger.chunks ∧ (ledger.insertRevision row).checkpoints = ledger.checkpoints := by
  unfold Ledger.insertRevision
  split <;> exact ⟨rfl, rfl⟩

variable {source : TranscriptSource} {now : Time}

/-- Without a constraint against it, an accepted snapshot is saved. -/
theorem saveSnapshot_succeeds {rawBytes : Option (List UInt8)}
    (accepted : Accepted hashes ledger source chunks (nativeBytes chunks rawBytes))
    (free : Recapturable ledger source chunks) :
    ∃ next, ledger.saveSnapshot hashes source chunks rawBytes now = .ok next := by
  obtain ⟨normalized, valid⟩ := accepted.valid
  obtain ⟨rfl, validated⟩ := validateSnapshot_ok valid
  have compatible : ledger.incompatibleRevision hashes source (snapshotText chunks) = none := by
    have matching := accepted.compatible
    unfold Ledger.incompatibleRevision
    cases known : ledger.getRevision source.id source.sourceRevision with
    | none => rfl
    | some row =>
      rw [known, Option.all_some, decide_eq_true_eq] at matching
      simp [matching.1, matching.2, validated.normalizedSha256]
  have pointed : ledger.upsertSourceLocked (syncedSource source chunks now) =
      .ok { ledger with sources := ledger.sources.upsert (syncedSource source chunks now) } := by
    unfold Ledger.upsertSourceLocked
    rw [if_neg]
    rw [Bool.not_eq_true, List.any_eq_false]
    intro other member clash
    obtain ⟨differs, same⟩ := of_decide_eq_true clash
    exact differs (free.alone other member same)
  obtain ⟨chunks_eq, checkpoints_eq⟩ := insertRevision_keeps
    { ledger with sources := ledger.sources.upsert (syncedSource source chunks now) }
    (revisionRow source chunks (nativeBytes chunks rawBytes) now)
  have stored : ((Ledger.insertRevision
      { ledger with sources := ledger.sources.upsert (syncedSource source chunks now) }
      (revisionRow source chunks (nativeBytes chunks rawBytes) now)).getRevision source.id
        source.sourceRevision).isSome := Integrity.getRevision_insertRevision (.inr rfl)
  generalize written : Ledger.insertRevision
    { ledger with sources := ledger.sources.upsert (syncedSource source chunks now) }
    (revisionRow source chunks (nativeBytes chunks rawBytes) now) = current at chunks_eq checkpoints_eq stored
  have unreferenced : ¬ (current.checkpoints.rows.any fun checkpoint =>
      (current.chunksOf source.id source.sourceRevision).any fun chunk => chunk.id = checkpoint.chunkId) = true := by
    rw [Bool.not_eq_true, List.any_eq_false]
    intro checkpoint member clash
    obtain ⟨chunk, present, same⟩ := List.any_eq_true.mp clash
    rw [checkpoints_eq] at member
    unfold Ledger.chunksOf at present
    rw [chunks_eq] at present
    exact free.unreferenced checkpoint member chunk present (of_decide_eq_true same)
  have cleared : ∃ cleared, current.deleteChunks source.id source.sourceRevision = .ok cleared :=
    ⟨_, if_neg unreferenced⟩
  obtain ⟨cleared, deleted⟩ := cleared
  obtain ⟨others, rows⟩ := deleteChunks_rows deleted
  rw [chunks_eq] at rows
  have outside : ∀ other ∈ cleared.chunks.rows,
      ¬ (other.sourceId = source.id ∧ other.sourceRevision = source.sourceRevision) ∧ other ∈ ledger.chunks.rows := by
    intro other member
    rw [rows] at member
    obtain ⟨old, away⟩ := List.mem_filter.mp member
    exact ⟨of_decide_eq_false (Bool.not_eq_true' _ ▸ away), old⟩
  have inserted : ∃ next, cleared.insertChunks chunks = .ok next := by
    refine insertChunks_succeeds free.distinct (nodup_indices validated.read) ?_ ?_ ?_
    · intro other member chunk present same
      obtain ⟨away, old⟩ := outside other member
      exact away (free.unused other old (same ▸ List.mem_map_of_mem present))
    · intro other member chunk present clash
      obtain ⟨own, revision⟩ := validated.own chunk present
      exact (outside other member).1 ⟨clash.1.trans own, clash.2.1.trans revision⟩
    · intro chunk present
      obtain ⟨own, revision⟩ := validated.own chunk present
      unfold Ledger.getRevision at stored ⊢
      rw [others.revisions, own, revision]
      exact stored
  obtain ⟨next, inserted⟩ := inserted
  refine ⟨next, ?_⟩
  unfold Ledger.saveSnapshot
  simp only [valid, compatible, pointed, written, deleted]
  exact inserted

theorem recapturable_of_saved {next : Ledger}
    {rawBytes : Option (List UInt8)}
    (ran : ledger.saveSnapshot hashes source chunks rawBytes now = .ok next) :
    Recapturable ledger source chunks := by
  have captured := saveSnapshot_captured ran
  obtain ⟨normalized, pointed, cleared, _, _, written, deleted, _⟩ := Integrity.saveSnapshot_steps ran
  have alone : ∀ other ∈ ledger.sources.rows, other.identity = source.identity → other.id = source.id := by
    intro other member same
    by_contra differs
    unfold Ledger.upsertSourceLocked at written
    rw [if_pos] at written
    · cases written
    · exact List.any_eq_true.mpr ⟨other, member, decide_eq_true ⟨differs, same⟩⟩
  have pointed_eq : pointed = { ledger with sources := ledger.sources.upsert (syncedSource source chunks now) } := by
    unfold Ledger.upsertSourceLocked at written
    split at written
    · cases written
    · cases written
      rfl
  subst pointed_eq
  obtain ⟨chunks_eq, checkpoints_eq⟩ := insertRevision_keeps
    { ledger with sources := ledger.sources.upsert (syncedSource source chunks now) }
    (revisionRow source chunks (nativeBytes chunks rawBytes) now)
  have keys := next.chunks.nodup
  rw [captured.chunks, List.map_append, List.nodup_append] at keys
  refine ⟨?_, alone, keys.2.1, ?_⟩
  · intro checkpoint member chunk present same
    unfold Ledger.deleteChunks at deleted
    rw [if_pos] at deleted
    · cases deleted
    · refine List.any_eq_true.mpr ⟨checkpoint, ?_, List.any_eq_true.mpr ⟨chunk, ?_, ?_⟩⟩
      · rw [checkpoints_eq]
        exact member
      · unfold Ledger.chunksOf
        rw [chunks_eq]
        exact present
      · exact decide_eq_true same
  · intro other member used
    by_contra away
    refine keys.2.2 _ (List.mem_map_of_mem (List.mem_filter.mpr ⟨member, ?_⟩)) _ used rfl
    rw [decide_eq_false away]
    rfl

/-! ### Saving again -/

section Again

variable {ledger next : Ledger} {source : TranscriptSource} {chunks : List TranscriptChunk}
  {rawBytes : Option (List UInt8)} {now : Time}

theorem stored_of_captured (captured : Captured hashes ledger source chunks (nativeBytes chunks rawBytes) now next) :
    (next.getRevision source.id source.sourceRevision).isSome := by
  unfold Ledger.getRevision
  rw [captured.revisions]
  exact Integrity.getRevision_insertRevision (.inr rfl)

theorem compatible_of_captured (captured : Captured hashes ledger source chunks (nativeBytes chunks rawBytes) now next)
    {row : RevisionRow} (found : next.getRevision source.id source.sourceRevision = some row) :
    row.rawSha256 = source.rawSha256 ∧ row.normalizedSha256 = source.normalizedSha256 := by
  have member : row ∈ next.revisions.rows := Table.mem_of_get? found
  rw [captured.revisions] at member
  rcases rows_insertRevision member with old | ⟨rfl, _⟩
  · refine captured.compatible row ?_
    have key : row.key = (source.id, source.sourceRevision) := Table.key_of_get? found
    unfold Ledger.getRevision
    rw [← key]
    exact Table.get?_of_mem old
  · exact ⟨rfl, rfl⟩

theorem recapturable_again (sound : Integrity hashes ledger)
    (captured : Captured hashes ledger source chunks (nativeBytes chunks rawBytes) now next)
    (free : Recapturable ledger source chunks) : Recapturable next source chunks := by
  have replaced := chunksOf_replaced captured.validated.own captured.chunks
  refine ⟨?_, ?_, free.distinct, ?_⟩
  · intro checkpoint member chunk present same
    rw [captured.checkpoints] at member
    rw [replaced, if_pos ⟨rfl, rfl⟩] at present
    -- the chunk a checkpoint reads was there before, and none of this revision was read
    obtain ⟨_, old, _, read, _⟩ := sound.references.backed checkpoint member
    have identifier : old.id = checkpoint.chunkId := Table.key_of_get? read
    have used : old.id ∈ chunks.map (·.id) := by
      rw [identifier, ← same]
      exact List.mem_map_of_mem present
    have own := free.unused old (Table.mem_of_get? read) used
    exact free.unreferenced checkpoint member old
      (List.mem_filter.mpr ⟨Table.mem_of_get? read, decide_eq_true own⟩) identifier
  · intro other member same
    rw [captured.sources] at member
    rcases (Table.mem_upsert _ _ _).mp member with rfl | ⟨old, _⟩
    · rfl
    · exact free.alone other old same
  · intro other member used
    rw [captured.chunks] at member
    rcases List.mem_append.mp member with old | new
    · exact free.unused other (List.mem_filter.mp old).1 used
    · exact captured.validated.own other new

theorem saved_again (sound : Integrity hashes ledger)
    (accepted : Accepted hashes ledger source chunks (nativeBytes chunks rawBytes))
    (free : Recapturable ledger source chunks)
    (captured : Captured hashes ledger source chunks (nativeBytes chunks rawBytes) now next) (later : Time) :
    next.saveSnapshot hashes source chunks rawBytes later =
      .ok { next with sources := next.sources.upsert (syncedSource source chunks later) } := by
  have accepted' : Accepted hashes next source chunks (nativeBytes chunks rawBytes) := by
    refine ⟨accepted.valid, ?_⟩
    cases found : next.getRevision source.id source.sourceRevision with
    | none => rfl
    | some row => exact decide_eq_true (compatible_of_captured captured found)
  have succeeds : ∃ twice, next.saveSnapshot hashes source chunks rawBytes later = .ok twice :=
    saveSnapshot_succeeds accepted' (recapturable_again sound captured free)
  obtain ⟨twice, ran⟩ := succeeds
  have captured' := saveSnapshot_captured ran
  have revisions : twice.revisions = next.revisions := by
    have stored := stored_of_captured captured
    have known : ¬ next.revisions.get? (source.id, source.sourceRevision) = none :=
      Option.isSome_iff_ne_none.mp stored
    rw [captured'.revisions, Ledger.insertRevision, dif_neg]
    exact known
  have rows : twice.chunks.rows = next.chunks.rows := by
    have dropped : (chunks.filter fun chunk =>
        !(decide (chunk.sourceId = source.id ∧ chunk.sourceRevision = source.sourceRevision))) = [] := by
      refine List.filter_eq_nil_iff.mpr fun chunk member => ?_
      rw [decide_eq_true (captured.validated.own chunk member)]
      exact nofun
    rw [captured'.chunks, captured.chunks, List.filter_append, List.filter_filter, dropped, List.append_nil]
    simp only [Bool.and_self]
  rw [ran]
  cases twice
  simp only [Except.ok.injEq, Ledger.mk.injEq]
  exact ⟨captured'.sources, revisions, Table.eq_of_rows rows, captured'.projections, captured'.jobs,
    captured'.checkpoints, captured'.deletionAudit⟩

end Again

theorem chronicle_of_run {start : Chronicle} {world : World} {events : List Event}
    (run : Exec (Step hashes) start.world events world) :
    ∃ saved, Exec (Chronicles hashes) start events ⟨world, saved⟩ := by
  obtain ⟨before, saved⟩ := start
  dsimp only at run
  induction run generalizing saved with
  | nil => exact ⟨saved, .nil _⟩
  | cons edge _ ih =>
    obtain ⟨final, rest⟩ := ih (note hashes _ _ saved _)
    exact ⟨final, .cons ⟨edge, rfl⟩ rest⟩

theorem reachable_preserves {world : World} (reached : Reachable hashes world) :
    ∃ saved, Preserves hashes saved world.ledger := by
  obtain ⟨events, run⟩ := reached
  obtain ⟨saved, chronicled⟩ := (chronicle_of_run run : ∃ saved, Exec (Chronicles hashes) .initial events ⟨world, saved⟩)
  exact ⟨saved, chronicled.invariant (fun chronicle => Preserves hashes chronicle.saved chronicle.world.ledger)
    (fun _ _ _ holds step => preserves_step step holds) nofun⟩

theorem read_of_captured {next : Ledger}
    {native : List UInt8} {saved : String × String → Option Saved}
    (preserves : Preserves hashes saved ledger) (captured : Captured hashes ledger source chunks native now next)
    {sourceId sourceRevision : String} {row : RevisionRow}
    (found : ledger.getRevision sourceId sourceRevision = some row) :
    next.reconstruct hashes sourceId sourceRevision = ledger.reconstruct hashes sourceId sourceRevision ∧
      next.reconstructRaw hashes sourceId sourceRevision = ledger.reconstructRaw hashes sourceId sourceRevision := by
  obtain ⟨rfl, rfl⟩ := Prod.mk.inj (show row.key = (sourceId, sourceRevision) from Table.key_of_get? found)
  have member : row ∈ next.revisions.rows := by
    rw [captured.revisions]
    unfold Ledger.insertRevision
    split
    · exact List.mem_append_left _ (Table.mem_of_get? found)
    · exact Table.mem_of_get? found
  have found' : next.getRevision row.sourceId row.sourceRevision = some row := Table.get?_of_mem member
  obtain ⟨first, noted, faithful⟩ := preserves row (Table.mem_of_get? found)
  obtain ⟨first', noted', faithful'⟩ := preserves.of_captured captured row member
  have known : ¬ (row.key = (source.id, source.sourceRevision) ∧ ledger.revisions.get? row.key = none) := by
    rintro ⟨_, fresh⟩
    rw [show ledger.revisions.get? row.key = some row from found] at fresh
    cases fresh
  have same : some first = some first' := by
    rw [← noted, ← noted']
    exact (if_neg known).symm
  obtain rfl := Option.some.inj same
  rw [faithful.reconstruct found, faithful'.reconstruct found', faithful.reconstructRaw found,
    faithful'.reconstructRaw found']
  exact ⟨rfl, rfl⟩

/-- In every world reached, an accepted snapshot is recaptured exactly when no constraint of the schema
stands against it. -/
theorem recaptured_iff {world : World} (reached : Reachable hashes world) {source : TranscriptSource}
    {chunks : List TranscriptChunk} {rawBytes : Option (List UInt8)} (now : Time)
    (accepted : Accepted hashes world.ledger source chunks (nativeBytes chunks rawBytes)) :
    (∃ next, Recaptured hashes world.ledger source chunks rawBytes now next) ↔
      Recapturable world.ledger source chunks := by
  constructor
  · rintro ⟨next, recaptured⟩
    exact recapturable_of_saved recaptured.saved
  · intro free
    obtain ⟨saved, preserves⟩ := reachable_preserves reached
    have succeeds : ∃ next, world.ledger.saveSnapshot hashes source chunks rawBytes now = .ok next :=
      saveSnapshot_succeeds accepted free
    obtain ⟨next, ran⟩ := succeeds
    have captured := saveSnapshot_captured ran
    have reads : ∀ sourceId sourceRevision, (world.ledger.getRevision sourceId sourceRevision).isSome →
        next.reconstruct hashes sourceId sourceRevision = world.ledger.reconstruct hashes sourceId sourceRevision ∧
          next.reconstructRaw hashes sourceId sourceRevision =
            world.ledger.reconstructRaw hashes sourceId sourceRevision := by
      intro sourceId sourceRevision stored
      obtain ⟨row, found⟩ := Option.isSome_iff_exists.mp stored
      exact read_of_captured preserves captured found
    refine ⟨next, ran, ?_, stored_of_captured captured, ?_, ?_, captured.jobs, captured.checkpoints,
      saved_again (Lifecycle.reachable_integrity reached) accepted free captured⟩
    · unfold Ledger.getSource
      rw [captured.sources, Table.get?_upsert]
      exact if_pos rfl
    · intro sourceId sourceRevision bytes read
      cases found : world.ledger.getRevision sourceId sourceRevision with
      | none => simp [Ledger.reconstructRaw, found] at read
      | some row => exact (reads sourceId sourceRevision (by simp [found])).2.trans read
    · intro sourceId sourceRevision text read
      cases found : world.ledger.getRevision sourceId sourceRevision with
      | none => simp [Ledger.reconstruct, found] at read
      | some row => exact (reads sourceId sourceRevision (by simp [found])).1.trans read

/-- The transcript `a`, which a second revision `ab` has replaced. -/
def recapturedSource : TranscriptSource := sampleSource .spelled "s" ["a"]

def recapturedChunks : List TranscriptChunk :=
  sampleChunks .spelled "s" recapturedSource.sourceRevision 0 0 ["a"]

def replacedEvents : List Event :=
  [⟨1, sampleCapture .spelled "s" ["a"]⟩, ⟨2, sampleCapture .spelled "s" ["a", "b"]⟩]

theorem recapturedSource_valid :
    ∃ normalized, validateSnapshot .spelled recapturedSource recapturedChunks
      (nativeBytes recapturedChunks none) = .ok normalized := by
  have passes : (validateSnapshot .spelled recapturedSource recapturedChunks
      (nativeBytes recapturedChunks none)).toOption.isSome := by decide
  cases validated : validateSnapshot .spelled recapturedSource recapturedChunks (nativeBytes recapturedChunks none) with
  | ok normalized => exact ⟨normalized, rfl⟩
  | error failure =>
    rw [validated] at passes
    cases passes

/-- Without a job nothing refers to the rows of `a`, and saving it again makes it current. -/
theorem recaptured_iff_replaced :
    ∃ next, Recaptured .spelled (World.initial.after .spelled replacedEvents).ledger recapturedSource
      recapturedChunks none 3 next := by
  have compatible : ((World.initial.after .spelled replacedEvents).ledger.getRevision recapturedSource.id
      recapturedSource.sourceRevision).all (fun row => row.rawSha256 = recapturedSource.rawSha256 ∧
        row.normalizedSha256 = recapturedSource.normalizedSha256) := by decide
  apply (recaptured_iff (reachable_after (by decide)) 3 ⟨recapturedSource_valid, compatible⟩).mpr
  exact ⟨by decide, by decide, by decide, by decide⟩

/-- With a job queued for `a`, its checkpoints refer to the rows that are to be deleted. -/
def queuedEvents : List Event :=
  [⟨1, sampleCapture .spelled "s" ["a"]⟩, ⟨2, sampleEnqueue "s"⟩, ⟨3, sampleCapture .spelled "s" ["a", "b"]⟩]

theorem recapture_fails :
    ∃ world, Reachable .spelled world ∧ world.clock ≤ 4 ∧
      Accepted .spelled world.ledger recapturedSource recapturedChunks (nativeBytes recapturedChunks none) ∧
      ¬ ∃ next, world.ledger.saveSnapshot .spelled recapturedSource recapturedChunks none 4 = .ok next := by
  refine ⟨World.initial.after .spelled queuedEvents, reachable_after (by decide), by decide,
    ⟨recapturedSource_valid, by decide⟩, ?_⟩
  rintro ⟨next, saved⟩
  have refused : ((World.initial.after .spelled queuedEvents).ledger.saveSnapshot .spelled recapturedSource
      recapturedChunks none 4).toOption.isNone := by decide
  rw [saved] at refused
  cases refused

end HarnessMem.Archive
