import HarnessMem.Archive.Snapshots
import HarnessMem.Lifecycle.Runs

/-! Stored revisions keep what was first saved for them. Bytes, digests and sizes
lie in the columns of a row, in its JSON record and in its chunk rows, and in
every world reached they tell one story.
-/

set_option autoImplicit false

namespace HarnessMem.Archive

open Storage Library TranscriptChunking

variable {hashes : Hashes}

/-- A revision row, its record and its chunk rows stand for these bytes and this text. -/
structure Faithful (hashes : Hashes) (ledger : Ledger) (row : RevisionRow) (bytes : List UInt8) (text : String) :
    Prop where
  raw : row.rawBytes = bytes
  rawSha256 : row.rawSha256 = hashes.sha256Bytes bytes
  normalizedSha256 : row.normalizedSha256 = hashes.sha256Text text
  recorded : row.data.normalizedSha256 = row.normalizedSha256
  size : row.data.normalizedSizeBytes = (encodeUtf8 text).length
  chunks : reconstructTranscript hashes (ledger.chunksOf row.sourceId row.sourceRevision)
    (some (hashes.sha256Text text)) = .ok text

theorem Faithful.reconstruct {ledger : Ledger} {row : RevisionRow} {bytes : List UInt8} {text : String}
    (faithful : Faithful hashes ledger row bytes text)
    (stored : ledger.getRevision row.sourceId row.sourceRevision = some row) :
    ledger.reconstruct hashes row.sourceId row.sourceRevision = .ok text := by
  have read := faithful.chunks
  rw [← reconstruct_inOrder] at read
  unfold Ledger.reconstruct Ledger.listChunks
  simp only [stored, faithful.recorded, faithful.normalizedSha256]
  split
  · next empty =>
    rw [empty.1] at read
    exact read
  · exact read

theorem Faithful.reconstructRaw {ledger : Ledger} {row : RevisionRow} {bytes : List UInt8} {text : String}
    (faithful : Faithful hashes ledger row bytes text)
    (stored : ledger.getRevision row.sourceId row.sourceRevision = some row) :
    ledger.reconstructRaw hashes row.sourceId row.sourceRevision = .ok bytes := by
  unfold Ledger.reconstructRaw
  simp [stored, faithful.raw, faithful.rawSha256]

theorem Faithful.of_chunks {before after : Ledger} {row : RevisionRow} {bytes : List UInt8} {text : String}
    (faithful : Faithful hashes before row bytes text)
    (same : after.chunksOf row.sourceId row.sourceRevision = before.chunksOf row.sourceId row.sourceRevision) :
    Faithful hashes after row bytes text :=
  { faithful with chunks := same ▸ faithful.chunks }

/-! ### What was first saved -/

/-- The bytes and the text of the snapshot that first stored a revision, and whether it was pruned since. -/
structure Saved where
  bytes : List UInt8
  text : String
  pruned : Bool
  deriving DecidableEq

def Saved.bytesNow (saved : Saved) : List UInt8 := if saved.pruned then [] else saved.bytes

def Saved.textNow (saved : Saved) : String := if saved.pruned then "" else saved.text

structure Chronicle where
  world : World
  saved : String × String → Option Saved

def Chronicle.initial : Chronicle := ⟨.initial, fun _ => none⟩

/-- A snapshot that returns is noted for a revision that is not stored; a prune that returns empties
the revisions of its source. -/
def note (hashes : Hashes) (ledger : Ledger) (now : Time) (saved : String × String → Option Saved) (op : LedgerOp) :
    String × String → Option Saved :=
  match op, op.run hashes ledger now with
  | .saveSnapshot source chunks rawBytes, .ok _ => fun key =>
    if key = (source.id, source.sourceRevision) ∧ ledger.revisions.get? key = none then
      some ⟨nativeBytes chunks rawBytes, snapshotText chunks, false⟩
    else saved key
  | .pruneCompletedDistillEvidence jobId _, .ok _ => fun key =>
    if (ledger.getJob jobId).any fun job => job.sourceId = key.1 then (saved key).map ({ · with pruned := true })
    else saved key
  | _, _ => saved

def Chronicles (hashes : Hashes) (before : Chronicle) (event : Event) (after : Chronicle) : Prop :=
  Step hashes before.world event after.world ∧
    after.saved = note hashes before.world.ledger event.time before.saved event.op

def Preserves (hashes : Hashes) (saved : String × String → Option Saved) (ledger : Ledger) : Prop :=
  ∀ row ∈ ledger.revisions.rows, ∃ first, saved row.key = some first ∧
    Faithful hashes ledger row first.bytesNow first.textNow

/-! ### Calls that only drop revisions, or leave them alone -/

def Kept (before after : Ledger) : Prop :=
  ∀ row ∈ after.revisions.rows, row ∈ before.revisions.rows ∧
    after.chunksOf row.sourceId row.sourceRevision = before.chunksOf row.sourceId row.sourceRevision

theorem Kept.trans {first second third : Ledger} (left : Kept first second) (right : Kept second third) :
    Kept first third := by
  intro row member
  obtain ⟨middle, same⟩ := right row member
  obtain ⟨old, same'⟩ := left row middle
  exact ⟨old, same.trans same'⟩

theorem kept_of_same {before after : Ledger} (revisions : after.revisions = before.revisions)
    (chunks : after.chunks = before.chunks) : Kept before after := by
  intro row member
  rw [revisions] at member
  refine ⟨member, ?_⟩
  unfold Ledger.chunksOf
  rw [chunks]

theorem kept_of_shape {before after : Ledger} (shape : SameShape before after) : Kept before after :=
  kept_of_same shape.revisions shape.chunks

theorem Preserves.of_kept {saved : String × String → Option Saved} {before after : Ledger}
    (preserves : Preserves hashes saved before) (kept : Kept before after) : Preserves hashes saved after := by
  intro row member
  obtain ⟨old, same⟩ := kept row member
  obtain ⟨first, noted, faithful⟩ := preserves row old
  exact ⟨first, noted, faithful.of_chunks same⟩

theorem upsertSource_kept {before after : Ledger} {source : TranscriptSource}
    (ran : before.upsertSourceLocked source = .ok after) : Kept before after := by
  unfold Ledger.upsertSourceLocked at ran
  split at ran
  · cases ran
  · cases ran
    exact kept_of_same rfl rfl

theorem refreshSource_kept {before after : Ledger} {source : TranscriptSource} {now : Time}
    (ran : before.refreshSource source now = .ok after) : Kept before after := by
  unfold Ledger.refreshSource at ran
  split at ran
  · cases ran
    exact kept_of_same rfl rfl
  · split at ran
    · exact upsertSource_kept ran
    · cases ran
      exact kept_of_same rfl rfl

theorem eraseRevision_kept {before after : Ledger} {sourceId sourceRevision : String} {counts : DeletionCounts}
    (ran : before.eraseRevision sourceId sourceRevision = .ok (counts, after)) : Kept before after := by
  unfold Ledger.eraseRevision at ran
  dsimp only at ran
  split at ran
  · cases ran
  · cases ran
    intro row member
    obtain ⟨old, differs⟩ := List.mem_filter.mp member
    refine ⟨old, ?_⟩
    have other : ¬ (row.sourceId = sourceId ∧ row.sourceRevision = sourceRevision) := by
      exact not_and_or.mpr (by simpa [RevisionRow.key] using differs)
    unfold Ledger.chunksOf
    rw [Table.rows_filter, List.filter_filter]
    refine List.filter_congr fun chunk _ => ?_
    by_cases here : chunk.sourceId = row.sourceId ∧ chunk.sourceRevision = row.sourceRevision
    · rw [here.1, here.2]
      simp [other]
    · simp [here]

theorem eraseRevisions_kept {before after : Ledger} {keys : List (String × String)} {counts : DeletionCounts}
    (ran : before.eraseRevisions keys = .ok (counts, after)) : Kept before after := by
  induction keys generalizing before counts with
  | nil =>
    cases ran
    exact kept_of_same rfl rfl
  | cons key rest ih =>
    unfold Ledger.eraseRevisions at ran
    split at ran
    · cases ran
    · next step =>
      split at ran
      · cases ran
      · next others =>
        cases ran
        exact (eraseRevision_kept step).trans (ih others)

theorem restoreSources_kept {before after : Ledger} {scan : Scan RevisionRow} {sourceIds : List String} {now : Time}
    {dropped : Nat} (ran : before.restoreSources scan now sourceIds = .ok (dropped, after)) : Kept before after := by
  induction sourceIds generalizing before dropped with
  | nil =>
    cases ran
    exact kept_of_same rfl rfl
  | cons sourceId rest ih =>
    unfold Ledger.restoreSources at ran
    split at ran
    · cases ran
    · next step =>
      split at ran
      · cases ran
      · next others =>
        cases ran
        refine Kept.trans ?_ (ih others)
        unfold Ledger.restoreSource at step
        split at step
        · cases step
          exact kept_of_same rfl rfl
        · split at step
          · cases step
            exact kept_of_same rfl rfl
          · split at step
            · cases step
            · next written =>
              cases step
              exact upsertSource_kept written

theorem hardDeleteRevisions_kept {before after : Ledger} {scan : Scan RevisionRow} {request : HardDelete}
    {freshId : String} {now : Time} {audit : Dict}
    (ran : before.hardDeleteRevisions hashes scan request freshId now = .ok (audit, after)) : Kept before after := by
  unfold Ledger.hardDeleteRevisions at ran
  dsimp only at ran
  split at ran
  · cases ran
  · next erased =>
    split at ran
    · cases ran
    · next restored =>
      cases ran
      exact ((eraseRevisions_kept erased).trans (restoreSources_kept restored)).trans (kept_of_same rfl rfl)

theorem enqueue_kept {ledger next : Ledger} {scan : Scan QueueRow} {request : EnqueueRequest} {now : Time}
    {job : SessionDistillJob} {selections : List Selection}
    (ran : ledger.enqueue hashes scan request now = .ok (job, selections, next)) : Kept ledger next := by
  have rebalanced : ∀ current : Ledger, ∀ source, Kept current (current.rebalanceWithin scan source request now).2 :=
    fun current source => kept_of_shape (Lifecycle.rebalanceWithin_moves :
      Lifecycle.Moves hashes ledger now (.enqueue scan request) current _).shape
  obtain ⟨source, chunks, _, ⟨existing, _, _, placed⟩ | ⟨_, _, _, placed⟩⟩ := Lifecycle.enqueue_cases ran
  · rw [show next = _ from congrArg Prod.snd placed]
    refine Kept.trans ?_ (rebalanced _ source)
    split <;> exact kept_of_same rfl rfl
  · rw [show next = _ from congrArg Prod.snd placed]
    exact Kept.trans (kept_of_same rfl rfl) (rebalanced _ source)

def writesRevisions : LedgerOp → Bool
  | .saveSnapshot .. | .pruneCompletedDistillEvidence .. => true
  | _ => false

theorem run_kept {ledger : Ledger} {now : Time} {op : LedgerOp} {outcome : Outcome} (other : writesRevisions op = false)
    (ran : op.run hashes ledger now = .ok outcome) : Kept ledger outcome.ledger := by
  cases op with
  | saveSnapshot | pruneCompletedDistillEvidence => cases other
  | refreshSource =>
    obtain ⟨_, inner, rfl⟩ := Lifecycle.map_ok ran
    exact refreshSource_kept inner
  | markSourcesMissing =>
    cases ran
    exact kept_of_same rfl rfl
  | hardDeleteRevisions =>
    obtain ⟨_, inner, rfl⟩ := Lifecycle.map_ok ran
    exact hardDeleteRevisions_kept inner
  | enqueue =>
    obtain ⟨_, inner, rfl⟩ := Lifecycle.map_ok ran
    exact enqueue_kept inner
  | _ => exact kept_of_shape (Lifecycle.run_moves rfl ran).shape

/-! ### Snapshots and prunes -/

theorem rows_insertRevision {ledger : Ledger} {row other : RevisionRow}
    (member : other ∈ (ledger.insertRevision row).revisions.rows) :
    other ∈ ledger.revisions.rows ∨ (other = row ∧ ledger.revisions.get? row.key = none) := by
  unfold Ledger.insertRevision at member
  split at member
  · next fresh =>
    rcases List.mem_append.mp member with old | new
    · exact .inl old
    · exact .inr ⟨List.mem_singleton.mp new, fresh⟩
  · exact .inl member

theorem Preserves.of_captured {saved : String × String → Option Saved} {before after : Ledger}
    {source : TranscriptSource} {chunks : List TranscriptChunk} {native : List UInt8} {now : Time}
    (preserves : Preserves hashes saved before)
    (captured : Captured hashes before source chunks native now after) :
    Preserves hashes (fun key =>
      if key = (source.id, source.sourceRevision) ∧ before.revisions.get? key = none then
        some ⟨native, snapshotText chunks, false⟩
      else saved key) after := by
  have valid := captured.validated
  have replaced := chunksOf_replaced valid.own captured.chunks
  intro row member
  rw [captured.revisions] at member
  rcases rows_insertRevision member with old | ⟨rfl, fresh⟩
  · obtain ⟨first, noted, faithful⟩ := preserves row old
    have present : before.revisions.get? row.key = some row := Table.get?_of_mem old
    have unnoted : ¬ (row.key = (source.id, source.sourceRevision) ∧ before.revisions.get? row.key = none) := by
      simp [present]
    refine ⟨first, (if_neg unnoted).trans noted, ?_⟩
    by_cases same : row.sourceId = source.id ∧ row.sourceRevision = source.sourceRevision
    · -- the chunk rows are replaced by chunks of the same text
      have stored : before.getRevision source.id source.sourceRevision = some row := by
        rw [← same.1, ← same.2]
        exact present
      have text : snapshotText chunks = first.textNow := by
        apply hashes.sha256Text_injective
        rw [← valid.normalizedSha256, ← (captured.compatible row stored).2]
        exact faithful.normalizedSha256
      have read := valid.read
      rw [valid.normalizedSha256, text] at read
      refine { faithful with chunks := ?_ }
      rw [replaced, if_pos same]
      exact read
    · refine faithful.of_chunks ?_
      rw [replaced, if_neg same]
  · refine ⟨⟨native, snapshotText chunks, false⟩, if_pos ⟨rfl, fresh⟩, ?_⟩
    refine ⟨rfl, valid.rawSha256, valid.normalizedSha256, rfl, valid.normalizedSize, ?_⟩
    rw [replaced, if_pos ⟨rfl, rfl⟩]
    have read := valid.read
    rw [valid.normalizedSha256] at read
    exact read

/-- A prune leaves the revisions of one source empty, and the others as they were. -/
structure Pruned (hashes : Hashes) (before : Ledger) (sourceId receiptId : String) (after : Ledger) : Prop where
  revisions : after.revisions.rows = before.revisions.rows.map (pruneRow hashes receiptId sourceId)
  chunks : after.chunks.rows = before.chunks.rows.filter fun chunk => chunk.sourceId ≠ sourceId

theorem prune_pruned {before after : Ledger} {jobId receiptId : String} {now : Time} {counts : PruneCounts}
    (ran : before.pruneCompletedDistillEvidence hashes jobId receiptId now = .ok (counts, after)) :
    ∃ job, before.getJob jobId = some job ∧ Pruned hashes before job.sourceId receiptId after := by
  unfold Ledger.pruneCompletedDistillEvidence at ran
  split at ran
  · cases ran
  · next job found =>
    split at ran
    · cases ran
    · dsimp only at ran
      split at ran
      · cases ran
      · split at ran
        · cases ran
        · split at ran
          · cases ran
          · split at ran
            · cases ran
            · split at ran
              · cases ran
              · next pointed written =>
                cases ran
                unfold Ledger.upsertSourceLocked at written
                split at written
                · cases written
                · cases written
                  exact ⟨job, found, rfl, rfl⟩

theorem Preserves.of_pruned {saved : String × String → Option Saved} {before after : Ledger} {sourceId receiptId : String}
    (preserves : Preserves hashes saved before) (pruned : Pruned hashes before sourceId receiptId after) :
    Preserves hashes (fun key =>
      if sourceId = key.1 then (saved key).map ({ · with pruned := true }) else saved key) after := by
  intro row member
  rw [pruned.revisions] at member
  obtain ⟨old, present, rfl⟩ := List.mem_map.mp member
  obtain ⟨first, noted, faithful⟩ := preserves old present
  rw [key_pruneRow]
  by_cases mine : old.sourceId = sourceId
  · refine ⟨{ first with pruned := true }, (if_pos mine.symm).trans (by rw [noted]; rfl), ?_⟩
    have row_eq : pruneRow hashes receiptId sourceId old = prunedRevision hashes receiptId old := if_pos mine
    rw [row_eq]
    have none_ : after.chunksOf old.sourceId old.sourceRevision = [] := by
      unfold Ledger.chunksOf
      rw [pruned.chunks, List.filter_filter, List.filter_eq_nil_iff]
      intro chunk _
      simp only [mine, Bool.and_eq_true, decide_eq_true_eq, not_and]
      exact fun here away => away here.1
    refine ⟨rfl, rfl, rfl, rfl, rfl, ?_⟩
    rw [show after.chunksOf (prunedRevision hashes receiptId old).sourceId
      (prunedRevision hashes receiptId old).sourceRevision = [] from none_]
    rfl
  · refine ⟨first, (if_neg (Ne.symm mine)).trans noted, ?_⟩
    rw [show pruneRow hashes receiptId sourceId old = old from if_neg mine]
    refine faithful.of_chunks ?_
    unfold Ledger.chunksOf
    rw [pruned.chunks, List.filter_filter]
    refine List.filter_congr fun chunk _ => ?_
    by_cases here : chunk.sourceId = old.sourceId ∧ chunk.sourceRevision = old.sourceRevision
    · rw [here.1]
      simp [here, mine]
    · simp [here]

/-! ### Runs -/

theorem preserves_step {before after : Chronicle} {event : Event} (step : Chronicles hashes before event after)
    (preserves : Preserves hashes before.saved before.world.ledger) :
    Preserves hashes after.saved after.world.ledger := by
  obtain ⟨time, op⟩ := event
  obtain ⟨⟨_, world⟩, saved⟩ := step
  rw [saved, world]
  unfold LedgerOp.apply note
  dsimp only
  cases ran : op.run hashes before.world.ledger time with
  | error failure =>
    cases op <;> exact preserves
  | ok outcome =>
    have others : writesRevisions op = false → Preserves hashes before.saved outcome.ledger := fun other =>
      preserves.of_kept (run_kept other ran)
    cases op with
    | saveSnapshot =>
      obtain ⟨_, inner, rfl⟩ := Lifecycle.map_ok ran
      exact preserves.of_captured (saveSnapshot_captured inner)
    | pruneCompletedDistillEvidence =>
      obtain ⟨⟨counts, next⟩, inner, rfl⟩ := Lifecycle.map_ok ran
      obtain ⟨job, found, pruned⟩ := prune_pruned inner
      simp only [found, Option.any_some, decide_eq_true_eq]
      exact preserves.of_pruned pruned
    | _ => exact others rfl

/-- In every world reached, each stored revision reads back as it was first saved, or empty where it
was pruned, and every source points at a stored revision. -/
theorem revisions_preserved {chronicle : Chronicle} {events : List Event}
    (run : Exec (Chronicles hashes) .initial events chronicle) :
    (∀ sourceId sourceRevision, (chronicle.world.ledger.getRevision sourceId sourceRevision).isSome →
      ∃ first, chronicle.saved (sourceId, sourceRevision) = some first ∧
        chronicle.world.ledger.reconstruct hashes sourceId sourceRevision =
          .ok (if first.pruned then "" else first.text) ∧
        chronicle.world.ledger.reconstructRaw hashes sourceId sourceRevision =
          .ok (if first.pruned then [] else first.bytes)) ∧
    ∀ source ∈ chronicle.world.ledger.sources.rows,
      (chronicle.world.ledger.getRevision source.id source.sourceRevision).isSome := by
  have preserves : Preserves hashes chronicle.saved chronicle.world.ledger :=
    run.invariant (fun chronicle => Preserves hashes chronicle.saved chronicle.world.ledger)
      (fun _ _ _ holds step => preserves_step step holds) nofun
  have sound : Integrity hashes chronicle.world.ledger :=
    run.invariant (fun chronicle => Integrity hashes chronicle.world.ledger)
      (fun _ _ _ holds step => Lifecycle.step_integrity holds step.1) .empty
  refine ⟨?_, sound.pointers⟩
  intro sourceId sourceRevision stored
  obtain ⟨row, found⟩ := Option.isSome_iff_exists.mp stored
  obtain ⟨first, noted, faithful⟩ := preserves row (Table.mem_of_get? found)
  have key : row.key = (sourceId, sourceRevision) := Table.key_of_get? found
  obtain ⟨rfl, rfl⟩ := Prod.mk.inj key
  exact ⟨first, noted, faithful.reconstruct found, faithful.reconstructRaw found⟩

def Chronicle.after (hashes : Hashes) (start : Chronicle) (events : List Event) : Chronicle :=
  events.foldl (fun chronicle event =>
    ⟨⟨event.op.apply hashes chronicle.world.ledger event.time, event.time⟩,
      note hashes chronicle.world.ledger event.time chronicle.saved event.op⟩) start

theorem exec_chronicle {start : Chronicle} {events : List Event} (ordered : inOrder start.world.clock events) :
    Exec (Chronicles hashes) start events (start.after hashes events) := by
  apply @exec_inOrder _ (Chronicles hashes) _ fun chronicle => chronicle.world.clock
  · exact fun _ _ later => ⟨⟨later, rfl⟩, rfl⟩
  · exact fun _ _ => rfl
  · exact ordered

/-- A revision that another one has replaced is still read as it was saved. -/
theorem revisions_preserved_replaced :
    (Chronicle.initial.after .spelled [⟨1, sampleCapture .spelled "s" ["a"]⟩,
      ⟨2, sampleCapture .spelled "s" ["a", "b"]⟩]).world.ledger.reconstruct .spelled "s" "sha256:a" = .ok "a" := by
  have noted : (Chronicle.initial.after .spelled [⟨1, sampleCapture .spelled "s" ["a"]⟩,
      ⟨2, sampleCapture .spelled "s" ["a", "b"]⟩]).saved ("s", "sha256:a") =
        some ⟨encodeUtf8 "a", "a", false⟩ := by decide
  have stored : ((Chronicle.initial.after .spelled [⟨1, sampleCapture .spelled "s" ["a"]⟩,
      ⟨2, sampleCapture .spelled "s" ["a", "b"]⟩]).world.ledger.getRevision "s" "sha256:a").isSome := by decide
  obtain ⟨first, saved, read, _⟩ := (revisions_preserved (exec_chronicle (by decide))).1 "s" "sha256:a" stored
  rw [noted] at saved
  obtain rfl := Option.some.inj saved
  exact read

end HarnessMem.Archive
