import HarnessMem.Library.KeyMap
import HarnessMem.Storage.Integrity
import HarnessMem.Storage.Operations
import Mathlib.Data.String.Basic

/-! `persist_session_snapshot`: which source a capture belongs to, and what it writes
to the ledger.
-/

set_option autoImplicit false

namespace HarnessMem.Archive

open Storage Library TranscriptChunking

/-- A capture whose private spans have been taken out. `cut` gives the chunks of its text under a source and a
revision, `details` the metadata that does not depend on the source it goes to. -/
structure Capture where
  projectName : String
  projectRoot : String
  client : String
  sessionId : String
  sourceKind : String
  sourceUri : String
  nativeBytes : List UInt8
  sourceText : String
  mtimeNs : Option Int := none
  sequenceCount : Nat := 0
  parserVersion : String := "transcript-v1"
  reuseLogicalSession : Bool := false
  details : Dict := []
  cut : String → String → List TranscriptChunk

def transcriptSourceId (hashes : Hashes) (client projectName sessionId sourceUri : String) : String :=
  hashes.uuid5 ("harness-mem://transcript/" ++ client ++ "/" ++ projectName ++ "/" ++ sessionId ++ "/" ++ sourceUri)

namespace Capture

variable (capture : Capture)

def identity : String × String × String × String :=
  (capture.projectName, capture.client, capture.sessionId, capture.sourceUri)

def ownId (hashes : Hashes) : String :=
  transcriptSourceId hashes capture.client capture.projectName capture.sessionId capture.sourceUri

def revision (hashes : Hashes) : String := hashes.transcriptBytesRevision capture.nativeBytes

end Capture

/-! ### Resolution -/

def only? {α : Type} : List α → Option α
  | [row] => some row
  | _ => none

theorem only?_eq_some {α : Type} {rows : List α} {row : α} (distinct : rows.Nodup) :
    only? rows = some row ↔ ∀ other, other ∈ rows ↔ other = row := by
  constructor
  · intro found other
    cases rows with
    | nil => cases found
    | cons first rest =>
      cases rest with
      | nil =>
        cases found
        exact List.mem_singleton
      | cons => cases found
  · intro sole
    cases rows with
    | nil => exact absurd ((sole row).mpr rfl) List.not_mem_nil
    | cons first rest =>
      have here : first = row := (sole first).mp (List.mem_cons_self ..)
      cases rest with
      | nil => rw [here]; rfl
      | cons second rest =>
        have there : second = row := (sole second).mp (List.mem_cons_of_mem _ (List.mem_cons_self ..))
        rw [here, there] at distinct
        exact absurd (List.mem_cons_self ..) (List.nodup_cons.mp distinct).1

/-- `find_source` with a locator. -/
def findSource (ledger : Ledger) (capture : Capture) : Option TranscriptSource :=
  ledger.sources.rows.find? fun source => source.identity = capture.identity

def ofSession (capture : Capture) (source : TranscriptSource) : Bool :=
  source.projectName = capture.projectName && source.client = capture.client && source.sessionId = capture.sessionId

def sessionSources (ledger : Ledger) (capture : Capture) : List TranscriptSource :=
  ledger.sources.rows.filter (ofSession capture)

/-- `list_sources_for_session`: the rows last updated come first. -/
def listSourcesForSession (ledger : Ledger) (scan : Scan TranscriptSource) (capture : Capture) : List TranscriptSource :=
  (scan.order (sessionSources ledger capture)).insertionSort fun first second => second.updatedAt ≤ first.updatedAt

/-- The `limit` of `list_sources` where the caller gives none. -/
def defaultLimit : Nat := 100

/-- The one source of the session that `list_sources` shows. -/
def findLogical (ledger : Ledger) (scan : Scan TranscriptSource) (capture : Capture) : Option TranscriptSource :=
  only? ((ledger.listSources scan capture.projectName capture.client defaultLimit).filter fun source =>
    source.sessionId = capture.sessionId)

def continues (hashes : Hashes) (ledger : Ledger) (capture : Capture) (source : TranscriptSource) : Bool :=
  match ledger.reconstructRaw hashes source.id source.sourceRevision with
  | .ok previous => previous.isPrefixOf capture.nativeBytes
  | .error _ => false

def findMovedSource (hashes : Hashes) (ledger : Ledger) (scan : Scan TranscriptSource) (capture : Capture) :
    Option TranscriptSource :=
  only? ((listSourcesForSession ledger scan capture).filter (continues hashes ledger capture))

/-- The source a capture goes to, with the identifier and the locator it is stored under. -/
structure Resolution where
  existing : Option TranscriptSource
  sourceId : String
  sourceUri : String

def resolve (hashes : Hashes) (ledger : Ledger) (scan : Scan TranscriptSource) (capture : Capture) : Resolution :=
  match findSource ledger capture with
  | some source => ⟨some source, capture.ownId hashes, capture.sourceUri⟩
  | none =>
    let logical := if capture.reuseLogicalSession then findLogical ledger scan capture else none
    match logical.or (findMovedSource hashes ledger scan capture) with
    -- The first verified locator stays the canonical one.
    | some source => ⟨some source, source.id, source.sourceUri⟩
    | none => ⟨none, capture.ownId hashes, capture.sourceUri⟩

/-! ### Persisting -/

inductive CaptureAction where
  | ingested
  | unchanged
  | updated
  deriving DecidableEq

def captureAction (revision : String) : Option TranscriptSource → CaptureAction
  | none => .ingested
  | some source => if source.sourceRevision = revision then .unchanged else .updated

def nativeSourceAliases (metadata : Dict) : List String :=
  match metadata.get? "native_source_aliases" with
  | some (.arr items) => items.filterMap fun
    | .str locator => some locator
    | _ => none
  | _ => []

def captureMetadata (capture : Capture) (existing : Dict) : Dict :=
  ((existing.merge capture.details).set "native_source_uri" (.str capture.sourceUri)).set "native_source_aliases"
    (.arr ((sortedSet (capture.sourceUri :: nativeSourceAliases existing)).map .str))

def captureSource (hashes : Hashes) (capture : Capture) (resolution : Resolution) (now : Time) : TranscriptSource where
  id := resolution.sourceId
  projectName := capture.projectName
  projectRoot := capture.projectRoot
  client := capture.client
  sessionId := capture.sessionId
  sourceKind := capture.sourceKind
  sourceUri := resolution.sourceUri
  sourceRevision := capture.revision hashes
  rawSha256 := hashes.sha256Bytes capture.nativeBytes
  normalizedSha256 := hashes.sha256Text capture.sourceText
  rawSizeBytes := capture.nativeBytes.length
  normalizedSizeBytes := (encodeUtf8 capture.sourceText).length
  mtimeNs := capture.mtimeNs
  parserVersion := capture.parserVersion
  status := .syncing
  coverage := .unknown
  sequenceCount := capture.sequenceCount
  metadata := captureMetadata capture ((resolution.existing.map (·.metadata)).getD [])
  createdAt := (resolution.existing.map (·.createdAt)).getD now
  updatedAt := now

/-- The write of a capture, and the source it returns. A revision that is current already is stored again only
where its source was missing or is found at another locator than last time. -/
def storeCapture (hashes : Hashes) (ledger : Ledger) (capture : Capture) (resolution : Resolution) (now : Time) :
    Except StoreError (TranscriptSource × Ledger) :=
  let source := captureSource hashes capture resolution now
  let chunks := capture.cut source.id source.sourceRevision
  match resolution.existing.filter fun existing => existing.sourceRevision = source.sourceRevision with
  | none =>
    (ledger.saveSnapshot hashes source chunks (some capture.nativeBytes) now).map fun saved =>
      (syncedSource source chunks now, saved)
  | some existing =>
    if existing.status = .missing ∨ some capture.sourceUri ≠ existing.metadata.text? "native_source_uri" then
      (ledger.saveSource (Ledger.refreshedSource existing source now) now).map fun saved => (Ledger.refreshedSource existing source now, saved)
    else .ok (existing, ledger)

structure TranscriptSyncResult where
  action : CaptureAction
  source : TranscriptSource
  job : SessionDistillJob
  ledger : Ledger

/-- `persist_session_snapshot` of a capture that the policy and the tombstones admit. -/
def persistSessionSnapshot (hashes : Hashes) (ledger : Ledger) (scan : Scan TranscriptSource) (queue : Scan QueueRow)
    (capture : Capture) (now : Time) : Except StoreError TranscriptSyncResult :=
  let resolution := resolve hashes ledger scan capture
  match storeCapture hashes ledger capture resolution now with
  | .error failure => .error failure
  | .ok (source, stored) =>
    (stored.enqueue hashes queue { sourceId := source.id } now).map fun (job, _, queued) =>
      ⟨captureAction (capture.revision hashes) resolution.existing, source, job, queued⟩

end HarnessMem.Archive

/-! What a snapshot writes: the conditions its validation checks, and the chunk
rows it leaves for its revision and for the others.
-/

namespace HarnessMem.Archive

open Storage Library TranscriptChunking

variable {hashes : Hashes}

def snapshotText (chunks : List TranscriptChunk) : String :=
  String.join ((inOrder chunks).map (·.rawContent))

/-- What `_validate_snapshot` accepts. -/
structure Validated (hashes : Hashes) (source : TranscriptSource) (chunks : List TranscriptChunk)
    (native : List UInt8) : Prop where
  read : reconstructTranscript hashes chunks (some source.normalizedSha256) = .ok (snapshotText chunks)
  rawSha256 : source.rawSha256 = hashes.sha256Bytes native
  normalizedSha256 : source.normalizedSha256 = hashes.sha256Text (snapshotText chunks)
  normalizedSize : source.normalizedSizeBytes = (encodeUtf8 (snapshotText chunks)).length
  own : ∀ chunk ∈ chunks, chunk.sourceId = source.id ∧ chunk.sourceRevision = source.sourceRevision

variable {sourceId : String} {chunks : List TranscriptChunk}

theorem joinChecked_text {revision value : String} {index start : Int}
    (read : joinChecked hashes sourceId revision chunks index start = .ok value) :
    value = String.join (chunks.map (·.rawContent)) := by
  induction chunks generalizing value index start with
  | nil =>
    cases read
    rfl
  | cons chunk rest ih =>
    simp only [joinChecked] at read
    iterate 5
      split at read
      · cases read
    split at read
    · next later front =>
      cases read
      rw [List.map_cons, String.join_cons, ih front]
    · cases read

theorem reconstruct_text {expected : Option String} {value : String}
    (read : reconstructTranscript hashes chunks expected = .ok value) : value = snapshotText chunks := by
  unfold reconstructTranscript at read
  unfold snapshotText
  split at read
  · next empty =>
    cases read
    rw [empty]
    rfl
  · next first rest ordered =>
    split at read
    · cases read
    · next joined =>
      split at read
      · cases read
      · cases read
        rw [ordered]
        exact joinChecked_text joined

theorem validateSnapshot_ok {source : TranscriptSource} {native : List UInt8}
    {normalized : String} (valid : validateSnapshot hashes source chunks native = .ok normalized) :
    normalized = snapshotText chunks ∧ Validated hashes source chunks native := by
  unfold validateSnapshot at valid
  split at valid
  · cases valid
  · next text read =>
    have whole : reconstructTranscript hashes chunks (some source.normalizedSha256) = .ok text := by
      cases chunks with
      | nil =>
        cases read
        rfl
      | cons => exact read
    obtain rfl := reconstruct_text whole
    split at valid
    · cases valid
    · next raw =>
      split at valid
      · cases valid
      · split at valid
        · cases valid
        · next digest =>
          split at valid
          · cases valid
          · split at valid
            · cases valid
            · next size =>
              split at valid
              · cases valid
              · next checked =>
                cases valid
                refine ⟨rfl, whole, not_not.mp raw, not_not.mp digest, not_not.mp size, ?_⟩
                intro chunk member
                have passed := List.findSome?_eq_none_iff.mp checked chunk member
                split at passed
                · cases passed
                · next source_ =>
                  split at passed
                  · cases passed
                  · next revision => exact ⟨not_not.mp source_, not_not.mp revision⟩

/-! ### The rows a snapshot writes -/

/-- Only the chunk rows differ. -/
structure ChunksOnly (before after : Ledger) : Prop where
  sources : after.sources = before.sources
  revisions : after.revisions = before.revisions
  projections : after.projections = before.projections
  jobs : after.jobs = before.jobs
  checkpoints : after.checkpoints = before.checkpoints
  deletionAudit : after.deletionAudit = before.deletionAudit

theorem ChunksOnly.write (ledger : Ledger) (chunks : Table TranscriptChunk.id) :
    ChunksOnly ledger { ledger with chunks } := ⟨rfl, rfl, rfl, rfl, rfl, rfl⟩

theorem ChunksOnly.trans {first second third : Ledger} (left : ChunksOnly first second)
    (right : ChunksOnly second third) : ChunksOnly first third where
  sources := right.sources.trans left.sources
  revisions := right.revisions.trans left.revisions
  projections := right.projections.trans left.projections
  jobs := right.jobs.trans left.jobs
  checkpoints := right.checkpoints.trans left.checkpoints
  deletionAudit := right.deletionAudit.trans left.deletionAudit

variable {before after : Ledger}

theorem insertChunk_rows {chunk : TranscriptChunk}
    (ran : before.insertChunkLocked chunk = .ok after) :
    ChunksOnly before after ∧ after.chunks.rows = before.chunks.rows ++ [chunk] := by
  unfold Ledger.insertChunkLocked at ran
  split at ran
  · split at ran
    · cases ran
    · split at ran
      · cases ran
      · cases ran
        exact ⟨.write before _, rfl⟩
  · cases ran

theorem insertChunks_rows (ran : before.insertChunks chunks = .ok after) :
    ChunksOnly before after ∧ after.chunks.rows = before.chunks.rows ++ chunks := by
  induction chunks generalizing before with
  | nil =>
    cases ran
    exact ⟨.write _ _, (List.append_nil _).symm⟩
  | cons chunk rest ih =>
    unfold Ledger.insertChunks at ran
    split at ran
    · cases ran
    · next inserted written =>
      obtain ⟨others, rows⟩ := insertChunk_rows written
      obtain ⟨others', rows'⟩ := ih ran
      refine ⟨others.trans others', ?_⟩
      rw [rows', rows, List.append_assoc, List.singleton_append]

theorem deleteChunks_rows {sourceRevision : String}
    (ran : before.deleteChunks sourceId sourceRevision = .ok after) :
    ChunksOnly before after ∧ after.chunks.rows = before.chunks.rows.filter fun chunk =>
      !(decide (chunk.sourceId = sourceId ∧ chunk.sourceRevision = sourceRevision)) := by
  unfold Ledger.deleteChunks at ran
  split at ran
  · cases ran
  · cases ran
    exact ⟨.write before _, rfl⟩

theorem chunksOf_replaced {sourceRevision : String}
    (own : ∀ chunk ∈ chunks, chunk.sourceId = sourceId ∧ chunk.sourceRevision = sourceRevision)
    (rows : after.chunks.rows = (before.chunks.rows.filter fun chunk =>
      !(decide (chunk.sourceId = sourceId ∧ chunk.sourceRevision = sourceRevision))) ++ chunks)
    (otherId otherRevision : String) :
    after.chunksOf otherId otherRevision =
      if otherId = sourceId ∧ otherRevision = sourceRevision then chunks else before.chunksOf otherId otherRevision := by
  unfold Ledger.chunksOf
  rw [rows, List.filter_append, List.filter_filter]
  split
  · next same =>
    obtain ⟨rfl, rfl⟩ := same
    have none_ : (before.chunks.rows.filter fun chunk =>
        decide (chunk.sourceId = otherId ∧ chunk.sourceRevision = otherRevision) &&
          !(decide (chunk.sourceId = otherId ∧ chunk.sourceRevision = otherRevision))) = [] := by simp
    rw [none_, List.nil_append]
    exact List.filter_eq_self.mpr fun chunk member => decide_eq_true (own chunk member)
  · next differs =>
    have outside : (chunks.filter fun chunk =>
        decide (chunk.sourceId = otherId ∧ chunk.sourceRevision = otherRevision)) = [] := by
      refine List.filter_eq_nil_iff.mpr fun chunk member here => ?_
      obtain ⟨here, there⟩ := of_decide_eq_true here
      obtain ⟨own, revision⟩ := own chunk member
      exact differs ⟨here.symm.trans own, there.symm.trans revision⟩
    rw [outside, List.append_nil]
    refine List.filter_congr fun chunk _ => ?_
    by_cases here : chunk.sourceId = otherId ∧ chunk.sourceRevision = otherRevision
    · obtain ⟨rfl, rfl⟩ := here
      simp [differs]
    · simp [here]

structure Captured (hashes : Hashes) (before : Ledger) (source : TranscriptSource) (chunks : List TranscriptChunk)
    (native : List UInt8) (now : Time) (after : Ledger) : Prop where
  validated : Validated hashes source chunks native
  compatible : ∀ row, before.getRevision source.id source.sourceRevision = some row →
    row.rawSha256 = source.rawSha256 ∧ row.normalizedSha256 = source.normalizedSha256
  sources : after.sources = before.sources.upsert (syncedSource source chunks now)
  revisions : after.revisions = (before.insertRevision (revisionRow source chunks native now)).revisions
  chunks : after.chunks.rows = (before.chunks.rows.filter fun chunk =>
    !(decide (chunk.sourceId = source.id ∧ chunk.sourceRevision = source.sourceRevision))) ++ chunks
  projections : after.projections = before.projections
  jobs : after.jobs = before.jobs
  checkpoints : after.checkpoints = before.checkpoints
  deletionAudit : after.deletionAudit = before.deletionAudit

theorem saveSnapshot_captured {source : TranscriptSource}
    {rawBytes : Option (List UInt8)} {now : Time}
    (ran : before.saveSnapshot hashes source chunks rawBytes now = .ok after) :
    Captured hashes before source chunks (nativeBytes chunks rawBytes) now after := by
  obtain ⟨normalized, pointed, cleared, valid, compatible, written, deleted, inserted⟩ := Integrity.saveSnapshot_steps ran
  obtain ⟨rfl, validated⟩ := validateSnapshot_ok valid
  obtain ⟨others, rows⟩ := deleteChunks_rows deleted
  obtain ⟨others', rows'⟩ := insertChunks_rows inserted
  have pointed_eq : pointed = { before with sources := before.sources.upsert (syncedSource source chunks now) } := by
    unfold Ledger.upsertSourceLocked at written
    split at written
    · cases written
    · cases written
      rfl
  subst pointed_eq
  have whole := others.trans others'
  have keeps : ∀ ledger : Ledger, ∀ row, (ledger.insertRevision row).sources = ledger.sources ∧
      (ledger.insertRevision row).chunks = ledger.chunks ∧ (ledger.insertRevision row).projections = ledger.projections ∧
      (ledger.insertRevision row).jobs = ledger.jobs ∧ (ledger.insertRevision row).checkpoints = ledger.checkpoints ∧
      (ledger.insertRevision row).deletionAudit = ledger.deletionAudit := by
    intro ledger row
    unfold Ledger.insertRevision
    split <;> exact ⟨rfl, rfl, rfl, rfl, rfl, rfl⟩
  obtain ⟨sources, chunks', projections, jobs, checkpoints, audit⟩ := keeps
    { before with sources := before.sources.upsert (syncedSource source chunks now) }
    (revisionRow source chunks (nativeBytes chunks rawBytes) now)
  refine ⟨validated, ?_, whole.sources.trans sources, ?_, ?_, whole.projections.trans projections,
    whole.jobs.trans jobs, whole.checkpoints.trans checkpoints, whole.deletionAudit.trans audit⟩
  · intro row found
    unfold Ledger.incompatibleRevision at compatible
    rw [found] at compatible
    dsimp only at compatible
    split at compatible
    · cases compatible
    · next raw =>
      split at compatible
      · cases compatible
      · next digest => exact ⟨not_not.mp raw, (not_not.mp digest).trans validated.normalizedSha256.symm⟩
  · rw [whole.revisions]
    unfold Ledger.insertRevision
    split <;> rfl
  · rw [rows', rows, chunks']

end HarnessMem.Archive
