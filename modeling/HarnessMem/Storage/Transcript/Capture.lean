import HarnessMem.Storage.Ledger

/-! Capturing transcript revisions: the atomic snapshot, the refresh of an
unchanged source, the inventory pass, and the semantic projection cache.
-/

set_option autoImplicit false

namespace HarnessMem.Storage

open Library TranscriptChunking

/-! ### Snapshots -/

/-- `_validate_snapshot`, returning the normalized text. -/
def validateSnapshot (hashes : Hashes) (source : TranscriptSource) (chunks : List TranscriptChunk)
    (nativeBytes : List UInt8) : Except StoreError String :=
  match if chunks.isEmpty then .ok "" else reconstructTranscript hashes chunks (some source.normalizedSha256) with
  | .error failure => .error failure
  | .ok normalized =>
    if source.rawSha256 ≠ hashes.sha256Bytes nativeBytes then
      .error (.valueError "source raw hash does not match native bytes")
    else if !("sha256:" ++ source.rawSha256).toList.isPrefixOf source.sourceRevision.toList then
      .error (.valueError "source revision does not match native bytes")
    else if source.normalizedSha256 ≠ hashes.sha256Text normalized then
      .error (.valueError "source normalized hash does not match transcript chunks")
    else if source.rawSizeBytes ≠ nativeBytes.length then
      .error (.valueError "source raw size does not match native bytes")
    else if source.normalizedSizeBytes ≠ (encodeUtf8 normalized).length then
      .error (.valueError "source normalized size does not match transcript chunks")
    else
      match chunks.findSome? fun chunk =>
        if chunk.sourceId ≠ source.id then some "chunk source id does not match transcript source"
        else if chunk.sourceRevision ≠ source.sourceRevision then
          some "chunk revision does not match transcript source"
        else none with
      | some message => .error (.valueError message)
      | none => .ok normalized

/-- The native bytes of a call of `save_snapshot`. -/
def nativeBytes (chunks : List TranscriptChunk) (rawBytes : Option (List UInt8)) : List UInt8 :=
  rawBytes.getD (encodeUtf8 (String.join (chunks.map (·.rawContent))))

def syncedSource (source : TranscriptSource) (chunks : List TranscriptChunk) (now : Time) : TranscriptSource :=
  { source with
    chunkCount := chunks.length
    status := .synced
    coverage := .complete
    error := none
    syncedAt := some now
    updatedAt := now }

def capturedRevision (source : TranscriptSource) (chunks : List TranscriptChunk) (now : Time) :
    TranscriptSourceRevision where
  sourceId := source.id
  sourceRevision := source.sourceRevision
  projectName := source.projectName
  projectRoot := source.projectRoot
  client := source.client
  sessionId := source.sessionId
  sourceKind := source.sourceKind
  sourceUri := source.sourceUri
  rawSha256 := source.rawSha256
  normalizedSha256 := source.normalizedSha256
  rawSizeBytes := source.rawSizeBytes
  normalizedSizeBytes := source.normalizedSizeBytes
  mtimeNs := source.mtimeNs
  parserVersion := source.parserVersion
  coverage := .complete
  chunkCount := chunks.length
  sequenceCount := source.sequenceCount
  metadata := source.metadata
  capturedAt := now

def revisionRow (source : TranscriptSource) (chunks : List TranscriptChunk) (native : List UInt8) (now : Time) :
    RevisionRow where
  sourceId := source.id
  sourceRevision := source.sourceRevision
  rawSha256 := source.rawSha256
  normalizedSha256 := source.normalizedSha256
  rawSizeBytes := source.rawSizeBytes
  normalizedSizeBytes := source.normalizedSizeBytes
  rawBytes := native
  capturedAt := now
  data := capturedRevision source chunks now

namespace Ledger

/-- `_assert_compatible_revision_locked`: what it raises, if anything. -/
def incompatibleRevision (hashes : Hashes) (ledger : Ledger) (source : TranscriptSource) (normalized : String) :
    Option StoreError :=
  match ledger.getRevision source.id source.sourceRevision with
  | none => none
  | some row =>
    if row.rawSha256 ≠ source.rawSha256 then
      some (.valueError "immutable transcript revision raw hash changed")
    else if row.normalizedSha256 ≠ hashes.sha256Text normalized then
      some (.valueError "immutable transcript revision normalized hash changed")
    else none

def insertRevision (ledger : Ledger) (row : RevisionRow) : Ledger :=
  if fresh : ledger.revisions.get? row.key = none then
    { ledger with revisions := ledger.revisions.insert row fresh }
  else ledger

def deleteChunks (ledger : Ledger) (sourceId sourceRevision : String) : Except StoreError Ledger :=
  if ledger.checkpoints.rows.any fun checkpoint =>
      (ledger.chunksOf sourceId sourceRevision).any fun chunk => chunk.id = checkpoint.chunkId then
    .error (.integrityError "FOREIGN KEY distill_job_chunks(chunk_id)")
  else .ok { ledger with
    chunks := ledger.chunks.filter fun chunk =>
      !(decide (chunk.sourceId = sourceId ∧ chunk.sourceRevision = sourceRevision)) }

def insertChunkLocked (ledger : Ledger) (chunk : TranscriptChunk) : Except StoreError Ledger :=
  if fresh : ledger.chunks.get? chunk.id = none then
    if ledger.chunks.rows.any fun other => other.sourceId = chunk.sourceId ∧
        other.sourceRevision = chunk.sourceRevision ∧ other.chunkIndex = chunk.chunkIndex then
      .error (.integrityError "UNIQUE transcript_chunks(source_id, source_revision, chunk_index)")
    else if (ledger.getRevision chunk.sourceId chunk.sourceRevision).isNone then
      .error (.integrityError "FOREIGN KEY transcript_chunks(source_id, source_revision)")
    else .ok { ledger with chunks := ledger.chunks.insert chunk fresh }
  else .error (.integrityError "UNIQUE transcript_chunks(id)")

def insertChunks (ledger : Ledger) : List TranscriptChunk → Except StoreError Ledger
  | [] => .ok ledger
  | chunk :: rest =>
    match ledger.insertChunkLocked chunk with
    | .error failure => .error failure
    | .ok inserted => inserted.insertChunks rest

def saveSnapshot (hashes : Hashes) (ledger : Ledger) (source : TranscriptSource) (chunks : List TranscriptChunk)
    (rawBytes : Option (List UInt8)) (now : Time) : Except StoreError Ledger :=
  let native := nativeBytes chunks rawBytes
  match validateSnapshot hashes source chunks native with
  | .error failure => .error failure
  | .ok normalized =>
    match ledger.incompatibleRevision hashes source normalized with
    | some failure => .error failure
    | none =>
      match ledger.upsertSourceLocked (syncedSource source chunks now) with
      | .error failure => .error failure
      | .ok pointed =>
        match (pointed.insertRevision (revisionRow source chunks native now)).deleteChunks
            source.id source.sourceRevision with
        | .error failure => .error failure
        | .ok cleared => cleared.insertChunks chunks

/-! ### Sources without a new revision -/

def saveSource (ledger : Ledger) (source : TranscriptSource) (now : Time) : Except StoreError Ledger :=
  ledger.upsertSourceLocked { source with updatedAt := now }

/-- The source row `persist_session_snapshot` hands to `save_source` for unchanged content. -/
def refreshedSource (existing source : TranscriptSource) (now : Time) : TranscriptSource :=
  { source with
    status := if existing.status = .missing then .synced else existing.status
    coverage := existing.coverage
    chunkCount := existing.chunkCount
    syncedAt := if existing.status = .missing then some now else existing.syncedAt
    metadata :=
      if existing.status = .missing then
        ((source.metadata.pop "missing_since").pop "missing_reason").set "reappeared_at" (.instant now)
      else source.metadata }

/-- The branch of `persist_session_snapshot` for a capture whose revision is the current one: the
row found under the logical key is refreshed when it was missing or has moved. -/
def refreshSource (ledger : Ledger) (source : TranscriptSource) (now : Time) : Except StoreError Ledger :=
  match ledger.sources.rows.find? fun row => row.identity = source.identity with
  | none => .ok ledger
  | some existing =>
    if existing.sourceRevision = source.sourceRevision ∧ (existing.status = .missing ∨
        source.metadata.text? "native_source_uri" ≠ existing.metadata.text? "native_source_uri") then
      ledger.saveSource (refreshedSource existing source now) now
    else .ok ledger

def markMissing (source : TranscriptSource) (now : Time) : TranscriptSource :=
  { source with
    status := .missing
    error := none
    updatedAt := now
    metadata := (source.metadata.set "missing_since" (.instant now)).set "missing_reason"
      (.str "absent_from_complete_host_inventory") }

/-- `list_sources` for one client: the rows last updated come first. -/
def listSources (ledger : Ledger) (scan : Scan TranscriptSource) (projectName client : String) (limit : Nat) :
    List TranscriptSource :=
  ((scan.order (ledger.sources.rows.filter fun source =>
    source.projectName = projectName ∧ source.client = client)).insertionSort
      fun first second => second.updatedAt ≤ first.updatedAt).take limit

def markSourcesMissingFromInventory (ledger : Ledger) (scan : Scan TranscriptSource)
    (projectName client : String) (observed : List String) (now : Time) : List TranscriptSource × Ledger :=
  let missing := (ledger.listSources scan projectName client 100000).filter fun source =>
    !(source.sessionId ∈ observed) && source.status ≠ .missing
  (missing.map (markMissing · now),
    { ledger with
      sources := ledger.sources.mapRows
        (fun source => if source.id ∈ missing.map (·.id) then markMissing source now else source)
        fun source => by split <;> rfl })

/-! ### The projection cache -/

def revisionOrdinal (ledger : Ledger) (sourceId sourceRevision : String) : Nat :=
  ledger.revisions.rows.findIdx fun row => decide (row.key = (sourceId, sourceRevision))

/-- `save_distill_projection`: one latest record for each source and record version. -/
def saveDistillProjection (ledger : Ledger) (record : Dict) (now : Time) : Except StoreError Ledger :=
  let row : SemanticProjection := {
    sourceId := record.text "source_id"
    sourceRevision := record.text "source_revision"
    recordVersion := record.text "record_version"
    projectionSha256 := record.text "projection_sha256"
    updatedAt := now
    data := record }
  if row.sourceId = "" ∨ row.sourceRevision = "" ∨ row.recordVersion = "" ∨ row.projectionSha256 = "" then
    .error (.valueError "distill projection record is missing identity fields")
  else if (ledger.getRevision row.sourceId row.sourceRevision).isNone then
    .error (.keyError (row.sourceId ++ "@" ++ row.sourceRevision))
  else
    let current := ledger.revisionOrdinal row.sourceId row.sourceRevision
    let cached := ledger.projections.rows.filter fun other =>
      other.sourceId = row.sourceId ∧ other.recordVersion = row.recordVersion
    -- an older job may finish after a newer revision was cached
    if cached.any fun other => current < ledger.revisionOrdinal other.sourceId other.sourceRevision then .ok ledger
    else .ok { ledger with
      projections := (ledger.projections.filter fun other =>
        !(decide (other.sourceId = row.sourceId ∧ other.recordVersion = row.recordVersion ∧
          other.sourceRevision ≠ row.sourceRevision))).upsert row }

end Ledger

end HarnessMem.Storage
