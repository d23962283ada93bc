import HarnessMem.Library.Calendar
import HarnessMem.Library.JsonText
import HarnessMem.Library.Table
import HarnessMem.Library.Text
import Mathlib.Data.List.Sort

/-! The verbatim store: observations as canonical payloads, the rows of the index
beside them, and the reads that select rows by a LIKE over the metadata and by
comparing timestamps.
-/

set_option autoImplicit false

namespace HarnessMem.Verbatim

open Library

/-- The metadata of an observation: the members of a dict in their order. -/
structure Metadata where
  fields : List (String × JsonValue)
  distinct : (JsonValue.obj fields).distinct = true

/-- `json.dumps(metadata)`. -/
def Metadata.dumps (metadata : Metadata) : List Char := (JsonValue.obj metadata.fields).dumpsSpaced true

structure Observation where
  id : String
  sessionId : String
  client : String
  rawContent : String
  contentType : String
  timestamp : DateTime
  metadata : Metadata
  tags : List String
  compacted : Bool

/-- `metadata.project_name`, where it is a text. -/
def Observation.projectName? (observation : Observation) : Option String :=
  match observation.metadata.fields.find? fun field => field.1 = "project_name" with
  | some (_, .str name) => some name
  | _ => none

/-- The columns of table `observations` that the reads below select by. -/
structure IndexRow where
  id : String
  sessionId : String
  timestamp : List Char
  metadata : List Char
  compacted : Bool

def Observation.row (observation : Observation) : IndexRow where
  id := observation.id
  sessionId := observation.sessionId
  timestamp := observation.timestamp.isoformat
  metadata := observation.metadata.dumps
  compacted := observation.compacted

structure VerbatimStore where
  blobs : Table Observation.id
  index : Table IndexRow.id

namespace VerbatimStore

def empty : VerbatimStore := ⟨.empty, .empty⟩

def save (store : VerbatimStore) (observation : Observation) : VerbatimStore where
  blobs := store.blobs.upsert observation
  index := store.index.upsert observation.row

def delete (store : VerbatimStore) (id : String) : VerbatimStore where
  blobs := store.blobs.filter fun observation => observation.id ≠ id
  index := store.index.filter fun row => row.id ≠ id

def softDelete (store : VerbatimStore) (id : String) : VerbatimStore :=
  match store.blobs.get? id with
  | none => store
  | some _ =>
    { blobs := store.blobs.mapRows (fun observation => if observation.id = id then { observation with compacted := true } else observation)
        fun observation => by split <;> rfl
      index := store.index.mapRows (fun row => if row.id = id then { row with compacted := true } else row)
        fun row => by split <;> rfl }

end VerbatimStore

inductive VerbatimOp where
  | save (observation : Observation)
  | delete (id : String)
  | softDelete (id : String)

def VerbatimOp.run (op : VerbatimOp) (store : VerbatimStore) : VerbatimStore :=
  match op with
  | .save observation => store.save observation
  | .delete id => store.delete id
  | .softDelete id => store.softDelete id

def after (ops : List VerbatimOp) : VerbatimStore := ops.foldl (fun store op => op.run store) .empty

/-! ### Reads -/

def given (text : Option String) : Option String := text.filter (· ≠ "")

def projectMetadataPattern (projectName : String) : List Char :=
  "%\"project_name\": \"".toList ++ projectName.toList ++ "\"%".toList

def scopeWhere (sessionId projectName : Option String) (row : IndexRow) : Bool :=
  !row.compacted && (given sessionId).all (fun session => row.sessionId = session) &&
    (given projectName).all fun name => like (projectMetadataPattern name) row.metadata

namespace VerbatimStore

def payloads (store : VerbatimStore) (rows : List IndexRow) : List Observation :=
  (rows.filterMap fun row => store.blobs.get? row.id).filter fun observation => !observation.compacted

/-- `SELECT * FROM observations WHERE .. ORDER BY timestamp DESC LIMIT ..`. -/
def select (store : VerbatimStore) (condition : IndexRow → Bool) (limit : Option Nat) : List IndexRow :=
  let rows := (store.index.rows.filter condition).insertionSort fun first second => ¬ first.timestamp < second.timestamp
  match limit with
  | none => rows
  | some limit => rows.take limit

def list (store : VerbatimStore) (sessionId : Option String) (limit : Option Nat) (projectName : Option String) : List Observation :=
  store.payloads (store.select (scopeWhere sessionId projectName) limit)

def timeline (store : VerbatimStore) (projectName : Option String) (limit : Option Nat) : List Observation :=
  store.payloads (store.select (scopeWhere none projectName) limit)

end VerbatimStore

/-- `_normalize_datetime` of a datetime or of nothing. -/
def normalizeDatetime (value : Option DateTime) : Option DateTime := value.map DateTime.inUtc

abbrev TimeWindow := Option DateTime × Option DateTime

def normalizeTimeWindow (window : TimeWindow) : TimeWindow := (normalizeDatetime window.1, normalizeDatetime window.2)

section search

variable (julianday : List Char → Option Int)

/-- `julianday(?) <= julianday(?)`, with the date function of SQLite, which has no value for a text that is no date. -/
def juliandayLe (first second : List Char) : Bool :=
  match julianday first, julianday second with
  | some day, some last => decide (day ≤ last)
  | _, _ => false

/-- The predicate that `search` hands to the index. -/
def searchWhere (sessionId projectName : Option String) (timeWindow : Option TimeWindow) (asOf : Option DateTime) (row : IndexRow) : Bool :=
  scopeWhere sessionId projectName row &&
    (match timeWindow with
      | none => true
      | some window =>
        (normalizeTimeWindow window).1.all (fun start => decide (¬ row.timestamp < start.isoformat)) &&
          (normalizeTimeWindow window).2.all fun stop => decide (row.timestamp < stop.isoformat)) &&
    (normalizeDatetime asOf).all fun limit => juliandayLe julianday row.timestamp limit.isoformat

def timestampInWindow (value : DateTime) (window : TimeWindow) : Bool :=
  (normalizeTimeWindow window).1.all (fun start => decide (¬ value.inUtc.instant < start.instant)) &&
    (normalizeTimeWindow window).2.all fun stop => decide (¬ stop.instant ≤ value.inUtc.instant)

end search

/-! ### Rows and payloads agree -/

def VerbatimStore.Agrees (store : VerbatimStore) : Prop :=
  store.index.rows = store.blobs.rows.map Observation.row

end HarnessMem.Verbatim
