import HarnessMem.Library.Limits
import HarnessMem.Structured.Tracking
import HarnessMem.Verbatim.Store

/-! Memory entries and relation facts with their times, the rows of the index beside them,
and the reads that bound them in time: by the text of a timestamp in the index, and by
its instant in the payload.
-/

set_option autoImplicit false

namespace HarnessMem.Temporal

open Library
open Structured (ListFilter Tier UtcTime matchesFilter normalizeStatusOnLoad statusesForListFilter tierVisible)
open Verbatim (TimeWindow given juliandayLe normalizeTimeWindow timestampInWindow)

/-- A `datetime` with a UTC offset. -/
abbrev OffsetTime : Type := { time : DateTime // time.offset.isSome = true }

/-! ### Records -/

/-- The times of a record, as `model_post_init` leaves them: `valid_from` and `recorded_at` are set. -/
structure Validity where
  createdAt : OffsetTime
  validFrom : OffsetTime
  validTo : Option OffsetTime
  recordedAt : OffsetTime
  supersededBy : List String

inductive MemoryType where
  | episodic | semantic | procedural
  deriving DecidableEq, Repr

def MemoryType.text : MemoryType → String
  | .episodic => "episodic"
  | .semantic => "semantic"
  | .procedural => "procedural"

structure MemoryEntry where
  id : String
  projectName : String
  category : String
  status : String
  compacted : Bool
  tier : Tier
  memoryType : MemoryType
  times : Validity

structure RelationFact where
  id : String
  projectName : String
  status : String
  times : Validity

/-- `MemoryEntry.from_dict`. -/
def MemoryEntry.onLoad (entry : MemoryEntry) : MemoryEntry := { entry with status := normalizeStatusOnLoad entry.status }

/-! ### Index rows -/

/-- The columns of the times. `upsert` writes no NULL: the empty text of a missing `valid_to` is `none` here, and
the JSON text of `superseded_by` is `[]` exactly where there are no links. -/
structure TimeColumns where
  createdAt : List Char
  validFrom : List Char
  validTo : Option (List Char)
  recordedAt : List Char
  supersededBy : List String

structure EntryRow where
  id : String
  projectName : String
  category : String
  status : String
  compacted : Bool
  memoryType : String
  times : TimeColumns

structure FactRow where
  id : String
  projectName : String
  status : String
  times : TimeColumns

def Validity.columns (times : Validity) : TimeColumns where
  createdAt := times.createdAt.1.isoformat
  validFrom := times.validFrom.1.isoformat
  validTo := times.validTo.map fun time => time.1.isoformat
  recordedAt := times.recordedAt.1.isoformat
  supersededBy := times.supersededBy

def MemoryEntry.row (entry : MemoryEntry) : EntryRow where
  id := entry.id
  projectName := entry.projectName
  category := entry.category
  status := entry.status
  compacted := entry.compacted
  memoryType := entry.memoryType.text
  times := entry.times.columns

def RelationFact.row (fact : RelationFact) : FactRow where
  id := fact.id
  projectName := fact.projectName
  status := fact.status
  times := fact.times.columns

/-- The payloads of a collection and its table in the index, both under the id. -/
structure Collection {ρ σ : Type} (id : ρ → String) (rowId : σ → String) where
  blobs : Table id
  index : Table rowId

abbrev MemoryEntries : Type := Collection MemoryEntry.id EntryRow.id

abbrev RelationFacts : Type := Collection RelationFact.id FactRow.id

namespace Collection

variable {ρ σ : Type} {id : ρ → String} {rowId : σ → String}

def empty : Collection id rowId := ⟨.empty, .empty⟩

def save (row : ρ → σ) (collection : Collection id rowId) (record : ρ) : Collection id rowId where
  blobs := collection.blobs.upsert record
  index := collection.index.upsert (row record)

def saved (row : ρ → σ) (records : List ρ) : Collection id rowId := records.foldl (save row) empty

end Collection

def saveMemoryEntry (collection : MemoryEntries) (entry : MemoryEntry) : MemoryEntries := collection.save MemoryEntry.row entry

def saveRelationFact (collection : RelationFacts) (fact : RelationFact) : RelationFacts := collection.save RelationFact.row fact

/-! ### Time in the index and in the payload -/

def currentOnlyClause (now : UtcTime) (row : TimeColumns) : Bool :=
  (row.validTo.all fun text => decide (now.1.isoformat < text)) && row.supersededBy.isEmpty

def isCurrentData (now : UtcTime) (data : Validity) : Bool :=
  data.supersededBy.isEmpty && data.validTo.all fun time => decide (now.1.instant < time.1.instant)

def timeWindowClause (timeWindow : Option TimeWindow) (row : TimeColumns) : Bool :=
  timeWindow.all fun window =>
    (normalizeTimeWindow window).1.all (fun start => decide (¬ row.recordedAt < start.isoformat)) &&
      (normalizeTimeWindow window).2.all fun stop => decide (row.recordedAt < stop.isoformat)

def truthInTimeWindow (data : Validity) (timeWindow : Option TimeWindow) : Bool :=
  timeWindow.all (timestampInWindow data.recordedAt.1)

section

variable (julianday : List Char → Option Int)

/-- `julianday(?) > julianday(?)`. -/
def juliandayGt (first second : List Char) : Bool :=
  match julianday first, julianday second with
  | some day, some last => decide (last < day)
  | _, _ => false

/-- The three conditions of an `as_of`, in UTC as `astimezone` leaves it. -/
def asOfClause (asOf : UtcTime) (row : TimeColumns) : Bool :=
  juliandayLe julianday row.validFrom asOf.1.isoformat && (row.validTo.all fun text => juliandayGt julianday text asOf.1.isoformat) &&
    !(!row.supersededBy.isEmpty && row.validTo.isNone)

end

/-- `_apply_temporal_filter`, of a record the store returned: whether it is kept. -/
def applyTemporalFilter (includeHistory : Bool) (asOf : Option UtcTime) (now : UtcTime) (record : Validity) : Bool :=
  match asOf with
  | some limit =>
    if limit.1.instant < record.validFrom.1.instant then false
    else if record.validTo.any fun time => decide (time.1.instant ≤ limit.1.instant) then false
    else !(!record.supersededBy.isEmpty && record.validTo.isNone)
  | none =>
    if includeHistory then true
    else if record.validTo.any fun time => decide (time.1.instant ≤ now.1.instant) then false
    else record.supersededBy.isEmpty

/-! ### The listing -/

structure ListRead where
  filter : ListFilter
  category : Option String
  deepRecall : Bool

/-- The WHERE clause of `list_memory_entries`. -/
def listWhere (projectName : String) (read : ListRead) (now : UtcTime) (row : EntryRow) : Bool :=
  row.projectName = projectName && !row.compacted && read.filter.statuses.contains row.status &&
    (read.filter.includeHistory || currentOnlyClause now row.times) && matchesFilter read.category row.category

def listCheck (read : ListRead) (now : UtcTime) (data : MemoryEntry) : Bool :=
  !data.compacted && read.filter.statuses.contains data.status && (read.filter.includeHistory || isCurrentData now data.times) &&
    tierVisible read.deepRecall data.tier

def newestText (row : EntryRow) : (List Char)ᵒᵈ := OrderDual.toDual row.times.createdAt

/-- `list_memory_entries`, of the rows in the order in which the index has them. -/
def listMemoryEntries (store : MemoryEntries) (read : ListRead) (now : UtcTime) (limit : Nat) (answer : List EntryRow) :
    List MemoryEntry :=
  (answer.take limit).filterMap fun row =>
    (store.blobs.get? row.id).bind fun data => if listCheck read now data then some data.onLoad else none

/-! ### The searches -/

structure SearchArguments where
  projectName : Option String
  status : String
  memoryType : List String
  includeHistory : Bool
  deepRecall : Bool
  timeWindow : Option TimeWindow
  includeProvisional : Bool
  asOf : Option UtcTime

def SearchArguments.statuses (arguments : SearchArguments) : List String :=
  statusesForListFilter arguments.status arguments.includeProvisional (arguments.includeHistory || arguments.asOf.isSome)

def SearchArguments.currentOnly (arguments : SearchArguments) : Bool := !arguments.includeHistory && arguments.asOf.isNone

section

variable (julianday : List Char → Option Int) (arguments : SearchArguments) (now : UtcTime)

def temporalWhere (row : TimeColumns) : Bool :=
  (!arguments.currentOnly || currentOnlyClause now row) && (arguments.asOf.all fun limit => asOfClause julianday limit row) &&
    timeWindowClause arguments.timeWindow row

/-- The extra WHERE clause of `search_memory_entries`. -/
def searchMemoryEntriesWhere (row : EntryRow) : Bool :=
  !row.compacted && arguments.statuses.contains row.status && temporalWhere julianday arguments now row.times &&
    (given arguments.projectName).all (fun name => row.projectName = name) &&
    (arguments.memoryType.isEmpty || arguments.memoryType.contains row.memoryType)

/-- The extra WHERE clause of `search_relation_facts`. -/
def searchRelationFactsWhere (row : FactRow) : Bool :=
  arguments.statuses.contains row.status && temporalWhere julianday arguments now row.times &&
    (given arguments.projectName).all (fun name => row.projectName = name)

def temporalCheck (data : Validity) : Bool :=
  (!arguments.currentOnly || isCurrentData now data) && truthInTimeWindow data arguments.timeWindow &&
    applyTemporalFilter arguments.includeHistory arguments.asOf now data

def entryCheck (data : MemoryEntry) : Bool :=
  !data.compacted && arguments.statuses.contains data.status &&
    (arguments.memoryType.isEmpty || arguments.memoryType.contains data.memoryType.text) && tierVisible arguments.deepRecall data.tier &&
    temporalCheck arguments now data.times

def factCheck (data : RelationFact) : Bool := arguments.statuses.contains data.status && temporalCheck arguments now data.times

end

end HarnessMem.Temporal
