import HarnessMem.Adapters.Codex
import HarnessMem.Library.JsonText
import Mathlib.Data.List.Sort
import Mathlib.Data.String.Basic

/-! The Cursor history: sessions of a `cursorDiskKV` table are pinned as one text each, and the messages of a
pinned session are read back from it.
-/

set_option autoImplicit false

namespace HarnessMem.Adapters.Cursor

open Library

/-- A row of `cursorDiskKV`; keys are texts, a value that is no text is not held. -/
structure Row where
  key : String
  value : Option String

/-- The texts of `CursorHistoryError`. -/
inductive HistoryError where
  | unsupportedValueEncoding
  | corruptJson
  | unsupportedRecordSchema
  | unsupportedSchema
  | unsupportedKeyIndex
  | unsupportedComposer
  | unsupportedHeaders
  | duplicateBubble
  | incompleteBubbles
  | bubbleIdentityMismatch
  | unsupportedExport
  | authorConflict
  | ownershipChanged
  deriving DecidableEq

def HistoryError.code : HistoryError → String
  | unsupportedValueEncoding => "unsupported_value_encoding"
  | corruptJson => "corrupt_json"
  | unsupportedRecordSchema => "unsupported_record_schema"
  | unsupportedSchema => "cursor_sqlite_unsupported_schema"
  | unsupportedKeyIndex => "cursor_sqlite_unsupported_key_index"
  | unsupportedComposer => "cursor_sqlite_unsupported_composer"
  | unsupportedHeaders => "cursor_sqlite_unsupported_headers"
  | duplicateBubble => "cursor_sqlite_duplicate_bubble"
  | incompleteBubbles => "cursor_sqlite_incomplete_bubbles"
  | bubbleIdentityMismatch => "cursor_sqlite_bubble_identity_mismatch"
  | unsupportedExport => "cursor_sqlite_unsupported_export"
  | authorConflict => "cursor_sqlite_author_conflict"
  | ownershipChanged => "cursor_sqlite_ownership_changed"

/-- `_object`. A lone surrogate is no text here. -/
def object (value : Option String) : Except HistoryError Fields :=
  match value with
  | none => .error .unsupportedValueEncoding
  | some text =>
    match loads text.toList with
    | none => .error .corruptJson
    | some (.obj fields) => .ok fields
    | some _ => .error .unsupportedRecordSchema

/-! ### Keys -/

structure KeyStart where
  front : String
  last : Char
  bounded : (last.toNat + 1).isValidChar

def KeyStart.text (start : KeyStart) : String := start.front.push start.last

def KeyStart.bound (start : KeyStart) : String := start.front.push (Char.ofNat (start.last.toNat + 1))

/-- `prefix_rows`. The binary order of keys is that of their characters. -/
def prefixRows (rows : List Row) (start : KeyStart) : List Row :=
  (rows.filter fun row => start.text ≤ row.key && row.key < start.bound).insertionSort fun first second => first.key ≤ second.key

theorem colon_bounded : (':'.toNat + 1).isValidChar := by decide

def composerStart : KeyStart := { front := "composerData", last := ':', bounded := colon_bounded }

def bubbleStart (sessionId : String) : KeyStart := { front := "bubbleId:" ++ sessionId, last := ':', bounded := colon_bounded }

/-- `key[len(start):]`. -/
def behind (start : KeyStart) (key : String) : String := String.ofList (key.toList.drop start.text.length)

/-- `key.rsplit(":", 1)[1]`, where there is a colon. -/
def lastPart (key : String) : String := String.ofList (key.toList.reverse.takeWhile (· ≠ ':')).reverse

/-- `header.get("bubbleId") if isinstance(header, dict) else None`. -/
def bubbleId? : JsonValue → Option JsonValue
  | .obj header => member? header "bubbleId"
  | _ => none

def isPlainId : Option JsonValue → Bool
  | some (.str id) => id ≠ "" && !id.toList.contains ':'
  | _ => false

def headerIds (headers : List JsonValue) : Option (List String) :=
  if headers.all fun header => isPlainId (bubbleId? header) then some (headers.filterMap fun header => (bubbleId? header).bind JsonValue.asStr?)
  else none

/-! ### Pinning -/

structure CursorSQLiteSource where
  sessionId : String
  owner : Option String
  rawBytes : List UInt8
  recordCount : Nat
  readability : String
  deriving DecidableEq

def Row.text (row : Row) : String := row.value.getD ""

def exportDocument (rows : List Row) : JsonValue :=
  .obj [("format", .str "cursorDiskKV-v1"), ("records", .arr (rows.map fun row => .arr [.str row.key, .str row.text]))]

def exportBytes (rows : List Row) : List UInt8 := encodeUtf8 (String.ofList ((exportDocument rows).dumps false))

def checkBubbles : List Row → Except HistoryError Unit
  | [] => .ok ()
  | row :: rest => do
    let bubble ← object row.value
    if text? bubble "bubbleId" ≠ some (lastPart row.key) then throw .bubbleIdentityMismatch
    checkBubbles rest

/-- The body of the loop of `enumerate_source_records`, behind the check on the owner. -/
def pinSession (rows : List Row) (composerRow : Row) (owner : Option String) : Except HistoryError CursorSQLiteSource := do
  let sessionId := behind composerStart composerRow.key
  let composer ← object composerRow.value
  if sessionId = "" ∨ ':' ∈ sessionId.toList ∨ text? composer "composerId" ≠ some sessionId then
    throw .unsupportedComposer
  match member? composer "fullConversationHeadersOnly" with
  | some (.arr headers) =>
    match headerIds headers with
    | none => throw .unsupportedHeaders
    | some ids =>
      if ¬ids.Nodup then throw .duplicateBubble
      let bubbles := prefixRows rows (bubbleStart sessionId)
      let found := bubbles.map fun row => lastPart row.key
      if ¬(∀ id ∈ ids, id ∈ found) ∨ ¬found.Nodup then throw .incompleteBubbles
      checkBubbles bubbles
      return {
        sessionId, owner
        rawBytes := exportBytes (composerRow :: bubbles)
        recordCount := 1 + bubbles.length
        readability := if headers.isEmpty && bubbles.isEmpty then "empty_draft" else "readable" }
  | _ => throw .unsupportedComposer

structure Database where
  rows : List Row
  /-- What `_validate_disk_schema` raises. -/
  schemaError : Option HistoryError
  /-- `workspace_owner`, before and after the rows are read. -/
  owner : Option String
  ownerAfter : Option String

/-- Where sessions belong; `none` where no memberships are given. -/
abbrev Memberships := Option (String → Option String)

abbrev SessionIssue := String × String

section
variable (database : Database) (projectRoot : Option String) (memberships : Memberships)

/-- The loop of `enumerate_source_records`. -/
def pinSessions : List Row → List CursorSQLiteSource × List SessionIssue
  | [] => ([], [])
  | row :: rest =>
    let sessionId := behind composerStart row.key
    let owner := (memberships.map fun owners => owners sessionId).getD database.owner
    let (sources, issues) := pinSessions rest
    if projectRoot.isSome ∧ owner ≠ projectRoot then (sources, ("cursor_sqlite_project_mismatch", sessionId) :: issues)
    else
      match pinSession database.rows row owner with
      | .ok source => (source :: sources, issues)
      | .error error => (sources, (error.code, sessionId) :: issues)

/-- The rows of composers that `enumerate_source_records` selects. -/
def selectComposers (sessionId : Option String) : Except HistoryError (List Row) :=
  match database.schemaError, sessionId with
  | some error, _ => .error error
  | none, none => .ok (prefixRows database.rows composerStart)
  | none, some id =>
    if id = "" ∨ ':' ∈ id.toList then .error .unsupportedComposer
    else .ok (database.rows.filter fun row => row.key = composerStart.text ++ id)

/-- `enumerate_source_records`, with the issues it appends. Roots are resolved paths. -/
def enumerateSourceRecords (sessionId : Option String) : List CursorSQLiteSource × List SessionIssue :=
  let unknown := if database.owner.isNone then [("cursor_sqlite_ownership_unknown", "")] else []
  if projectRoot.isSome ∧ database.owner ≠ projectRoot ∧ memberships.isNone then
    ([], unknown ++ [("cursor_sqlite_project_mismatch", "")])
  else
    match selectComposers database sessionId with
    | .error error => ([], unknown ++ [(error.code, "")])
    | .ok composers =>
      let empty := if composers.isEmpty then [("cursor_sqlite_unsupported_or_empty", "")] else []
      let (sources, issues) := pinSessions database projectRoot memberships composers
      if database.ownerAfter ≠ database.owner then
        ([], unknown ++ empty ++ issues ++ [(HistoryError.ownershipChanged.code, "")])
      else (sources, unknown ++ empty ++ issues)

end

/-! ### Reading back -/

inductive ExportError where
  | history (error : HistoryError)
  /-- The bytes are no text, or the text is no JSON. -/
  | malformed
  /-- A role is looked up that has no hash. -/
  | typeError
  deriving DecidableEq

/-- `raw.decode("utf-8-sig")`. -/
def decodeUtf8Sig (raw : List UInt8) : Option String :=
  (decodeUtf8 raw).map fun text => if text.toList.head? = some '\uFEFF' then String.ofList (text.toList.drop 1) else text

structure Message where
  role : String
  content : String
  deriving DecidableEq

def nativeRole? (bubble : Fields) : Option String :=
  match member? bubble "type" with
  | some (.int 1) => some "user"
  | some (.int 2) => some "assistant"
  | _ => none

/-- `value is not None`. -/
def isGiven : Option JsonValue → Bool
  | none | some .null => false
  | some _ => true

def hasAuthorConflict (bubble : Fields) : Bool :=
  isGiven (member? bubble "role") &&
    (!isAmong (text? bubble "role") [some "user", some "assistant", some "tool", some "system"] ||
      (nativeRole? bubble).isSome && text? bubble "role" ≠ nativeRole? bubble ||
      isGiven (member? bubble "type") && (nativeRole? bubble).isNone)

def bubbleRole (bubble : Fields) : String := ((nativeRole? bubble).or (text? bubble "role")).getD "unknown"

section
variable (containerRepr : PyValue → String)

def renderCursorContentItems (items : Option JsonValue) : String :=
  match items with
  | some (.arr items) =>
    stripped ("\n".intercalate (items.filterMap fun item =>
      match item with
      | .obj fields =>
        let text := stripped (strOrEmpty containerRepr (member? fields "text"))
        if text? fields "type" = some "text" ∧ text ≠ "" then some text else none
      | _ => none))
  | _ => ""

def bubbleText (bubble : Fields) : String :=
  match (member? bubble "text").or (member? bubble "content") with
  | none => ""
  | some (.str text) => text
  | some value => renderCursorContentItems containerRepr (some value)

def bubbleMessage? (bubble : Fields) : Option Message :=
  if hasVisible (bubbleText containerRepr bubble) then
    some { role := bubbleRole bubble, content := stripped (bubbleText containerRepr bubble) }
  else none

def exportBubbles (start : KeyStart) (values : List (String × Fields)) : List String → Except ExportError (List Message)
  | [] => .ok []
  | key :: keys => do
    let bubble := ((values.find? fun entry => entry.1 = key).map (·.2)).getD []
    if text? bubble "bubbleId" ≠ some (behind start key) then throw (.history .bubbleIdentityMismatch)
    if isUnhashable (member? bubble "role") then throw .typeError
    if hasAuthorConflict bubble then throw (.history .authorConflict)
    let messages ← exportBubbles start values keys
    return (bubbleMessage? containerRepr bubble).toList ++ messages

end

def exportValues (values : List (String × Fields)) : List JsonValue → Except HistoryError (List (String × Fields))
  | [] => .ok values
  | .arr [.str key, .str text] :: records => do
    if key ∈ values.map (·.1) then throw .unsupportedExport
    let fields ← object (some text)
    exportValues (values ++ [(key, fields)]) records
  | _ :: _ => .error .unsupportedExport

def exportKeys (sessionId : String) (values : List (String × Fields)) (composer : Fields) : Except HistoryError (List String) := do
  if text? composer "composerId" ≠ some sessionId then throw .bubbleIdentityMismatch
  match member? composer "fullConversationHeadersOnly" with
  | some (.arr headers) =>
    match headerIds headers with
    | none => throw .unsupportedHeaders
    | some order =>
      if ¬order.Nodup then throw .unsupportedHeaders
      let start := bubbleStart sessionId
      if values.any fun entry => !start.text.toList.isPrefixOf entry.1.toList then throw .bubbleIdentityMismatch
      let keys := order.map fun id => start.text ++ id
      if keys.any fun key => key ∉ values.map (·.1) then throw .incompleteBubbles
      return keys ++ ((values.map (·.1)).filter (· ∉ keys)).insertionSort (· ≤ ·)
  | _ => throw .unsupportedHeaders

def cursorExportMessages (containerRepr : PyValue → String) (raw : List UInt8) (sessionId : String) :
    Except ExportError (List Message) := do
  match (decodeUtf8Sig raw).bind fun text => loads text.toList with
  | none => throw .malformed
  | some (.obj document) =>
    if text? document "format" ≠ some "cursorDiskKV-v1" then throw (.history .unsupportedExport)
    match member? document "records" with
    | some (.arr records) =>
      let values ← (exportValues [] records).mapError .history
      let composerKey := composerStart.text ++ sessionId
      match values.find? fun entry => entry.1 = composerKey with
      | none => throw (.history .bubbleIdentityMismatch)
      | some (_, composer) =>
        let others := values.filter fun entry => entry.1 ≠ composerKey
        let keys ← (exportKeys sessionId others composer).mapError .history
        exportBubbles containerRepr (bubbleStart sessionId) others keys
    | _ => throw (.history .unsupportedExport)
  | some _ => throw (.history .unsupportedExport)

end HarnessMem.Adapters.Cursor
