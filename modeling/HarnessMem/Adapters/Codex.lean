import HarnessMem.Library.JsonAccess
import HarnessMem.Library.Regex
import HarnessMem.Library.Text

/-! The Codex archive: native records are read into turns, and of the turns only the conversation of a
user is rendered.
-/

set_option autoImplicit false

namespace HarnessMem.Adapters

open Library

abbrev Fields := List (String × JsonValue)

/-- `dict.get(key)` where it is a text. -/
def text? (fields : Fields) (key : String) : Option String := (member? fields key).bind JsonValue.asStr?

def isUnhashable : Option JsonValue → Bool
  | some (.arr _) | some (.obj _) => true
  | _ => false

/-! ### Texts of users -/

def ideContextPrefixText : String := "# Context from my IDE setup:"

def ideRequestMarker : String := "## My request for Codex:"

def agentsContextText : String := "# AGENTS.md instructions"

def boilerplateUserPrefixes : List String := ["# Context from my IDE setup:", "## My request for Codex:"]

def partition? (marker : List Char) : List Char → Option (List Char × List Char)
  | [] => if marker = [] then some ([], []) else none
  | c :: rest =>
    if marker.isPrefixOf (c :: rest) then some ([], (c :: rest).drop marker.length)
    else (partition? marker rest).map fun (front, back) => (c :: front, back)

/-- `marker in text`. -/
def includes (marker text : String) : Bool := (partition? marker.toList text.toList).isSome

/-- `text.split(marker, 1)[1]`, where the marker is in the text. -/
def afterMarker (marker text : String) : String :=
  match partition? marker.toList text.toList with
  | some (_, back) => String.ofList back
  | none => text

/-- The group of `CODEX_DELEGATION_INPUT_REGEX` in the first match, stripped: the first input of the first
delegation, where both are closed again. -/
def delegationInput? (text : String) : Option String := do
  let (_, inside) ← partition? "<codex_delegation>".toList text.toList
  let (_, input) ← partition? "<input>".toList inside
  let (input, behind) ← partition? "</input>".toList input
  let _ ← partition? "</codex_delegation>".toList behind
  return String.ofList (strip input)

/-- `TURN_ABORTED_REGEX.sub("", text)`; every round but the last takes a marker away. -/
def withoutAborted : Nat → List Char → List Char
  | 0, text => text
  | rounds + 1, text =>
    match partition? "<turn_aborted>".toList text with
    | none => text
    | some (front, inside) =>
      match partition? "</turn_aborted>".toList inside with
      | none => text
      | some (_, behind) => front ++ withoutAborted rounds behind

def withoutFiles (cleaned : String) : String :=
  if "# Files mentioned by the user:".isPrefixOf cleaned && includes ideRequestMarker cleaned then
    stripped (afterMarker ideRequestMarker cleaned)
  else cleaned

def withoutTurnAborted (cleaned : String) : String := stripped (String.ofList (withoutAborted cleaned.length cleaned.toList))

def withoutBoilerplate (cleaned : String) : String :=
  if agentsContextText.isPrefixOf cleaned && !includes ideRequestMarker cleaned then ""
  else if boilerplateUserPrefixes.any fun start => start.isPrefixOf cleaned then
    if ideContextPrefixText.isPrefixOf cleaned && includes ideRequestMarker cleaned then
      withoutTurnAborted (stripped (afterMarker ideRequestMarker cleaned))
    else ""
  else withoutTurnAborted cleaned

/-- What `sanitize_archived_user_text` does behind the delegation. -/
def sanitizeRequest (cleaned : String) : String := withoutBoilerplate (withoutFiles cleaned)

def sanitizeArchivedUserText (text : String) : String :=
  let cleaned := stripped text
  if cleaned = "" then ""
  else
    match delegationInput? cleaned with
    | some input => sanitizeRequest input
    | none =>
      if "<recommended_plugins>".isPrefixOf cleaned || includes agentsContextText cleaned then "" else sanitizeRequest cleaned

section
variable (isWord : Char → Bool) (containerRepr : PyValue → String)

/-- `re.fullmatch(r"</?image\b[^>]*>", text, re.IGNORECASE)`. -/
def isImageTag (text : String) : Bool :=
  let tag := Regex.cat [.literal "<", .optional (.literal "/"), .ignoreCase "image", .wordBoundary isWord,
    .star (.one (· != '>')), .literal ">"]
  (tag.ends { before := none, rest := text.toList }).any fun stop => stop.rest.isEmpty

/-- The texts of `extract_archived_text`; `none` where an item's type has no hash. -/
def archivedParts : List JsonValue → Option (List String)
  | [] => some []
  | .obj item :: items =>
    if isUnhashable (member? item "type") then none
    else
      match text? item "type", text? item "text" with
      | some kind, some text =>
        if kind ∈ ["text", "input_text", "output_text"] ∧ !isImageTag isWord (stripped text) then
          (archivedParts items).map (text :: ·)
        else archivedParts items
      | _, _ => archivedParts items
  | _ :: items => archivedParts items

def extractArchivedText (content : Option JsonValue) : Option String :=
  match content with
  | some (.str text) => some (stripped text)
  | some (.arr items) => (archivedParts isWord items).map fun parts => stripped ("\n\n".intercalate parts)
  | _ => some ""

/-- `value in texts`. -/
def isAmong (value : Option String) (texts : List (Option String)) : Bool := value ∈ texts

theorem isAmong_iff {value : Option String} {texts : List (Option String)} : isAmong value texts = true ↔ value ∈ texts :=
  decide_eq_true_iff

/-- `is_codex_user_content_item`; `none` where the item's type has no hash. -/
def isCodexUserContentItem (item : JsonValue) : Option Bool :=
  match item with
  | .obj fields =>
    if (member? fields "role").isSome ∧ text? fields "role" ≠ some "user" then some false
    else if isUnhashable (member? fields "type") then none
    else if text? fields "type" = some "text" ∨ text? fields "type" = some "input_text" then some (text? fields "text").isSome
    else if text? fields "type" = some "input_image" then
      some ((fields.all fun field => field.1 ∈ ["type", "image_url", "detail"]) && (text? fields "image_url").any hasVisible &&
        ((member? fields "detail").isNone || text? fields "detail" ∈ ["auto", "low", "high", "original"].map some))
    else some false
  | _ => some false

/-- `any(not is_codex_user_content_item(item) for item in content_items)`. -/
def anyForeign : List JsonValue → Option Bool
  | [] => some false
  | item :: items => (isCodexUserContentItem item).bind fun own => if own then anyForeign items else some true

/-! ### Authorship -/

inductive Authorship where
  | valid
  | conflict
  /-- The checks raise, and the rest of the archive is not read. -/
  | raises
  deriving DecidableEq

def roleValues (record payload : Fields) : List (Option JsonValue) :=
  [member? record "role", member? payload "role"] ++
    match member? payload "message" with
    | some (.obj message) => [member? message "role"]
    | _ => []

/-- `declared_roles`, each of them once. -/
def declaredRoles (record payload : Fields) : List String :=
  let roles := (roleValues record payload).filterMap fun value => value.bind JsonValue.asStr?
  let outer := (text? record "type").toList.filter fun kind => kind ∈ ["user", "assistant", "tool"]
  let event :=
    if text? record "type" = some "event_msg" then
      if text? payload "type" = some "user_message" then ["user"]
      else if text? payload "type" = some "agent_message" then ["assistant"] else []
    else []
  (roles ++ outer ++ event).eraseDups

def isMalformedRole : Option JsonValue → Bool
  | none | some .null | some (.str _) => false
  | _ => true

def authorship (record payload : Fields) : Authorship :=
  if isUnhashable (member? record "type") then .raises
  else
    let declared := declaredRoles record payload
    let invalid := 1 < declared.length || (roleValues record payload).any isMalformedRole
    if declared = ["user"] then
      let foreign :=
        match member? payload "content" with
        | some (.arr items) => anyForeign items
        | _ => some false
      match foreign with
      | none => .raises
      | some foreign =>
        if invalid || foreign || (text? record "type" = some "event_msg" && (text? payload "message").isNone) then .conflict
        else .valid
    else if invalid then .conflict
    else .valid

/-! ### Turns -/

structure Turn where
  turnId : String
  user : String := ""
  assistant : List String := []
  tools : List (String × String) := []
  timestamp : JsonValue := .str ""

def Turn.isFilled (turn : Turn) : Bool := turn.user ≠ "" || turn.assistant ≠ [] || turn.tools ≠ []

/-- `value or other`. -/
def orElse (value : Option JsonValue) (other : JsonValue) : JsonValue := if (value.getD .null).truthy then value.getD .null else other

/-- `str(value or "")`. -/
def strOrEmpty (value : Option JsonValue) : String := (PyValue.ofJson (value.getD .null)).orEmpty containerRepr

structure SessionMeta where
  sessionId : JsonValue
  cwd : JsonValue := .str ""
  startTimestamp : JsonValue := .str ""

def implicitId (number : Nat) : String := "implicit-" ++ toString number

def unusedId (known : List String) : Nat → String → String
  | 0, id => id
  | rounds + 1, id => if id ∈ known then unusedId known rounds (id ++ "-next") else id

/-- `_ensure_turn`: the turns, and the place of the turn among them. Ids are texts. -/
def ensureTurn (turns : List Turn) (turnId : String) (boundary : Bool) : List Turn × Nat :=
  if turnId = "" ∧ turns ≠ [] ∧ boundary = false then (turns, turns.length - 1)
  else
    let known := turns.map (·.turnId)
    let actualId := if turnId = "" then unusedId known (known.length + 1) (implicitId (turns.length + 1)) else turnId
    match known.findIdx? (· = actualId) with
    | some place => (turns, place)
    | none => (turns ++ [{ turnId := actualId }], turns.length)

/-- `turn["user"] = (turn["user"] + "\n" + msg).strip()`. -/
def Turn.addUser (turn : Turn) (message : String) : Turn :=
  if message = "" then turn else { turn with user := stripped (turn.user ++ "\n" ++ message) }

def readEvent (payload : Fields) (turn : Turn) : Turn :=
  if text? payload "type" = some "user_message" then
    turn.addUser (sanitizeArchivedUserText (strOrEmpty containerRepr (member? payload "message")))
  else if text? payload "type" = some "agent_message" then
    let message := strOrEmpty containerRepr (member? payload "message")
    if message ≠ "" ∧ text? payload "phase" ∈ [some "commentary", some "final_answer"] then
      { turn with assistant := turn.assistant ++ [message] }
    else turn
  else turn

def readResponseItem (payload : Fields) (turn : Turn) : Option Turn :=
  if text? payload "type" = some "message" then
    (extractArchivedText isWord (member? payload "content")).map fun text =>
      if text? payload "role" = some "user" then turn.addUser (sanitizeArchivedUserText text)
      else if text? payload "role" = some "assistant" ∧ text ≠ "" then { turn with assistant := turn.assistant ++ [text] }
      else turn
  else if text? payload "type" = some "function_call" then
    some { turn with tools := turn.tools ++
      [(strOrEmpty containerRepr (member? payload "name"), strOrEmpty containerRepr (member? payload "arguments"))] }
  else some turn

def isUser (record payload : Fields) : Bool :=
  text? record "type" = some "event_msg" && text? payload "type" = some "user_message" ||
    text? record "type" = some "response_item" && text? payload "type" = some "message" && text? payload "role" = some "user"

structure Archive where
  session : SessionMeta
  turns : List Turn := []
  issues : List String := []
  /-- A record has raised. -/
  stopped : Bool := false

def readValid (archive : Archive) (record payload : Fields) : Archive :=
  let kind := text? record "type"
  let boundary := kind = some "turn_context" || isUser record payload && archive.turns.getLast?.any Turn.isFilled
  let (turns, place) := ensureTurn archive.turns ((text? payload "turn_id").getD "") boundary
  if kind = some "turn_context" then
    { archive with turns := turns.modify place fun turn => { turn with timestamp := orElse (member? payload "current_date") turn.timestamp } }
  else if kind = some "event_msg" then { archive with turns := turns.modify place (readEvent containerRepr payload) }
  else if kind = some "response_item" then
    match turns[place]?.bind (readResponseItem isWord containerRepr payload) with
    | some turn => { archive with turns := turns.set place turn }
    | none => { archive with turns := turns, issues := archive.issues ++ ["parse_failed"], stopped := true }
  else { archive with turns := turns }

/-- The body of the loop of `parse_codex_archive_jsonl_session`. -/
def readRecord (archive : Archive) (record : Fields) : Archive :=
  if archive.stopped then archive
  else
    match member? record "payload" with
    | some (.obj payload) =>
      if text? record "type" = some "session_meta" then
        { archive with session := {
          sessionId := orElse (member? payload "id") archive.session.sessionId
          cwd := orElse (member? payload "cwd") archive.session.cwd
          startTimestamp := orElse (member? payload "timestamp") archive.session.startTimestamp } }
      else
        match authorship record payload with
        | .raises => { archive with issues := archive.issues ++ ["parse_failed"], stopped := true }
        | .conflict => { archive with issues := archive.issues ++ ["author_conflict"] }
        | .valid => readValid isWord containerRepr archive record payload
    | _ => archive

/-- The turns of `parse_codex_archive_jsonl_session` before empty ones are cleaned up. -/
def readArchive (stem : String) (records : List Fields) : Archive :=
  records.foldl (readRecord isWord containerRepr) { session := { sessionId := .str stem } }

def parseCodexArchiveJsonlSession (stem : String) (records : List Fields) : SessionMeta × List Turn :=
  let archive := readArchive isWord containerRepr stem records
  (archive.session, archive.turns.filter fun turn => turn.user ≠ "" || turn.assistant ≠ [])

end

/-! ### The conversation -/

inductive Block where
  | user (text : String)
  | assistant (text : String)
  deriving DecidableEq

def renderTurn (turn : Turn) : List Block :=
  let user := stripped turn.user
  if user = "" then []
  else .user user :: ((turn.assistant.map stripped).filter (· ≠ "")).eraseDups.map .assistant

def conversationBlocks (turns : List Turn) : List Block := turns.flatMap renderTurn

end HarnessMem.Adapters
