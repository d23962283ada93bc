import HarnessMem.Library.Base64
import HarnessMem.Library.JsonText
import HarnessMem.Schemas.Knowledge

/-! Pages of a memory search: which entries a page holds, and the call that goes on
behind it.
-/

set_option autoImplicit false

namespace HarnessMem.Reading

open Library

structure MemoryRow where
  title : String
  statement : Option String
  projectName : Option String
  module : Option (List String)
  deriving DecidableEq, Repr

/-- `_title`, for an entry that is not titled otherwise. -/
def entryTitle (entry : KnowledgeEntry) : String :=
  let title := collapseSpaces entry.title.text
  if title = "" then "Project memory" else title

def projectMemoryEntries (entries : List KnowledgeEntry) (includeProject includeModules : Bool) : List MemoryRow :=
  entries.filterMap fun entry =>
    let statement := stripped entry.statement.text
    if statement = "" then none
    else some
      { title := entryTitle entry
        statement := some statement
        projectName := if includeProject then some (collapseSpaces entry.projectName.text) else none
        module := if includeModules then some (entry.modulePath.map (·.text)) else none }

structure Continuation where
  query : String
  scope : String
  cursor : String
  budgetTokens : Nat
  projectName : Option String
  full : Bool := false
  deriving DecidableEq, Repr

structure ReadingInfo where
  message : Option String := none
  availableCount : Option Nat := none
  total : Option Nat := none
  detail : Option String := none
  continuation : Option Continuation := none
  deriving DecidableEq, Repr

inductive PageStatus where
  | available | answered | empty
  deriving DecidableEq, Repr

def PageStatus.value : PageStatus → String
  | .available => "available"
  | .answered => "answered"
  | .empty => "empty"

structure Payload where
  projectName : Option String
  query : String
  status : PageStatus
  memories : List MemoryRow
  reading : ReadingInfo
  /-- The call without the project filter, offered when nothing matched within it. -/
  retryWithoutProjectFilter : Bool := false
  deriving DecidableEq, Repr

/-! ### The payload as JSON -/

def optionalField {α : Type} (key : String) (toJson : α → JsonValue) (value : Option α) : List (String × JsonValue) :=
  (value.map fun value => (key, toJson value)).toList

def MemoryRow.toJson (row : MemoryRow) : JsonValue :=
  .obj ([("title", .str row.title)] ++ optionalField "statement" .str row.statement ++
    optionalField "project_name" .str row.projectName ++
    optionalField "module" (fun parts : List String => .arr (parts.map .str)) row.module)

def Continuation.toJson (continuation : Continuation) : JsonValue :=
  .obj
    [("tool", .str "search_memory"),
      ("arguments", .obj
        ([("query", .str continuation.query), ("scope", .str continuation.scope), ("cursor", .str continuation.cursor),
            ("budget_tokens", .int continuation.budgetTokens)] ++
          optionalField "project_name" .str continuation.projectName ++
          (if continuation.full then [("detail", .str "full")] else [])))]

def ReadingInfo.fields (info : ReadingInfo) : List (String × JsonValue) :=
  optionalField "message" .str info.message ++
    optionalField "available_count" (fun count : Nat => .int count) info.availableCount ++
    optionalField "total" (fun count : Nat => .int count) info.total ++
    optionalField "detail" .str info.detail ++
    optionalField "continuation" Continuation.toJson info.continuation

def Payload.toJson (payload : Payload) : JsonValue :=
  .obj
    ([("project_name", payload.projectName.elim .null .str), ("query", .str payload.query),
        ("status", .str payload.status.value), ("memories", .arr (payload.memories.map MemoryRow.toJson))] ++
      payload.reading.fields ++
      if payload.retryWithoutProjectFilter then
        [("retry_without_project_filter", .obj
          [("only_if", .str "user_did_not_request_project_only"), ("tool", .str "search_memory"),
            ("arguments", .obj [("query", .str payload.query), ("scope", .str "all")])])]
      else [])

def byteLength (text : List Char) : Nat := (encodeUtf8 (String.ofList text)).length

/-- `reading_tokens` without a tokenizer: the bytes of the serialized result. -/
def readingTokens (payload : Payload) : Nat := byteLength (payload.toJson.dumps false)

/-! ### The cursor -/

def encodeCursor (position : Nat) (requestKey revision : String) : String :=
  let text := (JsonValue.arr [.int position, .str requestKey, .str revision]).dumps true
  String.ofList (stripEnd '=' (urlsafeB64encode ((encodeUtf8 (String.ofList text)).map UInt8.toNat)))

def decodeCursor (cursor : String) : Option (Nat × JsonValue × JsonValue) := do
  let bytes ← urlsafeB64decode (cursor.toList ++ padding cursor.toList)
  let text ← decodeUtf8 (bytes.map UInt8.ofNat)
  match ← loads text.toList with
  | .arr [.int (.ofNat position), request, revision] => some (position, request, revision)
  | _ => none

def isText (text : String) : JsonValue → Bool
  | .str value => value = text
  | _ => false

/-! ### Choosing a page -/

def changedMessage : String := "Memory changed; showing the current first page."

/-- What `select_memory_page` is called with. -/
structure PageRequest where
  entries : List KnowledgeEntry
  query : String
  projectName : Option String
  scope : String
  budgetTokens : Int
  cursor : Option String := none
  detail : String := "auto"
  availabilityOnly : Bool := false

section

variable (hashes : Hashes)

def PageRequest.requestKey (request : PageRequest) : String :=
  sliceTo 24 (hashes.sha256Text (String.ofList
    ((JsonValue.arr [.str request.scope, request.projectName.elim .null .str, .str request.query]).dumpsSpaced false)))

def PageRequest.revision (request : PageRequest) : String :=
  sliceTo 24 (hashes.sha256Text (String.ofList
    ((JsonValue.arr (request.entries.map fun entry =>
      .arr [.str entry.id, .str entry.projectName.text, .str entry.title.text, .str entry.statement.text,
        .arr (entry.modulePath.map fun part => .str part.text)])).dumpsSpaced false)))

def PageRequest.linkPayload (request : PageRequest) (arguments : Continuation) : Payload where
  projectName := request.projectName
  query := request.query
  status := .available
  memories := []
  reading :=
    { message := some changedMessage
      total := some request.entries.length
      detail := some "index"
      continuation := some { arguments with full := true } }

def PageRequest.widen (request : PageRequest) : Nat → Continuation → Continuation
  | 0, arguments => arguments
  | rounds + 1, arguments =>
    let minimum := readingTokens (request.linkPayload arguments)
    if minimum ≤ arguments.budgetTokens then arguments
    else request.widen rounds { arguments with budgetTokens := minimum }

def PageRequest.arguments (request : PageRequest) (position : Nat) : Continuation where
  query := request.query
  scope := request.scope
  cursor := encodeCursor position (request.requestKey hashes) (request.revision hashes)
  budgetTokens := request.budgetTokens.toNat
  projectName := request.projectName

def PageRequest.continuation (request : PageRequest) (position : Nat) (full : Bool) : Continuation :=
  if full then { request.arguments hashes position with full := true }
  else request.widen 4 (request.arguments hashes position)

def PageRequest.metadata (request : PageRequest) (notice : Option String) (stop : Nat) : ReadingInfo :=
  if stop < request.entries.length then
    { message := notice, total := some request.entries.length, continuation := some (request.continuation hashes stop false) }
  else { message := notice }

def PageRequest.position (request : PageRequest) : Except String (Nat × Option String) :=
  match request.cursor with
  | none => .ok (0, none)
  | some cursor =>
    if cursor = "" then .ok (0, none)
    else match decodeCursor cursor with
      | none => .error "Reading position is invalid; start this search again."
      | some (position, previousRequest, previousRevision) =>
        if !isText (request.requestKey hashes) previousRequest then
          .error "Reading position belongs to a different query or scope."
        else if isText (request.revision hashes) previousRevision then
          if request.entries.length < position then .error "Reading position is outside the current results."
          else .ok (position, none)
        else .ok (0, some changedMessage)

def greedy (fits : List KnowledgeEntry → Bool) : List KnowledgeEntry → List KnowledgeEntry → List KnowledgeEntry
  | selected, [] => selected
  | selected, entry :: rest => if fits (selected ++ [entry]) then greedy fits (selected ++ [entry]) rest else selected

abbrev Selection := List KnowledgeEntry × ReadingInfo × Bool

/-- `select_memory_page`. `tokens` measures what the caller makes of a selection. -/
def selectMemoryPage (request : PageRequest) (tokens : Selection → Nat) : Except String Selection :=
  if request.detail ≠ "auto" ∧ request.detail ≠ "full" then .error "detail must be auto or full"
  else if request.budgetTokens < 1 then .error "budget_tokens must be positive"
  else do
    let (offset, notice) ← request.position hashes
    let fits (selection : Selection) : Bool := tokens selection ≤ request.budgetTokens.toNat
    let tooSmall : Except String Selection := .error "budget_tokens is too small to return a reading link."
    let rest := request.entries.drop offset
    let whole := (rest, request.metadata hashes notice request.entries.length, false)
    let page (selected : List KnowledgeEntry) : Selection :=
      (selected, request.metadata hashes notice (offset + selected.length), false)
    if request.availabilityOnly ∧ request.entries ≠ [] then
      let info : ReadingInfo :=
        { message := notice
          availableCount := some request.entries.length
          continuation := some (request.continuation hashes 0 false) }
      if fits ([], info, false) then .ok ([], info, false) else tooSmall
    else if request.detail = "full" then
      let selected := rest.take 1
      .ok (selected, { request.metadata hashes notice (offset + selected.length) with detail := some "full" }, false)
    else if fits whole then .ok whole
    else
      let selected := greedy (fun candidate => fits (page candidate)) [] rest
      if selected ≠ [] then .ok (page selected)
      else if offset < request.entries.length then
        let info : ReadingInfo :=
          { message := notice
            total := some request.entries.length
            detail := some "index"
            continuation := some (request.continuation hashes offset true) }
        if fits (rest.take 1, info, true) then .ok (rest.take 1, info, true)
        else if fits ([], info, true) then .ok ([], info, true)
        else tooSmall
      else tooSmall

end

end HarnessMem.Reading

/-! The search tool over the current knowledge of a backend, without diagnostics. -/

namespace HarnessMem.Reading

open Library

/-- The current knowledge as the tool reads it, each reading `none` where the storage fails. -/
structure SearchBackend where
  ready : Bool
  search : Option String → String → Option (List KnowledgeEntry)
  list : Option String → Option (List KnowledgeEntry)
  /-- The configured budget of a search. -/
  budget : Option String → Int

structure SearchCall where
  query : String
  projectName : Option String := none
  scope : String := "all"
  budgetTokens : Option Int := none
  cursor : Option String := none
  detail : String := "auto"
  deriving DecidableEq, Repr

inductive SearchResult where
  | failure (error : String)
  | unavailable (projectName : Option String) (query reason : String)
  | invalid (projectName : Option String) (query reason : String)
  | page (payload : Payload)

def SearchResult.payload? : SearchResult → Option Payload
  | .page payload => some payload
  | _ => none

theorem SearchResult.payload?_eq_some {result : SearchResult} {payload : Payload} :
    result.payload? = some payload ↔ result = .page payload := by
  cases result <;> simp [payload?]

def SearchCall.selectedProject (call : SearchCall) : Option String :=
  if call.scope = "project" then call.projectName else none

def SearchBackend.entries (backend : SearchBackend) (call : SearchCall) : Option (List KnowledgeEntry) :=
  if stripped call.query ≠ "" then backend.search call.selectedProject (stripped call.query)
  else backend.list call.selectedProject

def SearchBackend.resolveReadBudget (backend : SearchBackend) (call : SearchCall) : Int :=
  call.budgetTokens.getD (backend.budget call.projectName)

def noMatchMessage : String :=
  "No match within this project filter. A task about a project can use global knowledge. " ++
    "Unless the user requested project-only memory, repeat this query with scope='all' before changing keywords."

def buildPayload (call : SearchCall) (entries : List KnowledgeEntry) (selection : Selection) : Payload :=
  let (page, reading, index) := selection
  let query := stripped call.query
  let memories := projectMemoryEntries page (call.scope = "all") (query = "")
  let memories := if index then memories.map fun row => { row with statement := none } else memories
  let noMatch : Bool := call.scope = "project" && query ≠ "" && entries.isEmpty
  { projectName := call.selectedProject
    query
    status := if index then .available else if memories ≠ [] then .answered else .empty
    memories
    reading := if noMatch then { reading with message := some noMatchMessage } else reading
    retryWithoutProjectFilter := noMatch }

def SearchBackend.request (backend : SearchBackend) (call : SearchCall) (entries : List KnowledgeEntry) : PageRequest where
  entries
  query := stripped call.query
  projectName := call.selectedProject
  scope := call.scope
  budgetTokens := backend.resolveReadBudget call
  cursor := call.cursor
  detail := call.detail

def toolSearchMemory (hashes : Hashes) (backend : SearchBackend) (call : SearchCall) : SearchResult :=
  if call.scope ≠ "all" ∧ call.scope ≠ "project" then .failure "scope must be project or all"
  else if call.scope = "project" ∧ call.projectName.getD "" = "" then
    .failure "project_name is required when scope=project"
  else if !backend.ready then
    .unavailable call.selectedProject (stripped call.query) "Memory storage is not ready. Run harness-mem doctor."
  else
    match backend.entries call with
    | none =>
      .unavailable call.selectedProject (stripped call.query)
        "Current memory could not be read. Run harness-mem doctor before retrying."
    | some entries =>
      match selectMemoryPage hashes (backend.request call entries)
          fun selection => readingTokens (buildPayload call entries selection) with
      | .error reason => .invalid call.selectedProject (stripped call.query) reason
      | .ok selection => .page (buildPayload call entries selection)

def Continuation.call (continuation : Continuation) : SearchCall where
  query := continuation.query
  projectName := continuation.projectName
  scope := continuation.scope
  budgetTokens := some continuation.budgetTokens
  cursor := some continuation.cursor
  detail := if continuation.full then "full" else "auto"

structure ReadPage where
  call : SearchCall
  payload : Payload
  deriving DecidableEq, Repr

/-- Pages read one after another, each by the continuation of the one before, up to one without any. -/
inductive Reads (hashes : Hashes) (backend : SearchBackend) : SearchCall → List ReadPage → Prop where
  | last {call : SearchCall} {payload : Payload} : toolSearchMemory hashes backend call = .page payload →
      payload.reading.continuation = none → Reads hashes backend call [⟨call, payload⟩]
  | next {call : SearchCall} {payload : Payload} {continuation : Continuation} {rest : List ReadPage} :
      toolSearchMemory hashes backend call = .page payload → payload.reading.continuation = some continuation →
      Reads hashes backend continuation.call rest → Reads hashes backend call (⟨call, payload⟩ :: rest)

def Payload.bodies (payload : Payload) : List String := payload.memories.filterMap (·.statement)

end HarnessMem.Reading
