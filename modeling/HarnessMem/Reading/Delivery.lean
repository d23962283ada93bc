import HarnessMem.Library.Numerals
import HarnessMem.Reading.Search

/-! Reading on by the continuation of every page returns each entry once, in order. -/

set_option autoImplicit false

namespace HarnessMem.Reading

open Library

/-! ### Sizes -/

@[simp] theorem byteLength_nil : byteLength [] = 0 := rfl

@[simp] theorem byteLength_append (first second : List Char) :
    byteLength (first ++ second) = byteLength first + byteLength second := by
  simp [byteLength, encodeUtf8_append]

@[simp] theorem byteLength_cons (c : Char) (text : List Char) : byteLength (c :: text) = c.utf8Size + byteLength text := by
  have single : byteLength [c] = c.utf8Size := by
    simp [byteLength, encodeUtf8, List.utf8Encode_singleton]
  rw [← List.singleton_append, byteLength_append, single]

theorem byteLength_dumpsInt (n : Nat) : byteLength (dumpsInt n) = numeralLength n := by
  have digits : ∀ c ∈ Nat.toDigits 10 n, c.utf8Size = 1 := by
    intro c member
    have digit : c.isDigit = true := Nat.isDigit_of_mem_toDigits (by decide) (by decide) member
    apply Char.utf8Size_eq_one_iff.mpr
    simp only [Char.isDigit, Bool.and_eq_true, decide_eq_true_eq] at digit
    exact UInt32.le_trans digit.2 (by decide)
  have count : ∀ text : List Char, (∀ c ∈ text, c.utf8Size = 1) → byteLength text = text.length := by
    intro text ascii
    induction text with
    | nil => rfl
    | cons c text ih =>
      have one := ascii c List.mem_cons_self
      have others := ih fun d member => ascii d (List.mem_cons_of_mem _ member)
      simp only [byteLength_cons, one, others, List.length_cons]
      omega
  exact count _ digits

def weight (fields : List (String × JsonValue)) : Nat := byteLength (JsonValue.dumpsFields false fields)

theorem byteLength_obj (field : String × JsonValue) (fields : List (String × JsonValue)) :
    byteLength ((JsonValue.obj (field :: fields)).dumps false) = weight (field :: fields) := by
  have braces : '{'.utf8Size = ','.utf8Size := by decide
  simp [weight, JsonValue.dumps, JsonValue.dumpsFields, braces]

theorem weight_cons (key : String) (value : JsonValue) (fields : List (String × JsonValue)) :
    weight ((key, value) :: fields) =
      byteLength (dumpsString false key) + byteLength (value.dumps false) + 2 + weight fields := by
  have separators : ','.utf8Size = 1 ∧ ':'.utf8Size = 1 := by decide
  simp only [weight, JsonValue.dumpsFields, byteLength_cons, byteLength_append, separators.1, separators.2]
  omega

/-! ### The cursor is read back -/

theorem decodeCursor_encodeCursor (position : Nat) (requestKey revision : String) :
    decodeCursor (encodeCursor position requestKey revision) = some (position, .str requestKey, .str revision) := by
  generalize written : (JsonValue.arr [.int position, .str requestKey, .str revision]).dumps true = text
  have small : ∀ byte ∈ (encodeUtf8 (String.ofList text)).map UInt8.toNat, byte < 256 := by
    intro byte member
    obtain ⟨other, _, rfl⟩ := List.mem_map.mp member
    exact other.toNat_lt
  have back : ((encodeUtf8 (String.ofList text)).map UInt8.toNat).map UInt8.ofNat = encodeUtf8 (String.ofList text) := by
    rw [List.map_map]
    exact (List.map_congr_left fun byte _ => UInt8.ofNat_toNat).trans (List.map_id _)
  have read : loads text = some (JsonValue.arr [.int position, .str requestKey, .str revision]) := by
    rw [← written]
    exact loads_dumps true (by simp [JsonValue.distinct, JsonValue.distinctItems])
  unfold decodeCursor encodeCursor
  dsimp only
  rw [written, String.toList_ofList, urlsafeB64decode_encode small]
  simp only [Option.bind_eq_bind, Option.bind_some, back, decodeUtf8_encodeUtf8, String.toList_ofList, read]

/-! ### Room for a link -/

theorem byteLength_int (n : Nat) : byteLength ((JsonValue.int n).dumps false) = numeralLength n :=
  byteLength_dumpsInt n

theorem continuation_size (arguments : Continuation) (b c : Nat) :
    byteLength (({ arguments with budgetTokens := b } : Continuation).toJson.dumps false) + numeralLength c =
      byteLength (({ arguments with budgetTokens := c } : Continuation).toJson.dumps false) + numeralLength b := by
  simp only [Continuation.toJson, byteLength_obj, weight_cons, List.cons_append, byteLength_int]
  omega

variable {hashes : Hashes}

theorem linkPayload_size (request : PageRequest) (arguments : Continuation) (b c : Nat) :
    readingTokens (request.linkPayload { arguments with budgetTokens := b }) + numeralLength c =
      readingTokens (request.linkPayload { arguments with budgetTokens := c }) + numeralLength b := by
  have inner := continuation_size { arguments with full := true } b c
  dsimp only at inner
  simp only [readingTokens, Payload.toJson, PageRequest.linkPayload, ReadingInfo.fields, optionalField, List.cons_append,
    byteLength_obj, weight_cons, Option.map_some, Option.toList_some, Option.map_none, Option.toList_none, List.nil_append,
    Bool.false_eq_true, if_false]
  omega

theorem widen_eq (request : PageRequest) (rounds : Nat) (arguments : Continuation) :
    request.widen rounds arguments =
      { arguments with
        budgetTokens := raiseTo (fun b => readingTokens (request.linkPayload { arguments with budgetTokens := b })) rounds
          arguments.budgetTokens } := by
  induction rounds generalizing arguments with
  | zero => rfl
  | succ rounds ih =>
    unfold PageRequest.widen raiseTo
    dsimp only
    split
    · rfl
    · rw [ih]

theorem widen_room (request : PageRequest) (arguments : Continuation) :
    readingTokens (request.linkPayload (request.widen 4 arguments)) ≤ (request.widen 4 arguments).budgetTokens := by
  generalize linked : (fun b => readingTokens (request.linkPayload { arguments with budgetTokens := b })) = minimum
  have own : ∀ b c, minimum b + numeralLength c = minimum c + numeralLength b := by
    rw [← linked]
    exact linkPayload_size request arguments
  have settles := raiseTo_settles own arguments.budgetTokens
  have value : ∀ b, minimum b = readingTokens (request.linkPayload { arguments with budgetTokens := b }) := by
    intro b
    rw [← linked]
  rw [widen_eq, linked]
  rw [value] at settles
  exact settles

theorem continuation_widen (request : PageRequest) (position : Nat) :
    request.continuation hashes position false = request.widen 4 (request.arguments hashes position) := by
  unfold PageRequest.continuation
  rw [if_neg Bool.false_ne_true]

theorem continuation_room (request : PageRequest) (position : Nat) :
    readingTokens (request.linkPayload (request.continuation hashes position false)) ≤
      (request.continuation hashes position false).budgetTokens := by
  rw [continuation_widen]
  exact widen_room request (request.arguments hashes position)

theorem bareLink_size (request : PageRequest) (arguments : Continuation) :
    readingTokens
        { projectName := request.projectName
          query := request.query
          status := .available
          memories := []
          reading :=
            { total := some request.entries.length
              detail := some "index"
              continuation := some { arguments with full := true } } } ≤
      readingTokens (request.linkPayload arguments) := by
  simp only [readingTokens, Payload.toJson, PageRequest.linkPayload, ReadingInfo.fields, optionalField, List.cons_append,
    byteLength_obj, weight_cons, Option.map_some, Option.toList_some, Option.map_none, Option.toList_none, List.nil_append,
    Bool.false_eq_true, if_false]
  omega

/-! ### One page -/

/-- A continuation that the tool has written for a position in these results. -/
structure Ready (hashes : Hashes) (request : PageRequest) (position : Nat) (continuation : Continuation) : Prop where
  query : continuation.query = request.query
  scope : continuation.scope = request.scope
  projectName : continuation.projectName = request.projectName
  cursor : continuation.cursor = encodeCursor position (request.requestKey hashes) (request.revision hashes)
  inside : position < request.entries.length
  positive : 1 ≤ continuation.budgetTokens
  room : continuation.full = false → readingTokens (request.linkPayload continuation) ≤ continuation.budgetTokens

theorem ready_continuation (request : PageRequest) (positive : 1 ≤ request.budgetTokens) {position : Nat}
    (inside : position < request.entries.length) (full : Bool) :
    Ready hashes request position (request.continuation hashes position full) := by
  have start : 1 ≤ request.budgetTokens.toNat := by omega
  cases full with
  | true => exact ⟨rfl, rfl, rfl, rfl, inside, start, fun closed => by cases closed⟩
  | false =>
    have room := @continuation_room hashes request position
    rw [continuation_widen, widen_eq] at room ⊢
    exact ⟨rfl, rfl, rfl, rfl, inside, le_trans start (le_raiseTo _ _ _), fun _ => room⟩

theorem greedy_spec (fits : List KnowledgeEntry → Bool) (rest : List KnowledgeEntry) :
    ∀ selected, ∃ count, greedy fits selected rest = selected ++ rest.take count ∧
      (rest.take count ≠ [] → fits (selected ++ rest.take count) = true) := by
  induction rest with
  | nil =>
    intro selected
    exact ⟨0, by simp [greedy], by simp⟩
  | cons entry rest ih =>
    intro selected
    unfold greedy
    split
    · next fit =>
      obtain ⟨count, same, closed⟩ := ih (selected ++ [entry])
      refine ⟨count + 1, by rw [same, List.take_succ_cons, List.append_assoc, List.singleton_append], fun _ => ?_⟩
      rw [List.take_succ_cons, ← List.singleton_append, ← List.append_assoc]
      by_cases none : rest.take count = []
      · rw [none, List.append_nil]
        exact fit
      · exact closed none
    · exact ⟨0, by simp, by simp⟩

/-- What a page from a position holds and where it goes on. -/
inductive PageOf (hashes : Hashes) (request : PageRequest) (position : Nat) : Selection → Prop where
  /-- Whole entries, up to the end or with a continuation behind them. -/
  | whole {selection : Selection} (count : Nat) (progress : 1 ≤ count) (body : selection.2.2 = false)
      (entries : selection.1 = (request.entries.drop position).take count)
      (ends : request.entries.length ≤ position + count → selection.2.1.continuation = none)
      (goesOn : position + count < request.entries.length →
        selection.2.1.continuation = some (request.continuation hashes (position + count) false)) :
      PageOf hashes request position selection
  /-- At most a title, with a call for the whole entry. -/
  | index {selection : Selection} (auto : request.detail = "auto") (index : selection.2.2 = true)
      (goesOn : selection.2.1.continuation = some (request.continuation hashes position true)) :
      PageOf hashes request position selection

variable {position : Nat} {selection : Selection}

theorem metadata_whole (request : PageRequest) {count stop : Nat} (progress : 1 ≤ count)
    (inside : position < request.entries.length) (stopped : stop = position + ((request.entries.drop position).take count).length) (body : selection.2.2 = false)
    (entries : selection.1 = (request.entries.drop position).take count)
    (info : selection.2.1.continuation = (request.metadata hashes none stop).continuation) :
    PageOf hashes request position selection := by
  have length : ((request.entries.drop position).take count).length = min count (request.entries.length - position) := by
    simp
  apply PageOf.whole count progress body entries
  · intro ended
    rw [info]
    unfold PageRequest.metadata
    rw [if_neg (by omega)]
  · intro more
    have here : stop = position + count := by omega
    rw [info, here]
    unfold PageRequest.metadata
    rw [if_pos more]

theorem selectMemoryPage_spec (request : PageRequest) (tokens : Selection → Nat)
    (open' : request.availabilityOnly = false) (placed : request.position hashes = .ok (position, none))
    (inside : position < request.entries.length) (chosen : selectMemoryPage hashes request tokens = .ok selection) :
    PageOf hashes request position selection ∧
      (request.detail = "auto" → tokens selection ≤ request.budgetTokens.toNat) := by
  unfold selectMemoryPage at chosen
  split at chosen
  · cases chosen
  split at chosen
  · cases chosen
  rw [placed] at chosen
  simp only [open', Bool.false_eq_true, false_and, if_false, bind, Except.bind] at chosen
  split at chosen
  · -- one whole entry, whatever its size
    next full =>
    obtain rfl := Except.ok.inj chosen
    refine ⟨metadata_whole request (le_refl 1) inside rfl rfl rfl rfl, fun auto => ?_⟩
    rw [full] at auto
    exact absurd auto (by decide)
  split at chosen
  · -- everything that is left
    next fit =>
    obtain rfl := Except.ok.inj chosen
    refine ⟨PageOf.whole (request.entries.length - position) (by omega) rfl ?_ ?_ (by omega), fun _ => by simpa using fit⟩
    · exact (List.take_of_length_le (by simp)).symm
    · intro _
      simp [PageRequest.metadata]
  · obtain ⟨count, same, closed⟩ := greedy_spec
      (fun candidate => decide (tokens (candidate, request.metadata hashes none (position + candidate.length), false) ≤
        request.budgetTokens.toNat)) (request.entries.drop position) []
    rw [same, List.nil_append] at chosen
    split at chosen
    · -- the longest prefix that fits
      next some =>
      obtain rfl := Except.ok.inj chosen
      have progress : 1 ≤ count := by
        cases count with
        | zero => exact absurd (List.take_zero) some
        | succ count => omega
      refine ⟨metadata_whole request progress inside rfl rfl rfl rfl, fun _ => ?_⟩
      simpa using closed some
    · have auto : request.detail = "auto" := by
        by_contra other
        exact ‹¬ (_ ∧ _)› ⟨other, ‹¬ request.detail = "full"›⟩
      split at chosen
      · -- a title with its call
        next fit =>
        obtain rfl := Except.ok.inj chosen
        exact ⟨.index auto rfl rfl, fun _ => by simpa using fit⟩
      · split at chosen
        · -- the call alone
          next fit =>
          obtain rfl := Except.ok.inj chosen
          exact ⟨.index auto rfl rfl, fun _ => by simpa using fit⟩
        · cases chosen

variable (hashes) in
def PageRequest.bareLink (request : PageRequest) (position : Nat) : Selection :=
  ([], { total := some request.entries.length
         detail := some "index"
         continuation := some (request.continuation hashes position true) }, true)

theorem selectMemoryPage_succeeds (request : PageRequest) (tokens : Selection → Nat)
    (open' : request.availabilityOnly = false) (placed : request.position hashes = .ok (position, none))
    (inside : position < request.entries.length) (positive : 1 ≤ request.budgetTokens)
    (detail : request.detail = "full" ∨ (request.detail = "auto" ∧
      tokens (request.bareLink hashes position) ≤ request.budgetTokens.toNat)) :
    ∃ selection, selectMemoryPage hashes request tokens = .ok selection := by
  have known : ¬ (request.detail ≠ "auto" ∧ request.detail ≠ "full") := by
    rcases detail with full | ⟨auto, _⟩
    · exact fun both => both.2 full
    · exact fun both => both.1 auto
  have enough : ¬ request.budgetTokens < 1 := by omega
  unfold selectMemoryPage
  rw [if_neg known, if_neg enough, placed]
  simp only [open', Bool.false_eq_true, false_and, if_false, bind, Except.bind]
  split
  · exact ⟨_, rfl⟩
  split
  · exact ⟨_, rfl⟩
  split
  · exact ⟨_, rfl⟩
  split
  · exact ⟨_, rfl⟩
  split
  · exact ⟨_, rfl⟩
  · next full _ _ _ tight =>
    rcases detail with whole | ⟨_, room⟩
    · exact absurd whole full
    · exact absurd (decide_eq_true room) tight

/-! ### Bodies -/

theorem projectMemoryEntries_bodies (entries : List KnowledgeEntry) (includeProject includeModules : Bool) :
    (projectMemoryEntries entries includeProject includeModules).filterMap (·.statement) =
      entries.map (·.statement.text) := by
  induction entries with
  | nil => rfl
  | cons entry entries ih =>
    have shown : stripped entry.statement.text = entry.statement.text := entry.statement.stripped
    have filled : entry.statement.text ≠ "" := entry.statement.filled
    unfold projectMemoryEntries at ih ⊢
    simp [shown, filled, ih]

theorem buildPayload_bodies (call : SearchCall) (entries : List KnowledgeEntry) (selection : Selection) :
    (buildPayload call entries selection).bodies =
      if selection.2.2 then [] else selection.1.map (·.statement.text) := by
  obtain ⟨page, reading, index⟩ := selection
  cases index with
  | true => simp [Payload.bodies, buildPayload, List.filterMap_map]
  | false => exact projectMemoryEntries_bodies page _ _

theorem buildPayload_reading (call : SearchCall) {entries : List KnowledgeEntry} (filled : entries ≠ [])
    (selection : Selection) : (buildPayload call entries selection).reading = selection.2.1 := by
  obtain ⟨page, reading, index⟩ := selection
  have present : entries.isEmpty = false := by simpa using filled
  simp [buildPayload, present]

/-! ### Reading on -/

/-- What is fixed while a search is read: the entries it finds and the calls it is made with. -/
structure Searching (backend : SearchBackend) (start : SearchCall) (entries : List KnowledgeEntry) : Prop where
  ready : backend.ready = true
  found : backend.entries start = some entries
  filled : entries ≠ []
  scope : start.scope = "all" ∨ start.scope = "project"
  project : start.scope = "project" → start.projectName.getD "" ≠ ""

def firstRequest (backend : SearchBackend) (start : SearchCall) (entries : List KnowledgeEntry) : PageRequest :=
  backend.request start entries

variable {backend : SearchBackend} {start : SearchCall} {entries : List KnowledgeEntry}

variable {continuation : Continuation}

theorem request_ready (searching : Searching backend start entries)
    (ready : Ready hashes (firstRequest backend start entries) position continuation) :
    Searching backend continuation.call entries ∧
      backend.request continuation.call entries =
        { firstRequest backend start entries with
          budgetTokens := continuation.budgetTokens
          cursor := some continuation.cursor
          detail := if continuation.full then "full" else "auto" } := by
  have query : stripped continuation.call.query = stripped start.query := by
    change stripped continuation.query = _
    rw [ready.query]
    exact stripped_stripped start.query
  have selected : continuation.call.selectedProject = start.selectedProject := by
    have scope : continuation.scope = start.scope := ready.scope
    have project : continuation.projectName = start.selectedProject := ready.projectName
    unfold SearchCall.selectedProject at project ⊢
    simp only [Continuation.call, scope, project]
    split <;> rfl
  constructor
  · constructor
    · exact searching.ready
    · have found := searching.found
      unfold SearchBackend.entries at found ⊢
      rw [query, selected]
      exact found
    · exact searching.filled
    · rw [show continuation.call.scope = start.scope from ready.scope]
      exact searching.scope
    · intro chosen
      have scope : start.scope = "project" := (show continuation.call.scope = start.scope from ready.scope) ▸ chosen
      have project : continuation.projectName = start.selectedProject := ready.projectName
      change continuation.projectName.getD "" ≠ ""
      rw [project, SearchCall.selectedProject, if_pos scope]
      exact searching.project scope
  · simp only [SearchBackend.request, firstRequest, query, selected, SearchBackend.resolveReadBudget]
    simp only [Continuation.call, Option.getD_some]
    rw [show continuation.scope = start.scope from ready.scope]

theorem toolSearchMemory_eq (searching : Searching backend start entries)
    (chosen : selectMemoryPage hashes (firstRequest backend start entries)
      (fun selection => readingTokens (buildPayload start entries selection)) = .ok selection) :
    toolSearchMemory hashes backend start = .page (buildPayload start entries selection) := by
  have scope : ¬ (start.scope ≠ "all" ∧ start.scope ≠ "project") := by
    rcases searching.scope with all | project
    · exact fun both => both.1 all
    · exact fun both => both.2 project
  have named : ¬ (start.scope = "project" ∧ start.projectName.getD "" = "") := fun both =>
    searching.project both.1 both.2
  unfold firstRequest at chosen
  unfold toolSearchMemory
  rw [if_neg scope, if_neg named, searching.ready, searching.found]
  simp [chosen]

theorem toolSearchMemory_page {payload : Payload} (succeeds : toolSearchMemory hashes backend start = .page payload)
    (found : backend.entries start = some entries) (filled : entries ≠ []) :
    Searching backend start entries ∧ ∃ selection,
      selectMemoryPage hashes (firstRequest backend start entries)
        (fun selection => readingTokens (buildPayload start entries selection)) = .ok selection ∧
      payload = buildPayload start entries selection := by
  unfold toolSearchMemory at succeeds
  split at succeeds
  · cases succeeds
  split at succeeds
  · cases succeeds
  split at succeeds
  · cases succeeds
  next scope named ready =>
  rw [found] at succeeds
  dsimp only at succeeds
  split at succeeds
  · cases succeeds
  next selection chosen =>
  have searching : Searching backend start entries := by
    refine ⟨by simpa using ready, found, filled, ?_, fun project => fun empty => named ⟨project, empty⟩⟩
    by_contra neither
    exact scope ⟨fun all => neither (.inl all), fun project => neither (.inr project)⟩
  exact ⟨searching, selection, chosen, (SearchResult.page.inj succeeds).symm⟩

theorem position_ready {request : PageRequest}
    (ready : Ready hashes request position continuation) (budget : Int) (detail : String) :
    ({ request with budgetTokens := budget, cursor := some continuation.cursor, detail } : PageRequest).position hashes =
      .ok (position, none) := by
  have written : continuation.cursor ≠ "" := by
    intro empty
    have read := decodeCursor_encodeCursor position (request.requestKey hashes) (request.revision hashes)
    rw [← ready.cursor, empty] at read
    have none : (decodeCursor "").isSome = false := by decide
    rw [read] at none
    cases none
  generalize later : ({ request with budgetTokens := budget, cursor := some continuation.cursor, detail } : PageRequest) = next
  have cursor : next.cursor = some continuation.cursor := by rw [← later]
  have length : next.entries.length = request.entries.length := by rw [← later]
  have key : next.requestKey hashes = request.requestKey hashes := by rw [← later]; rfl
  have revision : next.revision hashes = request.revision hashes := by rw [← later]; rfl
  have inside := ready.inside
  have within : ¬ request.entries.length < position := by omega
  unfold PageRequest.position
  rw [cursor]
  dsimp only
  rw [if_neg written, ready.cursor, decodeCursor_encodeCursor]
  simp [key, revision, length, isText, within]

theorem bareLink_fits (searching : Searching backend start entries)
    (ready : Ready hashes (firstRequest backend start entries) position continuation) (auto : continuation.full = false) :
    readingTokens (buildPayload continuation.call entries
      ((backend.request continuation.call entries).bareLink hashes position)) ≤ continuation.budgetTokens := by
  obtain ⟨_, same⟩ := request_ready searching ready
  have goesOn : (backend.request continuation.call entries).continuation hashes position true =
      { continuation with full := true } := by
    obtain ⟨query, scope, projectName, cursor, _, _, _⟩ := ready
    rw [same]
    unfold PageRequest.continuation
    simp only [if_true]
    rw [query, scope, projectName, cursor]
    rfl
  have present : entries.isEmpty = false := by simpa using searching.filled
  have selected : continuation.call.selectedProject = (firstRequest backend start entries).projectName := by
    have project := congrArg PageRequest.projectName same
    exact project
  have query : stripped continuation.call.query = (firstRequest backend start entries).query :=
    congrArg PageRequest.query same
  have payload : buildPayload continuation.call entries
      ((backend.request continuation.call entries).bareLink hashes position) =
        { projectName := (firstRequest backend start entries).projectName
          query := (firstRequest backend start entries).query
          status := .available
          memories := []
          reading :=
            { total := some (firstRequest backend start entries).entries.length
              detail := some "index"
              continuation := some { continuation with full := true } } } := by
    unfold buildPayload PageRequest.bareLink
    simp only [goesOn, present, selected, query, projectMemoryEntries, List.filterMap_nil, List.map_nil, if_true, Bool.and_false,
      Bool.false_eq_true, if_false]
    rfl
  rw [payload]
  exact le_trans (bareLink_size _ _) (ready.room auto)

theorem ready_page (searching : Searching backend start entries)
    (ready : Ready hashes (firstRequest backend start entries) position continuation) :
    ∃ selection, toolSearchMemory hashes backend continuation.call =
        .page (buildPayload continuation.call entries selection) ∧
      PageOf hashes (firstRequest backend continuation.call entries) position selection ∧
      (continuation.full = false →
        readingTokens (buildPayload continuation.call entries selection) ≤ continuation.budgetTokens) := by
  obtain ⟨searching', same⟩ := request_ready searching ready
  have placed := position_ready ready continuation.budgetTokens (if continuation.full then "full" else "auto")
  rw [← same] at placed
  have inside : position < (backend.request continuation.call entries).entries.length := ready.inside
  have budget : (backend.request continuation.call entries).budgetTokens = continuation.budgetTokens := by rw [same]
  have detail : (backend.request continuation.call entries).detail = if continuation.full then "full" else "auto" := by
    rw [same]
  have positive := ready.positive
  obtain ⟨selection, chosen⟩ := selectMemoryPage_succeeds (backend.request continuation.call entries)
    (fun selection => readingTokens (buildPayload continuation.call entries selection)) rfl placed inside (by omega) (by
      cases full : continuation.full with
      | true => exact .inl (by rw [detail, full]; rfl)
      | false =>
        refine .inr ⟨by rw [detail, full]; rfl, ?_⟩
        rw [budget, Int.toNat_natCast]
        exact bareLink_fits searching ready full)
  obtain ⟨page, fits⟩ := selectMemoryPage_spec (backend.request continuation.call entries) _ rfl placed inside chosen
  refine ⟨selection, toolSearchMemory_eq searching' chosen, page, fun auto => ?_⟩
  have bound := fits (by rw [detail, auto]; rfl)
  rw [budget] at bound
  simpa using bound

theorem continuation_full (request : PageRequest) (position : Nat) (full : Bool) :
    (request.continuation hashes position full).full = full := by
  cases full with
  | true =>
    unfold PageRequest.continuation
    rw [if_pos rfl]
  | false =>
    have plain : (request.arguments hashes position).full = false := rfl
    rw [continuation_widen, widen_eq]
    exact plain

def WithinBudget (backend : SearchBackend) (page : ReadPage) : Prop :=
  page.call.detail = "auto" → (readingTokens page.payload : Int) ≤ backend.resolveReadBudget page.call

def callsLeft (entries : List KnowledgeEntry) (position : Nat) (call : SearchCall) : Nat :=
  2 * (entries.length - position) + if call.detail = "auto" then 1 else 0

/-- From a page on, the rest of the entries is read. -/
theorem reads_from (calls : Nat) :
    ∀ (start : SearchCall) (position : Nat) (selection : Selection), Searching backend start entries →
      toolSearchMemory hashes backend start = .page (buildPayload start entries selection) →
      PageOf hashes (firstRequest backend start entries) position selection → position < entries.length →
      1 ≤ backend.resolveReadBudget start → WithinBudget backend ⟨start, buildPayload start entries selection⟩ →
      callsLeft entries position start ≤ calls →
      ∃ pages, Reads hashes backend start pages ∧ (∀ page ∈ pages, WithinBudget backend page) ∧
        pages.flatMap (·.payload.bodies) = (entries.drop position).map (·.statement.text) := by
  induction calls with
  | zero =>
    intro start position selection _ _ _ inside _ _ left
    unfold callsLeft at left
    omega
  | succ calls ih =>
    intro start position selection searching succeeds page inside positive within left
    have reading := buildPayload_reading start searching.filled selection
    -- one more call by a continuation, and the pages behind it
    have goOn : ∀ stop full, stop < entries.length →
        2 * (entries.length - stop) + (if full then 0 else 1) ≤ calls →
        (buildPayload start entries selection).reading.continuation =
          some ((firstRequest backend start entries).continuation hashes stop full) →
        ∃ pages, Reads hashes backend start (⟨start, buildPayload start entries selection⟩ :: pages) ∧
          (∀ page ∈ pages, WithinBudget backend page) ∧
          pages.flatMap (·.payload.bodies) = (entries.drop stop).map (·.statement.text) := by
      intro stop full before fewer goesOn
      have ready := @ready_continuation hashes (firstRequest backend start entries) positive _ before full
      have kind := @continuation_full hashes (firstRequest backend start entries) stop full
      generalize (firstRequest backend start entries).continuation hashes stop full = continuation at ready goesOn kind
      obtain ⟨later, answered, onward, size⟩ := ready_page searching ready
      obtain ⟨searching', _⟩ := request_ready searching ready
      have bounded : WithinBudget backend ⟨continuation.call, buildPayload continuation.call entries later⟩ := by
        intro auto
        have open' : continuation.full = false := by
          cases closed : continuation.full with
          | true =>
            simp only [Continuation.call, closed, if_true] at auto
            exact absurd auto (by decide)
          | false => rfl
        exact Int.ofNat_le.mpr (size open')
      have fewer' : callsLeft entries stop continuation.call ≤ calls := by
        unfold callsLeft
        simp only [Continuation.call, kind]
        cases full <;> simp_all
      have budget : 1 ≤ backend.resolveReadBudget continuation.call := by
        have enough := ready.positive
        simp only [SearchBackend.resolveReadBudget, Continuation.call, Option.getD_some]
        omega
      obtain ⟨pages, reads, sizes, bodies⟩ := ih continuation.call stop later searching' answered onward before budget bounded fewer'
      exact ⟨pages, .next succeeds goesOn reads, sizes, bodies⟩
    unfold callsLeft at left
    cases page with
    | whole count progress body chosen ends goesOn =>
      have shown : (buildPayload start entries selection).bodies =
          ((entries.drop position).take count).map (·.statement.text) := by
        rw [buildPayload_bodies, body, chosen]
        rfl
      rcases Nat.lt_or_ge (position + count) entries.length with more | done
      · obtain ⟨pages, reads, sizes, bodies⟩ := goOn (position + count) false more (by simp; omega)
          (by rw [reading]; exact goesOn more)
        refine ⟨_, reads, ?_, ?_⟩
        · intro page member
          rcases List.mem_cons.mp member with rfl | later
          · exact within
          · exact sizes page later
        · rw [List.flatMap_cons, bodies, shown, ← List.map_append, ← List.drop_drop, List.take_append_drop]
      · refine ⟨_, .last succeeds (by rw [reading]; exact ends done), ?_, ?_⟩
        · intro page member
          rw [List.mem_singleton.mp member]
          exact within
        · have whole : (entries.drop position).take count = entries.drop position :=
            List.take_of_length_le (by rw [List.length_drop]; omega)
          simp [shown, whole]
    | index auto index goesOn =>
      have hidden : (buildPayload start entries selection).bodies = [] := by
        rw [buildPayload_bodies, index]
        rfl
      have kind : start.detail = "auto" := auto
      rw [if_pos kind] at left
      obtain ⟨pages, reads, sizes, bodies⟩ := goOn position true inside (by simp; omega) (by rw [reading]; exact goesOn)
      refine ⟨_, reads, ?_, ?_⟩
      · intro page member
        rcases List.mem_cons.mp member with rfl | later
        · exact within
        · exact sizes page later
      · rw [List.flatMap_cons, bodies, hidden, List.nil_append]

theorem budget_of_selected {request : PageRequest} {tokens : Selection → Nat}
    (chosen : selectMemoryPage hashes request tokens = .ok selection) : 1 ≤ request.budgetTokens := by
  unfold selectMemoryPage at chosen
  split at chosen
  · cases chosen
  split at chosen
  · cases chosen
  · omega

/-- Where the first page of a search is returned, reading on by the continuations ends, no call on the way is
refused, every automatic page keeps to its budget and each body is returned once, in order. -/
theorem search_delivers (hashes : Hashes) (backend : SearchBackend) (start : SearchCall) (entries : List KnowledgeEntry)
    (payload : Payload) (first : start.cursor = none) (found : backend.entries start = some entries)
    (filled : entries ≠ []) (succeeds : toolSearchMemory hashes backend start = .page payload) :
    ∃ pages, Reads hashes backend start pages ∧ (∀ page ∈ pages, WithinBudget backend page) ∧
      pages.flatMap (·.payload.bodies) = entries.map (·.statement.text) := by
  obtain ⟨searching, selection, chosen, rfl⟩ := toolSearchMemory_page succeeds found filled
  have inside : 0 < entries.length := List.length_pos_iff.mpr filled
  have placed : (firstRequest backend start entries).position hashes = .ok (0, none) := by
    have cursor : (firstRequest backend start entries).cursor = none := first
    unfold PageRequest.position
    rw [cursor]
  have positive : 1 ≤ backend.resolveReadBudget start := budget_of_selected chosen
  obtain ⟨page, size⟩ := selectMemoryPage_spec _ _ rfl placed inside chosen
  have within : WithinBudget backend ⟨start, buildPayload start entries selection⟩ := by
    intro auto
    have bound := size auto
    have budget : (firstRequest backend start entries).budgetTokens = backend.resolveReadBudget start := rfl
    rw [budget] at bound
    dsimp only
    omega
  obtain ⟨pages, reads, sizes, bodies⟩ :=
    reads_from _ start 0 selection searching succeeds page inside positive within (le_refl _)
  exact ⟨pages, reads, sizes, by rw [bodies, List.drop_zero]⟩

def fact (id : String) (statement : SingleLine) : KnowledgeEntry where
  id
  projectName := ⟨"demo", by decide +kernel, by decide, by decide +kernel⟩
  modulePath := [⟨"Reading", by decide +kernel, by decide, by decide +kernel⟩]
  title := ⟨"Rule", by decide +kernel, by decide, by decide +kernel⟩
  statement
  createdAt := 0
  updatedAt := 0
  placed := List.cons_ne_nil _ _
  attributed := by
    intro report known
    cases known

def threeFacts : SearchBackend :=
  let facts :=
    [fact "1" ⟨"Tokens are bytes.", by decide +kernel, by decide, by decide +kernel⟩,
      fact "2" ⟨"Bodies are whole.", by decide +kernel, by decide, by decide +kernel⟩,
      fact "3" ⟨"Pages go on.", by decide +kernel, by decide, by decide +kernel⟩]
  { ready := true, search := fun _ _ => some facts, list := fun _ => some facts, budget := fun _ => 1600 }

/-- Read from one whole fact on, with a budget below any link. -/
theorem search_delivers_three :
    ∃ pages, Reads Hashes.spelled threeFacts { query := "facts", budgetTokens := some 1, detail := "full" } pages ∧
      (∀ page ∈ pages, WithinBudget threeFacts page) ∧
      pages.flatMap (·.payload.bodies) = ["Tokens are bytes.", "Bodies are whole.", "Pages go on."] := by
  have answered : (toolSearchMemory Hashes.spelled threeFacts
      { query := "facts", budgetTokens := some 1, detail := "full" }).payload?.isSome = true := by decide +kernel
  obtain ⟨payload, succeeds⟩ := Option.isSome_iff_exists.mp answered
  have found : (threeFacts.entries { query := "facts", budgetTokens := some 1, detail := "full" }).isSome = true := by
    decide +kernel
  obtain ⟨facts, known⟩ := Option.isSome_iff_exists.mp found
  have statements : ((threeFacts.entries { query := "facts", budgetTokens := some 1, detail := "full" }).map fun facts =>
      facts.map (·.statement.text)) = some ["Tokens are bytes.", "Bodies are whole.", "Pages go on."] := by decide +kernel
  rw [known] at statements
  have bodies := Option.some.inj statements
  have filled : facts ≠ [] := by
    rintro rfl
    cases bodies
  rw [← bodies]
  exact search_delivers _ _ _ facts payload rfl known filled (SearchResult.payload?_eq_some.mp succeeds)

end HarnessMem.Reading
