import HarnessMem.Adapters.Codex
import Mathlib.Data.List.Infix

/-! What one record does to the turns of an archive. -/

set_option autoImplicit false

namespace HarnessMem.Adapters

open Library

variable {isWord : Char → Bool} {containerRepr : PyValue → String}

/-! ### What a record is -/

section
variable (isWord : Char → Bool) (containerRepr : PyValue → String)

/-- What a record is to the turns, when its payload carries no turn id. -/
inductive Reading where
  /-- No payload, or the head of the archive. -/
  | nothing
  | conflict
  | raises
  | context
  | user (text : String)
  | message (text : String)
  | other
  deriving DecidableEq

/-- The sanitized text of a record that a user has written; `none` where there is none to read. -/
def authoredText (record payload : Fields) : Option String :=
  if text? record "type" = some "event_msg" then some (sanitizeArchivedUserText (strOrEmpty containerRepr (member? payload "message")))
  else (extractArchivedText isWord (member? payload "content")).map sanitizeArchivedUserText

def readingOfValid (record payload : Fields) : Reading :=
  if text? record "type" = some "turn_context" then .context
  else if text? record "type" = some "event_msg" then
    if text? payload "type" = some "user_message" then
      .user (sanitizeArchivedUserText (strOrEmpty containerRepr (member? payload "message")))
    else if text? payload "type" = some "agent_message" ∧ strOrEmpty containerRepr (member? payload "message") ≠ "" ∧
        isAmong (text? payload "phase") [some "commentary", some "final_answer"] then
      .message (strOrEmpty containerRepr (member? payload "message"))
    else .other
  else if text? record "type" = some "response_item" ∧ text? payload "type" = some "message" then
    match extractArchivedText isWord (member? payload "content") with
    | none => .raises
    | some text =>
      if text? payload "role" = some "user" then .user (sanitizeArchivedUserText text)
      else if text? payload "role" = some "assistant" ∧ text ≠ "" then .message text
      else .other
  else .other

def reading (record : Fields) : Reading :=
  match member? record "payload" with
  | some (.obj payload) =>
    if text? record "type" = some "session_meta" then .nothing
    else
      match authorship record payload with
      | .raises => .raises
      | .conflict => .conflict
      | .valid => readingOfValid isWord containerRepr record payload
  | _ => .nothing

end

/-! ### Turns without ids -/

def Numbered (turns : List Turn) : Prop := turns.map (·.turnId) = (List.range turns.length).map fun place => implicitId (place + 1)

theorem implicitId_injective : Function.Injective implicitId := by
  intro first second same
  have digits : Nat.toDigits 10 first = Nat.toDigits 10 second := String.ofList_injective ((String.append_right_inj _).mp same)
  have number := congrArg readInt digits
  rw [show Nat.toDigits 10 first = dumpsInt first from rfl, show Nat.toDigits 10 second = dumpsInt second from rfl,
    readInt_dumpsInt, readInt_dumpsInt] at number
  exact Int.ofNat.inj number

theorem ensureTurn_last {turns : List Turn} (made : turns ≠ []) : ensureTurn turns "" false = (turns, turns.length - 1) := by
  simp [ensureTurn, made]

theorem ensureTurn_new {turns : List Turn} (numbered : Numbered turns) {boundary : Bool} (opens : turns = [] ∨ boundary = true) :
    ensureTurn turns "" boundary = (turns ++ [{ turnId := implicitId (turns.length + 1) }], turns.length) := by
  have fresh : implicitId (turns.length + 1) ∉ turns.map (·.turnId) := by
    rw [numbered]
    intro known
    obtain ⟨place, inside, same⟩ := List.mem_map.mp known
    have bound := List.mem_range.mp inside
    have number := implicitId_injective same
    omega
  have made : ¬ ("" = "" ∧ turns ≠ [] ∧ boundary = false) := by
    rintro ⟨-, made, closed⟩
    rcases opens with rfl | opens
    · exact made rfl
    · rw [opens] at closed
      cases closed
  unfold ensureTurn
  rw [if_neg made]
  simp only [if_true, unusedId, if_neg fresh]
  rw [List.findIdx?_eq_none_iff.mpr]
  intro id known
  simp only [decide_eq_false_iff_not]
  rintro rfl
  exact fresh known

theorem Numbered.new {turns : List Turn} (numbered : Numbered turns) (change : Turn → Turn)
    (same : ∀ turn : Turn, (change turn).turnId = turn.turnId) :
    Numbered (turns ++ [change { turnId := implicitId (turns.length + 1) }]) := by
  unfold Numbered at numbered ⊢
  simp [same, numbered, List.range_succ]

/-- What a record does to the turns. -/
inductive Moves (turns : List Turn) : Reading → List Turn → Prop where
  | nothing : Moves turns .nothing turns
  | conflict : Moves turns .conflict turns
  /-- The checks on the author raise. -/
  | unread : Moves turns .raises turns
  /-- The content raises, after its turn is found. -/
  | unreadNew (turn : Turn) : turn.user = "" → turn.assistant = [] → turn.tools = [] → Moves turns .raises (turns ++ [turn])
  | context (turn : Turn) : turn.user = "" → turn.assistant = [] → turn.tools = [] → Moves turns .context (turns ++ [turn])
  | opens (text : String) (turn : Turn) : (∀ last ∈ turns.getLast?, last.isFilled = true) → turn.user = text → turn.assistant = [] →
      Moves turns (.user text) (turns ++ [turn])
  /-- The last turn is still empty. -/
  | fills (text : String) (front : List Turn) (last turn : Turn) : turns = front ++ [last] → last.isFilled = false →
      turn.user = text → turn.assistant = [] → Moves turns (.user text) (front ++ [turn])
  | answers (text : String) (front : List Turn) (last turn : Turn) : turns = front ++ [last] → turn.user = last.user →
      turn.assistant = last.assistant ++ [text] → Moves turns (.message text) (front ++ [turn])
  | answersNone (text : String) (turn : Turn) : turns = [] → turn.user = "" → turn.assistant = [text] → Moves turns (.message text) [turn]
  | other (front : List Turn) (last turn : Turn) : turns = front ++ [last] → turn.user = last.user → turn.assistant = last.assistant →
      (last.isFilled = true → turn.isFilled = true) → Moves turns .other (front ++ [turn])
  | otherNone (turn : Turn) : turns = [] → turn.user = "" → turn.assistant = [] → Moves turns .other [turn]

def WithoutTurnId (record : Fields) : Prop :=
  ∀ payload, member? record "payload" = some (.obj payload) → member? payload "turn_id" = none

theorem stripped_empty : stripped "" = "" := rfl

theorem stripped_ite {p : Prop} [Decidable p] {first second : String} (bare : stripped first = first) (also : stripped second = second) :
    stripped (if p then first else second) = if p then first else second := by
  split
  · exact bare
  · exact also

theorem sanitizeRequest_stripped (text : String) : stripped (sanitizeRequest text) = sanitizeRequest text :=
  stripped_ite rfl (stripped_ite (stripped_ite (stripped_stripped _) rfl) (stripped_stripped _))

theorem sanitize_stripped (text : String) : stripped (sanitizeArchivedUserText text) = sanitizeArchivedUserText text := by
  unfold sanitizeArchivedUserText
  refine stripped_ite rfl ?_
  cases delegationInput? (stripped text) with
  | some input => exact sanitizeRequest_stripped input
  | none => exact stripped_ite rfl (sanitizeRequest_stripped _)

theorem strip_newline (text : List Char) : strip ('\n' :: text) = strip text := by
  unfold strip
  rw [List.dropWhile_cons_of_pos (by decide)]

theorem addUser_user {turn : Turn} (fresh : turn.user = "") {text : String} (bare : stripped text = text) :
    (turn.addUser text).user = text := by
  unfold Turn.addUser
  split
  · next empty => rw [fresh, empty]
  · have front : ("" ++ "\n" ++ text).toList = '\n' :: text.toList := by simp [String.toList_append]
    rw [fresh]
    dsimp only
    rw [stripped, front, strip_newline, ← stripped, bare]

@[simp] theorem addUser_turnId (turn : Turn) (text : String) : (turn.addUser text).turnId = turn.turnId := by
  unfold Turn.addUser
  split <;> rfl

@[simp] theorem addUser_assistant (turn : Turn) (text : String) : (turn.addUser text).assistant = turn.assistant := by
  unfold Turn.addUser
  split <;> rfl

/-! ### The step of the loop -/

def touched (turns : List Turn) (boundary : Bool) (change : Turn → Turn) : List Turn :=
  (ensureTurn turns "" boundary).1.modify (ensureTurn turns "" boundary).2 change

theorem modify_last (front : List Turn) (last : Turn) (change : Turn → Turn) :
    (front ++ [last]).modify front.length change = front ++ [change last] := by
  induction front with
  | nil => rfl
  | cons turn front ih => simpa using ih

section
variable {turns front : List Turn} {last : Turn} {change : Turn → Turn} {boundary : Bool}

theorem touched_last (made : turns = front ++ [last]) : touched turns false change = front ++ [change last] := by
  have filled : turns ≠ [] := by simp [made]
  rw [touched, ensureTurn_last filled, made]
  simpa using modify_last front last change

theorem touched_new (numbered : Numbered turns) (opens : turns = [] ∨ boundary = true) :
    touched turns boundary change = turns ++ [change { turnId := implicitId (turns.length + 1) }] := by
  rw [touched, ensureTurn_new numbered opens]
  exact modify_last turns _ change

theorem Numbered.replace (numbered : Numbered (front ++ [last])) {turn : Turn} (same : turn.turnId = last.turnId) :
    Numbered (front ++ [turn]) := by
  unfold Numbered at numbered ⊢
  simpa [same] using numbered

theorem touched_opens (numbered : Numbered turns) {text : String} (bare : stripped text = text)
    (opens : turns = [] ∨ boundary = true) (filled : ∀ last ∈ turns.getLast?, last.isFilled = true) :
    Moves turns (.user text) (touched turns boundary fun turn => turn.addUser text) ∧
      Numbered (touched turns boundary fun turn => turn.addUser text) := by
  rw [touched_new numbered opens]
  refine ⟨.opens text _ filled ?_ ?_, numbered.new (fun turn => turn.addUser text) fun turn => addUser_turnId turn text⟩
  · exact addUser_user rfl bare
  · exact addUser_assistant _ _

theorem touched_user (numbered : Numbered turns) {text : String} (bare : stripped text = text) :
    Moves turns (.user text) (touched turns (turns.getLast?.any Turn.isFilled) fun turn => turn.addUser text) ∧
      Numbered (touched turns (turns.getLast?.any Turn.isFilled) fun turn => turn.addUser text) := by
  rcases turns.eq_nil_or_concat with rfl | ⟨front, last, rfl⟩
  · exact touched_opens numbered bare (.inl rfl) (by simp)
  · rw [List.concat_eq_append] at *
    rw [List.getLast?_concat, Option.any_some]
    cases filled : last.isFilled with
    | true => exact touched_opens numbered bare (.inr rfl) (by simp [filled])
    | false =>
      have empty := filled
      simp only [Turn.isFilled, Bool.or_eq_false_iff, decide_eq_false_iff_not, not_not] at empty
      rw [touched_last rfl]
      refine ⟨.fills text front last _ rfl filled (addUser_user empty.1.1 bare) ?_, numbered.replace (addUser_turnId _ _)⟩
      rw [addUser_assistant, empty.1.2]

theorem touched_message (numbered : Numbered turns) (text : String) :
    Moves turns (.message text) (touched turns false fun turn => { turn with assistant := turn.assistant ++ [text] }) ∧
      Numbered (touched turns false fun turn => { turn with assistant := turn.assistant ++ [text] }) := by
  rcases turns.eq_nil_or_concat with rfl | ⟨front, last, rfl⟩
  · rw [touched_new numbered (.inl rfl)]
    exact ⟨.answersNone text _ rfl rfl rfl, numbered.new (fun turn => { turn with assistant := turn.assistant ++ [text] }) fun _ => rfl⟩
  · rw [List.concat_eq_append] at *
    rw [touched_last rfl]
    exact ⟨.answers text front last _ rfl rfl rfl, numbered.replace rfl⟩

theorem touched_other (numbered : Numbered turns) (change : Turn → Turn) (id : ∀ turn, (change turn).turnId = turn.turnId)
    (user : ∀ turn, (change turn).user = turn.user) (assistant : ∀ turn, (change turn).assistant = turn.assistant)
    (filled : ∀ turn : Turn, turn.isFilled = true → (change turn).isFilled = true) :
    Moves turns .other (touched turns false change) ∧ Numbered (touched turns false change) := by
  rcases turns.eq_nil_or_concat with rfl | ⟨front, last, rfl⟩
  · rw [touched_new numbered (.inl rfl)]
    exact ⟨.otherNone _ rfl (user _) (assistant _), numbered.new change id⟩
  · rw [List.concat_eq_append] at *
    rw [touched_last rfl]
    exact ⟨.other front last _ rfl (user last) (assistant last) (filled last), numbered.replace (id last)⟩

end

def opensTurn (turns : List Turn) (record payload : Fields) : Bool :=
  text? record "type" = some "turn_context" || isUser record payload && turns.getLast?.any Turn.isFilled

section
variable {archive : Archive} {record payload : Fields}

theorem no_id (plain : member? payload "turn_id" = none) : (text? payload "turn_id").getD "" = "" := by simp [text?, plain]

theorem readValid_context (plain : member? payload "turn_id" = none) (kind : text? record "type" = some "turn_context") :
    readValid isWord containerRepr archive record payload = { archive with
      turns := touched archive.turns true fun turn => { turn with timestamp := orElse (member? payload "current_date") turn.timestamp } } := by
  simp [readValid, no_id plain, kind, touched]

theorem readValid_event (plain : member? payload "turn_id" = none) (kind : text? record "type" = some "event_msg") :
    readValid isWord containerRepr archive record payload = { archive with
      turns := touched archive.turns (opensTurn archive.turns record payload) (readEvent containerRepr payload) } := by
  simp [readValid, no_id plain, kind, touched, opensTurn]

theorem readValid_other (plain : member? payload "turn_id" = none) (context : text? record "type" ≠ some "turn_context")
    (event : text? record "type" ≠ some "event_msg") (item : text? record "type" ≠ some "response_item") :
    readValid isWord containerRepr archive record payload = { archive with turns := touched archive.turns false id } := by
  simp [readValid, no_id plain, context, event, item, touched, isUser]

theorem ensureTurn_place (numbered : Numbered archive.turns) (boundary : Bool) :
    ∃ turn, (ensureTurn archive.turns "" boundary).1[(ensureTurn archive.turns "" boundary).2]? = some turn := by
  by_cases opens : archive.turns = [] ∨ boundary = true
  · rw [ensureTurn_new numbered opens]
    exact ⟨_, List.getElem?_concat_length⟩
  · rw [not_or, Bool.not_eq_true] at opens
    rw [opens.2, ensureTurn_last opens.1]
    have filled := List.length_pos_iff.mpr opens.1
    exact ⟨_, List.getElem?_eq_getElem (by dsimp only; omega)⟩

theorem readValid_item (numbered : Numbered archive.turns) (plain : member? payload "turn_id" = none)
    (kind : text? record "type" = some "response_item") {change : Turn → Turn}
    (reads : ∀ turn, readResponseItem isWord containerRepr payload turn = some (change turn)) :
    readValid isWord containerRepr archive record payload = { archive with
      turns := touched archive.turns (opensTurn archive.turns record payload) change } := by
  obtain ⟨turn, there⟩ := ensureTurn_place numbered (opensTurn archive.turns record payload)
  have context : text? record "type" ≠ some "turn_context" := by simp [kind]
  have event : text? record "type" ≠ some "event_msg" := by simp [kind]
  unfold opensTurn at there ⊢
  unfold readValid
  rw [no_id plain]
  dsimp only
  rw [if_neg context, if_neg event, if_pos kind, there, Option.bind_some, reads, touched]
  dsimp only
  rw [List.modify_eq_set_getElem?, there]
  rfl

theorem readValid_raises (plain : member? payload "turn_id" = none) (kind : text? record "type" = some "response_item")
    (reads : ∀ turn, readResponseItem isWord containerRepr payload turn = none) :
    readValid isWord containerRepr archive record payload = { archive with
      turns := (ensureTurn archive.turns "" (opensTurn archive.turns record payload)).1
      issues := archive.issues ++ ["parse_failed"]
      stopped := true } := by
  have context : text? record "type" ≠ some "turn_context" := by simp [kind]
  have event : text? record "type" ≠ some "event_msg" := by simp [kind]
  unfold readValid opensTurn
  rw [no_id plain]
  dsimp only
  rw [if_neg context, if_neg event, if_pos kind]
  have nothing : ((ensureTurn archive.turns "" (text? record "type" = some "turn_context" || isUser record payload &&
      archive.turns.getLast?.any Turn.isFilled)).1[(ensureTurn archive.turns "" (text? record "type" = some "turn_context" ||
        isUser record payload && archive.turns.getLast?.any Turn.isFilled)).2]?.bind
          (readResponseItem isWord containerRepr payload)) = none := by
    rw [Option.bind_eq_none_iff]
    exact fun turn _ => reads turn
  rw [nothing]

end

/-- The step of a valid record, by the reading of it. -/
theorem readValid_moves {archive : Archive} {record payload : Fields} (numbered : Numbered archive.turns)
    (plain : member? payload "turn_id" = none) (running : archive.stopped = false) :
    Moves archive.turns (readingOfValid isWord containerRepr record payload) (readValid isWord containerRepr archive record payload).turns ∧
      Numbered (readValid isWord containerRepr archive record payload).turns ∧
      ((readValid isWord containerRepr archive record payload).stopped = true ↔
        readingOfValid isWord containerRepr record payload = .raises) := by
  by_cases context : text? record "type" = some "turn_context"
  · rw [readValid_context plain context]
    dsimp only
    rw [touched_new numbered (.inr rfl)]
    simp only [readingOfValid, context, if_true, running]
    exact ⟨.context _ rfl rfl rfl, numbered.new (fun turn => { turn with timestamp := _ }) fun _ => rfl, by simp⟩
  by_cases event : text? record "type" = some "event_msg"
  · rw [readValid_event plain event]
    dsimp only
    rw [running]
    simp only [readingOfValid, event, isAmong_iff]
    by_cases own : text? payload "type" = some "user_message"
    · have boundary : opensTurn archive.turns record payload = archive.turns.getLast?.any Turn.isFilled := by
        simp [opensTurn, isUser, event, own]
      have change : readEvent containerRepr payload = fun turn =>
          turn.addUser (sanitizeArchivedUserText (strOrEmpty containerRepr (member? payload "message"))) := by
        funext turn
        simp [readEvent, own]
      rw [boundary, change]
      have user := touched_user numbered (sanitize_stripped (strOrEmpty containerRepr (member? payload "message")))
      simpa [own] using user
    · have boundary : opensTurn archive.turns record payload = false := by simp [opensTurn, isUser, event, own]
      rw [boundary]
      by_cases reply : text? payload "type" = some "agent_message" ∧ strOrEmpty containerRepr (member? payload "message") ≠ "" ∧
          text? payload "phase" ∈ [some "commentary", some "final_answer"]
      · have change : readEvent containerRepr payload = fun turn =>
            { turn with assistant := turn.assistant ++ [strOrEmpty containerRepr (member? payload "message")] } := by
          funext turn
          simp only [readEvent, if_neg own, if_pos reply.1, if_pos reply.2]
        rw [change]
        have message := touched_message numbered (strOrEmpty containerRepr (member? payload "message"))
        rw [if_neg (by simp), if_pos trivial, if_neg own, if_pos reply]
        exact ⟨message.1, message.2, by simp⟩
      · have change : readEvent containerRepr payload = id := by
          funext turn
          simp only [readEvent, if_neg own]
          by_cases agent : text? payload "type" = some "agent_message"
          · rw [if_pos agent, if_neg fun spoken => reply ⟨agent, spoken⟩]
            rfl
          · rw [if_neg agent]
            rfl
        rw [change]
        have other := touched_other numbered id (fun _ => rfl) (fun _ => rfl) (fun _ => rfl) fun _ => id
        rw [if_neg (by simp), if_pos trivial, if_neg own, if_neg reply]
        exact ⟨other.1, other.2, by simp⟩
  by_cases item : text? record "type" = some "response_item"
  · by_cases message : text? payload "type" = some "message"
    · cases content : extractArchivedText isWord (member? payload "content") with
      | none =>
        have reads : ∀ turn, readResponseItem isWord containerRepr payload turn = none := by
          intro turn
          simp [readResponseItem, message, content]
        have raises : readingOfValid isWord containerRepr record payload = .raises := by
          simp [readingOfValid, item, message, content]
        rw [readValid_raises plain item reads, raises]
        dsimp only
        by_cases opens : archive.turns = [] ∨ opensTurn archive.turns record payload = true
        · rw [ensureTurn_new numbered opens]
          exact ⟨.unreadNew _ rfl rfl rfl, numbered.new id fun _ => rfl, by simp⟩
        · rw [not_or, Bool.not_eq_true] at opens
          rw [opens.2, ensureTurn_last opens.1]
          exact ⟨.unread, numbered, by simp⟩
      | some text =>
        by_cases own : text? payload "role" = some "user"
        · have reads : ∀ turn, readResponseItem isWord containerRepr payload turn =
              some (turn.addUser (sanitizeArchivedUserText text)) := by
            intro turn
            simp [readResponseItem, message, content, own]
          have boundary : opensTurn archive.turns record payload = archive.turns.getLast?.any Turn.isFilled := by
            simp [opensTurn, isUser, item, message, own]
          have reading : readingOfValid isWord containerRepr record payload = .user (sanitizeArchivedUserText text) := by
            simp [readingOfValid, item, message, content, own]
          rw [readValid_item numbered plain item reads, boundary, reading]
          have user := touched_user numbered (sanitize_stripped text)
          exact ⟨user.1, user.2, by simp [running]⟩
        · have boundary : opensTurn archive.turns record payload = false := by simp [opensTurn, isUser, item, message, own]
          by_cases reply : text? payload "role" = some "assistant" ∧ text ≠ ""
          · have reads : ∀ turn, readResponseItem isWord containerRepr payload turn =
                some { turn with assistant := turn.assistant ++ [text] } := by
              intro turn
              simp [readResponseItem, message, content, reply]
            have reading : readingOfValid isWord containerRepr record payload = .message text := by
              simp [readingOfValid, item, message, content, reply]
            rw [readValid_item numbered plain item reads, boundary, reading]
            have message := touched_message numbered text
            exact ⟨message.1, message.2, by simp [running]⟩
          · have reads : ∀ turn, readResponseItem isWord containerRepr payload turn = some (id turn) := by
              intro turn
              simp [readResponseItem, message, content, own, reply]
            have reading : readingOfValid isWord containerRepr record payload = .other := by
              simp [readingOfValid, item, message, content, own, reply]
            rw [readValid_item numbered plain item reads, boundary, reading]
            have other := touched_other numbered id (fun _ => rfl) (fun _ => rfl) (fun _ => rfl) fun _ => id
            exact ⟨other.1, other.2, by simp [running]⟩
    · have boundary : opensTurn archive.turns record payload = false := by simp [opensTurn, isUser, item, message]
      have reading : readingOfValid isWord containerRepr record payload = .other := by
        simp [readingOfValid, item, message]
      by_cases call : text? payload "type" = some "function_call"
      · have reads : ∀ turn, readResponseItem isWord containerRepr payload turn = some { turn with tools := turn.tools ++
            [(strOrEmpty containerRepr (member? payload "name"), strOrEmpty containerRepr (member? payload "arguments"))] } := by
          intro turn
          simp [readResponseItem, call]
        rw [readValid_item numbered plain item reads, boundary, reading]
        have other := touched_other numbered (fun turn : Turn => { turn with tools := turn.tools ++
          [(strOrEmpty containerRepr (member? payload "name"), strOrEmpty containerRepr (member? payload "arguments"))] })
          (fun _ => rfl) (fun _ => rfl) (fun _ => rfl) fun _ _ => by simp [Turn.isFilled]
        exact ⟨other.1, other.2, by simp [running]⟩
      · have reads : ∀ turn, readResponseItem isWord containerRepr payload turn = some (id turn) := by
          intro turn
          simp [readResponseItem, message, call]
        rw [readValid_item numbered plain item reads, boundary, reading]
        have other := touched_other numbered id (fun _ => rfl) (fun _ => rfl) (fun _ => rfl) fun _ => id
        exact ⟨other.1, other.2, by simp [running]⟩
  · rw [readValid_other plain context event item]
    have other := touched_other numbered id (fun _ => rfl) (fun _ => rfl) (fun _ => rfl) fun _ => id
    have reading : readingOfValid isWord containerRepr record payload = .other := by
      simp [readingOfValid, context, event, item]
    rw [reading]
    exact ⟨other.1, other.2, by simp [running]⟩

theorem readRecord_moves {archive : Archive} {record : Fields} (numbered : Numbered archive.turns) (plain : WithoutTurnId record)
    (running : archive.stopped = false) :
    Moves archive.turns (reading isWord containerRepr record) (readRecord isWord containerRepr archive record).turns ∧
      Numbered (readRecord isWord containerRepr archive record).turns ∧
      ((readRecord isWord containerRepr archive record).stopped = true ↔ reading isWord containerRepr record = .raises) := by
  have idle : Moves archive.turns .nothing archive.turns ∧ Numbered archive.turns ∧ (archive.stopped = true ↔ Reading.nothing = .raises) :=
    ⟨.nothing, numbered, by simp [running]⟩
  unfold readRecord reading
  rw [if_neg (by simp [running])]
  cases content : member? record "payload" with
  | none => exact idle
  | some value =>
    cases value with
    | obj payload =>
      dsimp only
      by_cases head : text? record "type" = some "session_meta"
      · rw [if_pos head, if_pos head]
        exact idle
      · rw [if_neg head, if_neg head]
        cases authorship record payload with
        | raises => exact ⟨.unread, numbered, by simp⟩
        | conflict => exact ⟨.conflict, numbered, by simp [running]⟩
        | valid => exact readValid_moves numbered (plain payload content) running
    | _ => exact idle

theorem readRecord_stopped {archive : Archive} (stopped : archive.stopped = true) (record : Fields) :
    readRecord isWord containerRepr archive record = archive := by
  rw [readRecord, if_pos stopped]

/-! ### What moves leave alone -/

section
variable {turns after : List Turn} {read : Reading}

def userTexts (turns : List Turn) : List String := (turns.map (·.user)).filter (· ≠ "")

def lastUser (turns : List Turn) : String := (turns.getLast?.map (·.user)).getD ""

def Reading.userText? : Reading → Option String
  | .user text => if text = "" then none else some text
  | _ => none

theorem userTexts_append (front : List Turn) (turn : Turn) :
    userTexts (front ++ [turn]) = userTexts front ++ if turn.user = "" then [] else [turn.user] := by
  unfold userTexts
  rw [List.map_append, List.filter_append]
  by_cases empty : turn.user = "" <;> simp [empty]

theorem Moves.userTexts (moves : Moves turns read after) : userTexts after = userTexts turns ++ read.userText?.toList := by
  cases moves with
  | nothing => simp [Reading.userText?]
  | conflict => simp [Reading.userText?]
  | unread => simp [Reading.userText?]
  | unreadNew turn user => simp [userTexts_append, user, Reading.userText?]
  | context turn user => simp [userTexts_append, user, Reading.userText?]
  | opens text turn filled user =>
    rw [userTexts_append, user]
    by_cases empty : text = "" <;> simp [Reading.userText?, empty]
  | fills text front last turn made unfilled user =>
    have fresh : last.user = "" := by
      simp only [Turn.isFilled, Bool.or_eq_false_iff, decide_eq_false_iff_not, not_not] at unfilled
      exact unfilled.1.1
    rw [made, userTexts_append, userTexts_append, user, fresh]
    by_cases empty : text = "" <;> simp [Reading.userText?, empty]
  | answers text front last turn made user => simp [made, userTexts_append, user, Reading.userText?]
  | answersNone text turn made user => simp [made, HarnessMem.Adapters.userTexts, user, Reading.userText?]
  | other front last turn made user => simp [made, userTexts_append, user, Reading.userText?]
  | otherNone turn made user => simp [made, HarnessMem.Adapters.userTexts, user, Reading.userText?]

def Reading.opensTurn : Reading → Bool
  | .user _ | .context => true
  | _ => false

theorem lastUser_append (front : List Turn) (turn : Turn) : lastUser (front ++ [turn]) = turn.user := by simp [lastUser]

def Reading.lastUser (before : String) : Reading → String
  | .user text => text
  | .context => ""
  | _ => before

theorem Moves.lastUser (moves : Moves turns read after) (reached : read ≠ .raises) :
    lastUser after = read.lastUser (lastUser turns) := by
  cases moves with
  | nothing => rfl
  | conflict => rfl
  | unread => exact absurd rfl reached
  | unreadNew => exact absurd rfl reached
  | context turn user => rw [lastUser_append, user, Reading.lastUser]
  | opens text turn filled user => rw [lastUser_append, user, Reading.lastUser]
  | fills text front last turn made unfilled user => rw [lastUser_append, user, Reading.lastUser]
  | answers text front last turn made user =>
    rw [made, lastUser_append, user]
    exact (lastUser_append front last).symm
  | answersNone text turn made user => simp [made, HarnessMem.Adapters.lastUser, user, Reading.lastUser]
  | other front last turn made user =>
    rw [made, lastUser_append, user]
    exact (lastUser_append front last).symm
  | otherNone turn made user => simp [made, HarnessMem.Adapters.lastUser, user, Reading.lastUser]

def assistantsAt (turns : List Turn) (place : Nat) : List String := (turns[place]?.map (·.assistant)).getD []

theorem getElem?_append_cases (front : List Turn) (turn : Turn) (place : Nat) :
    (place < front.length ∧ (front ++ [turn])[place]? = front[place]?) ∨
      (place = front.length ∧ (front ++ [turn])[place]? = some turn) ∨ (front.length < place ∧ (front ++ [turn])[place]? = none) := by
  rcases Nat.lt_trichotomy place front.length with before | rfl | behind
  · exact .inl ⟨before, List.getElem?_append_left before⟩
  · exact .inr (.inl ⟨rfl, List.getElem?_concat_length⟩)
  · exact .inr (.inr ⟨behind, List.getElem?_eq_none (by simp; omega)⟩)

theorem Moves.keeps (moves : Moves turns read after) {place : Nat} {turn : Turn} (there : turns[place]? = some turn)
    (filled : turn.isFilled = true) :
    ∃ later, after[place]? = some later ∧ later.user = turn.user ∧ turn.assistant <+: later.assistant ∧ later.isFilled = true := by
  have appended : ∀ added, (turns ++ [added])[place]? = some turn := fun added =>
    (List.getElem?_append_left (List.getElem?_eq_some_iff.mp there).1).trans there
  -- the last turn is the only one that is written again
  have replaced : ∀ (front : List Turn) (last next : Turn), turns = front ++ [last] → (last.isFilled = true →
      next.user = last.user ∧ last.assistant <+: next.assistant ∧ next.isFilled = true) →
      ∃ later, (front ++ [next])[place]? = some later ∧ later.user = turn.user ∧ turn.assistant <+: later.assistant ∧
        later.isFilled = true := by
    intro front last next made keeps
    rw [made] at there
    rcases getElem?_append_cases front last place with ⟨before, same⟩ | ⟨here, same⟩ | ⟨-, same⟩
    · rw [same] at there
      exact ⟨turn, (List.getElem?_append_left before).trans there, rfl, List.prefix_refl _, filled⟩
    · rw [same] at there
      obtain rfl := Option.some.inj there
      exact ⟨next, by rw [here, List.getElem?_concat_length], keeps filled⟩
    · rw [same] at there
      cases there
  cases moves with
  | nothing => exact ⟨turn, there, rfl, List.prefix_refl _, filled⟩
  | conflict => exact ⟨turn, there, rfl, List.prefix_refl _, filled⟩
  | unread => exact ⟨turn, there, rfl, List.prefix_refl _, filled⟩
  | unreadNew added => exact ⟨turn, appended added, rfl, List.prefix_refl _, filled⟩
  | context added => exact ⟨turn, appended added, rfl, List.prefix_refl _, filled⟩
  | opens text added => exact ⟨turn, appended added, rfl, List.prefix_refl _, filled⟩
  | fills text front last next made unfilled =>
    exact replaced front last next made fun full => by rw [unfilled] at full; cases full
  | answers text front last next made user assistant =>
    exact replaced front last next made fun _ => ⟨user, by simp [assistant], by simp [Turn.isFilled, assistant]⟩
  | answersNone text next made => rw [made] at there; cases there
  | other front last next made user assistant still =>
    exact replaced front last next made fun full => ⟨user, by simp [assistant], still full⟩
  | otherNone next made => rw [made] at there; cases there

theorem assistantsAt_append (front : List Turn) (turn : Turn) (place : Nat) :
    assistantsAt (front ++ [turn]) place = if place = front.length then turn.assistant else assistantsAt front place := by
  unfold assistantsAt
  rcases getElem?_append_cases front turn place with ⟨before, same⟩ | ⟨here, same⟩ | ⟨behind, same⟩
  · rw [same, if_neg (by omega)]
  · rw [same, if_pos here]
    rfl
  · rw [same, if_neg (by omega), List.getElem?_eq_none (by omega)]

theorem assistantsAt_length (turns : List Turn) : assistantsAt turns turns.length = [] := by simp [assistantsAt]

theorem assistantsAt_new {added : Turn} (silent : added.assistant = []) (place : Nat) :
    assistantsAt (turns ++ [added]) place = assistantsAt turns place := by
  rw [assistantsAt_append]
  split
  · next here => rw [here, assistantsAt_length, silent]
  · rfl

theorem assistantsAt_replaced {front : List Turn} {last next : Turn} (silent : next.assistant = last.assistant) (place : Nat) :
    assistantsAt (front ++ [next]) place = assistantsAt (front ++ [last]) place := by
  rw [assistantsAt_append, assistantsAt_append, silent]

theorem Moves.appended (moves : Moves turns read after) {place : Nat} {text : String}
    (appends : assistantsAt after place = assistantsAt turns place ++ [text]) :
    read = .message text ∧ ∃ turn, after[place]? = some turn ∧ turn.user = HarnessMem.Adapters.lastUser turns ∧ turn.isFilled = true := by
  have never : assistantsAt after place ≠ assistantsAt turns place := by
    intro same
    rw [same] at appends
    simp at appends
  cases moves with
  | nothing => exact absurd rfl never
  | conflict => exact absurd rfl never
  | unread => exact absurd rfl never
  | unreadNew added user silent => exact absurd (assistantsAt_new silent place) never
  | context added user silent => exact absurd (assistantsAt_new silent place) never
  | opens own added filled user silent => exact absurd (assistantsAt_new silent place) never
  | fills own front last next made unfilled user silent =>
    have before : last.assistant = [] := by
      simp only [Turn.isFilled, Bool.or_eq_false_iff, decide_eq_false_iff_not, not_not] at unfilled
      exact unfilled.1.2
    rw [made] at never
    exact absurd (assistantsAt_replaced (silent.trans before.symm) place) never
  | answers own front last next made user assistant =>
    rw [made, assistantsAt_append, assistantsAt_append] at appends
    split at appends
    · next here =>
      rw [assistant] at appends
      obtain rfl : own = text := by simpa using appends
      refine ⟨rfl, next, by rw [here, List.getElem?_concat_length], ?_, by simp [Turn.isFilled, assistant]⟩
      rw [made, lastUser_append, user]
    · simp at appends
  | answersNone own next made user assistant =>
    rw [made, ← List.nil_append [next], assistantsAt_append] at appends
    split at appends
    · next here =>
      rw [assistant] at appends
      obtain rfl : own = text := by simpa [assistantsAt] using appends
      refine ⟨rfl, next, by rw [here]; rfl, ?_, by simp [Turn.isFilled, assistant]⟩
      rw [made, user]
      rfl
    · simp at appends
  | other front last next made user silent =>
    rw [made] at never
    exact absurd (assistantsAt_replaced silent place) never
  | otherNone next made user silent =>
    rw [made] at never
    exact absurd (@assistantsAt_new [] next silent place) never

theorem Moves.message {text : String} (moves : Moves turns (.message text) after) :
    ∃ place, assistantsAt after place = assistantsAt turns place ++ [text] := by
  cases moves with
  | answers own front last next made user assistant =>
    refine ⟨front.length, ?_⟩
    rw [made, assistantsAt_append, assistantsAt_append, if_pos rfl, if_pos rfl, assistant]
  | answersNone own next made user assistant =>
    refine ⟨0, ?_⟩
    simp [made, assistantsAt, assistant]

end

end HarnessMem.Adapters
