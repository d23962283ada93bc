import HarnessMem.Adapters.Readings
import HarnessMem.Library.Lists

/-! Whose words the replies of an archive stand under. -/

set_option autoImplicit false

namespace HarnessMem.Adapters

open Library

variable {isWord : Char → Bool} {containerRepr : PyValue → String} {stem : String}

/-! ### Reading an archive -/

section
variable (isWord : Char → Bool) (containerRepr : PyValue → String)

def isAuthored (record : Fields) : Bool :=
  match member? record "payload" with
  | some (.obj payload) => isUser record payload
  | _ => false

def sanitizedText? (record : Fields) : Option String :=
  match member? record "payload" with
  | some (.obj payload) => authoredText isWord containerRepr record payload
  | _ => none

def PartOf (record : Fields) (user : String) : Prop :=
  ∃ text, sanitizedText? isWord containerRepr record = some text ∧ text ≠ "" ∧ text.toList <:+: user.toList

def retained? (record : Fields) : Option String := (reading isWord containerRepr record).userText?

end

theorem readArchive_append (records : List Fields) (record : Fields) :
    readArchive isWord containerRepr stem (records ++ [record]) =
      readRecord isWord containerRepr (readArchive isWord containerRepr stem records) record := by
  rw [readArchive, List.foldl_append]
  rfl

/-- What holds of every archive whose payloads carry no turn id. -/
structure Read (isWord : Char → Bool) (containerRepr : PyValue → String) (records : List Fields) (archive : Archive) : Prop where
  numbered : Numbered archive.turns
  stopped : archive.stopped = true ↔ ∃ record ∈ records, reading isWord containerRepr record = .raises

theorem readArchive_read (records : List Fields) (plain : ∀ record ∈ records, WithoutTurnId record) :
    Read isWord containerRepr records (readArchive isWord containerRepr stem records) := by
  induction records using List.reverseRecOn with
  | nil => exact ⟨rfl, by simp [readArchive]⟩
  | append_singleton records record ih =>
    have before := ih fun other member => plain other (by simp [member])
    rw [readArchive_append]
    by_cases stopped : (readArchive isWord containerRepr stem records).stopped = true
    · rw [readRecord_stopped stopped]
      obtain ⟨raising, member, raises⟩ := before.stopped.mp stopped
      exact ⟨before.numbered, iff_of_true stopped ⟨raising, by simp [member], raises⟩⟩
    · have running := Bool.not_eq_true _ ▸ stopped
      obtain ⟨-, numbered, stops⟩ := @readRecord_moves isWord containerRepr _ _ before.numbered (plain record (by simp)) running
      refine ⟨numbered, stops.trans ⟨fun raises => ⟨record, by simp, raises⟩, ?_⟩⟩
      rintro ⟨raising, member, raises⟩
      rcases List.mem_append.mp member with earlier | here
      · exact absurd (before.stopped.mpr ⟨raising, earlier, raises⟩) stopped
      · rwa [List.mem_singleton.mp here] at raises

theorem step_moves {before : List Fields} {record : Fields} (plain : ∀ other ∈ before ++ [record], WithoutTurnId other)
    (reached : ∀ other ∈ before, reading isWord containerRepr other ≠ .raises) :
    Moves (readArchive isWord containerRepr stem before).turns (reading isWord containerRepr record)
      (readArchive isWord containerRepr stem (before ++ [record])).turns := by
  have read : Read isWord containerRepr before (readArchive isWord containerRepr stem before) :=
    readArchive_read before fun other member => plain other (by simp [member])
  have running : (readArchive isWord containerRepr stem before).stopped = false := by
    rw [← Bool.not_eq_true, read.stopped]
    rintro ⟨raising, member, raises⟩
    exact reached raising member raises
  rw [readArchive_append]
  exact (readRecord_moves read.numbered (plain record (by simp)) running).1

variable {before : List Fields} {record : Fields}

theorem step_stopped (plain : ∀ other ∈ before, WithoutTurnId other)
    (raises : ∃ other ∈ before, reading isWord containerRepr other = .raises) :
    readArchive isWord containerRepr stem (before ++ [record]) = readArchive isWord containerRepr stem before := by
  rw [readArchive_append]
  exact readRecord_stopped ((readArchive_read before plain).stopped.mpr raises) record

/-! ### Users -/

variable {text : String}

theorem reading_user_stripped (user : reading isWord containerRepr record = .user text) :
    stripped text = text := by
  unfold reading at user
  split at user
  · split at user
    · cases user
    split at user
    · cases user
    · cases user
    unfold readingOfValid at user
    split at user
    · cases user
    split at user
    · split at user
      · cases user
        exact sanitize_stripped _
      split at user
      · cases user
      · cases user
    split at user
    · split at user
      · cases user
      split at user
      · cases user
        exact sanitize_stripped _
      split at user
      · cases user
      · cases user
    · cases user
  · cases user

theorem Moves.stripped {turns after : List Turn} {read : Reading} (moves : Moves turns read after)
    (own : ∀ text, read = .user text → Library.stripped text = text) (bare : ∀ turn ∈ turns, Library.stripped turn.user = turn.user) :
    ∀ turn ∈ after, Library.stripped turn.user = turn.user := by
  have added : ∀ (front : List Turn) (turn : Turn), (∀ other ∈ front, Library.stripped other.user = other.user) →
      Library.stripped turn.user = turn.user → ∀ other ∈ front ++ [turn], Library.stripped other.user = other.user := by
    intro front turn earlier here other member
    rcases List.mem_append.mp member with inside | last
    · exact earlier other inside
    · rw [List.mem_singleton.mp last]
      exact here
  have split : ∀ (front : List Turn) (last : Turn), turns = front ++ [last] →
      (∀ other ∈ front, Library.stripped other.user = other.user) ∧ Library.stripped last.user = last.user := by
    rintro front last rfl
    exact ⟨fun other member => bare other (by simp [member]), bare last (by simp)⟩
  cases moves with
  | nothing => exact bare
  | conflict => exact bare
  | unread => exact bare
  | unreadNew turn user => exact added turns turn bare (by rw [user]; rfl)
  | context turn user => exact added turns turn bare (by rw [user]; rfl)
  | opens text turn filled user => exact added turns turn bare (by rw [user]; exact own text rfl)
  | fills text front last turn made unfilled user => exact added front turn (split front last made).1 (by rw [user]; exact own text rfl)
  | answers text front last turn made user => exact added front turn (split front last made).1 (by rw [user]; exact (split front last made).2)
  | answersNone text turn made user => exact added [] turn (by simp) (by rw [user]; rfl)
  | other front last turn made user => exact added front turn (split front last made).1 (by rw [user]; exact (split front last made).2)
  | otherNone turn made user => exact added [] turn (by simp) (by rw [user]; rfl)

theorem users_stripped (records : List Fields) (plain : ∀ record ∈ records, WithoutTurnId record) :
    ∀ turn ∈ (readArchive isWord containerRepr stem records).turns, stripped turn.user = turn.user := by
  induction records using List.reverseRecOn with
  | nil => simp [readArchive]
  | append_singleton records record ih =>
    have before := ih fun other member => plain other (by simp [member])
    by_cases reached : ∀ other ∈ records, reading isWord containerRepr other ≠ .raises
    · exact (step_moves plain reached).stripped (fun text => reading_user_stripped) before
    · push Not at reached
      rw [step_stopped (fun other member => plain other (by simp [member])) reached]
      exact before

def reached (isWord : Char → Bool) (containerRepr : PyValue → String) (records : List Fields) : List Fields :=
  records.takeWhile fun record => reading isWord containerRepr record ≠ .raises

variable {records : List Fields}

theorem reached_append (all : ∀ other ∈ records, reading isWord containerRepr other ≠ .raises) :
    (reached isWord containerRepr (records ++ [record])).filterMap (retained? isWord containerRepr) =
      records.filterMap (retained? isWord containerRepr) ++ (retained? isWord containerRepr record).toList := by
  unfold reached
  rw [List.takeWhile_append_of_pos fun other member => by simpa using all other member, List.filterMap_append]
  by_cases raises : reading isWord containerRepr record = .raises
  · simp [raises, retained?, Reading.userText?]
  · simp [raises, List.filterMap_cons]
    cases retained? isWord containerRepr record <;> rfl

theorem userTexts_readArchive (records : List Fields) (plain : ∀ record ∈ records, WithoutTurnId record) :
    userTexts (readArchive isWord containerRepr stem records).turns =
      (reached isWord containerRepr records).filterMap (retained? isWord containerRepr) := by
  induction records using List.reverseRecOn with
  | nil => rfl
  | append_singleton records record ih =>
    have before := ih fun other member => plain other (by simp [member])
    by_cases all : ∀ other ∈ records, reading isWord containerRepr other ≠ .raises
    · have whole : reached isWord containerRepr records = records := List.takeWhile_eq_self_iff.mpr fun other member => by
        simpa using all other member
      rw [(step_moves plain all).userTexts, before, whole, reached_append all]
      rfl
    · push Not at all
      obtain ⟨raising, member, raises⟩ := all
      rw [step_stopped (fun other member => plain other (by simp [member])) ⟨raising, member, raises⟩, before]
      have same : reached isWord containerRepr (records ++ [record]) = reached isWord containerRepr records := by
        rw [reached, List.takeWhile_append, if_neg]
        · rfl
        intro full
        have all := List.takeWhile_eq_self_iff.mp ((List.takeWhile_prefix _).eq_of_length full) raising member
        simp [raises] at all
      rw [same]

/-! ### Replies -/

theorem isAuthored_of_user (user : reading isWord containerRepr record = .user text) :
    isAuthored record = true ∧ sanitizedText? isWord containerRepr record = some text := by
  unfold reading at user
  unfold isAuthored sanitizedText?
  cases content : member? record "payload" with
  | none => rw [content] at user; cases user
  | some value =>
    rw [content] at user
    cases value with
    | obj payload =>
      dsimp only at user ⊢
      split at user
      · cases user
      split at user
      · cases user
      · cases user
      unfold readingOfValid at user
      split at user
      · cases user
      split at user
      · next event =>
        split at user
        · next own =>
          cases user
          simp [isUser, event, own, authoredText]
        split at user
        · cases user
        · cases user
      · next event =>
        split at user
        · next item =>
          cases text : extractArchivedText isWord (member? payload "content") with
          | none => rw [text] at user; cases user
          | some found =>
            rw [text] at user
            dsimp only at user
            split at user
            · next own =>
              cases user
              simp [isUser, item, own, authoredText, text]
            split at user
            · cases user
            · cases user
        · cases user
    | _ => cases user

theorem snoc_eq_append_cons {α : Type} {items front middle : List α} {last item : α} (same : items ++ [last] = front ++ item :: middle) :
    (middle = [] ∧ front = items ∧ item = last) ∨ ∃ between, middle = between ++ [last] ∧ items = front ++ item :: between := by
  rcases middle.eq_nil_or_concat with rfl | ⟨between, final, rfl⟩
  · obtain ⟨rfl, tail⟩ := List.append_inj' same rfl
    exact .inl ⟨rfl, rfl, (List.cons.inj tail).1.symm⟩
  · rw [List.concat_eq_append] at *
    have shape : items ++ [last] = (front ++ item :: between) ++ [final] := by simpa using same
    obtain ⟨rfl, tail⟩ := List.append_inj' shape rfl
    exact .inr ⟨between, by rw [(List.cons.inj tail).1], rfl⟩

/-- The last turn is a user's exactly behind a record of that user, as long as no other turn is opened. -/
theorem lastUser_eq (plain : ∀ record ∈ records, WithoutTurnId record)
    (all : ∀ record ∈ records, reading isWord containerRepr record ≠ .raises) (filled : text ≠ "") :
    lastUser (readArchive isWord containerRepr stem records).turns = text ↔
      ∃ front user middle, records = front ++ user :: middle ∧ reading isWord containerRepr user = .user text ∧
        ∀ record ∈ middle, (reading isWord containerRepr record).opensTurn = false := by
  induction records using List.reverseRecOn with
  | nil =>
    constructor
    · intro empty
      exact absurd empty.symm filled
    · rintro ⟨front, user, middle, impossible, -⟩
      simp at impossible
  | append_singleton records record ih =>
    have before := ih (fun other member => plain other (by simp [member])) fun other member => all other (by simp [member])
    have moves := @step_moves isWord containerRepr stem _ _ plain fun other member => all other (by simp [member])
    rw [moves.lastUser (all record (by simp))]
    -- a record that opens a turn ends what was said before it
    have opened : (reading isWord containerRepr record).opensTurn = true → ∀ {front user middle},
        records ++ [record] = front ++ user :: middle →
          (∀ other ∈ middle, (reading isWord containerRepr other).opensTurn = false) → front = records ∧ user = record := by
      intro opens front user middle same closed
      rcases snoc_eq_append_cons same with ⟨-, rfl, rfl⟩ | ⟨between, rfl, -⟩
      · exact ⟨rfl, rfl⟩
      · have quiet := closed record (by simp)
        rw [opens] at quiet
        cases quiet
    have quiet : (reading isWord containerRepr record).opensTurn = false → ((∃ front user middle,
        records ++ [record] = front ++ user :: middle ∧ reading isWord containerRepr user = .user text ∧
          ∀ other ∈ middle, (reading isWord containerRepr other).opensTurn = false) ↔
        ∃ front user middle, records = front ++ user :: middle ∧ reading isWord containerRepr user = .user text ∧
          ∀ other ∈ middle, (reading isWord containerRepr other).opensTurn = false) := by
      intro still
      constructor
      · rintro ⟨front, user, middle, same, own, closed⟩
        rcases snoc_eq_append_cons same with ⟨-, rfl, rfl⟩ | ⟨between, rfl, rfl⟩
        · rw [own] at still
          cases still
        · exact ⟨front, user, between, rfl, own, fun other member => closed other (by simp [member])⟩
      · rintro ⟨front, user, middle, rfl, own, closed⟩
        refine ⟨front, user, middle ++ [record], by simp, own, fun other member => ?_⟩
        rcases List.mem_append.mp member with inside | last
        · exact closed other inside
        · rwa [List.mem_singleton.mp last]
    cases kind : reading isWord containerRepr record with
    | user own =>
      rw [kind] at opened
      constructor
      · rintro rfl
        exact ⟨records, record, [], rfl, kind, by simp⟩
      · rintro ⟨front, user, middle, same, said, closed⟩
        obtain ⟨-, rfl⟩ := opened rfl same closed
        rw [kind] at said
        exact Reading.user.inj said
    | context =>
      rw [kind] at opened
      constructor
      · intro empty
        exact absurd empty.symm filled
      · rintro ⟨front, user, middle, same, said, closed⟩
        obtain ⟨-, rfl⟩ := opened rfl same closed
        rw [kind] at said
        cases said
    | nothing => rw [quiet (by rw [kind]; rfl)]; exact before
    | conflict => rw [quiet (by rw [kind]; rfl)]; exact before
    | raises => rw [quiet (by rw [kind]; rfl)]; exact before
    | message own => rw [quiet (by rw [kind]; rfl)]; exact before
    | other => rw [quiet (by rw [kind]; rfl)]; exact before

variable {turn : Turn}

theorem turn_kept (more : List Fields) (plain : ∀ record ∈ before ++ more, WithoutTurnId record) {place : Nat}
    (there : (readArchive isWord containerRepr stem before).turns[place]? = some turn) (filled : turn.isFilled = true) :
    ∃ later, (readArchive isWord containerRepr stem (before ++ more)).turns[place]? = some later ∧ later.user = turn.user ∧
      turn.assistant <+: later.assistant ∧ later.isFilled = true := by
  induction more using List.reverseRecOn with
  | nil => exact ⟨turn, by rwa [List.append_nil], rfl, List.prefix_refl _, filled⟩
  | append_singleton more record ih =>
    rw [← List.append_assoc] at plain ⊢
    obtain ⟨later, found, user, grown, still⟩ := ih fun other member => plain other (List.mem_append_left _ member)
    by_cases all : ∀ other ∈ before ++ more, reading isWord containerRepr other ≠ .raises
    · obtain ⟨final, last, same, more, full⟩ := (step_moves plain all).keeps found still
      exact ⟨final, last, same.trans user, grown.trans more, full⟩
    · push Not at all
      rw [step_stopped (fun other member => plain other (List.mem_append_left _ member)) all]
      exact ⟨later, found, user, grown, still⟩

theorem mem_renderTurn : Block.assistant text ∈ renderTurn turn ↔
    stripped turn.user ≠ "" ∧ text ≠ "" ∧ ∃ message ∈ turn.assistant, stripped message = text := by
  unfold renderTurn
  dsimp only
  by_cases empty : stripped turn.user = ""
  · simp [empty]
  · simp [empty, List.mem_eraseDups, and_comm]

/-- What the renderings of an archive promise of those who wrote it. -/
structure OwnAuthority (isWord : Char → Bool) (containerRepr : PyValue → String) (stem : String) (records : List Fields) : Prop where
  /-- A message that is shown in the turn it was appended to follows a record of the user the turn is shown under. -/
  replies : ∀ before record after, records = before ++ record :: after → ∀ place text,
    assistantsAt (readArchive isWord containerRepr stem (before ++ [record])).turns place =
      assistantsAt (readArchive isWord containerRepr stem before).turns place ++ [text] →
    ∀ turn, (readArchive isWord containerRepr stem records).turns[place]? = some turn → Block.assistant (stripped text) ∈ renderTurn turn →
      ∃ user, LastOf isAuthored before user ∧ PartOf isWord containerRepr user turn.user
  /-- Whatever is retained of users is shown, in order. -/
  users : ((records.filterMap (retained? isWord containerRepr)).map Block.user).Sublist
    (conversationBlocks (parseCodexArchiveJsonlSession isWord containerRepr stem records).2)

/-- No record that is skipped for its author stands between a user and a reply, unless it says what the user says; and no
user is lost behind a record that raises. -/
structure Unbroken (isWord : Char → Bool) (containerRepr : PyValue → String) (records : List Fields) : Prop where
  replies : ∀ before user middle reply after, records = before ++ user :: middle ++ reply :: after →
    (∀ record ∈ before ++ user :: middle, reading isWord containerRepr record ≠ .raises) →
    ∀ text message, reading isWord containerRepr user = .user text → text ≠ "" →
      (∀ record ∈ middle, (reading isWord containerRepr record).opensTurn = false) →
      reading isWord containerRepr reply = .message message → stripped message ≠ "" →
      ∀ skipped, LastOf isAuthored middle skipped → PartOf isWord containerRepr skipped text
  users : ∀ before record after, records = before ++ record :: after → reading isWord containerRepr record = .raises →
    ∀ later ∈ after, retained? isWord containerRepr later = none

section
variable {records : List Fields}

theorem replies_of_unbroken (plain : ∀ record ∈ records, WithoutTurnId record) (unbroken : Unbroken isWord containerRepr records) {before after : List Fields} {record : Fields}
    (split : records = before ++ record :: after) {place : Nat} {text : String}
    (appends : assistantsAt (readArchive isWord containerRepr stem (before ++ [record])).turns place =
      assistantsAt (readArchive isWord containerRepr stem before).turns place ++ [text])
    {turn : Turn} (there : (readArchive isWord containerRepr stem records).turns[place]? = some turn)
    (shown : Block.assistant (stripped text) ∈ renderTurn turn) :
    ∃ user, LastOf isAuthored before user ∧ PartOf isWord containerRepr user turn.user := by
  have whole : records = before ++ [record] ++ after := by simp [split]
  have first : ∀ other ∈ before ++ [record], WithoutTurnId other := fun other member =>
    plain other (whole ▸ List.mem_append_left after member)
  have all : ∀ other ∈ before, reading isWord containerRepr other ≠ .raises := by
    by_contra some
    push Not at some
    rw [step_stopped (fun other member => first other (by simp [member])) some] at appends
    simp at appends
  obtain ⟨said, early, found, user, filled⟩ := (step_moves first all).appended appends
  rw [whole] at plain
  obtain ⟨later, last, same, -, -⟩ := turn_kept after plain found filled
  rw [← whole, there] at last
  obtain rfl := Option.some.inj last
  obtain ⟨authored, visible, -⟩ := mem_renderTurn.mp shown
  have named : turn.user ≠ "" := fun empty => authored (by rw [empty]; rfl)
  have owner : lastUser (readArchive isWord containerRepr stem before).turns = turn.user := by rw [same, user]
  obtain ⟨front, own, middle, rfl, wrote, closed⟩ :=
    (lastUser_eq (fun other member => first other (by simp [member])) all named).mp owner
  have own' := isAuthored_of_user wrote
  by_cases skips : ∃ other ∈ middle, isAuthored other = true
  · obtain ⟨skipped, final⟩ := exists_lastOf skips
    obtain ⟨start, back, rfl, authors, none⟩ := final
    refine ⟨skipped, ⟨front ++ own :: start, back, by simp, authors, none⟩, ?_⟩
    exact unbroken.replies front own _ record after (by simp [split]) all _ text wrote named closed said visible skipped
      ⟨start, back, rfl, authors, none⟩
  · push Not at skips
    refine ⟨own, ⟨front, middle, rfl, own'.1, fun other member => Bool.not_eq_true _ ▸ skips other member⟩, _, own'.2, named,
      List.infix_rfl⟩

theorem unbroken_of_replies (plain : ∀ record ∈ records, WithoutTurnId record)
    (own : OwnAuthority isWord containerRepr stem records) {before middle after : List Fields} {user reply : Fields}
    (split : records = before ++ user :: middle ++ reply :: after)
    (all : ∀ record ∈ before ++ user :: middle, reading isWord containerRepr record ≠ .raises) {text message : String}
    (wrote : reading isWord containerRepr user = .user text) (named : text ≠ "")
    (closed : ∀ record ∈ middle, (reading isWord containerRepr record).opensTurn = false)
    (said : reading isWord containerRepr reply = .message message) (visible : stripped message ≠ "") {skipped : Fields}
    (last : LastOf isAuthored middle skipped) : PartOf isWord containerRepr skipped text := by
  have whole : records = before ++ user :: middle ++ [reply] ++ after := by simp [split]
  have first : ∀ other ∈ before ++ user :: middle ++ [reply], WithoutTurnId other := fun other member =>
    plain other (whole ▸ List.mem_append_left after member)
  have moves := @step_moves isWord containerRepr stem _ _ first all
  rw [said] at moves
  obtain ⟨place, appends⟩ := moves.message
  obtain ⟨-, early, found, owner, filled⟩ := moves.appended appends
  have started : lastUser (readArchive isWord containerRepr stem (before ++ user :: middle)).turns = text :=
    (lastUser_eq (fun other member => first other (List.mem_append_left _ member)) all named).mpr ⟨before, user, middle, rfl, wrote, closed⟩
  rw [whole] at plain
  obtain ⟨turn, there, same, grown, -⟩ := turn_kept after plain found filled
  rw [← whole] at there
  have under : turn.user = text := by rw [same, owner, started]
  have shown : Block.assistant (stripped message) ∈ renderTurn turn := by
    refine mem_renderTurn.mpr ⟨?_, visible, message, ?_, rfl⟩
    · rw [under, reading_user_stripped wrote]
      exact named
    · have here : message ∈ assistantsAt (readArchive isWord containerRepr stem (before ++ user :: middle ++ [reply])).turns place := by
        rw [appends]
        simp
      rw [assistantsAt, found] at here
      exact grown.subset here
  obtain ⟨author, latest, part⟩ := own.replies _ reply after (by simp [split]) place message appends turn there shown
  -- the last author before the reply stands in the middle
  obtain ⟨start, back, rfl, authors, none⟩ := last
  have here : LastOf isAuthored (before ++ user :: (start ++ skipped :: back)) skipped := ⟨before ++ user :: start, back, by simp, authors, none⟩
  rw [here.unique latest, ← under]
  exact part

end

/-! ### Users -/

def Block.user? : Block → Option String
  | .user text => some text
  | .assistant _ => none

theorem renderTurn_users (bare : stripped turn.user = turn.user) :
    (renderTurn turn).filterMap Block.user? = if turn.user = "" then [] else [turn.user] := by
  unfold renderTurn
  dsimp only
  rw [bare]
  split
  · rfl
  · rw [List.filterMap_cons]
    simp [Block.user?, List.filterMap_map, Function.comp_def]

theorem userTexts_cons (turn : Turn) (rest : List Turn) :
    userTexts (turn :: rest) = (if turn.user = "" then [] else [turn.user]) ++ userTexts rest := by
  unfold userTexts
  by_cases empty : turn.user = "" <;> simp [empty]

theorem conversation_users {turns : List Turn} (bare : ∀ turn ∈ turns, stripped turn.user = turn.user) :
    (conversationBlocks (turns.filter fun turn => turn.user ≠ "" || turn.assistant ≠ [])).filterMap Block.user? = userTexts turns := by
  induction turns with
  | nil => rfl
  | cons turn rest ih =>
    rw [List.forall_mem_cons] at bare
    rw [userTexts_cons, ← ih bare.2, ← renderTurn_users bare.1]
    by_cases kept : turn.user ≠ "" ∨ turn.assistant ≠ []
    · rw [List.filter_cons_of_pos (by simpa using kept), conversationBlocks, List.flatMap_cons, List.filterMap_append]
      rfl
    · rw [List.filter_cons_of_neg (by simpa using kept)]
      rw [not_or, not_not] at kept
      rw [renderTurn_users bare.1, if_pos kept.1, List.nil_append]

theorem users_sublist (blocks : List Block) : ((blocks.filterMap Block.user?).map Block.user).Sublist blocks := by
  induction blocks with
  | nil => exact .slnil
  | cons block rest ih =>
    cases block with
    | user text => exact ih.cons_cons _
    | assistant text => exact ih.cons _

theorem shown_users {records : List Fields} (plain : ∀ record ∈ records, WithoutTurnId record) :
    (conversationBlocks (parseCodexArchiveJsonlSession isWord containerRepr stem records).2).filterMap Block.user? =
      (reached isWord containerRepr records).filterMap (retained? isWord containerRepr) := by
  rw [← @userTexts_readArchive isWord containerRepr stem records plain]
  exact conversation_users (users_stripped records plain)

def unread (isWord : Char → Bool) (containerRepr : PyValue → String) (records : List Fields) : List Fields :=
  records.dropWhile fun record => reading isWord containerRepr record ≠ .raises

theorem reached_unread (records : List Fields) : reached isWord containerRepr records ++ unread isWord containerRepr records = records :=
  List.takeWhile_append_dropWhile

theorem mem_unread {after : List Fields} {later : Fields} (split : records = before ++ record :: after)
    (raises : reading isWord containerRepr record = .raises) (member : later ∈ after) : later ∈ unread isWord containerRepr records := by
  unfold unread
  rw [split, List.dropWhile_append]
  split
  · rw [List.dropWhile_cons_of_neg (by simp [raises])]
    exact List.mem_cons_of_mem _ member
  · exact List.mem_append_right _ (List.mem_cons_of_mem _ member)

theorem users_iff (plain : ∀ record ∈ records, WithoutTurnId record) :
    ((records.filterMap (retained? isWord containerRepr)).map Block.user).Sublist
        (conversationBlocks (parseCodexArchiveJsonlSession isWord containerRepr stem records).2) ↔
      ∀ before record after, records = before ++ record :: after → reading isWord containerRepr record = .raises →
        ∀ later ∈ after, retained? isWord containerRepr later = none := by
  have shown := @shown_users isWord containerRepr stem records plain
  have whole := @reached_unread isWord containerRepr records
  have retained : records.filterMap (retained? isWord containerRepr) =
      (reached isWord containerRepr records).filterMap (retained? isWord containerRepr) ++
        (unread isWord containerRepr records).filterMap (retained? isWord containerRepr) := by
    rw [← List.filterMap_append, whole]
  constructor
  · intro sub before record after split raises later member
    have users := sub.filterMap Block.user?
    rw [shown, List.filterMap_map, retained] at users
    have length := users.length_le
    have none : (unread isWord containerRepr records).filterMap (retained? isWord containerRepr) = [] := by
      simpa [Function.comp_def, Block.user?] using length
    rw [List.filterMap_eq_nil_iff] at none
    exact none later (mem_unread split raises member)
  · intro lost
    have none : (unread isWord containerRepr records).filterMap (retained? isWord containerRepr) = [] := by
      cases rest : unread isWord containerRepr records with
      | nil => rfl
      | cons record after =>
        have raises := List.head?_dropWhile_not (fun record => reading isWord containerRepr record ≠ .raises) records
        rw [show records.dropWhile _ = record :: after from rest] at raises
        simp only [List.head?_cons, ne_eq, decide_eq_false_iff_not, not_not] at raises
        rw [rest] at whole
        refine List.filterMap_eq_nil_iff.mpr fun later member => ?_
        rcases List.mem_cons.mp member with rfl | behind
        · rw [retained?, raises]
          rfl
        · exact lost _ record after whole.symm raises later behind
    rw [retained, none, List.append_nil, ← shown]
    exact users_sublist _

/-- An archive without turn ids keeps every reply under its own user, and every user, exactly where no record that is
skipped for its author stands between them and no user is lost behind a record that raises. -/
theorem own_authority_iff {records : List Fields} (plain : ∀ record ∈ records, WithoutTurnId record) :
    OwnAuthority isWord containerRepr stem records ↔ Unbroken isWord containerRepr records := by
  constructor
  · intro own
    refine ⟨?_, (users_iff plain).mp own.users⟩
    intro before user middle reply after split all text message wrote named closed said visible skipped last
    exact unbroken_of_replies plain own split all wrote named closed said visible last
  · intro unbroken
    refine ⟨?_, (users_iff plain).mpr unbroken.users⟩
    intro before record after split place text appends turn there shown
    exact replies_of_unbroken plain unbroken split appends there shown

/-! ### A host prompt between a user and a reply -/

section

def event (role kind message : String) : Fields :=
  [("type", .str "event_msg"), ("role", .str role),
    ("payload", .obj [("type", .str kind), ("message", .str message), ("phase", .str "final_answer")])]

def asked : Fields := event "user" "user_message" "Fix the bug"

def prompted : Fields := event "assistant" "user_message" "Host prompt"

def answered : Fields := event "assistant" "agent_message" "Done"

theorem event_withoutTurnId (role kind message : String) : WithoutTurnId (event role kind message) := by
  intro payload here
  obtain rfl : [("type", JsonValue.str kind), ("message", .str message), ("phase", .str "final_answer")] = payload := by
    simpa [event, member?] using here
  simp [member?]

theorem dialogue_own_authority : OwnAuthority (fun _ => false) (fun _ => "") "s" [asked, answered] := by
  have plain : ∀ record ∈ [asked, answered], WithoutTurnId record := by
    intro record member
    rcases List.mem_pair.mp member with rfl | rfl <;> exact event_withoutTurnId _ _ _
  have reads : ∀ record ∈ [asked, answered], reading (fun _ => false) (fun _ => "") record ≠ .raises := by decide +kernel
  refine (own_authority_iff plain).mpr ⟨?_, ?_⟩
  · intro before user middle reply after split _ text message _ _ _ _ _ skipped last
    have length := congrArg List.length split
    simp only [List.length_append, List.length_cons, List.length_nil] at length
    obtain rfl : middle = [] := List.length_eq_zero_iff.mp (by omega)
    obtain ⟨start, back, impossible, -⟩ := last
    simp at impossible
  · intro before record after split raises
    exact absurd raises (reads record (by simp [split]))

/-- The reply to a host prompt that is skipped for its author stands under the user before it. -/
theorem own_authority_fails :
    ¬ ∀ (isWord : Char → Bool) (containerRepr : PyValue → String) (stem : String) (records : List Fields),
      (∀ record ∈ records, WithoutTurnId record) → OwnAuthority isWord containerRepr stem records := by
  intro claim
  have plain : ∀ record ∈ [asked, prompted, answered], WithoutTurnId record := by
    intro record member
    simp only [List.mem_cons, List.not_mem_nil, or_false] at member
    rcases member with rfl | rfl | rfl <;> exact event_withoutTurnId _ _ _
  have own := claim (fun _ => false) (fun _ => "") "s" [asked, prompted, answered] plain
  have turns : (readArchive (fun _ => false) (fun _ => "") "s" [asked, prompted, answered]).turns.map
      (fun turn => (turn.user, turn.assistant, renderTurn turn)) =
        [("Fix the bug", ["Done"], [.user "Fix the bug", .assistant "Done"])] := by decide +kernel
  have appends : assistantsAt (readArchive (fun _ => false) (fun _ => "") "s" ([asked, prompted] ++ [answered])).turns 0 =
      assistantsAt (readArchive (fun _ => false) (fun _ => "") "s" [asked, prompted]).turns 0 ++ ["Done"] := by decide +kernel
  obtain ⟨turn, made, same⟩ := List.map_eq_singleton_iff.mp turns
  simp only [Prod.mk.injEq] at same
  have shown : Block.assistant (stripped "Done") ∈ renderTurn turn := by
    rw [same.2.2]
    decide +kernel
  obtain ⟨user, last, text, wrote, -, part⟩ := own.replies [asked, prompted] answered [] rfl 0 "Done" appends turn (by rw [made]; rfl) shown
  -- the last author before the reply is the host
  have host : LastOf isAuthored [asked, prompted] prompted := ⟨[asked], [], rfl, by decide +kernel, by simp⟩
  obtain rfl := last.unique host
  have prompt : sanitizedText? (fun _ => false) (fun _ => "") prompted = some "Host prompt" := by decide +kernel
  obtain rfl := Option.some.inj (wrote.symm.trans prompt)
  rw [same.1] at part
  exact absurd part (by decide +kernel)

end

end HarnessMem.Adapters
