import HarnessMem.Adapters.Cursor
import HarnessMem.Library.Lists
import HarnessMem.Library.Results

/-! What is pinned of a Cursor session can be read back. -/

set_option autoImplicit false

namespace HarnessMem.Adapters.Cursor

open Library

/-! ### Keys -/

theorem covBy_next {c : Char} (valid : (c.toNat + 1).isValidChar) : c ⋖ Char.ofNat (c.toNat + 1) := by
  have number : (Char.ofNat (c.toNat + 1)).toNat = c.toNat + 1 := by
    rw [Char.ofNat, dif_pos valid]
    rfl
  refine ⟨?_, fun d above below => ?_⟩
  · change c.toNat < (Char.ofNat (c.toNat + 1)).toNat
    omega
  · have low : c.toNat < d.toNat := above
    have high : d.toNat < (Char.ofNat (c.toNat + 1)).toNat := below
    omega

def Starts (start : KeyStart) (key : String) : Prop := start.text.toList <+: key.toList

instance (start : KeyStart) (key : String) : Decidable (Starts start key) :=
  inferInstanceAs (Decidable (start.text.toList <+: key.toList))

variable {start : KeyStart} {key : String}

theorem in_range : (start.text ≤ key && key < start.bound) = true ↔ Starts start key := by
  rw [Bool.and_eq_true, decide_eq_true_eq, decide_eq_true_eq, String.le_iff_toList_le, String.lt_iff_toList_lt]
  unfold KeyStart.text KeyStart.bound Starts KeyStart.text
  rw [String.toList_push, String.toList_push]
  exact prefix_iff_between (covBy_next start.bounded) _ _

theorem Starts.eq (starts : Starts start key) : key = start.text ++ behind start key := by
  obtain ⟨rest, same⟩ := starts
  apply String.toList_inj.mp
  rw [String.toList_append, behind, String.toList_ofList, ← same, ← String.length_toList, List.drop_left]

theorem starts_append (start : KeyStart) (rest : String) : Starts start (start.text ++ rest) := by
  rw [Starts, String.toList_append]
  exact List.prefix_append _ _

theorem behind_append (start : KeyStart) (rest : String) : behind start (start.text ++ rest) = rest := by
  rw [behind, String.toList_append, ← String.length_toList, List.drop_left, String.ofList_toList]

theorem lastPart_eq (ends : start.last = ':') (starts : Starts start key) :
    lastPart key = behind start key ↔ ':' ∉ (behind start key).toList := by
  constructor
  · intro same colon
    rw [← same, lastPart, String.toList_ofList, List.mem_reverse] at colon
    have other := List.mem_takeWhile_imp colon
    simp at other
  · intro none
    have shape : key.toList.reverse = (behind start key).toList.reverse ++ ':' :: start.front.toList.reverse := by
      rw [congrArg String.toList starts.eq, String.toList_append, KeyStart.text, String.toList_push, ends]
      simp
    have others : ∀ c ∈ (behind start key).toList.reverse, decide (c ≠ ':') = true := by
      intro c member
      rw [decide_eq_true_eq]
      rintro rfl
      exact none (List.mem_reverse.mp member)
    rw [lastPart, shape, List.takeWhile_append_of_pos others, List.takeWhile_cons_of_neg (by simp), List.append_nil, List.reverse_reverse, String.ofList_toList]

/-! ### The bubbles of a session -/

def entry? (row : Row) : Option (String × Fields) := (object row.value).toOption.map fun fields => (row.key, fields)

section
variable (rows : List Row) (sessionId : String)

def sessionBubbles : List (String × Fields) :=
  ((rows.filter fun row => Starts (bubbleStart sessionId) row.key).insertionSort fun first second => first.key ≤ second.key).filterMap entry?

def listedIds : List String :=
  match (rows.find? fun row => row.key = composerStart.text ++ sessionId).bind entry? with
  | some (_, composer) =>
    match member? composer "fullConversationHeadersOnly" with
    | some (.arr headers) => (headerIds headers).getD []
    | _ => []
  | none => []

def bubblesInOrder : List (String × Fields) :=
  (listedIds rows sessionId).filterMap (fun id => (sessionBubbles rows sessionId).find? fun bubble => text? bubble.2 "bubbleId" = some id) ++
    (sessionBubbles rows sessionId).filter fun bubble => !isAmong (text? bubble.2 "bubbleId") ((listedIds rows sessionId).map some)

end

/-- The result is a message for each bubble that says anything, or an author conflict where there is one. -/
inductive Decodes (containerRepr : PyValue → String) (bubbles : List (String × Fields)) : Except ExportError (List Message) → Prop where
  | messages : (∀ bubble ∈ bubbles, hasAuthorConflict bubble.2 = false) →
      Decodes containerRepr bubbles (.ok (bubbles.filterMap fun bubble => bubbleMessage? containerRepr bubble.2))
  | conflict (bubble : String × Fields) : bubble ∈ bubbles → hasAuthorConflict bubble.2 = true →
      Decodes containerRepr bubbles (.error (.history .authorConflict))

def Plain (start : KeyStart) (bubble : String × Fields) : Prop :=
  ':' ∉ (behind start bubble.1).toList ∧ isUnhashable (member? bubble.2 "role") = false

def Sound (start : KeyStart) (bubbles : List (String × Fields)) : Prop :=
  ∀ front bubble back, bubbles = front ++ bubble :: back → (∀ other ∈ front, hasAuthorConflict other.2 = false) → Plain start bubble

/-- What the keys and the roles of a session have to be for its export to be read. -/
structure Readable (rows : List Row) (sessionId : String) : Prop where
  /-- No listed bubble has a colon in the rest of its key. -/
  listed : ∀ bubble ∈ sessionBubbles rows sessionId, text? bubble.2 "bubbleId" ∈ (listedIds rows sessionId).map some →
    ':' ∉ (behind (bubbleStart sessionId) bubble.1).toList
  sound : Sound (bubbleStart sessionId) (bubblesInOrder rows sessionId)

/-! ### The loop over the bubbles -/

section
variable {containerRepr : PyValue → String} {start : KeyStart}

theorem sound_cons {bubble : String × Fields} {rest : List (String × Fields)} :
    Sound start (bubble :: rest) ↔ Plain start bubble ∧ (hasAuthorConflict bubble.2 = false → Sound start rest) := by
  constructor
  · intro sound
    refine ⟨sound [] bubble rest rfl (by simp), fun clear front other back same quiet => ?_⟩
    exact sound (bubble :: front) other back (by rw [same]; rfl) (List.forall_mem_cons.mpr ⟨clear, quiet⟩)
  · rintro ⟨plain, later⟩ front other back same quiet
    cases front with
    | nil =>
      obtain ⟨rfl, -⟩ := List.cons.inj same
      exact plain
    | cons first front =>
      obtain ⟨rfl, rfl⟩ := List.cons.inj same
      rw [List.forall_mem_cons] at quiet
      exact later quiet.1 front other back rfl quiet.2

theorem decodes_cons {bubble : String × Fields} {rest : List (String × Fields)} (clear : hasAuthorConflict bubble.2 = false)
    {result : Except ExportError (List Message)} :
    Decodes containerRepr (bubble :: rest) (result.map ((bubbleMessage? containerRepr bubble.2).toList ++ ·)) ↔
      Decodes containerRepr rest result := by
  have shape : (bubble :: rest).filterMap (fun other => bubbleMessage? containerRepr other.2) =
      (bubbleMessage? containerRepr bubble.2).toList ++ rest.filterMap fun other => bubbleMessage? containerRepr other.2 := by
    rw [List.filterMap_cons]
    cases bubbleMessage? containerRepr bubble.2 <;> rfl
  constructor
  · intro decodes
    cases result with
    | error error =>
      obtain ⟨⟩ | ⟨other, member, conflict⟩ := decodes
      rcases List.mem_cons.mp member with rfl | later
      · rw [clear] at conflict
        cases conflict
      · exact .conflict other later conflict
    | ok messages =>
      generalize made : Except.map _ (Except.ok messages : Except ExportError (List Message)) = whole at decodes
      cases decodes with
      | messages quiet =>
        rw [shape] at made
        have same : messages = rest.filterMap fun other => bubbleMessage? containerRepr other.2 := by
          simpa [Except.map] using made
        rw [same]
        exact .messages fun other member => quiet other (List.mem_cons_of_mem _ member)
      | conflict => cases made
  · intro decodes
    cases decodes with
    | messages quiet =>
      have whole := @Decodes.messages containerRepr _ (List.forall_mem_cons.mpr ⟨clear, quiet⟩)
      rwa [shape] at whole
    | conflict other member conflict => exact .conflict other (List.mem_cons_of_mem _ member) conflict

theorem decodes_error {bubbles : List (String × Fields)} {error : ExportError} (other : error ≠ .history .authorConflict) :
    ¬Decodes containerRepr bubbles (.error error) := by
  intro decodes
  cases decodes
  exact other rfl

theorem exportBubbles_decodes {values : List (String × Fields)} (unique : (values.map (·.1)).Nodup)
    (own : ∀ bubble ∈ values, Starts start bubble.1 ∧ text? bubble.2 "bubbleId" = some (lastPart bubble.1)) (ends : start.last = ':')
    {bubbles : List (String × Fields)} (inside : ∀ bubble ∈ bubbles, bubble ∈ values) :
    Decodes containerRepr bubbles (exportBubbles containerRepr start values (bubbles.map (·.1))) ↔ Sound start bubbles := by
  induction bubbles with
  | nil =>
    refine iff_of_true (.messages (by simp)) fun front bubble back same => ?_
    simp at same
  | cons bubble rest ih =>
    rw [List.forall_mem_cons] at inside
    have found : ((values.find? fun entry => entry.1 = bubble.1).map (·.2)).getD [] = bubble.2 := by
      rw [@find?_of_nodup _ _ _ Prod.fst values unique bubble inside.1]
      rfl
    have later := ih inside.2
    obtain ⟨starts, named⟩ := own bubble inside.1
    rw [sound_cons, List.map_cons, exportBubbles, found, named]
    by_cases colon : ':' ∈ (behind start bubble.1).toList
    · have other : some (lastPart bubble.1) ≠ some (behind start bubble.1) := fun same =>
        ((lastPart_eq ends starts).mp (Option.some.inj same)) colon
      dsimp only
      rw [if_pos other]
      exact iff_of_false (decodes_error (by simp)) fun sound => sound.1.1 colon
    · rw [(lastPart_eq ends starts).mpr colon]
      dsimp only
      rw [if_neg (by simp)]
      by_cases hash : isUnhashable (member? bubble.2 "role") = true
      · rw [if_pos hash]
        refine iff_of_false (decodes_error (by simp)) fun sound => ?_
        rw [sound.1.2] at hash
        cases hash
      · have plain : Plain start bubble := ⟨colon, Bool.not_eq_true _ ▸ hash⟩
        rw [if_neg hash]
        by_cases conflict : hasAuthorConflict bubble.2 = true
        · rw [if_pos conflict]
          refine iff_of_true (.conflict bubble (by simp) conflict) ⟨plain, fun clear => ?_⟩
          rw [clear] at conflict
          cases conflict
        · have clear := Bool.not_eq_true _ ▸ conflict
          rw [if_neg conflict]
          exact ((decodes_cons clear).trans later).trans ⟨fun sound => ⟨plain, fun _ => sound⟩, fun sound => sound.2 clear⟩

end

/-! ### What is pinned -/

theorem prefixRows_eq (rows : List Row) (start : KeyStart) :
    prefixRows rows start =
      (rows.filter fun row => Starts start row.key).insertionSort fun first second => first.key ≤ second.key := by
  unfold prefixRows
  congr 1
  refine List.filter_congr fun row _ => ?_
  rw [Bool.eq_iff_iff, in_range, decide_eq_true_eq]

theorem sessionBubbles_eq (rows : List Row) (sessionId : String) :
    sessionBubbles rows sessionId = (prefixRows rows (bubbleStart sessionId)).filterMap entry? := by
  rw [prefixRows_eq]
  rfl

variable {rows : List Row} {row : Row}

theorem mem_prefixRows :
    row ∈ prefixRows rows start ↔ row ∈ rows ∧ Starts start row.key := by
  rw [prefixRows_eq, List.mem_insertionSort, List.mem_filter, decide_eq_true_eq]

structure Pinned (rows : List Row) (row : Row) (source : CursorSQLiteSource) (composer : Fields) (headers : List JsonValue)
    (ids : List String) : Prop where
  key : source.sessionId = behind composerStart row.key
  read : object row.value = .ok composer
  named : text? composer "composerId" = some source.sessionId
  listed : member? composer "fullConversationHeadersOnly" = some (.arr headers)
  plain : headerIds headers = some ids
  distinct : ids.Nodup
  found : ∀ id ∈ ids, id ∈ (prefixRows rows (bubbleStart source.sessionId)).map fun bubble => lastPart bubble.key
  single : ((prefixRows rows (bubbleStart source.sessionId)).map fun bubble => lastPart bubble.key).Nodup
  checked : checkBubbles (prefixRows rows (bubbleStart source.sessionId)) = .ok ()
  raw : source.rawBytes = exportBytes (row :: prefixRows rows (bubbleStart source.sessionId))

variable {source : CursorSQLiteSource}

theorem pinSession_ok {owner : Option String}
    (pins : pinSession rows row owner = .ok source) : ∃ composer headers ids, Pinned rows row source composer headers ids := by
  unfold pinSession at pins
  obtain ⟨composer, read, pins⟩ := bind_eq_ok.mp pins
  dsimp only at pins
  split at pins
  · cases pins
  next plain =>
  push Not at plain
  split at pins
  · next headers listed =>
    split at pins
    · cases pins
    · next ids own =>
      split at pins
      · cases pins
      next distinct =>
      split at pins
      · cases pins
      next found =>
      push Not at found distinct
      obtain ⟨⟨⟩, checked, pins⟩ := bind_eq_ok.mp pins
      obtain rfl := Except.ok.inj pins
      refine ⟨composer, headers, ids, ?_⟩
      constructor
      · rfl
      · exact read
      · exact plain.2.2
      · exact listed
      · exact own
      · exact distinct
      · exact found.1
      · exact found.2
      · exact checked
      · dsimp only
  · cases pins

theorem mem_pinSessions {database : Database} {projectRoot : Option String} {memberships : Memberships} {composers : List Row} (member : source ∈ (pinSessions database projectRoot memberships composers).1) :
    ∃ row ∈ composers, ∃ owner, pinSession database.rows row owner = .ok source := by
  induction composers with
  | nil => cases member
  | cons row rest ih =>
    have later : source ∈ (pinSessions database projectRoot memberships rest).1 →
        ∃ other ∈ row :: rest, ∃ owner, pinSession database.rows other owner = .ok source := by
      intro here
      obtain ⟨other, inside, pins⟩ := ih here
      exact ⟨other, List.mem_cons_of_mem _ inside, pins⟩
    unfold pinSessions at member
    dsimp only at member
    split at member
    · exact later member
    · split at member
      · next own pins =>
        rcases List.mem_cons.mp member with rfl | here
        · exact ⟨row, List.mem_cons_self, _, pins⟩
        · exact later here
      · exact later member

theorem mem_enumerateSourceRecords {database : Database} {projectRoot : Option String} {memberships : Memberships}
    {sessionId : Option String}
    (member : source ∈ (enumerateSourceRecords database projectRoot memberships sessionId).1) :
    ∃ row ∈ database.rows, Starts composerStart row.key ∧ ∃ owner, pinSession database.rows row owner = .ok source := by
  unfold enumerateSourceRecords at member
  dsimp only at member
  split at member
  · cases member
  split at member
  · cases member
  · next composers selected =>
    split at member
    · cases member
    obtain ⟨row, inside, pins⟩ := mem_pinSessions member
    unfold selectComposers at selected
    split at selected
    · cases selected
    · obtain rfl := Except.ok.inj selected
      obtain ⟨here, starts⟩ := mem_prefixRows.mp inside
      exact ⟨row, here, starts, pins⟩
    · next id _ =>
      split at selected
      · cases selected
      · obtain rfl := Except.ok.inj selected
        obtain ⟨here, same⟩ := List.mem_filter.mp inside
        rw [decide_eq_true_eq] at same
        exact ⟨row, here, same ▸ starts_append composerStart id, pins⟩

theorem checkBubbles_ok {bubbles : List Row} (checked : checkBubbles bubbles = .ok ()) :
    ∀ row ∈ bubbles, ∃ text fields, row.value = some text ∧ object (some text) = .ok fields ∧
      text? fields "bubbleId" = some (lastPart row.key) := by
  induction bubbles with
  | nil => simp
  | cons row rest ih =>
    unfold checkBubbles at checked
    obtain ⟨fields, read, checked⟩ := bind_eq_ok.mp checked
    dsimp only at checked
    split at checked
    · cases checked
    next named =>
    refine List.forall_mem_cons.mpr ⟨?_, ih checked⟩
    cases value : row.value with
    | none => rw [value] at read; cases read
    | some text =>
      rw [value] at read
      exact ⟨text, fields, rfl, read, not_not.mp named⟩

/-! ### What is read back -/

theorem entry?_eq {fields : Fields} (read : object row.value = .ok fields) : entry? row = some (row.key, fields) := by
  rw [ entry?, read]
  rfl

theorem exportValues_rows (objects : ∀ row ∈ rows, ∃ text fields, row.value = some text ∧ object (some text) = .ok fields)
    {done : List (String × Fields)} (unique : (done.map (·.1) ++ rows.map (·.key)).Nodup) :
    exportValues done (rows.map fun row => .arr [.str row.key, .str row.text]) = .ok (done ++ rows.filterMap entry?) := by
  induction rows generalizing done with
  | nil => rw [List.map_nil, exportValues, List.filterMap_nil, List.append_nil]
  | cons row rest ih =>
    obtain ⟨⟨text, fields, value, read⟩, later⟩ := List.forall_mem_cons.mp objects
    have fresh : row.key ∉ done.map (·.1) := by
      intro known
      exact (List.nodup_append.mp unique).2.2 row.key known row.key (by simp) rfl
    have here : entry? row = some (row.key, fields) := entry?_eq (value ▸ read)
    rw [List.map_cons, exportValues, if_neg fresh, List.filterMap_cons_some here, Row.text, value]
    dsimp only [Option.getD_some]
    rw [read]
    have next : exportValues (done ++ [(row.key, fields)]) _ = _ := ih later (by simpa using unique)
    rw [List.append_assoc] at next
    exact next

theorem exportDocument_distinct (rows : List Row) : (exportDocument rows).distinct = true := by
  have records : JsonValue.distinctItems (rows.map fun row => .arr [.str row.key, .str row.text]) = true := by
    induction rows with
    | nil => rfl
    | cons row rest ih => simpa [JsonValue.distinctItems, JsonValue.distinct] using ih
  simp [exportDocument, JsonValue.distinct, JsonValue.distinctFields, records]

theorem decode_exportBytes (rows : List Row) :
    (decodeUtf8Sig (exportBytes rows)).bind (fun text => loads text.toList) = some (exportDocument rows) := by
  have head : ((exportDocument rows).dumps false).head? = some '{' := by
    simp [exportDocument, JsonValue.dumps]
  rw [decodeUtf8Sig, exportBytes, decodeUtf8_encodeUtf8, Option.map_some, String.toList_ofList, head, if_neg (by decide), Option.bind_some,
    String.toList_ofList, loads_dumps false (exportDocument_distinct rows)]

theorem exportKeys_eq {sessionId : String} {values : List (String × Fields)} {composer : Fields} {headers : List JsonValue}
    {ids : List String} (named : text? composer "composerId" = some sessionId)
    (listed : member? composer "fullConversationHeadersOnly" = some (.arr headers)) (plain : headerIds headers = some ids)
    (distinct : ids.Nodup) (starts : ∀ entry ∈ values, Starts (bubbleStart sessionId) entry.1)
    (sorted : (values.map (·.1)).Pairwise (· ≤ ·)) :
    exportKeys sessionId values composer =
      if ∀ id ∈ ids, (bubbleStart sessionId).text ++ id ∈ values.map (·.1) then
        .ok (ids.map (fun id => (bubbleStart sessionId).text ++ id) ++
          (values.map (·.1)).filter (· ∉ ids.map fun id => (bubbleStart sessionId).text ++ id))
      else .error .incompleteBubbles := by
  have none : values.any (fun entry => !(bubbleStart sessionId).text.toList.isPrefixOf entry.1.toList) = false := by
    rw [List.any_eq_false]
    intro entry member
    have here : _ <+: _ := starts entry member
    simpa using here
  unfold exportKeys
  rw [named, listed]
  dsimp only
  rw [if_neg (by simp), plain]
  dsimp only
  rw [if_neg (not_not.mpr distinct), none, if_neg (by simp), (sorted.filter _).insertionSort_eq]
  by_cases all : ∀ id ∈ ids, (bubbleStart sessionId).text ++ id ∈ values.map (·.1)
  · rw [if_pos all, if_neg (by simpa using all)]
    rfl
  · rw [if_neg all, if_pos (by simpa using all)]
    rfl

section
variable {rows : List Row} {row : Row} {source : CursorSQLiteSource} {composer : Fields} {headers : List JsonValue} {ids : List String}

theorem Pinned.objects (pinned : Pinned rows row source composer headers ids) :
    ∀ bubble ∈ prefixRows rows (bubbleStart source.sessionId), ∃ text fields, bubble.value = some text ∧ object (some text) = .ok fields ∧
      text? fields "bubbleId" = some (lastPart bubble.key) := checkBubbles_ok pinned.checked

theorem Pinned.entries (pinned : Pinned rows row source composer headers ids) :
    ∀ bubble ∈ sessionBubbles rows source.sessionId,
      Starts (bubbleStart source.sessionId) bubble.1 ∧ text? bubble.2 "bubbleId" = some (lastPart bubble.1) := by
  intro bubble member
  rw [sessionBubbles_eq] at member
  obtain ⟨held, inside, found⟩ := List.mem_filterMap.mp member
  obtain ⟨text, fields, value, read, named⟩ := pinned.objects held inside
  rw [entry?_eq (value ▸ read)] at found
  obtain rfl := Option.some.inj found
  exact ⟨(mem_prefixRows.mp inside).2, named⟩

theorem Pinned.keys (pinned : Pinned rows row source composer headers ids) :
    (sessionBubbles rows source.sessionId).map (·.1) = (prefixRows rows (bubbleStart source.sessionId)).map (·.key) := by
  rw [sessionBubbles_eq, List.map_filterMap, ← List.filterMap_eq_map]
  refine List.filterMap_congr fun bubble member => ?_
  obtain ⟨text, fields, value, read, -⟩ := pinned.objects bubble member
  rw [entry?_eq (value ▸ read)]
  rfl

theorem Pinned.lastParts (pinned : Pinned rows row source composer headers ids) :
    (sessionBubbles rows source.sessionId).map (fun bubble => lastPart bubble.1) =
      (prefixRows rows (bubbleStart source.sessionId)).map fun bubble => lastPart bubble.key := by
  have same := congrArg (List.map lastPart) pinned.keys
  rwa [List.map_map, List.map_map] at same

theorem Pinned.sorted (pinned : Pinned rows row source composer headers ids) :
    ((sessionBubbles rows source.sessionId).map (·.1)).Pairwise (· ≤ ·) := by
  rw [pinned.keys, prefixRows_eq, List.pairwise_map]
  exact List.pairwise_insertionSort (fun first second : Row => first.key ≤ second.key) _

theorem Pinned.nodup (pinned : Pinned rows row source composer headers ids) :
    ((sessionBubbles rows source.sessionId).map (·.1)).Nodup := by
  have parts := pinned.single
  rw [← pinned.lastParts] at parts
  exact List.Nodup.of_map lastPart (by rwa [List.map_map])

theorem composer_not_bubble {sessionId key : String} (composes : Starts composerStart key) : ¬Starts (bubbleStart sessionId) key := by
  rintro ⟨rest, bubble⟩
  obtain ⟨other, composer⟩ := composes
  rw [← composer] at bubble
  have heads := congrArg List.head? bubble
  simp [bubbleStart, composerStart, KeyStart.text] at heads

theorem Pinned.values (pinned : Pinned rows row source composer headers ids) (composes : Starts composerStart row.key) :
    exportValues [] ((row :: prefixRows rows (bubbleStart source.sessionId)).map fun row => .arr [.str row.key, .str row.text]) =
      .ok ((row.key, composer) :: sessionBubbles rows source.sessionId) := by
  have whole : ∀ held ∈ row :: prefixRows rows (bubbleStart source.sessionId), ∃ text fields, held.value = some text ∧
      object (some text) = .ok fields := by
    refine List.forall_mem_cons.mpr ⟨?_, fun held member => ?_⟩
    · have read := pinned.read
      cases value : row.value with
      | none => rw [value] at read; cases read
      | some text =>
        rw [value] at read
        exact ⟨text, composer, rfl, read⟩
    · obtain ⟨text, fields, value, read, -⟩ := pinned.objects held member
      exact ⟨text, fields, value, read⟩
  rw [exportValues_rows whole, List.filterMap_cons_some (entry?_eq pinned.read), ← sessionBubbles_eq, List.nil_append]
  rw [List.map_nil, List.nil_append, List.map_cons, ← pinned.keys]
  refine List.nodup_cons.mpr ⟨fun member => ?_, pinned.nodup⟩
  obtain ⟨bubble, inside, same⟩ := List.mem_map.mp member
  exact composer_not_bubble composes (same ▸ (pinned.entries bubble inside).1)

theorem Pinned.export (pinned : Pinned rows row source composer headers ids) (composes : Starts composerStart row.key)
    (containerRepr : PyValue → String) :
    cursorExportMessages containerRepr source.rawBytes source.sessionId =
      (exportKeys source.sessionId (sessionBubbles rows source.sessionId) composer).mapError .history >>=
        exportBubbles containerRepr (bubbleStart source.sessionId) (sessionBubbles rows source.sessionId) := by
  have own : composerStart.text ++ source.sessionId = row.key := by rw [pinned.key, ← composes.eq]
  have others : ((row.key, composer) :: sessionBubbles rows source.sessionId).filter (fun entry => entry.1 ≠ row.key) =
      sessionBubbles rows source.sessionId := by
    rw [List.filter_cons_of_neg (by simp)]
    refine List.filter_eq_self.mpr fun bubble member => ?_
    rw [decide_eq_true_eq]
    intro same
    exact composer_not_bubble composes (same ▸ (pinned.entries bubble member).1)
  unfold cursorExportMessages
  rw [pinned.raw, decode_exportBytes, exportDocument]
  dsimp only
  rw [if_neg (by simp [text?, member?, JsonValue.asStr?])]
  rw [show member? _ "records" = some (.arr ((row :: prefixRows rows (bubbleStart source.sessionId)).map fun row =>
    .arr [.str row.key, .str row.text])) by simp [member?]]
  dsimp only
  rw [pinned.values composes, own]
  dsimp only [Except.mapError, bind, Except.bind]
  rw [List.find?_cons_of_pos (by simp), others]

theorem Pinned.listedIds (pinned : Pinned rows row source composer headers ids) (composes : Starts composerStart row.key)
    (unique : (rows.map (·.key)).Nodup) (member : row ∈ rows) : listedIds rows source.sessionId = ids := by
  have own : composerStart.text ++ source.sessionId = row.key := by rw [pinned.key, ← composes.eq]
  unfold Cursor.listedIds
  rw [own, @find?_of_nodup _ _ _ Row.key rows unique row member, Option.bind_some, entry?_eq pinned.read]
  dsimp only
  rw [pinned.listed]
  dsimp only
  rw [pinned.plain]
  rfl

theorem Pinned.same_part (pinned : Pinned rows row source composer headers ids) {first second : String × Fields}
    (one : first ∈ sessionBubbles rows source.sessionId) (other : second ∈ sessionBubbles rows source.sessionId)
    (same : lastPart first.1 = lastPart second.1) : first = second := by
  have parts := pinned.single
  rw [← pinned.lastParts] at parts
  exact List.inj_on_of_nodup_map parts one other same

theorem plain_ids {headers : List JsonValue} {ids : List String} (plain : headerIds headers = some ids) :
    ∀ id ∈ ids, ':' ∉ id.toList := by
  intro id member
  unfold headerIds at plain
  split at plain
  · next all =>
    obtain rfl := Option.some.inj plain
    obtain ⟨header, inside, found⟩ := List.mem_filterMap.mp member
    have own := List.all_eq_true.mp all header inside
    obtain ⟨value, named, text⟩ := Option.bind_eq_some_iff.mp found
    rw [named] at own
    cases value with
    | str value =>
      obtain rfl := Option.some.inj text
      have plain : value ≠ "" ∧ ':' ∉ value.toList := by simpa [isPlainId] using own
      exact plain.2
    | _ => cases text
  · cases plain

theorem Pinned.complete_iff (pinned : Pinned rows row source composer headers ids) :
    (∀ id ∈ ids, (bubbleStart source.sessionId).text ++ id ∈ (sessionBubbles rows source.sessionId).map (·.1)) ↔
      ∀ bubble ∈ sessionBubbles rows source.sessionId, text? bubble.2 "bubbleId" ∈ ids.map some →
        ':' ∉ (behind (bubbleStart source.sessionId) bubble.1).toList := by
  constructor
  · intro all bubble member listed
    obtain ⟨starts, named⟩ := pinned.entries bubble member
    rw [named] at listed
    obtain ⟨id, inside, same⟩ := List.mem_map.mp listed
    obtain ⟨other, held, key⟩ := List.mem_map.mp (all id inside)
    have plain := plain_ids pinned.plain id inside
    have begins : Starts (bubbleStart source.sessionId) other.1 := (pinned.entries other held).1
    have part : lastPart other.1 = id := by
      rw [(lastPart_eq rfl begins).mpr (by rwa [key, behind_append]), key, behind_append]
    obtain rfl := pinned.same_part held member (part.trans (Option.some.inj same))
    rwa [key, behind_append]
  · intro clear id inside
    have known := pinned.found id inside
    rw [← pinned.lastParts] at known
    obtain ⟨bubble, member, part⟩ := List.mem_map.mp known
    obtain ⟨starts, named⟩ := pinned.entries bubble member
    have quiet := clear bubble member (by rw [named, part]; exact List.mem_map_of_mem inside)
    have rest := (lastPart_eq rfl starts).mpr quiet
    refine List.mem_map.mpr ⟨bubble, member, ?_⟩
    rw [starts.eq, ← rest, part]

theorem Pinned.keys_inOrder (pinned : Pinned rows row source composer headers ids) (listed : Cursor.listedIds rows source.sessionId = ids)
    (clear : ∀ bubble ∈ sessionBubbles rows source.sessionId, text? bubble.2 "bubbleId" ∈ ids.map some →
      ':' ∉ (behind (bubbleStart source.sessionId) bubble.1).toList) :
    ids.map (fun id => (bubbleStart source.sessionId).text ++ id) ++
        ((sessionBubbles rows source.sessionId).map (·.1)).filter (· ∉ ids.map fun id => (bubbleStart source.sessionId).text ++ id) =
      (bubblesInOrder rows source.sessionId).map (·.1) := by
  -- a bubble under a listed id has that id behind the start of its key
  have key_iff : ∀ bubble ∈ sessionBubbles rows source.sessionId, ∀ id ∈ ids,
      text? bubble.2 "bubbleId" = some id ↔ bubble.1 = (bubbleStart source.sessionId).text ++ id := by
    intro bubble member id inside
    obtain ⟨starts, named⟩ := pinned.entries bubble member
    constructor
    · intro own
      have rest := (lastPart_eq rfl starts).mpr (clear bubble member (own ▸ List.mem_map_of_mem inside))
      rw [starts.eq, ← rest, Option.some.inj (named.symm.trans own)]
    · intro key
      have plain := plain_ids pinned.plain id inside
      rw [named, (lastPart_eq rfl starts).mpr (by rwa [key, behind_append]), key, behind_append]
  rw [bubblesInOrder, listed, List.map_append, List.map_filterMap]
  congr 1
  · rw [← List.filterMap_eq_map]
    refine List.filterMap_congr fun id inside => ?_
    have all := pinned.complete_iff.mpr clear id inside
    obtain ⟨bubble, member, key⟩ := List.mem_map.mp all
    have held : ((sessionBubbles rows source.sessionId).find? fun bubble => text? bubble.2 "bubbleId" = some id).isSome = true :=
      List.find?_isSome.mpr ⟨bubble, member, decide_eq_true ((key_iff bubble member id inside).mpr key)⟩
    obtain ⟨found, here⟩ := Option.isSome_iff_exists.mp held
    have named : text? found.2 "bubbleId" = some id := by simpa using List.find?_some here
    rw [here, Option.map_some, (key_iff found (List.mem_of_find?_eq_some here) id inside).mp named]
    rfl
  · rw [List.filter_map]
    congr 1
    refine List.filter_congr fun bubble member => ?_
    rw [Function.comp_apply, decide_not, isAmong]
    refine congrArg not (decide_eq_decide.mpr ?_)
    simp only [List.mem_map]
    constructor
    · rintro ⟨id, inside, key⟩
      exact ⟨id, inside, ((key_iff bubble member id inside).mpr key.symm).symm⟩
    · rintro ⟨id, inside, own⟩
      exact ⟨id, inside, ((key_iff bubble member id inside).mp own.symm).symm⟩

end

theorem bubblesInOrder_subset {sessionId : String} :
    ∀ bubble ∈ bubblesInOrder rows sessionId, bubble ∈ sessionBubbles rows sessionId := by
  intro bubble member
  rcases List.mem_append.mp member with listed | other
  · obtain ⟨id, -, found⟩ := List.mem_filterMap.mp listed
    exact List.mem_of_find?_eq_some found
  · exact (List.mem_filter.mp other).1

/-- A session that is pinned from a table with keys of their own is decoded, each bubble under its own author and all of
them in order, exactly where no key has a further colon and no role is without a hash before the first conflict. -/
theorem export_decodes_iff {containerRepr : PyValue → String} {database : Database} {projectRoot : Option String}
    {memberships : Memberships} {sessionId : Option String} {source : CursorSQLiteSource}
    (unique : (database.rows.map (·.key)).Nodup)
    (pinned : source ∈ (enumerateSourceRecords database projectRoot memberships sessionId).1) :
    Decodes containerRepr (bubblesInOrder database.rows source.sessionId)
        (cursorExportMessages containerRepr source.rawBytes source.sessionId) ↔
      Readable database.rows source.sessionId := by
  obtain ⟨row, member, composes, owner, pins⟩ := mem_enumerateSourceRecords pinned
  obtain ⟨composer, headers, ids, held⟩ := pinSession_ok pins
  have listed := held.listedIds composes unique member
  rw [held.export composes containerRepr, exportKeys_eq held.named held.listed held.plain held.distinct
    (fun bubble inside => (held.entries bubble inside).1) held.sorted]
  by_cases clear : ∀ id ∈ ids, (bubbleStart source.sessionId).text ++ id ∈ (sessionBubbles database.rows source.sessionId).map (·.1)
  · have quiet := held.complete_iff.mp clear
    rw [if_pos clear, held.keys_inOrder listed quiet]
    dsimp only [Except.mapError, bind, Except.bind]
    rw [exportBubbles_decodes held.nodup held.entries rfl bubblesInOrder_subset]
    exact ⟨fun sound => ⟨by rwa [listed], sound⟩, fun readable => readable.sound⟩
  · rw [if_neg clear]
    refine iff_of_false (decodes_error (by simp)) fun readable => ?_
    have other := readable.listed
    rw [listed] at other
    exact clear (held.complete_iff.mpr other)

/-! ### A session of one bubble -/

section

def rowOf (key : String) (fields : Fields) : Row := { key, value := some (String.ofList ((JsonValue.obj fields).dumps false)) }

def draft (key : String) : Database :=
  { rows := [rowOf "composerData:s" [("composerId", .str "s"), ("fullConversationHeadersOnly", .arr [])],
      rowOf key [("bubbleId", .str "b"), ("type", .int 1), ("text", .str "Hi")]]
    schemaError := none, owner := none, ownerAfter := none }

abbrev draftComposer : Row := rowOf "composerData:s" [("composerId", .str "s"), ("fullConversationHeadersOnly", .arr [])]

abbrev draftFields : Fields := [("bubbleId", .str "b"), ("type", .int 1), ("text", .str "Hi")]

def draftSource (key : String) : CursorSQLiteSource :=
  { sessionId := "s", owner := none, rawBytes := exportBytes (draft key).rows, recordCount := 2, readability := "readable" }

section

variable {key : String}

theorem object_rowOf {fields : Fields} (distinct : (JsonValue.obj fields).distinct = true) :
    object (rowOf key fields).value = .ok fields := by
  rw [rowOf, object, String.toList_ofList, loads_dumps false distinct]

theorem draftComposer_key : Starts composerStart "composerData:s" ∧ ¬Starts (bubbleStart "s") "composerData:s" ∧
    behind composerStart "composerData:s" = "s" ∧ "composerData:s" = composerStart.text ++ "s" := by decide

theorem draft_read : object draftComposer.value = .ok [("composerId", .str "s"), ("fullConversationHeadersOnly", .arr [])] ∧
    object (rowOf key draftFields).value = .ok draftFields :=
  ⟨object_rowOf (by simp [JsonValue.distinct, JsonValue.distinctFields, JsonValue.distinctItems]),
    object_rowOf (by simp [JsonValue.distinct, JsonValue.distinctFields])⟩

variable (own : Starts (bubbleStart "s") key)
include own

theorem draft_composers : prefixRows (draft key).rows composerStart = [draftComposer] := by
  have other : ¬Starts composerStart key := fun composes => composer_not_bubble composes own
  rw [prefixRows_eq]
  simp [draft, rowOf, draftComposer_key.1, other]

theorem draft_bubbles : prefixRows (draft key).rows (bubbleStart "s") = [rowOf key draftFields] := by
  rw [prefixRows_eq]
  simp [draft, rowOf, own, draftComposer_key.2.1]

theorem draft_session : sessionBubbles (draft key).rows "s" = [(key, draftFields)] := by
  rw [sessionBubbles_eq, draft_bubbles own, List.filterMap_cons_some (entry?_eq draft_read.2)]
  rfl

theorem draft_inOrder : bubblesInOrder (draft key).rows "s" = [(key, draftFields)] := by
  have composer : (draft key).rows.find? (fun row => row.key = composerStart.text ++ "s") = some draftComposer :=
    List.find?_cons_of_pos (decide_eq_true draftComposer_key.2.2.2)
  have unlisted : listedIds (draft key).rows "s" = [] := by
    rw [listedIds, composer, Option.bind_some, entry?_eq (@draft_read "").1]
    simp [member?, headerIds]
  rw [bubblesInOrder, unlisted, draft_session own]
  simp [isAmong]

theorem draft_pinned (last : lastPart key = "b") : draftSource key ∈ (enumerateSourceRecords (draft key) none none none).1 := by
  have checked : checkBubbles [rowOf key draftFields] = .ok () := by
    rw [checkBubbles, draft_read.2]
    dsimp only [bind, Except.bind]
    rw [if_neg (by rw [rowOf, last]; decide)]
    rfl
  have pins : pinSession (draft key).rows draftComposer none = .ok (draftSource key) := by
    rw [pinSession, (@draft_read "").1, draftComposer, rowOf]
    dsimp only [bind, Except.bind]
    rw [draftComposer_key.2.2.1, if_neg (by simp [text?, member?, JsonValue.asStr?]), show member? _ "fullConversationHeadersOnly" = some (.arr []) by simp [member?],
      draft_bubbles own]
    dsimp only
    rw [show headerIds [] = some [] by rfl]
    dsimp only
    rw [if_neg (by simp), if_neg (by simp), checked]
    rfl
  have kept : ¬(draft key).ownerAfter ≠ (draft key).owner := not_not.mpr rfl
  unfold enumerateSourceRecords
  rw [if_neg (by simp), show selectComposers (draft key) none = .ok _ by rfl]
  dsimp only
  rw [draft_composers own, if_neg kept]
  have first : (pinSessions (draft key) none none [draftComposer]).1 = [draftSource key] := by
    rw [pinSessions, pinSessions]
    dsimp only [Option.map_none, Option.getD_none]
    rw [if_neg (by simp), show (draft key).owner = none by rfl, pins]
  dsimp only
  rw [first]
  exact List.mem_cons_self

end

theorem draft_decodes : Decodes (fun _ => "") (bubblesInOrder (draft "bubbleId:s:b").rows "s")
    (cursorExportMessages (fun _ => "") (draftSource "bubbleId:s:b").rawBytes "s") := by
  have own : Starts (bubbleStart "s") "bubbleId:s:b" := by decide +kernel
  have plain : Plain (bubbleStart "s") ("bubbleId:s:b", draftFields) := by
    unfold Plain
    decide +kernel
  have single : ∀ bubble ∈ sessionBubbles (draft "bubbleId:s:b").rows "s", Plain (bubbleStart "s") bubble := by
    rw [draft_session own]
    exact List.forall_mem_singleton.mpr plain
  refine (export_decodes_iff (by decide +kernel) (draft_pinned own (by decide +kernel))).mpr ⟨fun bubble member _ => (single bubble member).1, ?_⟩
  intro front bubble back same _
  exact single bubble (bubblesInOrder_subset bubble (same ▸ by simp))

/-- The key of a bubble that is pinned has a colon more, and its export is not read. -/
theorem export_decodes_fails :
    ¬∀ (containerRepr : PyValue → String) (database : Database) (projectRoot : Option String) (memberships : Memberships)
      (sessionId : Option String) (source : CursorSQLiteSource), (database.rows.map (·.key)).Nodup →
      source ∈ (enumerateSourceRecords database projectRoot memberships sessionId).1 →
      Decodes containerRepr (bubblesInOrder database.rows source.sessionId)
        (cursorExportMessages containerRepr source.rawBytes source.sessionId) := by
  intro claim
  have own : Starts (bubbleStart "s") "bubbleId:s:a:b" := by decide +kernel
  have unique : ((draft "bubbleId:s:a:b").rows.map (·.key)).Nodup := by decide +kernel
  have pinned := draft_pinned own (by decide +kernel)
  have readable := (export_decodes_iff unique pinned).mp (claim (fun _ => "") _ none none none _ unique pinned)
  have plain := readable.sound [] _ [] (draft_inOrder own) (by simp)
  exact absurd plain.1 (by decide +kernel)

end

end HarnessMem.Adapters.Cursor
