import HarnessMem.Library.KeyMap
import HarnessMem.Native.Values

/-! The rows of the bulk index, as the extension builds them and as the fallback does. -/

set_option autoImplicit false

namespace HarnessMem.Native

open Library

structure IndexRow where
  id : String
  tokens : List String
  exactTerms : List String
  trigrams : List String
  projectId : JsonValue
  truthStatus : JsonValue
  confidence : JsonValue

/-- The same row to a reader that does not see the order of keys. -/
structure IndexRow.Same (first second : IndexRow) : Prop where
  id : first.id = second.id
  tokens : first.tokens = second.tokens
  exactTerms : first.exactTerms = second.exactTerms
  trigrams : first.trigrams = second.trigrams
  projectId : first.projectId.Same second.projectId
  truthStatus : first.truthStatus.Same second.truthStatus
  confidence : first.confidence.Same second.confidence

def searchFields : List String :=
  ["raw_content", "content", "pattern", "trigger", "evidence", "summary", "activation_condition"]

def stepsOf (payload : Fields) : List JsonValue :=
  match member? payload "steps" with
  | some (.arr items) => items
  | _ => []

def searchText (spell : JsonValue → String) (payload : Fields) : String :=
  let parts := searchFields.filterMap fun key => (member? payload key).bind JsonValue.asStr?
  String.intercalate "\n" (parts ++ (stepsOf payload).map spell)

def grams (normalized : List Char) : List String :=
  if normalized = [] then []
  else if normalized.length < 3 then [String.ofList normalized]
  else sortedSet ((List.range (normalized.length - 2)).map fun index => String.ofList ((normalized.drop index).take 3))

/-! ### The extension -/

/-- The white space of `split_whitespace`: not the four separators. -/
def isWhiteSpace (c : Char) : Bool := isSpace c && !(28 ≤ c.toNat && c.toNat ≤ 31)

/-- `search_text` takes a step that is no text as its JSON text, which has its keys in order. -/
def nativeSpell (item : JsonValue) : String :=
  match item with
  | .str text => text
  | item => String.ofList (item.sortKeys.dumps false)

def nativeTrigrams (casing : Casing) (text : String) : List String :=
  grams (casing.lower (spaced (words isWhiteSpace text.toList)))

/-- `project_id`. -/
def nativeProjectId (payload : Fields) : JsonValue :=
  match member? payload "project_name" with
  | some value => value
  | none =>
    match member? payload "metadata" with
    | some (.obj metadata) => (member? metadata "project_name").getD .null
    | _ => .null

/-- `build_bulk_index_row`. -/
def nativeRow (casing : Casing) (payload : Fields) : IndexRow :=
  let text := searchText nativeSpell payload
  { id := ((member? payload "id").bind JsonValue.asStr?).getD ""
    tokens := nativeTokens text
    exactTerms := sortedSet (nativeTokens text)
    trigrams := nativeTrigrams casing text
    projectId := nativeProjectId payload
    truthStatus := (member? payload "status").getD (.str "pending")
    confidence := (member? payload "confidence").getD .null }

def nativeRows (serde : Serde) (casing : Casing) (payloads : List Fields) : Option (List IndexRow) :=
  (serde.readPayloads payloads).map fun payloads => payloads.map (nativeRow casing)

/-! ### The fallback -/

/-- The `repr` of lists and dictionaries, which is never empty. -/
structure Containers where
  repr : PyValue → String
  filled : ∀ value, repr value ≠ ""

/-- `value or other`. -/
def orElse (value : Option JsonValue) (other : JsonValue) : JsonValue :=
  match value with
  | some value => if value.truthy then value else other
  | none => other

def fallbackTrigrams (casing : Casing) (text : String) : List String :=
  grams (strip (subSpaces false (casing.lower text.toList)))

def fallbackProjectId (payload : Fields) : JsonValue :=
  match member? payload "metadata" with
  | some (.obj metadata) => orElse (member? payload "project_name") ((member? metadata "project_name").getD .null)
  | _ => (member? payload "project_name").getD .null

/-- `str(payload.get("id") or "")`. -/
def fallbackId (containers : Containers) (value : Option JsonValue) : String :=
  match value with
  | some value => if value.truthy then value.pyStr containers.repr else ""
  | none => ""

/-- One round of `build_bulk_index_rows` without the extension. -/
def fallbackRow (casing : Casing) (containers : Containers) (payload : Fields) : IndexRow :=
  let text := searchText (JsonValue.pyStr containers.repr) payload
  { id := fallbackId containers (member? payload "id")
    tokens := fallbackTokens casing text
    exactTerms := sortedSet (fallbackTokens casing text)
    trigrams := fallbackTrigrams casing text
    projectId := fallbackProjectId payload
    truthStatus := orElse (member? payload "status") (.str "pending")
    confidence := (member? payload "confidence").getD .null }

/-! ### Where they agree -/

variable (serde : Serde) (casing : Casing) (containers : Containers)

def RowsAgree (payloads : List Fields) : Prop :=
  ∃ rows, nativeRows serde casing payloads = some rows ∧
    List.Forall₂ IndexRow.Same rows (payloads.map (fallbackRow casing containers))

def IdAlike (payload : Fields) : Prop :=
  ∀ value, member? payload "id" = some value → (∃ text, value = .str text) ∨ value.truthy = false

def StatusAlike (payload : Fields) : Prop :=
  ∀ value, member? payload "status" = some value → value.truthy = true ∧ serde.Survives value

def ConfidenceAlike (payload : Fields) : Prop :=
  ∀ value, member? payload "confidence" = some value → serde.Survives value

/-- A project name that is there and true, or without metadata, comes back. One that is there and not true comes back as
the project name of the metadata, and where there is none that one comes back. -/
def ProjectAlike (payload : Fields) : Prop :=
  match member? payload "project_name", member? payload "metadata" with
  | some name, some (.obj metadata) =>
    if name.truthy then serde.Survives name
    else ∃ back, serde.read name = some back ∧ back.Same ((member? metadata "project_name").getD .null)
  | some name, _ => serde.Survives name
  | none, some (.obj metadata) => ∀ name, member? metadata "project_name" = some name → serde.Survives name
  | none, _ => True

/-- Every step is spelled by its `str` as it is by the JSON text of what comes back. -/
def StepsAlike (payload : Fields) : Prop :=
  ∀ item ∈ stepsOf payload, ∀ back, serde.read item = some back → nativeSpell back = item.pyStr containers.repr

/-- No character of the text is lowered into ASCII from outside, and none is a separator. -/
def Plain (text : List Char) : Prop := Unmixed text ∧ ∀ c ∈ text, ¬ (28 ≤ c.toNat ∧ c.toNat ≤ 31)

/-- The fields of a payload that both implementations read alike. -/
structure FieldsAlike (payload : Fields) : Prop where
  id : IdAlike payload
  status : StatusAlike serde payload
  confidence : ConfidenceAlike serde payload
  project : ProjectAlike serde payload

/-- A payload with a text that both implementations split alike. -/
structure TextAlike (payload : Fields) : Prop where
  steps : StepsAlike serde containers payload
  plain : Plain (searchText (JsonValue.pyStr containers.repr) payload).toList

variable {serde casing containers}

theorem trigrams_agree {text : String} (plain : ∀ c ∈ text.toList, ¬ (28 ≤ c.toNat ∧ c.toNat ≤ 31)) :
    nativeTrigrams casing text = fallbackTrigrams casing text := by
  have same : words isWhiteSpace text.toList = words isSpace text.toList := by
    apply words_congr
    intro c member
    unfold isWhiteSpace
    have apart := plain c member
    rw [show (28 ≤ c.toNat && c.toNat ≤ 31) = false by simpa using apart]
    exact Bool.and_true _
  unfold nativeTrigrams fallbackTrigrams
  rw [Casing.strip_subSpaces_lower, same]

theorem searchText_read {payload back : Fields} (ran : serde.readFields payload = some back)
    (steps : StepsAlike serde containers payload) : searchText nativeSpell back = searchText (JsonValue.pyStr containers.repr) payload := by
  have items : (stepsOf back).map nativeSpell = (stepsOf payload).map (JsonValue.pyStr containers.repr) := by
    unfold StepsAlike at steps
    unfold stepsOf at *
    cases Serde.member?_readFields ran "steps" with
    | inl neither => rw [neither.1, neither.2]; rfl
    | inr both =>
      obtain ⟨value, other, here, read, there⟩ := both
      rw [here] at steps
      rw [here, there]
      cases Serde.back_of_read read with
      | arr inside =>
        dsimp only at steps ⊢
        -- item by item
        have each := Serde.readItems_forall₂ inside
        clear * - each steps
        induction each with
        | nil => rfl
        | cons first later ih =>
          rw [List.map_cons, List.map_cons, steps _ (List.mem_cons_self ..) _ first,
            ih fun item member => steps item (List.mem_cons_of_mem _ member)]
      | _ => rfl
  unfold searchText
  simp only [Serde.text_readFields ran, items]

theorem same_refl (value : JsonValue) : value.Same value := rfl

/-- A text is true if it is not empty, so its `str` or the empty text is the text. -/
theorem fallbackId_str (text : String) : fallbackId containers (some (.str text)) = text := by
  unfold fallbackId JsonValue.truthy JsonValue.pyStr PyValue.ofJson PyValue.truthy PyValue.toStr
  by_cases empty : text = ""
  · simp [empty]
  · simp [empty]

/-- What is true has a `str` that is not empty. -/
theorem pyStr_ne_empty {value : JsonValue} (holds : value.truthy = true) : value.pyStr containers.repr ≠ "" := by
  unfold JsonValue.pyStr
  cases value with
  | null => cases holds
  | bool value =>
    cases value with
    | false => exact show "False" ≠ "" by decide
    | true => exact show "True" ≠ "" by decide
  | int value =>
    intro empty
    apply dumpsInt_ne_nil value
    rw [← String.toList_ofList (l := dumpsInt value), show String.ofList (dumpsInt value) = "" from empty]
    rfl
  | float value =>
    change PyValue.floatStr value ≠ ""
    unfold PyValue.floatStr
    split
    · decide
    · split
      · decide
      · split
        · decide
        · intro empty
          apply value.ne_nil
          rw [← String.toList_ofList (l := value.text), empty]
          rfl
  | str text =>
    intro empty
    have same : text = "" := empty
    rw [same] at holds
    revert holds
    decide
  | arr items => exact containers.filled _
  | obj fields => exact containers.filled _

theorem id_agrees {payload back : Fields} (ran : serde.readFields payload = some back) :
    ((member? back "id").bind JsonValue.asStr?).getD "" = fallbackId containers (member? payload "id") ↔ IdAlike payload := by
  unfold IdAlike
  cases Serde.member?_readFields ran "id" with
  | inl neither =>
    rw [neither.1, neither.2]
    exact ⟨fun _ => nofun, fun _ => rfl⟩
  | inr both =>
    obtain ⟨value, other, here, read, there⟩ := both
    rw [here, there, Option.bind_some, Serde.asStr?_read read]
    cases text : value.asStr? with
    | some own =>
      have same : value = .str own := by
        unfold JsonValue.asStr? at text
        split at text
        · cases text
          rfl
        · cases text
      rw [same, fallbackId_str]
      constructor
      · intro _ _ found
        cases found
        exact .inl ⟨own, rfl⟩
      · intro _
        rfl
    | none =>
      unfold fallbackId
      dsimp only
      constructor
      · intro agrees found same
        cases same
        refine .inr ?_
        by_contra holds
        have holds : value.truthy = true := by simpa using holds
        rw [if_pos holds] at agrees
        exact pyStr_ne_empty holds agrees.symm
      · intro alike
        cases alike value rfl with
        | inl is_text =>
          obtain ⟨own, rfl⟩ := is_text
          cases text
        | inr untrue =>
          rw [untrue]
          rfl

theorem status_agrees {payload back : Fields} (ran : serde.readFields payload = some back) :
    ((member? back "status").getD (.str "pending")).Same (orElse (member? payload "status") (.str "pending")) ↔
      StatusAlike serde payload := by
  unfold StatusAlike
  cases Serde.member?_readFields ran "status" with
  | inl neither =>
    rw [neither.1, neither.2]
    exact ⟨fun _ => nofun, fun _ => rfl⟩
  | inr both =>
    obtain ⟨value, other, here, read, there⟩ := both
    rw [here, there]
    unfold orElse
    dsimp only [Option.getD_some]
    constructor
    · intro agrees found same
      cases same
      by_cases holds : value.truthy = true
      · rw [if_pos holds] at agrees
        exact ⟨holds, other, read, agrees⟩
      · -- only an empty text would be a text, and it is not the default
        rw [if_neg holds] at agrees
        cases Serde.back_of_read read with
        | str text =>
          cases agrees
          exact absurd (by decide) holds
        | _ => cases agrees
    · intro alike
      obtain ⟨holds, again, reread, same⟩ := alike value rfl
      rw [reread] at read
      cases read
      rw [if_pos holds]
      exact same

theorem confidence_agrees {payload back : Fields} (ran : serde.readFields payload = some back) :
    ((member? back "confidence").getD .null).Same ((member? payload "confidence").getD .null) ↔
      ConfidenceAlike serde payload := by
  unfold ConfidenceAlike
  cases Serde.member?_readFields ran "confidence" with
  | inl neither =>
    rw [neither.1, neither.2]
    exact ⟨fun _ => nofun, fun _ => rfl⟩
  | inr both =>
    obtain ⟨value, other, here, read, there⟩ := both
    rw [here, there]
    constructor
    · intro agrees found same
      cases same
      exact ⟨other, read, agrees⟩
    · intro alike
      obtain ⟨again, reread, same⟩ := alike value rfl
      rw [reread] at read
      cases read
      exact same

theorem survives_iff {value back : JsonValue} (read : serde.read value = some back) : serde.Survives value ↔ back.Same value := by
  constructor
  · intro ⟨again, reread, same⟩
    rw [reread] at read
    cases read
    exact same
  · intro same
    exact ⟨back, read, same⟩

theorem project_agrees {payload back : Fields} (ran : serde.readFields payload = some back) :
    (nativeProjectId back).Same (fallbackProjectId payload) ↔ ProjectAlike serde payload := by
  unfold nativeProjectId fallbackProjectId ProjectAlike
  cases Serde.member?_readFields ran "project_name" with
  | inl neither =>
    rw [neither.1, neither.2]
    cases Serde.member?_readFields ran "metadata" with
    | inl missing =>
      rw [missing.1, missing.2]
      exact ⟨fun _ => trivial, fun _ => rfl⟩
    | inr both =>
      obtain ⟨metadata, other, here, read, there⟩ := both
      rw [here, there]
      cases Serde.back_of_read read with
      | obj inside =>
        unfold orElse
        dsimp only
        cases Serde.member?_readFields inside "project_name" with
        | inl unnamed =>
          rw [unnamed.1, unnamed.2]
          exact ⟨fun _ => nofun, fun _ => rfl⟩
        | inr named =>
          obtain ⟨name, again, own, reread, back⟩ := named
          rw [own, back]
          constructor
          · intro agrees found same
            cases same
            exact (survives_iff reread).mpr agrees
          · intro alike
            exact (survives_iff reread).mp (alike name rfl)
      | _ => exact ⟨fun _ => trivial, fun _ => rfl⟩
  | inr named =>
    obtain ⟨name, again, own, reread, back⟩ := named
    rw [own, back]
    cases Serde.member?_readFields ran "metadata" with
    | inl missing =>
      rw [missing.1]
      exact (survives_iff reread).symm
    | inr both =>
      obtain ⟨metadata, other, here, read, -⟩ := both
      rw [here]
      cases Serde.back_of_read read with
      | obj inside =>
        unfold orElse
        dsimp only
        by_cases holds : name.truthy = true
        · rw [if_pos holds, if_pos holds]
          exact (survives_iff reread).symm
        · rw [if_neg holds, if_neg holds]
          constructor
          · intro agrees
            exact ⟨again, reread, agrees⟩
          · intro ⟨back, once, same⟩
            rw [reread] at once
            cases once
            exact same
      | _ => exact (survives_iff reread).symm

theorem row_agrees {payload back : Fields} (ran : serde.readFields payload = some back)
    (text : TextAlike serde containers payload) :
    (nativeRow casing back).Same (fallbackRow casing containers payload) ↔ FieldsAlike serde payload := by
  have same := searchText_read ran text.steps
  have tokens := tokens_agree casing text.plain.1
  have trigrams : nativeTrigrams casing _ = _ := trigrams_agree text.plain.2
  constructor
  · intro row
    exact ⟨(id_agrees ran).mp row.id, (status_agrees ran).mp row.truthStatus, (confidence_agrees ran).mp row.confidence,
      (project_agrees ran).mp row.projectId⟩
  · intro fields
    constructor
    · exact (id_agrees ran).mpr fields.id
    · change nativeTokens (searchText nativeSpell back) = _
      rw [same]
      exact tokens
    · change sortedSet (nativeTokens (searchText nativeSpell back)) = _
      rw [same, tokens]
      rfl
    · change nativeTrigrams casing (searchText nativeSpell back) = _
      rw [same]
      exact trigrams
    · exact (project_agrees ran).mpr fields.project
    · exact (status_agrees ran).mpr fields.status
    · exact (confidence_agrees ran).mpr fields.confidence

theorem forall₂_rows_iff {payloads backs : List Fields}
    (read : List.Forall₂ (fun payload back => serde.readFields payload = some back) payloads backs)
    (texts : ∀ payload ∈ payloads, TextAlike serde containers payload) :
    List.Forall₂ IndexRow.Same (backs.map (nativeRow casing)) (payloads.map (fallbackRow casing containers)) ↔
      ∀ payload ∈ payloads, FieldsAlike serde payload := by
  induction read with
  | nil => exact ⟨fun _ => nofun, fun _ => .nil⟩
  | cons first _ ih =>
    rw [List.map_cons, List.map_cons, List.forall₂_cons, row_agrees first (texts _ (List.mem_cons_self ..)),
      ih fun payload member => texts payload (List.mem_cons_of_mem _ member), List.forall_mem_cons]

/-- Both tokenizers return the same tokens of a text without a Kelvin sign or a dotted I. Of payloads whose texts are
split alike both implementations return the same rows exactly if every value can be read back and every payload has its
fields read alike. -/
theorem index_rows_agree (serde : Serde) (casing : Casing) (containers : Containers) :
    (∀ text : String, Unmixed text.toList → nativeTokens text = fallbackTokens casing text) ∧
      ∀ payloads, (∀ payload ∈ payloads, TextAlike serde containers payload) →
        (RowsAgree serde casing containers payloads ↔
          (serde.readPayloads payloads).isSome = true ∧ ∀ payload ∈ payloads, FieldsAlike serde payload) := by
  refine ⟨fun text unmixed => tokens_agree casing unmixed, ?_⟩
  intro payloads texts
  unfold RowsAgree nativeRows
  cases ran : serde.readPayloads payloads with
  | none =>
    constructor
    · intro ⟨rows, made, _⟩
      cases made
    · intro ⟨made, _⟩
      cases made
  | some backs =>
    have rows := @forall₂_rows_iff _ casing _ _ _ (Serde.readPayloads_forall₂ ran) texts
    constructor
    · intro ⟨rows', made, same⟩
      cases made
      exact ⟨rfl, rows.mp same⟩
    · intro ⟨_, fields⟩
      exact ⟨_, rfl, rows.mpr fields⟩

/-! ### A status that is empty -/

def sampleSerde : Serde := ⟨fun _ => none, id⟩

def sampleContainers : Containers where
  repr _ := "[]"
  filled _ := by decide

def samplePayload (status : String) : Fields :=
  [("id", .str "note"), ("content", .str "Fix the build"), ("status", .str status), ("steps", .arr [.str "Run it", .int 5])]

theorem textAlike_sample (status : String) : TextAlike sampleSerde sampleContainers (samplePayload status) := by
  constructor
  · intro item member back read
    have steps : stepsOf (samplePayload status) = [.str "Run it", .int 5] := rfl
    rw [steps, List.mem_cons, List.mem_singleton] at member
    cases member with
    | inl first =>
      subst first
      cases read
      rfl
    | inr second =>
      subst second
      cases read
      decide
  · have text : searchText (JsonValue.pyStr sampleContainers.repr) (samplePayload status) =
        searchText (JsonValue.pyStr sampleContainers.repr) (samplePayload "") := rfl
    rw [text]
    constructor
    · decide
    · decide

/-- The rows and the tokens of a payload with a status. -/
theorem index_rows_agree_sample : nativeTokens "Fix the build" = fallbackTokens .basic "Fix the build" ∧
    RowsAgree sampleSerde .basic sampleContainers [samplePayload "confirmed"] := by
  have ⟨tokens, rows⟩ := index_rows_agree sampleSerde .basic sampleContainers
  refine ⟨tokens _ (by decide), (rows [samplePayload "confirmed"] ?_).mpr ⟨rfl, ?_⟩⟩
  · exact List.forall_mem_singleton.mpr (textAlike_sample "confirmed")
  · refine List.forall_mem_singleton.mpr ⟨?_, ?_, ?_, ?_⟩
    · intro value found
      cases found
      exact .inl ⟨_, rfl⟩
    · intro value found
      cases found
      exact ⟨by decide, _, rfl, rfl⟩
    · exact nofun
    · trivial

/-- An empty status is a status to the extension and none to the fallback. -/
theorem index_rows_fail : ¬ ∀ payloads, RowsAgree sampleSerde .basic sampleContainers payloads := by
  intro claim
  obtain ⟨rows, made, same⟩ := claim [samplePayload ""]
  cases made
  cases same with
  | cons first _ =>
    have status : (JsonValue.str "").Same (.str "pending") := first.truthStatus
    exact absurd (JsonValue.str.inj status) (by decide)

end HarnessMem.Native
