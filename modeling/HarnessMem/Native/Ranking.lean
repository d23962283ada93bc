import HarnessMem.Library.Floats
import HarnessMem.Native.Fusion
import HarnessMem.Native.IndexRows
import Mathlib.Data.Finset.Card

/-! The ranking of candidate rows: exact matches, confidence, the penalties for metadata and
for a source seen before.
-/

set_option autoImplicit false

namespace HarnessMem.Native

open Library

structure Reading where
  rowId : String
  exactOverlap : Nat
  confidence : Number
  sourceId : String
  metadataPenalty : ℚ

/-- A row of the result: the fields of the row with another id and score. -/
structure Ranked where
  row : Fields
  id : String
  score : Number

def scoreOf (penalty : ℚ) (seen : Nat) (reading : Reading) : Number :=
  reading.confidence.add (reading.exactOverlap - reading.metadataPenalty - seen * penalty)

def rankFrom (rounded : Number → Number) (penalty : ℚ) (sourceSeen : String → Nat) :
    List (Fields × Reading) → List Ranked
  | [] => []
  | (row, reading) :: rest =>
    let diversitySeen := sourceSeen reading.sourceId
    { row, id := reading.rowId, score := rounded (scoreOf penalty diversitySeen reading) } ::
      rankFrom rounded penalty (Function.update sourceSeen reading.sourceId (diversitySeen + 1)) rest

def Ranked.Ahead (first second : Ranked) : Prop :=
  second.score.Below first.score ∨ (first.score = second.score ∧ first.id ≤ second.id)

instance : DecidableRel Ranked.Ahead := fun _ _ => inferInstanceAs (Decidable (_ ∨ _))

def settledStatuses : List String := ["auto_confirmed", "user_confirmed", "confirmed_current"]

/-! ### The extension -/

def valueAsF64 : JsonValue → Option Number
  | .int value => some (.finite value)
  | .float value => value.value?.map .finite
  | .str text => parseFloat text.toList
  | _ => none

def nativeTokenSet (row : Fields) : List String :=
  match member? row "tokens" with
  | some (.arr items) => items.filterMap JsonValue.asStr?
  | _ => []

def nativeConfidence (row : Fields) : Number := ((member? row "confidence").bind valueAsF64).getD (.finite 0)

def nativeSource (row : Fields) : String :=
  match (member? row "source_id").bind JsonValue.asStr? with
  | some text => text
  | none => ((member? row "project_id").bind JsonValue.asStr?).getD ""

def nativePenalty (row : Fields) : ℚ :=
  match (member? row "truth_status").bind JsonValue.asStr? with
  | some text => if text ∈ settledStatuses then 0 else 1 / 5
  | none => 0

def nativeReading (query : String) (row : Fields) : Reading :=
  { rowId := ((member? row "id").bind JsonValue.asStr?).getD ""
    exactOverlap := ((nativeTokens query).toFinset ∩ (nativeTokenSet row).toFinset).card
    confidence := nativeConfidence row
    sourceId := nativeSource row
    metadataPenalty := nativePenalty row }

/-- `json_number` of `round_six`: what is not finite becomes zero. -/
def nativeRounded : Number → Number
  | .finite value => .finite (halfAway (value * 1000000) / 1000000)
  | _ => .finite 0

/-- `rank_candidates` of the extension. -/
def nativeRank (serde : Serde) (query : String) (penalty : ℚ) (rows : List Fields) : Option (List Ranked) :=
  (serde.readPayloads rows).map fun rows =>
    (rankFrom nativeRounded penalty (fun _ => 0) (rows.map fun row => (row, nativeReading query row))).insertionSort
      Ranked.Ahead

/-! ### The fallback -/

/-- `str(token) for token in row.get("tokens") or []`. What is true and no list may be a text or a dictionary, and a
number cannot be iterated. -/
def fallbackTokenSet (containers : Containers) (row : Fields) : Option (List String) :=
  match member? row "tokens" with
  | none => some []
  | some value =>
    if value.truthy then
      match value with
      | .arr items => some (items.map (JsonValue.pyStr containers.repr))
      | .str text => some (text.toList.map String.singleton)
      | .obj fields => some (fields.map Prod.fst)
      | _ => none
    else some []

/-- `_float_or` on the text of a number. -/
def orZero : Option Number → Number
  | some .nan => .finite 0
  | some number => number
  | none => .finite 0

def floatNumber (value : FloatText) : Number :=
  match value.value? with
  | some number => .finite number
  | none => if value.text = "NaN".toList then .nan else .infinite (value.text = "-Infinity".toList)

/-- `_float_or(value, 0.0)`. -/
def floatOr (decimal : Char → Option Nat) : JsonValue → Number
  | .int value => .finite value
  | .float value => orZero (some (floatNumber value))
  | .str text => orZero (pyFloat decimal text.toList)
  | _ => .finite 0

def fallbackConfidence (decimal : Char → Option Nat) (row : Fields) : Number :=
  ((member? row "confidence").map (floatOr decimal)).getD (.finite 0)

/-- `str(row.get("source_id") or row.get("project_id") or "")`. -/
def fallbackSource (containers : Containers) (row : Fields) : String :=
  match member? row "source_id" with
  | some value => if value.truthy then value.pyStr containers.repr else fallbackId containers (member? row "project_id")
  | none => fallbackId containers (member? row "project_id")

def fallbackPenalty (row : Fields) : Option ℚ :=
  match member? row "truth_status" with
  | none => some 0
  | some .null => some 0
  | some (.str text) => some (if text ∈ settledStatuses then 0 else 1 / 5)
  | some (.arr _) => none
  | some (.obj _) => none
  | some _ => some (1 / 5)

def fallbackReading (casing : Casing) (containers : Containers) (decimal : Char → Option Nat) (query : String)
    (row : Fields) : Option Reading := do
  let tokens ← fallbackTokenSet containers row
  let penalty ← fallbackPenalty row
  some { rowId := fallbackId containers (member? row "id")
         exactOverlap := ((fallbackTokens casing query).toFinset ∩ tokens.toFinset).card
         confidence := fallbackConfidence decimal row
         sourceId := fallbackSource containers row
         metadataPenalty := penalty }

/-- `round(score, 6)`. -/
def fallbackRounded : Number → Number
  | .finite value => .finite (halfEven (value * 1000000) / 1000000)
  | other => other

/-- `rank_candidates` without the extension. -/
def fallbackRank (casing : Casing) (containers : Containers) (decimal : Char → Option Nat) (query : String) (penalty : ℚ)
    (rows : List Fields) : Option (List Ranked) := do
  let readings ← rows.mapM fun row => (fallbackReading casing containers decimal query row).map fun reading => (row, reading)
  some ((rankFrom fallbackRounded penalty (fun _ => 0) readings).insertionSort Ranked.Ahead)

/-! ### Where they agree -/

/-- Readings with the same score, however often their source was seen. -/
structure Reading.Alike (first second : Reading) : Prop where
  rowId : first.rowId = second.rowId
  exactOverlap : first.exactOverlap = second.exactOverlap
  metadataPenalty : first.metadataPenalty = second.metadataPenalty
  confidence : ∃ value, first.confidence = .finite value ∧ second.confidence = .finite value

theorem Reading.Alike.score {first second : Reading} (alike : first.Alike second) (penalty : ℚ) (seen : Nat) :
    ∃ value, scoreOf penalty seen first = .finite value ∧ scoreOf penalty seen second = .finite value := by
  obtain ⟨value, here, there⟩ := alike.confidence
  unfold scoreOf
  rw [here, there, alike.exactOverlap, alike.metadataPenalty]
  exact ⟨_, rfl, rfl⟩

/-- The same row of a result to a reader that does not see the order of keys. -/
structure Ranked.Same (first second : Ranked) : Prop where
  id : first.id = second.id
  score : first.score = second.score
  fields : ∀ key, key ≠ "id" → key ≠ "score" →
    (member? first.row key).map JsonValue.sortKeys = (member? second.row key).map JsonValue.sortKeys

/-- The loop behind the rows that are done, whose sources are counted. -/
theorem rankFrom_agree {rows : List Fields} {first second : Fields → Fields × Reading} {penalty : ℚ}
    (alike : ∀ row ∈ rows, (first row).2.Alike (second row).2)
    (fields : ∀ row ∈ rows, ∀ key, key ≠ "id" → key ≠ "score" →
      (member? (first row).1 key).map JsonValue.sortKeys = (member? (second row).1 key).map JsonValue.sortKeys)
    (sources : ∀ row ∈ rows, ∀ other ∈ rows,
      (first row).2.sourceId = (first other).2.sourceId ↔ (second row).2.sourceId = (second other).2.sourceId)
    (rounded : ∀ earlier row later, rows = earlier ++ row :: later → ∀ value,
      scoreOf penalty ((earlier.map fun row => (first row).2.sourceId).count (first row).2.sourceId) (first row).2 = .finite value →
        ¬ Apart (value * 1000000))
    {done rest : List Fields} (whole : rows = done ++ rest) :
    List.Forall₂ Ranked.Same
      (rankFrom nativeRounded penalty (fun source => (done.map fun row => (first row).2.sourceId).count source) (rest.map first))
      (rankFrom fallbackRounded penalty (fun source => (done.map fun row => (second row).2.sourceId).count source)
        (rest.map second)) := by
  induction rest generalizing done with
  | nil => exact .nil
  | cons row rest ih =>
    have member : row ∈ rows := whole ▸ List.mem_append_right _ (List.mem_cons_self ..)
    -- the row's source was seen as often by both
    have seen : (done.map fun row => (first row).2.sourceId).count (first row).2.sourceId =
        (done.map fun row => (second row).2.sourceId).count (second row).2.sourceId := by
      rw [List.count_eq_countP, List.count_eq_countP, List.countP_map, List.countP_map]
      apply List.countP_congr
      intro other inside
      simpa using sources other (whole ▸ List.mem_append_left _ inside) row member
    have next : ∀ source : Fields → String, Function.update (fun name => (done.map source).count name) (source row)
        ((done.map source).count (source row) + 1) = fun name => ((done ++ [row]).map source).count name := by
      intro source
      funext name
      rw [List.map_append, List.count_append, List.map_cons, List.map_nil, List.count_singleton]
      by_cases same : name = source row
      · rw [same, Function.update_self, if_pos (beq_self_eq_true _)]
      · rw [Function.update_of_ne same, if_neg (by simpa using Ne.symm same), Nat.add_zero]
    rw [List.map_cons, List.map_cons]
    refine .cons ⟨(alike row member).rowId, ?_, fields row member⟩ ?_
    · obtain ⟨value, here, there⟩ := (alike row member).score penalty
        ((done.map fun row => (first row).2.sourceId).count (first row).2.sourceId)
      change nativeRounded (scoreOf penalty _ (first row).2) = fallbackRounded (scoreOf penalty _ (second row).2)
      dsimp only
      rw [← seen, here, there]
      have nearest := (halfEven_eq_halfAway_iff _).mpr (rounded done row rest whole value here)
      simp only [nativeRounded, fallbackRounded, nearest]
    · have later := @ih (done ++ [row]) (by rw [whole, List.append_assoc]; rfl)
      rw [← next fun row => (first row).2.sourceId, ← next fun row => (second row).2.sourceId] at later
      exact later

theorem forall₂_orderedInsert {α β : Type} {alike : α → β → Prop} {before : α → α → Prop} {ahead : β → β → Prop}
    [DecidableRel before] [DecidableRel ahead]
    (agree : ∀ a b c d, alike a b → alike c d → (before a c ↔ ahead b d)) {a : α} {b : β} (same : alike a b) {first : List α}
    {second : List β} (each : List.Forall₂ alike first second) :
    List.Forall₂ alike (first.orderedInsert before a) (second.orderedInsert ahead b) := by
  induction each with
  | nil => exact .cons same .nil
  | @cons c d first second here later ih =>
    unfold List.orderedInsert
    by_cases front : before a c
    · rw [if_pos front, if_pos ((agree a b c d same here).mp front)]
      exact .cons same (.cons here later)
    · rw [if_neg front, if_neg fun other => front ((agree a b c d same here).mpr other)]
      exact .cons here ih

theorem forall₂_insertionSort {α β : Type} {alike : α → β → Prop} {before : α → α → Prop} {ahead : β → β → Prop}
    [DecidableRel before] [DecidableRel ahead]
    (agree : ∀ a b c d, alike a b → alike c d → (before a c ↔ ahead b d)) {first : List α} {second : List β}
    (each : List.Forall₂ alike first second) :
    List.Forall₂ alike (first.insertionSort before) (second.insertionSort ahead) := by
  induction each with
  | nil => exact .nil
  | cons here _ ih => exact forall₂_orderedInsert agree here ih

theorem ahead_iff (first second third fourth : Ranked) (left : first.Same second) (right : third.Same fourth) :
    first.Ahead third ↔ second.Ahead fourth := by
  unfold Ranked.Ahead
  rw [left.score, left.id, right.score, right.id]

variable {serde : Serde} {casing : Casing} {containers : Containers} {decimal : Char → Option Nat} {query : String}

theorem valueAsF64_read {value back : JsonValue} (read : serde.read value = some back) (same : back.Same value) :
    valueAsF64 back = valueAsF64 value := by
  cases Serde.back_of_read read with
  | wide => cases same
  | float =>
    cases same
    rfl
  | _ => rfl

theorem nativeTokenSet_read {row back : Fields} (ran : serde.readFields row = some back) :
    nativeTokenSet back = nativeTokenSet row := by
  unfold nativeTokenSet
  cases Serde.member?_readFields ran "tokens" with
  | inl neither => rw [neither.1, neither.2]
  | inr both =>
    obtain ⟨value, other, here, read, there⟩ := both
    rw [here, there]
    cases Serde.back_of_read read with
    | arr inside =>
      have each := Serde.readItems_forall₂ inside
      clear * - each
      dsimp only
      induction each with
      | nil => rfl
      | cons first _ ih => rw [List.filterMap_cons, List.filterMap_cons, Serde.asStr?_read first, ih]
    | _ => rfl

theorem nativeReading_read {row back : Fields} (ran : serde.readFields row = some back)
    (survives : ∀ value, member? row "confidence" = some value → serde.Survives value) :
    nativeReading query back = nativeReading query row := by
  have confidence : nativeConfidence back = nativeConfidence row := by
    unfold nativeConfidence
    cases Serde.member?_readFields ran "confidence" with
    | inl neither => rw [neither.1, neither.2]
    | inr both =>
      obtain ⟨value, other, here, read, there⟩ := both
      rw [here, there, Option.bind_some, Option.bind_some,
        valueAsF64_read read ((survives_iff read).mp (survives value here))]
  unfold nativeReading nativeSource nativePenalty
  rw [nativeTokenSet_read ran, confidence, Serde.text_readFields ran, Serde.text_readFields ran, Serde.text_readFields ran,
    Serde.text_readFields ran]

theorem nativeTokenSet_subset {row : Fields} {tokens : List String} (ran : fallbackTokenSet containers row = some tokens) :
    ∀ token ∈ nativeTokenSet row, token ∈ tokens := by
  unfold nativeTokenSet
  unfold fallbackTokenSet at ran
  intro token member
  split at member
  · next items found =>
    rw [found] at ran
    dsimp only at ran
    split at ran
    · cases ran
      obtain ⟨item, inside, text⟩ := List.mem_filterMap.mp member
      refine List.mem_map.mpr ⟨item, inside, ?_⟩
      unfold JsonValue.asStr? at text
      split at text
      · cases text
        rfl
      · cases text
    · next empty =>
      cases items with
      | nil => cases member
      | cons item items => exact absurd rfl empty
  · cases member

structure RowAlike (serde : Serde) (containers : Containers) (decimal : Char → Option Nat) (query : String) (row : Fields) :
    Prop where
  id : IdAlike row
  /-- What is given back unchanged survives. -/
  fields : ∀ key value, key ≠ "id" → key ≠ "score" → member? row key = some value → serde.Survives value
  /-- Of what the fallback iterates only texts are tokens of the query. -/
  tokens : ∀ tokens, fallbackTokenSet containers row = some tokens →
    ∀ token ∈ tokens, token ∈ nativeTokens query → token ∈ nativeTokenSet row
  confidence : ∃ value, nativeConfidence row = .finite value ∧ fallbackConfidence decimal row = .finite value
  status : ∀ value, member? row "truth_status" = some value → value = .null ∨ ∃ text, value = .str text

theorem penalty_agrees {row : Fields} {penalty : ℚ}
    (status : ∀ value, member? row "truth_status" = some value → value = .null ∨ ∃ text, value = .str text)
    (ran : fallbackPenalty row = some penalty) : nativePenalty row = penalty := by
  unfold fallbackPenalty at ran
  unfold nativePenalty
  cases found : member? row "truth_status" with
  | none =>
    rw [found] at ran
    exact Option.some.inj ran
  | some value =>
    rw [found] at ran
    cases status value found with
    | inl null =>
      cases null
      exact Option.some.inj ran
    | inr is_text =>
      obtain ⟨text, rfl⟩ := is_text
      exact Option.some.inj ran

theorem readings_agree {row back : Fields} {reading : Reading} (ran : serde.readFields row = some back)
    (unmixed : Unmixed query.toList) (alike : RowAlike serde containers decimal query row)
    (read : fallbackReading casing containers decimal query row = some reading) :
    nativeReading query back = nativeReading query row ∧ (nativeReading query row).Alike reading ∧
      reading.sourceId = fallbackSource containers row := by
  have own : nativeReading query back = nativeReading query row :=
    nativeReading_read ran fun value found => alike.fields "confidence" value (by decide) (by decide) found
  obtain ⟨tokens, iterated, read⟩ := Option.bind_eq_some_iff.mp read
  obtain ⟨penalty, hashed, read⟩ := Option.bind_eq_some_iff.mp read
  cases read
  refine ⟨own, ⟨?_, ?_, penalty_agrees alike.status hashed, alike.confidence⟩, rfl⟩
  · rw [← own]
    exact (id_agrees ran).mpr alike.id
  · unfold nativeReading
    dsimp only
    rw [← tokens_agree casing unmixed]
    apply congrArg Finset.card
    ext token
    rw [Finset.mem_inter, Finset.mem_inter, List.mem_toFinset, List.mem_toFinset, List.mem_toFinset]
    constructor
    · intro ⟨asked, inside⟩
      exact ⟨asked, nativeTokenSet_subset iterated token inside⟩
    · intro ⟨asked, inside⟩
      exact ⟨asked, alike.tokens tokens iterated token inside asked⟩

theorem fields_agree {row back : Fields} (ran : serde.readFields row = some back)
    (alike : RowAlike serde containers decimal query row) (key : String) (notId : key ≠ "id") (notScore : key ≠ "score") :
    (member? back key).map JsonValue.sortKeys = (member? row key).map JsonValue.sortKeys := by
  cases Serde.member?_readFields ran key with
  | inl neither => rw [neither.1, neither.2]
  | inr both =>
    obtain ⟨value, other, here, read, there⟩ := both
    rw [here, there]
    exact congrArg some ((survives_iff read).mp (alike.fields key value notId notScore here))

structure RanksAlike (serde : Serde) (containers : Containers) (decimal : Char → Option Nat) (query : String) (penalty : ℚ)
    (rows : List Fields) : Prop where
  readable : (serde.readPayloads rows).isSome = true
  unmixed : Unmixed query.toList
  row : ∀ row ∈ rows, RowAlike serde containers decimal query row
  /-- Rows of one source to one of them are rows of one source to the other. -/
  sources : ∀ row ∈ rows, ∀ other ∈ rows,
    nativeSource row = nativeSource other ↔ fallbackSource containers row = fallbackSource containers other
  /-- No score is in the middle of two millionths, the even one towards zero. -/
  apart : ∀ earlier row later, rows = earlier ++ row :: later → ∀ value,
    scoreOf penalty ((earlier.map nativeSource).count (nativeSource row)) (nativeReading query row) = .finite value →
      ¬ Apart (value * 1000000)

theorem rank_agrees {penalty : ℚ} {rows : List Fields} {ranked : List Ranked}
    (alike : RanksAlike serde containers decimal query penalty rows)
    (ran : fallbackRank casing containers decimal query penalty rows = some ranked) :
    ∃ result, nativeRank serde query penalty rows = some result ∧ List.Forall₂ Ranked.Same result ranked := by
  obtain ⟨backs, read⟩ := Option.isSome_iff_exists.mp alike.readable
  obtain ⟨readings, made, ran⟩ := Option.bind_eq_some_iff.mp ran
  cases ran
  refine ⟨_, congrArg (Option.map _) read, forall₂_insertionSort ahead_iff ?_⟩
  -- row by row, what the two loops are given
  have rounds := Serde.readPayloads_forall₂ read
  have others := forall₂_of_mapM_some made
  let first : Fields → Fields × Reading := fun row =>
    ((serde.readFields row).getD [], nativeReading query ((serde.readFields row).getD []))
  let second : Fields → Fields × Reading := fun row =>
    ((fallbackReading casing containers decimal query row).map fun reading => (row, reading)).getD (row, nativeReading query row)
  have here : backs.map (fun row => (row, nativeReading query row)) = rows.map first := by
    rw [eq_map_getD (fun _ => []) rounds, List.map_map]
    rfl
  have there : readings = rows.map second := eq_map_getD (fun row => (row, nativeReading query row)) others
  have each : ∀ row ∈ rows, (first row).2 = nativeReading query row ∧ (nativeReading query row).Alike (second row).2 ∧
      (second row).2.sourceId = fallbackSource containers row ∧
      ∀ key, key ≠ "id" → key ≠ "score" →
        (member? (first row).1 key).map JsonValue.sortKeys = (member? (second row).1 key).map JsonValue.sortKeys := by
    intro row member
    obtain ⟨back, -, ran⟩ := exists_of_forall₂ rounds row member
    obtain ⟨pair, -, mapped⟩ := exists_of_forall₂ others row member
    obtain ⟨reading, found, rfl⟩ := Option.map_eq_some_iff.mp mapped
    have ⟨own, same, source⟩ := readings_agree ran alike.unmixed (alike.row row member) found
    have left : first row = (back, nativeReading query back) := by
      change ((serde.readFields row).getD [], _) = _
      rw [ran]
      rfl
    have right : second row = (row, reading) := by
      change Option.getD _ _ = _
      rw [mapped]
      rfl
    rw [left, right]
    exact ⟨own, same, source, fields_agree ran (alike.row row member)⟩
  have sources : ∀ row ∈ rows, (first row).2.sourceId = nativeSource row := fun row member =>
    congrArg Reading.sourceId (each row member).1
  rw [here, there]
  refine @rankFrom_agree rows first second penalty ?_ (fun row member => (each row member).2.2.2) ?_ ?_ [] rows rfl
  · intro row member
    rw [(each row member).1]
    exact (each row member).2.1
  · intro row member other inside
    rw [sources row member, sources other inside, (each row member).2.2.1, (each other inside).2.2.1]
    exact alike.sources row member other inside
  · intro earlier row later whole value scored
    apply alike.apart earlier row later whole value
    have counted : (earlier.map fun row => (first row).2.sourceId) = earlier.map nativeSource :=
      List.map_congr_left fun other inside => sources other (whole ▸ List.mem_append_left _ inside)
    have member : row ∈ rows := whole ▸ List.mem_append_right _ (List.mem_cons_self ..)
    rw [counted, sources row member, (each row member).1] at scored
    exact scored

/-- Both implementations fuse alike, at every limit that is not negative, exactly if no candidate repeats and no summand
has a rank beyond an unsigned integer, or what these summands add cancels; at a negative limit exactly if there are no
candidates. They rank alike what both read alike. -/
theorem rankings_agree (serde : Serde) (casing : Casing) (containers : Containers) (decimal : Char → Option Nat) :
    (∀ fusion : Fusion, (fused fusion [] fusion.candidateIds).isSome = true →
      ((∀ limit : Int, 0 ≤ limit → fallbackFuse fusion limit = some (nativeFuse fusion limit)) ↔
        fusion.candidateIds.Nodup ∧ ∀ rowId ∈ fusion.candidateIds, lost fusion rowId = 0) ∧
      ∀ limit : Int, limit < 0 → (fallbackFuse fusion limit = some (nativeFuse fusion limit) ↔ fusion.candidateIds = [])) ∧
    ∀ query penalty rows ranked, fallbackRank casing containers decimal query penalty rows = some ranked →
      RanksAlike serde containers decimal query penalty rows →
        ∃ result, nativeRank serde query penalty rows = some result ∧ List.Forall₂ Ranked.Same result ranked :=
  ⟨fun _ accepted => fuse_agree_iff accepted, fun _ _ _ _ ran alike => rank_agrees alike ran⟩

/-! ### A candidate that repeats, and an id that is no text -/

def sampleFusion (candidateIds : List String) (small : candidateIds.length < 2 ^ 63) : Fusion where
  candidateIds
  ftsRank rowId := if rowId = "a" then some 1 else none
  vecRank rowId := if rowId = "b" then some 2 else none
  ftsConfidence _ := none
  vecConfidence _ := none
  rrfK := 40
  ftsWeight := 2
  vectorWeight := 6
  small

def sampleRow (id : JsonValue) : Fields :=
  [("id", id), ("tokens", .arr [.str "build", .int 5]), ("confidence", .int 1), ("source_id", .str "s")]

theorem ranksAlike_sample : RanksAlike sampleSerde sampleContainers (fun _ => none) "Fix the build" (1 / 20)
    [sampleRow (.str "x")] := by
  refine ⟨rfl, by decide, List.forall_mem_singleton.mpr ⟨?_, ?_, ?_, ?_, ?_⟩, ?_, ?_⟩
  · intro value found
    cases found
    exact .inl ⟨_, rfl⟩
  · intro key value _ _ found
    obtain ⟨field, first, rfl⟩ := Option.map_eq_some_iff.mp found
    have member := List.mem_of_find?_eq_some first
    have all : ∀ field ∈ sampleRow (.str "x"), ∃ back, sampleSerde.read field.2 = some back ∧ back.Same field.2 := by
      intro field member
      simp only [sampleRow, List.mem_cons, List.not_mem_nil, or_false] at member
      rcases member with rfl | rfl | rfl | rfl <;> exact ⟨_, rfl, rfl⟩
    exact all field member
  · intro tokens ran
    cases ran
    decide
  · exact ⟨1, rfl, rfl⟩
  · exact nofun
  · intro row member other inside
    rw [List.mem_singleton.mp member, List.mem_singleton.mp inside]
    exact iff_of_true rfl rfl
  · intro earlier row later whole value scored
    cases earlier with
    | nil =>
      cases whole
      have exact_score : value = 2 := by
        have computed : scoreOf (1 / 20) 0 (nativeReading "Fix the build" (sampleRow (.str "x"))) = .finite 2 := by
          decide +kernel
        exact Number.finite.inj (scored.symm.trans computed)
      rw [exact_score]
      decide +kernel
    | cons first rest =>
      have lengths := congrArg List.length whole
      simp [sampleRow] at lengths

/-- Two candidates, and a row with a token of the query. -/
theorem rankings_agree_sample :
    fallbackFuse (sampleFusion ["a", "b"] (by decide)) 1 = some (nativeFuse (sampleFusion ["a", "b"] (by decide)) 1) ∧
      ∃ result ranked, nativeRank sampleSerde "Fix the build" (1 / 20) [sampleRow (.str "x")] = some result ∧
        fallbackRank .basic sampleContainers (fun _ => none) "Fix the build" (1 / 20) [sampleRow (.str "x")] = some ranked ∧
        List.Forall₂ Ranked.Same result ranked := by
  have ⟨fuse, rank⟩ := rankings_agree sampleSerde .basic sampleContainers fun _ => none
  constructor
  · refine (fuse _ (by decide +kernel)).1.mpr ⟨by decide, ?_⟩ 1 (by decide)
    decide +kernel
  · obtain ⟨ranked, made⟩ := Option.isSome_iff_exists.mp (show (fallbackRank .basic sampleContainers (fun _ => none)
      "Fix the build" (1 / 20) [sampleRow (.str "x")]).isSome = true from rfl)
    have ⟨result, native, same⟩ := rank _ _ _ _ made ranksAlike_sample
    exact ⟨result, ranked, native, made, same⟩

/-- A candidate that repeats is scored once by the fallback. -/
theorem rankings_fail : ¬ ∀ (fusion : Fusion) (limit : Int), (fused fusion [] fusion.candidateIds).isSome = true →
    fallbackFuse fusion limit = some (nativeFuse fusion limit) := by
  intro claim
  have agrees := claim (sampleFusion ["a", "a"] (by decide)) 2 (by decide +kernel)
  exact absurd (congrArg (Option.map List.length) agrees) (by decide +kernel)

end HarnessMem.Native
