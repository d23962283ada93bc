import HarnessMem.Library.Casing
import HarnessMem.Library.JsonAccess
import HarnessMem.Library.Results

/-! The tokenizer that the index and the ranking share, in its two implementations. -/

set_option autoImplicit false

namespace HarnessMem.Native

open Library

/-- `[A-Za-z0-9_]`. -/
def isWordChar (c : Char) : Bool := c.isAlphanum || c = '_'

def pushUnique (out : List String) (token : List Char) : List String :=
  if token = [] then out else if String.ofList token ∈ out then out else out ++ [String.ofList token]

/-- The loop of `tokens` in the extension: the characters of the current token are lowered as they come. -/
def tokensFrom (out : List String) (current : List Char) : List Char → List String
  | [] => pushUnique out current
  | c :: rest =>
    if isWordChar c then tokensFrom out (current ++ [asciiLower c]) rest else tokensFrom (pushUnique out current) [] rest

/-- `tokens` in the extension. -/
def nativeTokens (text : String) : List String := tokensFrom [] [] text.toList

/-- `_tokens` without the extension: the whole text is lowered first. -/
def fallbackTokens (casing : Casing) (text : String) : List String :=
  (words (fun c => !isWordChar c) (casing.lower text.toList)).foldl pushUnique []

/-- The text has no character outside ASCII with a letter of ASCII in its lower case. -/
def Unmixed (text : List Char) : Prop := kelvin ∉ text ∧ dottedI ∉ text

instance (text : List Char) : Decidable (Unmixed text) := inferInstanceAs (Decidable (_ ∧ _))

theorem isWordChar_asciiLower {c : Char} (ascii : c.toNat < 128) : isWordChar (asciiLower c) = isWordChar c := by
  have all : ∀ n < 128, isWordChar (asciiLower (Char.ofNat n)) = isWordChar (Char.ofNat n) := by decide
  have one := all c.toNat ascii
  rwa [Char.ofNat_toNat] at one

theorem asciiLower_other {c : Char} (ascii : c.toNat < 128) (other : isWordChar c = false) : asciiLower c = c := by
  have all : ∀ n < 128, isWordChar (Char.ofNat n) = false → asciiLower (Char.ofNat n) = Char.ofNat n := by decide
  have one := all c.toNat ascii
  rw [Char.ofNat_toNat] at one
  exact one other

theorem not_isWordChar {c : Char} (outside : 128 ≤ c.toNat) : isWordChar c = false := by
  unfold isWordChar Char.isAlphanum Char.isDigit
  have code : c.val.toNat = c.toNat := rfl
  have alpha : c.isAlpha = false := by
    rw [Bool.eq_false_iff, Ne, isAlpha_iff]
    omega
  simp only [alpha, Bool.or_eq_false_iff, Bool.and_eq_false_iff, decide_eq_false_iff_not, ge_iff_le, UInt32.le_iff_toNat_le, code]
  have digit : '9'.val.toNat = 57 := rfl
  refine ⟨⟨trivial, by omega⟩, ?_⟩
  rintro rfl
  revert outside
  decide

theorem foldl_words_outside {lowered rest : List Char} (out : List String) (current : List Char) (filled : lowered ≠ [])
    (outside : ∀ c ∈ lowered, isWordChar c = false) :
    (wordsFrom (fun c => !isWordChar c) current (lowered ++ rest)).foldl pushUnique out =
      (wordsFrom (fun c => !isWordChar c) [] rest).foldl pushUnique (pushUnique out current) := by
  have flush : ((if current = [] then [] else [current]) : List (List Char)).foldl pushUnique out = pushUnique out current := by
    by_cases empty : current = []
    · rw [if_pos empty, empty]
      rfl
    · rw [if_neg empty]
      rfl
  have ends : ∀ more : List Char, (∀ c ∈ more, isWordChar c = false) →
      wordsFrom (fun c => !isWordChar c) [] (more ++ rest) = wordsFrom (fun c => !isWordChar c) [] rest := by
    intro more plain
    induction more with
    | nil => rfl
    | cons c more ih =>
      rw [List.cons_append, wordsFrom, if_pos (by rw [plain c (List.mem_cons_self ..)]; rfl),
        ih fun d member => plain d (List.mem_cons_of_mem _ member)]
      rfl
  cases lowered with
  | nil => exact absurd rfl filled
  | cons c more =>
    rw [List.cons_append, wordsFrom, if_pos (by rw [outside c (List.mem_cons_self ..)]; rfl), List.foldl_append, flush,
      ends more fun d member => outside d (List.mem_cons_of_mem _ member)]

theorem tokensFrom_eq (casing : Casing) {text : List Char} (unmixed : Unmixed text) (out : List String)
    (current : List Char) (behind : Bool) : tokensFrom out current text =
      (wordsFrom (fun c => !isWordChar c) current (casing.lowerFrom behind text)).foldl pushUnique out := by
  induction text generalizing out current behind with
  | nil =>
    unfold tokensFrom Casing.lowerFrom wordsFrom
    by_cases empty : current = []
    · rw [if_pos empty, empty]
      rfl
    · rw [if_neg empty]
      rfl
  | cons c rest ih =>
    have later : Unmixed rest :=
      ⟨fun member => unmixed.1 (List.mem_cons_of_mem _ member), fun member => unmixed.2 (List.mem_cons_of_mem _ member)⟩
    rw [tokensFrom, Casing.lowerFrom]
    by_cases ascii : c.toNat < 128
    · have letter : c ≠ capitalSigma := by
        rintro rfl
        revert ascii
        decide
      rw [if_neg letter, casing.ascii c ascii]
      by_cases inside : isWordChar c = true
      · rw [if_pos inside, ih later, List.singleton_append, wordsFrom,
          if_neg (by rw [isWordChar_asciiLower ascii, inside]; decide)]
      · have other : isWordChar c = false := by simpa using inside
        rw [if_neg inside, ih later, foldl_words_outside out current (List.cons_ne_nil _ _)]
        intro d member
        rw [List.mem_singleton.mp member, asciiLower_other ascii other]
        exact other
    · have outside : 128 ≤ c.toNat := Nat.not_lt.mp ascii
      rw [if_neg (by rw [not_isWordChar outside]; exact Bool.false_ne_true), ih later, foldl_words_outside out current]
      · split
        · exact List.cons_ne_nil _ _
        · exact casing.filled c
      · intro d member
        split at member
        · rw [List.mem_singleton.mp member]
          split <;> decide
        · apply not_isWordChar
          refine casing.outside c outside ?_ ?_ d member
          · rintro rfl
            exact unmixed.1 (List.mem_cons_self ..)
          · rintro rfl
            exact unmixed.2 (List.mem_cons_self ..)

theorem tokens_agree (casing : Casing) {text : String} (unmixed : Unmixed text.toList) :
    nativeTokens text = fallbackTokens casing text :=
  tokensFrom_eq casing unmixed [] [] false

end HarnessMem.Native

/-! The values that reach the extension: what `serde_json` reads from the text that
`json.dumps` writes.
-/

namespace HarnessMem.Native

open Library

abbrev Fields := List (String × JsonValue)

/-- The numbers of `serde_json`: the float it takes for an integer beyond 64 bits, unless there is none, and the float
that comes back for a float. -/
structure Serde where
  wide : Int → Option FloatText
  float : FloatText → FloatText

namespace Serde

variable (serde : Serde)

def integer (value : Int) : Option JsonValue :=
  if -(2 ^ 63) ≤ value ∧ value < 2 ^ 64 then some (.int value) else (serde.wide value).map .float

mutual

def read : JsonValue → Option JsonValue
  | .int value => serde.integer value
  | .float value => if value.value? = none then none else some (.float (serde.float value))
  | .arr items => (readItems items).map .arr
  | .obj fields => (readFields fields).map .obj
  | .null => some .null
  | .bool value => some (.bool value)
  | .str value => some (.str value)

def readItems : List JsonValue → Option (List JsonValue)
  | [] => some []
  | item :: items => do
    let item ← read item
    let items ← readItems items
    some (item :: items)

def readFields : Fields → Option Fields
  | [] => some []
  | (key, value) :: fields => do
    let value ← read value
    let fields ← readFields fields
    some ((key, value) :: fields)

end

/-- `from_str` on the text of a list of dictionaries: 128 open brackets are one too many. -/
def readPayloads (payloads : List Fields) : Option (List Fields) :=
  if (JsonValue.arr (payloads.map .obj)).depth < 128 then payloads.mapM serde.readFields else none

def Survives (value : JsonValue) : Prop := ∃ back, serde.read value = some back ∧ back.Same value

variable {serde}

theorem readFields_cons {key : String} {value : JsonValue} {fields result : Fields}
    (ran : serde.readFields ((key, value) :: fields) = some result) :
    ∃ back rest, serde.read value = some back ∧ serde.readFields fields = some rest ∧ result = (key, back) :: rest := by
  rw [readFields] at ran
  obtain ⟨back, first, ran⟩ := Option.bind_eq_some_iff.mp ran
  obtain ⟨rest, later, ran⟩ := Option.bind_eq_some_iff.mp ran
  exact ⟨back, rest, first, later, (Option.some.inj ran).symm⟩

theorem member?_readFields {fields result : Fields} (ran : serde.readFields fields = some result) (key : String) :
    (member? fields key = none ∧ member? result key = none) ∨
      ∃ value back, member? fields key = some value ∧ serde.read value = some back ∧ member? result key = some back := by
  induction fields generalizing result with
  | nil =>
    rw [readFields] at ran
    cases ran
    exact .inl ⟨rfl, rfl⟩
  | cons field fields ih =>
    obtain ⟨name, value⟩ := field
    obtain ⟨back, rest, first, later, rfl⟩ := readFields_cons ran
    rw [member?_cons, member?_cons]
    by_cases here : name = key
    · rw [if_pos here, if_pos here]
      exact .inr ⟨value, back, rfl, first, rfl⟩
    · rw [if_neg here, if_neg here]
      exact ih later

theorem readItems_forall₂ {items result : List JsonValue} (ran : serde.readItems items = some result) :
    List.Forall₂ (fun item back => serde.read item = some back) items result := by
  induction items generalizing result with
  | nil =>
    rw [readItems] at ran
    cases ran
    exact .nil
  | cons item items ih =>
    rw [readItems] at ran
    obtain ⟨back, first, ran⟩ := Option.bind_eq_some_iff.mp ran
    obtain ⟨rest, later, ran⟩ := Option.bind_eq_some_iff.mp ran
    cases ran
    exact .cons first (ih later)

theorem readPayloads_forall₂ {payloads result : List Fields} (ran : serde.readPayloads payloads = some result) :
    List.Forall₂ (fun payload back => serde.readFields payload = some back) payloads result := by
  unfold readPayloads at ran
  split at ran
  · exact forall₂_of_mapM_some ran
  · cases ran

/-- What a value comes back as: itself, a float for a number, or the list or dictionary of what its parts come back as. -/
inductive Back (serde : Serde) : JsonValue → JsonValue → Prop where
  | null : Back serde .null .null
  | bool (value : Bool) : Back serde (.bool value) (.bool value)
  | str (value : String) : Back serde (.str value) (.str value)
  | int (value : Int) (narrow : -(2 ^ 63) ≤ value ∧ value < 2 ^ 64) : Back serde (.int value) (.int value)
  | wide (value : Int) (float : FloatText) : Back serde (.int value) (.float float)
  | float (value float : FloatText) : Back serde (.float value) (.float float)
  | arr {items others : List JsonValue} (inside : serde.readItems items = some others) : Back serde (.arr items) (.arr others)
  | obj {fields others : Fields} (inside : serde.readFields fields = some others) : Back serde (.obj fields) (.obj others)

theorem back_of_read {value back : JsonValue} (ran : serde.read value = some back) : Back serde value back := by
  cases value with
  | null =>
    rw [read] at ran
    exact Option.some.inj ran ▸ .null
  | bool value =>
    rw [read] at ran
    exact Option.some.inj ran ▸ .bool value
  | str value =>
    rw [read] at ran
    exact Option.some.inj ran ▸ .str value
  | int value =>
    rw [read] at ran
    unfold integer at ran
    split at ran
    · next narrow => exact Option.some.inj ran ▸ .int value narrow
    · obtain ⟨float, -, rfl⟩ := Option.map_eq_some_iff.mp ran
      exact .wide value float
  | float value =>
    rw [read] at ran
    split at ran
    · cases ran
    · exact Option.some.inj ran ▸ .float value _
  | arr items =>
    rw [read] at ran
    obtain ⟨others, inside, rfl⟩ := Option.map_eq_some_iff.mp ran
    exact .arr inside
  | obj fields =>
    rw [read] at ran
    obtain ⟨others, inside, rfl⟩ := Option.map_eq_some_iff.mp ran
    exact .obj inside

theorem asStr?_read {value back : JsonValue} (ran : serde.read value = some back) : back.asStr? = value.asStr? := by
  cases back_of_read ran <;> rfl

theorem text_readFields {fields result : Fields} (ran : serde.readFields fields = some result) (key : String) :
    (member? result key).bind JsonValue.asStr? = (member? fields key).bind JsonValue.asStr? := by
  cases member?_readFields ran key with
  | inl neither => rw [neither.1, neither.2]
  | inr both =>
    obtain ⟨value, back, here, read, there⟩ := both
    rw [here, there]
    exact asStr?_read read

end Serde

end HarnessMem.Native
