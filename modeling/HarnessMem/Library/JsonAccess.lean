import HarnessMem.Library.JsonText
import HarnessMem.Library.Lists
import HarnessMem.Library.Python
import Mathlib.Algebra.Order.Ring.Unbundled.Rat
import Mathlib.Data.Rat.Defs

/-! The numbers that decimal texts spell. -/

set_option autoImplicit false

namespace HarnessMem.Library

def signedDigits (text : List Char) : Int :=
  match text with
  | '-' :: digits => -(Nat.ofDigitChars 10 digits 0 : Int)
  | '+' :: digits => Nat.ofDigitChars 10 digits 0
  | digits => Nat.ofDigitChars 10 digits 0

/-- `10 ** exponent`. -/
def tenTo (exponent : Int) : ℚ :=
  if 0 ≤ exponent then (10 : ℚ) ^ exponent.toNat else 1 / (10 : ℚ) ^ (-exponent).toNat

/-- The number of `digits.digits`, where either side may be missing. -/
def pointValue (text : List Char) : ℚ :=
  let (whole, fraction) := text.span (· ≠ '.')
  (Nat.ofDigitChars 10 whole 0 : ℚ) + (Nat.ofDigitChars 10 fraction.tail 0 : ℚ) / (10 : ℚ) ^ fraction.tail.length

def decimalValue (text : List Char) : ℚ :=
  let (mantissa, exponent) := text.span fun c => c ≠ 'e' && c ≠ 'E'
  pointValue mantissa * tenTo (signedDigits exponent.tail)

def FloatText.value? (float : FloatText) : Option ℚ :=
  if float.text ∈ ["NaN".toList, "Infinity".toList, "-Infinity".toList] then none
  else match float.text with
    | '-' :: rest => some (-decimalValue rest)
    | text => some (decimalValue text)

end HarnessMem.Library

/-! Looking into JSON values, and how deep they are nested. -/

namespace HarnessMem.Library

/-- `dict.get(key)`. -/
def member? (fields : List (String × JsonValue)) (key : String) : Option JsonValue :=
  (fields.find? fun field => field.1 = key).map (·.2)

theorem member?_cons (name : String) (value : JsonValue) (fields : List (String × JsonValue)) (key : String) :
    member? ((name, value) :: fields) key = if name = key then some value else member? fields key := by
  unfold member?
  rw [List.find?_cons]
  by_cases same : name = key
  · rw [if_pos same, show decide ((name, value).1 = key) = true from decide_eq_true same]
    rfl
  · rw [if_neg same, show decide ((name, value).1 = key) = false from decide_eq_false same]

section

variable {fields : List (String × JsonValue)} {key : String} {value : JsonValue}

theorem member?_of_mem (distinct : (fields.map (·.1)).Nodup) (member : (key, value) ∈ fields) : member? fields key = some value := by
  have found := find?_of_nodup distinct member
  unfold member?
  rw [found]
  rfl

theorem mem_of_member? (found : member? fields key = some value) : (key, value) ∈ fields := by
  obtain ⟨field, held, rfl⟩ := Option.map_eq_some_iff.mp found
  have named := List.find?_some held
  rw [← of_decide_eq_true named]
  exact List.mem_of_find?_eq_some held

theorem setField_of_mem (known : key ∈ fields.map (·.1)) :
    setField fields (key, value) = fields.map fun field => (field.1, if field.1 = key then value else field.2) := by
  obtain ⟨field, member, same⟩ := List.mem_map.mp known
  unfold setField
  rw [if_pos (List.any_eq_true.mpr ⟨field, member, decide_eq_true same⟩)]
  apply List.map_congr_left
  intro other _
  by_cases equal : other.1 = key
  · rw [if_pos equal, if_pos equal, equal]
  · rw [if_neg equal, if_neg equal]

theorem setField_of_not_mem (fresh : key ∉ fields.map (·.1)) : setField fields (key, value) = fields ++ [(key, value)] := by
  unfold setField
  rw [if_neg]
  intro held
  obtain ⟨field, member, same⟩ := List.any_eq_true.mp held
  exact fresh (List.mem_map.mpr ⟨field, member, of_decide_eq_true same⟩)

theorem member?_setField : member? (setField fields (key, value)) key = some value := by
  by_cases known : key ∈ fields.map (·.1)
  · rw [setField_of_mem known]
    induction fields with
    | nil => cases known
    | cons field rest ih =>
      rw [List.map_cons, member?_cons]
      by_cases same : field.1 = key
      · rw [if_pos same, if_pos same]
      · rw [if_neg same]
        exact ih ((List.mem_cons.mp known).resolve_left (Ne.symm same))
  · rw [setField_of_not_mem known]
    induction fields with
    | nil => simp [member?]
    | cons field rest ih =>
      rw [List.map_cons, List.mem_cons, not_or] at known
      rw [List.cons_append, member?_cons, if_neg (Ne.symm known.1)]
      exact ih known.2

end

namespace JsonValue

def asStr? : JsonValue → Option String
  | .str value => some value
  | _ => none

/-- Python's truth of a value that `json.loads` returns. -/
def truthy (value : JsonValue) : Bool := (PyValue.ofJson value).truthy

/-- `str(value)` of a value that `json.loads` returns. -/
def pyStr (containerRepr : PyValue → String) (value : JsonValue) : String := (PyValue.ofJson value).toStr containerRepr

end JsonValue

namespace PyValue

mutual

/-- What `json.loads` returns is written again as it was. -/
theorem toJson_ofJson : ∀ value : JsonValue, value.distinct = true → (ofJson value).toJson = value
  | .null | .bool _ | .int _ | .float _ | .str _ => fun _ => rfl
  | .arr items => fun distinct => congrArg JsonValue.arr (toJsonItems_ofJsonItems items distinct)
  | .obj fields => fun distinct => by
    simp only [JsonValue.distinct, Bool.and_eq_true, decide_eq_true_eq] at distinct
    rw [ofJson, toJson, toJsonFields_ofJsonFields fields distinct.2, foldl_setField [] distinct.1, List.nil_append]

theorem toJsonItems_ofJsonItems : ∀ items : List JsonValue, JsonValue.distinctItems items = true →
    toJsonItems (ofJsonItems items) = items
  | [] => fun _ => rfl
  | item :: items => fun distinct => by
    simp only [JsonValue.distinctItems, Bool.and_eq_true] at distinct
    rw [ofJsonItems, toJsonItems, toJson_ofJson item distinct.1, toJsonItems_ofJsonItems items distinct.2]

theorem toJsonFields_ofJsonFields : ∀ fields : List (String × JsonValue), JsonValue.distinctFields fields = true →
    toJsonFields (ofJsonFields fields) = fields
  | [] => fun _ => rfl
  | (key, value) :: fields => fun distinct => by
    simp only [JsonValue.distinctFields, Bool.and_eq_true] at distinct
    rw [ofJsonFields, toJsonFields, toJson_ofJson value distinct.1, toJsonFields_ofJsonFields fields distinct.2]

end

end PyValue

namespace JsonValue

def Same (first second : JsonValue) : Prop := first.sortKeys = second.sortKeys

mutual

def depth : JsonValue → Nat
  | .arr items => depthItems items + 1
  | .obj fields => depthFields fields + 1
  | _ => 0

def depthItems : List JsonValue → Nat
  | [] => 0
  | item :: items => max item.depth (depthItems items)

def depthFields : List (String × JsonValue) → Nat
  | [] => 0
  | (_, value) :: fields => max value.depth (depthFields fields)

end

end JsonValue

end HarnessMem.Library

/-! Values of JSON texts as Python compares them, and their members with `None` for what is missing. -/
