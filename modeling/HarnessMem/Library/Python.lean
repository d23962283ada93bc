import HarnessMem.Library.JsonText
import HarnessMem.Library.Text
import Mathlib.Data.List.Sort
import Mathlib.Data.String.Basic

/-! Values of the source language as callers hand them over, and the JSON text with
sorted keys that is made of them. Every value has one: an object without a JSON form
is written as its `str`.
-/

set_option autoImplicit false

namespace HarnessMem.Library

inductive PyValue where
  | none
  | bool (value : Bool)
  | int (value : Int)
  | float (value : FloatText)
  | str (value : String)
  | list (items : List PyValue)
  /-- The dictionary that assigning these fields in order makes. -/
  | dict (fields : List (String × PyValue))
  /-- Any other object, with its `str` and its truth. -/
  | object (text : String) (truthy : Bool)

abbrev PyDict := List (String × PyValue)

def PyDict.get? (fields : PyDict) (key : String) : Option PyValue :=
  (fields.reverse.find? fun field => field.1 = key).map (·.2)

/-- `dict.get(key)`, `None` where the key is missing. -/
def PyDict.get (fields : PyDict) (key : String) : PyValue := (PyDict.get? fields key).getD .none

namespace PyValue

def truthy : PyValue → Bool
  | none => false
  | bool value => value
  | int value => value ≠ 0
  -- a float is zero when its mantissa has no other digit
  | float value => !(value.text.takeWhile fun c => c ≠ 'e' && c ≠ 'E').all fun c => c ∈ ['-', '0', '.']
  | str value => value ≠ ""
  | list items => !items.isEmpty
  | dict fields => !fields.isEmpty
  | object _ truthy => truthy

/-- `str(float)`: JSON has its own names for the constants. -/
def floatStr (value : FloatText) : String :=
  if value.text = "NaN".toList then "nan"
  else if value.text = "Infinity".toList then "inf"
  else if value.text = "-Infinity".toList then "-inf"
  else String.ofList value.text

/-- `str(value)`, the `repr` of lists and dictionaries given. -/
def toStr (containerRepr : PyValue → String) : PyValue → String
  | none => "None"
  | bool true => "True"
  | bool false => "False"
  | int value => String.ofList (dumpsInt value)
  | float value => floatStr value
  | str value => value
  | object text _ => text
  | list items => containerRepr (list items)
  | dict fields => containerRepr (dict fields)

/-- `str(value or "")`. -/
def orEmpty (containerRepr : PyValue → String) (value : PyValue) : String :=
  if value.truthy then value.toStr containerRepr else ""

mutual

/-- The JSON value `json.dumps(value, default=str)` writes, its keys in the order of the dictionary. -/
def toJson : PyValue → JsonValue
  | none => .null
  | bool value => .bool value
  | int value => .int value
  | float value => .float value
  | str value => .str value
  | list items => .arr (toJsonItems items)
  | dict fields => .obj ((toJsonFields fields).foldl setField [])
  | object text _ => .str text

def toJsonItems : List PyValue → List JsonValue
  | [] => []
  | item :: items => item.toJson :: toJsonItems items

def toJsonFields : List (String × PyValue) → List (String × JsonValue)
  | [] => []
  | (key, value) :: fields => (key, value.toJson) :: toJsonFields fields

end

mutual

/-- What `json.loads` makes of a JSON value. -/
def ofJson : JsonValue → PyValue
  | .null => none
  | .bool value => bool value
  | .int value => int value
  | .float value => float value
  | .str value => str value
  | .arr items => list (ofJsonItems items)
  | .obj fields => dict (ofJsonFields fields)

def ofJsonItems : List JsonValue → List PyValue
  | [] => []
  | item :: items => ofJson item :: ofJsonItems items

def ofJsonFields : List (String × JsonValue) → List (String × PyValue)
  | [] => []
  | (key, value) :: fields => (key, ofJson value) :: ofJsonFields fields

end

end PyValue

/-! ### Sorted keys -/

namespace JsonValue

def KeyOrder (first second : String × JsonValue) : Prop := first.1 ≤ second.1

instance : DecidableRel KeyOrder := fun first second => inferInstanceAs (Decidable (first.1 ≤ second.1))

instance : Std.Total KeyOrder := ⟨fun first second => le_total first.1 second.1⟩

instance : IsTrans (String × JsonValue) KeyOrder := ⟨fun _ _ _ => le_trans⟩

mutual

/-- `sort_keys=True`, in every object. -/
def sortKeys : JsonValue → JsonValue
  | arr items => arr (sortKeysItems items)
  | obj fields => obj ((sortKeysFields fields).insertionSort KeyOrder)
  | scalar => scalar

def sortKeysItems : List JsonValue → List JsonValue
  | [] => []
  | item :: items => item.sortKeys :: sortKeysItems items

def sortKeysFields : List (String × JsonValue) → List (String × JsonValue)
  | [] => []
  | (key, value) :: fields => (key, value.sortKeys) :: sortKeysFields fields

end

theorem sortKeysItems_eq (items : List JsonValue) : sortKeysItems items = items.map sortKeys := by
  induction items with
  | nil => rfl
  | cons item items ih => rw [sortKeysItems, ih, List.map_cons]

theorem sortKeysFields_eq (fields : List (String × JsonValue)) :
    sortKeysFields fields = fields.map fun field => (field.1, field.2.sortKeys) := by
  induction fields with
  | nil => rfl
  | cons field fields ih => rw [sortKeysFields, ih, List.map_cons]

theorem distinctItems_iff (items : List JsonValue) : distinctItems items = true ↔ ∀ item ∈ items, item.distinct = true := by
  induction items with
  | nil => simp [distinctItems]
  | cons item items ih => simp [distinctItems, ih]

theorem distinctFields_iff (fields : List (String × JsonValue)) :
    distinctFields fields = true ↔ ∀ field ∈ fields, field.2.distinct = true := by
  induction fields with
  | nil => simp [distinctFields]
  | cons field fields ih => simp [distinctFields, ih]

mutual

/-- Sorting the keys of sorted fields changes nothing. -/
theorem sortKeys_sortKeys : ∀ value : JsonValue, value.sortKeys.sortKeys = value.sortKeys
  | null | bool _ | int _ | float _ | str _ => rfl
  | arr items => by
    simp only [sortKeys, sortKeysItems_eq, List.map_map, arr.injEq]
    exact List.map_congr_left (sortKeysItems_sortKeys items)
  | obj fields => by
    simp only [sortKeys, sortKeysFields_eq, obj.injEq]
    have settled : ∀ field ∈ (fields.map fun field => (field.1, field.2.sortKeys)).insertionSort KeyOrder,
        (field.1, field.2.sortKeys) = field := by
      intro field member
      obtain ⟨source, inside, rfl⟩ := List.mem_map.mp ((List.mem_insertionSort KeyOrder).mp member)
      rw [sortKeysFields_sortKeys fields source inside]
    rw [List.map_congr_left settled, List.map_id']
    exact (List.pairwise_insertionSort KeyOrder _).insertionSort_eq

theorem sortKeysItems_sortKeys : ∀ items : List JsonValue, ∀ item ∈ items, item.sortKeys.sortKeys = item.sortKeys
  | [] => by simp
  | item :: items =>
    List.forall_mem_cons.mpr ⟨sortKeys_sortKeys item, sortKeysItems_sortKeys items⟩

theorem sortKeysFields_sortKeys :
    ∀ fields : List (String × JsonValue), ∀ field ∈ fields, field.2.sortKeys.sortKeys = field.2.sortKeys
  | [] => by simp
  | (_, value) :: fields =>
    List.forall_mem_cons.mpr ⟨sortKeys_sortKeys value, sortKeysFields_sortKeys fields⟩

end

mutual

theorem sortKeys_distinct : ∀ value : JsonValue, value.distinct = true → value.sortKeys.distinct = true
  | null | bool _ | int _ | float _ | str _ => fun _ => rfl
  | arr items => fun distinct => by
    simp only [sortKeys, JsonValue.distinct, sortKeysItems_eq, distinctItems_iff, List.forall_mem_map]
    exact sortKeysItems_distinct items distinct
  | obj fields => fun distinct => by
    simp only [JsonValue.distinct, Bool.and_eq_true, decide_eq_true_eq] at distinct
    have keys : ((sortKeysFields fields).insertionSort KeyOrder).map (·.1) |>.Perm (fields.map (·.1)) := by
      refine ((List.perm_insertionSort KeyOrder _).map _).trans ?_
      rw [sortKeysFields_eq, List.map_map]
      rfl
    simp only [sortKeys, JsonValue.distinct, Bool.and_eq_true, decide_eq_true_eq, keys.nodup_iff, distinctFields_iff,
      List.mem_insertionSort]
    rw [sortKeysFields_eq, List.forall_mem_map]
    exact ⟨distinct.1, sortKeysFields_distinct fields distinct.2⟩

theorem sortKeysItems_distinct : ∀ items : List JsonValue, distinctItems items = true →
    ∀ item ∈ items, item.sortKeys.distinct = true
  | [] => by simp
  | item :: items => fun distinct => by
    simp only [distinctItems, Bool.and_eq_true] at distinct
    exact List.forall_mem_cons.mpr ⟨sortKeys_distinct item distinct.1, sortKeysItems_distinct items distinct.2⟩

theorem sortKeysFields_distinct : ∀ fields : List (String × JsonValue), distinctFields fields = true →
    ∀ field ∈ fields, field.2.sortKeys.distinct = true
  | [] => by simp
  | (_, value) :: fields => fun distinct => by
    simp only [distinctFields, Bool.and_eq_true] at distinct
    exact List.forall_mem_cons.mpr ⟨sortKeys_distinct value distinct.1, sortKeysFields_distinct fields distinct.2⟩

end

end JsonValue

/-! ### A dictionary holds a key once -/

theorem map_key_setField (fields : List (String × JsonValue)) (field : String × JsonValue) :
    (setField fields field).map (·.1) = if field.1 ∈ fields.map (·.1) then fields.map (·.1) else fields.map (·.1) ++ [field.1] := by
  have known : (fields.any fun other => other.1 = field.1) = decide (field.1 ∈ fields.map (·.1)) := by
    simp [List.any_eq, eq_comm]
  unfold setField
  rw [known]
  by_cases present : field.1 ∈ fields.map (·.1)
  · rw [if_pos (decide_eq_true present), if_pos present, List.map_map]
    apply List.map_congr_left
    intro other _
    rw [Function.comp_apply]
    split
    · next same => exact same.symm
    · rfl
  · rw [if_neg (by simpa using present), if_neg present, List.map_append]
    rfl

theorem mem_setField {fields : List (String × JsonValue)} {field other : String × JsonValue}
    (member : other ∈ setField fields field) : other ∈ fields ∨ other = field := by
  unfold setField at member
  split at member
  · obtain ⟨source, inside, same⟩ := List.mem_map.mp member
    split at same
    · exact .inr same.symm
    · exact .inl (same ▸ inside)
  · simpa using member

theorem assigned_distinct {fields done : List (String × JsonValue)} (keys : (done.map (·.1)).Nodup)
    (values : ∀ field ∈ done ++ fields, field.2.distinct = true) :
    (JsonValue.obj (fields.foldl setField done)).distinct = true := by
  induction fields generalizing done with
  | nil =>
    simp only [List.foldl_nil, JsonValue.distinct, Bool.and_eq_true, JsonValue.distinctFields_iff]
    exact ⟨decide_eq_true keys, by simpa using values⟩
  | cons field fields ih =>
    rw [List.foldl_cons]
    apply ih
    · rw [map_key_setField]
      split
      · exact keys
      · next absent => simpa [List.nodup_append] using ⟨keys, fun key value inside same => absent (by
          simpa using ⟨value, same ▸ inside⟩)⟩
    · intro other member
      apply values
      rcases List.mem_append.mp member with inside | later
      · rcases mem_setField inside with old | rfl
        · exact List.mem_append_left _ old
        · simp
      · simp [later]

namespace PyValue

mutual

theorem toJson_distinct : ∀ value : PyValue, value.toJson.distinct = true
  | none | bool _ | int _ | float _ | str _ | object _ _ => rfl
  | list items => (JsonValue.distinctItems_iff _).mpr (toJsonItems_distinct items)
  | dict fields => assigned_distinct List.nodup_nil (toJsonFields_distinct fields)

theorem toJsonItems_distinct : ∀ items : List PyValue, ∀ item ∈ toJsonItems items, item.distinct = true
  | [] => by simp [toJsonItems]
  | item :: items => List.forall_mem_cons.mpr ⟨toJson_distinct item, toJsonItems_distinct items⟩

theorem toJsonFields_distinct : ∀ fields : List (String × PyValue), ∀ field ∈ toJsonFields fields, field.2.distinct = true
  | [] => by simp [toJsonFields]
  | (_, value) :: fields => List.forall_mem_cons.mpr ⟨toJson_distinct value, toJsonFields_distinct fields⟩

end

end PyValue

end HarnessMem.Library
