import HarnessMem.Library.Text

/-! Values the record schemas share: instants, structured payloads, digests and
the errors a store call raises.
-/

set_option autoImplicit false

namespace HarnessMem

abbrev Time := Nat

/-- `timedelta(seconds=...)` in the unit of `Time`. -/
def seconds (count : Nat) : Time := count * 1000000

/-- The exceptions of the storage layer with their messages. `integrityError` is a
constraint of the schema that the database enforces. -/
inductive StoreError where
  | keyError (key : String)
  | valueError (message : String)
  | permissionError (message : String)
  | timeoutError (message : String)
  | integrityError (constraint : String)
  deriving DecidableEq, Repr

/-- Free-form payloads. A timestamp written as ISO text is kept as its instant. -/
inductive Json where
  | null
  | bool (value : Bool)
  | num (value : Int)
  | str (value : String)
  | instant (time : Time)
  | arr (items : List Json)
  | obj (fields : List (String × Json))

def Json.truthy : Option Json → Bool
  | none | some .null => false
  | some (.bool value) => value
  | some (.num value) => value ≠ 0
  | some (.str value) => value ≠ ""
  | some (.instant _) => true
  | some (.arr items) => !items.isEmpty
  | some (.obj fields) => !fields.isEmpty

abbrev Dict := List (String × Json)

def Dict.get? (dict : Dict) (key : String) : Option Json :=
  (dict.find? fun field => field.1 = key).map (·.2)

/-- `dict[key] = value`: a known key keeps its position. -/
def Dict.set (dict : Dict) (key : String) (value : Json) : Dict :=
  if dict.any fun field => field.1 = key then
    dict.map fun field => if field.1 = key then (key, value) else field
  else dict ++ [(key, value)]

/-- `{**first, **second}`. -/
def Dict.merge (first second : Dict) : Dict :=
  second.foldl (fun dict field => dict.set field.1 field.2) first

def Dict.pop (dict : Dict) (key : String) : Dict := dict.filter fun field => field.1 ≠ key

def Dict.text? (dict : Dict) (key : String) : Option String :=
  match dict.get? key with
  | some (.str value) => some value
  | _ => none

/-- The text under a key, `""` where there is none or it is no text. -/
def Dict.text (dict : Dict) (key : String) : String := (dict.text? key).getD ""

/-- The length of the list under a key, `0` where there is none. -/
def Dict.count (dict : Dict) (key : String) : Nat :=
  match dict.get? key with
  | some (.arr items) => items.length
  | _ => 0

/-- The digest functions of the ledger, taken as collision free: `digest` is the hexadecimal
SHA-256 of bytes, `uuid5` the name-based identifier under the URL namespace. -/
structure Hashes where
  digest : List UInt8 → String
  digest_injective : Function.Injective digest
  uuid5 : String → String
  uuid5_injective : Function.Injective uuid5

namespace Hashes

variable (hashes : Hashes)

def sha256Bytes (value : List UInt8) : String := hashes.digest value

def sha256Text (value : String) : String := hashes.digest (Library.encodeUtf8 value)

theorem sha256Text_injective : Function.Injective hashes.sha256Text :=
  hashes.digest_injective.comp Library.encodeUtf8_injective

def transcriptBytesRevision (value : List UInt8) : String := "sha256:" ++ hashes.sha256Bytes value

def spelled : Hashes where
  digest bytes := String.ofList (bytes.map Char.ofUInt8)
  digest_injective := by
    intro left right same
    refine List.map_injective_iff.mpr ?_ (String.ofList_injective same)
    intro first second equal
    have codes : first.toUInt32 = second.toUInt32 := congrArg Char.val equal
    exact UInt8.toUInt32_inj.mp codes
  uuid5 name := name
  uuid5_injective := Function.injective_id

end Hashes

end HarnessMem
