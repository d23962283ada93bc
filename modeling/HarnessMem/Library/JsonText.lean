import HarnessMem.Library.Text
import Mathlib.Data.List.Basic

/-! JSON values and their text: the writer, with and without the restriction to
ASCII, and the reader. What is written is read back.
-/

set_option autoImplicit false

namespace HarnessMem.Library

/-- The characters of a number or of a name such as `true`. -/
def isTokenChar (c : Char) : Bool :=
  c.isAlphanum || c = '+' || c = '-' || c = '.'

def isDigits (text : List Char) : Bool :=
  !text.isEmpty && text.all (·.isDigit)

def unsigned (signs token : List Char) : List Char :=
  match token with
  | c :: rest => if c ∈ signs then rest else token
  | [] => []

/-- `-?(0|[1-9][0-9]*)`. -/
def isInteger (token : List Char) : Bool :=
  let digits := unsigned ['-'] token
  isDigits digits && (digits.head? ≠ some '0' || digits.length = 1)

def isFloat (token : List Char) : Bool :=
  let (mantissa, exponent) := token.span fun c => c ≠ 'e' && c ≠ 'E'
  let (whole, fraction) := mantissa.span (· ≠ '.')
  !isInteger token && token.all isTokenChar && token ∉ ["null".toList, "true".toList, "false".toList] &&
    (isInteger whole && (fraction.isEmpty || isDigits fraction.tail) &&
        (exponent.isEmpty || isDigits (unsigned ['+', '-'] exponent.tail)) ||
      token ∈ ["NaN".toList, "Infinity".toList, "-Infinity".toList])

structure FloatText where
  text : List Char
  float : isFloat text = true
  deriving DecidableEq

inductive JsonValue where
  | null
  | bool (value : Bool)
  | int (value : Int)
  | float (value : FloatText)
  | str (value : String)
  | arr (items : List JsonValue)
  | obj (fields : List (String × JsonValue))

/-! ### Writing -/

def hex4 (n : Nat) : List Char :=
  [(n / 4096).digitChar, (n / 256 % 16).digitChar, (n / 16 % 16).digitChar, (n % 16).digitChar]

def unicodeEscape (n : Nat) : List Char :=
  if n < 0x10000 then '\\' :: 'u' :: hex4 n
  else '\\' :: 'u' :: hex4 (0xd800 + (n - 0x10000) / 0x400) ++ '\\' :: 'u' :: hex4 (0xdc00 + (n - 0x10000) % 0x400)

def escapeChar (ascii : Bool) (c : Char) : List Char :=
  if c = '"' then ['\\', '"']
  else if c = '\\' then ['\\', '\\']
  else if c = '\n' then ['\\', 'n']
  else if c = '\r' then ['\\', 'r']
  else if c = '\t' then ['\\', 't']
  else if c.toNat = 12 then ['\\', 'f']
  else if c.toNat = 8 then ['\\', 'b']
  else if c.toNat < 32 ∨ (ascii ∧ 126 < c.toNat) then unicodeEscape c.toNat
  else [c]

def dumpsString (ascii : Bool) (text : String) : List Char :=
  '"' :: text.toList.flatMap (escapeChar ascii) ++ ['"']

def dumpsInt : Int → List Char
  | .ofNat n => Nat.toDigits 10 n
  | .negSucc n => '-' :: Nat.toDigits 10 (n + 1)

namespace JsonValue

mutual

/-- `json.dumps(value, separators=(",", ":"), ensure_ascii=ascii)`. -/
def dumps (ascii : Bool) : JsonValue → List Char
  | null => "null".toList
  | bool true => "true".toList
  | bool false => "false".toList
  | int value => dumpsInt value
  | float value => value.text
  | str value => dumpsString ascii value
  | arr [] => ['[', ']']
  | arr (item :: items) => '[' :: (item.dumps ascii ++ dumpsItems ascii items)
  | obj [] => ['{', '}']
  | obj ((key, value) :: fields) => '{' :: (dumpsString ascii key ++ ':' :: (value.dumps ascii ++ dumpsFields ascii fields))

def dumpsItems (ascii : Bool) : List JsonValue → List Char
  | [] => [']']
  | item :: items => ',' :: (item.dumps ascii ++ dumpsItems ascii items)

def dumpsFields (ascii : Bool) : List (String × JsonValue) → List Char
  | [] => ['}']
  | (key, value) :: fields => ',' :: (dumpsString ascii key ++ ':' :: (value.dumps ascii ++ dumpsFields ascii fields))

end

end JsonValue

namespace JsonValue

mutual

/-- `json.dumps(value, ensure_ascii=ascii)`, with a space behind every separator. -/
def dumpsSpaced (ascii : Bool) : JsonValue → List Char
  | arr [] => ['[', ']']
  | arr (item :: items) => '[' :: (item.dumpsSpaced ascii ++ spacedItems ascii items)
  | obj [] => ['{', '}']
  | obj ((key, value) :: fields) =>
    '{' :: (dumpsString ascii key ++ ':' :: ' ' :: (value.dumpsSpaced ascii ++ spacedFields ascii fields))
  | value => value.dumps ascii

def spacedItems (ascii : Bool) : List JsonValue → List Char
  | [] => [']']
  | item :: items => ',' :: ' ' :: (item.dumpsSpaced ascii ++ spacedItems ascii items)

def spacedFields (ascii : Bool) : List (String × JsonValue) → List Char
  | [] => ['}']
  | (key, value) :: fields =>
    ',' :: ' ' :: (dumpsString ascii key ++ ':' :: ' ' :: (value.dumpsSpaced ascii ++ spacedFields ascii fields))

end

end JsonValue

/-! ### Reading -/

def skipSpace (text : List Char) : List Char :=
  text.dropWhile fun c => c = ' ' || c = '\t' || c = '\n' || c = '\r'

def hexValue? (c : Char) : Option Nat :=
  if c.isDigit then some (c.toNat - 48)
  else if 97 ≤ c.toNat ∧ c.toNat ≤ 102 then some (c.toNat - 87)
  else if 65 ≤ c.toNat ∧ c.toNat ≤ 70 then some (c.toNat - 55)
  else none

def readHex4 : List Char → Option (Nat × List Char)
  | a :: b :: c :: d :: rest => do
    let a ← hexValue? a
    let b ← hexValue? b
    let c ← hexValue? c
    let d ← hexValue? d
    some (a * 4096 + b * 256 + c * 16 + d, rest)
  | _ => none

/-- The code point behind `\u`. A surrogate without its partner is no code point. -/
def readUnicode (text : List Char) : Option (Char × List Char) := do
  let (n, rest) ← readHex4 text
  if 0xd800 ≤ n ∧ n ≤ 0xdbff then
    match rest with
    | '\\' :: 'u' :: more =>
      let (m, more) ← readHex4 more
      if 0xdc00 ≤ m ∧ m ≤ 0xdfff then some (Char.ofNat (0x10000 + (n - 0xd800) * 0x400 + (m - 0xdc00)), more)
      else none
    | _ => none
  else if 0xdc00 ≤ n ∧ n ≤ 0xdfff then none
  else some (Char.ofNat n, rest)

def simpleEscape? (c : Char) : Option Char :=
  if c = '"' ∨ c = '\\' ∨ c = '/' then some c
  else if c = 'n' then some '\n'
  else if c = 'r' then some '\r'
  else if c = 't' then some '\t'
  else if c = 'f' then some (Char.ofNat 12)
  else if c = 'b' then some (Char.ofNat 8)
  else none

def readChar : List Char → Option (Char × List Char)
  | '\\' :: 'u' :: rest => readUnicode rest
  | '\\' :: c :: rest => (simpleEscape? c).map (·, rest)
  | c :: rest => if c.toNat < 32 then none else some (c, rest)
  | [] => none

def readString : Nat → List Char → Option (List Char × List Char)
  | 0, _ => none
  | _ + 1, '"' :: rest => some ([], rest)
  | fuel + 1, text => do
    let (c, rest) ← readChar text
    let (cs, rest) ← readString fuel rest
    some (c :: cs, rest)

def readInt (token : List Char) : Int :=
  match token with
  | '-' :: digits => -(Nat.ofDigitChars 10 digits 0 : Int)
  | digits => (Nat.ofDigitChars 10 digits 0 : Int)

def scalar? (token : List Char) : Option JsonValue :=
  if token = "null".toList then some .null
  else if token = "true".toList then some (.bool true)
  else if token = "false".toList then some (.bool false)
  else if isInteger token then some (.int (readInt token))
  else if float : isFloat token = true then some (.float ⟨token, float⟩)
  else none

/-- `dict[key] = value` on fields: a known key keeps its place. -/
def setField (fields : List (String × JsonValue)) (field : String × JsonValue) : List (String × JsonValue) :=
  if fields.any fun other => other.1 = field.1 then
    fields.map fun other => if other.1 = field.1 then field else other
  else fields ++ [field]

mutual

def readValue : Nat → List Char → Option (JsonValue × List Char)
  | 0, _ => none
  | _ + 1, '"' :: rest => (readString rest.length rest).map fun (value, rest) => (.str (String.ofList value), rest)
  | fuel + 1, '[' :: rest =>
    match skipSpace rest with
    | ']' :: rest => some (.arr [], rest)
    | items => (readItems fuel items).map fun (items, rest) => (.arr items, rest)
  | fuel + 1, '{' :: rest =>
    match skipSpace rest with
    | '}' :: rest => some (.obj [], rest)
    | fields => (readFields fuel fields).map fun (fields, rest) => (.obj (fields.foldl setField []), rest)
  | _ + 1, text => (scalar? (text.takeWhile isTokenChar)).map fun value => (value, text.dropWhile isTokenChar)

def readItems : Nat → List Char → Option (List JsonValue × List Char)
  | 0, _ => none
  | fuel + 1, text => do
    let (item, rest) ← readValue fuel text
    match skipSpace rest with
    | ',' :: rest =>
      let (items, rest) ← readItems fuel (skipSpace rest)
      some (item :: items, rest)
    | ']' :: rest => some ([item], rest)
    | _ => none

def readFields : Nat → List Char → Option (List (String × JsonValue) × List Char)
  | 0, _ => none
  | fuel + 1, '"' :: rest => do
    let (key, rest) ← readString rest.length rest
    match skipSpace rest with
    | ':' :: rest =>
      let (value, rest) ← readValue fuel (skipSpace rest)
      match skipSpace rest with
      | ',' :: rest =>
        let (fields, rest) ← readFields fuel (skipSpace rest)
        some ((String.ofList key, value) :: fields, rest)
      | '}' :: rest => some ([(String.ofList key, value)], rest)
      | _ => none
    | _ => none
  | _ + 1, _ => none

end

def loads (text : List Char) : Option JsonValue :=
  match readValue (text.length + 1) (skipSpace text) with
  | some (value, rest) => if skipSpace rest = [] then some value else none
  | none => none

/-! ### Strings are read back -/

theorem hexValue_digitChar : ∀ d, d < 16 → hexValue? d.digitChar = some d := by
  decide

theorem readHex4_hex4 {n : Nat} (small : n < 0x10000) (rest : List Char) :
    readHex4 (hex4 n ++ rest) = some (n, rest) := by
  have first := hexValue_digitChar (n / 4096) (by omega)
  have second := hexValue_digitChar (n / 256 % 16) (by omega)
  have third := hexValue_digitChar (n / 16 % 16) (by omega)
  have fourth := hexValue_digitChar (n % 16) (by omega)
  have whole : n / 4096 * 4096 + n / 256 % 16 * 256 + n / 16 % 16 * 16 + n % 16 = n := by omega
  simp [hex4, readHex4, first, second, third, fourth, whole]

theorem toNat_valid (c : Char) : c.toNat < 0xd800 ∨ (0xdfff < c.toNat ∧ c.toNat < 0x110000) :=
  c.valid

theorem readUnicode_basic {n : Nat} (small : n < 0x10000) (plain : n < 0xd800 ∨ 0xdfff < n) (rest : List Char) :
    readUnicode (hex4 n ++ rest) = some (Char.ofNat n, rest) := by
  have high : ¬ (0xd800 ≤ n ∧ n ≤ 0xdbff) := by omega
  have low : ¬ (0xdc00 ≤ n ∧ n ≤ 0xdfff) := by omega
  unfold readUnicode
  rw [readHex4_hex4 small]
  simp only [Option.bind_eq_bind, Option.bind_some, if_neg high, if_neg low]

theorem readUnicode_pair {high low : Nat} (first : 0xd800 ≤ high ∧ high ≤ 0xdbff) (second : 0xdc00 ≤ low ∧ low ≤ 0xdfff)
    (rest : List Char) :
    readUnicode (hex4 high ++ '\\' :: 'u' :: (hex4 low ++ rest)) =
      some (Char.ofNat (0x10000 + (high - 0xd800) * 0x400 + (low - 0xdc00)), rest) := by
  have small : high < 0x10000 := by omega
  have tiny : low < 0x10000 := by omega
  unfold readUnicode
  rw [readHex4_hex4 small]
  simp only [Option.bind_eq_bind, Option.bind_some, if_pos first]
  rw [readHex4_hex4 tiny]
  simp only [Option.bind_some, if_pos second]

theorem readUnicode_unicodeEscape (c : Char) (rest : List Char) :
    ∃ text, unicodeEscape c.toNat ++ rest = '\\' :: 'u' :: text ∧ readUnicode text = some (c, rest) := by
  have valid := toNat_valid c
  unfold unicodeEscape
  split
  · next basic =>
    refine ⟨hex4 c.toNat ++ rest, rfl, ?_⟩
    rw [readUnicode_basic basic (by omega), Char.ofNat_toNat]
  · next beyond =>
    generalize above : c.toNat - 0x10000 = n
    have bound : n < 0x100000 := by omega
    have whole : 0x10000 + (0xd800 + n / 0x400 - 0xd800) * 0x400 + (0xdc00 + n % 0x400 - 0xdc00) = c.toNat := by omega
    refine ⟨hex4 (0xd800 + n / 0x400) ++ '\\' :: 'u' :: (hex4 (0xdc00 + n % 0x400) ++ rest), by simp, ?_⟩
    rw [readUnicode_pair (by omega) (by omega), whole, Char.ofNat_toNat]

theorem readChar_escapeChar (ascii : Bool) (c : Char) (rest : List Char) :
    ∃ d text, escapeChar ascii c ++ rest = d :: text ∧ d ≠ '"' ∧ readChar (d :: text) = some (c, rest) := by
  unfold escapeChar
  split
  · next quote => exact ⟨_, _, rfl, by decide, by simp [readChar, simpleEscape?, quote]⟩
  next quote =>
  split
  · next backslash => exact ⟨_, _, rfl, by decide, by simp [readChar, simpleEscape?, backslash]⟩
  split
  · next newline => exact ⟨_, _, rfl, by decide, by simp [readChar, simpleEscape?, newline]⟩
  split
  · next carriage => exact ⟨_, _, rfl, by decide, by simp [readChar, simpleEscape?, carriage]⟩
  split
  · next tab => exact ⟨_, _, rfl, by decide, by simp [readChar, simpleEscape?, tab]⟩
  split
  · next feed =>
    have same : Char.ofNat 12 = c := by rw [← feed, Char.ofNat_toNat]
    refine ⟨_, _, rfl, by decide, ?_⟩
    simp [readChar, simpleEscape?]
    exact same
  split
  · next back =>
    have same : Char.ofNat 8 = c := by rw [← back, Char.ofNat_toNat]
    refine ⟨_, _, rfl, by decide, ?_⟩
    simp [readChar, simpleEscape?]
    exact same
  split
  · obtain ⟨text, shape, read⟩ := readUnicode_unicodeEscape c rest
    exact ⟨_, _, shape, by decide, read⟩
  · refine ⟨c, rest, rfl, quote, ?_⟩
    have visible : ¬ c.toNat < 32 := by omega
    rw [readChar.eq_def]
    split <;> simp_all

theorem readString_escaped (ascii : Bool) (text rest : List Char) {fuel : Nat} (enough : text.length < fuel) :
    readString fuel (text.flatMap (escapeChar ascii) ++ '"' :: rest) = some (text, rest) := by
  induction text generalizing fuel with
  | nil =>
    cases fuel with
    | zero => exact absurd enough (Nat.not_lt_zero _)
    | succ fuel => simp [readString]
  | cons c cs ih =>
    cases fuel with
    | zero => exact absurd enough (Nat.not_lt_zero _)
    | succ fuel =>
      obtain ⟨d, more, shape, inside, read⟩ :=
        readChar_escapeChar ascii c (cs.flatMap (escapeChar ascii) ++ '"' :: rest)
      rw [List.flatMap_cons, List.append_assoc, shape, readString]
      · simp only [read, ih (Nat.lt_of_succ_lt_succ enough), Option.bind_eq_bind, Option.bind_some]
      · intro other same
        exact absurd (List.cons.inj same).1 inside

theorem escapeChar_length (ascii : Bool) (c : Char) : 1 ≤ (escapeChar ascii c).length := by
  obtain ⟨d, text, shape, -⟩ := readChar_escapeChar ascii c []
  rw [List.append_nil] at shape
  rw [shape, List.length_cons]
  exact Nat.le_add_left _ _

theorem readString_dumped (ascii : Bool) (text : String) (rest : List Char) :
    ∃ body, dumpsString ascii text ++ rest = '"' :: body ∧
      readString body.length body = some (text.toList, rest) := by
  refine ⟨text.toList.flatMap (escapeChar ascii) ++ '"' :: rest, by simp [dumpsString], ?_⟩
  apply readString_escaped
  have longer : ∀ cs : List Char, cs.length ≤ (cs.flatMap (escapeChar ascii)).length := by
    intro cs
    induction cs with
    | nil => simp
    | cons c cs ih =>
      have one := escapeChar_length ascii c
      simp only [List.flatMap_cons, List.length_append, List.length_cons]
      omega
  have bound := longer text.toList
  simp only [List.length_append, List.length_cons]
  omega

/-! ### Numbers are read back -/

def Stops (rest : List Char) : Prop :=
  ∀ c ∈ rest.head?, isTokenChar c = false

theorem takeWhile_token {token rest : List Char} (inside : token.all isTokenChar) (stops : Stops rest) :
    (token ++ rest).takeWhile isTokenChar = token ∧ (token ++ rest).dropWhile isTokenChar = rest := by
  have all : ∀ c ∈ token, isTokenChar c = true := List.all_eq_true.mp inside
  have none : rest.takeWhile isTokenChar = [] ∧ rest.dropWhile isTokenChar = rest := by
    cases rest with
    | nil => exact ⟨rfl, rfl⟩
    | cons c rest => simp [stops c rfl]
  rw [List.takeWhile_append_of_pos all, List.dropWhile_append_of_pos all, none.1, none.2, List.append_nil]
  exact ⟨rfl, rfl⟩

theorem toDigits_head {n : Nat} (positive : 0 < n) : (Nat.toDigits 10 n).head? ≠ some '0' := by
  induction n using Nat.strongRecOn with
  | _ n ih =>
    rcases Nat.lt_or_ge n 10 with small | large
    · rw [Nat.toDigits_of_lt_base small]
      have digit : ∀ d : Nat, d < 10 → 0 < d → Nat.digitChar d ≠ '0' := by decide
      simpa using digit n small positive
    · have tenth := ih (n / 10) (by omega) (by omega)
      rw [Nat.toDigits_of_base_le (by decide) large, List.head?_append_of_ne_nil _ Nat.toDigits_ne_nil]
      exact tenth

theorem isDigits_toDigits (n : Nat) : isDigits (Nat.toDigits 10 n) = true := by
  have all : (Nat.toDigits 10 n).all (·.isDigit) = true :=
    List.all_eq_true.mpr fun c member => Nat.isDigit_of_mem_toDigits (by decide) (by decide) member
  simp [isDigits, all]

theorem unsigned_toDigits (n : Nat) : unsigned ['-'] (Nat.toDigits 10 n) = Nat.toDigits 10 n := by
  have digits : ∀ c ∈ Nat.toDigits 10 n, c.isDigit := fun c member =>
    Nat.isDigit_of_mem_toDigits (by decide) (by decide) member
  cases shape : Nat.toDigits 10 n with
  | nil => rfl
  | cons c rest =>
    have first : c.isDigit := digits c (by rw [shape]; exact List.mem_cons_self)
    have minus : c ≠ '-' := by
      rintro rfl
      revert first
      decide
    simp [unsigned, minus]

theorem isInteger_dumpsInt (value : Int) : isInteger (dumpsInt value) = true := by
  have numeral : ∀ n, (isDigits (Nat.toDigits 10 n) &&
      (decide ((Nat.toDigits 10 n).head? ≠ some '0') || decide ((Nat.toDigits 10 n).length = 1))) = true := by
    intro n
    rcases Nat.eq_zero_or_pos n with rfl | positive
    · decide
    · simp [isDigits_toDigits, toDigits_head positive]
  cases value with
  | ofNat n =>
    simp only [dumpsInt, isInteger, unsigned_toDigits]
    exact numeral n
  | negSucc n =>
    have tail : unsigned ['-'] ('-' :: Nat.toDigits 10 (n + 1)) = Nat.toDigits 10 (n + 1) := by simp [unsigned]
    simp only [dumpsInt, isInteger, tail]
    exact numeral (n + 1)

theorem readInt_dumpsInt (value : Int) : readInt (dumpsInt value) = value := by
  cases value with
  | ofNat n =>
    have digits : ∀ c ∈ Nat.toDigits 10 n, c.isDigit := fun c member =>
      Nat.isDigit_of_mem_toDigits (by decide) (by decide) member
    have back : Nat.ofDigitChars 10 (Nat.toDigits 10 n) 0 = n := Nat.ofDigitChars_ten_toDigits
    unfold readInt dumpsInt
    split
    · next other shape =>
      have numeral : Nat.toDigits 10 n = '-' :: other := shape
      have minus : Char.isDigit '-' = true := digits '-' (by rw [numeral]; exact List.mem_cons_self)
      exact absurd minus (by decide)
    · rw [back]
      rfl
  | negSucc n =>
    have back : Nat.ofDigitChars 10 (Nat.toDigits 10 (n + 1)) 0 = n + 1 := Nat.ofDigitChars_ten_toDigits
    simp only [readInt, dumpsInt, back]
    rfl

theorem dumpsInt_token (value : Int) : (dumpsInt value).all isTokenChar = true := by
  have digits : ∀ n, (Nat.toDigits 10 n).all isTokenChar = true := by
    intro n
    apply List.all_eq_true.mpr
    intro c member
    have digit : c.isDigit = true := Nat.isDigit_of_mem_toDigits (by decide) (by decide) member
    simp [isTokenChar, Char.isAlphanum, digit]
  cases value with
  | ofNat n => exact digits n
  | negSucc n =>
    simp only [dumpsInt, List.all_cons, digits]
    decide

theorem dumpsInt_ne_nil (value : Int) : dumpsInt value ≠ [] := by
  cases value <;> simp [dumpsInt]

theorem scalar_dumpsInt (value : Int) : scalar? (dumpsInt value) = some (.int value) := by
  have integer := isInteger_dumpsInt value
  have named : dumpsInt value ≠ "null".toList ∧ dumpsInt value ≠ "true".toList ∧ dumpsInt value ≠ "false".toList := by
    refine ⟨?_, ?_, ?_⟩ <;>
      · intro same
        rw [same] at integer
        revert integer
        decide
  unfold scalar?
  rw [if_neg named.1, if_neg named.2.1, if_neg named.2.2, if_pos integer, readInt_dumpsInt]

theorem FloatText.facts (value : FloatText) :
    isInteger value.text = false ∧ value.text.all isTokenChar = true ∧ value.text ≠ "null".toList ∧
      value.text ≠ "true".toList ∧ value.text ≠ "false".toList := by
  have float := value.float
  unfold isFloat at float
  simp only [Bool.and_eq_true, Bool.not_eq_true', decide_eq_true_eq, List.mem_cons, List.not_mem_nil, or_false,
    not_or] at float
  exact ⟨float.1.1.1, float.1.1.2, float.1.2.1, float.1.2.2.1, float.1.2.2.2⟩

theorem FloatText.ne_nil (value : FloatText) : value.text ≠ [] := by
  intro empty
  have float := value.float
  rw [empty] at float
  cases float

theorem scalar_float (value : FloatText) : scalar? value.text = some (.float value) := by
  obtain ⟨integer, _, null, true', false'⟩ := value.facts
  unfold scalar?
  rw [if_neg null, if_neg true', if_neg false', if_neg (by simp [integer]), dif_pos value.float]

/-! ### Values are read back -/

namespace JsonValue

mutual

def size : JsonValue → Nat
  | arr items => 1 + sizeItems items
  | obj fields => 1 + sizeFields fields
  | _ => 1

def sizeItems : List JsonValue → Nat
  | [] => 0
  | item :: items => 1 + item.size + sizeItems items

def sizeFields : List (String × JsonValue) → Nat
  | [] => 0
  | (_, value) :: fields => 1 + value.size + sizeFields fields

end

mutual

/-- No object has a key twice, as in a `dict`. -/
def distinct : JsonValue → Bool
  | arr items => distinctItems items
  | obj fields => decide ((fields.map (·.1)).Nodup) && distinctFields fields
  | _ => true

def distinctItems : List JsonValue → Bool
  | [] => true
  | item :: items => item.distinct && distinctItems items

def distinctFields : List (String × JsonValue) → Bool
  | [] => true
  | (_, value) :: fields => value.distinct && distinctFields fields

end

end JsonValue

theorem skipSpace_cons {c : Char} {rest : List Char} (visible : c ≠ ' ' ∧ c ≠ '\t' ∧ c ≠ '\n' ∧ c ≠ '\r') :
    skipSpace (c :: rest) = c :: rest := by
  simp [skipSpace, visible]

theorem skipSpace_comma (rest : List Char) : skipSpace (',' :: rest) = ',' :: rest := skipSpace_cons (by decide)

theorem skipSpace_colon (rest : List Char) : skipSpace (':' :: rest) = ':' :: rest := skipSpace_cons (by decide)

theorem skipSpace_brace (rest : List Char) : skipSpace ('}' :: rest) = '}' :: rest := skipSpace_cons (by decide)

theorem skipSpace_quote (rest : List Char) : skipSpace ('"' :: rest) = '"' :: rest := skipSpace_cons (by decide)

theorem foldl_setField {fields : List (String × JsonValue)} (done : List (String × JsonValue))
    (distinct : ((done ++ fields).map (·.1)).Nodup) : fields.foldl setField done = done ++ fields := by
  induction fields generalizing done with
  | nil => simp
  | cons field fields ih =>
    have fresh : done.any (fun other => other.1 = field.1) = false := by
      rw [List.any_eq_false]
      intro other member same
      rw [List.map_append, List.map_cons, List.nodup_append] at distinct
      exact distinct.2.2 other.1 (List.mem_map_of_mem member) field.1 List.mem_cons_self (by simpa using same)
    have next := ih (done ++ [field]) (by simpa using distinct)
    rw [List.foldl_cons, setField, fresh, if_neg Bool.false_ne_true, next, List.append_assoc, List.singleton_append]

theorem dumps_head (ascii : Bool) (value : JsonValue) :
    ∃ c rest, value.dumps ascii = c :: rest ∧ (c ≠ ' ' ∧ c ≠ '\t' ∧ c ≠ '\n' ∧ c ≠ '\r') ∧ c ≠ ']' ∧ c ≠ '}' := by
  have ofToken : ∀ token : List Char, token ≠ [] → token.all isTokenChar = true →
      ∃ c rest, token = c :: rest ∧ (c ≠ ' ' ∧ c ≠ '\t' ∧ c ≠ '\n' ∧ c ≠ '\r') ∧ c ≠ ']' ∧ c ≠ '}' := by
    intro token filled inside
    cases token with
    | nil => exact absurd rfl filled
    | cons c rest =>
      have first : isTokenChar c = true := (List.all_eq_true.mp inside) c List.mem_cons_self
      refine ⟨c, rest, rfl, ⟨?_, ?_, ?_, ?_⟩, ?_, ?_⟩ <;>
        · rintro rfl
          revert first
          decide
  cases value with
  | null => exact ⟨_, _, rfl, by decide⟩
  | bool value => cases value <;> exact ⟨_, _, rfl, by decide⟩
  | int value => exact ofToken (dumpsInt value) (dumpsInt_ne_nil value) (dumpsInt_token value)
  | float value => exact ofToken value.text value.ne_nil value.facts.2.1
  | str value => exact ⟨_, _, rfl, by decide⟩
  | arr items => cases items <;> exact ⟨_, _, by rw [JsonValue.dumps], by decide⟩
  | obj fields =>
    cases fields with
    | nil => exact ⟨_, _, by rw [JsonValue.dumps], by decide⟩
    | cons field fields => exact ⟨_, _, by rw [JsonValue.dumps], by decide⟩

theorem readValue_token {token rest : List Char} {value : JsonValue} (fuel : Nat) (filled : token ≠ [])
    (inside : token.all isTokenChar = true) (stops : Stops rest) (known : scalar? token = some value) :
    readValue (fuel + 1) (token ++ rest) = some (value, rest) := by
  obtain ⟨taken, left⟩ := takeWhile_token inside stops
  cases token with
  | nil => exact absurd rfl filled
  | cons c more =>
    have first : isTokenChar c = true := (List.all_eq_true.mp inside) c List.mem_cons_self
    have other : ∀ d, isTokenChar d = false → ∀ tail, (c :: more) ++ rest = d :: tail → False := by
      intro d outside tail same
      rw [(List.cons.inj same).1, outside] at first
      cases first
    rw [readValue]
    · rw [taken, left, known]
      rfl
    · exact other '"' (by decide)
    · exact other '[' (by decide)
    · exact other '{' (by decide)

theorem stops_cons {c : Char} {rest : List Char} (outside : isTokenChar c = false) : Stops (c :: rest) := by
  intro d same
  obtain rfl := Option.some.inj same
  exact outside

mutual

theorem readValue_dumps (ascii : Bool) : ∀ (value : JsonValue) (fuel : Nat) (rest : List Char), value.distinct = true →
    value.size ≤ fuel → Stops rest → readValue fuel (value.dumps ascii ++ rest) = some (value, rest)
  | value, 0, _, _, enough, _ => absurd enough (by cases value <;> simp [JsonValue.size])
  | .null, fuel + 1, rest, _, _, stops =>
    @readValue_token "null".toList rest .null fuel (by decide) (by decide) stops (by rfl)
  | .bool true, fuel + 1, rest, _, _, stops =>
    @readValue_token "true".toList rest (.bool true) fuel (by decide) (by decide) stops (by rfl)
  | .bool false, fuel + 1, rest, _, _, stops =>
    @readValue_token "false".toList rest (.bool false) fuel (by decide) (by decide) stops (by rfl)
  | .int value, fuel + 1, rest, _, _, stops =>
    readValue_token fuel (dumpsInt_ne_nil value) (dumpsInt_token value) stops (scalar_dumpsInt value)
  | .float value, fuel + 1, rest, _, _, stops =>
    readValue_token fuel value.ne_nil value.facts.2.1 stops (scalar_float value)
  | .str value, fuel + 1, rest, _, _, _ => by
    obtain ⟨body, shape, read⟩ := readString_dumped ascii value rest
    rw [JsonValue.dumps, shape, readValue, read]
    simp
  | .arr [], fuel + 1, rest, _, _, _ => by
    simp [JsonValue.dumps, readValue, skipSpace]
  | .arr (item :: items), fuel + 1, rest, distinct, enough, _ => by
    have enough' : JsonValue.sizeItems (item :: items) ≤ fuel := by
      rw [JsonValue.size] at enough
      omega
    have read := readItems_dumps ascii (item :: items) fuel rest (by simp) distinct enough'
    obtain ⟨c, more, shape, visible, notClosed, _⟩ := dumps_head ascii item
    have whole : (JsonValue.arr (item :: items)).dumps ascii ++ rest =
        '[' :: c :: (more ++ JsonValue.dumpsItems ascii items ++ rest) := by
      simp [JsonValue.dumps, shape]
    have inner : (JsonValue.dumpsItems ascii (item :: items)).tail ++ rest =
        c :: (more ++ JsonValue.dumpsItems ascii items ++ rest) := by
      simp [JsonValue.dumpsItems, shape]
    rw [inner] at read
    rw [whole, readValue, skipSpace_cons visible]
    split
    · next other same => exact absurd (List.cons.inj same).1 notClosed
    · rw [read]
      rfl
  | .obj [], fuel + 1, rest, _, _, _ => by
    simp [JsonValue.dumps, readValue, skipSpace]
  | .obj ((key, value) :: fields), fuel + 1, rest, distinct, enough, _ => by
    have enough' : JsonValue.sizeFields ((key, value) :: fields) ≤ fuel := by
      rw [JsonValue.size] at enough
      omega
    rw [JsonValue.distinct, Bool.and_eq_true, decide_eq_true_eq] at distinct
    have read := readFields_dumps ascii ((key, value) :: fields) fuel rest (by simp) distinct.2 enough'
    have whole : (JsonValue.obj ((key, value) :: fields)).dumps ascii ++ rest =
        '{' :: '"' :: ((JsonValue.dumpsFields ascii ((key, value) :: fields)).tail ++ rest).tail := by
      simp [JsonValue.dumps, JsonValue.dumpsFields, dumpsString]
    have inner : (JsonValue.dumpsFields ascii ((key, value) :: fields)).tail ++ rest =
        '"' :: ((JsonValue.dumpsFields ascii ((key, value) :: fields)).tail ++ rest).tail := by
      simp [JsonValue.dumpsFields, dumpsString]
    rw [inner] at read
    rw [whole, readValue, skipSpace_cons (by decide)]
    split
    · next other same => exact absurd (List.cons.inj same).1 (by decide)
    · rw [read]
      have kept := foldl_setField [] (show ((([] : List (String × JsonValue)) ++ (key, value) :: fields).map (·.1)).Nodup
        from distinct.1)
      rw [List.nil_append] at kept
      simp only [Option.map_some, kept]

theorem readItems_dumps (ascii : Bool) : ∀ (items : List JsonValue) (fuel : Nat) (rest : List Char), items ≠ [] →
    JsonValue.distinctItems items = true → JsonValue.sizeItems items ≤ fuel →
    readItems fuel ((JsonValue.dumpsItems ascii items).tail ++ rest) = some (items, rest)
  | [], _, _, filled, _, _ => absurd rfl filled
  | item :: items, 0, rest, _, distinct, enough => absurd enough (by simp [JsonValue.sizeItems])
  | item :: items, fuel + 1, rest, _, distinct, enough => by
    rw [JsonValue.sizeItems] at enough
    rw [JsonValue.distinctItems, Bool.and_eq_true] at distinct
    have whole : (JsonValue.dumpsItems ascii (item :: items)).tail ++ rest =
        item.dumps ascii ++ (JsonValue.dumpsItems ascii items ++ rest) := by
      simp [JsonValue.dumpsItems]
    rw [whole, readItems]
    cases items with
    | nil =>
      have read := readValue_dumps ascii item fuel (']' :: rest) distinct.1 (by omega) (stops_cons (by decide))
      simp only [JsonValue.dumpsItems, List.cons_append, List.nil_append]
      rw [read]
      rfl
    | cons next items =>
      have read := readValue_dumps ascii item fuel (JsonValue.dumpsItems ascii (next :: items) ++ rest) distinct.1 (by omega)
        (by rw [JsonValue.dumpsItems]; exact stops_cons (by decide))
      have later := readItems_dumps ascii (next :: items) fuel rest (by simp) distinct.2 (by omega)
      obtain ⟨c, more, shape, visible, _⟩ := dumps_head ascii next
      have comma : JsonValue.dumpsItems ascii (next :: items) ++ rest =
          ',' :: c :: (more ++ JsonValue.dumpsItems ascii items ++ rest) := by
        simp [JsonValue.dumpsItems, shape]
      have behind : (JsonValue.dumpsItems ascii (next :: items)).tail ++ rest =
          c :: (more ++ JsonValue.dumpsItems ascii items ++ rest) := by
        simp [JsonValue.dumpsItems, shape]
      rw [behind] at later
      rw [read, comma]
      simp only [Option.bind_eq_bind, Option.bind_some, skipSpace_comma,
        skipSpace_cons visible, later]

theorem readFields_dumps (ascii : Bool) : ∀ (fields : List (String × JsonValue)) (fuel : Nat) (rest : List Char),
    fields ≠ [] → JsonValue.distinctFields fields = true → JsonValue.sizeFields fields ≤ fuel →
    readFields fuel ((JsonValue.dumpsFields ascii fields).tail ++ rest) = some (fields, rest)
  | [], _, _, filled, _, _ => absurd rfl filled
  | (key, value) :: fields, 0, rest, _, distinct, enough => absurd enough (by simp [JsonValue.sizeFields])
  | (key, value) :: fields, fuel + 1, rest, _, distinct, enough => by
    rw [JsonValue.sizeFields] at enough
    rw [JsonValue.distinctFields, Bool.and_eq_true] at distinct
    obtain ⟨c, more, shape, visible, _⟩ := dumps_head ascii value
    obtain ⟨body, quoted, readKey⟩ := readString_dumped ascii key
      (':' :: (value.dumps ascii ++ (JsonValue.dumpsFields ascii fields ++ rest)))
    have whole : (JsonValue.dumpsFields ascii ((key, value) :: fields)).tail ++ rest = '"' :: body := by
      rw [← quoted]
      simp [JsonValue.dumpsFields]
    rw [whole, readFields, readKey]
    simp only [Option.bind_eq_bind, Option.bind_some, skipSpace_colon]
    rw [shape, List.cons_append, skipSpace_cons visible, ← List.cons_append, ← shape]
    cases fields with
    | nil =>
      have read := readValue_dumps ascii value fuel ('}' :: rest) distinct.1 (by omega) (stops_cons (by decide))
      simp only [JsonValue.dumpsFields, List.cons_append, List.nil_append]
      rw [read]
      simp only [Option.bind_some, skipSpace_brace, String.ofList_toList]
    | cons field fields =>
      obtain ⟨other, next⟩ := field
      have read := readValue_dumps ascii value fuel (JsonValue.dumpsFields ascii ((other, next) :: fields) ++ rest) distinct.1
        (by omega) (by rw [JsonValue.dumpsFields]; exact stops_cons (by decide))
      have later := readFields_dumps ascii ((other, next) :: fields) fuel rest (by simp) distinct.2 (by omega)
      have comma : JsonValue.dumpsFields ascii ((other, next) :: fields) ++ rest =
          ',' :: '"' :: ((JsonValue.dumpsFields ascii ((other, next) :: fields)).tail ++ rest).tail := by
        simp [JsonValue.dumpsFields, dumpsString]
      have behind : (JsonValue.dumpsFields ascii ((other, next) :: fields)).tail ++ rest =
          '"' :: ((JsonValue.dumpsFields ascii ((other, next) :: fields)).tail ++ rest).tail := by
        simp [JsonValue.dumpsFields, dumpsString]
      rw [behind] at later
      rw [read, comma]
      simp only [Option.bind_some, skipSpace_comma,
        skipSpace_quote, later, String.ofList_toList]

end

mutual

theorem size_le_length (ascii : Bool) : ∀ value : JsonValue, value.size ≤ (value.dumps ascii).length
  | .null | .bool true | .bool false => by simp [JsonValue.size, JsonValue.dumps]
  | .int value => List.length_pos_iff.mpr (dumpsInt_ne_nil value)
  | .float value => List.length_pos_iff.mpr value.ne_nil
  | .str _ => by simp [JsonValue.size, JsonValue.dumps, dumpsString]
  | .arr [] => by simp [JsonValue.size, JsonValue.sizeItems, JsonValue.dumps]
  | .arr (item :: items) => by
    have bound := sizeItems_lt_length ascii (item :: items)
    simp only [JsonValue.size, JsonValue.dumps, JsonValue.dumpsItems, List.length_cons] at bound ⊢
    omega
  | .obj [] => by simp [JsonValue.size, JsonValue.sizeFields, JsonValue.dumps]
  | .obj ((key, value) :: fields) => by
    have bound := sizeFields_lt_length ascii ((key, value) :: fields)
    simp only [JsonValue.size, JsonValue.dumps, JsonValue.dumpsFields, List.length_cons] at bound ⊢
    omega

theorem sizeItems_lt_length (ascii : Bool) : ∀ items : List JsonValue,
    JsonValue.sizeItems items < (JsonValue.dumpsItems ascii items).length
  | [] => by simp [JsonValue.sizeItems, JsonValue.dumpsItems]
  | item :: items => by
    have one := size_le_length ascii item
    have others := sizeItems_lt_length ascii items
    simp only [JsonValue.sizeItems, JsonValue.dumpsItems, List.length_cons, List.length_append]
    omega

theorem sizeFields_lt_length (ascii : Bool) : ∀ fields : List (String × JsonValue),
    JsonValue.sizeFields fields < (JsonValue.dumpsFields ascii fields).length
  | [] => by simp [JsonValue.sizeFields, JsonValue.dumpsFields]
  | (_, value) :: fields => by
    have one := size_le_length ascii value
    have others := sizeFields_lt_length ascii fields
    simp only [JsonValue.sizeFields, JsonValue.dumpsFields, List.length_cons, List.length_append]
    omega

end

theorem loads_dumps (ascii : Bool) {value : JsonValue} (distinct : value.distinct = true) :
    loads (value.dumps ascii) = some value := by
  obtain ⟨c, more, shape, visible, _⟩ := dumps_head ascii value
  have enough := size_le_length ascii value
  have read := readValue_dumps ascii value ((value.dumps ascii).length + 1) [] distinct (by omega) nofun
  rw [List.append_nil] at read
  have whole : skipSpace (value.dumps ascii) = value.dumps ascii := by
    rw [shape]
    exact skipSpace_cons visible
  unfold loads
  rw [whole, read]
  rfl

theorem dumps_injective (ascii : Bool) {first second : JsonValue} (left : first.distinct = true)
    (right : second.distinct = true) (same : first.dumps ascii = second.dumps ascii) : first = second := by
  have read := loads_dumps ascii left
  rw [same, loads_dumps ascii right] at read
  exact (Option.some.inj read).symm

end HarnessMem.Library
