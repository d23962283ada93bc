import HarnessMem.Library.Casing
import HarnessMem.Library.JsonAccess
import Mathlib.Data.Rat.Floor
import Mathlib.Tactic.Linarith

/-! The numbers that `float(text)` and the parser of the extension read from a text, and
their rounding. The arithmetic is exact, so an infinity comes from its name alone.
-/

set_option autoImplicit false

namespace HarnessMem.Library

inductive Number where
  | finite (value : ℚ)
  | infinite (negative : Bool)
  | nan
  deriving DecidableEq

namespace Number

def add (number : Number) (value : ℚ) : Number :=
  match number with
  | finite own => finite (own + value)
  | other => other

def Below : Number → Number → Prop
  | finite first, finite second => first < second
  | infinite true, finite _ => True
  | infinite true, infinite false => True
  | finite _, infinite false => True
  | _, _ => False

instance (first second : Number) : Decidable (first.Below second) :=
  match first, second with
  | finite first, finite second => inferInstanceAs (Decidable (first < second))
  | infinite true, finite _ => .isTrue trivial
  | infinite true, infinite false => .isTrue trivial
  | finite _, infinite false => .isTrue trivial
  | finite _, infinite true => .isFalse id
  | finite _, nan => .isFalse id
  | infinite false, _ => .isFalse id
  | infinite true, infinite true => .isFalse id
  | infinite true, nan => .isFalse id
  | nan, _ => .isFalse id

end Number

/-! ### Literals -/

def isDecimal (text : List Char) : Bool :=
  let (mantissa, exponent) := text.span fun c => c ≠ 'e' && c ≠ 'E'
  let (whole, fraction) := mantissa.span (· ≠ '.')
  isDigits (whole ++ fraction.tail) && (exponent.isEmpty || isDigits (unsigned ['+', '-'] exponent.tail))

/-- `str::parse::<f64>`. -/
def parseFloat (text : List Char) : Option Number :=
  let negative := text.head? = some '-'
  let magnitude := unsigned ['+', '-'] text
  let name := magnitude.map asciiLower
  if name ∈ ["inf".toList, "infinity".toList] then some (.infinite negative)
  else if name = "nan".toList then some .nan
  else if isDecimal magnitude then
    some (.finite (if negative then -decimalValue magnitude else decimalValue magnitude))
  else none

/-- The character that `float` reads for a character, by the table of decimal digits. -/
def toAscii (decimal : Char → Option Nat) (c : Char) : Char :=
  if c.toNat < 127 then c
  else if isSpace c then ' '
  else match decimal c with
    | some digit => Char.ofNat (48 + digit)
    | none => '?'

def dropUnderscores (behind : Char) : List Char → Option (List Char)
  | [] => if behind = '_' then none else some []
  | c :: rest =>
    if c = '_' then (if behind.isDigit then dropUnderscores c rest else none)
    else if behind = '_' && !c.isDigit then none
    else (dropUnderscores c rest).map (c :: ·)

def isAsciiSpace (c : Char) : Bool := (9 ≤ c.toNat && c.toNat ≤ 13) || c.toNat == 32

/-- `float(text)`, where `ValueError` is no number. -/
def pyFloat (decimal : Char → Option Nat) (text : List Char) : Option Number :=
  let shown := ((text.map (toAscii decimal)).dropWhile isAsciiSpace).rdropWhile isAsciiSpace
  (dropUnderscores ' ' shown).bind parseFloat

/-! ### Rounding -/

def halfEven (value : ℚ) : Int :=
  let low := ⌊value⌋
  if value - low < 1 / 2 then low
  else if 1 / 2 < value - low then low + 1
  else if low % 2 = 0 then low else low + 1

def halfAway (value : ℚ) : Int := if 0 ≤ value then ⌊value + 1 / 2⌋ else ⌈value - 1 / 2⌉

def Apart (value : ℚ) : Prop := value - ⌊value⌋ = 1 / 2 ∧ (⌊value⌋ % 2 = 0 ↔ 0 ≤ value)

instance (value : ℚ) : Decidable (Apart value) := inferInstanceAs (Decidable (_ ∧ _))

theorem floor_add_half {value : ℚ} : ⌊value + 1 / 2⌋ = if value - ⌊value⌋ < 1 / 2 then ⌊value⌋ else ⌊value⌋ + 1 := by
  have low := Int.floor_le value
  have high := Int.lt_floor_add_one value
  split
  · rw [Int.floor_eq_iff]
    constructor <;> linarith
  · rw [Int.floor_eq_iff]
    push_cast
    constructor <;> linarith

theorem ceil_sub_half {value : ℚ} : ⌈value - 1 / 2⌉ = if 1 / 2 < value - ⌊value⌋ then ⌊value⌋ + 1 else ⌊value⌋ := by
  have low := Int.floor_le value
  have high := Int.lt_floor_add_one value
  split
  · rw [Int.ceil_eq_iff]
    push_cast
    constructor <;> linarith
  · rw [Int.ceil_eq_iff]
    constructor <;> linarith

theorem halfEven_eq_halfAway_iff (value : ℚ) : halfEven value = halfAway value ↔ ¬ Apart value := by
  unfold halfEven halfAway Apart
  rw [floor_add_half, ceil_sub_half]
  dsimp only
  rcases lt_trichotomy (value - ⌊value⌋) (1 / 2) with below | middle | above
  · have apart : ¬ (value - ⌊value⌋ = 1 / 2 ∧ (⌊value⌋ % 2 = 0 ↔ 0 ≤ value)) := fun both => below.ne both.1
    rw [if_pos below, if_pos below, if_neg below.not_gt, ite_self]
    exact iff_of_true rfl apart
  · rw [if_neg middle.not_lt, if_neg middle.not_gt, if_neg middle.not_lt, if_neg middle.not_gt]
    by_cases even : ⌊value⌋ % 2 = 0 <;> by_cases positive : 0 ≤ value <;> simp [middle, even, positive]
  · have apart : ¬ (value - ⌊value⌋ = 1 / 2 ∧ (⌊value⌋ % 2 = 0 ↔ 0 ≤ value)) := fun both => above.ne' both.1
    rw [if_neg above.not_gt, if_pos above, if_neg above.not_gt, if_pos above, ite_self]
    exact iff_of_true rfl apart

end HarnessMem.Library
