import HarnessMem.Library.Text
import Mathlib.Data.List.Basic

/-! The URL-safe base64 text of bytes. The reader passes over characters outside the
alphabet and stops at the padding of a group.
-/

set_option autoImplicit false

namespace HarnessMem.Library

def base64Char (n : Nat) : Char :=
  if n < 26 then Char.ofNat (65 + n)
  else if n < 52 then Char.ofNat (71 + n)
  else if n < 62 then Char.ofNat (n - 4)
  else if n = 62 then '-' else '_'

def base64Value? (c : Char) : Option Nat :=
  if c.isUpper then some (c.toNat - 65)
  else if c.isLower then some (c.toNat - 71)
  else if c.isDigit then some (c.toNat + 4)
  else if c = '-' ∨ c = '+' then some 62
  else if c = '_' ∨ c = '/' then some 63
  else none

def urlsafeB64encode : List Nat → List Char
  | a :: b :: c :: rest =>
    base64Char (a / 4) :: base64Char (a % 4 * 16 + b / 16) :: base64Char (b % 16 * 4 + c / 64) :: base64Char (c % 64) ::
      urlsafeB64encode rest
  | [a, b] => [base64Char (a / 4), base64Char (a % 4 * 16 + b / 16), base64Char (b % 16 * 4), '=']
  | [a] => [base64Char (a / 4), base64Char (a % 4 * 16), '=', '=']
  | [] => []

/-- The bytes from a place within a group of four: the characters of the group so far, what they
leave over, and the padding since the last of them. -/
def decodeGroups : Nat → Nat → Nat → List Char → Option (List Nat)
  | place, _, _, [] => if place = 0 then some [] else none
  | place, left, pads, c :: rest =>
    if c = '=' then
      if 2 ≤ place ∧ 4 ≤ place + (pads + 1) then some []
      else decodeGroups place left (if 2 ≤ place then pads + 1 else pads) rest
    else match base64Value? c with
      | none => decodeGroups place left pads rest
      | some value =>
        match place with
        | 0 => decodeGroups 1 value 0 rest
        | 1 => (decodeGroups 2 (value % 16) 0 rest).map ((left * 4 + value / 16) :: ·)
        | 2 => (decodeGroups 3 (value % 4) 0 rest).map ((left * 16 + value / 4) :: ·)
        | _ => (decodeGroups 0 0 0 rest).map ((left * 64 + value) :: ·)

/-- `base64.urlsafe_b64decode` on a text. -/
def urlsafeB64decode (text : List Char) : Option (List Nat) :=
  if text.all (·.toNat < 128) then decodeGroups 0 0 0 text else none

/-- `text.rstrip(c)`. -/
def stripEnd (c : Char) (text : List Char) : List Char :=
  (text.reverse.dropWhile (· = c)).reverse

/-- `"=" * (-len(text) % 4)`. -/
def padding (text : List Char) : List Char :=
  List.replicate ((4 - text.length % 4) % 4) '='

theorem base64Value_base64Char : ∀ n, n < 64 → base64Value? (base64Char n) = some n ∧ base64Char n ≠ '=' ∧
    (base64Char n).toNat < 128 := by
  decide

section

variable {n : Nat} (small : n < 64) (left pads : Nat) (rest : List Char)

include small

theorem decodeGroups_first : decodeGroups 0 left pads (base64Char n :: rest) = decodeGroups 1 n 0 rest := by
  obtain ⟨value, noPad, _⟩ := base64Value_base64Char n small
  simp only [decodeGroups, if_neg noPad, value]

theorem decodeGroups_second : decodeGroups 1 left pads (base64Char n :: rest) =
    (decodeGroups 2 (n % 16) 0 rest).map ((left * 4 + n / 16) :: ·) := by
  obtain ⟨value, noPad, _⟩ := base64Value_base64Char n small
  simp only [decodeGroups, if_neg noPad, value]

theorem decodeGroups_third : decodeGroups 2 left pads (base64Char n :: rest) =
    (decodeGroups 3 (n % 4) 0 rest).map ((left * 16 + n / 4) :: ·) := by
  obtain ⟨value, noPad, _⟩ := base64Value_base64Char n small
  simp only [decodeGroups, if_neg noPad, value]

theorem decodeGroups_fourth : decodeGroups 3 left pads (base64Char n :: rest) =
    (decodeGroups 0 0 0 rest).map ((left * 64 + n) :: ·) := by
  obtain ⟨value, noPad, _⟩ := base64Value_base64Char n small
  simp only [decodeGroups, if_neg noPad, value]

end

theorem stripEnd_append {c d : Char} (front text : List Char) (stays : d ≠ c) :
    stripEnd c (front ++ d :: text) = front ++ d :: stripEnd c text := by
  unfold stripEnd
  rw [List.reverse_append, List.reverse_cons, List.append_assoc, List.dropWhile_append]
  split
  · next none =>
    have empty := List.isEmpty_iff.mp none
    rw [empty]
    simp [stays]
  · simp

theorem decodeGroups_encode (bytes : List Nat) (small : ∀ byte ∈ bytes, byte < 256) :
    decodeGroups 0 0 0 (stripEnd '=' (urlsafeB64encode bytes) ++ padding (stripEnd '=' (urlsafeB64encode bytes))) =
      some bytes := by
  induction bytes using urlsafeB64encode.induct with
  | case1 a b c rest ih =>
    have bounds : a < 256 ∧ b < 256 ∧ c < 256 := ⟨small a (by simp), small b (by simp), small c (by simp)⟩
    obtain ⟨_, last, _⟩ := base64Value_base64Char (c % 64) (by omega)
    have shape : stripEnd '=' (urlsafeB64encode (a :: b :: c :: rest)) =
        base64Char (a / 4) :: base64Char (a % 4 * 16 + b / 16) :: base64Char (b % 16 * 4 + c / 64) ::
          base64Char (c % 64) :: stripEnd '=' (urlsafeB64encode rest) := by
      have split := stripEnd_append
        [base64Char (a / 4), base64Char (a % 4 * 16 + b / 16), base64Char (b % 16 * 4 + c / 64)]
        (urlsafeB64encode rest) last
      simpa [urlsafeB64encode] using split
    have same : padding (stripEnd '=' (urlsafeB64encode (a :: b :: c :: rest))) =
        padding (stripEnd '=' (urlsafeB64encode rest)) := by
      simp only [padding, shape, List.length_cons]
      congr 2
      omega
    have later := ih fun byte member => small byte (by simp [member])
    rw [same, shape]
    simp only [List.cons_append]
    rw [decodeGroups_first (by omega), decodeGroups_second (by omega), decodeGroups_third (by omega),
      decodeGroups_fourth (by omega), later]
    have first : a / 4 * 4 + (a % 4 * 16 + b / 16) / 16 = a := by omega
    have second : (a % 4 * 16 + b / 16) % 16 * 16 + (b % 16 * 4 + c / 64) / 4 = b := by omega
    have third : (b % 16 * 4 + c / 64) % 4 * 64 + c % 64 = c := by omega
    simp only [Option.map_some, first, second, third]
  | case2 a b =>
    have bounds : a < 256 ∧ b < 256 := ⟨small a (by simp), small b (by simp)⟩
    obtain ⟨_, last, _⟩ := base64Value_base64Char (b % 16 * 4) (by omega)
    have split := stripEnd_append [base64Char (a / 4), base64Char (a % 4 * 16 + b / 16)] ['='] last
    have shape : stripEnd '=' (urlsafeB64encode [a, b]) =
        [base64Char (a / 4), base64Char (a % 4 * 16 + b / 16), base64Char (b % 16 * 4)] := by
      simpa [urlsafeB64encode, stripEnd] using split
    rw [shape]
    simp only [padding, List.length_cons, List.length_nil, List.cons_append, List.nil_append]
    rw [decodeGroups_first (by omega), decodeGroups_second (by omega), decodeGroups_third (by omega)]
    have first : a / 4 * 4 + (a % 4 * 16 + b / 16) / 16 = a := by omega
    simp [decodeGroups, first]
    omega
  | case3 a =>
    have bound : a < 256 := small a (by simp)
    obtain ⟨_, last, _⟩ := base64Value_base64Char (a % 4 * 16) (by omega)
    have split := stripEnd_append [base64Char (a / 4)] ['=', '='] last
    have shape : stripEnd '=' (urlsafeB64encode [a]) = [base64Char (a / 4), base64Char (a % 4 * 16)] := by
      simpa [urlsafeB64encode, stripEnd] using split
    rw [shape]
    simp only [padding, List.length_cons, List.length_nil, List.cons_append, List.nil_append]
    rw [decodeGroups_first (by omega), decodeGroups_second (by omega)]
    simp [decodeGroups]
    omega
  | case4 => rfl

theorem urlsafeB64encode_ascii (bytes : List Nat) (small : ∀ byte ∈ bytes, byte < 256) :
    ∀ c ∈ urlsafeB64encode bytes, c.toNat < 128 := by
  have value : ∀ n, n < 64 → (base64Char n).toNat < 128 := fun n bound => (base64Value_base64Char n bound).2.2
  induction bytes using urlsafeB64encode.induct with
  | case1 a b c rest ih =>
    have bounds : a < 256 ∧ b < 256 ∧ c < 256 := ⟨small a (by simp), small b (by simp), small c (by simp)⟩
    intro d member
    simp only [urlsafeB64encode, List.mem_cons] at member
    rcases member with rfl | rfl | rfl | rfl | later
    · exact value _ (by omega)
    · exact value _ (by omega)
    · exact value _ (by omega)
    · exact value _ (by omega)
    · exact ih (fun byte inside => small byte (by simp [inside])) d later
  | case2 a b =>
    have bounds : a < 256 ∧ b < 256 := ⟨small a (by simp), small b (by simp)⟩
    intro d member
    simp only [urlsafeB64encode, List.mem_cons, List.not_mem_nil, or_false] at member
    rcases member with rfl | rfl | rfl | rfl
    · exact value _ (by omega)
    · exact value _ (by omega)
    · exact value _ (by omega)
    · decide
  | case3 a =>
    have bound : a < 256 := small a (by simp)
    intro d member
    simp only [urlsafeB64encode, List.mem_cons, List.not_mem_nil, or_false] at member
    rcases member with rfl | rfl | rfl | rfl
    · exact value _ (by omega)
    · exact value _ (by omega)
    · decide
    · decide
  | case4 => nofun

theorem urlsafeB64decode_encode {bytes : List Nat} (small : ∀ byte ∈ bytes, byte < 256) :
    urlsafeB64decode (stripEnd '=' (urlsafeB64encode bytes) ++ padding (stripEnd '=' (urlsafeB64encode bytes))) =
      some bytes := by
  have plain : ∀ c ∈ stripEnd '=' (urlsafeB64encode bytes) ++ padding (stripEnd '=' (urlsafeB64encode bytes)),
      c.toNat < 128 := by
    intro c member
    rcases List.mem_append.mp member with front | pad
    · have listed : c ∈ urlsafeB64encode bytes := by
        rw [← List.mem_reverse]
        exact (List.dropWhile_sublist _).subset (List.mem_reverse.mp front)
      exact urlsafeB64encode_ascii bytes small c listed
    · rw [List.eq_of_mem_replicate pad]
      decide
  unfold urlsafeB64decode
  rw [if_pos (List.all_eq_true.mpr fun c member => decide_eq_true (plain c member))]
  exact decodeGroups_encode bytes small

end HarnessMem.Library
