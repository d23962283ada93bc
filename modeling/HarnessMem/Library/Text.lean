import Mathlib.Algebra.Order.Ring.Nat
import Mathlib.Data.Char
import Mathlib.Data.List.Basic
import Mathlib.Data.List.DropRight
import Mathlib.Data.List.Lex
import Mathlib.Data.List.TakeWhile

/-! Texts as sequences of code points, with the standard string operations of
the source language: stripping, slicing and the UTF-8 encoding.
-/

set_option autoImplicit false

namespace HarnessMem.Library

instance lawfulBEqText : LawfulBEq (List Char) := inferInstance

instance lawfulBEqNames : LawfulBEq (String × String) := inferInstance

instance decidableForallMem {p : Char → Prop} [DecidablePred p] (text : List Char) : Decidable (∀ c ∈ text, p c) :=
  List.decidableBAll p text

instance decidableForallMemOption {p : Char → Prop} [DecidablePred p] (found : Option Char) : Decidable (∀ c ∈ found, p c) :=
  found.decidableForallMem

/-- The code points `str.isspace` and the pattern `\s` accept. -/
def isSpace (c : Char) : Bool :=
  let n := c.toNat
  (9 ≤ n && n ≤ 13) || (28 ≤ n && n ≤ 32) || n == 0x85 || n == 0xA0 || n == 0x1680 ||
    (0x2000 ≤ n && n ≤ 0x200A) || n == 0x2028 || n == 0x2029 || n == 0x202F || n == 0x205F || n == 0x3000

theorem isAlpha_iff {c : Char} : c.isAlpha = true ↔ 65 ≤ c.toNat ∧ c.toNat ≤ 90 ∨ 97 ≤ c.toNat ∧ c.toNat ≤ 122 := by
  change (decide (c.val ≥ 'A'.val ∧ c.val ≤ 'Z'.val) || decide (c.val ≥ 'a'.val) && decide (c.val ≤ 'z'.val)) = true ↔ _
  simp only [Bool.or_eq_true, Bool.and_eq_true, decide_eq_true_eq, ge_iff_le, UInt32.le_iff_toNat_le]
  rfl

/-- `str.strip` without an argument. -/
def strip (text : List Char) : List Char :=
  ((text.dropWhile isSpace).reverse.dropWhile isSpace).reverse

theorem strip_strip (text : List Char) : strip (strip text) = strip text := by
  have shape : strip text = (text.dropWhile isSpace).rdropWhile isSpace := rfl
  have front : (strip text).dropWhile isSpace = strip text := by
    apply List.dropWhile_eq_self_iff.mpr
    intro filled
    -- the first character is the one the first pass stopped at
    have starts := List.rdropWhile_prefix isSpace (text.dropWhile isSpace)
    rw [← shape] at starts
    have whole : 0 < (text.dropWhile isSpace).length := lt_of_lt_of_le filled starts.length_le
    have same : (strip text)[0] = (text.dropWhile isSpace)[0] := starts.getElem filled
    rw [same]
    exact List.dropWhile_get_zero_not isSpace text whole
  have again : strip (strip text) = ((strip text).dropWhile isSpace).rdropWhile isSpace := rfl
  rw [again, front, shape, List.rdropWhile_idempotent]

theorem strip_sublist (text : List Char) : (strip text).Sublist text :=
  (List.rdropWhile_prefix isSpace _).sublist.trans (List.dropWhile_sublist _)

theorem strip_last {text front : List Char} {c : Char} (shape : strip text = front ++ [c]) : isSpace c = false := by
  have filled : (text.dropWhile isSpace).rdropWhile isSpace ≠ [] := by
    rw [show (text.dropWhile isSpace).rdropWhile isSpace = _ from shape]
    simp
  have last := List.rdropWhile_last_not isSpace _ filled
  have same : ((text.dropWhile isSpace).rdropWhile isSpace).getLast filled = c := by
    simp only [show (text.dropWhile isSpace).rdropWhile isSpace = _ from shape, List.getLast_append_singleton]
  rw [same] at last
  simpa using last

/-- `value.strip()` on a text value. -/
def stripped (value : String) : String := String.ofList (strip value.toList)

theorem stripped_stripped (value : String) : stripped (stripped value) = stripped value := by
  simp only [stripped, String.toList_ofList, strip_strip]

/-- `" ".join(value.split())`. -/
def collapseSpaces (value : String) : String :=
  String.ofList (List.intercalate [' '] ((value.toList.splitOnP isSpace).filter fun word => !word.isEmpty))

/-- `bool(value.strip())`. -/
def hasVisible (text : String) : Bool := text.toList.any fun c => !isSpace c

/-- `value[:limit]`. -/
def sliceTo (limit : Nat) (text : String) : String := String.ofList (text.toList.take limit)

/-- `value.encode("utf-8")`. -/
def encodeUtf8 (text : String) : List UInt8 := text.toUTF8.data.toList

/-- `value.decode("utf-8")`. -/
def decodeUtf8 (bytes : List UInt8) : Option String := String.fromUTF8? ⟨bytes.toArray⟩

theorem decodeUtf8_encodeUtf8 (text : String) : decodeUtf8 (encodeUtf8 text) = some text := by
  have valid : ByteArray.IsValidUTF8 ⟨(encodeUtf8 text).toArray⟩ := text.isValidUTF8
  unfold decodeUtf8 String.fromUTF8?
  rw [dif_pos valid]
  rfl

theorem encodeUtf8_append (first second : String) : encodeUtf8 (first ++ second) = encodeUtf8 first ++ encodeUtf8 second := by
  simp [encodeUtf8]

theorem encodeUtf8_injective : Function.Injective encodeUtf8 := by
  intro left right same
  apply String.toByteArray_inj.mp
  exact ByteArray.ext (Array.toList_inj.mp same)

end HarnessMem.Library

/-! Stripping a text of one kind of characters at both ends. -/

namespace HarnessMem.Library

def trimBy (blank : Char → Bool) (text : List Char) : List Char :=
  ((text.dropWhile blank).reverse.dropWhile blank).reverse

theorem trimBy_isSpace (text : List Char) : trimBy isSpace text = strip text := rfl

section trimming

variable {blank : Char → Bool} {text : List Char}

theorem trimBy_eq_nil (all : ∀ c ∈ text, blank c = true) : trimBy blank text = [] := by
  unfold trimBy
  rw [List.dropWhile_eq_nil_iff.mpr all]
  rfl

theorem trimBy_split (blank : Char → Bool) (text : List Char) :
    ∃ before after, text = before ++ (trimBy blank text ++ after) ∧ (∀ c ∈ before, blank c = true) ∧ ∀ c ∈ after, blank c = true := by
  let rest := text.dropWhile blank
  refine ⟨text.takeWhile blank, (rest.reverse.takeWhile blank).reverse, ?_, ?_, ?_⟩
  · have back : trimBy blank text ++ (rest.reverse.takeWhile blank).reverse = rest := by
      unfold trimBy
      rw [← List.reverse_append, List.takeWhile_append_dropWhile, List.reverse_reverse]
    rw [back, List.takeWhile_append_dropWhile]
  · exact fun c member => List.mem_takeWhile_imp member
  · exact fun c member => List.mem_takeWhile_imp (List.mem_reverse.mp member)

end trimming

/-! ### Texts that show something -/

theorem hasVisible_eq_false {text : String} : hasVisible text = false ↔ ∀ c ∈ text.toList, isSpace c = true := by
  simp [hasVisible]

theorem stripped_eq_empty_iff {text : String} : stripped text = "" ↔ hasVisible text = false := by
  have toNil : stripped text = "" ↔ trimBy isSpace text.toList = [] := by
    rw [stripped, ← trimBy_isSpace, String.ofList_eq_empty_iff]
  rw [toNil, hasVisible_eq_false]
  constructor
  · intro empty
    obtain ⟨before, after, split, front, back⟩ := trimBy_split isSpace text.toList
    intro c member
    rw [split, empty, List.nil_append] at member
    exact (List.mem_append.mp member).elim (front c) (back c)
  · exact trimBy_eq_nil

theorem hasVisible_stripped {text : String} (filled : stripped text ≠ "") : hasVisible (stripped text) = true := by
  rw [← stripped_stripped] at filled
  exact Bool.of_not_eq_false fun blank => filled (stripped_eq_empty_iff.mpr blank)

end HarnessMem.Library

/-! The LIKE operator with its default semantics: `%` stands for any text, `_` for
any character, and letters of the ASCII range are compared without their case.
-/

namespace HarnessMem.Library

def foldLetter (c : Char) : Char :=
  if 65 ≤ c.toNat ∧ c.toNat ≤ 90 then Char.ofNat (c.toNat + 32) else c

/-- `text LIKE pattern`. -/
def like : List Char → List Char → Bool
  | [], text => text.isEmpty
  | c :: pattern, text =>
    if c = '%' then text.tails.any (like pattern)
    else
      match text with
      | [] => false
      | d :: rest => (c = '_' || foldLetter c = foldLetter d) && like pattern rest

section like

variable {pattern text : List Char}

@[simp] theorem like_nil_nil : like [] [] = true := rfl

@[simp] theorem like_nil_cons (d : Char) (rest : List Char) : like [] (d :: rest) = false := rfl

theorem like_any_nil : like ('%' :: pattern) [] = like pattern [] := by
  simp [like]

/-- What `%` skips is nothing, or the first character and more. -/
theorem like_any_cons (d : Char) (rest : List Char) :
    like ('%' :: pattern) (d :: rest) = (like pattern (d :: rest) || like ('%' :: pattern) rest) := by
  simp [like]

theorem like_cons_nil {c : Char} (plain : c ≠ '%') : like (c :: pattern) [] = false := by
  simp [like, plain]

theorem like_cons_cons {c d : Char} {rest : List Char} (plain : c ≠ '%') :
    like (c :: pattern) (d :: rest) = ((c = '_' || foldLetter c = foldLetter d) && like pattern rest) := by
  simp [like, plain]

end like

/-! ### Letters -/

theorem foldLetter_toNat (c : Char) :
    (foldLetter c).toNat = if 65 ≤ c.toNat ∧ c.toNat ≤ 90 then c.toNat + 32 else c.toNat := by
  unfold foldLetter
  split_ifs with upper
  · have valid : (c.toNat + 32).isValidChar := Or.inl (by omega)
    rw [Char.ofNat, dif_pos valid]
    rfl
  · rfl

theorem foldLetter_eq_iff (c d : Char) : foldLetter c = foldLetter d ↔ (foldLetter c).toNat = (foldLetter d).toNat := by
  constructor
  · exact congrArg Char.toNat
  · intro same
    rw [← Char.ofNat_toNat (foldLetter c), same, Char.ofNat_toNat]

theorem eq_of_foldLetter_eq {c d : Char} (same : foldLetter c = foldLetter d) (sign : c.toNat < 65 ∨ 90 < c.toNat ∧ c.toNat < 97 ∨ 122 < c.toNat) :
    d = c := by
  have numbers := (foldLetter_eq_iff c d).mp same
  rw [foldLetter_toNat, foldLetter_toNat] at numbers
  have equal : d.toNat = c.toNat := by
    split_ifs at numbers <;> omega
  rw [← Char.ofNat_toNat d, equal, Char.ofNat_toNat]

end HarnessMem.Library
