import Mathlib.Algebra.Group.Nat.Even
import Mathlib.Data.Nat.Basic

/-! Lengths of decimal numerals, and a bound that has to make room for its own numeral. -/

set_option autoImplicit false

namespace HarnessMem.Library

def numeralLength (n : Nat) : Nat := (Nat.toDigits 10 n).length

theorem numeralLength_pos (n : Nat) : 0 < numeralLength n := Nat.length_toDigits_pos

theorem numeralLength_le_iff {n k : Nat} (positive : 0 < k) : numeralLength n ≤ k ↔ n < 10 ^ k :=
  Nat.length_toDigits_le_iff (by decide) positive

theorem lt_pow_numeralLength (n : Nat) : n < 10 ^ numeralLength n :=
  (numeralLength_le_iff (numeralLength_pos n)).mp (le_refl _)

theorem numeralLength_le_self {n : Nat} (positive : 0 < n) : numeralLength n ≤ n :=
  (numeralLength_le_iff positive).mpr (Nat.lt_pow_self (by decide))

theorem numeralLength_double {n m : Nat} (bound : m ≤ 2 * n + 1) : numeralLength m ≤ numeralLength n + 1 := by
  apply (numeralLength_le_iff (Nat.succ_pos _)).mpr
  have below := lt_pow_numeralLength n
  rw [pow_succ]
  omega

def raiseTo (minimum : Nat → Nat) : Nat → Nat → Nat
  | 0, bound => bound
  | rounds + 1, bound => if minimum bound ≤ bound then bound else raiseTo minimum rounds (minimum bound)

theorem le_raiseTo (minimum : Nat → Nat) (rounds bound : Nat) : bound ≤ raiseTo minimum rounds bound := by
  induction rounds generalizing bound with
  | zero => exact le_refl _
  | succ rounds ih =>
    unfold raiseTo
    split
    · exact le_refl _
    · next short => exact le_trans (le_of_lt (not_le.mp short)) (ih _)

/-- Where the minimum depends on the bound by the length of its numeral alone, three raises are enough
and a fourth round finds nothing to do. -/
theorem raiseTo_settles {minimum : Nat → Nat}
    (own : ∀ b c, minimum b + numeralLength c = minimum c + numeralLength b) (bound : Nat) :
    minimum (raiseTo minimum 4 bound) ≤ raiseTo minimum 4 bound := by
  generalize first : minimum bound = b₁
  generalize second : minimum b₁ = b₂
  generalize third : minimum b₂ = b₃
  have shift₁ := own b₁ bound
  have shift₂ := own b₂ b₁
  have shift₃ := own b₃ b₂
  rw [first, second] at shift₁
  rw [second, third] at shift₂
  rw [third] at shift₃
  simp only [raiseTo, first, second, third]
  split
  · omega
  · next short₁ =>
    have positive : 0 < b₁ := by omega
    have small := numeralLength_le_self positive
    split
    · omega
    · next short₂ =>
      -- the second raise is by fewer digits than the first bound has
      have twice : b₂ ≤ 2 * b₁ := by omega
      have longer := numeralLength_double (le_trans twice (Nat.le_succ _))
      split
      · omega
      · next short₃ =>
        have one : b₃ = b₂ + 1 := by omega
        have last := numeralLength_double (show b₃ ≤ 2 * b₁ + 1 by omega)
        have settled : minimum b₃ ≤ b₃ := by omega
        rw [if_pos settled]
        exact settled

end HarnessMem.Library
