import HarnessMem.Library.Numerals
import Mathlib.Logic.Function.Iterate

/-! Rounds until nothing changes, and texts that state their own length. -/

set_option autoImplicit false

namespace HarnessMem.Library

section
variable {α : Type} [DecidableEq α] {f g : α → α} {rounds : Nat} {a : α}

def settle (f : α → α) : Nat → α → α × Bool
  | 0, a => (a, false)
  | rounds + 1, a => if f a = a then (a, true) else settle f rounds (f a)

theorem settle_fixed (rests : (settle f rounds a).2 = true) : f (settle f rounds a).1 = (settle f rounds a).1 := by
  induction rounds generalizing a with
  | zero => exact absurd rests Bool.false_ne_true
  | succ rounds ih =>
    rw [settle] at rests ⊢
    split at rests
    · next same =>
      rw [if_pos same]
      exact same
    · next moves =>
      rw [if_neg moves]
      exact ih rests

theorem settle_of_iterate (same : f (f^[rounds] a) = f^[rounds] a) : (settle f (rounds + 1) a).2 = true := by
  induction rounds generalizing a with
  | zero =>
    rw [settle, if_pos (show f a = a from same)]
  | succ rounds ih =>
    rw [settle]
    split
    · rfl
    · rw [Function.iterate_succ_apply] at same
      exact ih same

theorem settle_keeps {P : α → Prop} (keeps : ∀ a, P a → P (f a)) (start : P a) : P (settle f rounds a).1 := by
  induction rounds generalizing a with
  | zero => exact start
  | succ rounds ih =>
    rw [settle]
    split
    · exact start
    · exact ih (keeps a start)

theorem settle_congr {P : α → Prop} (agree : ∀ a, P a → f a = g a) (keeps : ∀ a, P a → P (f a)) (start : P a) :
    settle f rounds a = settle g rounds a := by
  induction rounds generalizing a with
  | zero => rfl
  | succ rounds ih =>
    rw [settle, settle, ← agree a start, ih (keeps a start)]

omit [DecidableEq α] in
theorem iterate_congr {P : α → Prop} (agree : ∀ a, P a → f a = g a) (keeps : ∀ a, P a → P (f a)) (start : P a) (n : Nat) :
    f^[n] a = g^[n] a ∧ P (f^[n] a) := by
  induction n with
  | zero => exact ⟨rfl, start⟩
  | succ n ih =>
    rw [Function.iterate_succ_apply', Function.iterate_succ_apply', ← ih.1]
    exact ⟨agree _ ih.2, keeps _ ih.2⟩

omit [DecidableEq α] in
theorem iterate_of_rest {n m : Nat} (le : n ≤ m) (same : f (f^[n] a) = f^[n] a) : f (f^[m] a) = f^[m] a := by
  induction m, le using Nat.le_induction with
  | base => exact same
  | succ m _ ih =>
    rw [Function.iterate_succ_apply', ih]
    exact ih

end

/-! ### Texts that state their length -/

/-- The numerals in which a text of `n` characters states `n`, its units of four characters,
and those of the units that lie beyond `spent`. -/
def ownLength (spent n : Nat) : Nat := numeralLength n + numeralLength (n / 4) + numeralLength (n / 4 - spent)

theorem numeralLength_mono {n m : Nat} (le : n ≤ m) : numeralLength n ≤ numeralLength m :=
  (numeralLength_le_iff (numeralLength_pos m)).mpr (lt_of_le_of_lt le (lt_pow_numeralLength m))

theorem three_le_numeralLength {n : Nat} (large : 100 ≤ n) : 3 ≤ numeralLength n := by
  by_contra short
  have below := (numeralLength_le_iff (by decide)).mp (show numeralLength n ≤ 2 by omega)
  omega

variable (spent : Nat)

theorem ownLength_mono {n m : Nat} (le : n ≤ m) : ownLength spent n ≤ ownLength spent m := by
  have chars := numeralLength_mono le
  have units := numeralLength_mono (Nat.div_le_div_right (c := 4) le)
  have beyond := numeralLength_mono (show n / 4 - spent ≤ m / 4 - spent by omega)
  unfold ownLength
  omega

theorem ownLength_le {n : Nat} (bound : n < 10 ^ 19) : ownLength spent n ≤ 57 := by
  have short : ∀ m ≤ n, numeralLength m ≤ 19 := fun m le => (numeralLength_le_iff (by decide)).mpr (lt_of_le_of_lt le bound)
  have chars := short n (le_refl n)
  have units := short (n / 4) (Nat.div_le_self n 4)
  have beyond := short (n / 4 - spent) (by omega)
  unfold ownLength
  omega

/-- From a hundred on the powers of ten are multiples of four, so that the numerals are the same
within a unit. -/
theorem ownLength_block {n m : Nat} (large : 100 ≤ n) (le : n ≤ m) (block : m / 4 = n / 4) :
    ownLength spent m = ownLength spent n := by
  have chars : numeralLength m = numeralLength n := by
    apply le_antisymm _ (numeralLength_mono le)
    apply (numeralLength_le_iff (numeralLength_pos n)).mpr
    have below := lt_pow_numeralLength n
    obtain ⟨k, digits⟩ := Nat.exists_eq_add_of_le (three_le_numeralLength large)
    rw [digits, pow_add] at below ⊢
    generalize 10 ^ k = p at below ⊢
    omega
  rw [ownLength, ownLength, block, chars]

/-- Among eighty lengths at most one power of ten is reached by the characters or the units, and
at most one by what lies beyond. -/
theorem ownLength_window {n m : Nat} (large : 100 ≤ n) (le : n ≤ m) (near : m ≤ n + 80) :
    ownLength spent m ≤ ownLength spent n + 2 := by
  have both : numeralLength m + numeralLength (m / 4) ≤ numeralLength n + numeralLength (n / 4) + 1 := by
    have more := numeralLength_double (show m ≤ 2 * n + 1 by omega)
    have moreUnits := numeralLength_double (show m / 4 ≤ 2 * (n / 4) + 1 by omega)
    by_cases same : numeralLength m ≤ numeralLength n
    · omega
    · have below := lt_pow_numeralLength n
      have reached : 10 ^ numeralLength n ≤ m := by
        by_contra short
        exact same ((numeralLength_le_iff (numeralLength_pos n)).mpr (by omega))
      obtain ⟨k, digits⟩ := Nat.exists_eq_add_of_le (three_le_numeralLength large)
      have positive : 0 < 10 ^ k := Nat.pow_pos (by decide)
      have units : numeralLength (m / 4) ≤ numeralLength n := by
        apply (numeralLength_le_iff (numeralLength_pos n)).mpr
        omega
      have unitsBefore : numeralLength n ≤ numeralLength (n / 4) := by
        by_contra short
        have small := (numeralLength_le_iff (show 0 < 2 + k by omega)).mp (show numeralLength (n / 4) ≤ 2 + k by omega)
        rw [digits, pow_add] at reached
        rw [pow_add] at small
        generalize 10 ^ k = p at reached small positive
        omega
      omega
  have beyond : numeralLength (m / 4 - spent) ≤ numeralLength (n / 4 - spent) + 1 := by
    by_cases few : n / 4 - spent < 20
    · have two := (numeralLength_le_iff (by decide)).mpr (show m / 4 - spent < 10 ^ 2 by omega)
      have one := numeralLength_pos (n / 4 - spent)
      omega
    · exact numeralLength_double (by omega)
  unfold ownLength
  omega

theorem ownLength_far {n m : Nat} (large : 100 ≤ n) (le : n ≤ m) :
    ownLength spent m ≤ ownLength spent n + 2 + (m - n) / 40 := by
  induction m using Nat.strong_induction_on generalizing n with
  | _ m ih =>
    by_cases near : m ≤ n + 80
    · have window := ownLength_window spent large le near
      omega
    · have step := ownLength_window spent (show 100 ≤ m - 80 by omega) (show m - 80 ≤ m by omega) (by omega)
      have rest := ih (m - 80) (by omega) large (by omega)
      omega

theorem ownLength_aligned {n m : Nat} (large : 100 ≤ n) (le : n ≤ m) (aligned : n % 4 = 0 ∨ m % 4 = 3) :
    ownLength spent m ≤ ownLength spent n + (m - n) := by
  by_cases block : m / 4 = n / 4
  · rw [ownLength_block spent large le block]
    omega
  · have far := ownLength_far spent large le
    omega

theorem stating_rests {base a : Nat} {f : Nat → Nat} (form : ∀ n, f n = base + ownLength spent n) (large : 100 ≤ a)
    (largeBase : 100 ≤ base) (above : a ≤ f a + 70) (below : f a ≤ a + 70) : f (f^[3] a) = f^[3] a := by
  have iterated : f^[3] a = f (f (f a)) := rfl
  rw [iterated]
  generalize first : f a = b at above below ⊢
  generalize second : f b = c
  generalize third : f c = d
  have atA := form a
  have atB := form b
  have atC := form c
  have atD := form d
  have sameBC : b = c → ownLength spent b = ownLength spent c := fun same => by rw [same]
  have sameCD : c = d → ownLength spent c = ownLength spent d := fun same => by rw [same]
  by_cases rising : a ≤ b
  · have ab := ownLength_mono spent rising
    have windowB := ownLength_window spent large rising (by omega)
    have bc := ownLength_mono spent (show b ≤ c by omega)
    have windowC := ownLength_window spent large (show a ≤ c by omega) (by omega)
    have cd := ownLength_mono spent (show c ≤ d by omega)
    have windowD := ownLength_window spent large (show a ≤ d by omega) (by omega)
    omega
  · have ab := ownLength_mono spent (show b ≤ a by omega)
    have windowB := ownLength_window spent (show 100 ≤ b by omega) (show b ≤ a by omega) (by omega)
    have bc := ownLength_mono spent (show c ≤ b by omega)
    have windowC := ownLength_window spent (show 100 ≤ c by omega) (show c ≤ a by omega) (by omega)
    have cd := ownLength_mono spent (show d ≤ c by omega)
    have windowD := ownLength_window spent (show 100 ≤ d by omega) (show d ≤ a by omega) (by omega)
    omega

/-! ### Texts that also say whether they exceed a target -/

/-- A text but for its own numerals: it has other labels where it states less than a bound of whole
units than from there on. -/
structure Stating where
  spent : Nat
  bound : Nat
  aligned : bound % 4 = 0
  wide : 100 ≤ bound
  within : Nat
  exceeding : Nat

namespace Stating

variable (text : Stating)

/-- The length of the text that states `n` characters. -/
def length (n : Nat) : Nat := (if n < text.bound then text.within else text.exceeding) + ownLength text.spent n

/-- The labels fit somewhere: the text stays below the bound when it says so, or does not when it
says that. -/
def LabelsFit : Prop := text.length (text.bound - 1) ≤ text.bound - 1 ∨ text.bound ≤ text.length text.bound

variable {text}

theorem length_within {n : Nat} (low : n < text.bound) : text.length n = text.within + ownLength text.spent n := by
  rw [length, if_pos low]

theorem length_exceeding {n : Nat} (high : text.bound ≤ n) : text.length n = text.exceeding + ownLength text.spent n := by
  rw [length, if_neg (not_lt.mpr high)]

theorem fits_of_within {n : Nat} (large : 100 ≤ n) (low : n < text.bound) (same : text.length n = n) :
    text.length (text.bound - 1) ≤ text.bound - 1 := by
  have aligned := text.aligned
  have slow := ownLength_aligned text.spent large (show n ≤ text.bound - 1 by omega) (Or.inr (by omega))
  rw [length_within low] at same
  rw [length_within (by omega)]
  omega

theorem fits_of_exceeding {n : Nat} (high : text.bound ≤ n) (same : text.length n = n) :
    text.bound ≤ text.length text.bound := by
  have slow := ownLength_aligned text.spent text.wide high (Or.inl text.aligned)
  rw [length_exceeding high] at same
  rw [length_exceeding (le_refl _)]
  omega

theorem length_low (inner : text.length (text.bound - 1) ≤ text.bound - 1) {n : Nat}
    (low : n < text.bound) : text.length n < text.bound := by
  have more := ownLength_mono text.spent (show n ≤ text.bound - 1 by omega)
  rw [length_within (by omega)] at inner
  rw [length_within low]
  omega

variable {start limit : Nat} (large : 100 ≤ start) (within_eq : text.within = start + 9)
  (shorter : text.within ≤ text.exceeding + 13) (bounded : limit < 10 ^ 19) (startFits : start ≤ limit)
  (fits : ∀ n ≤ limit, text.length n ≤ limit)

include large within_eq bounded startFits in
theorem within_rests {f : Nat → Nat} (form : ∀ n, f n = text.within + ownLength text.spent n) :
    start ≤ f start ∧ f start ≤ start + 66 ∧ f (f^[3] start) = f^[3] start := by
  have numerals := ownLength_le text.spent (lt_of_le_of_lt startFits bounded)
  have first := form start
  exact ⟨by omega, by omega, stating_rests text.spent form large (by omega) (by omega) (by omega)⟩

include large within_eq bounded startFits in
theorem length_early {b c : Nat} (first : text.length start = b) (second : text.length b = c)
    (lowStart : start < text.bound) (lowB : b < text.bound) (lowC : c < text.bound) : text.length c < text.bound := by
  have numerals := ownLength_le text.spent (lt_of_le_of_lt startFits bounded)
  rw [length_within lowStart] at first
  rw [length_within lowB] at second
  rw [length_within lowC]
  have up := ownLength_mono text.spent (show start ≤ b by omega)
  have window := ownLength_window text.spent large (show start ≤ b by omega) (by omega)
  have upC := ownLength_mono text.spent (show b ≤ c by omega)
  have windowC := ownLength_window text.spent large (show start ≤ c by omega) (by omega)
  have aligned := text.aligned
  -- a third text that is longer by one follows a second one that ends with a unit
  have block : c / 4 = b / 4 → ownLength text.spent c = ownLength text.spent b := ownLength_block text.spent (by omega) (by omega)
  omega

include shorter bounded fits in
theorem exceeding_rests {a : Nat} (fit : text.bound ≤ text.length text.bound)
    (largeExceeding : 100 ≤ text.exceeding) (high : text.bound ≤ a) (small : a ≤ limit) (near : a ≤ text.within + ownLength text.spent a) :
    text.length (text.length^[4] a) = text.length^[4] a := by
  have keeps : ∀ n, text.bound ≤ n → text.bound ≤ text.length n := by
    intro n above
    have more := ownLength_mono text.spent above
    rw [length_exceeding (le_refl _)] at fit
    rw [length_exceeding above]
    omega
  obtain ⟨same, up⟩ := iterate_congr (g := fun n => text.exceeding + ownLength text.spent n) (fun n => length_exceeding) keeps high 4
  rw [length_exceeding up, same]
  generalize form : (fun n => text.exceeding + ownLength text.spent n) = f
  have formula : ∀ n, f n = text.exceeding + ownLength text.spent n := fun n => by rw [← form]
  rw [← formula]
  have first := formula a
  have numerals := ownLength_le text.spent (lt_of_le_of_lt small bounded)
  by_cases rising : a ≤ f a
  · have fit := fits a small
    rw [length_exceeding high, ← formula] at fit
    have numeralsNext := ownLength_le text.spent (lt_of_le_of_lt fit bounded)
    have second := formula (f a)
    have more := ownLength_mono text.spent rising
    rw [Function.iterate_succ_apply]
    exact stating_rests text.spent formula (by omega) largeExceeding (by omega) (by omega)
  · exact iterate_of_rest (show 3 ≤ 4 by decide) (stating_rests text.spent formula (by omega) largeExceeding (by omega) (by omega))

include large within_eq shorter bounded startFits fits in
theorem rests (largeExceeding : 100 ≤ text.exceeding) (fit : text.LabelsFit) :
    text.length (text.length^[6] start) = text.length^[6] start := by
  generalize start_next : text.length start = b
  generalize second : text.length b = c
  have outer {a : Nat} (n : Nat) (le : n ≤ 2) (reached : text.length^[n] start = a)
      (high : text.bound ≤ a) : text.bound ≤ text.length text.bound := by
    rcases fit with inner | outer
    · exfalso
      have wide := text.wide
      have low : start < text.bound := by
        rw [length_within (by omega)] at inner
        omega
      have stays := (iterate_congr (P := fun m => m < text.bound) (g := text.length)
        (fun _ _ => rfl) (fun _ below => length_low inner below) low n).2
      omega
    · exact outer
  have late {a : Nat} (n : Nat) (le : n ≤ 2) (reached : text.length^[n] start = a)
      (high : text.bound ≤ a) (small : a ≤ limit) (near : a ≤ text.within + ownLength text.spent a) :
      text.length (text.length^[6] start) = text.length^[6] start := by
    have rests := exceeding_rests shorter bounded fits (outer n le reached high) largeExceeding high small near
    rw [← reached, ← Function.iterate_add_apply] at rests
    exact iterate_of_rest (show 4 + n ≤ 6 by omega) rests
  have smallB := fits start startFits
  have smallC := fits b (by omega)
  by_cases lowStart : start < text.bound
  · have atStart := length_within lowStart
    have numerals := ownLength_le text.spent (lt_of_le_of_lt startFits bounded)
    have up := ownLength_mono text.spent (show start ≤ b by omega)
    by_cases lowB : b < text.bound
    · have atB := length_within lowB
      have upC := ownLength_mono text.spent (show b ≤ c by omega)
      by_cases lowC : c < text.bound
      · have early := length_early large within_eq bounded startFits start_next second lowStart lowB lowC
        obtain ⟨_, _, rests⟩ := within_rests large within_eq bounded startFits (f := fun n => text.within + ownLength text.spent n) fun _ => rfl
        apply iterate_of_rest (show 3 ≤ 6 by decide)
        have unfolded : text.length^[3] start = text.length c := by
          rw [← second, ← start_next]
          rfl
        rw [unfolded, length_within early, length_within lowC, ← second, length_within lowB, ← start_next,
          length_within lowStart]
        exact rests
      · exact late (a := c) 2 (le_refl 2) (by rw [← second, ← start_next]; rfl) (by omega) (by omega) (by omega)
    · exact late 1 (by decide) start_next (by omega) (by omega) (by omega)
  · exact late (a := start) 0 (by decide) rfl (by omega) startFits (by omega)

end Stating

end HarnessMem.Library
