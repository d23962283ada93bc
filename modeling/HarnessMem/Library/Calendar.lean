import Mathlib.Data.List.Lex
import Mathlib.Data.Nat.Digits.Defs

/-! Clock readings of the Gregorian calendar with an optional UTC offset, their ISO
text and the order of those texts.
-/

set_option autoImplicit false

namespace HarnessMem.Library

def isLeap (year : Nat) : Bool := year % 4 = 0 && (year % 100 ≠ 0 || year % 400 = 0)

def daysInMonth (year month : Nat) : Nat :=
  if month = 2 then if isLeap year then 29 else 28
  else if month ∈ [4, 6, 9, 11] then 30
  else 31

def daysBeforeMonth (year month : Nat) : Nat :=
  ((List.range (month - 1)).map fun earlier => daysInMonth year (earlier + 1)).sum

def daysBeforeYear (year : Nat) : Nat :=
  365 * (year - 1) + (year - 1) / 4 - (year - 1) / 100 + (year - 1) / 400

/-- A `datetime`: a clock reading, and the offset of the clock from UTC in microseconds. -/
structure DateTime where
  year : Nat
  month : Nat
  day : Nat
  hour : Nat
  minute : Nat
  second : Nat
  microsecond : Nat
  offset : Option Int
  date : 1 ≤ year ∧ year ≤ 9999 ∧ 1 ≤ month ∧ month ≤ 12 ∧ 1 ≤ day ∧ day ≤ daysInMonth year month
  clock : hour < 24 ∧ minute < 60 ∧ second < 60 ∧ microsecond < 1000000
  zone : ∀ shift ∈ offset, shift.natAbs < 86400000000
  deriving DecidableEq

namespace DateTime

theorem newYear_date : 1 ≤ 2026 ∧ 2026 ≤ 9999 ∧ 1 ≤ 1 ∧ 1 ≤ 12 ∧ 1 ≤ 1 ∧ 1 ≤ daysInMonth 2026 1 := by decide

theorem midnight_clock : 0 < 24 ∧ 0 < 60 ∧ 0 < 60 ∧ 0 < 1000000 := by decide

theorem utc_zone : ∀ shift ∈ some (0 : Int), shift.natAbs < 86400000000 := by decide

def ordinal (time : DateTime) : Nat :=
  daysBeforeYear time.year + daysBeforeMonth time.year time.month + time.day

def seconds (time : DateTime) : Nat :=
  ((time.ordinal * 24 + time.hour) * 60 + time.minute) * 60 + time.second

def wall (time : DateTime) : Nat := time.seconds * 1000000 + time.microsecond

def instant (time : DateTime) : Int := time.wall - time.offset.getD 0

/-- `value.replace(tzinfo=timezone.utc)` where there is no offset. -/
def inUtc (time : DateTime) : DateTime :=
  { time with
    offset := some (time.offset.getD 0)
    zone := by
      intro shift same
      obtain rfl := Option.some.inj same
      cases found : time.offset with
      | none => decide
      | some shift => exact time.zone shift found }

def padded : Nat → Nat → List Char
  | 0, _ => []
  | width + 1, n => padded width (n / 10) ++ [(n % 10).digitChar]

/-- `YYYY-MM-DDTHH:MM:SS`. -/
def clockText (time : DateTime) : List Char :=
  padded 4 time.year ++ '-' :: (padded 2 time.month ++ '-' :: (padded 2 time.day ++ 'T' ::
    (padded 2 time.hour ++ ':' :: (padded 2 time.minute ++ ':' :: padded 2 time.second))))

def fractionText (microseconds : Nat) : List Char :=
  if microseconds = 0 then [] else '.' :: padded 6 microseconds

/-- `+HH:MM`, with seconds and their fraction where the offset has them. -/
def offsetText : Option Int → List Char
  | none => []
  | some shift =>
    let size := shift.natAbs
    let whole := size / 1000000
    (if shift < 0 then '-' else '+') :: (padded 2 (whole / 3600) ++ ':' :: (padded 2 (whole / 60 % 60) ++
      (if size % 60000000 = 0 then [] else ':' :: (padded 2 (whole % 60) ++ fractionText (size % 1000000)))))

/-- `value.isoformat()`. -/
def isoformat (time : DateTime) : List Char :=
  time.clockText ++ (fractionText time.microsecond ++ offsetText time.offset)

end DateTime

/-! ### The order of the calendar -/

theorem daysInMonth_eq (year month : Nat) :
    daysInMonth year month = if month = 2 then (if isLeap year then 29 else 28)
      else if month = 4 ∨ month = 6 ∨ month = 9 ∨ month = 11 then 30 else 31 := by
  simp [daysInMonth]

theorem daysBeforeMonth_succ {year month : Nat} (positive : 1 ≤ month) :
    daysBeforeMonth year (month + 1) = daysBeforeMonth year month + daysInMonth year month := by
  obtain ⟨before, rfl⟩ : ∃ before, month = before + 1 := ⟨month - 1, by omega⟩
  simp [daysBeforeMonth, List.range_succ]

theorem month_before (year : Nat) {first second : Nat} (positive : 1 ≤ first) (earlier : first < second) :
    daysBeforeMonth year first + daysInMonth year first ≤ daysBeforeMonth year second := by
  induction second with
  | zero => exact absurd earlier (Nat.not_lt_zero _)
  | succ month ih =>
    rw [daysBeforeMonth_succ (by omega)]
    by_cases last : first = month
    · subst last
      exact Nat.le_refl _
    · have inner := ih (by omega)
      omega

theorem daysInYear (year : Nat) : daysBeforeMonth year 13 = if isLeap year then 366 else 365 := by
  cases leap : isLeap year <;> simp [daysBeforeMonth, daysInMonth, leap, List.range, List.range.loop]

theorem isLeap_iff (year : Nat) : isLeap year = true ↔ 4 ∣ year ∧ (¬ 100 ∣ year ∨ 400 ∣ year) := by
  simp [isLeap, Nat.dvd_iff_mod_eq_zero]

theorem daysBeforeYear_succ {year : Nat} (positive : 1 ≤ year) :
    daysBeforeYear (year + 1) = daysBeforeYear year + daysBeforeMonth year 13 := by
  obtain ⟨before, rfl⟩ : ∃ before, year = before + 1 := ⟨year - 1, by omega⟩
  rw [daysInYear, daysBeforeYear, daysBeforeYear, Nat.add_sub_cancel, Nat.add_sub_cancel, Nat.succ_div, Nat.succ_div, Nat.succ_div]
  have centuries : before / 100 ≤ before / 4 := Nat.div_le_div_left (by decide) (by decide)
  -- A fourth century is a century, and a century is a fourth year.
  have fourth : 400 ∣ before + 1 → 100 ∣ before + 1 := fun long => Nat.dvd_trans (by decide) long
  have century : 100 ∣ before + 1 → 4 ∣ before + 1 := fun long => Nat.dvd_trans (by decide) long
  have leap := isLeap_iff (before + 1)
  generalize before / 4 = fours at *
  generalize before / 100 = hundreds at *
  generalize before / 400 = cycles at *
  by_cases long : isLeap (before + 1) = true
  · have parts := leap.mp long
    rw [if_pos long, if_pos parts.1]
    split_ifs with second third
    · omega
    · omega
    · omega
    · omega
  · have parts := mt leap.mpr long
    rw [if_neg long]
    split_ifs with first second third second third
    · omega
    · omega
    · omega
    · omega
    · omega
    · omega
    · omega
    · omega

theorem year_before {first second : Nat} (positive : 1 ≤ first) (earlier : first < second) :
    daysBeforeYear first + daysBeforeMonth first 13 ≤ daysBeforeYear second := by
  induction second with
  | zero => exact absurd earlier (Nat.not_lt_zero _)
  | succ year ih =>
    rw [daysBeforeYear_succ (by omega)]
    by_cases last : first = year
    · subst last
      exact Nat.le_refl _
    · have inner := ih (by omega)
      omega

theorem mixed_lt {base high low high' low' : Nat} (small : low < base) (small' : low' < base) :
    high * base + low < high' * base + low' ↔ high < high' ∨ high = high' ∧ low < low' := by
  rcases Nat.lt_trichotomy high high' with less | rfl | more
  · have steps : (high + 1) * base ≤ high' * base := Nat.mul_le_mul_right base less
    rw [Nat.add_mul] at steps
    constructor
    · exact fun _ => .inl less
    · omega
  · simp
  · have steps : (high' + 1) * base ≤ high * base := Nat.mul_le_mul_right base more
    rw [Nat.add_mul] at steps
    constructor
    · omega
    · omega

theorem mixed_eq {base high low high' low' : Nat} (small : low < base) (small' : low' < base) :
    high * base + low = high' * base + low' ↔ high = high' ∧ low = low' := by
  have less : high * base + low < high' * base + low' ↔ high < high' ∨ high = high' ∧ low < low' := mixed_lt small small'
  have more : high' * base + low' < high * base + low ↔ high' < high ∨ high' = high ∧ low' < low := mixed_lt small' small
  constructor
  · omega
  · rintro ⟨rfl, rfl⟩
    rfl

namespace DateTime

variable (first second : DateTime)

def dateBefore : Prop :=
  first.year < second.year ∨ first.year = second.year ∧
    (first.month < second.month ∨ first.month = second.month ∧ first.day < second.day)

variable {first second}

theorem ordinal_lt_of_before (before : dateBefore first second) : first.ordinal < second.ordinal := by
  have left := first.date
  have right := second.date
  unfold ordinal
  rcases before with year | ⟨year, month | ⟨month, day⟩⟩
  · have earlier := year_before left.1 year
    have inside : daysBeforeMonth first.year first.month + first.day ≤ daysBeforeMonth first.year 13 := by
      have ends := month_before first.year left.2.2.1 (show first.month < 13 by omega)
      omega
    omega
  · have earlier := month_before first.year left.2.2.1 month
    rw [← year]
    omega
  · rw [← year, ← month]
    omega

theorem ordinal_lt_iff : first.ordinal < second.ordinal ↔ dateBefore first second := by
  constructor
  · intro less
    by_contra other
    by_cases later : dateBefore second first
    · have more := ordinal_lt_of_before later
      omega
    · -- Neither date is before the other, so they agree part by part.
      unfold dateBefore at other later
      have same : first.year = second.year ∧ first.month = second.month ∧ first.day = second.day := by omega
      unfold ordinal at less
      rw [same.1, same.2.1, same.2.2] at less
      omega
  · exact ordinal_lt_of_before

/-! ### The order of texts -/

theorem append_lt_append {front front' back back' : List Char} (same : front.length = front'.length) :
    front ++ back < front' ++ back' ↔ front < front' ∨ front = front' ∧ back < back' := by
  induction front generalizing front' with
  | nil =>
    cases front' with
    | nil => simp
    | cons c rest => cases same
  | cons c front ih =>
    cases front' with
    | nil => cases same
    | cons d front' =>
      have inner := ih (show front.length = front'.length by simpa using same)
      rw [List.cons_append, List.cons_append, List.cons_lt_cons_iff, List.cons_lt_cons_iff, inner]
      constructor
      · rintro (less | ⟨rfl, less | ⟨rfl, less⟩⟩)
        · exact .inl (.inl less)
        · exact .inl (.inr ⟨rfl, less⟩)
        · exact .inr ⟨rfl, less⟩
      · rintro ((less | ⟨rfl, less⟩) | ⟨equal, less⟩)
        · exact .inl less
        · exact .inr ⟨rfl, .inl less⟩
        · obtain ⟨rfl, rfl⟩ := List.cons.inj equal
          exact .inr ⟨rfl, .inr ⟨rfl, less⟩⟩

theorem length_padded (width n : Nat) : (padded width n).length = width := by
  induction width generalizing n with
  | zero => rfl
  | succ width ih => simp [padded, ih]

theorem digitChar_lt : ∀ d < 10, ∀ e < 10, (d.digitChar < e.digitChar ↔ d < e) ∧ (d.digitChar = e.digitChar ↔ d = e) := by
  decide

theorem padded_order {width n m : Nat} (small : n < 10 ^ width) (small' : m < 10 ^ width) :
    (padded width n < padded width m ↔ n < m) ∧ (padded width n = padded width m ↔ n = m) := by
  induction width generalizing n m with
  | zero =>
    obtain rfl : n = 0 := by simpa using small
    obtain rfl : m = 0 := by simpa using small'
    simp [padded]
  | succ width ih =>
    have high : n / 10 < 10 ^ width := by
      rw [Nat.pow_succ] at small
      omega
    have high' : m / 10 < 10 ^ width := by
      rw [Nat.pow_succ] at small'
      omega
    have inner := ih high high'
    have digit := digitChar_lt (n % 10) (Nat.mod_lt _ (by decide)) (m % 10) (Nat.mod_lt _ (by decide))
    have lengths : (padded width (n / 10)).length = (padded width (m / 10)).length := by
      rw [length_padded, length_padded]
    constructor
    · rw [padded, padded, append_lt_append lengths, inner.1, inner.2, List.cons_lt_cons_iff, digit.1]
      simp
      omega
    · rw [padded, padded]
      constructor
      · intro same
        obtain ⟨front, back⟩ := List.append_inj same lengths
        have tens := inner.2.mp front
        have ones := digit.2.mp (List.singleton_inj.mp back)
        omega
      · rintro rfl
        rfl

theorem field_order {width n m : Nat} {mark : Char} {back back' : List Char} (small : n < 10 ^ width) (small' : m < 10 ^ width) :
    (padded width n ++ mark :: back < padded width m ++ mark :: back' ↔ n < m ∨ n = m ∧ back < back') ∧
      (padded width n ++ mark :: back = padded width m ++ mark :: back' ↔ n = m ∧ back = back') := by
  have lengths : (padded width n).length = (padded width m).length := by rw [length_padded, length_padded]
  have order := padded_order small small'
  constructor
  · rw [append_lt_append lengths, order.1, order.2, List.cons_lt_cons_iff]
    simp
  · constructor
    · intro same
      obtain ⟨front, behind⟩ := List.append_inj same lengths
      exact ⟨order.2.mp front, (List.cons.inj behind).2⟩
    · rintro ⟨rfl, rfl⟩
      rfl

theorem daysInMonth_le (year month : Nat) : daysInMonth year month ≤ 31 := by
  rw [daysInMonth_eq]
  split_ifs <;> omega

theorem ordinal_eq_iff : first.ordinal = second.ordinal ↔ first.year = second.year ∧ first.month = second.month ∧ first.day = second.day := by
  have less : first.ordinal < second.ordinal ↔ dateBefore first second := ordinal_lt_iff
  have more : second.ordinal < first.ordinal ↔ dateBefore second first := ordinal_lt_iff
  unfold dateBefore at less more
  constructor
  · omega
  · rintro ⟨year, month, day⟩
    unfold ordinal
    rw [year, month, day]

theorem seconds_lt_iff : first.seconds < second.seconds ↔ first.ordinal < second.ordinal ∨ first.ordinal = second.ordinal ∧
    (first.hour < second.hour ∨ first.hour = second.hour ∧
      (first.minute < second.minute ∨ first.minute = second.minute ∧ first.second < second.second)) := by
  have hands := first.clock
  have hands' := second.clock
  unfold seconds
  rw [mixed_lt hands.2.2.1 hands'.2.2.1, mixed_lt hands.2.1 hands'.2.1, mixed_lt hands.1 hands'.1,
    mixed_eq hands.2.1 hands'.2.1, mixed_eq hands.1 hands'.1]
  simp only [and_or_left, or_assoc, and_assoc]

theorem clockText_lt_iff : first.clockText < second.clockText ↔ first.seconds < second.seconds := by
  have left := first.date
  have right := second.date
  have hands := first.clock
  have hands' := second.clock
  have short := daysInMonth_le first.year first.month
  have short' := daysInMonth_le second.year second.month
  unfold clockText
  rw [seconds_lt_iff, ordinal_lt_iff, ordinal_eq_iff, dateBefore, (field_order (by omega) (by omega)).1, (field_order (by omega) (by omega)).1,
    (field_order (by omega) (by omega)).1, (field_order (by omega) (by omega)).1, (field_order (by omega) (by omega)).1,
    (padded_order (by omega) (by omega)).1]
  simp only [and_or_left, or_assoc, and_assoc]

theorem length_clockText : first.clockText.length = 19 := by
  simp [clockText, length_padded]

theorem clockText_eq_iff : first.clockText = second.clockText ↔ first.seconds = second.seconds := by
  have less : first.clockText < second.clockText ↔ first.seconds < second.seconds := clockText_lt_iff
  have more : second.clockText < first.clockText ↔ second.seconds < first.seconds := clockText_lt_iff
  constructor
  · intro same
    rw [same] at less more
    have notLess := mt less.mpr (List.lt_irrefl _)
    have notMore := mt more.mpr (List.lt_irrefl _)
    omega
  · intro same
    have notLess : ¬ first.clockText < second.clockText := mt less.mp (by omega)
    have notMore : ¬ second.clockText < first.clockText := mt more.mp (by omega)
    exact List.le_antisymm notMore notLess

theorem offsetText_lt_mark (shift : Option Int) (digits : List Char) :
    offsetText shift < '.' :: digits ∧ ¬ '.' :: digits < offsetText shift := by
  cases shift with
  | none => exact ⟨List.nil_lt_cons _ _, List.not_lt_nil _⟩
  | some shift =>
    simp only [offsetText]
    split_ifs <;> simp [List.cons_lt_cons_iff]

theorem fraction_lt_iff {n m : Nat} {shift shift' : Option Int} (small : n < 1000000) (small' : m < 1000000) :
    fractionText n ++ offsetText shift < fractionText m ++ offsetText shift' ↔ n < m ∨ n = m ∧ offsetText shift < offsetText shift' := by
  unfold fractionText
  split_ifs with none none' none'
  · simp [none, none']
  · have before := (offsetText_lt_mark shift (padded 6 m ++ offsetText shift')).1
    simp only [List.nil_append, List.cons_append, before, true_iff]
    omega
  · have behind := (offsetText_lt_mark shift' (padded 6 n ++ offsetText shift)).2
    simp only [List.nil_append, List.cons_append, behind, false_iff]
    omega
  · have lengths : (padded 6 n).length = (padded 6 m).length := by rw [length_padded, length_padded]
    have order := padded_order (show n < 10 ^ 6 from small) (show m < 10 ^ 6 from small')
    rw [List.cons_append, List.cons_append, List.cons_lt_cons_iff, append_lt_append lengths, order.1, order.2]
    simp

theorem isoformat_lt_iff : first.isoformat < second.isoformat ↔
    first.wall < second.wall ∨ first.wall = second.wall ∧ offsetText first.offset < offsetText second.offset := by
  have hands := first.clock
  have hands' := second.clock
  have lengths : first.clockText.length = second.clockText.length := by rw [length_clockText, length_clockText]
  unfold isoformat wall
  rw [append_lt_append lengths, clockText_lt_iff, clockText_eq_iff, fraction_lt_iff hands.2.2.2 hands'.2.2.2,
    mixed_lt hands.2.2.2 hands'.2.2.2, mixed_eq hands.2.2.2 hands'.2.2.2]
  rw [or_assoc, and_or_left, and_assoc]

end DateTime

end HarnessMem.Library

/-! Reading a clock reading from its ISO text. -/

namespace HarnessMem.Library.DateTime

def readField (width : Nat) (text : List Char) : Option (Nat × List Char) :=
  if (text.take width).length = width ∧ (text.take width).all (·.isDigit) then
    some (Nat.ofDigitChars 10 (text.take width) 0, text.drop width)
  else none

def readMark (mark : Char) : List Char → Option (List Char)
  | c :: rest => if c = mark then some rest else none
  | [] => none

def readFraction : List Char → Option (Nat × List Char)
  | '.' :: rest => readField 6 rest
  | rest => some (0, rest)

def readOffsetSeconds : List Char → Option (Nat × List Char)
  | ':' :: rest => do
    let (seconds, rest) ← readField 2 rest
    let (fraction, rest) ← readFraction rest
    some (seconds * 1000000 + fraction, rest)
  | rest => some (0, rest)

def readOffset : List Char → Option (Option Int)
  | [] => some none
  | sign :: rest => do
    let (hours, rest) ← readField 2 rest
    let rest ← readMark ':' rest
    let (minutes, rest) ← readField 2 rest
    let (micros, rest) ← readOffsetSeconds rest
    let size := (hours * 60 + minutes) * 60000000 + micros
    if rest ≠ [] then none
    else if sign = '+' then some (some size)
    else if sign = '-' then some (some (-size))
    else none

def ofFields (year month day hour minute second microsecond : Nat) (offset : Option Int) : Option DateTime :=
  if date : 1 ≤ year ∧ year ≤ 9999 ∧ 1 ≤ month ∧ month ≤ 12 ∧ 1 ≤ day ∧ day ≤ daysInMonth year month then
    if clock : hour < 24 ∧ minute < 60 ∧ second < 60 ∧ microsecond < 1000000 then
      if zone : ∀ shift ∈ offset, shift.natAbs < 86400000000 then
        some ⟨year, month, day, hour, minute, second, microsecond, offset, date, clock, zone⟩
      else none
    else none
  else none

/-- `datetime.fromisoformat` on the texts that `isoformat` writes. -/
def fromisoformat (text : List Char) : Option DateTime := do
  let (year, rest) ← readField 4 text
  let rest ← readMark '-' rest
  let (month, rest) ← readField 2 rest
  let rest ← readMark '-' rest
  let (day, rest) ← readField 2 rest
  let rest ← readMark 'T' rest
  let (hour, rest) ← readField 2 rest
  let rest ← readMark ':' rest
  let (minute, rest) ← readField 2 rest
  let rest ← readMark ':' rest
  let (second, rest) ← readField 2 rest
  let (microsecond, rest) ← readFraction rest
  let offset ← readOffset rest
  ofFields year month day hour minute second microsecond offset

theorem readMark_cons (mark : Char) (rest : List Char) : readMark mark (mark :: rest) = some rest := if_pos rfl

theorem padded_digits (width n : Nat) : (padded width n).all (·.isDigit) = true := by
  induction width generalizing n with
  | zero => rfl
  | succ width ih =>
    have digit : ∀ d < 10, d.digitChar.isDigit = true := by decide
    unfold padded
    rw [List.all_append, ih, List.all_cons, digit _ (Nat.mod_lt n (by decide))]
    rfl

theorem ofDigitChars_padded (width : Nat) : ∀ {n : Nat}, n < 10 ^ width → Nat.ofDigitChars 10 (padded width n) 0 = n := by
  induction width with
  | zero =>
    intro n small
    exact (Nat.lt_one_iff.mp small).symm
  | succ width ih =>
    intro n small
    have front : n / 10 < 10 ^ width := by
      rw [Nat.pow_succ] at small
      omega
    unfold padded
    rw [Nat.ofDigitChars_append, ih front, Nat.ofDigitChars_cons_digitChar_of_lt_ten (Nat.mod_lt n (by decide)),
      Nat.ofDigitChars_nil]
    omega

theorem readField_padded {width n : Nat} (small : n < 10 ^ width) (rest : List Char) :
    readField width (padded width n ++ rest) = some (n, rest) := by
  have front : (padded width n ++ rest).take width = padded width n := by
    rw [List.take_append_of_le_length (length_padded width n).ge, List.take_of_length_le (length_padded width n).le]
  have back : (padded width n ++ rest).drop width = rest := by
    rw [List.drop_append_of_le_length (length_padded width n).ge, List.drop_of_length_le (length_padded width n).le,
      List.nil_append]
  unfold readField
  rw [front, back, if_pos ⟨length_padded width n, padded_digits width n⟩, ofDigitChars_padded width small]

theorem readFraction_plain {rest : List Char} (plain : rest.head? ≠ some '.') : readFraction rest = some (0, rest) := by
  unfold readFraction
  split
  · exact absurd rfl plain
  · rfl

theorem readFraction_fractionText {microseconds : Nat} (small : microseconds < 1000000) {rest : List Char}
    (plain : rest.head? ≠ some '.') : readFraction (fractionText microseconds ++ rest) = some (microseconds, rest) := by
  unfold fractionText
  split
  · next zero => rw [zero, List.nil_append, readFraction_plain plain]
  · exact readField_padded small rest

theorem offsetText_head (offset : Option Int) : (offsetText offset).head? ≠ some '.' := by
  cases offset with
  | none => decide
  | some shift =>
    unfold offsetText
    dsimp only
    rw [List.head?_cons]
    split <;> decide

theorem readOffset_offsetText {offset : Option Int} (zone : ∀ shift ∈ offset, shift.natAbs < 86400000000) :
    readOffset (offsetText offset) = some offset := by
  cases offset with
  | none => rfl
  | some shift =>
    have bound := zone shift rfl
    have hours := readField_padded (show shift.natAbs / 1000000 / 3600 < 10 ^ 2 by omega)
    have minutes := readField_padded (show shift.natAbs / 1000000 / 60 % 60 < 10 ^ 2 by omega)
    have seconds := readField_padded (show shift.natAbs / 1000000 % 60 < 10 ^ 2 by omega)
    have tail : readOffsetSeconds (if shift.natAbs % 60000000 = 0 then [] else
        ':' :: (padded 2 (shift.natAbs / 1000000 % 60) ++ fractionText (shift.natAbs % 1000000))) =
        some (shift.natAbs % 60000000, []) := by
      split
      · next even => rw [even]; rfl
      · have fraction := readFraction_fractionText (show shift.natAbs % 1000000 < 1000000 by omega)
          (show ([] : List Char).head? ≠ some '.' by decide)
        rw [List.append_nil] at fraction
        simp only [readOffsetSeconds, Option.bind_eq_bind, Option.bind_some, seconds, fraction]
        congr 2
        omega
    unfold offsetText readOffset
    simp only [Option.bind_eq_bind, Option.bind_some, readMark_cons, hours, minutes, tail]
    rw [if_neg (not_not.mpr rfl)]
    -- the parts make up the size of the offset, and the sign is its own
    by_cases negative : shift < 0
    · rw [if_pos negative, if_neg (by decide), if_pos rfl]
      congr 2
      omega
    · rw [if_neg negative, if_pos rfl]
      congr 2
      omega

/-- `datetime.fromisoformat` is the inverse of `isoformat`. -/
theorem readMark_bind {β : Type} (mark : Char) (rest : List Char) (next : List Char → Option β) :
    (readMark mark (mark :: rest) >>= next) = next rest := by
  rw [readMark_cons, Option.bind_eq_bind, Option.bind_some]

theorem readField_bind {β : Type} {width n : Nat} (small : n < 10 ^ width) (rest : List Char) (next : Nat × List Char → Option β) :
    (readField width (padded width n ++ rest) >>= next) = next (n, rest) := by
  rw [readField_padded small, Option.bind_eq_bind, Option.bind_some]

theorem fromisoformat_isoformat (time : DateTime) : fromisoformat time.isoformat = some time := by
  have date := time.date
  have clock := time.clock
  have days : time.day ≤ 31 := date.2.2.2.2.2.trans (daysInMonth_le _ _)
  have fraction := readFraction_fractionText clock.2.2.2 (offsetText_head time.offset)
  unfold fromisoformat isoformat clockText
  simp only [List.append_assoc, List.cons_append]
  rw [readField_bind (by omega)]
  dsimp only
  rw [readMark_bind, readField_bind (by omega)]
  dsimp only
  rw [readMark_bind, readField_bind (by omega)]
  dsimp only
  rw [readMark_bind, readField_bind (by omega)]
  dsimp only
  rw [readMark_bind, readField_bind (by omega)]
  dsimp only
  rw [readMark_bind, readField_bind (by omega), fraction, Option.bind_eq_bind, Option.bind_some]
  dsimp only
  rw [readOffset_offsetText time.zone, Option.bind_eq_bind, Option.bind_some]
  refine (dif_pos date).trans ?_
  rw [dif_pos clock, dif_pos time.zone]

/-! ### The characters of a written clock reading -/

section

variable {p : Char → Prop} (digits : ∀ c : Char, c.isDigit = true → p c) (marks : ∀ c ∈ ['-', ':', 'T', '.', '+'], p c)

include digits in
theorem padded_all (width n : Nat) : ∀ c ∈ padded width n, p c := fun c member =>
  digits c (List.all_eq_true.mp (padded_digits width n) c member)

include digits marks

theorem fractionText_all (microseconds : Nat) : ∀ c ∈ fractionText microseconds, p c := by
  unfold fractionText
  split
  · exact fun _ member => absurd member List.not_mem_nil
  · exact List.forall_mem_cons.mpr ⟨marks '.' (by decide), padded_all digits _ _⟩

theorem offsetText_all (offset : Option Int) : ∀ c ∈ offsetText offset, p c := by
  have colon := marks ':' (by decide)
  cases offset with
  | none => exact fun _ member => absurd member List.not_mem_nil
  | some shift =>
    have sign : p (if shift < 0 then '-' else '+') := by
      split
      · exact marks '-' (by decide)
      · exact marks '+' (by decide)
    have seconds : ∀ c ∈ (if shift.natAbs % 60000000 = 0 then [] else
        ':' :: (padded 2 (shift.natAbs / 1000000 % 60) ++ fractionText (shift.natAbs % 1000000))), p c := by
      split
      · exact fun _ member => absurd member List.not_mem_nil
      · exact List.forall_mem_cons.mpr ⟨colon, List.forall_mem_append.mpr
          ⟨padded_all digits _ _, fractionText_all digits marks _⟩⟩
    exact List.forall_mem_cons.mpr ⟨sign, List.forall_mem_append.mpr ⟨padded_all digits _ _, List.forall_mem_cons.mpr
      ⟨colon, List.forall_mem_append.mpr ⟨padded_all digits _ _, seconds⟩⟩⟩⟩

theorem isoformat_all (time : DateTime) : ∀ c ∈ time.isoformat, p c := by
  have colon := marks ':' (by decide)
  have field := padded_all digits
  have clock : ∀ c ∈ time.clockText, p c := by
    unfold clockText
    simp only [List.forall_mem_append, List.forall_mem_cons]
    exact ⟨field _ _, marks '-' (by decide), field _ _, marks '-' (by decide), field _ _, marks 'T' (by decide),
      field _ _, colon, field _ _, colon, field _ _⟩
  exact List.forall_mem_append.mpr ⟨clock, List.forall_mem_append.mpr
    ⟨fractionText_all digits marks _, offsetText_all digits marks _⟩⟩

end

theorem isoformat_ne_nil (time : DateTime) : time.isoformat ≠ [] := by
  intro nothing
  have lengths := congrArg List.length (List.append_eq_nil_iff.mp nothing).1
  rw [length_clockText] at lengths
  cases lengths

theorem isoformat_injective : Function.Injective isoformat := by
  intro first second same
  have back := fromisoformat_isoformat first
  rw [same, fromisoformat_isoformat second] at back
  exact (Option.some.inj back).symm

end HarnessMem.Library.DateTime
