import Fide.DynamicFix

/-! Where the fixed-point library and its prototype give the same results. -/

namespace Fide.DynamicFix

open Words FixedPoint

/-! ### Logarithms -/

theorem floor_shift (e t : Int) (k s : Nat) (scale : s ≤ k) :
    (e * 2 ^ k + t) / 2 ^ s = e * 2 ^ (k - s) + t / 2 ^ s := by
  have power : (2 : Int) ^ k = 2 ^ (k - s) * 2 ^ s := by
    rw [← pow_add, Nat.sub_add_cancel scale]
  rw [power, ← mul_assoc, add_comm, Int.add_mul_ediv_right _ _ (by positivity), add_comm]

/-- The prototype's: the integer part loses the same bits. -/
theorem shiftedSum_toInt (e : I32) (t : I64) (s : Nat) (low : -24 ≤ e.toInt)
    (high : e.toInt ≤ 30) (entry : t.toNat < 2 ^ 24) (scale : s ≤ 24) :
    ((((e <<< 24).signExtend 64 + t) >>> s).setWidth 32 : I32).toInt =
      e.toInt * 2 ^ (24 - s) + ((t.toNat / 2 ^ s : Nat) : Int) := by
  have part := integerPart_toInt e (by omega) high
  have sum : ((e <<< 24).signExtend 64 + t).toInt = e.toInt * 2 ^ 24 + t.toNat := by
    rw [BitVec.toInt_add, part, entry_toInt t entry]
    exact Int.bmod_eq_of_le (by omega) (by omega)
  have shifted : (((e <<< 24).signExtend 64 + t).sshiftRight s).toInt =
      e.toInt * 2 ^ (24 - s) + ((t.toNat / 2 ^ s : Nat) : Int) := by
    rw [BitVec.toInt_sshiftRight, sum, Int.shiftRight_eq_div_pow, Nat.cast_pow, Nat.cast_two,
      floor_shift _ _ 24 s scale, Int.natCast_div, Nat.cast_pow, Nat.cast_two]
  have large : (2 : Int) ^ (24 - s) ≤ 2 ^ 24 := pow_le_pow_right₀ (by decide) (by omega)
  have positive : (0 : Int) < 2 ^ (24 - s) := by positivity
  have less : t.toNat / 2 ^ s ≤ t.toNat := Nat.div_le_self _ _
  have fraction : (0 : Int) ≤ ((t.toNat / 2 ^ s : Nat) : Int) := Int.natCast_nonneg _
  have upper : e.toInt * 2 ^ (24 - s) ≤ 30 * 2 ^ (24 - s) :=
    mul_le_mul_of_nonneg_right high positive.le
  have lower : -24 * 2 ^ (24 - s) ≤ e.toInt * 2 ^ (24 - s) :=
    mul_le_mul_of_nonneg_right low positive.le
  rw [setWidth_ushiftRight 32 _ s (by omega), toInt_setWidth_of_fits _ (by omega) (by omega), shifted]

/-- Shifting the integer part as well matters unless there is nothing to shift. -/
theorem shifted_eq_iff (e : I32) (t : I64) (s : Nat) (low : -24 ≤ e.toInt) (high : e.toInt ≤ 30)
    (entry : t.toNat < 2 ^ 24) (scale : s ≤ 24) :
    (((e <<< 24).signExtend 64 + t) >>> s).setWidth 32 =
        (((e <<< 24).signExtend 64 + t >>> s).setWidth 32 : I32) ↔
      s = 0 ∨ e.toInt = 0 := by
  rw [← BitVec.toInt_inj, shiftedSum_toInt e t s low high entry scale,
    shiftedEntry_toInt e t s (by omega) high entry]
  constructor
  · intro same
    by_contra apart
    rw [not_or] at apart
    have factor : e.toInt * ((2 : Int) ^ (24 - s) - 2 ^ 24) = 0 := by linarith
    have smaller : (2 : Int) ^ (24 - s) < 2 ^ 24 := pow_lt_pow_right₀ (by decide) (by omega)
    rcases mul_eq_zero.mp factor with zero | equal
    · exact apart.2 zero
    · omega
  · intro cause
    rcases cause with rfl | zero
    · rfl
    · rw [zero]
      ring

/-- The number lies in the octave whose logarithm has integer part zero. -/
def InOctave (number : FixedPoint) : Prop :=
  2 ^ number.q.toNat ≤ number.number.toInt ∧ number.number.toInt < 2 ^ (number.q.toNat + 1)

/-- The logarithms agree: both are zero, no bit is shifted, or the integer part is zero. -/
def LogsAgree (number : FixedPoint) : Prop :=
  number.number.toInt ≤ 0 ∨ number.q.toInt = 24 ∨ InOctave number

theorem size_eq_succ_iff (n k : Nat) : Nat.size n = k + 1 ↔ 2 ^ k ≤ n ∧ n < 2 ^ (k + 1) := by
  constructor
  · intro size
    exact ⟨Nat.lt_size.mp (by omega), Nat.size_le.mp (by omega)⟩
  · intro bounds
    rcases bounds with ⟨reached, below⟩
    exact le_antisymm (Nat.size_le.mpr below) (Nat.lt_size.mpr reached)

theorem calcLog_agrees_iff (target : Target) (number : FixedPoint) (nonneg : 0 ≤ number.q.toInt)
    (bounded : number.q.toInt ≤ 24) :
    calcLog target number = FixedPoint.calcLog target number ↔ LogsAgree number := by
  rw [LogsAgree]
  by_cases nonpos : number.number.toInt ≤ 0
  · have stops := leadingZero_of_nonpos number.number nonpos
    rw [calcLog, FixedPoint.calcLog, countZero32_eq, if_neg stops, if_neg stops]
    simp [nonpos]
  · have positive : 0 < number.number.toInt := by omega
    have scale := toInt_eq_toNat number.q nonneg
    have value := toInt_eq_toNat number.number positive.le
    have bits := size_of_pos number.number positive
    have exponent := exponent_toInt number positive nonneg (by omega)
    have amount := tableShift_toNat number.q nonneg bounded
    have goes := leadingZero_of_pos number.number positive
    rw [calcLog, countZero32_eq, if_pos goes, calcLog_of_pos target number positive nonneg bounded,
      FixedPoint.mk.injEq, and_iff_left rfl, Target.shr64_in_range target _ _ (by omega), amount,
      shifted_eq_iff _ _ _ (by omega) (by omega) (logEntry_lt _) (by omega), exponent]
    have octave : InOctave number ↔ Nat.size number.number.toNat = number.q.toNat + 1 := by
      rw [size_eq_succ_iff, InOctave, value]
      norm_cast
    rw [octave]
    omega

/-! ### Quotients -/

theorem dividend_toInt (n : I32) : (n.signExtend 64 <<< 32).toInt = n.toInt * 2 ^ 32 := by
  have low := BitVec.le_toInt n
  have high := BitVec.toInt_lt (x := n)
  have power : (BitVec.twoPow 64 32).toInt = 2 ^ 32 := by decide
  rw [BitVec.shiftLeft_eq_mul_twoPow, BitVec.toInt_mul, power,
    BitVec.toInt_signExtend_of_le (by decide)]
  exact Int.bmod_eq_of_le (by omega) (by omega)

theorem divisor_toInt (m : I32) : (m.signExtend 64).toInt = m.toInt :=
  BitVec.toInt_signExtend_of_le (by decide)

theorem eq_of_mul_bounds (k x m : Int) (positive : 0 < m) (low : k * m ≤ x * m)
    (high : x * m < (k + 1) * m) : k = x := by
  have atMost : k ≤ x := le_of_mul_le_mul_right low positive
  have atLeast : x < k + 1 := lt_of_mul_lt_mul_right high positive.le
  omega

section Bounds

/- `K`, `F` and `P` are quotients given by their bounds: of `(2^32 - a) * p` and `a * 2^32` by `M`,
and of `-F` by `r`. -/
variable (a M p r K F P : Int) (positive : 0 < M) (bounded : M < 2 ^ 31) (fraction : 0 < r)
variable (split : p * r = 2 ^ 32)
variable (kLow : K * M ≤ (2 ^ 32 - a) * p) (kHigh : (2 ^ 32 - a) * p < (K + 1) * M)
variable (fLow : F * M ≤ a * 2 ^ 32) (fHigh : a * 2 ^ 32 < (F + 1) * M)
variable (pLow : P * r ≤ -F) (pHigh : -F < (P + 1) * r)

include positive fraction split fLow pHigh in
theorem neg_mul_lt : -P * M < a * p + M := by
  have scaled : r * (-P * M) < r * (a * p + M) := by
    calc r * (-P * M) = -P * r * M := by ring
      _ < (F + r) * M := mul_lt_mul_of_pos_right (by linarith) positive
      _ = F * M + r * M := by ring
      _ ≤ a * 2 ^ 32 + r * M := by linarith
      _ = r * (a * p + M) := by rw [← split]; ring
  exact lt_of_mul_lt_mul_left scaled fraction.le

include positive fraction split fHigh pLow in
theorem lt_neg_mul : a * p - M < -P * M := by
  have scaled : r * (a * p - M) < r * (-P * M) := by
    calc r * (a * p - M) = a * 2 ^ 32 - r * M := by rw [← split]; ring
      _ ≤ a * 2 ^ 32 - M := by
          have least : M ≤ r * M := le_mul_of_one_le_left positive.le fraction
          linarith
      _ < F * M := by linarith
      _ ≤ -P * r * M := mul_le_mul_of_nonneg_right (by linarith) positive.le
      _ = r * (-P * M) := by ring
  exact lt_of_mul_lt_mul_left scaled fraction.le

include positive bounded fraction split kLow kHigh fLow fHigh pLow pHigh in
/-- The bounds put `K - P` within less than `2^32` of `2^32 * p / M`. -/
theorem dvd_iff_of_bounds : 2 ^ 32 ∣ K - P ↔ M ∣ p := by
  constructor
  · intro multiple
    rcases multiple with ⟨j, difference⟩
    have upper := neg_mul_lt a M p r F P positive fraction split fLow pHigh
    have lower := lt_neg_mul a M p r F P positive fraction split fHigh pLow
    have sum : K * M + -P * M = 2 ^ 32 * (j * M) := by rw [← mul_assoc, ← difference]; ring
    have below : j * M < p + 1 := by linarith
    have above : p - 1 < j * M := by linarith
    exact ⟨j, by rw [mul_comm]; omega⟩
  · intro divides
    rcases divides with ⟨c, rfl⟩
    have whole : a * 2 ^ 32 = a * c * r * M := by rw [← split]; ring
    have exactK : K = (2 ^ 32 - a) * c := eq_of_mul_bounds _ _ M positive (by linarith) (by linarith)
    have exactF : F = a * c * r := eq_of_mul_bounds _ _ M positive (by linarith) (by linarith)
    have exactP : P = -(a * c) := eq_of_mul_bounds _ _ r fraction (by linarith) (by linarith)
    exact ⟨c, by rw [exactK, exactP]; ring⟩

end Bounds

/-- The 64-bit quotient as the library computes it, with `s` bits dropped. -/
def librarySum (n m : I32) (s : Nat) : I64 := ((n.signExtend 64 <<< 32) / m.signExtend 64) >>> s

/-- And as the prototype does. -/
def prototypeSum (n m : I32) (s : Nat) : I64 :=
  ((n.signExtend 64 <<< 32).sdiv (m.signExtend 64)).sshiftRight s

/-- The only quotient out of the range of `int64_t`. -/
def Overflows (n m : I32) : Prop := n.toInt = -2 ^ 31 ∧ m.toInt = -1

theorem overflows_iff (n m : I32) :
    Overflows n m ↔ n.signExtend 64 <<< 32 = BitVec.intMin 64 ∧ m.signExtend 64 = -1 := by
  rw [Overflows, ← BitVec.toInt_inj, ← BitVec.toInt_inj, dividend_toInt, divisor_toInt]
  change _ ↔ n.toInt * 2 ^ 32 = -2 ^ 63 ∧ m.toInt = -1
  omega

theorem quotient_defined (n m : I32) (divisor : m ≠ 0) (defined : ¬ Overflows n m) :
    quotient (n.signExtend 64 <<< 32) (m.signExtend 64) =
      some ((n.signExtend 64 <<< 32).sdiv (m.signExtend 64)) := by
  have nonzero : m.signExtend 64 ≠ 0 := by
    intro zero
    apply divisor
    have value := divisor_toInt m
    rw [zero] at value
    exact BitVec.eq_of_toInt_eq value.symm
  rw [quotient, if_neg]
  intro wild
  rcases wild with zero | overflow
  · exact nonzero zero
  · exact defined ((overflows_iff n m).mpr overflow)

theorem prototypeSum_toInt (n m : I32) (s : Nat) (defined : ¬ Overflows n m) :
    (prototypeSum n m s).toInt = (n.toInt * 2 ^ 32).tdiv m.toInt / 2 ^ s := by
  rw [overflows_iff, not_and_or] at defined
  rw [prototypeSum, BitVec.toInt_sshiftRight, BitVec.toInt_sdiv_of_ne_or_ne _ _ defined,
    dividend_toInt, divisor_toInt, Int.shiftRight_eq_div_pow, Nat.cast_pow, Nat.cast_two]

theorem toNat_of_neg (x : I64) (negative : x.toInt < 0) : (x.toNat : Int) = x.toInt + 2 ^ 64 := by
  have value := BitVec.toInt_eq_toNat_cond x
  split at value <;> omega

/-- As an unsigned number a negative divisor exceeds every dividend. -/
theorem librarySum_of_neg (n m : I32) (s : Nat) (negative : m.toInt < 0) : librarySum n m s = 0 := by
  have dividend := dividend_toInt n
  have divisor := toNat_of_neg (m.signExtend 64) (by rw [divisor_toInt]; exact negative)
  rw [divisor_toInt] at divisor
  have low := BitVec.le_toInt m
  have less : (n.signExtend 64 <<< 32).toNat < (m.signExtend 64).toNat := by
    by_cases sign : 0 ≤ n.toInt
    · have bound := BitVec.toInt_lt (x := n)
      have value := toInt_eq_toNat (n.signExtend 64 <<< 32) (by omega)
      omega
    · have value := toNat_of_neg (n.signExtend 64 <<< 32) (by omega)
      omega
  have quotient : (n.signExtend 64 <<< 32) / m.signExtend 64 = 0 :=
    BitVec.eq_of_toNat_eq (by rw [BitVec.toNat_udiv, Nat.div_eq_of_lt less]; rfl)
  rw [librarySum, quotient]
  exact BitVec.zero_ushiftRight

theorem sums_eq (n m : I32) (s : Nat) (dividend : 0 ≤ n.toInt) (divisor : 0 < m.toInt) :
    prototypeSum n m s = librarySum n m s := by
  have first : (n.signExtend 64 <<< 32).msb = false := by
    rw [BitVec.msb_eq_toInt, dividend_toInt]
    simpa using dividend
  have second : (m.signExtend 64).msb = false := by
    rw [BitVec.msb_eq_toInt, divisor_toInt]
    simpa using divisor.le
  have whole : (n.signExtend 64 <<< 32).sdiv (m.signExtend 64) =
      (n.signExtend 64 <<< 32) / m.signExtend 64 := by
    simp only [BitVec.sdiv_eq, first, second, BitVec.udiv_eq]
  have third : ((n.signExtend 64 <<< 32) / m.signExtend 64).msb = false := by
    rw [BitVec.msb_udiv, first, Bool.false_and]
  rw [prototypeSum, librarySum, whole, BitVec.sshiftRight_eq_of_msb_false third]

/-- When the two quotients lead to the same result at scale `q`: for operands that are not
negative, for zero, for a quotient of two negative numbers below one unit, and for a negative
number over a power of two within the scale. -/
def QuotientsAgree (n m : I32) (q : Nat) : Prop :=
  (0 ≤ n.toInt ∧ 0 < m.toInt) ∨ n.toInt = 0 ∨
    (n.toInt < 0 ∧ m.toInt < 0 ∧ -n.toInt * 2 ^ q < -m.toInt) ∨
    (n.toInt < 0 ∧ 0 < m.toInt ∧ m.toInt ∣ 2 ^ q)

/-- `quotient_toNat` over the integers. -/
theorem ediv_shift_ediv (x y : Int) (q w : Nat) (positive : 0 < y) (scale : q ≤ w) :
    x * 2 ^ w / y / 2 ^ (w - q) = x * 2 ^ q / y := by
  have power : (2 : Int) ^ w = 2 ^ q * 2 ^ (w - q) := by rw [← pow_add, Nat.add_sub_cancel' scale]
  rw [Int.ediv_ediv_of_nonneg positive.le, power, ← mul_assoc,
    Int.mul_ediv_mul_of_pos_left _ _ (by positivity)]

theorem rescale_eq_zero_iff (target : Target) (sum : I64) (q : I32) (nonneg : 0 ≤ q.toInt)
    (bounded : q.toInt ≤ 24)
    (fits : q.toNat = 0 → -2 ^ 31 ≤ sum.toInt ∧ sum.toInt < 2 ^ 31) :
    rescale target sum q = ⟨0, 0⟩ ↔ sum.toInt = 0 := by
  constructor
  · intro zero
    have none : sum = 0 := by
      apply eq_zero_of_rescale_zero target sum q (by omega) _ zero
      intro scale low
      have range := fits (by rw [scale]; rfl)
      have value := toInt_setWidth_of_fits sum range.1 range.2
      rw [low] at value
      exact BitVec.eq_of_toInt_eq value.symm
    rw [none]
    rfl
  · intro zero
    rw [show sum = 0 from BitVec.eq_of_toInt_eq zero]
    exact rescale_zero target q nonneg (by omega)

section NegativeDivisor

variable (target : Target) (n m q : I32) (nonneg : 0 ≤ q.toInt) (bounded : q.toInt ≤ 24)
variable (divisor : m.toInt < 0)

include nonneg bounded divisor

theorem both_negative_iff (defined : ¬ Overflows n m) (negative : n.toInt < 0) :
    rescale target (prototypeSum n m (32 - q.toNat)) q = ⟨0, 0⟩ ↔
      -n.toInt * 2 ^ q.toNat < -m.toInt := by
  have low := BitVec.le_toInt n
  have scale := toInt_eq_toNat q nonneg
  have ratio : (n.toInt * 2 ^ 32).tdiv m.toInt = -n.toInt * 2 ^ 32 / -m.toInt := by
    rw [← Int.tdiv_eq_ediv_of_nonneg (by omega), Int.neg_mul, Int.neg_tdiv_neg]
  have value := prototypeSum_toInt n m (32 - q.toNat) defined
  rw [ratio, ediv_shift_ediv _ _ _ _ (by omega) (by omega)] at value
  rw [rescale_eq_zero_iff target _ q nonneg bounded, value]
  · have power : (0 : Int) < 2 ^ q.toNat := by positivity
    constructor
    · intro none
      by_contra reached
      have one : 1 ≤ -n.toInt * 2 ^ q.toNat / -m.toInt := by
        rw [Int.le_ediv_iff_mul_le (by omega)]
        omega
      omega
    · exact Int.ediv_eq_zero_of_lt (by nlinarith)
  · intro unit
    rw [Overflows] at defined
    rw [value, unit, pow_zero, mul_one]
    refine ⟨?_, ?_⟩
    · have sign : 0 ≤ -n.toInt / -m.toInt := Int.ediv_nonneg (by omega) (by omega)
      omega
    · rw [Int.ediv_lt_iff_lt_mul (by omega)]
      omega

theorem positive_dividend_ne (positive : 0 < n.toInt) :
    rescale target (prototypeSum n m (32 - q.toNat)) q ≠ ⟨0, 0⟩ := by
  have high := BitVec.toInt_lt (x := n)
  have least := BitVec.le_toInt m
  have defined : ¬ Overflows n m := by
    rw [Overflows]
    omega
  have ratio : (n.toInt * 2 ^ 32).tdiv m.toInt = -(n.toInt * 2 ^ 32 / -m.toInt) := by
    rw [← Int.tdiv_eq_ediv_of_nonneg (by omega), Int.tdiv_neg, neg_neg]
  have value := prototypeSum_toInt n m (32 - q.toNat) defined
  rw [ratio] at value
  have large : 1 ≤ n.toInt * 2 ^ 32 / -m.toInt := by
    rw [Int.le_ediv_iff_mul_le (by omega)]
    omega
  have below : (prototypeSum n m (32 - q.toNat)).toInt < 0 := by
    rw [value]
    exact Int.ediv_neg_of_neg_of_pos (by omega) (by positivity)
  rw [ne_eq, rescale_eq_zero_iff target _ q nonneg bounded]
  · omega
  · intro unit
    refine ⟨?_, by omega⟩
    have most : n.toInt * 2 ^ 32 / -m.toInt ≤ n.toInt * 2 ^ 32 := Int.ediv_le_self _ (by omega)
    rw [value, unit, Int.le_ediv_iff_mul_le (by decide)]
    omega

/-- The division by a negative number: the library's quotient is zero. -/
theorem neg_divisor_iff (defined : ¬ Overflows n m) :
    rescale target (prototypeSum n m (32 - q.toNat)) q =
        rescale target (librarySum n m (32 - q.toNat)) q ↔
      n.toInt = 0 ∨ (n.toInt < 0 ∧ -n.toInt * 2 ^ q.toNat < -m.toInt) := by
  rw [librarySum_of_neg n m _ divisor, rescale_zero target q nonneg (by omega)]
  rcases lt_trichotomy n.toInt 0 with negative | zero | positive
  · rw [both_negative_iff target n m q nonneg bounded divisor defined negative,
      or_iff_right (by omega), and_iff_right negative]
  · have value := prototypeSum_toInt n m (32 - q.toNat) defined
    rw [zero, zero_mul, Int.zero_tdiv, Int.zero_ediv] at value
    rw [rescale_eq_zero_iff target _ q nonneg bounded (fun _ => by omega), value]
    simp [zero]
  · have apart := positive_dividend_ne target n m q nonneg bounded divisor positive
    exact iff_of_false apart (by omega)

end NegativeDivisor

theorem setWidth_eq_iff (x y : I64) :
    (x.setWidth 32 : I32) = y.setWidth 32 ↔ (2 : Int) ^ 32 ∣ y.toNat - x.toNat := by
  rw [← BitVec.toNat_inj, BitVec.toNat_setWidth, BitVec.toNat_setWidth]
  omega

section NegativeDividend

variable (n m q : I32) (dividend : n.toInt < 0) (divisor : 0 < m.toInt)

include dividend divisor

theorem prototypeSum_of_neg :
    (prototypeSum n m (32 - q.toNat)).toInt =
      -(-n.toInt * 2 ^ 32 / m.toInt) / 2 ^ (32 - q.toNat) := by
  have defined : ¬ Overflows n m := by
    unfold Overflows
    omega
  have ratio : (n.toInt * 2 ^ 32).tdiv m.toInt = -(-n.toInt * 2 ^ 32 / m.toInt) := by
    rw [← Int.tdiv_eq_ediv_of_nonneg (by omega), Int.neg_mul, Int.neg_tdiv, neg_neg]
  rw [prototypeSum_toInt n m _ defined, ratio]

theorem prototypeSum_neg : (prototypeSum n m (32 - q.toNat)).toInt < 0 := by
  have most := BitVec.toInt_lt (x := m)
  have large : 1 ≤ -n.toInt * 2 ^ 32 / m.toInt := by
    rw [Int.le_ediv_iff_mul_le divisor]
    omega
  rw [prototypeSum_of_neg n m q dividend divisor]
  exact Int.ediv_neg_of_neg_of_pos (by omega) (by positivity)

variable (nonneg : 0 ≤ q.toInt) (bounded : q.toInt ≤ 24)

include nonneg bounded

theorem librarySum_toNat : ((librarySum n m (32 - q.toNat)).toNat : Int) =
    (2 ^ 32 - -n.toInt) * 2 ^ q.toNat / m.toInt := by
  have scale := toInt_eq_toNat q nonneg
  have numerator := toNat_of_neg (n.signExtend 64 <<< 32) (by rw [dividend_toInt]; omega)
  have denominator := (toInt_eq_toNat (m.signExtend 64) (by rw [divisor_toInt]; omega)).symm
  rw [dividend_toInt] at numerator
  rw [divisor_toInt] at denominator
  rw [librarySum, BitVec.toNat_ushiftRight, BitVec.toNat_udiv, Nat.shiftRight_eq_div_pow]
  push_cast
  rw [numerator, denominator, show n.toInt * 2 ^ 32 + 2 ^ 64 = (2 ^ 32 - -n.toInt) * 2 ^ 32 by ring]
  exact ediv_shift_ediv _ _ _ _ divisor (by omega)

theorem library_keeps (target : Target) :
    rescale target (librarySum n m (32 - q.toNat)) q =
      ⟨(librarySum n m (32 - q.toNat)).setWidth 32, q⟩ := by
  have scale := toInt_eq_toNat q nonneg
  have value := librarySum_toNat n m q dividend divisor nonneg bounded
  have low := BitVec.le_toInt n
  have most := BitVec.toInt_lt (x := m)
  have power : (0 : Int) < 2 ^ q.toNat := by positivity
  have long : (2 : Int) ^ q.toNat ≤ (librarySum n m (32 - q.toNat)).toNat := by
    rw [value, Int.le_ediv_iff_mul_le divisor, mul_comm]
    exact mul_le_mul_of_nonneg_right (by omega) power.le
  by_cases small : (librarySum n m (32 - q.toNat)).toNat < 2 ^ 31
  · have size : q.toNat < Nat.size (librarySum n m (32 - q.toNat)).toNat :=
      Nat.lt_size.mpr (by exact_mod_cast long)
    exact rescale_keeps target _ q small (by omega)
  · exact rescale_large target _ q (by omega) (by omega)

/-- The division of a negative by a positive number: both results keep every bit, and the bits
agree exactly when the division has no remainder. -/
theorem neg_dividend_iff (target : Target) :
    rescale target (prototypeSum n m (32 - q.toNat)) q =
        rescale target (librarySum n m (32 - q.toNat)) q ↔ m.toInt ∣ 2 ^ q.toNat := by
  have scale := toInt_eq_toNat q nonneg
  have library := librarySum_toNat n m q dividend divisor nonneg bounded
  have prototype := prototypeSum_of_neg n m q dividend divisor
  have negative := prototypeSum_neg n m q dividend divisor
  have unsigned := toNat_of_neg _ negative
  have bound := BitVec.le_toInt (prototypeSum n m (32 - q.toNat))
  rw [library_keeps n m q dividend divisor nonneg bounded target,
    rescale_large target (prototypeSum n m (32 - q.toNat)) q (by omega) (by omega),
    FixedPoint.mk.injEq, and_iff_left rfl, setWidth_eq_iff, unsigned,
    ← dvd_iff_of_bounds (-n.toInt) m.toInt (2 ^ q.toNat) (2 ^ (32 - q.toNat))
      (librarySum n m (32 - q.toNat)).toNat (-n.toInt * 2 ^ 32 / m.toInt)
      (prototypeSum n m (32 - q.toNat)).toInt divisor (BitVec.toInt_lt (x := m)) (by positivity)
      (by rw [← pow_add, Nat.add_sub_cancel' (by omega)])]
  · omega
  · rw [library]
    exact Int.ediv_mul_le _ divisor.ne'
  · rw [library]
    exact Int.lt_ediv_add_one_mul_self _ divisor
  · exact Int.ediv_mul_le _ divisor.ne'
  · exact Int.lt_ediv_add_one_mul_self _ divisor
  · rw [prototype]
    exact Int.ediv_mul_le _ (by positivity)
  · rw [prototype]
    exact Int.lt_ediv_add_one_mul_self _ (by positivity)

end NegativeDividend

theorem not_agree_of_overflow (n m : I32) (q : Nat) (overflow : Overflows n m) :
    ¬ QuotientsAgree n m q := by
  obtain ⟨least, minus⟩ := overflow
  have power : (0 : Int) < 2 ^ q := by positivity
  intro agree
  rcases agree with ⟨left, -⟩ | zero | ⟨-, -, below⟩ | ⟨-, right, -⟩
  · omega
  · omega
  · rw [least, minus] at below
    omega
  · omega

theorem rescaled_agree_iff (target : Target) (n m q : I32) (nonneg : 0 ≤ q.toInt)
    (bounded : q.toInt ≤ 24) (divisor : m ≠ 0) (defined : ¬ Overflows n m) :
    rescale target (prototypeSum n m (32 - q.toNat)) q =
        rescale target (librarySum n m (32 - q.toNat)) q ↔ QuotientsAgree n m q.toNat := by
  have nonzero : m.toInt ≠ 0 := fun zero => divisor (BitVec.eq_of_toInt_eq zero)
  unfold QuotientsAgree
  rcases nonzero.lt_or_gt with negative | positive
  · rw [neg_divisor_iff target n m q nonneg bounded negative defined]
    constructor
    · intro same
      rcases same with zero | ⟨sign, below⟩
      · exact .inr (.inl zero)
      · exact .inr (.inr (.inl ⟨sign, negative, below⟩))
    · intro agree
      rcases agree with ⟨-, sign⟩ | zero | ⟨sign, -, below⟩ | ⟨-, sign, -⟩
      · omega
      · exact .inl zero
      · exact .inr ⟨sign, below⟩
      · omega
  · rcases lt_or_ge n.toInt 0 with sign | sign
    · rw [neg_dividend_iff n m q sign positive nonneg bounded target]
      constructor
      · intro divides
        exact .inr (.inr (.inr ⟨sign, positive, divides⟩))
      · intro agree
        rcases agree with ⟨contrary, -⟩ | zero | ⟨-, contrary, -⟩ | ⟨-, -, divides⟩
        · omega
        · omega
        · omega
        · exact divides
    · rw [sums_eq n m _ sign positive]
      exact iff_of_true rfl (.inl ⟨sign, positive⟩)

/-- The two divisions agree, operands included, on exactly these numbers. -/
theorem divide_agrees_iff (target : Target) (first second : FixedPoint)
    (nonneg : 0 ≤ (maxScale first.q second.q).toInt)
    (bounded : (maxScale first.q second.q).toInt ≤ 24) (divisor : second.number ≠ 0) :
    divide target first second = some (FixedPoint.divide target first second) ↔
      QuotientsAgree first.number second.number (maxScale first.q second.q).toNat := by
  simp only [divide, fit_eq, checkBit_agrees, checkBit_eq, FixedPoint.divide_eq]
  generalize maxScale first.q second.q = q at nonneg bounded ⊢
  have scale := toInt_eq_toNat q nonneg
  have amount : (32 - q).toNat = 32 - q.toNat :=
    BitVec.toNat_sub_of_le (by rw [BitVec.le_def]; change q.toNat ≤ 32; omega)
  by_cases overflow : Overflows first.number second.number
  · rw [quotient, if_pos (.inr ((overflows_iff _ _).mp overflow)), Option.map_none]
    exact iff_of_false (by simp) (not_agree_of_overflow _ _ _ overflow)
  · rw [quotient_defined _ _ divisor overflow, Option.map_some,
      Target.sar64_in_range target _ _ (by omega), Target.shr64_in_range target _ _ (by omega),
      amount, Option.some.injEq, Operation.mk.injEq, and_iff_left ⟨rfl, rfl⟩]
    exact rescaled_agree_iff target _ _ q nonneg bounded divisor overflow

/-! ### The whole library -/

/-- Same results and same operands left behind, from every function the two files share. -/
structure Agree (target : Target) (first second : FixedPoint) : Prop where
  add : add target first second = FixedPoint.add target first second
  subtract : subtract target first second = FixedPoint.subtract target first second
  divide : divide target first second = some (FixedPoint.divide target first second)
  calcLog : calcLog target first = FixedPoint.calcLog target first
  absVal : absVal first = FixedPoint.absVal first

/-- The scales the claim of agreement is about. -/
def ScaleInRange (number : FixedPoint) : Prop := 0 ≤ number.q.toInt ∧ number.q.toInt ≤ 24

/-- The library agrees with its prototype exactly on the operands whose quotients agree and whose
logarithm does; sums, differences and absolute values always do. -/
theorem library_agrees_iff (target : Target) (first second : FixedPoint)
    (firstScale : ScaleInRange first) (secondScale : ScaleInRange second)
    (divisor : second.number ≠ 0) :
    Agree target first second ↔
      QuotientsAgree first.number second.number (maxScale first.q second.q).toNat ∧
        LogsAgree first := by
  have scale : 0 ≤ (maxScale first.q second.q).toInt ∧ (maxScale first.q second.q).toInt ≤ 24 :=
    maxScale_of (motive := fun q => 0 ≤ q.toInt ∧ q.toInt ≤ 24) _ _ firstScale secondScale
  have quotients := divide_agrees_iff target first second scale.1 scale.2 divisor
  have logs := calcLog_agrees_iff target first firstScale.1 firstScale.2
  constructor
  · intro agree
    exact ⟨quotients.mp agree.divide, logs.mp agree.calcLog⟩
  · intro agree
    rcases agree with ⟨quotient, log⟩
    exact ⟨add_agrees target first second, subtract_agrees target first second,
      quotients.mpr quotient, logs.mpr log, absVal_agrees first⟩

/-- Three halves over one. -/
theorem three_halves_agrees : Agree masking ⟨3, 1⟩ ⟨1, 0⟩ := by
  have scales : ScaleInRange ⟨3, 1⟩ ∧ ScaleInRange ⟨1, 0⟩ := by
    unfold ScaleInRange
    decide
  refine (library_agrees_iff masking ⟨3, 1⟩ ⟨1, 0⟩ scales.1 scales.2 (by decide)).mpr ⟨?_, ?_⟩
  · exact .inl (by decide)
  · refine .inr (.inr ?_)
    unfold InOctave
    decide

/-- The logarithm of three at scale 16: the prototype shifts its integer part as well. -/
theorem log_of_three_disagrees :
    ¬ ∀ (target : Target) (first second : FixedPoint), ScaleInRange first → ScaleInRange second →
      second.number ≠ 0 → Agree target first second := by
  intro claim
  have scales : ScaleInRange ⟨196608, 16⟩ ∧ ScaleInRange ⟨65536, 16⟩ := by
    unfold ScaleInRange
    decide
  have agree := (claim masking ⟨196608, 16⟩ ⟨65536, 16⟩ scales.1 scales.2 (by decide)).calcLog
  have library : (FixedPoint.calcLog masking ⟨196608, 16⟩).number = 16815552 := by decide +kernel
  have prototype : (calcLog masking ⟨196608, 16⟩).number = 103872 := by decide +kernel
  rw [agree, library] at prototype
  exact absurd prototype (by decide)

end Fide.DynamicFix
