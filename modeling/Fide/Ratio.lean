import Fide.Divisors
import Fide.Logarithm

/-! Ratios of counts, and their logarithms.

A count `n` is converted to `b * 2^n`, so the ratio of the counts `i ≤ j` is `2^-(j - i)` whatever
the width `b`. At a scale below about twice that exponent nothing is left of it. -/

namespace Fide.Kernel

open Words FixedPoint DynamicScale

/-! ### Quotients of converted counts -/

/-- A count whose number fits `int32_t` is a small one. -/
theorem few_of_fits {b n : Nat} (width : 4 ≤ b) (fits : b * 2 ^ n < 2 ^ 31) : n ≤ 28 := by
  by_contra many
  have power : 2 ^ 29 ≤ 2 ^ n := Nat.pow_le_pow_right (by decide) (by omega)
  have large : 4 * 2 ^ 29 ≤ b * 2 ^ n := Nat.mul_le_mul width power
  omega

theorem fits_of_part {b n m : Nat} (part : n ≤ m) (fits : b * 2 ^ m < 2 ^ 31) :
    b * 2 ^ n < 2 ^ 31 :=
  lt_of_le_of_lt (Nat.mul_le_mul_left b (Nat.pow_le_pow_right (by decide) part)) fits

theorem maxScale_natCast (p q : Nat) (first : p < 2 ^ 31) (second : q < 2 ^ 31) :
    maxScale (p : I32) (q : I32) = ((max p q : Nat) : I32) := by
  rw [maxScale, toInt_natCast p first, toInt_natCast q second]
  split
  · next less => rw [max_eq_right (by omega)]
  · next more => rw [max_eq_left (by omega)]

section Quotient

variable (target : Target) (b : I32) (i j q : Nat)
variable (positive : 0 < b.toNat) (part : i ≤ j) (scale : j ≤ q) (bounded : q ≤ 30)
variable (fits : b.toNat * 2 ^ j < 2 ^ 31)

include positive part scale bounded fits

theorem ratio_quotient :
    (target.shr64 (((scaled target b (i : I32)).signExtend 64 <<< 32) /
      (scaled target b (j : I32)).signExtend 64) (32 - (q : I32))).toNat = 2 ^ (q - (j - i)) := by
  have scaleNat : ((q : Nat) : I32).toNat = q := toNat_natCast q (by omega)
  have less : b.toNat * 2 ^ i ≤ b.toNat * 2 ^ j :=
    Nat.mul_le_mul_left _ (Nat.pow_le_pow_right (by decide) part)
  have top := scaled_of_fits target b i (by omega) (by omega)
  have bottom := scaled_of_fits target b j (by omega) (by omega)
  have cancel : b.toNat * 2 ^ i * 2 ^ q = 2 ^ (q - (j - i)) * (b.toNat * 2 ^ j) := by
    have exponents : i + q = q - (j - i) + j := by omega
    rw [mul_assoc, ← pow_add, exponents, pow_add]
    ring
  rw [quotient_toNat target _ _ _ (by omega) (by omega) (by omega), top, bottom, scaleNat, cancel,
    Nat.mul_div_cancel _ (by positivity)]

/-- The quotient is cut like the number `2^(q - (j - i))`. -/
theorem ratio_eq (p r : I32) (aligned : maxScale p r = (q : I32)) :
    (divide target ⟨scaled target b (i : I32), p⟩ ⟨scaled target b (j : I32), r⟩).result =
      ⟨(cutNumber q (2 ^ (q - (j - i))) : I32), (cutScale q (2 ^ (q - (j - i))) : I32)⟩ := by
  have quotient := ratio_quotient target b i j q positive part scale bounded fits
  have scaleInt : ((q : Nat) : I32).toInt = q := toInt_natCast q (by omega)
  have scaleNat : ((q : Nat) : I32).toNat = q := toNat_natCast q (by omega)
  have power : 2 ^ (q - (j - i)) ≤ 2 ^ 30 := Nat.pow_le_pow_right (by decide) (by omega)
  simp only [divide_eq, aligned]
  rw [rescale_eq_cut target _ _ (by omega) (by omega) (by omega), quotient, scaleNat]

end Quotient

/-! ### Logarithms of powers of two -/

/-- The logarithm of `2^k / 2^q` is exact where shifting the empty table entry leaves it empty. -/
theorem log_two_pow (target : Target) (k q : Nat) (low : 1 ≤ k) (high : k ≤ 30) (scale : q ≤ 30)
    (empty : target.shr64 0 (24 - (q : I32)) = 0) :
    (calcLog target ⟨((2 ^ k : Nat) : I32), (q : I32)⟩).number.toInt =
      ((k : Int) - q) * 2 ^ 24 := by
  have power : 2 ^ k ≤ 2 ^ 30 := Nat.pow_le_pow_right (by decide) high
  have value : ((2 ^ k : Nat) : I32).toNat = 2 ^ k := toNat_natCast _ (by omega)
  have positive : 0 < ((2 ^ k : Nat) : I32).toInt := by
    rw [toInt_natCast _ (by omega)]
    positivity
  have scaleNat : ((q : Nat) : I32).toNat = q := toNat_natCast q (by omega)
  have scaleInt : ((q : Nat) : I32).toInt = q := toInt_natCast q (by omega)
  have exponent := exponent_toInt ⟨((2 ^ k : Nat) : I32), (q : I32)⟩ positive
    (by change 0 ≤ ((q : Nat) : I32).toInt; omega) (by change ((q : Nat) : I32).toInt ≤ 31; omega)
  simp only [value, scaleNat, Nat.size_pow] at exponent
  have table : tableEntry target ((2 ^ k : Nat) : I32) = 0 := by
    rw [tableEntry_eq target _ positive, value, fractionEntry_two_pow target k low]
  have entry : logEntry (logIndex target ((2 ^ k : Nat) : I32)
      (countZero32 (((2 ^ k : Nat) : I32).signExtend 64))) = 0 := BitVec.eq_of_toNat_eq table
  have number := shiftedEntry_toInt (31 - (q : I32) -
    countZero32 (((2 ^ k : Nat) : I32).signExtend 64)) 0 0 (by omega) (by omega) (by decide)
  rw [exponent, show (0 : I64) >>> 0 = 0 from rfl, show ((0 : I64).toNat / 2 ^ 0 : Nat) = 0 from rfl]
    at number
  rw [calcLog, if_pos (leadingZero_of_pos _ positive)]
  simp only [entry, empty]
  rw [number]
  push_cast
  ring

/-- The logarithm of one at scale `q`: its table entry comes from a shift by the whole width. -/
theorem log_one (target : Target) (q : Nat) (scale : q ≤ 24) :
    ∃ fraction : Nat, fraction < 2 ^ q ∧ (tableEntry target 1 = 0 → fraction = 0) ∧
      (calcLog target ⟨1, (q : I32)⟩).number.toInt = -(q : Int) * 2 ^ 24 + fraction := by
  have scaleNat : ((q : Nat) : I32).toNat = q := toNat_natCast q (by omega)
  have scaleInt : ((q : Nat) : I32).toInt = q := toInt_natCast q (by omega)
  have log := calcLog_toInt target ⟨1, (q : I32)⟩ (show 0 < (1 : I32).toInt by decide)
    (by change 0 ≤ ((q : Nat) : I32).toInt; omega) (by change ((q : Nat) : I32).toInt ≤ 24; omega)
  have size : Nat.size (1 : I32).toNat = 1 := by decide
  refine ⟨tableEntry target 1 / 2 ^ (24 - q), ?_, ?_, ?_⟩
  · apply Nat.div_lt_of_lt_mul
    rw [← pow_add, Nat.sub_add_cancel scale]
    exact logEntry_lt _
  · intro none
    rw [none, Nat.zero_div]
  · rw [log, scaleNat, size]
    push_cast
    ring

/-! ### Logarithms of ratios -/

/-- The logarithm of `2^-d` computed with `q` fraction bits. -/
def ratioLog (target : Target) (q d : Nat) : I32 :=
  (calcLog target ⟨(cutNumber q (2 ^ (q - d)) : I32), (cutScale q (2 ^ (q - d)) : I32)⟩).number

theorem log_ratio (target : Target) (b : I32) (i j q : Nat) (positive : 0 < b.toNat)
    (part : i ≤ j) (scale : j ≤ q) (bounded : q ≤ 30) (fits : b.toNat * 2 ^ j < 2 ^ 31)
    (p r : I32) (aligned : maxScale p r = (q : I32)) :
    calcLog target (divide target ⟨scaled target b (i : I32), p⟩
      ⟨scaled target b (j : I32), r⟩).result = ⟨ratioLog target q (j - i), 8⟩ := by
  rw [ratio_eq target b i j q positive part scale bounded fits p r aligned, ratioLog,
    ← calcLog_q target]

/-- A ratio cut to nothing has logarithm zero. -/
theorem ratioLog_hidden (target : Target) (q d : Nat) (ratio : d ≤ q) (hidden : q + 1 < 2 * d) :
    ratioLog target q d = 0 := by
  have none : ((0 : Nat) : I32).toInt ≤ 0 := by decide
  rw [ratioLog, cutNumber_two_pow_hidden q d ratio hidden, calcLog_of_nonpos target _ none]

/-- Zero, or well below it. -/
def IsRatioLog (n : Int) : Prop := n = 0 ∨ (-2 ^ 28 ≤ n ∧ n ≤ -2 ^ 23)

section Visible

variable (target : Target) (q d : Nat)
variable (empty : ∀ s ≤ q, target.shr64 0 (24 - (s : I32)) = 0)
variable (low : 1 ≤ q) (bounded : q ≤ 30)

include empty low bounded

theorem ratioLog_one : ratioLog target q 0 = 0 := by
  apply BitVec.eq_of_toInt_eq
  rw [ratioLog, cutNumber_two_pow q 0 (by omega), cutScale_two_pow, Nat.sub_zero, Nat.sub_zero,
    min_eq_left (by omega), log_two_pow target q q low bounded bounded (empty q le_rfl), sub_self,
    zero_mul]
  rfl

/-- What is left of a ratio below one has the exponent of the ratio. Only a number cut down to its
leading bit gets a fraction, from the undefined shift. -/
theorem ratioLog_visible (less : 1 ≤ d) (visible : 2 * d ≤ q + 1) :
    ∃ fraction : Nat, fraction ≤ 2 ^ 15 ∧ (tableEntry target 1 = 0 → fraction = 0) ∧
      (ratioLog target q d).toInt = -(d : Int) * 2 ^ 24 + fraction := by
  have scale : min q (q - d + 1) = q - d + 1 := min_eq_right (by omega)
  rw [ratioLog, cutNumber_two_pow q d visible, cutScale_two_pow, scale]
  by_cases last : q - d - (d - 1) = 0
  · have exponent : q - d + 1 = d := by omega
    have few : 2 ^ d ≤ 2 ^ 15 := Nat.pow_le_pow_right (by decide) (by omega)
    obtain ⟨fraction, cut, none, log⟩ := log_one target d (by omega)
    rw [last, exponent]
    exact ⟨fraction, by omega, none, log⟩
  · refine ⟨0, by decide, fun _ => rfl, ?_⟩
    rw [log_two_pow target _ _ (by omega) (by omega) (by omega) (empty _ (by omega))]
    have exponent : ((q - d - (d - 1) : Nat) : Int) - ((q - d + 1 : Nat) : Int) = -d := by omega
    rw [exponent, Nat.cast_zero, add_zero]

theorem ratioLog_bounds (ratio : d ≤ q) : IsRatioLog (ratioLog target q d).toInt := by
  by_cases hidden : q + 1 < 2 * d
  · left
    rw [ratioLog_hidden target q d ratio hidden]
    rfl
  · by_cases one : d = 0
    · left
      rw [one, ratioLog_one target q empty low bounded]
      rfl
    · right
      obtain ⟨fraction, few, -, log⟩ :=
        ratioLog_visible target q d empty low bounded (by omega) (by omega)
      rw [log]
      omega

/-- The exponent of a ratio, as far as a bit of it is left at the scale. -/
def ratioExponent (q d : Nat) : Nat := if 2 * d ≤ q + 1 then d else 0

omit empty low bounded in
theorem ratioExponent_le : ratioExponent q d ≤ d := by
  rw [ratioExponent]
  split
  · exact le_rfl
  · exact Nat.zero_le d

/-- Where the shift by the whole width finds nothing in the table, the logarithm is the exponent. -/
theorem ratioLog_exponent (none : tableEntry target 1 = 0) (ratio : d ≤ q) :
    (ratioLog target q d).toInt = -(ratioExponent q d : Int) * 2 ^ 24 := by
  rw [ratioExponent]
  split
  · next visible =>
      by_cases one : d = 0
      · rw [one, ratioLog_one target q empty low bounded]
        rfl
      · obtain ⟨fraction, -, zero, log⟩ :=
          ratioLog_visible target q d empty low bounded (by omega) visible
        rw [log, zero none, Nat.cast_zero, add_zero]
  · next hidden =>
      rw [ratioLog_hidden target q d ratio (by omega)]
      rfl

end Visible

end Fide.Kernel
