import Fide.FixedPointSpec

/-! The logarithm of one value at two scales.

The integer part does not depend on the scale. The table entry of the fraction is cut to as many
bits as the argument has fraction bits, so it is the same at two scales only where it is cut to
nothing at both. -/

namespace Fide.FixedPoint

open Words DynamicScale

/-! ### The table index -/

/-- The eight bits below the leading one of a number, from the top of its shifted word. Nothing is
below the one bit of `1`, and its shift is by the whole width. -/
def fractionIndex (target : Target) (n : Nat) : Nat :=
  if n = 1 then (target.shl32 1 32).toNat / 2 ^ 24
  else n * 2 ^ 8 / 2 ^ (Nat.size n - 1) % 2 ^ 8

/-- The table entry of a number. -/
def fractionEntry (target : Target) (n : Nat) : Nat :=
  logTable.getD (fractionIndex target n) 0

theorem topByte_toNat (x : I32) : ((x.sshiftRight 24).setWidth 8 : BitVec 8).toNat =
    x.toNat / 2 ^ 24 := by
  have bound := x.isLt
  rw [← setWidth_ushiftRight 8 x 24 (by decide), BitVec.toNat_setWidth, BitVec.toNat_ushiftRight,
    Nat.shiftRight_eq_div_pow]
  exact Nat.mod_eq_of_lt (by omega)

/-- A number shifted to the top of its word, its leading one shifted out. -/
theorem shifted_top (n : Nat) (low : 2 ≤ n) (high : Nat.size n ≤ 31) :
    n * 2 ^ (33 - Nat.size n) % 2 ^ 32 / 2 ^ 24 = n * 2 ^ 8 / 2 ^ (Nat.size n - 1) % 2 ^ 8 := by
  have two : 2 ≤ Nat.size n := Nat.lt_size.mpr low
  have split : 2 ^ 32 = 2 ^ 24 * 2 ^ 8 := by norm_num
  have top : n * 2 ^ (33 - Nat.size n) / 2 ^ 24 = n * 2 ^ 8 / 2 ^ (Nat.size n - 1) := by
    have right : n * 2 ^ 8 / 2 ^ (Nat.size n - 1) =
        n * 2 ^ 8 * 2 ^ (33 - Nat.size n) / (2 ^ (Nat.size n - 1) * 2 ^ (33 - Nat.size n)) :=
      (Nat.mul_div_mul_right _ _ (by positivity)).symm
    have left : n * 2 ^ (33 - Nat.size n) / 2 ^ 24 =
        n * 2 ^ (33 - Nat.size n) * 2 ^ 8 / (2 ^ 24 * 2 ^ 8) :=
      (Nat.mul_div_mul_right _ _ (by positivity)).symm
    rw [left, right, ← pow_add, ← pow_add, mul_right_comm]
    congr 2
    omega
  rw [split, Nat.mod_mul_right_div_self, top]

theorem tableEntry_eq (target : Target) (number : I32) (positive : 0 < number.toInt) :
    tableEntry target number = fractionEntry target number.toNat := by
  have bits := size_of_pos number positive
  have small : number.toNat < 2 ^ 31 := Nat.size_le.mp bits.2
  have value := toInt_eq_toNat number positive.le
  have zeros : countZero32 (number.signExtend 64) + 1 =
      ((33 - Nat.size number.toNat : Nat) : I32) := by
    have wide := toNat_signExtend_of_small number small
    rw [countZero32_of_small _ (by omega), wide, Nat.cast_sub (by omega)]
    change (32 : I32) - _ + 1 = 33 - _
    ring
  have index : (logIndex target number (countZero32 (number.signExtend 64))).toNat =
      fractionIndex target number.toNat := by
    rw [logIndex, topByte_toNat, zeros, fractionIndex]
    split
    · next one =>
        rw [one, show number = 1 from BitVec.eq_of_toNat_eq one]
        rfl
    · next more =>
        have two : 2 ≤ number.toNat := by omega
        have size : 2 ≤ Nat.size number.toNat := Nat.lt_size.mpr two
        have amount : ((33 - Nat.size number.toNat : Nat) : I32).toNat = 33 - Nat.size number.toNat :=
          toNat_natCast _ (by omega)
        rw [Target.shl32_in_range target _ _ (by omega), amount, BitVec.toNat_shiftLeft,
          Nat.shiftLeft_eq, shifted_top number.toNat two bits.2]
  rw [tableEntry, logEntry_toNat, index, fractionEntry]

/-! ### One value at two scales -/

theorem size_mul_two_pow (n k : Nat) (positive : 0 < n) :
    Nat.size (n * 2 ^ k) = Nat.size n + k := by
  rw [← Nat.shiftLeft_eq, Nat.size_shiftLeft positive.ne']

/-- Shifting a number does not change the bits below its leading one. -/
theorem fractionEntry_mul (target : Target) (n k : Nat) (low : 2 ≤ n) :
    fractionEntry target (n * 2 ^ k) = fractionEntry target n := by
  have power : 1 ≤ 2 ^ k := Nat.one_le_two_pow
  have product : 2 ≤ n * 2 ^ k := Nat.le_mul_of_pos_right n power |>.trans' low
  have size : 2 ≤ Nat.size n := Nat.lt_size.mpr low
  have scale : Nat.size n + k - 1 = Nat.size n - 1 + k := by omega
  rw [fractionEntry, fractionEntry, fractionIndex, fractionIndex, if_neg (by omega),
    if_neg (by omega), size_mul_two_pow n k (by omega), scale, pow_add, mul_right_comm,
    Nat.mul_div_mul_right _ _ (by positivity)]

theorem fractionEntry_two_pow (target : Target) (k : Nat) (low : 1 ≤ k) :
    fractionEntry target (2 ^ k) = 0 := by
  have two : 2 ^ 1 ≤ 2 ^ k := Nat.pow_le_pow_right (by decide) low
  have index : fractionIndex target (2 ^ k) = 0 := by
    rw [fractionIndex, if_neg (by omega), Nat.size_pow, Nat.add_sub_cancel, mul_comm,
      Nat.mul_div_cancel _ (by positivity), Nat.mod_self]
  rw [fractionEntry, index]
  rfl

theorem shifts_agree_iff (t a b : Nat) (less : b < a) : t / 2 ^ a = t / 2 ^ b ↔ t < 2 ^ b := by
  constructor
  · intro same
    by_contra reached
    have positive : 0 < t / 2 ^ b := Nat.div_pos (by omega) (by positivity)
    have again : t / 2 ^ a = t / 2 ^ b / 2 ^ (a - b) := by
      rw [Nat.div_div_eq_div_mul, ← pow_add, Nat.add_sub_cancel' less.le]
    have power : 2 ^ 1 ≤ 2 ^ (a - b) := Nat.pow_le_pow_right (by decide) (by omega)
    have smaller : t / 2 ^ b / 2 ^ (a - b) < t / 2 ^ b := Nat.div_lt_self positive (by omega)
    omega
  · intro below
    have power : 2 ^ b ≤ 2 ^ a := Nat.pow_le_pow_right (by decide) less.le
    rw [Nat.div_eq_of_lt below, Nat.div_eq_of_lt (by omega)]

/-- The fractions of one value at the scales `p < q` agree where both are cut to nothing. -/
theorem fractions_agree_iff (target : Target) (n p q : Nat) (positive : 0 < n) (less : p < q)
    (bounded : q ≤ 24) :
    fractionEntry target n / 2 ^ (24 - p) =
        fractionEntry target (n * 2 ^ (q - p)) / 2 ^ (24 - q) ↔
      fractionEntry target n < 2 ^ (24 - p) ∧
        fractionEntry target (n * 2 ^ (q - p)) < 2 ^ (24 - q) := by
  have scales : 2 ^ (24 - q) ≤ 2 ^ (24 - p) := Nat.pow_le_pow_right (by decide) (by omega)
  by_cases one : n = 1
  · have zero : fractionEntry target (n * 2 ^ (q - p)) = 0 := by
      rw [one, one_mul]
      exact fractionEntry_two_pow target _ (by omega)
    rw [zero, Nat.zero_div, Nat.div_eq_zero_iff_lt (by positivity), and_iff_left (by positivity)]
  · rw [fractionEntry_mul target n (q - p) (by omega), shifts_agree_iff _ _ _ (by omega)]
    omega

section Arguments

variable (target : Target) (x y : FixedPoint)
variable (xPos : 0 < x.number.toInt) (yPos : 0 < y.number.toInt)
variable (xScale : 0 ≤ x.q.toInt) (xBound : x.q.toInt ≤ 24)
variable (yScale : 0 ≤ y.q.toInt) (yBound : y.q.toInt ≤ 24)
variable (same : x.number.toInt * 2 ^ y.q.toNat = y.number.toInt * 2 ^ x.q.toNat)

include xPos yPos xScale xBound yScale yBound same

/-- Equal values have equal integer parts, so the logarithms differ by their fractions. -/
theorem calcLog_eq_iff :
    calcLog target x = calcLog target y ↔
      fractionEntry target x.number.toNat / 2 ^ (24 - x.q.toNat) =
        fractionEntry target y.number.toNat / 2 ^ (24 - y.q.toNat) := by
  have xNat := toInt_eq_toNat x.number xPos.le
  have yNat := toInt_eq_toNat y.number yPos.le
  have equal : x.number.toNat * 2 ^ y.q.toNat = y.number.toNat * 2 ^ x.q.toNat := by
    rw [xNat, yNat] at same
    exact_mod_cast same
  have sizes : Nat.size x.number.toNat + y.q.toNat = Nat.size y.number.toNat + x.q.toNat := by
    rw [← size_mul_two_pow _ _ (by omega), equal, size_mul_two_pow _ _ (by omega)]
  have xLog := calcLog_toInt target x xPos xScale xBound
  have yLog := calcLog_toInt target y yPos yScale yBound
  rw [tableEntry_eq target x.number xPos] at xLog
  rw [tableEntry_eq target y.number yPos] at yLog
  have numbers : calcLog target x = calcLog target y ↔
      (calcLog target x).number.toInt = (calcLog target y).number.toInt := by
    rw [BitVec.toInt_inj]
    constructor
    · intro logs
      rw [logs]
    · intro number
      exact congrArg₂ FixedPoint.mk number ((calcLog_q target x).trans (calcLog_q target y).symm)
  have exponent : (Nat.size x.number.toNat : Int) - 1 - x.q.toNat =
      Nat.size y.number.toNat - 1 - y.q.toNat := by omega
  rw [numbers, xLog, yLog, exponent]
  omega

theorem calcLog_eq_iff_of_less (less : x.q.toNat < y.q.toNat) :
    calcLog target x = calcLog target y ↔
      fractionEntry target x.number.toNat < 2 ^ (24 - x.q.toNat) ∧
        fractionEntry target y.number.toNat < 2 ^ (24 - y.q.toNat) := by
  have xNat := toInt_eq_toNat x.number xPos.le
  have yNat := toInt_eq_toNat y.number yPos.le
  have scale := toInt_eq_toNat y.q yScale
  have shifted : y.number.toNat = x.number.toNat * 2 ^ (y.q.toNat - x.q.toNat) := by
    have equal : x.number.toNat * 2 ^ y.q.toNat = y.number.toNat * 2 ^ x.q.toNat := by
      rw [xNat, yNat] at same
      exact_mod_cast same
    have power : 2 ^ y.q.toNat = 2 ^ (y.q.toNat - x.q.toNat) * 2 ^ x.q.toNat := by
      rw [← pow_add, Nat.sub_add_cancel less.le]
    rw [power, ← mul_assoc] at equal
    exact (Nat.eq_of_mul_eq_mul_right (by positivity) equal).symm
  rw [calcLog_eq_iff target x y xPos yPos xScale xBound yScale yBound same, shifted]
  exact fractions_agree_iff target _ _ _ (by omega) less (by omega)

/-- The logarithm of a value does not depend on its scale exactly where the scales are the same
or the fraction is cut to nothing at both. -/
theorem log_depends_on_value_iff :
    calcLog target x = calcLog target y ↔
      x.q = y.q ∨ (fractionEntry target x.number.toNat < 2 ^ (24 - x.q.toNat) ∧
        fractionEntry target y.number.toNat < 2 ^ (24 - y.q.toNat)) := by
  have scales : x.q = y.q ↔ x.q.toNat = y.q.toNat := BitVec.toNat_inj.symm
  rcases lt_trichotomy x.q.toNat y.q.toNat with less | equal | more
  · rw [calcLog_eq_iff_of_less target x y xPos yPos xScale xBound yScale yBound same less,
      or_iff_right (by rw [scales]; omega)]
  · have numbers : x.number.toInt = y.number.toInt := by
      rw [equal] at same
      exact mul_right_cancel₀ (by positivity) same
    have argument : x = y :=
      congrArg₂ FixedPoint.mk (BitVec.eq_of_toInt_eq numbers) (scales.mpr equal)
    exact iff_of_true (by rw [argument]) (.inl (scales.mpr equal))
  · rw [eq_comm, calcLog_eq_iff_of_less target y x yPos xPos yScale yBound xScale xBound same.symm
      more, or_iff_right (by rw [scales]; omega), and_comm]

end Arguments

/-- Four at two scales: nothing follows its leading bit. -/
theorem four_has_one_logarithm : calcLog masking ⟨4, 0⟩ = calcLog masking ⟨8, 1⟩ :=
  (log_depends_on_value_iff masking ⟨4, 0⟩ ⟨8, 1⟩ (by decide) (by decide) (by decide) (by decide)
    (by decide) (by decide) (by decide)).mpr (.inr (by decide +kernel))

/-- Three at the scales zero and one. -/
theorem three_has_two_logarithms :
    ¬ ∀ (target : Target) (x y : FixedPoint), 0 < x.number.toInt → 0 < y.number.toInt →
      0 ≤ x.q.toInt → x.q.toInt ≤ 24 → 0 ≤ y.q.toInt → y.q.toInt ≤ 24 →
      x.number.toInt * 2 ^ y.q.toNat = y.number.toInt * 2 ^ x.q.toNat →
      calcLog target x = calcLog target y := by
  intro claim
  have same := claim masking ⟨3, 0⟩ ⟨6, 1⟩ (by decide) (by decide) (by decide) (by decide)
    (by decide) (by decide) (by decide)
  exact absurd same (by decide +kernel)

end Fide.FixedPoint
