import Fide.FixedPointSpec

/-! What a fixed-point value denotes, and what aligning, adding and subtracting make of it. -/

namespace Fide.FixedPoint

open Words DynamicScale

/-- `number / 2^q`. -/
def value (x : FixedPoint) : ℚ := x.number.toInt / 2 ^ x.q.toInt

theorem value_natCast (n q : Nat) (number : n < 2 ^ 31) (scale : q < 2 ^ 31) :
    value ⟨(n : I32), (q : I32)⟩ = n / 2 ^ q := by
  rw [value, toInt_natCast n number, toInt_natCast q scale, zpow_natCast, Int.cast_natCast]

/-- Another scale is another value, except for zero. -/
theorem value_eq_iff (n p q : I32) : value ⟨n, p⟩ = value ⟨n, q⟩ ↔ n = 0 ∨ p = q := by
  rw [value, value]
  constructor
  · intro same
    by_cases zero : n = 0
    · exact .inl zero
    · right
      have nonzero : (n.toInt : ℚ) ≠ 0 := by
        rw [Int.cast_ne_zero]
        intro none
        exact zero (BitVec.eq_of_toInt_eq none)
      rw [div_eq_mul_inv, div_eq_mul_inv] at same
      have powers : (2 : ℚ) ^ p.toInt = 2 ^ q.toInt := inv_injective (mul_left_cancel₀ nonzero same)
      exact BitVec.eq_of_toInt_eq (zpow_right_injective₀ (by norm_num) (by norm_num) powers)
  · intro cause
    rcases cause with rfl | rfl
    · rw [show (0 : I32).toInt = 0 from rfl, Int.cast_zero, zero_div, zero_div]
    · rfl

/-! ### Alignment -/

/-- Two operands denote after a call what they denoted before. -/
structure KeepsValues (first second first' second' : FixedPoint) : Prop where
  first : value first' = value first
  second : value second' = value second

/-- `check_bit` leaves both operands at the larger scale with their values, and so does every
operation that starts with it. -/
structure Aligns (target : Target) (first second : FixedPoint) : Prop where
  firstScale : (checkBit target first second).1.q.toInt = max first.q.toInt second.q.toInt
  secondScale : (checkBit target first second).2.q.toInt = max first.q.toInt second.q.toInt
  checkBit : KeepsValues first second (checkBit target first second).1
    (checkBit target first second).2
  add : KeepsValues first second (add target first second).first (add target first second).second
  subtract : KeepsValues first second (subtract target first second).first
    (subtract target first second).second
  divide : KeepsValues first second (divide target first second).first
    (divide target first second).second

theorem maxScale_toInt (p q : I32) : (maxScale p q).toInt = max p.toInt q.toInt := by
  rw [maxScale]
  split <;> omega

/-- The operand of the smaller scale is zero, or there is none. -/
def SmallerIsZero (first second : FixedPoint) : Prop :=
  (first.q.toInt < second.q.toInt → first.number = 0) ∧
    (second.q.toInt < first.q.toInt → second.number = 0)

theorem keepsValues_iff (first second : FixedPoint) :
    KeepsValues first second ⟨first.number, maxScale first.q second.q⟩
        ⟨second.number, maxScale first.q second.q⟩ ↔ SmallerIsZero first second := by
  have top := maxScale_toInt first.q second.q
  have firstScale : maxScale first.q second.q = first.q ↔ second.q.toInt ≤ first.q.toInt := by
    rw [← BitVec.toInt_inj, top]
    omega
  have secondScale : maxScale first.q second.q = second.q ↔ first.q.toInt ≤ second.q.toInt := by
    rw [← BitVec.toInt_inj, top]
    omega
  have firstKept := value_eq_iff first.number (maxScale first.q second.q) first.q
  have secondKept := value_eq_iff second.number (maxScale first.q second.q) second.q
  rw [firstScale] at firstKept
  rw [secondScale] at secondKept
  constructor
  · intro keeps
    have one := firstKept.mp keeps.first
    have two := secondKept.mp keeps.second
    refine ⟨?_, ?_⟩
    · intro less
      exact one.resolve_right (by omega)
    · intro less
      exact two.resolve_right (by omega)
  · intro zero
    refine ⟨firstKept.mpr ?_, secondKept.mpr ?_⟩
    · by_cases less : first.q.toInt < second.q.toInt
      · exact .inl (zero.1 less)
      · exact .inr (by omega)
    · by_cases less : second.q.toInt < first.q.toInt
      · exact .inl (zero.2 less)
      · exact .inr (by omega)

/-- Aligning keeps the values only where there is nothing to shift. -/
theorem alignment_keeps_values_iff (target : Target) (first second : FixedPoint) :
    Aligns target first second ↔ SmallerIsZero first second := by
  have keeps := keepsValues_iff first second
  have top := maxScale_toInt first.q second.q
  constructor
  · intro aligns
    have aligned := aligns.checkBit
    rw [checkBit_eq] at aligned
    exact keeps.mp aligned
  · intro zero
    have kept := keeps.mpr zero
    refine ⟨?_, ?_, ?_, ?_, ?_, ?_⟩
    · rw [checkBit_eq, top]
    · rw [checkBit_eq, top]
    · rw [checkBit_eq]
      exact kept
    · rw [add_eq]
      exact kept
    · rw [subtract_eq]
      exact kept
    · rw [divide_eq]
      exact kept

/-- One half and one: the second operand is left as one half. -/
theorem aligning_halves_one :
    ¬ ∀ (target : Target) (first second : FixedPoint),
      0 ≤ first.q.toInt → first.q.toInt ≤ 31 → 0 ≤ second.q.toInt → second.q.toInt ≤ 31 →
      (first.q.toInt < second.q.toInt →
        -2 ^ 31 ≤ first.number.toInt * 2 ^ (second.q.toInt - first.q.toInt).toNat ∧
          first.number.toInt * 2 ^ (second.q.toInt - first.q.toInt).toNat < 2 ^ 31) →
      (second.q.toInt < first.q.toInt →
        -2 ^ 31 ≤ second.number.toInt * 2 ^ (first.q.toInt - second.q.toInt).toNat ∧
          second.number.toInt * 2 ^ (first.q.toInt - second.q.toInt).toNat < 2 ^ 31) →
      Aligns target first second := by
  intro claim
  have aligns := claim masking ⟨1, 1⟩ ⟨1, 0⟩ (by decide) (by decide) (by decide) (by decide)
    (by decide) (by decide)
  have moved := (value_eq_iff 1 1 0).mp aligns.checkBit.second
  exact absurd moved (by decide)

/-! ### Sums -/

/-- The bits the tail drops of a sum are zero. Sums that are not positive keep every bit. -/
def CutExact (q : Nat) (sum : Int) : Prop :=
  sum ≤ 0 ∨ 2 ^ (q - Nat.size sum.toNat) ∣ sum.toNat

theorem signExtend_of_neg (n : I32) (negative : n.toInt < 0) : 2 ^ 31 ≤ (n.signExtend 64).toNat := by
  have value := BitVec.toInt_eq_toNat_cond n
  have wide := toNat_le_signExtend n
  split at value <;> omega

/-- Negative sums keep number and scale. -/
theorem rescale_of_neg (target : Target) (n q : I32) (negative : n.toInt < 0)
    (scale : q.toInt ≤ 31) : rescale target (n.signExtend 64) q = ⟨n, q⟩ := by
  rw [rescale_large target _ q (signExtend_of_neg n negative) (by omega), setWidth_signExtend]

theorem rescale_of_nonneg (target : Target) (n q : I32) (number : 0 ≤ n.toInt)
    (nonneg : 0 ≤ q.toInt) (scale : q.toInt ≤ 31) :
    rescale target (n.signExtend 64) q =
      ⟨(cutNumber q.toNat n.toNat : I32), (cutScale q.toNat n.toNat : I32)⟩ := by
  have value := toInt_eq_toNat n number
  have bound := BitVec.toInt_lt (x := n)
  have wide := toNat_signExtend_of_small n (by omega)
  rw [rescale_eq_cut target _ q (by omega) nonneg (by omega), wide]

theorem cut_value (q n : Nat) (number : n < 2 ^ 31) :
    value ⟨(cutNumber q n : I32), (cutScale q n : I32)⟩ = cutNumber q n / 2 ^ cutScale q n := by
  have less := cutNumber_le q n
  have size : Nat.size n ≤ 31 := Nat.size_le.mpr number
  have scale : cutScale q n ≤ Nat.size n := min_le_right _ _
  exact value_natCast _ _ (by omega) (by omega)

/-- The tail keeps the value of a sum when the bits it drops are zero. -/
theorem rescale_value_iff (target : Target) (n q : I32) (nonneg : 0 ≤ q.toInt)
    (scale : q.toInt ≤ 31) :
    value (rescale target (n.signExtend 64) q) = value ⟨n, q⟩ ↔ CutExact q.toNat n.toInt := by
  have scaleNat := toInt_eq_toNat q nonneg
  by_cases negative : n.toInt < 0
  · rw [rescale_of_neg target n q negative scale]
    exact iff_of_true rfl (.inl negative.le)
  · have number := toInt_eq_toNat n (by omega)
    have bound := BitVec.toInt_lt (x := n)
    have exact := cut_exact_iff (K := ℚ) q.toNat n.toNat
    have zero : n.toInt ≤ 0 → 2 ^ (q.toNat - Nat.size n.toNat) ∣ n.toNat := by
      intro nonpos
      rw [show n.toNat = 0 by omega]
      exact dvd_zero _
    have original : value ⟨n, q⟩ = n.toNat / 2 ^ q.toNat := by
      rw [value, number, scaleNat, zpow_natCast, Int.cast_natCast]
    rw [rescale_of_nonneg target n q (by omega) nonneg scale, cut_value _ _ (by omega), original,
      exact, CutExact, number, Int.toNat_natCast]
    constructor
    · exact .inr
    · intro cause
      rcases cause with none | divides
      · exact zero (by omega)
      · exact divides

/-- In the range of `int32_t`. -/
def Fits (n : Int) : Prop := -2 ^ 31 ≤ n ∧ n < 2 ^ 31

theorem toInt_add_of_fits (x y : I32) (fits : Fits (x.toInt + y.toInt)) :
    (x + y).toInt = x.toInt + y.toInt := by
  obtain ⟨low, high⟩ := fits
  rw [BitVec.toInt_add]
  exact Int.bmod_eq_of_le (by omega) (by omega)

theorem value_add (x y q : I32) (fits : Fits (x.toInt + y.toInt)) :
    value ⟨x + y, q⟩ = value ⟨x, q⟩ + value ⟨y, q⟩ := by
  rw [value, value, value, toInt_add_of_fits x y fits, Int.cast_add, add_div]

theorem value_sub (x y q : I32) (fits : Fits (x.toInt - y.toInt)) :
    value ⟨x - y, q⟩ = value ⟨x, q⟩ - value ⟨y, q⟩ := by
  rw [value, value, value, toInt_sub_of_fits x y fits.1 fits.2, Int.cast_sub, sub_div]

theorem maxScale_self (q : I32) : maxScale q q = q := by
  rw [maxScale, if_neg (by omega)]

/-- Sums and differences in range are exact when the bits dropped from them are zero. -/
theorem in_range_sums_exact_iff (target : Target) (first second : FixedPoint)
    (same : first.q = second.q) (nonneg : 0 ≤ first.q.toInt) (scale : first.q.toInt ≤ 31) :
    (Fits (first.number.toInt + second.number.toInt) →
      (value (add target first second).result = value first + value second ↔
        CutExact first.q.toNat (first.number.toInt + second.number.toInt))) ∧
    (Fits (first.number.toInt - second.number.toInt) →
      (value (subtract target first second).result = value first - value second ↔
        CutExact first.q.toNat (first.number.toInt - second.number.toInt))) := by
  have right : second = ⟨second.number, first.q⟩ := by rw [same]
  constructor
  · intro fits
    have sum : value first + value second = value ⟨first.number + second.number, first.q⟩ := by
      rw [value_add _ _ _ fits, ← right]
    have exact := rescale_value_iff target (first.number + second.number) first.q nonneg scale
    rw [toInt_add_of_fits _ _ fits] at exact
    rw [add_eq, ← same, maxScale_self, sum]
    exact exact
  · intro fits
    have difference : value first - value second =
        value ⟨first.number - second.number, first.q⟩ := by
      rw [value_sub _ _ _ fits, ← right]
    have exact := rescale_value_iff target (first.number - second.number) first.q nonneg scale
    rw [toInt_sub_of_fits _ _ fits.1 fits.2] at exact
    rw [subtract_eq, ← same, maxScale_self, difference]
    exact exact

/-- One half and one half. -/
theorem halves_add_up :
    value (add masking ⟨1, 1⟩ ⟨1, 1⟩).result = value ⟨1, 1⟩ + value ⟨1, 1⟩ ∧
      value (subtract masking ⟨1, 1⟩ ⟨1, 1⟩).result = value ⟨1, 1⟩ - value ⟨1, 1⟩ := by
  have exact := in_range_sums_exact_iff masking ⟨1, 1⟩ ⟨1, 1⟩ rfl (by decide) (by decide)
  refine ⟨(exact.1 ⟨by decide, by decide⟩).mpr ?_, (exact.2 ⟨by decide, by decide⟩).mpr ?_⟩
  · exact .inr (by decide)
  · exact .inl (by decide)

/-- A quarter and nothing: the sum has one bit, so one fraction bit is kept, and it is zero. -/
theorem quarter_is_lost :
    ¬ ∀ (target : Target) (first second : FixedPoint), first.q = second.q →
      0 ≤ first.q.toInt → first.q.toInt ≤ 31 →
      (Fits (first.number.toInt + second.number.toInt) →
        value (add target first second).result = value first + value second) ∧
      (Fits (first.number.toInt - second.number.toInt) →
        value (subtract target first second).result = value first - value second) := by
  intro claim
  have exact := (claim masking ⟨1, 2⟩ ⟨0, 2⟩ rfl (by decide) (by decide)).1
    ⟨by decide, by decide⟩
  have result : (add masking ⟨1, 2⟩ ⟨0, 2⟩).result = ⟨0, 1⟩ := by decide +kernel
  have numbers : (0 : I32).toInt = 0 ∧ (1 : I32).toInt = 1 ∧ (2 : I32).toInt = 2 := by decide
  rw [result, value, value, value, numbers.1, numbers.2.1, numbers.2.2] at exact
  norm_num at exact

/-! ### Overflow -/

/-- The sum is given with fewer fraction bits instead of overflowing. -/
structure AbsorbsOverflow (target : Target) (first second : FixedPoint) : Prop where
  nonneg : 0 ≤ (add target first second).result.number.toInt
  below : (add target first second).result.number.toInt < 2 ^ 31
  scale : (add target first second).result.q.toInt ≤ first.q.toInt
  close : |value (add target first second).result - (value first + value second)| <
    1 / 2 ^ (first.q.toInt - 1)

/-- The sum is formed in 32 bits, so one from `2^31` on is negative before the bit count sees
it. -/
theorem overflow_never_absorbed (target : Target) (first second : FixedPoint)
    (same : first.q = second.q) (scale : first.q.toInt ≤ 31)
    (left : 0 ≤ first.number.toInt) (right : 0 ≤ second.number.toInt)
    (large : 2 ^ 31 ≤ first.number.toInt + second.number.toInt) :
    ¬ AbsorbsOverflow target first second := by
  intro absorbs
  have leftBound := BitVec.toInt_lt (x := first.number)
  have rightBound := BitVec.toInt_lt (x := second.number)
  have wrapped : (first.number + second.number).toInt =
      first.number.toInt + second.number.toInt - 2 ^ 32 := by
    rw [BitVec.toInt_add, Int.bmod_def]
    split <;> omega
  have negative : (first.number + second.number).toInt < 0 := by omega
  have result : (add target first second).result = ⟨first.number + second.number, first.q⟩ := by
    rw [add_eq, ← same, maxScale_self]
    exact rescale_of_neg target _ _ negative scale
  have nonneg := absorbs.nonneg
  rw [result] at nonneg
  exact absurd nonneg (by change ¬ 0 ≤ (first.number + second.number).toInt; omega)

/-- Twice `2^30` halves. -/
theorem two_to_thirty_overflows : ¬ AbsorbsOverflow masking ⟨2 ^ 30, 1⟩ ⟨2 ^ 30, 1⟩ :=
  overflow_never_absorbed masking ⟨2 ^ 30, 1⟩ ⟨2 ^ 30, 1⟩ rfl (by decide) (by decide) (by decide)
    (by decide)

theorem overflow_turns_negative :
    ¬ ∀ (target : Target) (first second : FixedPoint), first.q = second.q →
      1 ≤ first.q.toInt → first.q.toInt ≤ 31 → 0 ≤ first.number.toInt →
      0 ≤ second.number.toInt → 2 ^ 31 ≤ first.number.toInt + second.number.toInt →
      AbsorbsOverflow target first second := by
  intro claim
  have nonneg := (claim masking ⟨2 ^ 30, 1⟩ ⟨2 ^ 30, 1⟩ rfl (by decide) (by decide) (by decide)
    (by decide) (by decide)).nonneg
  exact absurd nonneg (by decide +kernel)

end Fide.FixedPoint
