import Fide.FixedPointValue

/-! Quotients of non-negative operands at one scale. -/

namespace Fide.FixedPoint

open Words DynamicScale

/-- The quotient with `q` fraction bits, rounded down. -/
def floorQuotient (n m q : I32) : Nat := n.toNat * 2 ^ q.toNat / m.toNat

section Operands

variable (target : Target) (first second : FixedPoint)
variable (same : first.q = second.q) (nonneg : 0 ≤ first.q.toInt) (scale : first.q.toInt ≤ 31)
variable (dividend : 0 ≤ first.number.toInt) (divisor : 0 < second.number.toInt)

include same nonneg scale dividend divisor

/-- `divide` rescales the rounded quotient. -/
theorem divide_rescales :
    ∃ sum : I64, sum.toNat = floorQuotient first.number second.number first.q ∧
      (divide target first second).result = rescale target sum first.q := by
  have scaleNat := toInt_eq_toNat first.q nonneg
  have numerator := toInt_eq_toNat first.number dividend
  have denominator := toInt_eq_toNat second.number divisor.le
  have numeratorBound := BitVec.toInt_lt (x := first.number)
  have denominatorBound := BitVec.toInt_lt (x := second.number)
  refine ⟨_, quotient_toNat target first.number second.number first.q (by omega) (by omega)
    (by omega), ?_⟩
  rw [divide_eq, ← same, maxScale_self]

theorem divide_cuts (small : floorQuotient first.number second.number first.q < 2 ^ 31) :
    (divide target first second).result =
      ⟨(cutNumber first.q.toNat (floorQuotient first.number second.number first.q) : I32),
        (cutScale first.q.toNat (floorQuotient first.number second.number first.q) : I32)⟩ := by
  obtain ⟨sum, quotient, result⟩ :=
    divide_rescales target first second same nonneg scale dividend divisor
  rw [result, rescale_eq_cut target sum first.q (by omega) nonneg (by omega), quotient]

/-- Below `2^31`, the quotient is rounded down at the scale the result reports, which is the bit
count of the quotient where that is smaller than `q`; it vanishes exactly when the bit count is at
most half of `q`. -/
theorem divide_rounds_down (small : floorQuotient first.number second.number first.q < 2 ^ 31) :
    let s := floorQuotient first.number second.number first.q
    let r := (divide target first second).result
    r.q.toInt = min first.q.toNat (Nat.size s) ∧
    r.number.toInt = first.number.toNat * 2 ^ r.q.toNat / second.number.toNat ∧
    0 ≤ (first.number.toInt : ℚ) / second.number.toInt - value r ∧
    (first.number.toInt : ℚ) / second.number.toInt - value r < 1 / 2 ^ r.q.toInt ∧
    (r.number = 0 ↔ 2 * Nat.size s ≤ first.q.toNat) := by
  intro s r
  have numerator := toInt_eq_toNat first.number dividend
  have denominator := toInt_eq_toNat second.number divisor.le
  have size : Nat.size s ≤ 31 := Nat.size_le.mpr small
  have scaleBound : cutScale first.q.toNat s ≤ Nat.size s := min_le_right _ _
  have less : cutNumber first.q.toNat s ≤ s := cutNumber_le _ _
  have result : r = ⟨(cutNumber first.q.toNat s : I32), (cutScale first.q.toNat s : I32)⟩ :=
    divide_cuts target first second same nonneg scale dividend divisor small
  have rounded : cutNumber first.q.toNat s =
      first.number.toNat * 2 ^ cutScale first.q.toNat s / second.number.toNat :=
    cutNumber_quotient first.number.toNat second.number.toNat first.q.toNat
  have scaleNat : r.q.toNat = cutScale first.q.toNat s := by
    rw [result]
    exact toNat_natCast _ (by omega)
  have scaleInt : r.q.toInt = cutScale first.q.toNat s := by
    rw [result]
    exact toInt_natCast _ (by omega)
  have number : r.number.toInt = cutNumber first.q.toNat s := by
    rw [result]
    exact toInt_natCast _ (by omega)
  have denotes : value r = cutNumber first.q.toNat s / 2 ^ cutScale first.q.toNat s := by
    rw [result, cut_value _ _ small]
  have bounds := quotient_bounds (K := ℚ) first.number.toNat second.number.toNat
    (cutScale first.q.toNat s) (by omega)
  rw [← rounded] at bounds
  refine ⟨?_, ?_, ?_, ?_, ?_⟩
  · rw [scaleInt]
    rfl
  · rw [number, scaleNat, rounded]
    push_cast
    rfl
  · rw [denotes, numerator, denominator, Int.cast_natCast, Int.cast_natCast]
    exact bounds.1
  · rw [denotes, numerator, denominator, scaleInt, zpow_natCast, Int.cast_natCast,
      Int.cast_natCast]
    exact bounds.2
  · rw [← cutNumber_eq_zero_iff, ← BitVec.toInt_inj, number]
    change ((cutNumber first.q.toNat s : Nat) : Int) = 0 ↔ _
    omega

/-- The scale is reduced until the quotient fits. -/
structure ReducesScale : Prop where
  scale : (divide target first second).result.q.toInt < first.q.toInt
  nonneg : 0 ≤ (divide target first second).result.number.toInt
  below : (divide target first second).result.number.toInt < 2 ^ 31
  close : |(first.number.toInt : ℚ) / second.number.toInt -
    value (divide target first second).result| < 1 / 2 ^ (divide target first second).result.q.toInt

/-- From `2^31` on the bit count is an error, which the comparison takes for 65 bits: the scale
stays and the number loses its high bits. -/
theorem large_quotient_never_reduced
    (large : 2 ^ 31 ≤ floorQuotient first.number second.number first.q) :
    ¬ ReducesScale target first second := by
  intro reduces
  obtain ⟨sum, quotient, result⟩ :=
    divide_rescales target first second same nonneg scale dividend divisor
  have less := reduces.scale
  rw [result, rescale_large target sum first.q (by omega) (by omega)] at less
  exact lt_irrefl _ less

end Operands

/-- Three halves over two halves. -/
theorem three_over_two_rounds :
    (divide masking ⟨3, 1⟩ ⟨2, 1⟩).result.q.toInt = 1 ∧
      (divide masking ⟨3, 1⟩ ⟨2, 1⟩).result.number.toInt = 3 := by
  have rounds := divide_rounds_down masking ⟨3, 1⟩ ⟨2, 1⟩ rfl (by decide) (by decide) (by decide)
    (by decide) (by decide)
  have scale : (divide masking ⟨3, 1⟩ ⟨2, 1⟩).result.q.toInt = 1 := rounds.1.trans (by decide)
  refine ⟨scale, rounds.2.1.trans ?_⟩
  rw [show (divide masking ⟨3, 1⟩ ⟨2, 1⟩).result.q = 1 from BitVec.eq_of_toInt_eq scale]
  decide

/-- `2^30` over one, each with one fraction bit. -/
theorem thirty_one_bits_not_reduced : ¬ ReducesScale masking ⟨2 ^ 30, 1⟩ ⟨1, 1⟩ :=
  large_quotient_never_reduced masking ⟨2 ^ 30, 1⟩ ⟨1, 1⟩ rfl (by decide) (by decide) (by decide)
    (by decide) (by decide)

theorem thirty_one_bits_turn_negative :
    ¬ ∀ (target : Target) (first second : FixedPoint), first.q = second.q →
      0 ≤ first.q.toInt → first.q.toInt ≤ 31 → 0 ≤ first.number.toInt →
      0 < second.number.toInt → 2 ^ 31 ≤ floorQuotient first.number second.number first.q →
      (first.number.toInt : ℚ) / second.number.toInt < 2 ^ 31 →
      ReducesScale target first second := by
  intro claim
  have quotient : ((2 ^ 30 : I32).toInt : ℚ) / (1 : I32).toInt < 2 ^ 31 := by
    rw [show (2 ^ 30 : I32).toInt = 2 ^ 30 by decide, show (1 : I32).toInt = 1 by decide]
    norm_num
  have nonneg := (claim masking ⟨2 ^ 30, 1⟩ ⟨1, 1⟩ rfl (by decide) (by decide) (by decide)
    (by decide) (by decide) quotient).nonneg
  exact absurd nonneg (by decide +kernel)

end Fide.FixedPoint
