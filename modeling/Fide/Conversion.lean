import Fide.FixedPointValue
import Fide.Kernel

/-! What the counts of the program are converted to.

The callers pass the quantity first and the scale second; `to_fixed_point` takes them the other
way round. -/

namespace Fide.Kernel

open Words FixedPoint

/-- The quantities converted in `calc_entropy`, and the number of entries in the rollover. -/
def converted (tmp : DataValue) (value : LoggerValue) (count : I32) : List I32 :=
  [value.cur, value.prev, tmp.prevIntervalPkt, 1, 10, count]

/-- `to_fixed_point(n, b)` denotes `n`, and the amount it shifts by is within the width. -/
structure Converts (target : Target) (n b : I32) : Prop where
  denotes : value (toFixedPoint target n b) = n.toInt
  shift : 0 ≤ n.toInt ∧ n.toInt < 32

theorem toFixedPoint_number (target : Target) (n b : I32) (low : 0 ≤ n.toInt)
    (high : n.toInt < 32) :
    (toFixedPoint target n b).number.toInt = (b.toInt * 2 ^ n.toNat).bmod (2 ^ 32) := by
  have amount := toInt_eq_toNat n low
  have power : (1 : I32) <<< n.toNat = BitVec.twoPow 32 n.toNat := by
    rw [BitVec.shiftLeft_eq_mul_twoPow, one_mul]
  have shifted : (BitVec.twoPow 32 n.toNat).toInt = ((2 : Int) ^ n.toNat).bmod (2 ^ 32) := by
    rw [BitVec.toInt_eq_toNat_bmod, BitVec.toNat_twoPow, Int.natCast_mod, Int.emod_bmod,
      Nat.cast_pow, Nat.cast_two]
  change (b * target.shl32 1 n).toInt = _
  rw [Target.shl32_in_range target 1 n (by omega), power, BitVec.toInt_mul, shifted,
    Int.mul_bmod_bmod]

/-- The number read back: `b * 2^n` for `n * 2^n`, up to a multiple of the word. -/
theorem denotes_iff (target : Target) (n b : I32) (low : 0 ≤ n.toInt) (high : n.toInt < 32) :
    value (toFixedPoint target n b) = n.toInt ↔
      (b.toInt * 2 ^ n.toNat).bmod (2 ^ 32) = n.toInt * 2 ^ n.toNat := by
  have amount := toInt_eq_toNat n low
  have scale : (toFixedPoint target n b).q.toInt = n.toNat := amount
  rw [value, toFixedPoint_number target n b low high, scale, zpow_natCast,
    div_eq_iff (by positivity)]
  exact_mod_cast Iff.rfl

theorem exponent_le (n b : Nat) (count : 1 ≤ n) (fits : n * 2 ^ b < 2 ^ 31) : b ≤ 30 := by
  by_contra wide
  have power : 2 ^ 31 ≤ 2 ^ b := Nat.pow_le_pow_right (by decide) (by omega)
  have product : 1 * 2 ^ 31 ≤ n * 2 ^ b := Nat.mul_le_mul count power
  omega

theorem count_le (n : Nat) (fits : n * 2 ^ n < 2 ^ 31) : n ≤ 26 := by
  by_contra many
  have power : 2 ^ 27 ≤ 2 ^ n := Nat.pow_le_pow_right (by decide) (by omega)
  have product : 27 * 2 ^ 27 ≤ n * 2 ^ n := Nat.mul_le_mul (by omega) power
  omega

/-- Numbers below the word that agree above the lowest `n` bits, for a count `n` of at most 26. -/
theorem eq_of_bmod_eq (n b : Nat) (few : n ≤ 26) (narrow : b ≤ 30)
    (number : ((b : Int) * 2 ^ n).bmod (2 ^ 32) = n * 2 ^ n) : n = b := by
  have whole : ((2 ^ 32 : Nat) : Int) ∣ ((b : Int) * 2 ^ n).bmod (2 ^ 32) - b * 2 ^ n :=
    Int.dvd_bmod_sub_self
  have split : ((2 ^ 32 : Nat) : Int) = 2 ^ (32 - n) * 2 ^ n := by
    rw [← pow_add, Nat.sub_add_cancel (by omega)]
    norm_num
  rw [number, ← sub_mul, split] at whole
  have divides : (2 : Int) ^ (32 - n) ∣ n - b := Int.dvd_of_mul_dvd_mul_right (by positivity) whole
  have power : (2 : Int) ^ 6 ≤ 2 ^ (32 - n) := pow_le_pow_right₀ (by decide) (by omega)
  have difference : (n : Int) - b = 0 :=
    Int.eq_zero_of_abs_lt_dvd divides (by rw [abs_lt]; omega)
  omega

/-- Within its domain a conversion denotes its count when count and scale are the same number. -/
theorem converts_iff (target : Target) (n b : I32) (positive : 1 ≤ b.toInt)
    (fits : Fits (n.toInt * 2 ^ b.toNat)) : Converts target n b ↔ n = b := by
  have scale := toInt_eq_toNat b (by omega)
  have upper := fits.2
  constructor
  · intro converts
    obtain ⟨low, high⟩ := converts.shift
    have amount := toInt_eq_toNat n low
    have number := (denotes_iff target n b low high).mp converts.denotes
    have bound : n.toInt * 2 ^ n.toNat < 2 ^ 31 := by
      rw [← number]
      exact Int.bmod_lt (by decide)
    rw [amount] at upper bound
    rw [amount, scale] at number
    have few : n.toNat ≤ 26 := count_le n.toNat (by exact_mod_cast bound)
    have count : 1 ≤ n.toNat := by
      by_contra none
      have top := BitVec.toInt_lt (x := b)
      rw [show n.toNat = 0 by omega, pow_zero, mul_one, Int.bmod_eq_of_le (by omega) (by omega)]
        at number
      omega
    have narrow : b.toNat ≤ 30 := exponent_le n.toNat b.toNat count (by exact_mod_cast upper)
    exact BitVec.eq_of_toNat_eq (eq_of_bmod_eq n.toNat b.toNat few narrow number)
  · intro same
    subst same
    have lower := fits.1
    have narrow : n.toNat ≤ 30 := by
      rw [scale] at upper
      exact exponent_le n.toNat n.toNat (by omega) (by exact_mod_cast upper)
    refine ⟨?_, by omega⟩
    rw [denotes_iff target n n (by omega) (by omega)]
    exact Int.bmod_eq_of_le (by omega) (by omega)

/-- Every count of an entry, of the data record and of the pass, and the constants: in its domain
the conversion denotes the count exactly where the count happens to be `int_bits`. -/
theorem counts_converted_iff (target : Target) (tmp : DataValue) (value : LoggerValue)
    (count : I32) (positive : 1 ≤ tmp.intBits.toInt) :
    ∀ n ∈ converted tmp value count, Fits (n.toInt * 2 ^ tmp.intBits.toNat) →
      (Converts target n tmp.intBits ↔ n = tmp.intBits) := by
  intro n _ fits
  exact converts_iff target n tmp.intBits positive fits

/-- Four packets, counted with four bits. -/
theorem four_converts : Converts masking 4 4 :=
  (counts_converted_iff masking ⟨0, 0, 0, 4⟩ ⟨0, 4, ⟨0, 16⟩⟩ 1 (by decide) 4 (by decide)
    ⟨by decide, by decide⟩).mpr rfl

/-- With four bits, one becomes four. -/
theorem one_becomes_four :
    ¬ ∀ (target : Target) (tmp : DataValue) (value : LoggerValue) (count : I32),
      1 ≤ tmp.intBits.toInt →
      ∀ n ∈ converted tmp value count, Fits (n.toInt * 2 ^ tmp.intBits.toNat) →
        Converts target n tmp.intBits := by
  intro claim
  have denotes := (claim masking ⟨0, 0, 0, 4⟩ ⟨0, 0, ⟨0, 16⟩⟩ 0 (by decide) 1 (by decide)
    ⟨by decide, by decide⟩).denotes
  have converted : toFixedPoint masking 1 4 = ⟨8, 1⟩ := by decide
  have numbers : (1 : I32).toInt = 1 ∧ (8 : I32).toInt = 8 := by decide
  rw [converted, FixedPoint.value, numbers.1, numbers.2] at denotes
  norm_num at denotes

end Fide.Kernel
