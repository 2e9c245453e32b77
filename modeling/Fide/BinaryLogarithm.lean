import Mathlib

/-! Binary digits of a logarithm from integer intervals.

A number in `[1, 2)` is squared over and over; whenever the square leaves `[1, 2)` it is halved and
the next digit of its binary logarithm is a one. The squares are enclosed between integers over
`2 ^ p`, and a digit that the enclosure leaves open is not given. -/

namespace Fide.BinaryLogarithm

/-- Squares of the numbers enclosed between `lo` and `hi` over `2 ^ p`. -/
def squareLow (p lo : Nat) : Nat := lo * lo / 2 ^ p

def squareHigh (p hi : Nat) : Nat := hi * hi / 2 ^ p + 1

/-- The first `n` digits, read as a number, if the enclosure settles them. -/
def digits (p : Nat) : (n lo hi : Nat) → Option Nat
  | 0, _, _ => some 0
  | n + 1, lo, hi =>
      if 2 * 2 ^ p ≤ squareLow p lo then
        (digits p n (squareLow p lo / 2) (squareHigh p hi / 2 + 1)).map (· + 2 ^ n)
      else if squareHigh p hi < 2 * 2 ^ p then digits p n (squareLow p lo) (squareHigh p hi)
      else none

/-- The number is enclosed between the two integers over `2 ^ p`. -/
structure Encloses (p lo hi : Nat) (x : ℝ) : Prop where
  low : (lo : ℝ) ≤ x * 2 ^ p
  high : x * 2 ^ p ≤ hi

variable {p lo hi : Nat} {x : ℝ}

theorem Encloses.square (enclosed : Encloses p lo hi x) (positive : 0 ≤ x) :
    Encloses p (squareLow p lo) (squareHigh p hi) (x ^ 2) := by
  have scaled : x ^ 2 * 2 ^ p = (x * 2 ^ p) ^ 2 / 2 ^ p := by
    field_simp
  have low : ((lo * lo : Nat) : ℝ) ≤ (x * 2 ^ p) ^ 2 := by
    push_cast
    rw [sq]
    exact mul_self_le_mul_self (by positivity) enclosed.low
  have high : (x * 2 ^ p) ^ 2 ≤ ((hi * hi : Nat) : ℝ) := by
    push_cast
    rw [sq]
    exact mul_self_le_mul_self (by positivity) enclosed.high
  have power : ((2 ^ p : Nat) : ℝ) = 2 ^ p := by push_cast; rfl
  constructor
  · calc ((squareLow p lo : Nat) : ℝ)
      _ ≤ ((lo * lo : Nat) : ℝ) / ((2 ^ p : Nat) : ℝ) := Nat.cast_div_le
      _ ≤ x ^ 2 * 2 ^ p := by
        rw [scaled, power]
        gcongr
  · have above : hi * hi < 2 ^ p * (hi * hi / 2 ^ p + 1) :=
      Nat.lt_mul_div_succ _ (by positivity)
    have bound : ((hi * hi : Nat) : ℝ) ≤ 2 ^ p * ((squareHigh p hi : Nat) : ℝ) := by
      rw [← power, squareHigh]
      exact_mod_cast above.le
    rw [scaled, div_le_iff₀ (by positivity)]
    linarith

theorem Encloses.halve (enclosed : Encloses p lo hi x) :
    Encloses p (lo / 2) (hi / 2 + 1) (x / 2) := by
  have low : ((lo / 2 : Nat) : ℝ) ≤ (lo : ℝ) / 2 := by
    have bound : ((lo / 2 : Nat) : ℝ) ≤ (lo : ℝ) / ((2 : Nat) : ℝ) := Nat.cast_div_le
    exact_mod_cast bound
  have high : (hi : ℝ) ≤ 2 * ((hi / 2 + 1 : Nat) : ℝ) := by
    have bound : hi ≤ 2 * (hi / 2 + 1) := by omega
    exact_mod_cast bound
  constructor
  · have half := enclosed.low
    linarith
  · have half := enclosed.high
    linarith

/-- Digits of the logarithm: a doubled exponent is the exponent of the square. -/
theorem logb_square (x : ℝ) (n : Nat) :
    2 ^ (n + 1) * Real.logb 2 x = 2 ^ n * Real.logb 2 (x ^ 2) := by
  rw [Real.logb_pow]
  push_cast
  ring

theorem logb_halved (positive : 0 < x) : Real.logb 2 x = 1 + Real.logb 2 (x / 2) := by
  rw [Real.logb_div positive.ne' (by norm_num), Real.logb_self_eq_one (by norm_num)]
  ring

/-- The digits given are those of the logarithm. -/
theorem digits_logb (n : Nat) (d : Nat) (enclosed : Encloses p lo hi x) (low : 1 ≤ x) (high : x < 2)
    (given : digits p n lo hi = some d) :
    (d : ℝ) ≤ 2 ^ n * Real.logb 2 x ∧ 2 ^ n * Real.logb 2 x < d + 1 := by
  induction n generalizing lo hi x d with
  | zero =>
      cases given
      have nonneg : 0 ≤ Real.logb 2 x := Real.logb_nonneg (by norm_num) low
      have below : Real.logb 2 x < 1 := by
        rw [Real.logb_lt_iff_lt_rpow (by norm_num) (by linarith)]
        simpa using high
      simp only [pow_zero, one_mul, Nat.cast_zero, zero_add]
      exact ⟨nonneg, below⟩
  | succ n ih =>
      have square := enclosed.square (by linarith)
      have power : ((2 * 2 ^ p : Nat) : ℝ) = 2 * 2 ^ p := by push_cast; rfl
      have least : (1 : ℝ) ≤ x ^ 2 := one_le_pow₀ low
      have most : x ^ 2 < 4 := by nlinarith
      rw [logb_square x n]
      rw [digits] at given
      split at given
      · next reached =>
          obtain ⟨rest, settled, rfl⟩ := Option.map_eq_some_iff.mp given
          have two : (2 : ℝ) ≤ x ^ 2 := by
            have bound : ((2 * 2 ^ p : Nat) : ℝ) ≤ x ^ 2 * 2 ^ p :=
              le_trans (by exact_mod_cast reached) square.low
            rw [power] at bound
            exact le_of_mul_le_mul_right bound (by positivity)
          have digits := ih rest square.halve (by linarith) (by linarith) settled
          rw [logb_halved (by linarith), mul_add, mul_one]
          push_cast
          constructor
          · linarith [digits.1]
          · linarith [digits.2]
      · split at given
        · next below =>
            have two : x ^ 2 < 2 := by
              have bound : x ^ 2 * 2 ^ p < ((2 * 2 ^ p : Nat) : ℝ) :=
                lt_of_le_of_lt square.high (by exact_mod_cast below)
              rw [power] at bound
              exact lt_of_mul_lt_mul_right bound (by positivity)
            exact ih d square least two given
        · cases given

end Fide.BinaryLogarithm
