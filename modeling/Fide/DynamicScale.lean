import Mathlib

/-! Numbers that carry their scale: `n` at scale `q` denotes `n / 2^q`.

A cut gives up fraction bits, down to as many as the number has bits. The values live in any
ordered field. -/

namespace Fide.DynamicScale

/-- The scale a cut leaves: no more fraction bits than the number has bits. -/
def cutScale (q n : Nat) : Nat := min q (Nat.size n)

/-- The number a cut leaves. -/
def cutNumber (q n : Nat) : Nat := n / 2 ^ (q - Nat.size n)

theorem cutScale_add (q n : Nat) : cutScale q n + (q - Nat.size n) = q := by
  rw [cutScale]
  omega

theorem cutNumber_of_long (q n : Nat) (long : q ≤ Nat.size n) : cutNumber q n = n := by
  rw [cutNumber, Nat.sub_eq_zero_of_le long, pow_zero, Nat.div_one]

theorem cutScale_of_long (q n : Nat) (long : q ≤ Nat.size n) : cutScale q n = q :=
  min_eq_left long

theorem cutNumber_le (q n : Nat) : cutNumber q n ≤ n := Nat.div_le_self _ _

/-- A number with at most half as many bits as its scale vanishes. -/
theorem cutNumber_eq_zero_iff (q n : Nat) : cutNumber q n = 0 ↔ 2 * Nat.size n ≤ q := by
  rw [cutNumber, Nat.div_eq_zero_iff_lt (by positivity), ← Nat.size_le]
  omega

/-- A longer number is cut by fewer bits. -/
theorem cutNumber_mono (q : Nat) {m n : Nat} (less : m ≤ n) : cutNumber q m ≤ cutNumber q n := by
  have size : Nat.size m ≤ Nat.size n := Nat.size_le_size less
  have power : 2 ^ (q - Nat.size n) ≤ 2 ^ (q - Nat.size m) :=
    Nat.pow_le_pow_right (by decide) (by omega)
  calc m / 2 ^ (q - Nat.size m) ≤ n / 2 ^ (q - Nat.size m) := Nat.div_le_div_right less
    _ ≤ n / 2 ^ (q - Nat.size n) := Nat.div_le_div_left power (by positivity)

/-! The ratio `2^-d` at scale `q` is the number `2^(q - d)`. -/

theorem cutScale_two_pow (q d : Nat) : cutScale q (2 ^ (q - d)) = min q (q - d + 1) := by
  rw [cutScale, Nat.size_pow]

/-- A bit is left of a ratio whose exponent is at most about half the scale. -/
theorem cutNumber_two_pow (q d : Nat) (visible : 2 * d ≤ q + 1) :
    cutNumber q (2 ^ (q - d)) = 2 ^ (q - d - (d - 1)) := by
  have dropped : q - (q - d + 1) = d - 1 := by omega
  rw [cutNumber, Nat.size_pow, dropped, Nat.pow_div (by omega) (by decide)]

theorem cutNumber_two_pow_hidden (q d : Nat) (ratio : d ≤ q) (hidden : q + 1 < 2 * d) :
    cutNumber q (2 ^ (q - d)) = 0 := by
  rw [cutNumber_eq_zero_iff, Nat.size_pow]
  omega

/-- Truncating a quotient with `w` extra bits down to `q` of them is one division. -/
theorem div_shift_div (n m q w : Nat) (scale : q ≤ w) :
    n * 2 ^ w / m / 2 ^ (w - q) = n * 2 ^ q / m := by
  obtain ⟨extra, rfl⟩ := Nat.exists_eq_add_of_le scale
  rw [Nat.add_sub_cancel_left, Nat.div_div_eq_div_mul, pow_add, ← mul_assoc]
  exact Nat.mul_div_mul_right _ _ (by positivity)

/-- Cutting a quotient rounds the quotient itself, at the scale the cut leaves. -/
theorem cutNumber_quotient (n m q : Nat) :
    cutNumber q (n * 2 ^ q / m) = n * 2 ^ cutScale q (n * 2 ^ q / m) / m := by
  have scale := cutScale_add q (n * 2 ^ q / m)
  have less : q - Nat.size (n * 2 ^ q / m) = q - cutScale q (n * 2 ^ q / m) := by omega
  rw [cutNumber, less]
  exact div_shift_div n m _ q (by omega)

section Values

variable {K : Type*} [Field K] [LinearOrder K] [IsStrictOrderedRing K]

/-- A cut is exact when the bits it drops are zero. -/
theorem cut_exact_iff (q n : Nat) :
    (cutNumber q n : K) / 2 ^ cutScale q n = n / 2 ^ q ↔ 2 ^ (q - Nat.size n) ∣ n := by
  have scale : (2 : K) ^ q = 2 ^ cutScale q n * 2 ^ (q - Nat.size n) := by
    rw [← pow_add, cutScale_add]
  have exact : (cutNumber q n : K) / 2 ^ cutScale q n = n / 2 ^ q ↔
      cutNumber q n * 2 ^ (q - Nat.size n) = n := by
    rw [scale, ← div_div, div_eq_div_iff (by positivity) (by positivity), ← Nat.cast_inj (R := K)]
    push_cast
    constructor
    · intro same
      field_simp at same
      exact same
    · intro same
      rw [← same]
      field_simp
  rw [exact, cutNumber, Nat.dvd_iff_div_mul_eq]

/-- A quotient rounded down at scale `s`. -/
theorem quotient_bounds (n m s : Nat) (positive : 0 < m) :
    0 ≤ (n : K) / m - ((n * 2 ^ s / m : Nat) : K) / 2 ^ s ∧
      (n : K) / m - ((n * 2 ^ s / m : Nat) : K) / 2 ^ s < 1 / 2 ^ s := by
  have divisor : (0 : K) < m := by exact_mod_cast positive
  have power : (0 : K) < 2 ^ s := by positivity
  have low : ((n * 2 ^ s / m : Nat) : K) * m ≤ n * 2 ^ s := by
    exact_mod_cast Nat.div_mul_le_self (n * 2 ^ s) m
  have high : (n : K) * 2 ^ s < (((n * 2 ^ s / m : Nat) : K) + 1) * m := by
    exact_mod_cast Nat.lt_mul_of_div_lt (Nat.lt_succ_self _) positive
  constructor
  · rw [sub_nonneg, div_le_div_iff₀ power divisor]
    exact low
  · rw [sub_lt_iff_lt_add, ← add_div, div_lt_div_iff₀ divisor power, add_comm (1 : K)]
    exact high

end Values

end Fide.DynamicScale
