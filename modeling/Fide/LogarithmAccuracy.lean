import Fide.BinaryLogarithm
import Fide.LogarithmOrder

/-! How far `calc_log` is from the logarithm.

The table is right to its last bit, and the index leaves out what is below eight bits of the
fraction. The rest of the error is the cut of the table entry to the scale of the argument. -/

namespace Fide.FixedPoint

open Words BinaryLogarithm

/-! ### The table -/

/-- Every entry is `log2(1 + i / 256)` with 24 fraction bits, rounded down. -/
theorem logTable_exact (i : Nat) (inside : i < 256) :
    (logTable.getD i 0 : ℝ) ≤ 2 ^ 24 * Real.logb 2 (1 + i / 256) ∧
      2 ^ 24 * Real.logb 2 (1 + i / 256) < logTable.getD i 0 + 1 := by
  have settled : (List.range 256).all (fun i =>
      digits 80 24 ((256 + i) * 2 ^ 72) ((256 + i) * 2 ^ 72) = some (logTable.getD i 0)) = true := by
    decide +kernel
  have given := of_decide_eq_true (List.all_eq_true.mp settled i (List.mem_range.mpr inside))
  have value : (1 + (i : ℝ) / 256) * 2 ^ 80 = (((256 + i) * 2 ^ 72 : Nat) : ℝ) := by
    push_cast
    ring
  have fraction : (i : ℝ) < 256 := by exact_mod_cast inside
  have nonneg : (0 : ℝ) ≤ i := Nat.cast_nonneg i
  refine digits_logb 24 _ ⟨value.ge, value.le⟩ ?_ ?_ given
  · linarith [div_nonneg nonneg (by norm_num : (0 : ℝ) ≤ 256)]
  · linarith [(div_lt_one (by norm_num : (0 : ℝ) < 256)).mpr fraction]

/-- From one index to the next the logarithm grows by less than 1 / 177. -/
theorem logb_step (i : Nat) :
    2 ^ 24 * Real.logb 2 (1 + (i + 1) / 256) ≤ 2 ^ 24 * Real.logb 2 (1 + i / 256) + 94365 := by
  have first := (logTable_exact 1 (by decide)).2
  have entry : (logTable.getD 1 0 : ℝ) = 94364 := by
    have value : logTable.getD 1 0 = 94364 := by decide +kernel
    rw [value]
    norm_num
  have positive : (0 : ℝ) < 1 + i / 256 := by positivity
  have product : (1 : ℝ) + (i + 1) / 256 ≤ (1 + i / 256) * (1 + (1 : Nat) / 256) := by
    have nonneg : (0 : ℝ) ≤ i := Nat.cast_nonneg i
    push_cast
    nlinarith
  have grown : Real.logb 2 (1 + (i + 1) / 256) ≤
      Real.logb 2 (1 + i / 256) + Real.logb 2 (1 + (1 : Nat) / 256) := by
    rw [← Real.logb_mul positive.ne' (by positivity)]
    exact Real.logb_le_logb_of_le (by norm_num) (by positivity) product
  rw [entry] at first
  linarith

section Fraction

variable (target : Target) (one : logIndex target 1 31 = 0) (n : Nat) (positive : 0 < n)

include one positive

/-- The fraction of a number lies between its index and the next. -/
theorem fraction_between :
    fractionIndex target n < 256 ∧
      (1 : ℝ) + fractionIndex target n / 256 ≤ n / 2 ^ Nat.log 2 n ∧
      (n : ℝ) / 2 ^ Nat.log 2 n < 1 + (fractionIndex target n + 1) / 256 := by
  have low : 2 ^ Nat.log 2 n ≤ n := Nat.pow_log_le_self 2 positive.ne'
  have high : n < 2 ^ (Nat.log 2 n + 1) := Nat.lt_pow_succ_log_self (by decide) n
  have index := fractionIndex_eq target one n positive
  rw [size_eq_log n positive, Nat.add_sub_cancel] at index
  generalize Nat.log 2 n = k at low high index
  have least : 2 ^ 8 ≤ n * 2 ^ 8 / 2 ^ k := by
    rw [Nat.le_div_iff_mul_le (by positivity), mul_comm]
    exact Nat.mul_le_mul_right _ low
  have most : n * 2 ^ 8 / 2 ^ k < 2 ^ 9 := by
    rw [Nat.div_lt_iff_lt_mul (by positivity)]
    rw [pow_succ] at high
    omega
  have quotient : fractionIndex target n + 256 = n * 2 ^ 8 / 2 ^ k := by omega
  have below : (fractionIndex target n + 256) * 2 ^ k ≤ n * 2 ^ 8 := by
    rw [quotient]
    exact Nat.div_mul_le_self _ _
  have above : n * 2 ^ 8 < (fractionIndex target n + 256 + 1) * 2 ^ k := by
    rw [quotient, mul_comm _ (2 ^ k)]
    exact Nat.lt_mul_div_succ _ (by positivity)
  have belowReal : ((fractionIndex target n : ℝ) + 256) * 2 ^ k ≤ n * 2 ^ 8 := by exact_mod_cast below
  have aboveReal : (n : ℝ) * 2 ^ 8 < (fractionIndex target n + 256 + 1) * 2 ^ k := by
    exact_mod_cast above
  refine ⟨by omega, ?_, ?_⟩
  · rw [le_div_iff₀ (by positivity)]
    linarith
  · rw [div_lt_iff₀ (by positivity)]
    linarith

omit one in
theorem logb_split :
    Real.logb 2 n = Nat.log 2 n + Real.logb 2 (n / 2 ^ Nat.log 2 n) := by
  have real : (0 : ℝ) < n := by exact_mod_cast positive
  rw [Real.logb_div real.ne' (by positivity), Real.logb_pow, Real.logb_self_eq_one (by norm_num)]
  ring

/-- The table entry of a number is below its logarithm, by less than a step. -/
theorem fractionEntry_logb :
    (fractionEntry target n : ℝ) ≤ 2 ^ 24 * Real.logb 2 (n / 2 ^ Nat.log 2 n) ∧
      2 ^ 24 * Real.logb 2 (n / 2 ^ Nat.log 2 n) < fractionEntry target n + 94366 := by
  obtain ⟨inside, least, most⟩ := fraction_between target one n positive
  obtain ⟨below, above⟩ := logTable_exact (fractionIndex target n) inside
  have step := logb_step (fractionIndex target n)
  have lower : Real.logb 2 (1 + fractionIndex target n / 256) ≤
      Real.logb 2 (n / 2 ^ Nat.log 2 n) :=
    Real.logb_le_logb_of_le (by norm_num) (by positivity) least
  have upper : Real.logb 2 (n / 2 ^ Nat.log 2 n) ≤
      Real.logb 2 (1 + (fractionIndex target n + 1) / 256) := by
    refine Real.logb_le_logb_of_le (by norm_num) ?_ most.le
    have real : (0 : ℝ) < n := by exact_mod_cast positive
    positivity
  rw [fractionEntry]
  constructor
  · linarith
  · linarith

end Fraction

/-! ### The logarithm -/

theorem calcLog_shortfall (target : Target) (one : logIndex target 1 31 = 0) (n q : I32)
    (positive : 0 < n.toInt) (nonneg : 0 ≤ q.toInt) (bounded : q.toInt ≤ 24) :
    let short : ℝ := Real.logb 2 ((n.toInt : ℝ) / 2 ^ q.toNat) -
      ((calcLog target ⟨n, q⟩).number.toInt : ℝ) / 2 ^ 24
    0 ≤ short ∧ short < 1 - 1 / 2 ^ (24 - q.toNat) + 1 / 177 := by
  intro short
  have number := toInt_eq_toNat n positive.le
  have natural : 0 < n.toNat := by omega
  have value := calcLog_value target n q positive nonneg bounded
  obtain ⟨below, above⟩ := fractionEntry_logb target one n.toNat natural
  have entry : fractionEntry target n.toNat < 2 ^ 24 := logTable_lt _
  have parts : short = Real.logb 2 (n.toNat / 2 ^ Nat.log 2 n.toNat) -
      (fractionEntry target n.toNat / 2 ^ (24 - q.toNat) : Nat) / 2 ^ 24 := by
    have real : (n.toInt : ℝ) = n.toNat := by exact_mod_cast congrArg (Int.cast : Int → ℝ) number
    have nonzero : (n.toNat : ℝ) ≠ 0 := by exact_mod_cast natural.ne'
    simp only [short]
    rw [value, logValue, real, Real.logb_div nonzero (by positivity), Real.logb_pow,
      Real.logb_self_eq_one (by norm_num), logb_split n.toNat natural]
    generalize fractionEntry target n.toNat / 2 ^ (24 - q.toNat) = part
    push_cast
    ring
  rw [parts]
  generalize Real.logb 2 (n.toNat / 2 ^ Nat.log 2 n.toNat) = fraction at below above
  generalize fractionEntry target n.toNat = whole at below above entry
  generalize 24 - q.toNat = m
  have cut : ((whole / 2 ^ m : Nat) : ℝ) ≤ whole := by exact_mod_cast Nat.div_le_self _ _
  have kept : (whole : ℝ) < 2 ^ m * ((whole / 2 ^ m : Nat) + 1) := by
    exact_mod_cast Nat.lt_mul_div_succ whole (by positivity : 0 < 2 ^ m)
  have small : (whole : ℝ) < 2 ^ 24 := by exact_mod_cast entry
  generalize ((whole / 2 ^ m : Nat) : ℝ) = part at cut kept
  constructor
  · rw [sub_nonneg, div_le_iff₀ (by positivity)]
    linarith
  · have power : (1 : ℝ) ≤ 2 ^ m := one_le_pow₀ (by norm_num)
    have share : whole / 2 ^ m < part + 1 := by
      rw [div_lt_iff₀ (by positivity)]
      linarith
    have lost : (whole : ℝ) - whole / 2 ^ m ≤ 2 ^ 24 * (1 - 1 / 2 ^ m) := by
      have rest : (0 : ℝ) ≤ 1 - 1 / 2 ^ m := by
        rw [sub_nonneg, div_le_one (by positivity)]
        exact power
      calc (whole : ℝ) - whole / 2 ^ m
        _ = whole * (1 - 1 / 2 ^ m) := by ring
        _ ≤ 2 ^ 24 * (1 - 1 / 2 ^ m) := mul_le_mul_of_nonneg_right small.le rest
    rw [sub_lt_iff_lt_add]
    generalize (1 : ℝ) / 2 ^ m = unit at lost
    linarith

/-- Every table entry is the logarithm with 24 fraction bits, rounded down. `calc_log` never exceeds
the logarithm of its argument. It falls short of it by less than 1 / 177 and what the cut to `q`
fraction bits takes: nothing at the scale of the table, up to all of the fraction at small scales. -/
theorem calcLog_accuracy (target : Target) (one : logIndex target 1 31 = 0) :
    logTable.length = 256 ∧
      (∀ i, i < 256 → (logTable.getD i 0 : ℤ) = ⌊2 ^ 24 * Real.logb 2 (1 + i / 256)⌋) ∧
      ∀ n q : I32, 0 < n.toInt → 0 ≤ q.toInt → q.toInt ≤ 24 →
        let short : ℝ := Real.logb 2 ((n.toInt : ℝ) / 2 ^ q.toNat) -
          ((calcLog target ⟨n, q⟩).number.toInt : ℝ) / 2 ^ 24
        0 ≤ short ∧ short < 1 - 1 / 2 ^ (24 - q.toNat) + 1 / 177 := by
  refine ⟨by decide +kernel, fun i inside => ?_, calcLog_shortfall target one⟩
  obtain ⟨below, above⟩ := logTable_exact i inside
  refine (Int.floor_eq_iff.mpr ⟨?_, ?_⟩).symm
  · exact_mod_cast below
  · exact_mod_cast above

/-- Three at the scale of the table. -/
theorem log_of_three_accurate :
    Real.logb 2 (3 / 2 ^ 24) - ((calcLog masking ⟨3, 24⟩).number.toInt : ℝ) / 2 ^ 24 < 1 / 177 := by
  have accurate := ((calcLog_accuracy masking (by decide)).2.2 3 24 (by decide) (by decide)
    (by decide)).2
  have three : (3 : I32).toInt = 3 := by decide
  have scale : (24 : I32).toNat = 24 := rfl
  rw [three, scale] at accurate
  norm_num at accurate ⊢
  exact accurate

end Fide.FixedPoint
