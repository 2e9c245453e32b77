import Fide.FixedPointValue
import Fide.Logarithm

/-! The logarithm at one scale keeps the order of its arguments.

Between two powers of two it follows the table, which grows and stays below the next integer; from
one power of two to the next the integer part takes over. -/

namespace Fide.FixedPoint

open Words DynamicScale

/-! ### The table -/

theorem logTable_mono (i j : Nat) (less : i ≤ j) (inside : j < 256) :
    logTable.getD i 0 ≤ logTable.getD j 0 := by
  have chain : logTable.IsChain (· ≤ ·) := by decide +kernel
  have sorted : logTable.Pairwise (· ≤ ·) := List.isChain_iff_pairwise.mp chain
  have length : logTable.length = 256 := by decide +kernel
  rw [List.getD_eq_getElem _ _ (by omega), List.getD_eq_getElem _ _ (by omega)]
  rcases less.eq_or_lt with rfl | less
  · exact le_rfl
  · exact List.pairwise_iff_getElem.mp sorted i j (by omega) (by omega) less

/-- The bits below the leading one, read as a number with the leading one taken off. -/
theorem index_eq (n k : Nat) (low : 2 ^ k ≤ n) (high : n < 2 ^ (k + 1)) :
    n * 2 ^ 8 / 2 ^ k % 2 ^ 8 = n * 2 ^ 8 / 2 ^ k - 2 ^ 8 := by
  have least : 2 ^ 8 ≤ n * 2 ^ 8 / 2 ^ k := by
    rw [Nat.le_div_iff_mul_le (by positivity), mul_comm]
    exact Nat.mul_le_mul_right _ low
  have most : n * 2 ^ 8 / 2 ^ k < 2 ^ 9 := by
    rw [Nat.div_lt_iff_lt_mul (by positivity)]
    rw [pow_succ] at high
    omega
  omega

section Entry

variable (target : Target) (one : logIndex target 1 31 = 0)

include one

/-- With the index zero for `1`, every number is indexed by the bits below its leading one. -/
theorem fractionIndex_eq (n : Nat) (positive : 0 < n) :
    fractionIndex target n = n * 2 ^ 8 / 2 ^ (Nat.size n - 1) - 2 ^ 8 := by
  have leading : Nat.size n ≠ 0 := (Nat.size_pos.mpr positive).ne'
  have low : 2 ^ (Nat.size n - 1) ≤ n := Nat.lt_size.mp (by omega)
  have high : n < 2 ^ (Nat.size n - 1 + 1) := by
    rw [Nat.sub_add_cancel (by omega)]
    exact Nat.lt_size_self n
  rw [fractionIndex]
  split
  · next single =>
      have index := congrArg BitVec.toNat one
      rw [logIndex, topByte_toNat] at index
      change (target.shl32 1 32).toNat / 2 ^ 24 = 0 at index
      rw [index, single]
      decide
  · exact index_eq n _ low high

/-- Between two powers of two the entry grows with the number. -/
theorem fractionEntry_mono (m n : Nat) (positive : 0 < m) (less : m ≤ n)
    (same : Nat.size m = Nat.size n) : fractionEntry target m ≤ fractionEntry target n := by
  have high : n < 2 ^ (Nat.size n - 1 + 1) := by
    rw [Nat.sub_add_cancel (Nat.size_pos.mpr (by omega))]
    exact Nat.lt_size_self n
  have bound : n * 2 ^ 8 / 2 ^ (Nat.size n - 1) < 2 ^ 9 := by
    rw [Nat.div_lt_iff_lt_mul (by positivity)]
    rw [pow_succ] at high
    omega
  have quotients : m * 2 ^ 8 / 2 ^ (Nat.size n - 1) ≤ n * 2 ^ 8 / 2 ^ (Nat.size n - 1) :=
    Nat.div_le_div_right (Nat.mul_le_mul_right _ less)
  rw [fractionEntry, fractionEntry, fractionIndex_eq target one m positive,
    fractionIndex_eq target one n (by omega), same]
  exact logTable_mono _ _ (by omega) (by omega)

theorem fractionEntry_power (k : Nat) : fractionEntry target (2 ^ k) = 0 := by
  rw [fractionEntry, fractionIndex_eq target one _ (by positivity), Nat.size_pow,
    Nat.add_sub_cancel, mul_comm, Nat.mul_div_cancel _ (by positivity), Nat.sub_self]
  rfl

theorem fractionEntry_double (n : Nat) (positive : 0 < n) :
    fractionEntry target (2 * n) = fractionEntry target n := by
  rcases (show 1 ≤ n from positive).eq_or_lt with rfl | more
  · exact (fractionEntry_power target one 1).trans (fractionEntry_power target one 0).symm
  · rw [mul_comm, ← pow_one 2]
    exact fractionEntry_mul target n 1 more

end Entry

/-! ### The logarithm -/

theorem size_eq_log (n : Nat) (positive : 0 < n) : Nat.size n = Nat.log 2 n + 1 := by
  apply le_antisymm
  · exact Nat.size_le.mpr (Nat.lt_pow_succ_log_self (by decide) n)
  · exact Nat.lt_size.mpr (Nat.pow_log_le_self 2 positive.ne')

/-- The integer part and the cut table entry of `n` at scale `q`, before they are stored. -/
def logValue (target : Target) (n q : Nat) : Int :=
  ((Nat.log 2 n : Int) - q) * 2 ^ 24 + ((fractionEntry target n / 2 ^ (24 - q) : Nat) : Int)

theorem calcLog_value (target : Target) (n q : I32) (positive : 0 < n.toInt) (nonneg : 0 ≤ q.toInt)
    (bounded : q.toInt ≤ 24) :
    (calcLog target ⟨n, q⟩).number.toInt = logValue target n.toNat q.toNat := by
  have number := toInt_eq_toNat n positive.le
  have size : (Nat.size n.toNat : Int) - 1 = Nat.log 2 n.toNat := by
    rw [size_eq_log n.toNat (by omega), Nat.cast_add, Nat.cast_one, add_sub_cancel_right]
  rw [calcLog_toInt target ⟨n, q⟩ positive nonneg bounded, tableEntry_eq target n positive, logValue,
    ← size]

theorem logValue_bounds (target : Target) (n q : Nat) :
    ((Nat.log 2 n : Int) - q) * 2 ^ 24 ≤ logValue target n q ∧
      logValue target n q < ((Nat.log 2 n : Int) - q + 1) * 2 ^ 24 := by
  have cut : fractionEntry target n / 2 ^ (24 - q) < 2 ^ 24 :=
    (Nat.div_le_self _ _).trans_lt (logTable_lt _)
  rw [logValue]
  generalize fractionEntry target n / 2 ^ (24 - q) = part at cut
  omega

theorem logValue_mono (target : Target) (one : logIndex target 1 31 = 0) (m n q : Nat)
    (positive : 0 < m) (less : m ≤ n) : logValue target m q ≤ logValue target n q := by
  have logs : Nat.log 2 m ≤ Nat.log 2 n := Nat.log_mono_right less
  rcases logs.eq_or_lt with same | smaller
  · have sizes : Nat.size m = Nat.size n := by
      rw [size_eq_log m positive, size_eq_log n (by omega), same]
    have entries := Nat.div_le_div_right (c := 2 ^ (24 - q))
      (fractionEntry_mono target one m n positive less sizes)
    rw [logValue, logValue, same]
    omega
  · -- the integer part of the larger number is at least the bound of the smaller one's interval
    have upper := (logValue_bounds target m q).2
    have lower := (logValue_bounds target n q).1
    omega

theorem logValue_power (target : Target) (one : logIndex target 1 31 = 0) (n q : Nat)
    (power : n = 2 ^ Nat.log 2 n) : logValue target n q = ((Nat.log 2 n : Int) - q) * 2 ^ 24 := by
  have entry : fractionEntry target n = 0 := by
    rw [power]
    exact fractionEntry_power target one _
  rw [logValue, entry, Nat.zero_div, Nat.cast_zero, add_zero]

theorem logValue_double (target : Target) (one : logIndex target 1 31 = 0) (n q : Nat)
    (positive : 0 < n) : logValue target (2 * n) q = logValue target n q + 2 ^ 24 := by
  have log : Nat.log 2 (2 * n) = Nat.log 2 n + 1 := by
    rw [mul_comm]
    exact Nat.log_mul_base (by decide) positive.ne'
  rw [logValue, logValue, fractionEntry_double target one n positive, log]
  push_cast
  ring

/-- At one scale the logarithm keeps the order, stays within the interval of its integer part,
meets its lower end at the powers of two, grows by one with every doubling and fits its word, where
the shift of `1` by the whole width selects the first entry of the table. -/
theorem calcLog_order (target : Target) (one : logIndex target 1 31 = 0) (q : I32)
    (nonneg : 0 ≤ q.toInt) (bounded : q.toInt ≤ 24) (m n : I32) (positive : 0 < m.toInt)
    (less : m.toInt ≤ n.toInt) :
    let k := Nat.log 2 n.toNat
    (calcLog target ⟨m, q⟩).number.toInt ≤ (calcLog target ⟨n, q⟩).number.toInt ∧
    ((k : Int) - q.toInt) * 2 ^ 24 ≤ (calcLog target ⟨n, q⟩).number.toInt ∧
    (calcLog target ⟨n, q⟩).number.toInt < ((k : Int) - q.toInt + 1) * 2 ^ 24 ∧
    (n.toNat = 2 ^ k → (calcLog target ⟨n, q⟩).number.toInt = ((k : Int) - q.toInt) * 2 ^ 24) ∧
    (2 * n.toInt < 2 ^ 31 →
      (calcLog target ⟨2 * n, q⟩).number.toInt = (calcLog target ⟨n, q⟩).number.toInt + 2 ^ 24) ∧
    (calcLog target ⟨n, q⟩).number.toInt = logValue target n.toNat q.toNat ∧
    Fits (logValue target n.toNat q.toNat) := by
  intro k
  have scale := toInt_eq_toNat q nonneg
  have mNat := toInt_eq_toNat m positive.le
  have nNat := toInt_eq_toNat n (by omega)
  have value := calcLog_value target n q (by omega) nonneg bounded
  have bounds := logValue_bounds target n.toNat q.toNat
  have small : k ≤ 30 := by
    have bound := BitVec.toInt_lt (x := n)
    exact Nat.lt_succ_iff.mp (Nat.log_lt_of_lt_pow (by omega) (by omega))
  rw [value, scale]
  refine ⟨?_, bounds.1, bounds.2, ?_, ?_, rfl, ?_⟩
  · rw [calcLog_value target m q positive nonneg bounded]
    exact logValue_mono target one _ _ _ (by omega) (by omega)
  · intro power
    exact logValue_power target one n.toNat q.toNat power
  · intro room
    have double : (2 * n).toNat = 2 * n.toNat := by
      rw [BitVec.toNat_mul]
      exact Nat.mod_eq_of_lt (by change 2 * n.toNat < 2 ^ 32; omega)
    have doubled : (2 * n).toInt = 2 * n.toInt := by
      rw [BitVec.toInt_eq_toNat_of_lt (by omega), double, nNat]
      rfl
    rw [calcLog_value target (2 * n) q (by omega) nonneg bounded, double]
    exact logValue_double target one n.toNat q.toNat (by omega)
  · rw [Fits]
    omega

/-- Three and five, on a machine that masks the shift of `1`. -/
theorem log_of_three_below_five :
    (calcLog masking ⟨3, 8⟩).number.toInt ≤ (calcLog masking ⟨5, 8⟩).number.toInt :=
  (calcLog_order masking (by decide) 8 (by decide) (by decide) 3 5 (by decide) (by decide)).1

end Fide.FixedPoint
