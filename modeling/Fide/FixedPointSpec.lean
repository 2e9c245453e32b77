import Fide.DynamicScale
import Fide.FixedPoint

/-! Specifications of the fixed-point library: one lemma per function, which the proofs about
its callers use in place of the definition. -/

namespace Fide.FixedPoint

open Words DynamicScale

/-! ### Aligning the scales -/

/-- The larger of two scales. -/
def maxScale (p q : I32) : I32 := if p.toInt < q.toInt then q else p

theorem maxScale_of {motive : I32 → Prop} (p q : I32) (first : motive p) (second : motive q) :
    motive (maxScale p q) := by
  rw [maxScale]
  split
  · exact second
  · exact first

/-- `check_bit` overwrites the smaller scale and shifts by zero: no number changes. -/
theorem checkBit_eq (target : Target) (first second : FixedPoint) :
    checkBit target first second =
      (⟨first.number, maxScale first.q second.q⟩, ⟨second.number, maxScale first.q second.q⟩) := by
  unfold checkBit maxScale
  split_ifs with below above
  · omega
  · simp
  · simp
  · have same : second.q = first.q := BitVec.eq_of_toInt_eq (by omega)
    exact Prod.ext rfl (congrArg (FixedPoint.mk second.number) same)

theorem add_eq (target : Target) (first second : FixedPoint) :
    add target first second =
      ⟨rescale target ((first.number + second.number).signExtend 64)
          (maxScale first.q second.q),
        ⟨first.number, maxScale first.q second.q⟩,
        ⟨second.number, maxScale first.q second.q⟩⟩ := by
  simp only [add, checkBit_eq]

theorem subtract_eq (target : Target) (first second : FixedPoint) :
    subtract target first second =
      ⟨rescale target ((first.number - second.number).signExtend 64)
          (maxScale first.q second.q),
        ⟨first.number, maxScale first.q second.q⟩,
        ⟨second.number, maxScale first.q second.q⟩⟩ := by
  simp only [subtract, checkBit_eq]

theorem divide_eq (target : Target) (first second : FixedPoint) :
    divide target first second =
      ⟨rescale target
          (target.shr64 ((first.number.signExtend 64 <<< 32) / second.number.signExtend 64)
            (32 - maxScale first.q second.q))
          (maxScale first.q second.q),
        ⟨first.number, maxScale first.q second.q⟩,
        ⟨second.number, maxScale first.q second.q⟩⟩ := by
  simp only [divide, checkBit_eq]

/-! ### Counting leading zeros -/

theorem size_eq_size_div_add (n k : Nat) (reached : 2 ^ k ≤ n) :
    Nat.size n = Nat.size (n / 2 ^ k) + k := by
  apply le_antisymm
  · rw [Nat.size_le, pow_add]
    exact (Nat.div_lt_iff_lt_mul (by positivity)).mp (Nat.size_le.mp le_rfl)
  · have positive : 0 < n / 2 ^ k := Nat.div_pos reached (by positivity)
    obtain ⟨s, size⟩ : ∃ s, Nat.size (n / 2 ^ k) = s + 1 :=
      Nat.exists_eq_succ_of_ne_zero (Nat.size_pos.mpr positive).ne'
    have top : 2 ^ s ≤ n / 2 ^ k := Nat.lt_size.mp (by omega)
    have reach : 2 ^ (s + k) ≤ n := by
      rw [pow_add]
      exact (Nat.le_div_iff_mul_le (by positivity)).mp top
    have below : s + k < Nat.size n := Nat.lt_size.mpr reach
    omega

theorem sshiftRight_eq (x : I64) (k : Nat) (small : x.toNat < 2 ^ 31) :
    x.sshiftRight k = x >>> k := by
  apply BitVec.sshiftRight_eq_of_msb_false
  rw [BitVec.msb_eq_false_iff_two_mul_lt]
  omega

theorem halve_toNat (x : I64) (k : Nat) (small : x.toNat < 2 ^ 31) :
    ((x.sshiftRight k).setWidth 32 : I32).toNat = x.toNat / 2 ^ k := by
  have bound : x.toNat / 2 ^ k ≤ x.toNat := Nat.div_le_self _ _
  rw [sshiftRight_eq x k small, BitVec.toNat_setWidth, BitVec.toNat_ushiftRight,
    Nat.shiftRight_eq_div_pow, Nat.mod_eq_of_lt (by omega)]

/-- The search has used `used` of the `total` bits of `x` and is left with a remainder below
`2^bits`. -/
structure Searching (total bits : Nat) (x : Nat) (state : I32 × I64) : Prop where
  bounded : state.2.toNat < 2 ^ bits
  small : state.2.toNat < 2 ^ 31
  used : ∃ used : Nat, state.1 = (total : I32) - (used : I32) ∧
    Nat.size x = Nat.size state.2.toNat + used

theorem Searching.step (bits : Nat) {total x : Nat} {state : I32 × I64}
    (searching : Searching total (bits + bits) x state) :
    Searching total bits x (searchStep bits state) := by
  have half := halve_toNat state.2 bits searching.small
  obtain ⟨used, count, size⟩ := searching.used
  unfold searchStep
  by_cases zero : ((state.2.sshiftRight bits).setWidth 32 : I32) = 0
  · have below : state.2.toNat < 2 ^ bits := by
      rw [zero] at half
      exact (Nat.div_eq_zero_iff_lt (by positivity)).mp half.symm
    rw [if_neg (not_not.mpr zero)]
    exact ⟨below, searching.small, used, count, size⟩
  · have reached : 2 ^ bits ≤ state.2.toNat := by
      by_contra short
      apply zero
      apply BitVec.eq_of_toNat_eq
      rw [half, Nat.div_eq_of_lt (by omega)]
      rfl
    have value : (((state.2.sshiftRight bits).setWidth 32 : I32).setWidth 64 : I64).toNat =
        state.2.toNat / 2 ^ bits := by
      rw [BitVec.toNat_setWidth, half]
      apply Nat.mod_eq_of_lt
      have bound : state.2.toNat / 2 ^ bits ≤ state.2.toNat := Nat.div_le_self _ _
      have small := searching.small
      omega
    rw [if_pos zero]
    refine ⟨?_, ?_, used + bits, ?_, ?_⟩
    · rw [value, Nat.div_lt_iff_lt_mul (by positivity), ← pow_add]
      exact searching.bounded
    · have bound : state.2.toNat / 2 ^ bits ≤ state.2.toNat := Nat.div_le_self _ _
      have small := searching.small
      rw [value]
      omega
    · simp only [count, Nat.cast_add]
      exact (sub_add_eq_sub_sub _ _ _).symm
    · rw [value, size, size_eq_size_div_add _ bits reached]
      omega

theorem Searching.end {total x : Nat} {state : I32 × I64}
    (searching : Searching total 2 x state) :
    searchEnd state = (total : I32) - (Nat.size x : I32) := by
  have half := halve_toNat state.2 1 searching.small
  have below := searching.bounded
  obtain ⟨used, count, size⟩ := searching.used
  unfold searchEnd
  by_cases zero : ((state.2.sshiftRight 1).setWidth 32 : I32) = 0
  · have bit : state.2.toNat < 2 := by
      rw [zero] at half
      exact (Nat.div_eq_zero_iff_lt (by decide)).mp half.symm
    have sizeBit : Nat.size state.2.toNat = state.2.toNat := by
      interval_cases state.2.toNat <;> rfl
    have word : (state.2.setWidth 32 : I32) = (state.2.toNat : I32) := by
      apply BitVec.eq_of_toNat_eq
      rw [BitVec.toNat_setWidth, toNat_natCast _ (by omega), Nat.mod_eq_of_lt (by omega)]
    rw [if_neg (not_not.mpr zero), word, count, size, sizeBit, Nat.cast_add, add_comm]
    exact (sub_add_eq_sub_sub _ _ _).symm
  · have two : 2 ≤ state.2.toNat := by
      by_contra short
      apply zero
      apply BitVec.eq_of_toNat_eq
      rw [half, Nat.div_eq_of_lt (by omega)]
      rfl
    have sizeTwo : Nat.size state.2.toNat = 2 := by
      interval_cases state.2.toNat <;> rfl
    rw [if_pos zero, count, size, sizeTwo, Nat.cast_add, add_comm]
    exact (sub_add_eq_sub_sub _ _ _).symm

theorem guard_passes (x : I64) (small : x.toNat < 2 ^ 31) : x.sshiftRight 31 = 0 := by
  apply BitVec.eq_of_toNat_eq
  rw [sshiftRight_eq x 31 small, BitVec.toNat_ushiftRight, Nat.shiftRight_eq_div_pow,
    Nat.div_eq_of_lt small]
  rfl

theorem Searching.start (total : Nat) (x : I64) (bits : Nat) (small : x.toNat < 2 ^ 31)
    (enough : 31 ≤ bits) : Searching total bits x.toNat ((total : I32), x) where
  bounded := small.trans_le (Nat.pow_le_pow_right (by decide) enough)
  small := small
  used := ⟨0, by simp, by simp⟩

/-- Below `2^31` the count is right. -/
theorem countZero64_of_small (x : I64) (small : x.toNat < 2 ^ 31) :
    countZero64 x = 64 - (Nat.size x.toNat : I32) := by
  rw [countZero64, if_neg (not_not.mpr (guard_passes x small))]
  have start : Searching 64 (32 + 32) x.toNat (64, x) := Searching.start 64 x 64 small (by omega)
  exact ((((start.step 32).step 16).step 8).step 4).step 2 |>.end

theorem countZero32_of_small (x : I64) (small : x.toNat < 2 ^ 31) :
    countZero32 x = 32 - (Nat.size x.toNat : I32) := by
  rw [countZero32, if_neg (not_not.mpr (guard_passes x small))]
  have start : Searching 32 (16 + 16) x.toNat (32, x) := Searching.start 32 x 32 small (by omega)
  exact (((start.step 16).step 8).step 4).step 2 |>.end

/-- From `2^31` on, read as unsigned, the guard reports an error. -/
theorem guard_stops (x : I64) (large : 2 ^ 31 ≤ x.toNat) : x.sshiftRight 31 ≠ 0 := by
  intro zero
  have shifted := congrArg BitVec.toInt zero
  rw [BitVec.toInt_sshiftRight, Int.shiftRight_eq_div_pow, BitVec.toInt_eq_toNat_cond] at shifted
  have bound := x.isLt
  simp at shifted
  split at shifted <;> omega

theorem countZero64_of_large (x : I64) (large : 2 ^ 31 ≤ x.toNat) : countZero64 x = -1 := by
  rw [countZero64, if_pos (guard_stops x large)]

theorem countZero32_of_large (x : I64) (large : 2 ^ 31 ≤ x.toNat) : countZero32 x = -1 := by
  rw [countZero32, if_pos (guard_stops x large)]

/-- The zeros above the leading bit of a 64-bit word, an error for negative ones, and so the bit
length the callers subtract from 64. -/
structure CountsZeros (x : I64) : Prop where
  nonneg : 0 ≤ x.toInt → (countZero64 x).toInt = 64 - Nat.size x.toNat
  negative : x.toInt < 0 → countZero64 x = -1
  length : x.toNat < 2 ^ 63 → (64 - countZero64 x).toInt = Nat.size x.toNat

/-- The guard tests bit 31 and not the sign, so the upper half of the non-negative words is taken
for an error. -/
theorem count_right_iff (x : I64) : CountsZeros x ↔ x.toInt < 2 ^ 31 := by
  have bound := x.isLt
  have value := BitVec.toInt_eq_toNat_cond x
  constructor
  · intro counts
    by_contra high
    have word := toInt_eq_toNat x (by omega)
    have size : Nat.size x.toNat ≤ 64 := Nat.size_le.mpr bound
    have zeros := counts.nonneg (by omega)
    rw [countZero64_of_large x (by omega), show (-1 : I32).toInt = -1 by decide] at zeros
    omega
  · intro below
    by_cases negative : x.toInt < 0
    · have large : 2 ^ 63 ≤ x.toNat := by split at value <;> omega
      refine ⟨?_, ?_, ?_⟩
      · intro nonneg
        omega
      · intro _
        exact countZero64_of_large x (by omega)
      · intro small
        omega
    · have word := toInt_eq_toNat x (by omega)
      have small : x.toNat < 2 ^ 31 := by omega
      have size : Nat.size x.toNat ≤ 31 := Nat.size_le.mpr small
      have count : ((Nat.size x.toNat : Nat) : I32).toInt = Nat.size x.toNat :=
        toInt_natCast _ (by omega)
      have sixtyFour : (64 : I32).toInt = 64 := by decide
      refine ⟨?_, ?_, ?_⟩
      · intro _
        rw [countZero64_of_small x small, toInt_sub_of_fits _ _ (by omega) (by omega), count,
          sixtyFour]
      · intro below
        omega
      · intro _
        rw [countZero64_of_small x small, sub_sub_cancel, count]

/-- The first word whose leading bit the guard takes for an error. -/
theorem bit_thirty_one_not_counted : ¬∀ x : I64, CountsZeros x := by
  intro counts
  have zeros := (counts (2 ^ 31)).nonneg (by decide)
  have error : (countZero64 (2 ^ 31)).toInt = -1 := by decide
  have length : Nat.size (2 ^ 31 : I64).toNat = 32 := by
    rw [show (2 ^ 31 : I64).toNat = 2 ^ 31 by decide, Nat.size_pow]
  omega

/-! ### The common tail -/

theorem allowed_toInt (sum : I64) (small : sum.toNat < 2 ^ 31) :
    (64 - countZero64 sum).toInt = Nat.size sum.toNat := by
  have size : Nat.size sum.toNat ≤ 31 := Nat.size_le.mpr small
  rw [countZero64_of_small sum small, sub_sub_cancel, toInt_natCast _ (by omega)]

/-- A sum with at least `q` bits keeps its scale. -/
theorem rescale_keeps (target : Target) (sum : I64) (q : I32) (small : sum.toNat < 2 ^ 31)
    (enough : q.toInt ≤ Nat.size sum.toNat) :
    rescale target sum q = ⟨sum.setWidth 32, q⟩ := by
  rw [rescale, allowed_toInt sum small, if_neg (by omega)]

/-- A shorter sum loses as many bits as it is short of `q`. -/
theorem rescale_cuts (target : Target) (sum : I64) (q : I32) (small : sum.toNat < 2 ^ 31)
    (short : (Nat.size sum.toNat : Int) < q.toInt) :
    rescale target sum q =
      ⟨(target.shr64 sum (q - (Nat.size sum.toNat : I32))).setWidth 32,
        (Nat.size sum.toNat : I32)⟩ := by
  have allowed : 64 - countZero64 sum = (Nat.size sum.toNat : I32) := by
    rw [countZero64_of_small sum small, sub_sub_cancel]
  rw [rescale, allowed_toInt sum small, if_pos short, allowed]

/-- Below `2^31` the tail cuts the sum. -/
theorem rescale_eq_cut (target : Target) (sum : I64) (q : I32) (small : sum.toNat < 2 ^ 31)
    (nonneg : 0 ≤ q.toInt) (bounded : q.toInt < 64) :
    rescale target sum q =
      ⟨(cutNumber q.toNat sum.toNat : I32), (cutScale q.toNat sum.toNat : I32)⟩ := by
  have scale := toInt_eq_toNat q nonneg
  have size : Nat.size sum.toNat ≤ 31 := Nat.size_le.mpr small
  by_cases short : (Nat.size sum.toNat : Int) < q.toInt
  · have amount : (q - (Nat.size sum.toNat : I32)).toNat = q.toNat - Nat.size sum.toNat := by
      rw [BitVec.toNat_sub_of_le]
      · rw [toNat_natCast _ (by omega)]
      · rw [BitVec.le_def, toNat_natCast _ (by omega)]
        omega
    have less : cutNumber q.toNat sum.toNat ≤ sum.toNat := cutNumber_le _ _
    have keeps : cutScale q.toNat sum.toNat = Nat.size sum.toNat := min_eq_right (by omega)
    rw [rescale_cuts target sum q small short, Target.shr64_in_range target _ _ (by omega), amount,
      keeps]
    congr 1
    apply BitVec.eq_of_toNat_eq
    rw [BitVec.toNat_setWidth, BitVec.toNat_ushiftRight, Nat.shiftRight_eq_div_pow,
      toNat_natCast _ (by omega)]
    exact Nat.mod_eq_of_lt (by change cutNumber q.toNat sum.toNat < 2 ^ 32; omega)
  · rw [rescale_keeps target sum q small (by omega), cutNumber_of_long _ _ (by omega),
      cutScale_of_long _ _ (by omega), natCast_toNat]
    congr 1

/-- Out of the counter's range, negative sums included, every bit is kept. -/
theorem rescale_large (target : Target) (sum : I64) (q : I32) (large : 2 ^ 31 ≤ sum.toNat)
    (scale : q.toInt ≤ 65) : rescale target sum q = ⟨sum.setWidth 32, q⟩ := by
  have allowed : (64 - countZero64 sum : I32).toInt = 65 := by
    rw [countZero64_of_large sum large]
    decide
  rw [rescale, allowed, if_neg (by omega)]

theorem rescale_long (target : Target) (n q : I32) (long : 2 ^ 15 ≤ n.toNat)
    (scale : q.toInt ≤ 16) : rescale target (n.signExtend 64) q = ⟨n, q⟩ := by
  have word := setWidth_signExtend n
  have wide := long.trans (toNat_le_signExtend n)
  by_cases small : (n.signExtend 64).toNat < 2 ^ 31
  · have size : 15 < Nat.size (n.signExtend 64).toNat := Nat.lt_size.mpr wide
    rw [rescale_keeps target _ q small (by omega), word]
  · rw [rescale_large target _ q (by omega) (by omega), word]

/-- Zero ends at scale zero. -/
theorem rescale_zero (target : Target) (q : I32) (nonneg : 0 ≤ q.toInt) (bounded : q.toInt < 64) :
    rescale target 0 q = ⟨0, 0⟩ := by
  have none : (0 : I64).toNat = 0 := rfl
  rw [rescale_eq_cut target 0 q (by decide) nonneg bounded, none, cutNumber, cutScale, Nat.zero_div,
    Nat.size_zero, Nat.min_zero]
  rfl

/-- Nothing else does, unless truncation to 32 bits hides it. -/
theorem eq_zero_of_rescale_zero (target : Target) (sum : I64) (q : I32) (bounded : q.toInt ≤ 65)
    (visible : q = 0 → sum.setWidth 32 = (0 : I32) → sum = 0)
    (zero : rescale target sum q = ⟨0, 0⟩) : sum = 0 := by
  by_cases small : sum.toNat < 2 ^ 31
  · by_cases short : (Nat.size sum.toNat : Int) < q.toInt
    · rw [rescale_cuts target sum q small short, FixedPoint.mk.injEq] at zero
      have size : Nat.size sum.toNat ≤ 31 := Nat.size_le.mpr small
      have none : ((Nat.size sum.toNat : Nat) : I32).toNat = 0 := by rw [zero.2]; rfl
      rw [toNat_natCast _ (by omega), Nat.size_eq_zero] at none
      exact BitVec.eq_of_toNat_eq none
    · rw [rescale_keeps target sum q small (by omega), FixedPoint.mk.injEq] at zero
      exact visible zero.2 zero.1
  · rw [rescale_large target sum q (by omega) bounded, FixedPoint.mk.injEq] at zero
    exact visible zero.2 zero.1

/-- A zero dividend, whatever the divisor. -/
theorem divide_zero (target : Target) (q : I32) (second : FixedPoint)
    (nonneg : 0 ≤ (maxScale q second.q).toInt) (bounded : (maxScale q second.q).toInt ≤ 32) :
    (divide target ⟨0, q⟩ second).result = ⟨0, 0⟩ := by
  have scale := toInt_eq_toNat _ nonneg
  have within : (maxScale q second.q).toNat ≤ (32 : I32).toNat := by
    change _ ≤ 32
    omega
  have amount : (32 - maxScale q second.q).toNat < 64 := by
    rw [BitVec.toNat_sub_of_le (BitVec.le_def.mpr within)]
    exact (Nat.sub_le _ _).trans_lt (by decide)
  have nothing : ((0 : I32).signExtend 64 <<< 32) / second.number.signExtend 64 = 0#64 := by
    rw [show (0 : I32).signExtend 64 <<< 32 = 0#64 by decide]
    exact BitVec.zero_udiv
  simp only [divide_eq]
  rw [nothing, Target.shr64_in_range target _ _ amount, BitVec.zero_ushiftRight]
  exact rescale_zero target _ nonneg (by omega)

/-! ### Logarithms -/

theorem logTable_lt (index : Nat) : logTable.getD index 0 < 2 ^ 24 := by
  have table : ∀ entry ∈ logTable, entry < 2 ^ 24 := by decide +kernel
  rw [List.getD_eq_getElem?_getD]
  cases found : logTable[index]? with
  | none => decide
  | some entry => exact table entry (List.mem_of_getElem? found)

theorem logEntry_toNat (index : BitVec 8) :
    (logEntry index).toNat = logTable.getD index.toNat 0 := by
  have entry := logTable_lt index.toNat
  rw [logEntry, BitVec.toNat_ofNat, Nat.mod_eq_of_lt (by omega)]

theorem logEntry_lt (index : BitVec 8) : (logEntry index).toNat < 2 ^ 24 := by
  rw [logEntry_toNat]
  exact logTable_lt index.toNat

theorem integerPart_toInt (e : I32) (low : -128 ≤ e.toInt) (high : e.toInt ≤ 30) :
    ((e <<< 24).signExtend 64).toInt = e.toInt * 2 ^ 24 := by
  have power : (BitVec.twoPow 32 24).toInt = 2 ^ 24 := by decide
  rw [BitVec.toInt_signExtend_of_le (by decide), BitVec.shiftLeft_eq_mul_twoPow, BitVec.toInt_mul,
    power]
  exact Int.bmod_eq_of_le (by omega) (by omega)

theorem entry_toInt (t : I64) (entry : t.toNat < 2 ^ 24) : t.toInt = t.toNat :=
  BitVec.toInt_eq_toNat_of_lt (by omega)

/-- The library's logarithm: the table entry alone is shifted. -/
theorem shiftedEntry_toInt (e : I32) (t : I64) (s : Nat) (low : -128 ≤ e.toInt)
    (high : e.toInt ≤ 30) (entry : t.toNat < 2 ^ 24) :
    (((e <<< 24).signExtend 64 + t >>> s).setWidth 32 : I32).toInt =
      e.toInt * 2 ^ 24 + ((t.toNat / 2 ^ s : Nat) : Int) := by
  have less : t.toNat / 2 ^ s ≤ t.toNat := Nat.div_le_self _ _
  have part := integerPart_toInt e low high
  have shifted : (t >>> s).toNat = t.toNat / 2 ^ s := by
    rw [BitVec.toNat_ushiftRight, Nat.shiftRight_eq_div_pow]
  have sum : ((e <<< 24).signExtend 64 + t >>> s).toInt =
      e.toInt * 2 ^ 24 + ((t.toNat / 2 ^ s : Nat) : Int) := by
    rw [BitVec.toInt_add, part, entry_toInt _ (by omega), shifted]
    exact Int.bmod_eq_of_le (by omega) (by omega)
  rw [toInt_setWidth_of_fits _ (by omega) (by omega), sum]

theorem leadingZero_of_nonpos (number : I32) (nonpos : number.toInt ≤ 0) :
    ¬ (0 ≤ (countZero32 (number.signExtend 64)).toInt ∧
      (countZero32 (number.signExtend 64)).toInt < 32) := by
  rcases nonpos.eq_or_lt with zero | negative
  · have none : number = 0 := BitVec.eq_of_toInt_eq zero
    rw [none]
    decide
  · have large : 2 ^ 31 ≤ number.toNat := by
      have value := BitVec.toInt_eq_toNat_cond number
      split at value <;> omega
    rw [countZero32_of_large _ (large.trans (toNat_le_signExtend number))]
    decide

theorem size_of_pos (number : I32) (positive : 0 < number.toInt) :
    1 ≤ Nat.size number.toNat ∧ Nat.size number.toNat ≤ 31 := by
  have value := toInt_eq_toNat number positive.le
  have bound := BitVec.toInt_lt (x := number)
  exact ⟨Nat.size_pos.mpr (by omega), Nat.size_le.mpr (by omega)⟩

theorem leadingZero_toInt (number : I32) (positive : 0 < number.toInt) :
    (countZero32 (number.signExtend 64)).toInt = 32 - Nat.size number.toNat := by
  have bits := size_of_pos number positive
  have small : number.toNat < 2 ^ 31 := Nat.size_le.mp bits.2
  have value : (number.signExtend 64).toNat = number.toNat := toNat_signExtend_of_small number small
  have count : ((Nat.size number.toNat : Nat) : I32).toInt = Nat.size number.toNat :=
    toInt_natCast _ (by omega)
  have thirtyTwo : (32 : I32).toInt = 32 := by decide
  rw [countZero32_of_small _ (by omega), value, toInt_sub_of_fits _ _ (by omega) (by omega), count,
    thirtyTwo]

theorem leadingZero_of_pos (number : I32) (positive : 0 < number.toInt) :
    0 ≤ (countZero32 (number.signExtend 64)).toInt ∧
      (countZero32 (number.signExtend 64)).toInt < 32 := by
  have bits := size_of_pos number positive
  rw [leadingZero_toInt number positive]
  omega

/-- The integer part of the logarithm of `number / 2^q`. -/
theorem exponent_toInt (number : FixedPoint) (positive : 0 < number.number.toInt)
    (nonneg : 0 ≤ number.q.toInt) (bounded : number.q.toInt ≤ 31) :
    (31 - number.q - countZero32 (number.number.signExtend 64)).toInt =
      Nat.size number.number.toNat - 1 - number.q.toNat := by
  have scale := toInt_eq_toNat number.q nonneg
  have zeros := leadingZero_toInt number.number positive
  have bits := size_of_pos number.number positive
  have thirtyOne : (31 : I32).toInt = 31 := by decide
  have first : (31 - number.q).toInt = 31 - number.q.toInt := by
    rw [toInt_sub_of_fits _ _ (by omega) (by omega), thirtyOne]
  rw [toInt_sub_of_fits _ _ (by omega) (by omega), first, zeros]
  omega

theorem tableShift_toNat (q : I32) (nonneg : 0 ≤ q.toInt) (bounded : q.toInt ≤ 24) :
    (24 - q).toNat = 24 - q.toNat := by
  have scale := toInt_eq_toNat q nonneg
  apply BitVec.toNat_sub_of_le
  rw [BitVec.le_def]
  change q.toNat ≤ 24
  omega

theorem calcLog_q (target : Target) (number : FixedPoint) : (calcLog target number).q = 8 := by
  unfold calcLog
  dsimp only
  split <;> rfl

/-- Nothing but a positive number has a logarithm other than zero. -/
theorem calcLog_of_nonpos (target : Target) (number : FixedPoint)
    (nonpos : number.number.toInt ≤ 0) : calcLog target number = ⟨0, 8⟩ := by
  rw [calcLog, if_neg (leadingZero_of_nonpos number.number nonpos)]

theorem calcLog_of_pos (target : Target) (number : FixedPoint)
    (positive : 0 < number.number.toInt) (nonneg : 0 ≤ number.q.toInt)
    (bounded : number.q.toInt ≤ 24) :
    calcLog target number =
      ⟨(((31 - number.q - countZero32 (number.number.signExtend 64)) <<< 24).signExtend 64 +
          logEntry (logIndex target number.number (countZero32 (number.number.signExtend 64))) >>>
            (24 - number.q.toNat)).setWidth 32, 8⟩ := by
  have amount := tableShift_toNat number.q nonneg bounded
  rw [calcLog, if_pos (leadingZero_of_pos number.number positive),
    Target.shr64_in_range target _ _ (by omega), amount]

/-- The entry `calc_log` reads for a number. -/
def tableEntry (target : Target) (number : I32) : Nat :=
  (logEntry (logIndex target number (countZero32 (number.signExtend 64)))).toNat

/-- The integer part keeps 24 fraction bits; the table entry is cut to `q` of them. -/
theorem calcLog_toInt (target : Target) (number : FixedPoint) (positive : 0 < number.number.toInt)
    (nonneg : 0 ≤ number.q.toInt) (bounded : number.q.toInt ≤ 24) :
    (calcLog target number).number.toInt =
      (Nat.size number.number.toNat - 1 - number.q.toNat) * 2 ^ 24 +
        ((tableEntry target number.number / 2 ^ (24 - number.q.toNat) : Nat) : Int) := by
  have scale := toInt_eq_toNat number.q nonneg
  have exponent := exponent_toInt number positive nonneg (by omega)
  have bits := size_of_pos number.number positive
  rw [calcLog_of_pos target number positive nonneg bounded,
    shiftedEntry_toInt _ _ _ (by omega) (by omega) (logEntry_lt _), exponent]
  rfl

/-! ### Quotients -/

/-- For non-negative numbers the two truncations of `divide` amount to one. -/
theorem quotient_toNat (target : Target) (n m q : I32) (dividend : n.toNat < 2 ^ 31)
    (divisor : m.toNat < 2 ^ 31) (scale : q.toNat ≤ 32) :
    (target.shr64 ((n.signExtend 64 <<< 32) / m.signExtend 64) (32 - q)).toNat =
      n.toNat * 2 ^ q.toNat / m.toNat := by
  have amount : (32 - q : I32).toNat = 32 - q.toNat :=
    BitVec.toNat_sub_of_le (by simpa [BitVec.le_def] using scale)
  have widened : (n.signExtend 64 <<< 32).toNat = n.toNat * 2 ^ 32 := by
    rw [BitVec.toNat_shiftLeft, toNat_signExtend_of_small n dividend, Nat.shiftLeft_eq]
    exact Nat.mod_eq_of_lt (by omega)
  rw [Target.shr64_in_range target _ _ (by omega), amount, BitVec.toNat_ushiftRight,
    BitVec.toNat_udiv, widened, toNat_signExtend_of_small m divisor, Nat.shiftRight_eq_div_pow]
  exact div_shift_div n.toNat m.toNat q.toNat 32 scale

/-! ### Absolute values -/

theorem mask_of_nonneg (n : I32) (nonneg : 0 ≤ n.toInt) : n.sshiftRight 31 = 0 := by
  apply BitVec.eq_of_toInt_eq
  have bound := BitVec.toInt_lt (x := n)
  rw [BitVec.toInt_sshiftRight, Int.shiftRight_eq_div_pow]
  exact Int.ediv_eq_zero_of_lt nonneg (by norm_num; omega)

theorem mask_of_neg (n : I32) (negative : n.toInt < 0) : n.sshiftRight 31 = BitVec.allOnes 32 := by
  apply BitVec.eq_of_toInt_eq
  have bound := BitVec.le_toInt n
  have ones : (BitVec.allOnes 32).toInt = -1 := by decide
  rw [BitVec.toInt_sshiftRight, Int.shiftRight_eq_div_pow, ones]
  norm_num
  omega

/-- Every number but the least one has an absolute value. -/
theorem absVal_toInt (x : FixedPoint) (least : -2 ^ 31 < x.number.toInt) :
    (absVal x).number.toInt = |x.number.toInt| := by
  have bound := BitVec.toInt_lt (x := x.number)
  by_cases negative : x.number.toInt < 0
  · have ones : BitVec.allOnes 32 = (-1 : I32) := by decide
    have flipped : (absVal x).number = -x.number := by
      rw [absVal, mask_of_neg x.number negative, BitVec.xor_allOnes, BitVec.not_eq_neg_add, ones]
      change -(x.number + -1) - 1 = -x.number
      ring
    rw [flipped, BitVec.toInt_neg, abs_of_neg negative]
    exact Int.bmod_eq_of_le (by omega) (by omega)
  · have kept : (absVal x).number = x.number := by
      rw [absVal, mask_of_nonneg x.number (by omega)]
      change (x.number + 0) ^^^ 0 = x.number
      rw [add_zero]
      exact BitVec.xor_zero
    rw [kept, abs_of_nonneg (by omega)]

end Fide.FixedPoint
