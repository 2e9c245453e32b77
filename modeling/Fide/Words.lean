import Mathlib

/-! Fixed-width words with the shifts C leaves undefined kept as a parameter.

Addition, multiplication and the conversions wrap as two's complement. A shift by an amount
outside the width is undefined in C, and the instruction a compiler emits for it decides the
result; `Target` holds that result, so a theorem over every `Target` rests on no choice. -/

namespace Fide.Words

abbrev I32 := BitVec 32
abbrev I64 := BitVec 64

theorem toNat_natCast {w : Nat} (n : Nat) (small : n < 2 ^ w) :
    ((n : Nat) : BitVec w).toNat = n := by
  rw [BitVec.natCast_eq_ofNat, BitVec.toNat_ofNat, Nat.mod_eq_of_lt small]

theorem natCast_toNat {w : Nat} (x : BitVec w) : ((x.toNat : Nat) : BitVec w) = x := by
  rw [BitVec.natCast_eq_ofNat, BitVec.ofNat_toNat, BitVec.setWidth_eq]

theorem intCast_toInt (x : I32) : ((x.toInt : Int) : I32) = x := by
  apply BitVec.eq_of_toInt_eq
  rw [BitVec.toInt_intCast, BitVec.toInt_bmod_cancel]

theorem intCast_sum_toInt (xs : List I32) : (((xs.map BitVec.toInt).sum : Int) : I32) = xs.sum := by
  induction xs with
  | nil => rfl
  | cons x rest ih =>
      rw [List.map_cons, List.sum_cons, Int.cast_add, ih, intCast_toInt, List.sum_cons]

theorem toInt_natCast (n : Nat) (small : n < 2 ^ 31) : ((n : Nat) : I32).toInt = n := by
  have value : ((n : Nat) : I32).toNat = n := toNat_natCast n (by omega)
  rw [BitVec.toInt_eq_toNat_of_lt (by omega), value]

theorem toInt_eq_toNat {w : Nat} (x : BitVec w) (nonneg : 0 ≤ x.toInt) : x.toInt = x.toNat := by
  have value := BitVec.toInt_eq_toNat_cond x
  have bound := x.isLt
  split at value <;> omega

theorem toNat_signExtend_of_small (x : I32) (small : x.toNat < 2 ^ 31) :
    (x.signExtend 64).toNat = x.toNat := by
  have positive : x.msb = false := by
    rw [BitVec.msb_eq_false_iff_two_mul_lt]
    omega
  rw [BitVec.toNat_signExtend, positive, BitVec.toNat_setWidth_of_le (by decide)]
  simp

theorem toNat_le_signExtend (x : I32) : x.toNat ≤ (x.signExtend 64).toNat := by
  rw [BitVec.toNat_signExtend, BitVec.toNat_setWidth_of_le (by decide)]
  exact Nat.le_add_right _ _

theorem setWidth_signExtend (x : I32) : (x.signExtend 64).setWidth 32 = x := by
  apply BitVec.eq_of_getLsbD_eq
  intro i inside
  simp only [BitVec.getLsbD_setWidth, BitVec.getLsbD_signExtend, inside, decide_true,
    Bool.true_and, ↓reduceIte, Bool.and_eq_right_iff_imp, decide_eq_true_eq]
  omega

theorem toInt_sub_of_fits (x y : I32) (low : -2 ^ 31 ≤ x.toInt - y.toInt)
    (high : x.toInt - y.toInt < 2 ^ 31) : (x - y).toInt = x.toInt - y.toInt := by
  rw [BitVec.toInt_sub]
  exact Int.bmod_eq_of_le (by omega) (by omega)

theorem toInt_mul_neg_one (x : I32) (least : -2 ^ 31 < x.toInt) : (x * -1).toInt = -x.toInt := by
  have high := BitVec.toInt_lt (x := x)
  rw [BitVec.toInt_mul, show (-1 : I32).toInt = -1 by decide, mul_neg_one]
  exact Int.bmod_eq_of_le (by omega) (by omega)

theorem toInt_succ (x : I32) (room : x.toInt < 2 ^ 31 - 1) : (x + 1).toInt = x.toInt + 1 := by
  have low := BitVec.le_toInt x
  rw [BitVec.toInt_add]
  exact Int.bmod_eq_of_le (by change _ ≤ x.toInt + 1; omega) (by change x.toInt + 1 < _; omega)

/-- A word whose value fits 32 bits keeps it when truncated. -/
theorem toInt_setWidth_of_fits (x : I64) (low : -2 ^ 31 ≤ x.toInt) (high : x.toInt < 2 ^ 31) :
    (x.setWidth 32 : I32).toInt = x.toInt := by
  have value := BitVec.toInt_eq_toNat_cond x
  have bound := x.isLt
  rw [BitVec.toInt_setWidth, Int.bmod_def]
  split at value <;> split <;> omega

/-- The low bits do not see which bits a shift brings in at the top. -/
theorem setWidth_ushiftRight {w : Nat} (v : Nat) (x : BitVec w) (s : Nat) (room : s + v ≤ w) :
    (x >>> s).setWidth v = (x.sshiftRight s).setWidth v := by
  apply BitVec.eq_of_getLsbD_eq
  intro i inside
  have reached : s + i < w := by omega
  simp only [BitVec.getLsbD_setWidth, inside, decide_true, Bool.true_and, BitVec.getLsbD_ushiftRight,
    BitVec.getLsbD_sshiftRight, reached, ↓reduceIte]
  rw [decide_eq_false (by omega)]
  rfl

/-- The results of shifts whose amount is negative or not below the width. -/
structure Target where
  wildShl32 : I32 → I32 → I32
  wildSar32 : I32 → I32 → I32
  wildShl64 : I64 → I32 → I64
  wildShr64 : I64 → I32 → I64
  wildSar64 : I64 → I32 → I64

/-- Shift instructions that look only at the low five or six bits of the amount. -/
def masking : Target where
  wildShl32 x amount := x <<< (amount.toNat % 32)
  wildSar32 x amount := x.sshiftRight (amount.toNat % 32)
  wildShl64 x amount := x <<< (amount.toNat % 64)
  wildShr64 x amount := x >>> (amount.toNat % 64)
  wildSar64 x amount := x.sshiftRight (amount.toNat % 64)

namespace Target

variable (target : Target)

/-- `int32_t << int`; a negative amount is a large unsigned one. -/
def shl32 (x amount : I32) : I32 :=
  if amount.toNat < 32 then x <<< amount.toNat else target.wildShl32 x amount

/-- `int32_t >> int`. -/
def sar32 (x amount : I32) : I32 :=
  if amount.toNat < 32 then x.sshiftRight amount.toNat else target.wildSar32 x amount

/-- `uint64_t << int`. -/
def shl64 (x : I64) (amount : I32) : I64 :=
  if amount.toNat < 64 then x <<< amount.toNat else target.wildShl64 x amount

/-- `uint64_t >> int`. -/
def shr64 (x : I64) (amount : I32) : I64 :=
  if amount.toNat < 64 then x >>> amount.toNat else target.wildShr64 x amount

/-- `int64_t >> int`. -/
def sar64 (x : I64) (amount : I32) : I64 :=
  if amount.toNat < 64 then x.sshiftRight amount.toNat else target.wildSar64 x amount

theorem shl32_in_range (x amount : I32) (range : amount.toNat < 32) :
    target.shl32 x amount = x <<< amount.toNat := by
  rw [shl32, if_pos range]

theorem shr64_in_range (x : I64) (amount : I32) (range : amount.toNat < 64) :
    target.shr64 x amount = x >>> amount.toNat := by
  rw [shr64, if_pos range]

theorem sar64_in_range (x : I64) (amount : I32) (range : amount.toNat < 64) :
    target.sar64 x amount = x.sshiftRight amount.toNat := by
  rw [sar64, if_pos range]

/-- A shift of zero out of range is zero, as on machines that mask the amount and on those that
shift everything out. -/
def KeepsZero : Prop := ∀ amount, target.wildShr64 0 amount = 0

theorem shr64_zero (keeps : target.KeepsZero) (amount : I32) : target.shr64 0 amount = 0 := by
  rw [shr64]
  split
  · exact BitVec.zero_ushiftRight
  · exact keeps amount

theorem masking_keepsZero : masking.KeepsZero := fun _ => BitVec.zero_ushiftRight

@[simp] theorem shl32_zero (x : I32) : target.shl32 x 0#32 = x := by
  rw [shl32_in_range target x 0#32 (by decide)]
  simp

theorem shl32_one (bits : Nat) (range : bits < 32) :
    target.shl32 1 ((bits : Nat) : I32) = ((2 ^ bits : Nat) : I32) := by
  have amount : ((bits : Nat) : I32).toNat = bits := toNat_natCast bits (by omega)
  rw [shl32_in_range target 1 _ (by omega), amount]
  apply BitVec.eq_of_toNat_eq
  rw [BitVec.toNat_shiftLeft, toNat_natCast _ (Nat.pow_lt_pow_right (by omega) range),
    Nat.shiftLeft_eq]
  exact (congrArg (· % 2 ^ 32) (Nat.one_mul _)).trans
    (Nat.mod_eq_of_lt (Nat.pow_lt_pow_right (by omega) range))

end Target

end Fide.Words
