import Fide.FixedPointValue

/-! Products of operands with 16 fraction bits.

The operands are split into a signed high half and an unsigned low half, and the product is put
together from the four products of the halves, in 32 bits. -/

namespace Fide.FixedPoint

open Words

/-! ### Halves -/

/-- The integer part of a number with 16 fraction bits. -/
def highHalf (x : I32) : Int := x.toInt / 2 ^ 16

/-- Its fraction bits. -/
def lowHalf (x : I32) : Int := x.toInt % 2 ^ 16

theorem halves (x : I32) : x.toInt = highHalf x * 2 ^ 16 + lowHalf x := by
  rw [highHalf, lowHalf]
  omega

theorem highHalf_bounds (x : I32) : -2 ^ 15 ≤ highHalf x ∧ highHalf x ≤ 2 ^ 15 - 1 := by
  have low := BitVec.le_toInt x
  have high := BitVec.toInt_lt (x := x)
  rw [highHalf]
  omega

theorem lowHalf_bounds (x : I32) : 0 ≤ lowHalf x ∧ lowHalf x ≤ 2 ^ 16 - 1 := by
  rw [lowHalf]
  omega

theorem high32_eq (x q : I32) : high32 ⟨x, q⟩ = BitVec.ofInt 32 (highHalf x) := by
  apply BitVec.eq_of_toInt_eq
  have bounds := highHalf_bounds x
  have kept : (highHalf x).bmod (2 ^ 32) = highHalf x := Int.bmod_eq_of_le (by omega) (by omega)
  rw [high32, BitVec.toInt_sshiftRight, Int.shiftRight_eq_div_pow, BitVec.toInt_ofInt, kept]
  rfl

theorem low32_eq (x q : I32) : low32 ⟨x, q⟩ = BitVec.ofInt 32 (lowHalf x) := by
  have value := BitVec.toInt_eq_toNat_cond x
  have residue : lowHalf x = (x.toNat % 2 ^ 16 : Nat) := by
    rw [lowHalf]
    split at value <;> omega
  apply BitVec.eq_of_toNat_eq
  rw [low32, BitVec.toNat_and, BitVec.toNat_ofInt, residue]
  change x.toNat &&& (2 ^ 16 - 1) = _
  rw [Nat.and_two_pow_sub_one_eq_mod]
  omega

/-! ### Shifts of integers -/

theorem shl32_ofInt (target : Target) (v : Int) (amount : I32) (range : amount.toNat < 32) :
    target.shl32 (BitVec.ofInt 32 v) amount = BitVec.ofInt 32 (v * 2 ^ amount.toNat) := by
  have power : BitVec.twoPow 32 amount.toNat = BitVec.ofInt 32 (2 ^ amount.toNat) := by
    apply BitVec.eq_of_toNat_eq
    rw [BitVec.toNat_twoPow, BitVec.toNat_ofInt]
    norm_cast
  rw [Target.shl32_in_range target _ _ range, BitVec.shiftLeft_eq_mul_twoPow, power, BitVec.ofInt_mul]

theorem sar32_eq (target : Target) (x amount : I32) (range : amount.toNat < 32) :
    target.sar32 x amount = BitVec.ofInt 32 (x.toInt / 2 ^ amount.toNat) := by
  rw [Target.sar32, if_pos range, ← BitVec.ofInt_toInt (x := x.sshiftRight amount.toNat),
    BitVec.toInt_sshiftRight, Int.shiftRight_eq_div_pow, Nat.cast_pow, Nat.cast_two]

theorem sar32_zero (target : Target) (x : I32) : target.sar32 x 0#32 = x := by
  rw [sar32_eq target x 0#32 (by decide), show (0#32).toNat = 0 from rfl, pow_zero, Int.ediv_one,
    BitVec.ofInt_toInt]

/-! ### The four products -/

section Operands

variable (target : Target) (a b : I32)

/-- The product of the high halves, from which `multiply` takes the scale of its result. -/
def highProduct : Int := highHalf a * highHalf b

/-- The products of a high and a low half. -/
def crossProduct : Int := lowHalf a * highHalf b + highHalf a * lowHalf b

/-- The product of the low halves. -/
def lowProduct : Int := lowHalf a * lowHalf b

theorem product_eq :
    a.toInt * b.toInt = highProduct a b * 2 ^ 32 + crossProduct a b * 2 ^ 16 + lowProduct a b := by
  rw [halves a, halves b, highProduct, crossProduct, lowProduct]
  ring

theorem highProduct_bounds : -2 ^ 30 ≤ highProduct a b ∧ highProduct a b ≤ 2 ^ 30 := by
  have first := highHalf_bounds a
  have second := highHalf_bounds b
  have product : |highProduct a b| ≤ 2 ^ 15 * 2 ^ 15 := by
    rw [highProduct, abs_mul]
    exact mul_le_mul (abs_le.mpr (by omega)) (abs_le.mpr (by omega)) (abs_nonneg _) (by norm_num)
  exact abs_le.mp (product.trans (by norm_num))

theorem lowProduct_bounds : 0 ≤ lowProduct a b ∧ lowProduct a b < 2 ^ 32 := by
  have first := lowHalf_bounds a
  have second := lowHalf_bounds b
  refine ⟨mul_nonneg first.1 second.1, ?_⟩
  calc lowProduct a b ≤ (2 ^ 16 - 1) * (2 ^ 16 - 1) :=
        mul_le_mul first.2 second.2 second.1 (by norm_num)
    _ < 2 ^ 32 := by norm_num

/-- The product of the low halves is formed in 32 bits. -/
def wrappedLow : Int := (lowProduct a b).bmod (2 ^ 32)

theorem wrappedLow_eq :
    wrappedLow a b =
      if lowProduct a b < 2 ^ 31 then lowProduct a b else lowProduct a b - 2 ^ 32 := by
  have bounds := lowProduct_bounds a b
  rw [wrappedLow, Int.bmod_def]
  split <;> split <;> omega

/-- What `multiply` puts together at a scale of up to 16 bits, before it wraps. -/
def assembled (bits : Nat) : Int :=
  highProduct a b * 2 ^ bits + crossProduct a b * 2 ^ (16 - bits) + wrappedLow a b / 2 ^ (32 - bits)

/-- The scale `multiply` gives the result. -/
def productBits : I32 :=
  if (2 ^ 15 : Nat) < ((high32 ⟨a, 16⟩ * high32 ⟨b, 16⟩).signExtend 64).toNat then
    31 - (64 - countZero64 ((high32 ⟨a, 16⟩ * high32 ⟨b, 16⟩).signExtend 64))
  else 16

theorem threshold_toNat : (target.shl64 1 (32 - 16 - 1)).toNat = 2 ^ 15 := by
  have amount : ((32 : I32) - 16 - 1).toNat < 64 := by decide
  rw [Target.shl64, if_pos amount]
  rfl

theorem multiply_q : (multiply target ⟨a, 16⟩ ⟨b, 16⟩).result.q = productBits a b := by
  simp only [multiply, checkBit_eq, maxScale_self, threshold_toNat]
  rfl

theorem multiply_number (bits : Nat) (scale : productBits a b = (bits : I32)) (some : 1 ≤ bits)
    (few : bits ≤ 16) :
    (multiply target ⟨a, 16⟩ ⟨b, 16⟩).result.number = BitVec.ofInt 32 (assembled a b bits) := by
  have bitsNat : ((bits : Nat) : I32).toNat = bits := toNat_natCast bits (by omega)
  have bitsInt : ((bits : Nat) : I32).toInt = bits := toInt_natCast bits (by omega)
  have rest : (32 - (bits : I32)).toNat = 32 - bits := by
    rw [BitVec.toNat_sub_of_le (by rw [BitVec.le_def, bitsNat]; change bits ≤ 32; omega), bitsNat]
    rfl
  have highs : high32 ⟨a, 16⟩ * high32 ⟨b, 16⟩ = BitVec.ofInt 32 (highProduct a b) := by
    rw [high32_eq, high32_eq, ← BitVec.ofInt_mul, highProduct]
  have lows : (low32 ⟨a, 16⟩ * low32 ⟨b, 16⟩).toInt = wrappedLow a b := by
    rw [low32_eq, low32_eq, ← BitVec.ofInt_mul, BitVec.toInt_ofInt, wrappedLow, lowProduct]
  have lowHigh : low32 ⟨a, 16⟩ * high32 ⟨b, 16⟩ = BitVec.ofInt 32 (lowHalf a * highHalf b) := by
    rw [low32_eq, high32_eq, ← BitVec.ofInt_mul]
  have highLow : high32 ⟨a, 16⟩ * low32 ⟨b, 16⟩ = BitVec.ofInt 32 (highHalf a * lowHalf b) := by
    rw [low32_eq, high32_eq, ← BitVec.ofInt_mul]
  have top : target.shl32 (((high32 ⟨a, 16⟩ * high32 ⟨b, 16⟩).signExtend 64).setWidth 32)
      (bits : I32) = BitVec.ofInt 32 (highProduct a b * 2 ^ bits) := by
    rw [setWidth_signExtend, highs, shl32_ofInt target _ _ (by omega), bitsNat]
  have bottom : target.sar32 (low32 ⟨a, 16⟩ * low32 ⟨b, 16⟩) (32 - (bits : I32)) =
      BitVec.ofInt 32 (wrappedLow a b / 2 ^ (32 - bits)) := by
    rw [sar32_eq target _ _ (by omega), lows, rest]
  have same := scale
  rw [productBits] at same
  simp only [multiply, checkBit_eq, maxScale_self, threshold_toNat]
  rw [same, top, bottom, lowHigh, highLow, bitsInt]
  split
  · next full =>
      -- the cross products are shifted to the right by nothing
      have sixteen : bits = 16 := by omega
      have none : ((16 : Nat) : I32) - 16 = 0#32 := by decide
      subst sixteen
      simp only [none, sar32_zero, ← BitVec.ofInt_add]
      rw [assembled, crossProduct]
      congr 1
      ring
  · next short =>
      have amount : (16 - (bits : I32)).toNat = 16 - bits := by
        rw [BitVec.toNat_sub_of_le (by rw [BitVec.le_def, bitsNat]; change bits ≤ 16; omega),
          bitsNat]
        rfl
      simp only [shl32_ofInt target _ (16 - (bits : I32)) (by omega), amount, ← BitVec.ofInt_add]
      rw [assembled, crossProduct]
      congr 1
      ring

/-! ### The scale of a product -/

theorem highWord_toInt : (high32 ⟨a, 16⟩ * high32 ⟨b, 16⟩).toInt = highProduct a b := by
  have bounds := highProduct_bounds a b
  rw [high32_eq, high32_eq, ← BitVec.ofInt_mul, BitVec.toInt_ofInt]
  exact Int.bmod_eq_of_le (by change _ ≤ highProduct a b; omega)
    (by change highProduct a b < _; omega)

theorem highWord_toNat (nonneg : 0 ≤ highProduct a b) :
    ((high32 ⟨a, 16⟩ * high32 ⟨b, 16⟩).signExtend 64).toNat = (highProduct a b).toNat := by
  have bounds := highProduct_bounds a b
  have word := highWord_toInt a b
  have value := toInt_eq_toNat (high32 ⟨a, 16⟩ * high32 ⟨b, 16⟩) (by omega)
  rw [toNat_signExtend_of_small _ (by omega)]
  omega

theorem productBits_kept (nonneg : 0 ≤ highProduct a b) (small : highProduct a b ≤ 2 ^ 15) :
    productBits a b = 16 := by
  rw [productBits, highWord_toNat a b nonneg, if_neg (by omega)]

theorem productBits_reduced (large : 2 ^ 15 < highProduct a b) :
    productBits a b = ((31 - Nat.size (highProduct a b).toNat : Nat) : I32) := by
  have bounds := highProduct_bounds a b
  have word := highWord_toNat a b (by omega)
  have size : Nat.size (highProduct a b).toNat ≤ 31 := Nat.size_le.mpr (by omega)
  rw [productBits, word, if_pos (by omega), countZero64_of_small _ (by omega), word, sub_sub_cancel,
    Nat.cast_sub size]
  rfl

/-- A negative product of the high halves is read as a large unsigned one. -/
theorem productBits_of_neg (negative : highProduct a b < 0) : productBits a b = -34 := by
  have word := highWord_toInt a b
  have large := signExtend_of_neg (high32 ⟨a, 16⟩ * high32 ⟨b, 16⟩) (by omega)
  rw [productBits, if_pos (by omega), countZero64_of_large _ large]
  decide

theorem productBits_eq_sixteen_iff :
    productBits a b = 16 ↔ 0 ≤ highProduct a b ∧ highProduct a b ≤ 2 ^ 15 := by
  constructor
  · intro kept
    by_contra outside
    by_cases negative : highProduct a b < 0
    · rw [productBits_of_neg a b negative] at kept
      exact absurd kept (by decide)
    · have bounds := highProduct_bounds a b
      have size : 15 < Nat.size (highProduct a b).toNat := Nat.lt_size.mpr (by omega)
      rw [productBits_reduced a b (by omega)] at kept
      have bits := congrArg BitVec.toNat kept
      rw [toNat_natCast _ (by omega)] at bits
      change _ = 16 at bits
      omega
  · intro inside
    exact productBits_kept a b inside.1 inside.2

/-! ### Products in range -/

theorem number_kept (kept : productBits a b = 16) :
    (multiply target ⟨a, 16⟩ ⟨b, 16⟩).result.number.toInt =
      (highProduct a b * 2 ^ 16 + crossProduct a b + wrappedLow a b / 2 ^ 16).bmod (2 ^ 32) := by
  rw [multiply_number target a b 16 kept (by decide) le_rfl, BitVec.toInt_ofInt, assembled,
    Nat.sub_self, pow_zero, mul_one]

/-- A product in range is exact where the product of the high halves is neither negative nor beyond
the threshold of the scale test, and that of the low halves fits 32 bits. -/
theorem products_exact_iff (fits : Fits (a.toInt * b.toInt / 2 ^ 16)) :
    ((multiply target ⟨a, 16⟩ ⟨b, 16⟩).result.q = 16 ∧
      (multiply target ⟨a, 16⟩ ⟨b, 16⟩).result.number.toInt = a.toInt * b.toInt / 2 ^ 16) ↔
    0 ≤ highProduct a b ∧ highProduct a b ≤ 2 ^ 15 ∧ lowProduct a b < 2 ^ 31 := by
  have lows := lowProduct_bounds a b
  have wrapped := wrappedLow_eq a b
  have exact : a.toInt * b.toInt / 2 ^ 16 =
      highProduct a b * 2 ^ 16 + crossProduct a b + lowProduct a b / 2 ^ 16 := by
    rw [product_eq]
    omega
  rw [multiply_q, productBits_eq_sixteen_iff, and_assoc]
  apply and_congr_right
  intro nonneg
  apply and_congr_right
  intro small
  have number := number_kept target a b (productBits_kept a b nonneg small)
  rw [exact, Fits] at fits
  rw [number, exact]
  constructor
  · intro same
    by_contra overflow
    rw [wrapped, if_neg overflow, Int.bmod_def] at same
    split at same <;> omega
  · intro room
    rw [wrapped, if_pos room]
    exact Int.bmod_eq_of_le (by omega) (by omega)

/-! ### Large products -/

/-- What the cross products and the low product should add at a scale of `bits`. -/
def placed (bits : Nat) : Int := (crossProduct a b * 2 ^ 16 + lowProduct a b) / 2 ^ (32 - bits)

/-- What `multiply` adds for them: the cross products are shifted to the left instead of to the
right. -/
def misplaced (bits : Nat) : Int :=
  crossProduct a b * 2 ^ (16 - bits) + wrappedLow a b / 2 ^ (32 - bits)

theorem floor_eq (bits : Nat) (few : bits ≤ 32) :
    a.toInt * b.toInt / 2 ^ (32 - bits) = highProduct a b * 2 ^ bits + placed a b bits := by
  have power : (2 : Int) ^ 32 = 2 ^ bits * 2 ^ (32 - bits) := by
    rw [← pow_add, Nat.add_sub_cancel' few]
  rw [product_eq, placed, power, ← mul_assoc, add_assoc, add_comm, Int.add_mul_ediv_right _ _
    (by positivity), add_comm]

theorem nothing_misplaced (bits : Nat) (zero : lowHalf a = 0 ∧ lowHalf b = 0) :
    misplaced a b bits = placed a b bits := by
  have cross : crossProduct a b = 0 := by
    rw [crossProduct, zero.1, zero.2, zero_mul, mul_zero, add_zero]
  have low : lowProduct a b = 0 := by rw [lowProduct, zero.1, zero_mul]
  have wrapped : wrappedLow a b = 0 := by
    rw [wrappedLow, low]
    rfl
  rw [misplaced, placed, cross, low, wrapped, zero_mul, zero_mul, add_zero, Int.zero_ediv, add_zero]

section Large

variable (first : 0 ≤ a.toInt) (second : 0 ≤ b.toInt) (large : 2 ^ 15 < highProduct a b)

include first second large

/-- Both high halves are at least two, since neither reaches `2^15`. -/
theorem highHalves_two : 2 ≤ highHalf a ∧ 2 ≤ highHalf b := by
  have top := highHalf_bounds a
  have top' := highHalf_bounds b
  have nonneg : 0 ≤ highHalf a := Int.ediv_nonneg first (by norm_num)
  have nonneg' : 0 ≤ highHalf b := Int.ediv_nonneg second (by norm_num)
  rw [highProduct] at large
  constructor
  · by_contra small
    have product : highHalf a * highHalf b ≤ 1 * (2 ^ 15 - 1) :=
      mul_le_mul (by omega) top'.2 nonneg' (by norm_num)
    omega
  · by_contra small
    have product : highHalf a * highHalf b ≤ (2 ^ 15 - 1) * 1 :=
      mul_le_mul top.2 (by omega) nonneg' (by norm_num)
    omega

theorem crossProduct_two (some : ¬(lowHalf a = 0 ∧ lowHalf b = 0)) : 2 ≤ crossProduct a b := by
  obtain ⟨high, high'⟩ := highHalves_two a b first second large
  have low := lowHalf_bounds a
  have low' := lowHalf_bounds b
  have left : 2 * lowHalf a ≤ lowHalf a * highHalf b := by
    rw [mul_comm]
    exact mul_le_mul_of_nonneg_left high' low.1
  have right : 2 * lowHalf b ≤ highHalf a * lowHalf b := mul_le_mul_of_nonneg_right high low'.1
  rw [crossProduct]
  omega

/-- When the low product overflows, both low halves have their top bit. -/
theorem crossProduct_long (overflow : 2 ^ 31 ≤ lowProduct a b) : 2 ^ 17 ≤ crossProduct a b := by
  obtain ⟨high, high'⟩ := highHalves_two a b first second large
  have low := lowHalf_bounds a
  have low' := lowHalf_bounds b
  have left : 2 ^ 15 ≤ lowHalf a := by
    by_contra short
    have product : lowProduct a b ≤ (2 ^ 15 - 1) * (2 ^ 16 - 1) :=
      mul_le_mul (by omega) low'.2 low'.1 (by norm_num)
    omega
  have right : 2 ^ 15 ≤ lowHalf b := by
    by_contra short
    have product : lowProduct a b ≤ (2 ^ 16 - 1) * (2 ^ 15 - 1) :=
      mul_le_mul low.2 (by omega) low'.1 (by norm_num)
    omega
  have leftProduct : 2 ^ 15 * 2 ≤ lowHalf a * highHalf b :=
    mul_le_mul left high' (by norm_num) low.1
  have rightProduct : 2 * 2 ^ 15 ≤ highHalf a * lowHalf b :=
    mul_le_mul high right (by norm_num) (by omega)
  rw [crossProduct]
  omega

theorem placed_le (bits : Nat) (high : bits ≤ 15) (some : ¬(lowHalf a = 0 ∧ lowHalf b = 0)) :
    placed a b bits ≤ (crossProduct a b + 1) / 2 + lowProduct a b / 2 ^ (32 - bits) := by
  have cross := crossProduct_two a b first second large some
  have divisor : (2 : Int) ^ 17 ≤ 2 ^ (32 - bits) := pow_le_pow_right₀ (by decide) (by omega)
  have half : (crossProduct a b + 1) / 2 * 2 ^ 17 ≤ (crossProduct a b + 1) / 2 * 2 ^ (32 - bits) :=
    mul_le_mul_of_nonneg_left divisor (by omega)
  have sum : crossProduct a b * 2 ^ 16 + lowProduct a b ≤
      lowProduct a b + (crossProduct a b + 1) / 2 * 2 ^ (32 - bits) := by omega
  calc placed a b bits
      ≤ (lowProduct a b + (crossProduct a b + 1) / 2 * 2 ^ (32 - bits)) / 2 ^ (32 - bits) :=
        Int.ediv_le_ediv (by positivity) sum
    _ = (crossProduct a b + 1) / 2 + lowProduct a b / 2 ^ (32 - bits) := by
        rw [Int.add_mul_ediv_right _ _ (by positivity), add_comm]

omit first second large in
theorem wrappedLow_div (bits : Nat) (few : bits ≤ 32) :
    wrappedLow a b / 2 ^ (32 - bits) =
      lowProduct a b / 2 ^ (32 - bits) - if lowProduct a b < 2 ^ 31 then 0 else 2 ^ bits := by
  have power : (2 : Int) ^ 32 = 2 ^ bits * 2 ^ (32 - bits) := by
    rw [← pow_add, Nat.add_sub_cancel' few]
  rw [wrappedLow_eq]
  split
  · rw [sub_zero]
  · rw [power, sub_eq_add_neg, ← neg_mul, Int.add_mul_ediv_right _ _ (by positivity), sub_eq_add_neg]

/-- Whatever is shifted to the wrong side comes out too large by more than two, before it wraps. -/
theorem misplaced_gap (bits : Nat) (high : bits ≤ 15) (some : ¬(lowHalf a = 0 ∧ lowHalf b = 0)) :
    placed a b bits + 3 ≤ misplaced a b bits := by
  have right := placed_le a b first second large bits high some
  have cross := crossProduct_two a b first second large some
  have long := crossProduct_long a b first second large
  have power : (2 : Int) ^ 1 ≤ 2 ^ (16 - bits) := pow_le_pow_right₀ (by decide) (by omega)
  have whole : (2 : Int) ^ bits ≤ 2 ^ 15 := pow_le_pow_right₀ (by decide) high
  have shifted : crossProduct a b * 2 ^ 1 ≤ crossProduct a b * 2 ^ (16 - bits) :=
    mul_le_mul_of_nonneg_left power (by omega)
  rw [misplaced, wrappedLow_div a b bits (by omega)]
  split <;> omega

/-- The misplaced parts exceed the right ones by whole turns of the word, up to an error of two. -/
def WrapsBack (bits : Nat) : Prop :=
  ∃ turns error : Int, 1 ≤ turns ∧ |error| ≤ 2 ∧
    misplaced a b bits = placed a b bits + error + turns * 2 ^ 32 ∧
    Fits (a.toInt * b.toInt / 2 ^ (32 - bits) + error)

omit first second in
/-- A large product gets the scale that fits its high part. -/
theorem large_product_q :
    (multiply target ⟨a, 16⟩ ⟨b, 16⟩).result.q.toInt = 31 - Nat.size (highProduct a b).toNat := by
  have bounds := highProduct_bounds a b
  have size : Nat.size (highProduct a b).toNat ≤ 31 := Nat.size_le.mpr (by omega)
  rw [multiply_q, productBits_reduced a b large, toInt_natCast _ (by omega)]
  omega

omit first in
theorem highProduct_size :
    16 ≤ Nat.size (highProduct a b).toNat ∧ Nat.size (highProduct a b).toNat ≤ 30 := by
  have top := highHalf_bounds a
  have top' := highHalf_bounds b
  have nonneg : 0 ≤ highHalf b := Int.ediv_nonneg second (by norm_num)
  have product : highProduct a b ≤ (2 ^ 15 - 1) * (2 ^ 15 - 1) :=
    mul_le_mul top.2 top'.2 nonneg (by norm_num)
  exact ⟨Nat.lt_size.mpr (by omega), Nat.size_le.mpr (by omega)⟩

omit first in
/-- The number is the exact one up to the misplaced parts and whole turns of the word. -/
theorem large_product_number (bits : Nat) (scale : bits = 31 - Nat.size (highProduct a b).toNat) :
    ∃ turns : Int, (multiply target ⟨a, 16⟩ ⟨b, 16⟩).result.number.toInt =
      a.toInt * b.toInt / 2 ^ (32 - bits) + (misplaced a b bits - placed a b bits) -
        turns * 2 ^ 32 := by
  have size := highProduct_size a b second large
  have reduced := productBits_reduced a b large
  rw [← scale] at reduced
  have number := multiply_number target a b bits reduced (by omega) (by omega)
  rw [number, BitVec.toInt_ofInt, floor_eq a b bits (by omega)]
  obtain ⟨turns, whole⟩ : ((2 ^ 32 : Nat) : Int) ∣
      (assembled a b bits).bmod (2 ^ 32) - assembled a b bits := Int.dvd_bmod_sub_self
  have parts : assembled a b bits = highProduct a b * 2 ^ bits + misplaced a b bits := by
    rw [assembled, misplaced, add_assoc]
  generalize (assembled a b bits).bmod (2 ^ 32) = wrapped at whole
  refine ⟨-turns, ?_⟩
  push_cast at whole
  omega

end Large

end Operands

/-- A large product is right to within two, where the exact one fits, only when there is nothing to
misplace or the misplaced parts wrap back to their place. -/
theorem large_products_rescaled_iff (target : Target) (a b : I32) (first : 0 ≤ a.toInt)
    (second : 0 ≤ b.toInt) (large : 2 ^ 15 < highProduct a b) :
    let bits := 31 - Nat.size (highProduct a b).toNat
    let exact := a.toInt * b.toInt / 2 ^ (32 - bits)
    let r := (multiply target ⟨a, 16⟩ ⟨b, 16⟩).result
    (r.q.toInt = 31 - Nat.size (highProduct a b).toNat ∧
      (Fits exact → |r.number.toInt - exact| ≤ 2)) ↔
    ¬Fits exact ∨ (lowHalf a = 0 ∧ lowHalf b = 0) ∨ WrapsBack a b bits := by
  intro bits exact r
  have size := highProduct_size a b second large
  have scale : r.q.toInt = 31 - Nat.size (highProduct a b).toNat :=
    large_product_q target a b large
  obtain ⟨turns, number⟩ := large_product_number target a b second large bits rfl
  change r.number.toInt = exact + _ - _ at number
  have range : Fits r.number.toInt := ⟨BitVec.le_toInt _, BitVec.toInt_lt⟩
  rw [and_iff_right scale]
  constructor
  · intro close
    by_cases fits : Fits exact
    · right
      by_cases zero : lowHalf a = 0 ∧ lowHalf b = 0
      · exact .inl zero
      · right
        have near := close fits
        have gap := misplaced_gap a b first second large bits (by omega) zero
        refine ⟨turns, r.number.toInt - exact, ?_, near, by omega, ?_⟩
        · rw [abs_le] at near
          omega
        · rw [show exact + (r.number.toInt - exact) = r.number.toInt by ring]
          exact range
    · exact .inl fits
  · intro cause fits
    rcases cause with outside | zero | ⟨turns', error, -, small, wraps, room⟩
    · exact absurd fits outside
    · have same : r.number.toInt = exact := by
        rw [nothing_misplaced a b bits zero, sub_self, add_zero] at number
        rw [Fits] at range fits
        omega
      rw [same, sub_self]
      norm_num
    · rw [Fits] at range room
      have same : r.number.toInt = exact + error := by
        change -2 ^ 31 ≤ exact + error ∧ exact + error < 2 ^ 31 at room
        omega
      rw [same, add_sub_cancel_left]
      exact small

/-- One and a half times two. -/
theorem three_from_halves :
    (multiply masking ⟨98304, 16⟩ ⟨131072, 16⟩).result.number.toInt = 98304 * 131072 / 2 ^ 16 :=
  ((products_exact_iff masking 98304 131072 ⟨by decide, by decide⟩).mpr
    ⟨by decide, by decide, by decide⟩).2

/-- Minus one times one: the product of the high halves is negative. -/
theorem minus_one_loses_scale :
    ¬∀ (target : Target) (a b : I32), Fits (a.toInt * b.toInt / 2 ^ 16) →
      (multiply target ⟨a, 16⟩ ⟨b, 16⟩).result.q = 16 ∧
        (multiply target ⟨a, 16⟩ ⟨b, 16⟩).result.number.toInt = a.toInt * b.toInt / 2 ^ 16 := by
  intro products
  have scale := (products masking (-65536) 65536 ⟨by decide, by decide⟩).1
  exact absurd scale (by decide)

/-- 256 times 256, which needs 17 bits before the point. -/
theorem whole_products_rescaled :
    |(multiply masking ⟨2 ^ 24, 16⟩ ⟨2 ^ 24, 16⟩).result.number.toInt - 2 ^ 30| ≤ 2 := by
  have rescaled := large_products_rescaled_iff masking (2 ^ 24) (2 ^ 24) (by decide) (by decide)
    (by decide)
  have high : Nat.size (highProduct (2 ^ 24) (2 ^ 24)).toNat = 17 := by
    rw [show (highProduct (2 ^ 24) (2 ^ 24)).toNat = 2 ^ 16 by decide, Nat.size_pow]
  simp only [high] at rescaled
  exact (rescaled.mpr (.inr (.inl (by decide)))).2 ⟨by decide, by decide⟩

/-- The same with the smallest fraction added to one operand. -/
theorem fraction_misplaced :
    ¬∀ (target : Target) (a b : I32), 0 ≤ a.toInt → 0 ≤ b.toInt → 2 ^ 15 < highProduct a b →
      let bits := 31 - Nat.size (highProduct a b).toNat
      let exact := a.toInt * b.toInt / 2 ^ (32 - bits)
      let r := (multiply target ⟨a, 16⟩ ⟨b, 16⟩).result
      r.q.toInt = 31 - Nat.size (highProduct a b).toNat ∧
        (Fits exact → |r.number.toInt - exact| ≤ 2) := by
  intro products
  have rescaled := products masking (2 ^ 24 + 1) (2 ^ 24) (by decide) (by decide) (by decide)
  have high : Nat.size (highProduct (2 ^ 24 + 1) (2 ^ 24)).toNat = 17 := by
    rw [show (highProduct (2 ^ 24 + 1) (2 ^ 24)).toNat = 2 ^ 16 by decide, Nat.size_pow]
  simp only [high] at rescaled
  have close := rescaled.2 ⟨by decide, by decide⟩
  exact absurd close (by decide)

end Fide.FixedPoint
