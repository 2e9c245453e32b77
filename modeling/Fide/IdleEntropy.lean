import Fide.Ratio

/-! The entropy of a source that was silent in the interval being closed.

While the number `b * 2^P` of the previous interval's `P` packets fits `int32_t`, it is a matter of
the source's share `p` of them. Beyond, the conversions overflow or shift by more than the width of
their operands. -/

namespace Fide.Kernel

open Words FixedPoint

/-! ### The share of the previous interval -/

section Share

variable (target : Target) (b : I32) (p P : Nat)

/-- The logarithm of the share, as the entropy formula computes it. -/
def shareLog : I32 :=
  (calcLog target (divide target ⟨scaled target b (p : I32), (p : I32)⟩
    ⟨scaled target b (P : I32), (P : I32)⟩).result).number

section Fits

variable (width : 4 ≤ b.toNat) (fits : b.toNat * 2 ^ P < 2 ^ 31)

include width fits

theorem shareLog_eq (part : p ≤ P) : shareLog target b p P = ratioLog target P (P - p) := by
  have few := few_of_fits width fits
  have aligned : maxScale (p : I32) (P : I32) = (P : I32) := by
    rw [maxScale_natCast p P (by omega) (by omega), max_eq_right part]
  rw [shareLog, log_ratio target b p P P (by omega) part le_rfl (by omega) fits _ _ aligned]

/-- The whole interval has logarithm zero, and so has a share cut to nothing. -/
theorem shareLog_eq_zero (keeps : target.KeepsZero) (low : 1 ≤ p) (part : p ≤ P)
    (hidden : p = P ∨ 2 * p + 1 < P) : shareLog target b p P = 0 := by
  have few := few_of_fits width fits
  rw [shareLog_eq target b p P width fits part]
  rcases hidden with whole | cut
  · rw [whole, Nat.sub_self]
    exact ratioLog_one target P (fun _ _ => target.shr64_zero keeps _) (by omega) (by omega)
  · exact ratioLog_hidden target P (P - p) (by omega) (by omega)

theorem shareLog_bounds (keeps : target.KeepsZero) (less : p < P) (visible : P ≤ 2 * p + 1) :
    -2 ^ 29 ≤ (shareLog target b p P).toInt ∧ (shareLog target b p P).toInt ≤ -2 ^ 15 := by
  have few := few_of_fits width fits
  obtain ⟨fraction, small, -, log⟩ := ratioLog_visible target P (P - p)
    (fun _ _ => target.shr64_zero keeps _) (by omega) (by omega) (by omega) (by omega)
  rw [shareLog_eq target b p P width fits less.le, log]
  omega

end Fits

end Share

/-! ### The entropy -/

section Entry

variable (target : Target) (tmp : DataValue) (value : LoggerValue)

/-- The count of the previous interval as the entropy of an idle entry uses it. -/
def idlePrev : FixedPoint :=
  if value.prev = 0 then ⟨0, 2⟩ else ⟨scaled target tmp.intBits value.prev, value.prev⟩

/-- The logarithm the entropy of an idle entry is made of. -/
def idleLog : I32 :=
  (calcLog target (divide target (idlePrev target tmp value)
    ⟨scaled target tmp.intBits tmp.prevIntervalPkt, tmp.prevIntervalPkt⟩).result).number

theorem operands_idle (range : InRange tmp.intBits) (idle : value.cur = 0) :
    (operands target tmp value).prev = idlePrev target tmp value ∧
      (operands target tmp value).cur = ⟨0, 2⟩ := by
  have fresh := tenth_eq target tmp.intBits 1 range (Or.inl rfl)
  have again := tenth_eq target tmp.intBits 10 range (Or.inr rfl)
  unfold operands idlePrev
  simp only [toFixedPoint_eq, fresh, again, idle, ↓reduceIte]
  split_ifs <;> exact ⟨rfl, rfl⟩

theorem idlePrev_nonneg (range : InRange tmp.intBits)
    (fits : tmp.intBits.toNat * 2 ^ value.prev.toNat < 2 ^ 31) :
    0 ≤ (idlePrev target tmp value).number.toInt := by
  rw [idlePrev]
  split
  · decide
  · have few := few_of_fits range.1 fits
    have number := scaled_of_fits target tmp.intBits value.prev.toNat (by omega) (by omega)
    rw [natCast_toNat] at number
    change 0 ≤ (scaled target tmp.intBits value.prev).toInt
    rw [BitVec.toInt_eq_toNat_of_lt (by omega)]
    exact Int.natCast_nonneg _

/-- The scales of the formula: two for the substitute of a zero count, the counts themselves
otherwise. -/
def SmallScale (q : I32) : Prop := 0 ≤ q.toInt ∧ q.toInt ≤ 28

theorem smallScale_of (q : I32) (few : q.toNat ≤ 28) : SmallScale q := by
  rw [SmallScale, BitVec.toInt_eq_toNat_of_lt (by omega)]
  omega

theorem smallScale_two : SmallScale 2 := smallScale_of 2 (by decide)

theorem idlePrev_scale (few : value.prev.toNat ≤ 28) :
    SmallScale (idlePrev target tmp value).q := by
  rw [idlePrev]
  split
  · exact smallScale_two
  · exact smallScale_of _ few

/-- The share is one of the previous interval, whose total converts to an `int32_t`. -/
structure ShareFits : Prop where
  part : value.prev.toNat ≤ tmp.prevIntervalPkt.toNat
  total : tmp.intBits.toNat * 2 ^ tmp.prevIntervalPkt.toNat < 2 ^ 31

theorem ShareFits.few (fits : ShareFits tmp value) (range : InRange tmp.intBits) :
    value.prev.toNat ≤ 28 ∧ tmp.prevIntervalPkt.toNat ≤ 28 := by
  have total := few_of_fits range.1 fits.total
  exact ⟨fits.part.trans total, total⟩

/-- The logarithm of the ratio of the counts drops out: its quotient is zero. -/
theorem entropyOf_idle (range : InRange tmp.intBits) (idle : value.cur = 0)
    (fits : ShareFits tmp value) :
    (entropyOf target tmp value).entropy =
      rescale target ((idleLog target tmp value * -1).signExtend 64) 8 := by
  obtain ⟨few, small⟩ := fits.few tmp value range
  obtain ⟨prev, cur⟩ := operands_idle target tmp value range idle
  have aligned : SmallScale (maxScale (idlePrev target tmp value).q tmp.prevIntervalPkt) :=
    maxScale_of _ _ (idlePrev_scale target tmp value few) (smallScale_of _ small)
  have scale : SmallScale (maxScale 2 (maxScale (idlePrev target tmp value).q
      tmp.prevIntervalPkt)) := maxScale_of _ _ smallScale_two aligned
  have ratio := divide_zero target 2 ⟨(idlePrev target tmp value).number,
    maxScale (idlePrev target tmp value).q tmp.prevIntervalPkt⟩ scale.1
      (scale.2.trans (by decide))
  have log : absVal (calcLog target ⟨0, 0⟩) = ⟨0, 8⟩ := by
    rw [calcLog_of_nonpos target ⟨0, 0⟩ (by decide)]
    decide
  have first : ∀ x, (divide target (idlePrev target tmp value) x).first =
      ⟨(idlePrev target tmp value).number, maxScale (idlePrev target tmp value).q x.q⟩ := by
    intro x
    rw [divide_eq]
  have nonneg : (0 : I32).toInt ≤ (idlePrev target tmp value).number.toInt :=
    idlePrev_nonneg target tmp value range (fits_of_part fits.part fits.total)
  unfold entropyOf
  simp only [toFixedPoint_eq, prev, cur, first]
  rw [if_pos nonneg]
  simp only [ratio, log, add_eq, calcLog_q]
  rw [add_zero]
  rfl

theorem negated_ne_zero (n : I32) (low : -2 ^ 29 ≤ n.toInt) (high : n.toInt ≤ -2 ^ 15) :
    (rescale target ((n * -1).signExtend 64) 8).number ≠ 0 := by
  have negated := toInt_mul_neg_one n (by omega)
  have value := toInt_eq_toNat (n * -1) (by omega)
  rw [rescale_long target _ 8 (by omega) (by decide)]
  intro zero
  rw [show n * -1 = 0 from zero] at negated
  change (0 : Int) = _ at negated
  omega

theorem idleLog_silent (silent : value.prev = 0) (small : tmp.prevIntervalPkt.toNat ≤ 28) :
    idleLog target tmp value = 0 := by
  have scale : SmallScale (maxScale 2 tmp.prevIntervalPkt) :=
    maxScale_of _ _ smallScale_two (smallScale_of _ small)
  have share := divide_zero target 2
    ⟨scaled target tmp.intBits tmp.prevIntervalPkt, tmp.prevIntervalPkt⟩ scale.1
      (scale.2.trans (by decide))
  rw [idleLog, idlePrev, if_pos silent, share, calcLog_of_nonpos target ⟨0, 0⟩ (by decide)]

theorem idleLog_sender (sender : value.prev ≠ 0) :
    idleLog target tmp value =
      shareLog target tmp.intBits value.prev.toNat tmp.prevIntervalPkt.toNat := by
  rw [idleLog, idlePrev, if_neg sender, shareLog, natCast_toNat, natCast_toNat]

theorem idle_entropy_zero (zero : idleLog target tmp value = 0) (range : InRange tmp.intBits)
    (idle : value.cur = 0) (fits : ShareFits tmp value) :
    (entropyOf target tmp value).entropy.number = 0 := by
  have none : ((0 : I32) * -1).signExtend 64 = 0 := by decide
  rw [entropyOf_idle target tmp value range idle fits, zero, none,
    rescale_zero target 8 (by decide) (by decide)]

/-- An idle entry has entropy zero when its source sent nothing, or everything, or too little of
the previous interval for the share to keep a bit. -/
theorem idle_entropy_zero_iff (keeps : target.KeepsZero) (range : InRange tmp.intBits)
    (idle : value.cur = 0) (fits : ShareFits tmp value) :
    (entropyOf target tmp value).entropy.number = 0 ↔
      value.prev.toNat = 0 ∨ value.prev.toNat = tmp.prevIntervalPkt.toNat ∨
        2 * value.prev.toNat + 1 < tmp.prevIntervalPkt.toNat := by
  have part := fits.part
  by_cases silent : value.prev = 0
  · have none : value.prev.toNat = 0 := by
      rw [silent]
      rfl
    have zero := idleLog_silent target tmp value silent (fits.few tmp value range).2
    exact iff_of_true (idle_entropy_zero target tmp value zero range idle fits) (.inl none)
  · have low : 1 ≤ value.prev.toNat := by
      by_contra none
      exact silent (BitVec.eq_of_toNat_eq (Nat.eq_zero_of_not_pos none))
    have log := idleLog_sender target tmp value silent
    constructor
    · intro zero
      by_contra visible
      have bounds := shareLog_bounds target tmp.intBits value.prev.toNat
        tmp.prevIntervalPkt.toNat range.1 fits.total keeps (by omega) (by omega)
      rw [← log] at bounds
      rw [entropyOf_idle target tmp value range idle fits] at zero
      exact negated_ne_zero target _ bounds.1 bounds.2 zero
    · intro hidden
      apply idle_entropy_zero target tmp value _ range idle fits
      rw [log]
      exact shareLog_eq_zero target tmp.intBits _ _ range.1 fits.total keeps low part (by omega)

end Entry

/-- Some of the packets, not all of them, and no fewer than the share keeps a bit for. -/
def ShareVisible (p P : Nat) : Prop := 0 < p ∧ p < P ∧ P ≤ 2 * p + 1

instance (p P : Nat) : Decidable (ShareVisible p P) := inferInstanceAs (Decidable (_ ∧ _ ∧ _))

theorem shareVisible_iff (target : Target) (tmp : DataValue) (value : LoggerValue)
    (keeps : target.KeepsZero) (range : InRange tmp.intBits) (idle : value.cur = 0)
    (fits : ShareFits tmp value) :
    ShareVisible value.prev.toNat tmp.prevIntervalPkt.toNat ↔
      (entropyOf target tmp value).entropy.number ≠ 0 := by
  have part := fits.part
  rw [ne_eq, idle_entropy_zero_iff target tmp value keeps range idle fits, ShareVisible]
  omega

end Fide.Kernel
