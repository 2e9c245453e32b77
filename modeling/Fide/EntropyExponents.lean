import Fide.FixedPointValue
import Fide.IdleEntropy

/-! The entropies of small counts.

While the counts of an entry and of the previous interval convert to numbers of `int32_t`, an
entropy is a multiple of `2^24`: the exponents of the share and of the change, each as far as a bit
of its ratio is left. -/

namespace Fide.Kernel

open Words FixedPoint

/-- The current count fits, too. -/
structure CountsFit (tmp : DataValue) (value : LoggerValue) : Prop extends ShareFits tmp value where
  current : tmp.intBits.toNat * 2 ^ value.cur.toNat < 2 ^ 31

/-- What an entry with `p` of the `P` packets of the previous interval and `c` packets in the
current one scores: nothing when it is new, and else its share and its change. -/
def entropyExponent (p c P : Nat) : Nat :=
  if p = 0 then 0
  else ratioExponent P (P - p) + if c = 0 then 0 else ratioExponent (max P c) (max p c - min p c)

theorem entropyExponent_le (p c P : Nat) (part : p ≤ P) (few : P ≤ 28) (many : c ≤ 28) :
    entropyExponent p c P ≤ 56 := by
  have share := ratioExponent_le P (P - p)
  have change := ratioExponent_le (max P c) (max p c - min p c)
  rw [entropyExponent]
  split_ifs <;> omega

theorem maxScale_counts (n m : I32) (first : n.toNat ≤ 28) (second : m.toNat ≤ 28) :
    maxScale n m = ((max n.toNat m.toNat : Nat) : I32) := by
  have scale := maxScale_natCast n.toNat m.toNat (by omega) (by omega)
  rw [natCast_toNat, natCast_toNat] at scale
  exact scale

/-! ### Entries counted in both intervals -/

section Counted

variable (target : Target) (tmp : DataValue) (value : LoggerValue)
variable (width : 4 ≤ tmp.intBits.toNat) (fits : CountsFit tmp value)

include width fits

theorem CountsFit.few :
    value.prev.toNat ≤ 28 ∧ value.cur.toNat ≤ 28 ∧ tmp.prevIntervalPkt.toNat ≤ 28 := by
  have total := few_of_fits width fits.total
  exact ⟨fits.part.trans total, few_of_fits width fits.current, total⟩

/-- The logarithm of the share. -/
theorem shareLog_counted :
    calcLog target (divide target ⟨scaled target tmp.intBits value.prev, value.prev⟩
      ⟨scaled target tmp.intBits tmp.prevIntervalPkt, tmp.prevIntervalPkt⟩).result =
      ⟨ratioLog target tmp.prevIntervalPkt.toNat
        (tmp.prevIntervalPkt.toNat - value.prev.toNat), 8⟩ := by
  obtain ⟨prevFew, -, few⟩ := fits.few tmp value width
  have part := fits.part
  have aligned : maxScale value.prev tmp.prevIntervalPkt = (tmp.prevIntervalPkt.toNat : I32) := by
    rw [maxScale_counts value.prev tmp.prevIntervalPkt prevFew few, max_eq_right part]
  have log := log_ratio target tmp.intBits _ _ _ (by omega) part le_rfl (by omega) fits.total _ _
    aligned
  rw [natCast_toNat, natCast_toNat] at log
  exact log

theorem scaled_le_iff :
    (scaled target tmp.intBits value.cur).toInt ≤ (scaled target tmp.intBits value.prev).toInt ↔
      value.cur.toNat ≤ value.prev.toNat := by
  obtain ⟨prevFew, curFew, -⟩ := fits.few tmp value width
  have prevFits := fits_of_part fits.part fits.total
  have curFits := fits.current
  have first := scaled_of_fits target tmp.intBits value.prev.toNat (by omega) (by omega)
  have second := scaled_of_fits target tmp.intBits value.cur.toNat (by omega) (by omega)
  rw [natCast_toNat] at first second
  rw [BitVec.toInt_eq_toNat_of_lt (by omega), BitVec.toInt_eq_toNat_of_lt (by omega), first, second,
    Nat.cast_le, Nat.mul_le_mul_left_iff (by omega), Nat.pow_le_pow_iff_right (by decide)]

theorem entropyOf_counted (prev : value.prev ≠ 0) (cur : value.cur ≠ 0) :
    (entropyOf target tmp value).entropy =
      rescale target ((ratioLog target tmp.prevIntervalPkt.toNat
          (tmp.prevIntervalPkt.toNat - value.prev.toNat) * -1 +
        (absVal ⟨ratioLog target (max tmp.prevIntervalPkt.toNat value.cur.toNat)
          (max value.prev.toNat value.cur.toNat - min value.prev.toNat value.cur.toNat),
          8⟩).number).signExtend 64) 8 := by
  obtain ⟨prevFew, curFew, few⟩ := fits.few tmp value width
  have part := fits.part
  have counts : operands target tmp value = ⟨⟨scaled target tmp.intBits value.prev, value.prev⟩,
      ⟨scaled target tmp.intBits value.cur, value.cur⟩, []⟩ := by
    rw [operands, if_neg prev, if_neg cur]
    rfl
  have share := shareLog_counted target tmp value width fits
  have left : (divide target ⟨scaled target tmp.intBits value.prev, value.prev⟩
      ⟨scaled target tmp.intBits tmp.prevIntervalPkt, tmp.prevIntervalPkt⟩).first =
      ⟨scaled target tmp.intBits value.prev, tmp.prevIntervalPkt⟩ := by
    rw [divide_eq, maxScale_counts value.prev tmp.prevIntervalPkt prevFew few, max_eq_right part,
      natCast_toNat]
  have branches := scaled_le_iff target tmp value width fits
  unfold entropyOf
  simp only [toFixedPoint_eq, counts, share, left]
  by_cases less : value.cur.toNat ≤ value.prev.toNat
  · -- the smaller count is divided by the larger
    have aligned := maxScale_counts value.cur tmp.prevIntervalPkt curFew few
    have log := log_ratio target tmp.intBits _ _ _ (by omega) less (by omega) (by omega)
      (fits_of_part part fits.total) _ _ aligned
    rw [natCast_toNat, natCast_toNat, max_comm] at log
    rw [if_pos (branches.mpr less), max_eq_left less, min_eq_right less]
    simp only [log, add_eq]
    rfl
  · have more : value.prev.toNat ≤ value.cur.toNat := Nat.le_of_not_le less
    have aligned := maxScale_counts tmp.prevIntervalPkt value.cur few curFew
    have log := log_ratio target tmp.intBits _ _ _ (by omega) more
      (le_max_right _ _) (by omega) fits.current _ _ aligned
    rw [natCast_toNat, natCast_toNat] at log
    rw [if_neg (mt branches.mp less), max_eq_right more, min_eq_left more]
    simp only [log, add_eq]
    rfl

end Counted

theorem score_toInt (x y : I32) (first : IsRatioLog x.toInt) (second : IsRatioLog y.toInt) :
    (x * -1 + (absVal ⟨y, 8⟩).number).toInt = -x.toInt - y.toInt := by
  rw [IsRatioLog] at first second
  have negated := toInt_mul_neg_one x (by omega)
  have absolute := absVal_toInt ⟨y, 8⟩ (show -2 ^ 31 < y.toInt by omega)
  change _ = |y.toInt| at absolute
  rw [abs_of_nonpos (by omega)] at absolute
  rw [toInt_add_of_fits _ _ (by rw [Fits]; omega)]
  omega

/-! ### Entries of any kind -/

/-- A number that is zero or long passes the tail unchanged. -/
theorem rescale_number (target : Target) (n : I32) (long : n = 0 ∨ 2 ^ 15 ≤ n.toNat) :
    (rescale target (n.signExtend 64) 8).number = n := by
  rcases long with zero | large
  · rw [zero, show (0 : I32).signExtend 64 = 0 by decide,
      rescale_zero target 8 (by decide) (by decide)]
  · rw [rescale_long target n 8 large (by decide)]

theorem multiple_long (n : I32) (k : Nat) (few : k ≤ 56) (value : n.toInt = (k : Int) * 2 ^ 24) :
    n = ((k * 2 ^ 24 : Nat) : I32) ∧ (n = 0 ∨ 2 ^ 15 ≤ n.toNat) := by
  have same : n = ((k * 2 ^ 24 : Nat) : I32) := by
    apply BitVec.eq_of_toInt_eq
    rw [value, toInt_natCast _ (by omega)]
    push_cast
    rfl
  refine ⟨same, ?_⟩
  by_cases none : k = 0
  · left
    rw [same, none]
    rfl
  · right
    rw [same, toNat_natCast _ (by omega)]
    omega

section Exponents

variable (target : Target) (keeps : target.KeepsZero) (none : tableEntry target 1 = 0)
variable (tmp : DataValue) (value : LoggerValue) (range : InRange tmp.intBits)
variable (fits : CountsFit tmp value)

include range fits

/-- A source without packets in the previous interval has entropy zero. -/
theorem entropyOf_new (prev : value.prev = 0) (cur : value.cur ≠ 0) :
    (entropyOf target tmp value).entropy.number = 0 := by
  obtain ⟨-, curFew, few⟩ := fits.few tmp value range.1
  have curFits := fits.current
  have counts : operands target tmp value =
      ⟨⟨0, 2⟩, ⟨scaled target tmp.intBits value.cur, value.cur⟩,
        [scaled target tmp.intBits 10]⟩ := by
    rw [operands, if_pos prev, if_neg cur]
    simp only [toFixedPoint_eq, tenth_eq target tmp.intBits 1 range (.inl rfl)]
  have aligned : SmallScale (maxScale 2 tmp.prevIntervalPkt) :=
    maxScale_of _ _ smallScale_two (smallScale_of _ few)
  have second : SmallScale (maxScale (maxScale 2 tmp.prevIntervalPkt) value.cur) :=
    maxScale_of _ _ aligned (smallScale_of _ curFew)
  have share := divide_zero target 2
    ⟨scaled target tmp.intBits tmp.prevIntervalPkt, tmp.prevIntervalPkt⟩ aligned.1
      (aligned.2.trans (by decide))
  have change := divide_zero target (maxScale 2 tmp.prevIntervalPkt)
    ⟨scaled target tmp.intBits value.cur, value.cur⟩ second.1 (second.2.trans (by decide))
  have log : calcLog target ⟨0, 0⟩ = ⟨0, 8⟩ := by
    rw [calcLog_of_nonpos target ⟨0, 0⟩ (by decide)]
  have left : (divide target ⟨0, 2⟩
      ⟨scaled target tmp.intBits tmp.prevIntervalPkt, tmp.prevIntervalPkt⟩).first =
      ⟨0, maxScale 2 tmp.prevIntervalPkt⟩ := by
    rw [divide_eq]
  have positive : ¬ (scaled target tmp.intBits value.cur).toInt ≤ (0 : I32).toInt := by
    have number := scaled_of_fits target tmp.intBits value.cur.toNat (by omega) (by omega)
    have low := range.1
    rw [natCast_toNat] at number
    rw [BitVec.toInt_eq_toNat_of_lt (by omega), number]
    have some : 0 < tmp.intBits.toNat * 2 ^ value.cur.toNat := by positivity
    change ¬ _ ≤ (0 : Int)
    omega
  unfold entropyOf
  simp only [toFixedPoint_eq, counts, share, left, log]
  rw [if_neg positive]
  simp only [change, log, add_eq]
  exact rescale_number target _ (.inl (by decide))

include keeps none

/-- The entropy of an entry is its exponent. -/
theorem entropyOf_exponent :
    (entropyOf target tmp value).entropy.number =
      ((entropyExponent value.prev.toNat value.cur.toNat tmp.prevIntervalPkt.toNat * 2 ^ 24 : Nat) :
        I32) := by
  obtain ⟨prevFew, curFew, few⟩ := fits.few tmp value range.1
  have part := fits.part
  have zero_iff : ∀ n : I32, n = 0 ↔ n.toNat = 0 := fun n => BitVec.toNat_eq
  have empty : ∀ q : Nat, ∀ s ≤ q, target.shr64 0 (24 - (s : I32)) = 0 := fun _ s _ =>
    target.shr64_zero keeps _
  have bound := entropyExponent_le value.prev.toNat value.cur.toNat tmp.prevIntervalPkt.toNat part few
    curFew
  by_cases prev : value.prev = 0
  · have silent := (zero_iff _).mp prev
    rw [entropyExponent, if_pos silent, Nat.zero_mul]
    by_cases cur : value.cur = 0
    · exact (idle_entropy_zero_iff target tmp value keeps range cur fits.toShareFits).mpr
        (.inl silent)
    · exact entropyOf_new target tmp value range fits prev cur
  · have sent : value.prev.toNat ≠ 0 := mt (zero_iff _).mpr prev
    have share := ratioLog_exponent target tmp.prevIntervalPkt.toNat
      (tmp.prevIntervalPkt.toNat - value.prev.toNat) (empty _) (by omega) (by omega) none (by omega)
    have logShare := ratioLog_bounds target tmp.prevIntervalPkt.toNat
      (tmp.prevIntervalPkt.toNat - value.prev.toNat) (empty _) (by omega) (by omega) (by omega)
    rw [entropyExponent, if_neg sent] at bound ⊢
    by_cases cur : value.cur = 0
    · have silent := (zero_iff _).mp cur
      rw [if_pos silent, Nat.add_zero] at bound ⊢
      have log : idleLog target tmp value = ratioLog target tmp.prevIntervalPkt.toNat
          (tmp.prevIntervalPkt.toNat - value.prev.toNat) := by
        rw [idleLog_sender target tmp value prev,
          shareLog_eq target tmp.intBits _ _ range.1 fits.total part]
      have negated : (idleLog target tmp value * -1).toInt =
          (ratioExponent tmp.prevIntervalPkt.toNat
            (tmp.prevIntervalPkt.toNat - value.prev.toNat) : Int) * 2 ^ 24 := by
        rw [IsRatioLog] at logShare
        rw [log, toInt_mul_neg_one _ (by omega), share]
        ring
      obtain ⟨number, long⟩ := multiple_long _ _ bound negated
      rw [entropyOf_idle target tmp value range cur fits.toShareFits,
        rescale_number target _ long, number]
    · have active : value.cur.toNat ≠ 0 := mt (zero_iff _).mpr cur
      rw [if_neg active] at bound ⊢
      have change := ratioLog_exponent target (max tmp.prevIntervalPkt.toNat value.cur.toNat)
        (max value.prev.toNat value.cur.toNat - min value.prev.toNat value.cur.toNat) (empty _)
        (by omega) (by omega) none (by omega)
      have logChange := ratioLog_bounds target (max tmp.prevIntervalPkt.toNat value.cur.toNat)
        (max value.prev.toNat value.cur.toNat - min value.prev.toNat value.cur.toNat) (empty _)
        (by omega) (by omega) (by omega)
      have sum := score_toInt _ _ logShare logChange
      rw [share, change] at sum
      obtain ⟨number, long⟩ := multiple_long _ _ bound (sum.trans (by push_cast; ring))
      rw [entropyOf_counted target tmp value range.1 fits prev cur,
        rescale_number target _ long, number]

end Exponents

end Fide.Kernel
