import Fide.Deviation
import Fide.EntropyExponents

/-! How the entropy of an entry follows a surge of its source.

The score is the logarithm of the share in the previous interval, which a surge does not touch, and
that of the growth. The growth is counted as long as a bit of its ratio is left; a steeper one
counts for nothing. -/

namespace Fide.Kernel

open Words FixedPoint DynamicScale

/-- The entropy the traversal leaves in an entry. -/
def stored (target : Target) (tmp : DataValue) (key : Addr) (value : LoggerValue)
    (pass : EntropyPass) : FixedPoint :=
  ((calcEntropy target tmp key value pass).1.getD value).entropy

/-- An entry that grew, with counts in the domain of the conversions. -/
structure Grew (tmp : DataValue) (value : LoggerValue) : Prop where
  width : 4 ≤ tmp.intBits.toInt
  prev : 1 ≤ value.prev.toInt
  part : value.prev.toInt ≤ tmp.prevIntervalPkt.toInt
  growth : value.prev.toInt ≤ value.cur.toInt
  total : tmp.intBits.toInt * 2 ^ tmp.prevIntervalPkt.toNat < 2 ^ 31
  fits : tmp.intBits.toInt * 2 ^ value.cur.toNat < 2 ^ 31

/-- A bit is left of the ratio of the counts. -/
def GrowthVisible (tmp : DataValue) (value : LoggerValue) : Prop :=
  2 * (value.cur.toInt - value.prev.toInt) ≤ max tmp.prevIntervalPkt.toInt value.cur.toInt + 1

theorem count_bound (b : I32) (n : Nat) (width : 4 ≤ b.toInt) (fits : b.toInt * 2 ^ n < 2 ^ 31) :
    b.toNat * 2 ^ n < 2 ^ 31 ∧ n ≤ 28 := by
  have value := toInt_eq_toNat b (by omega)
  have product : b.toNat * 2 ^ n < 2 ^ 31 := by
    rw [value] at fits
    exact_mod_cast fits
  exact ⟨product, few_of_fits (by omega) product⟩

/-- The counts as natural numbers. -/
structure SurgeCounts (b p c P : Nat) : Prop where
  width : 0 < b
  prev : 1 ≤ p
  part : p ≤ P
  growth : p ≤ c
  few : P ≤ 28
  many : c ≤ 28
  total : b * 2 ^ P < 2 ^ 31
  fits : b * 2 ^ c < 2 ^ 31

section Entry

variable (target : Target) (tmp : DataValue) (value : LoggerValue) (grew : Grew tmp value)

include grew

theorem Grew.numbers :
    value.prev.toInt = value.prev.toNat ∧ value.cur.toInt = value.cur.toNat ∧
      tmp.prevIntervalPkt.toInt = tmp.prevIntervalPkt.toNat := by
  obtain ⟨width, prev, part, growth, total, fits⟩ := grew
  exact ⟨toInt_eq_toNat value.prev (by omega), toInt_eq_toNat value.cur (by omega),
    toInt_eq_toNat tmp.prevIntervalPkt (by omega)⟩

theorem Grew.counts :
    SurgeCounts tmp.intBits.toNat value.prev.toNat value.cur.toNat tmp.prevIntervalPkt.toNat := by
  obtain ⟨prevNat, curNat, totalNat⟩ := grew.numbers
  obtain ⟨width, prev, part, growth, total, fits⟩ := grew
  have widthNat := toInt_eq_toNat tmp.intBits (by omega)
  have whole := count_bound tmp.intBits _ width total
  have current := count_bound tmp.intBits _ width fits
  exact ⟨by omega, by omega, by omega, by omega, whole.2, current.2, whole.1, current.1⟩

/-- The entropy of an entry that grew: its share and its growth. -/
theorem entropyOf_grew :
    (entropyOf target tmp value).entropy =
      rescale target ((ratioLog target tmp.prevIntervalPkt.toNat
          (tmp.prevIntervalPkt.toNat - value.prev.toNat) * -1 +
        (absVal ⟨ratioLog target (max tmp.prevIntervalPkt.toNat value.cur.toNat)
          (value.cur.toNat - value.prev.toNat), 8⟩).number).signExtend 64) 8 := by
  have counts := grew.counts
  have width := toInt_eq_toNat tmp.intBits (le_trans (by decide) grew.width)
  have least := grew.width
  have nonzero : ∀ n : I32, 1 ≤ n.toNat → n ≠ 0 := by
    rintro n positive rfl
    exact absurd positive (by decide)
  have fits : CountsFit tmp value := ⟨⟨counts.part, counts.total⟩, counts.fits⟩
  rw [entropyOf_counted target tmp value (by omega) fits (nonzero _ counts.prev)
      (nonzero _ (counts.prev.trans counts.growth)),
    max_eq_right counts.growth, min_eq_left counts.growth]

end Entry

/-- The score of an entry that grew: the exponents of its share and of its growth. -/
def score (target : Target) (tmp : DataValue) (value : LoggerValue) : Int :=
  -(ratioLog target tmp.prevIntervalPkt.toNat
      (tmp.prevIntervalPkt.toNat - value.prev.toNat)).toInt -
    (ratioLog target (max tmp.prevIntervalPkt.toNat value.cur.toNat)
      (value.cur.toNat - value.prev.toNat)).toInt

/-- Scores are zero or long, so the sum keeps them at the scale of eight bits. -/
theorem rescale_score (target : Target) (n : I32) (long : n.toInt = 0 ∨ 2 ^ 23 ≤ n.toInt) :
    FixedPoint.value (rescale target (n.signExtend 64) 8) = n.toInt / 2 ^ 8 := by
  have eight : (8 : I32).toInt = 8 := by decide
  have exact : CutExact (8 : I32).toNat n.toInt := by
    rcases long with zero | large
    · exact .inl zero.le
    · right
      have size : 23 < Nat.size n.toInt.toNat := Nat.lt_size.mpr (by omega)
      rw [show (8 : I32).toNat - Nat.size n.toInt.toNat = 0 from Nat.sub_eq_zero_of_le (by
        change 8 ≤ _
        omega), pow_zero]
      exact one_dvd _
  rw [(rescale_value_iff target n 8 (by decide) (by decide)).mpr exact, FixedPoint.value, eight]
  norm_num

theorem stored_value (target : Target) (keeps : target.KeepsZero) (tmp : DataValue) (key : Addr)
    (value : LoggerValue) (pass : EntropyPass) (grew : Grew tmp value) :
    FixedPoint.value (stored target tmp key value pass) = score target tmp value / 2 ^ 8 := by
  obtain ⟨-, prev, part, growth, few, many, -, -⟩ := grew.counts
  have empty : ∀ q : Nat, ∀ s ≤ q, target.shr64 0 (24 - (s : I32)) = 0 := fun _ s _ =>
    target.shr64_zero keeps _
  have share := ratioLog_bounds target tmp.prevIntervalPkt.toNat
    (tmp.prevIntervalPkt.toNat - value.prev.toNat) (empty _) (by omega) (by omega) (by omega)
  have grown := ratioLog_bounds target (max tmp.prevIntervalPkt.toNat value.cur.toNat)
    (value.cur.toNat - value.prev.toNat) (empty _) (by omega) (by omega) (by omega)
  have number := score_toInt _ _ share grown
  rw [IsRatioLog] at share grown
  change FixedPoint.value (entropyOf target tmp value).entropy = _
  rw [entropyOf_grew target tmp value grew, rescale_score target _ (by rw [number]; omega), number,
    score]

/-! ### The growth -/

/-- A growth counts with its exponent while a bit of its ratio is left, and for nothing beyond. -/
theorem growthLog_cases (target : Target) (keeps : target.KeepsZero) (p c P : Nat) (prev : 1 ≤ p)
    (growth : p ≤ c) (few : P ≤ 28) (many : c ≤ 28) :
    (p = c ∧ (ratioLog target (max P c) (c - p)).toInt = 0) ∨
    (p < c ∧ 2 * (c - p) ≤ max P c + 1 ∧ ∃ fraction : Nat, fraction ≤ 2 ^ 15 ∧
      (ratioLog target (max P c) (c - p)).toInt = -((c - p : Nat) : Int) * 2 ^ 24 + fraction) ∨
    (max P c + 1 < 2 * (c - p) ∧ (ratioLog target (max P c) (c - p)).toInt = 0) := by
  have empty : ∀ s ≤ max P c, target.shr64 0 (24 - (s : I32)) = 0 := fun s _ =>
    target.shr64_zero keeps _
  by_cases equal : p = c
  · refine .inl ⟨equal, ?_⟩
    rw [equal, Nat.sub_self, ratioLog_one target _ empty (by omega) (by omega)]
    rfl
  · by_cases hidden : max P c + 1 < 2 * (c - p)
    · refine .inr (.inr ⟨hidden, ?_⟩)
      rw [ratioLog_hidden target _ _ (by omega) hidden]
      rfl
    · obtain ⟨fraction, small, -, log⟩ := ratioLog_visible target (max P c) (c - p) empty
        (by omega) (by omega) (by omega) (by omega)
      exact .inr (.inl ⟨by omega, by omega, fraction, small, log⟩)

/-- A growth that counts for nothing at one count counts for nothing at every larger one, so a
larger count falls behind only where it is the first to count for nothing. -/
theorem growthLog_le_iff (target : Target) (keeps : target.KeepsZero) (p c₁ c₂ P : Nat)
    (prev : 1 ≤ p) (growth : p ≤ c₁) (surge : c₁ ≤ c₂) (few : P ≤ 28) (many : c₂ ≤ 28) :
    (ratioLog target (max P c₂) (c₂ - p)).toInt ≤ (ratioLog target (max P c₁) (c₁ - p)).toInt ↔
      ¬(p < c₁ ∧ 2 * (c₁ - p) ≤ max P c₁ + 1 ∧ max P c₂ + 1 < 2 * (c₂ - p)) := by
  by_cases equal : c₁ = c₂
  · subst equal
    exact iff_of_true le_rfl (by omega)
  · rcases growthLog_cases target keeps p c₁ P prev growth few (by omega) with
      ⟨idle, first⟩ | ⟨grows, visible, f, small, first⟩ | ⟨hidden, first⟩
    all_goals
      rcases growthLog_cases target keeps p c₂ P prev (by omega) few many with
        ⟨idle', second⟩ | ⟨grows', visible', f', small', second⟩ | ⟨hidden', second⟩
      all_goals
        rw [first, second]
        omega

/-- The entropy follows a surge unless a bit is left of the growth to the smaller count and none of
the growth to the larger. -/
theorem score_grows_iff (target : Target) (keeps : target.KeepsZero) (tmp : DataValue)
    (key₁ key₂ : Addr) (value₁ value₂ : LoggerValue) (pass₁ pass₂ : EntropyPass)
    (grew₁ : Grew tmp value₁) (grew₂ : Grew tmp value₂) (same : value₁.prev = value₂.prev)
    (surge : value₁.cur.toInt ≤ value₂.cur.toInt) :
    value (stored target tmp key₁ value₁ pass₁) ≤ value (stored target tmp key₂ value₂ pass₂) ↔
      ¬(value₁.prev.toInt < value₁.cur.toInt ∧ GrowthVisible tmp value₁ ∧
        ¬GrowthVisible tmp value₂) := by
  have counts₁ := grew₁.counts
  have counts₂ := grew₂.counts
  obtain ⟨prevNat, curNat₁, totalNat⟩ := grew₁.numbers
  obtain ⟨-, curNat₂, -⟩ := grew₂.numbers
  have shares : value (stored target tmp key₁ value₁ pass₁) ≤
      value (stored target tmp key₂ value₂ pass₂) ↔
        score target tmp value₁ ≤ score target tmp value₂ := by
    rw [stored_value target keeps tmp key₁ value₁ pass₁ grew₁,
      stored_value target keeps tmp key₂ value₂ pass₂ grew₂,
      div_le_div_iff_of_pos_right (by positivity), Int.cast_le]
  have growth := growthLog_le_iff target keeps value₁.prev.toNat value₁.cur.toNat
    value₂.cur.toNat tmp.prevIntervalPkt.toNat counts₁.prev counts₁.growth (by omega) counts₁.few
    counts₂.many
  rw [shares, score, score, ← same, sub_le_sub_iff_left, growth, GrowthVisible, GrowthVisible,
    ← same, prevNat, totalNat, curNat₁, curNat₂]
  omega

/-- Two of three packets, followed by three or by four. -/
theorem four_scores_above_three :
    value (stored masking ⟨3, 4, 0, 4⟩ 1 ⟨2, 3, ⟨0, 0⟩⟩ ⟨0, ⟨0, 0⟩, []⟩) ≤
      value (stored masking ⟨3, 4, 0, 4⟩ 1 ⟨2, 4, ⟨0, 0⟩⟩ ⟨0, ⟨0, 0⟩, []⟩) := by
  refine (score_grows_iff masking Target.masking_keepsZero ⟨3, 4, 0, 4⟩ 1 1 ⟨2, 3, ⟨0, 0⟩⟩
    ⟨2, 4, ⟨0, 0⟩⟩ ⟨0, ⟨0, 0⟩, []⟩ ⟨0, ⟨0, 0⟩, []⟩ ?_ ?_ rfl (by decide)).mpr ?_
  · exact ⟨by decide, by decide, by decide, by decide, by decide, by decide⟩
  · exact ⟨by decide, by decide, by decide, by decide, by decide, by decide⟩
  · rintro ⟨-, -, hidden⟩
    exact hidden (show (2 * (4 - 2) : Int) ≤ max 3 4 + 1 by decide)

/-- One packet, followed by two or by four: the growth to four counts for nothing. -/
theorem four_scores_below_two :
    ¬∀ (target : Target), target.KeepsZero → ∀ (tmp : DataValue) (key₁ key₂ : Addr)
      (value₁ value₂ : LoggerValue) (pass₁ pass₂ : EntropyPass), Grew tmp value₁ →
      Grew tmp value₂ → value₁.prev = value₂.prev → value₁.cur.toInt ≤ value₂.cur.toInt →
        value (stored target tmp key₁ value₁ pass₁) ≤
          value (stored target tmp key₂ value₂ pass₂) := by
  intro grows
  have two : Grew ⟨1, 4, 0, 4⟩ ⟨1, 2, ⟨0, 0⟩⟩ :=
    ⟨by decide, by decide, by decide, by decide, by decide, by decide⟩
  have four : Grew ⟨1, 4, 0, 4⟩ ⟨1, 4, ⟨0, 0⟩⟩ :=
    ⟨by decide, by decide, by decide, by decide, by decide, by decide⟩
  have less := grows masking Target.masking_keepsZero ⟨1, 4, 0, 4⟩ 1 1 ⟨1, 2, ⟨0, 0⟩⟩
    ⟨1, 4, ⟨0, 0⟩⟩ ⟨0, ⟨0, 0⟩, []⟩ ⟨0, ⟨0, 0⟩, []⟩ two four rfl (by decide)
  have first : stored masking ⟨1, 4, 0, 4⟩ 1 ⟨1, 2, ⟨0, 0⟩⟩ ⟨0, ⟨0, 0⟩, []⟩ = ⟨2 ^ 24, 8⟩ := by
    decide +kernel
  have second : stored masking ⟨1, 4, 0, 4⟩ 1 ⟨1, 4, ⟨0, 0⟩⟩ ⟨0, ⟨0, 0⟩, []⟩ = ⟨0, 0⟩ := by
    decide +kernel
  have numbers : (2 ^ 24 : I32).toInt = 2 ^ 24 ∧ (8 : I32).toInt = 8 ∧ (0 : I32).toInt = 0 := by
    decide
  rw [first, second, FixedPoint.value, FixedPoint.value, numbers.1, numbers.2.1, numbers.2.2] at less
  norm_num at less

end Fide.Kernel
