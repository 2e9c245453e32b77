import Fide.FixedPointValue
import Fide.OrderIndependence

/-! What detection makes of the deviation of an entropy from the average.

Below the average the deviation is taken in full. Above it, `subtract` cuts a short one to as many
fraction bits as it has bits, and the threshold is compared with what is left. -/

namespace Fide

open Words DynamicScale

namespace Kernel

open FixedPoint

/-- What is left of a deviation: all of it below the average, a cut above. -/
def measured (q : Nat) (deviation : Int) : Int :=
  if deviation < 0 then -deviation else cutNumber q deviation.toNat

/-- An entropy and an average that can be compared: at one scale, with a difference that has an
absolute value. -/
structure Comparable (entropy avg : FixedPoint) : Prop where
  nonzero : entropy.number ≠ 0
  scale : entropy.q = avg.q
  nonneg : 0 ≤ avg.q.toInt
  bounded : avg.q.toInt ≤ 31
  low : -2 ^ 31 < entropy.number.toInt - avg.number.toInt
  high : entropy.number.toInt - avg.number.toInt < 2 ^ 31

theorem deviation_toInt (target : Target) (entropy avg : FixedPoint)
    (comparable : Comparable entropy avg) :
    (absVal (subtract target entropy avg).result).number.toInt =
      measured avg.q.toNat (entropy.number.toInt - avg.number.toInt) := by
  obtain ⟨-, scale, nonneg, bounded, low, high⟩ := comparable
  have difference : (entropy.number - avg.number).toInt =
      entropy.number.toInt - avg.number.toInt := toInt_sub_of_fits _ _ low.le high
  have result : (subtract target entropy avg).result =
      rescale target ((entropy.number - avg.number).signExtend 64) avg.q := by
    rw [subtract_eq, scale, maxScale_self]
  rw [result, measured, ← difference]
  by_cases negative : (entropy.number - avg.number).toInt < 0
  · rw [rescale_of_neg target _ _ negative bounded, if_pos negative,
      absVal_toInt _ (by change _ < (entropy.number - avg.number).toInt; omega)]
    exact abs_of_neg negative
  · have number := toInt_eq_toNat (entropy.number - avg.number) (by omega)
    have less := cutNumber_le avg.q.toNat (entropy.number - avg.number).toNat
    have cut : ((cutNumber avg.q.toNat (entropy.number - avg.number).toNat : Nat) : I32).toInt =
        cutNumber avg.q.toNat (entropy.number - avg.number).toNat := toInt_natCast _ (by omega)
    have least : -2 ^ 31 <
        ((cutNumber avg.q.toNat (entropy.number - avg.number).toNat : Nat) : I32).toInt := by
      rw [cut]
      omega
    rw [rescale_of_nonneg target _ _ (by omega) nonneg bounded, if_neg negative,
      absVal_toInt _ least]
    change |((cutNumber avg.q.toNat (entropy.number - avg.number).toNat : Nat) : I32).toInt| = _
    rw [cut, number, Int.toNat_natCast]
    exact abs_of_nonneg (Int.natCast_nonneg _)

/-- Detection lists the entry: its deviation exceeds the threshold. -/
def flaggedBy (target : Target) (tmp : DataValue) (avg : FixedPoint) (key : Addr)
    (value : LoggerValue) : Prop :=
  key ∈ (detection target tmp key value ⟨avg, []⟩).2.flagged

theorem flaggedBy_iff (target : Target) (tmp : DataValue) (avg : FixedPoint) (key : Addr)
    (value : LoggerValue) (comparable : Comparable value.entropy avg) :
    flaggedBy target tmp avg key value ↔
      tmp.threshold.toInt <
        measured avg.q.toNat (value.entropy.number.toInt - avg.number.toInt) := by
  rw [flaggedBy, detection_flagged, flags, ← deviation_toInt target value.entropy avg comparable]
  have counted : ¬value.entropy.number = 0#32 := comparable.nonzero
  simp [counted]

/-- A deviation above the average is measured in order, and one below is not measured short. -/
theorem measured_mono (q : Nat) (d e : Int) (closer : |d| ≤ |e|)
    (sameSide : d < 0 → e ≤ 0) : measured q d ≤ measured q e := by
  have kept : ∀ x : Int, measured q x ≤ |x| := by
    intro x
    rw [measured]
    split
    · next negative => rw [abs_of_neg negative]
    · next nonneg =>
        have less := cutNumber_le q x.toNat
        rw [abs_of_nonneg (by omega)]
        omega
  by_cases below : e < 0
  · have full : measured q e = |e| := by rw [measured, if_pos below, abs_of_neg below]
    rw [full]
    exact (kept d).trans closer
  · by_cases negative : d < 0
    · have zero : e = 0 := le_antisymm (sameSide negative) (by omega)
      rw [zero, abs_zero, abs_of_neg negative] at closer
      omega
    · rw [abs_of_nonneg (by omega), abs_of_nonneg (by omega)] at closer
      rw [measured, if_neg negative, measured, if_neg below]
      exact_mod_cast cutNumber_mono q (Int.toNat_le_toNat closer)

/-- Distances from the average at one scale are distances of the numbers. -/
theorem closer_iff (entropy₁ entropy₂ avg : FixedPoint) (scale₁ : entropy₁.q = avg.q)
    (scale₂ : entropy₂.q = avg.q) :
    |value entropy₁ - value avg| ≤ |value entropy₂ - value avg| ↔
      |entropy₁.number.toInt - avg.number.toInt| ≤ |entropy₂.number.toInt - avg.number.toInt| := by
  have positive : (0 : ℚ) < 2 ^ avg.q.toInt := zpow_pos (by norm_num) _
  rw [value, value, value, scale₁, scale₂, ← sub_div, ← sub_div, abs_div, abs_div,
    abs_of_pos positive, div_le_div_iff_of_pos_right positive]
  exact_mod_cast Iff.rfl

/-- Of two entries the one further from the average is flagged with the other, exactly where it is
not above the average and cut to the threshold while the other lies below and exceeds it. -/
theorem detection_monotone_iff (target : Target) (tmp : DataValue) (avg : FixedPoint)
    (key₁ key₂ : Addr) (value₁ value₂ : LoggerValue)
    (comparable₁ : Comparable value₁.entropy avg) (comparable₂ : Comparable value₂.entropy avg)
    (closer : |value value₁.entropy - value avg| ≤ |value value₂.entropy - value avg|) :
    (flaggedBy target tmp avg key₁ value₁ → flaggedBy target tmp avg key₂ value₂) ↔
      (value₁.entropy.number.toInt < avg.number.toInt →
        avg.number.toInt < value₂.entropy.number.toInt →
        tmp.threshold.toInt < avg.number.toInt - value₁.entropy.number.toInt →
        tmp.threshold.toInt <
          cutNumber avg.q.toNat (value₂.entropy.number.toInt - avg.number.toInt).toNat) := by
  rw [closer_iff _ _ _ comparable₁.scale comparable₂.scale] at closer
  rw [flaggedBy_iff _ _ _ _ _ comparable₁, flaggedBy_iff _ _ _ _ _ comparable₂]
  have below : value₁.entropy.number.toInt < avg.number.toInt →
      measured avg.q.toNat (value₁.entropy.number.toInt - avg.number.toInt) =
        avg.number.toInt - value₁.entropy.number.toInt := by
    intro less
    rw [measured, if_pos (by omega)]
    omega
  have above : avg.number.toInt < value₂.entropy.number.toInt →
      measured avg.q.toNat (value₂.entropy.number.toInt - avg.number.toInt) =
        cutNumber avg.q.toNat (value₂.entropy.number.toInt - avg.number.toInt).toNat := by
    intro greater
    rw [measured, if_neg (by omega)]
  constructor
  · intro monotone less greater exceeds
    rw [below less, above greater] at monotone
    exact monotone exceeds
  · intro condition exceeds
    by_cases opposite : value₁.entropy.number.toInt < avg.number.toInt ∧
        avg.number.toInt < value₂.entropy.number.toInt
    · obtain ⟨less, greater⟩ := opposite
      rw [below less] at exceeds
      rw [above greater]
      exact condition less greater exceeds
    · -- on one side of the average what is left of a deviation grows with it
      exact exceeds.trans_le (measured_mono _ _ _ closer (by omega))

/-- One and three around an average of two, at the scale of one bit. -/
theorem around_two_alike :
    Comparable ⟨1, 1⟩ ⟨2, 1⟩ ∧ Comparable ⟨3, 1⟩ ⟨2, 1⟩ ∧
      |value ⟨1, 1⟩ - value ⟨2, 1⟩| ≤ |value ⟨3, 1⟩ - value ⟨2, 1⟩| ∧
      flaggedBy masking ⟨0, 0, 0, 4⟩ ⟨2, 1⟩ 1 ⟨0, 1, ⟨1, 1⟩⟩ ∧
      flaggedBy masking ⟨0, 0, 0, 4⟩ ⟨2, 1⟩ 2 ⟨0, 1, ⟨3, 1⟩⟩ := by
  have below : Comparable ⟨1, 1⟩ ⟨2, 1⟩ :=
    ⟨by decide, rfl, by decide, by decide, by decide, by decide⟩
  have above : Comparable ⟨3, 1⟩ ⟨2, 1⟩ :=
    ⟨by decide, rfl, by decide, by decide, by decide, by decide⟩
  have closer := (closer_iff ⟨1, 1⟩ ⟨3, 1⟩ ⟨2, 1⟩ rfl rfl).mpr (by decide)
  have flagged : flaggedBy masking ⟨0, 0, 0, 4⟩ ⟨2, 1⟩ 1 ⟨0, 1, ⟨1, 1⟩⟩ := by
    rw [flaggedBy]
    decide
  have monotone := detection_monotone_iff masking ⟨0, 0, 0, 4⟩ ⟨2, 1⟩ 1 2 ⟨0, 1, ⟨1, 1⟩⟩
    ⟨0, 1, ⟨3, 1⟩⟩ below above closer
  exact ⟨below, above, closer, flagged, monotone.mpr (by decide) flagged⟩

/-- One unit below the average at the scale of the entropies is flagged, one above is cut to
nothing. -/
theorem above_average_goes_unflagged :
    ¬∀ (tmp : DataValue) (avg : FixedPoint) (key₁ key₂ : Addr) (value₁ value₂ : LoggerValue),
      0 ≤ tmp.threshold.toInt → Comparable value₁.entropy avg → Comparable value₂.entropy avg →
        |value value₁.entropy - value avg| ≤ |value value₂.entropy - value avg| →
        flaggedBy masking tmp avg key₁ value₁ → flaggedBy masking tmp avg key₂ value₂ := by
  intro monotone
  have unflagged : ¬flaggedBy masking ⟨0, 0, 0, 4⟩ ⟨2, 8⟩ 2 ⟨0, 1, ⟨3, 8⟩⟩ := by
    rw [flaggedBy]
    decide
  apply unflagged
  apply monotone ⟨0, 0, 0, 4⟩ ⟨2, 8⟩ 1 2 ⟨0, 1, ⟨1, 8⟩⟩ ⟨0, 1, ⟨3, 8⟩⟩ (by decide)
  · exact ⟨by decide, rfl, by decide, by decide, by decide, by decide⟩
  · exact ⟨by decide, rfl, by decide, by decide, by decide, by decide⟩
  · exact (closer_iff ⟨1, 8⟩ ⟨3, 8⟩ ⟨2, 8⟩ rfl rfl).mpr (by decide)
  · rw [flaggedBy]
    decide

end Kernel

end Fide
