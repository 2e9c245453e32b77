import Fide.Spread
import Fide.UserDetection
import Fide.UserReset

/-! The statistics of a call of `calculate_ent`, with no packet in between.

The loop leaves `i` at the last entry, so the call counts one flow too few: it adds up the entropies
of all flows and divides by one less, and neither spreads nor tests the last one. The spread is the
square of the summed deviations. -/

namespace Fide.UserEbpf

open Words

/-! ### Coverage -/

section Coverage

variable (order : BoundedMap.Enumeration Addr) {R : Type} [Field R] [LinearOrder R] (libm : Libm R)

/-- The call counts every flow, averages over all of them and tests each of them once. -/
structure CoversEveryFlow (maps : Maps) (report : Report R) : Prop where
  flows : report.flows = maps.logger.keys.length
  avg : report.avg =
    (maps.logger.keys.map (flowEntropy libm maps.data.value maps.logger.lookup)).sum /
      maps.logger.keys.length
  tests : (report.tests.map Test.address).Perm maps.logger.keys

variable (heap : Heap R) (statics : Statics) (maps : Maps) (some : maps.logger.keys ≠ [])
  (absent : 0 ∉ maps.logger.keys)

include some absent

/-- The report of a call on a logger with entries, none of them for 0.0.0.0: the flow listed last is
in the buffers, but not counted. -/
theorem call_reported :
    ∃ front last, order.order maps.logger.keys = front ++ [last] ∧
      Interval.Reported libm ⟨front.length,
          heap.scan.recordAll libm maps.data.value maps.logger.lookup 0 (front ++ [last])⟩
        statics.beta ((calculateEnt libm heap statics).run (exec order) maps).1 := by
  obtain ⟨key, rest, listed, first⟩ := listed_first order maps some absent
  have split := List.dropLast_append_getLast (List.cons_ne_nil key rest)
  have count : (key :: rest).dropLast.length = rest.length := by
    rw [List.length_dropLast, List.length_cons, Nat.add_sub_cancel]
  refine ⟨(key :: rest).dropLast, _, listed.trans split.symm, ?_⟩
  rw [split, count, calculateEnt_some order libm heap statics maps [] rest key first listed]
  exact concludeCall_run_reported libm (exec order) statics maps.data.value _ _ maps

/-- The last flow listed is left out of the count and the tests, but not of the sum. -/
theorem last_flow_left_out :
    let report := ((calculateEnt libm heap statics).run (exec order) maps).1
    report.flows + 1 = maps.logger.keys.length ∧
      report.avg =
        (maps.logger.keys.map (flowEntropy libm maps.data.value maps.logger.lookup)).sum /
          report.flows ∧
      report.tests.map Test.address = (order.order maps.logger.keys).dropLast := by
  intro report
  obtain ⟨front, last, listed, reported⟩ := call_reported order libm heap statics maps some absent
  have perm := order.perm maps.logger.keys
  have present := listed_present order maps
  have addresses := (recordAll_front libm maps.data.value maps.logger.lookup front [last] heap.scan
    (fun k member => present k (listed ▸ List.mem_append_left _ member))).1
  refine ⟨?_, ?_, ?_⟩
  · rw [reported.flows, ← perm.length_eq, listed, List.length_append, List.length_singleton]
  · rw [reported.avg, reported.flows, Interval.avg,
      listed_entropyAll order libm heap maps _ listed, ← listed, (perm.map _).sum_eq]
  · rw [reported.tests, detection_eq, testsFrom_addresses, tested_addresses, addresses, listed,
      List.dropLast_concat]

theorem flows_never_covered :
    ¬ CoversEveryFlow libm maps ((calculateEnt libm heap statics).run (exec order) maps).1 := by
  intro covers
  have left := (last_flow_left_out order libm heap statics maps some absent).1
  have all := covers.flows
  omega

end Coverage

/-- Three flows of an interval after one with four packets, all as busy as before. -/
def steadyMaps : Maps where
  logger := ((BoundedMap.empty.update 1 ⟨1, 1, 0⟩).update 2 ⟨1, 1, 0⟩).update 3 ⟨2, 2, 0⟩
  data := Slots.single ⟨4, 4⟩

theorem steady_flows_not_covered :
    ¬ CoversEveryFlow exactLibm steadyMaps
      ((calculateEnt exactLibm (uniformHeap 0) ⟨0, 1⟩).run (exec (.stored _)) steadyMaps).1 :=
  flows_never_covered (.stored _) exactLibm (uniformHeap 0) ⟨0, 1⟩ steadyMaps (by decide +kernel)
    (by decide +kernel)

/-- Of three flows two are counted. -/
theorem third_flow_left_out :
    ¬ ∀ (heap : Heap Rat) (maps : Maps), maps.logger.keys ≠ [] → 0 ∉ maps.logger.keys →
      CoversEveryFlow exactLibm maps
        ((calculateEnt exactLibm heap ⟨0, 1⟩).run (exec (.stored _)) maps).1 := by
  intro claim
  have counted : ((calculateEnt exactLibm (uniformHeap 0) ⟨0, 1⟩).run (exec (.stored _))
      steadyMaps).1.flows = 2 := by decide +kernel
  have covers := claim (uniformHeap 0) steadyMaps (by decide +kernel) (by decide +kernel)
  have flows := covers.flows
  rw [counted] at flows
  exact absurd flows (by decide +kernel)

/-! ### Spread -/

section Spread

variable {R : Type} [Field R] [LinearOrder R] [IsStrictOrderedRing R]

/-- The variance is the mean square of the deviations from the average used, and the standard
deviation vanishes only without any. -/
structure MeasuresSpread (libm : Libm R) (entropies : List R) (report : Report R) : Prop where
  variance : report.variance = Spread.meanSquare report.avg entropies
  std : libm.sqrt report.variance = 0 → ∀ entropy ∈ entropies, entropy = report.avg

omit [LinearOrder R] [IsStrictOrderedRing R] in
theorem variance_eq (interval : Interval R) :
    interval.variance = (((List.range interval.flows).map interval.scan.ent).map fun entropy =>
      entropy - interval.avg).sum ^ 2 := by
  rw [Interval.variance, List.map_map, sq]
  rfl

section Reported

variable (libm : Libm R) (root : ∀ x, 0 ≤ x → libm.sqrt x = 0 → x = 0)

include root

theorem reported_spread_iff (interval : Interval R) (beta : I32) (report : Report R)
    (reported : interval.Reported libm beta report) (positive : 1 ≤ interval.flows) :
    let entropies := (List.range interval.flows).map interval.scan.ent
    MeasuresSpread libm entropies report ↔
      Spread.meanSquare (Spread.mean entropies) entropies =
        ((interval.flows : R) ^ 2 - 1) * (Spread.mean entropies - interval.avg) ^ 2 := by
  intro entropies
  have count : entropies.length = interval.flows := by rw [List.length_map, List.length_range]
  have some : (entropies.length : R) ≠ 0 := by
    rw [count, Nat.cast_ne_zero]
    omega
  have exactly := Spread.sum_sub_sq_eq_iff interval.avg entropies some
  rw [count, ← variance_eq, ← reported.variance, ← reported.avg] at exactly
  rw [← reported.avg, ← exactly]
  constructor
  · intro measures
    exact measures.variance
  · intro variance
    refine ⟨variance, ?_⟩
    intro zero
    rw [variance] at zero
    exact Spread.eq_of_meanSquare_eq_zero _ _ (root _ (Spread.meanSquare_nonneg _ _) zero)

/-- In a call on at least two flows the mean of the counted entropies is off the average used by
the share of the last flow, so the measure is right exactly for one amount of spread around it. -/
theorem call_spread_iff (order : BoundedMap.Enumeration Addr) (heap : Heap R) (statics : Statics)
    (maps : Maps) (front : List Addr) (last : Addr)
    (listed : order.order maps.logger.keys = front ++ [last]) (positive : front ≠ [])
    (absent : 0 ∉ maps.logger.keys) :
    let entropies := front.map (flowEntropy libm maps.data.value maps.logger.lookup)
    MeasuresSpread libm entropies ((calculateEnt libm heap statics).run (exec order) maps).1 ↔
      Spread.meanSquare (Spread.mean entropies) entropies = ((front.length : R) ^ 2 - 1) *
        (flowEntropy libm maps.data.value maps.logger.lookup last / front.length) ^ 2 := by
  intro entropies
  have some : maps.logger.keys ≠ [] := by
    intro none
    have nothing := (order.perm maps.logger.keys).trans (.of_eq none)
    rw [listed] at nothing
    exact absurd nothing.eq_nil (by simp)
  obtain ⟨front', last', listed', reported⟩ :=
    call_reported order libm heap statics maps some absent
  obtain ⟨rfl, same⟩ := List.append_inj' (listed'.symm.trans listed) rfl
  obtain rfl := List.singleton_inj.mp same
  have present := listed_present order maps
  have buffer := (recordAll_front libm maps.data.value maps.logger.lookup front' [last'] heap.scan
    (fun k member => present k (listed ▸ List.mem_append_left _ member))).2
  have total : (heap.scan.recordAll libm maps.data.value maps.logger.lookup 0
      (front' ++ [last'])).entropyAll = entropies.sum +
        flowEntropy libm maps.data.value maps.logger.lookup last' := by
    rw [listed_entropyAll order libm heap maps _ listed, List.map_append, List.sum_append,
      List.map_singleton, List.sum_singleton]
  have right := reported_spread_iff libm root _ _ _ reported (List.length_pos_iff.mpr positive)
  rw [Interval.avg, total, buffer] at right
  have distance : (Spread.mean entropies - (entropies.sum +
      flowEntropy libm maps.data.value maps.logger.lookup last') / front'.length) ^ 2 =
        (flowEntropy libm maps.data.value maps.logger.lookup last' / front'.length) ^ 2 := by
    rw [Spread.mean, List.length_map]
    ring
  rw [← distance]
  exact right

end Reported

/-- The measure is right exactly for one amount of spread: when the variance of the entropies
about their own mean is the distance of that mean from the average used, squared, times the square
of their number less one. -/
theorem spread_right_iff (order : BoundedMap.Enumeration Addr) (libm : Libm R)
    (root : ∀ x, 0 ≤ x → libm.sqrt x = 0 → x = 0) (statics : Statics) (data : DataValue) (i : Nat)
    (positive : 1 ≤ i) (scan : Scan R) (maps : Maps) :
    let entropies := (List.range i).map scan.ent
    MeasuresSpread libm entropies
        ((concludeCall libm statics data i scan).run (exec order) maps).1 ↔
      Spread.meanSquare (Spread.mean entropies) entropies =
        ((i : R) ^ 2 - 1) * (Spread.mean entropies - scan.entropyAll / i) ^ 2 := by
  have reported := concludeCall_run_reported libm (exec order) statics data i scan maps
  exact reported_spread_iff libm root ⟨i, scan⟩ statics.beta _ reported positive

end Spread

theorem exactLibm_root (x : Rat) (zero : exactLibm.sqrt x = 0) : x = 0 := by
  change (Nat.sqrt x.num.natAbs : Rat) / Nat.sqrt x.den = 0 at zero
  have divisor : (Nat.sqrt x.den : Rat) ≠ 0 := by
    rw [Nat.cast_ne_zero, ← Nat.pos_iff_ne_zero, Nat.sqrt_pos]
    exact x.den_pos
  have numerator := (div_eq_zero_iff.mp zero).resolve_right divisor
  rw [Nat.cast_eq_zero, Nat.sqrt_eq_zero, Int.natAbs_eq_zero] at numerator
  exact Rat.num_eq_zero.mp numerator

/-- Entropies 7, 7 and 1 about 6: their variance is 8, and their mean lies at distance one. -/
theorem three_flows_measured :
    MeasuresSpread exactLibm [7, 7, 1]
      ((concludeCall exactLibm ⟨0, 1⟩ ⟨4, 4⟩ 3
        ⟨⟨1, 1, 0⟩, fun k => if k = 2 then 1 else 7, fun _ => 1, 18, []⟩).run (exec (.stored _))
          steadyMaps).1 :=
  (spread_right_iff (.stored _) exactLibm (fun x _ => exactLibm_root x) ⟨0, 1⟩ ⟨4, 4⟩ 3 (by decide)
    ⟨⟨1, 1, 0⟩, fun k => if k = 2 then 1 else 7, fun _ => 1, 18, []⟩ steadyMaps).mpr
      (by decide +kernel)

/-- The buffers of a call on the steady flows hold the entropies 1 and 2, with 5/2 for the average:
their mean square about it is 5/4, the square of the summed deviations is 4. -/
theorem deviations_summed_first :
    ¬ ∀ (i : Nat) (scan : Scan Rat), 1 ≤ i →
      MeasuresSpread exactLibm ((List.range i).map scan.ent)
        ((concludeCall exactLibm ⟨0, 1⟩ steadyMaps.data.value i scan).run (exec (.stored _))
          steadyMaps).1 := by
  intro claim
  let scan : Scan Rat := (uniformHeap 0).scan.recordAll exactLibm steadyMaps.data.value
    steadyMaps.logger.lookup 0 [3, 2, 1]
  have variance := (claim 2 scan (by decide)).variance
  have computed : ((concludeCall exactLibm ⟨0, 1⟩ steadyMaps.data.value 2 scan).run
      (exec (.stored _)) steadyMaps).1.variance = 4 := by decide +kernel
  have right : Spread.meanSquare ((concludeCall exactLibm ⟨0, 1⟩ steadyMaps.data.value 2 scan).run
      (exec (.stored _)) steadyMaps).1.avg ((List.range 2).map scan.ent) = 5 / 4 := by
    decide +kernel
  rw [computed, right] at variance
  exact absurd variance (by norm_num)

end Fide.UserEbpf
