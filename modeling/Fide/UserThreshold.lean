import Fide.UserBalance
import Fide.UserDetection
import Fide.UserEnumeration

/-! What the static `beta` counts.

It starts at one, rises with every flow far above the average of its call and falls with every
flow far below it. Nothing bounds it from below. -/

namespace Fide.UserEbpf

open Words

section Runs

variable {R : Type} [Field R] [LinearOrder R]

/-- The finished calls are calls one after another over some intervals, and the one under way
will be the next, whatever happens to the maps. -/
def System.Detected (libm : Libm R) (s : System R) : Prop :=
  ∃ intervals, s.reports.flatMap Report.tests = detections libm 1 intervals ∧
    s.statics.beta = betaAfter 1 (allTested libm intervals) ∧
    ∀ p, s.process = some p → p.Ensures (fun _ _ _ _ => True) (fun _ _ _ => True)
      (fun report _ => ∃ interval : Interval R, interval.Reported libm s.statics.beta report)
      s.world

variable (env : Env) (order : BoundedMap.Enumeration Addr) (libm : Libm R)

theorem detected_step (s : System R) (event : Event R) (detected : s.Detected libm) :
    (s.step env order libm event).Detected libm := by
  obtain ⟨world, statics, process, reports⟩ := s
  obtain ⟨intervals, tests, beta, running⟩ := detected
  cases event with
  | packet frame =>
      refine ⟨intervals, tests, beta, ?_⟩
      intro p under
      exact (running p under).disturbed (fun _ _ _ kept _ => kept) trivial
  | call heap =>
      cases process with
      | none =>
          refine ⟨intervals, tests, beta, ?_⟩
          intro p under
          cases under
          exact calculateEnt_reported libm heap statics world
      | some p => exact ⟨intervals, tests, beta, running⟩
  | user =>
      match process, running with
      | none, running => exact ⟨intervals, tests, beta, running⟩
      | some (.done report), running =>
          obtain ⟨interval, reported⟩ := running _ rfl
          change statics.beta = _ at beta
          have own : report.tests = testsFrom statics.beta (interval.tested libm) := by
            rw [reported.tests, detection_eq]
          have next : report.statics.beta = betaAfter statics.beta (interval.tested libm) := by
            rw [reported.beta, detection_eq]
          refine ⟨intervals ++ [interval], ?_, ?_, ?_⟩
          · change (reports ++ [report]).flatMap Report.tests = _
            rw [List.flatMap_append, List.flatMap_singleton, tests, own, detections_eq,
              detections_eq, allTested_snoc, testsFrom_append, beta]
          · change report.statics.beta = _
            rw [next, beta, allTested_snoc, betaAfter_append]
          · intro p under
            cases under
      | some (.perform op next), running =>
          refine ⟨intervals, tests, beta, ?_⟩
          intro p under
          cases under
          exact (running _ rfl).acts trivial

theorem detected_run (events : List (Event R)) (s : System R) (detected : s.Detected libm) :
    (s.run env order libm events).Detected libm := by
  induction events generalizing s with
  | nil => exact detected
  | cons event rest ih => exact ih _ (detected_step env order libm s event detected)

/-- The tests of any run, with packets arriving at any point, are those of calls one after another
over some intervals. -/
theorem run_detections (events : List (Event R)) :
    ∃ intervals, ((System.initial R).run env order libm events).reports.flatMap Report.tests =
      detections libm 1 intervals := by
  have initial : (System.initial R).Detected libm := by
    have first : (1 : I32) = betaAfter 1 ([] : List (Flow R)) := by simp [betaAfter]
    refine ⟨[], rfl, first, ?_⟩
    intro p under
    cases under
  obtain ⟨intervals, tests, -⟩ := detected_run env order libm events _ initial
  exact ⟨intervals, tests⟩

end Runs

section Counts

variable {R : Type} [Field R] [LinearOrder R] [IsStrictOrderedRing R]

/-- A flow at the average is not flagged while `beta` is not negative. -/
theorem test_unflagged (flow : Flow R) (beta : I32) (std : 0 ≤ flow.std)
    (nonneg : 0 ≤ beta.toInt) (average : (flow.test beta).deviation = 0) :
    (flow.test beta).flagged = false := by
  have scaled : 0 ≤ (beta.toInt : R) * flow.std := mul_nonneg (Int.cast_nonneg nonneg) std
  change |flow.entropy - flow.avg| = 0 at average
  change decide ((beta.toInt : R) * flow.std < |flow.entropy - flow.avg|) = false
  rw [average]
  exact decide_eq_false (not_lt.mpr scaled)

theorem tested_std (libm : Libm R) (root : ∀ x, 0 ≤ x → 0 ≤ libm.sqrt x)
    (intervals : List (Interval R)) : ∀ flow ∈ allTested libm intervals, 0 ≤ flow.std := by
  intro flow member
  obtain ⟨interval, -, inside⟩ := List.mem_flatMap.mp member
  obtain ⟨k, -, rfl⟩ := List.mem_map.mp inside
  exact root _ (mul_self_nonneg _)

omit [IsStrictOrderedRing R] in
/-- As long as it fits its type, `beta` is one more than the surplus of high flows over low ones. -/
theorem betaAfter_one_toInt (flows : List (Flow R)) (few : flows.length + 1 < 2 ^ 31) :
    (betaAfter 1 flows).toInt = 1 + flows.countP Flow.high - flows.countP Flow.low := by
  have highs := flows.countP_le_length (p := Flow.high)
  have lows := flows.countP_le_length (p := Flow.low)
  have sum : betaAfter 1 flows =
      ((1 + flows.countP Flow.high - flows.countP Flow.low : Int) : I32) := by
    rw [betaAfter, Int.cast_sub, Int.cast_add, Int.cast_natCast, Int.cast_natCast, Int.cast_one]
  rw [sum, BitVec.toInt_intCast]
  exact Int.bmod_eq_of_le (by omega) (by omega)

/-- At every test of calls one after another `beta` is one more than the surplus of high flows over
low ones among the flows tested so far. So it is not negative exactly where the low flows lead by
at most one, and there a flow at the average is not flagged. -/
theorem beta_counts_flows (libm : Libm R) (root : ∀ x, 0 ≤ x → 0 ≤ libm.sqrt x)
    (intervals : List (Interval R)) (n : Nat) (test : Test R)
    (made : (detections libm 1 intervals)[n]? = some test) :
    let flows := (allTested libm intervals).take (n + 1)
    test.beta = 1 + (flows.countP Flow.high : I32) - (flows.countP Flow.low : I32) ∧
      (0 ≤ test.beta.toInt → test.deviation = 0 → test.flagged = false) ∧
      (n + 2 < 2 ^ 31 →
        test.beta.toInt = 1 + flows.countP Flow.high - flows.countP Flow.low ∧
        (-n ≤ test.beta.toInt ∧ test.beta.toInt ≤ n + 2) ∧
        (0 ≤ test.beta.toInt ↔ flows.countP Flow.low ≤ flows.countP Flow.high + 1)) := by
  intro flows
  rw [detections_eq, getElem?_testsFrom, Option.map_eq_some_iff] at made
  obtain ⟨flow, found, rfl⟩ := made
  refine ⟨rfl, ?_, ?_⟩
  · intro nonneg average
    have std := tested_std libm root intervals flow (List.mem_of_getElem? found)
    exact test_unflagged flow _ std nonneg average
  · intro inside
    have most : flows.length ≤ n + 1 := List.length_take_le _ _
    have highs := flows.countP_le_length (p := Flow.high)
    have lows := flows.countP_le_length (p := Flow.low)
    have beta : (flow.test (betaAfter 1 ((allTested libm intervals).take (n + 1)))).beta.toInt =
        1 + flows.countP Flow.high - flows.countP Flow.low :=
      betaAfter_one_toInt flows (by omega)
    refine ⟨beta, ?_, ?_⟩
    · omega
    · omega

end Counts

/-- Three flows with entropy 2 in an interval whose average is pulled up by a fourth. -/
def surgeInterval : Interval Rat := ⟨3, ⟨⟨2, 2, 0⟩, fun _ => 2, fun _ => 1, 18, []⟩⟩

theorem first_low_flow :
    ∃ test, (detections exactLibm 1 [surgeInterval])[0]? = some test ∧
      0 ≤ test.beta.toInt := by
  have root : ∀ x, 0 ≤ x → 0 ≤ exactLibm.sqrt x := by
    intro x _
    exact div_nonneg (Nat.cast_nonneg _) (Nat.cast_nonneg _)
  have made : ((detections exactLibm 1 [surgeInterval])[0]?).isSome := by decide +kernel
  obtain ⟨test, made⟩ := Option.isSome_iff_exists.mp made
  refine ⟨test, made, ?_⟩
  have counted := (beta_counts_flows exactLibm root [surgeInterval] 0 test made).2.2 (by decide)
  exact counted.2.2.mpr (by decide +kernel)

/-- Four flows that sent two packets each in the interval before: three send two again, the one
listed last sends 2048. -/
def surgeMaps : Maps where
  logger := (((BoundedMap.empty.update 1 ⟨2, 2048, 0⟩).update 2 ⟨2, 2, 0⟩).update 3
    ⟨2, 2, 0⟩).update 4 ⟨2, 2, 0⟩
  data := Slots.single ⟨8, 2054⟩

/-- The three are low, and the first call tests the third of them with `beta` at minus two. -/
theorem beta_turns_negative :
    ¬ ∀ maps : Maps,
      (∀ k ∈ maps.logger.keys,
        0 ≤ flowEntropy exactLibm maps.data.value maps.logger.lookup k) →
      ∀ test ∈ ((calculateEnt exactLibm plainHeap ⟨0, 1⟩).run (exec (.stored _)) maps).1.tests,
        0 ≤ test.beta.toInt := by
  intro claim
  have nonneg : ∀ k ∈ surgeMaps.logger.keys,
      0 ≤ flowEntropy exactLibm surgeMaps.data.value surgeMaps.logger.lookup k := by
    have all : (surgeMaps.logger.keys.all fun k => decide
        (0 ≤ flowEntropy exactLibm surgeMaps.data.value surgeMaps.logger.lookup k)) = true := by
      decide +kernel
    intro k member
    exact of_decide_eq_true (List.all_eq_true.mp all k member)
  have betas : ((calculateEnt exactLibm plainHeap ⟨0, 1⟩).run (exec (.stored _))
      surgeMaps).1.tests.map Test.beta = [0, -1, -2] := by decide +kernel
  have last : (-2 : I32) ∈ [0, -1, -2] := by decide
  rw [← betas] at last
  obtain ⟨test, member, value⟩ := List.mem_map.mp last
  have bound := claim surgeMaps nonneg test member
  rw [value] at bound
  exact absurd bound (by decide)

end Fide.UserEbpf
