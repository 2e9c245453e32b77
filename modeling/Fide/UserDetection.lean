import Fide.CalculateEnt

/-! The detection of `calculate_ent`, over one call and over calls one after another.

What a call computes depends on the maps only through the buffers its enumeration left behind.
`beta` is static: each call starts with the value the call before it ended with. -/

namespace Fide.UserEbpf

open Words

section Detection

variable {R : Type} [Field R] [LinearOrder R]

/-! ### What a call computes -/

/-- The buffers after the enumeration of a call, with the number of flows it goes on with. -/
structure Interval (R : Type) where
  flows : Nat
  scan : Scan R

def Interval.avg (interval : Interval R) : R := interval.scan.entropyAll / interval.flows

/-- Deviations are added up, and the sum is squared. -/
def Interval.variance (interval : Interval R) : R :=
  let deviation := ((List.range interval.flows).map fun k => interval.scan.ent k - interval.avg).sum
  deviation * deviation

/-- The tests of the detection loop, and `beta` after it. -/
def Interval.detection (libm : Libm R) (interval : Interval R) (beta : I32) : List (Test R) × I32 :=
  (List.range interval.flows).foldl
    (detect interval.scan interval.avg (libm.sqrt interval.variance)) ([], beta)

/-- The report of a call that goes on with these buffers. -/
structure Interval.Reported (libm : Libm R) (interval : Interval R) (beta : I32)
    (report : Report R) : Prop where
  flows : report.flows = interval.flows
  entries : report.entries = interval.scan.entries
  avg : report.avg = interval.avg
  variance : report.variance = interval.variance
  tests : report.tests = (interval.detection libm beta).1
  beta : report.statics.beta = (interval.detection libm beta).2

section Calls

variable {σ : Type} {act : (op : Op) → σ → Answer op → σ → Prop}
  {disturb : Option Op → σ → σ → Prop} (libm : Libm R)

/-- Whatever happens to the maps meanwhile, the report is that of the buffers. -/
theorem concludeCall_reported (statics : Statics) (data : DataValue) (i : Nat) (scan : Scan R)
    (s : σ) :
    (concludeCall libm statics data i scan).Ensures act disturb
      (fun report _ => Interval.Reported libm ⟨i, scan⟩ statics.beta report) s := by
  intro _ _ _ _ _
  refine Program.ensures_bind (Program.ensures_always ?_ _ _)
  intro moved _
  exact ⟨rfl, rfl, rfl, rfl, rfl, rfl⟩

theorem concludeCall_run_reported (exec : (op : Op) → σ → Answer op × σ) (statics : Statics)
    (data : DataValue) (i : Nat) (scan : Scan R) (s : σ) :
    Interval.Reported libm ⟨i, scan⟩ statics.beta
      ((concludeCall libm statics data i scan).run exec s).1 := by
  have ensures : (concludeCall libm statics data i scan).Ensures
      (fun _ _ _ _ => True) (fun _ _ _ => True)
      (fun report _ => Interval.Reported libm ⟨i, scan⟩ statics.beta report) s :=
    concludeCall_reported libm statics data i scan s
  exact ensures.run fun _ _ => trivial

theorem calculateEnt_reported (heap : Heap R) (statics : Statics) (s : σ) :
    (calculateEnt libm heap statics).Ensures act disturb
      (fun report _ => ∃ interval, Interval.Reported libm interval statics.beta report) s := by
  intro _ _ found _ _ _ _ first s _
  cases first with
  | none =>
      exact (concludeCall_reported libm statics _ 1 _ s).mono fun report _ made => ⟨_, made⟩
  | some key =>
      refine Program.ensures_bind (Program.ensures_always ?_ _ _)
      intro scanned s
      rcases scanned with ⟨i, scan⟩
      exact (concludeCall_reported libm statics _ i scan s).mono fun report _ made => ⟨_, made⟩

end Calls

/-! ### The tests one after another -/

/-- `beta` after the flows, each high one raising it and each low one lowering it. -/
def betaAfter (beta : I32) (flows : List (Flow R)) : I32 :=
  beta + (flows.countP Flow.high : I32) - (flows.countP Flow.low : I32)

def Flow.test (flow : Flow R) (beta : I32) : Test R :=
  let d := |flow.entropy - flow.avg|
  ⟨flow.address, d, beta, (beta.toInt : R) * flow.std < d⟩

/-- The tests of the flows, each with `beta` after its own adjustment. -/
def testsFrom : I32 → List (Flow R) → List (Test R)
  | _, [] => []
  | beta, flow :: rest =>
      flow.test (betaAfter beta [flow]) :: testsFrom (betaAfter beta [flow]) rest

theorem betaAfter_append (beta : I32) (front back : List (Flow R)) :
    betaAfter beta (front ++ back) = betaAfter (betaAfter beta front) back := by
  simp only [betaAfter, List.countP_append]
  push_cast
  ring

theorem testsFrom_append (beta : I32) (front back : List (Flow R)) :
    testsFrom beta (front ++ back) =
      testsFrom beta front ++ testsFrom (betaAfter beta front) back := by
  induction front generalizing beta with
  | nil => simp [testsFrom, betaAfter]
  | cons flow rest ih =>
      rw [List.cons_append, testsFrom, ih, testsFrom, ← betaAfter_append, List.singleton_append]
      rfl

theorem testsFrom_addresses (beta : I32) (flows : List (Flow R)) :
    (testsFrom beta flows).map Test.address = flows.map Flow.address := by
  induction flows generalizing beta with
  | nil => rfl
  | cons flow rest ih =>
      rw [testsFrom, List.map_cons, List.map_cons, ih]
      rfl

theorem getElem?_testsFrom (beta : I32) (flows : List (Flow R)) (n : Nat) :
    (testsFrom beta flows)[n]? = flows[n]?.map fun flow =>
      flow.test (betaAfter beta (flows.take (n + 1))) := by
  induction flows generalizing beta n with
  | nil => rfl
  | cons flow rest ih =>
      cases n with
      | zero => rfl
      | succ n =>
          rw [testsFrom, List.getElem?_cons_succ, List.getElem?_cons_succ, ih, List.take_succ_cons]
          simp only [← betaAfter_append, List.singleton_append]

/-- The adjustment of the loop is the one by the counts. -/
theorem betaAfter_singleton (beta : I32) (flow : Flow R) :
    betaAfter beta [flow] =
      if 3 / 2 * flow.avg < flow.entropy then beta + 1
      else if flow.entropy < 1 / 2 * flow.avg then beta - 1
      else beta := by
  by_cases high : 3 / 2 * flow.avg < flow.entropy
  · simp [betaAfter, Flow.low, Flow.high, high]
  · by_cases low : flow.entropy < 1 / 2 * flow.avg
    · simp [betaAfter, Flow.low, Flow.high, high, low, -one_div]
    · simp [betaAfter, Flow.low, Flow.high, high, low, -one_div]

def Interval.tested (libm : Libm R) (interval : Interval R) : List (Flow R) :=
  (List.range interval.flows).map fun k =>
    ⟨interval.scan.ip k, interval.scan.ent k, interval.avg, libm.sqrt interval.variance⟩

theorem foldl_detect (scan : Scan R) (avg std : R) (ks : List Nat) (acc : List (Test R) × I32) :
    ks.foldl (detect scan avg std) acc =
      (acc.1 ++ testsFrom acc.2 (ks.map fun k => ⟨scan.ip k, scan.ent k, avg, std⟩),
        betaAfter acc.2 (ks.map fun k => ⟨scan.ip k, scan.ent k, avg, std⟩)) := by
  induction ks generalizing acc with
  | nil => simp [testsFrom, betaAfter]
  | cons k rest ih =>
      have step : detect scan avg std acc k =
          (acc.1 ++ [Flow.test ⟨scan.ip k, scan.ent k, avg, std⟩
            (betaAfter acc.2 [⟨scan.ip k, scan.ent k, avg, std⟩])],
            betaAfter acc.2 [⟨scan.ip k, scan.ent k, avg, std⟩]) := by
        rw [betaAfter_singleton]
        rfl
      rw [List.foldl_cons, step, ih, List.map_cons, testsFrom, List.append_assoc,
        List.singleton_append, ← betaAfter_append, List.singleton_append]

omit [LinearOrder R] in
theorem tested_addresses (libm : Libm R) (interval : Interval R) :
    (interval.tested libm).map Flow.address = (List.range interval.flows).map interval.scan.ip := by
  rw [Interval.tested, List.map_map]
  rfl

theorem detection_eq (libm : Libm R) (interval : Interval R) (beta : I32) :
    interval.detection libm beta =
      (testsFrom beta (interval.tested libm), betaAfter beta (interval.tested libm)) := by
  rw [Interval.detection, foldl_detect, List.nil_append]
  rfl

/-- The tests of calls one after another, each starting with the `beta` of the one before. -/
def detections (libm : Libm R) : I32 → List (Interval R) → List (Test R)
  | _, [] => []
  | beta, interval :: rest =>
      (interval.detection libm beta).1 ++ detections libm (interval.detection libm beta).2 rest

/-- The flows the calls test, in this order. -/
def allTested (libm : Libm R) (intervals : List (Interval R)) : List (Flow R) :=
  intervals.flatMap (Interval.tested libm)

omit [LinearOrder R] in
theorem allTested_snoc (libm : Libm R) (intervals : List (Interval R)) (last : Interval R) :
    allTested libm (intervals ++ [last]) = allTested libm intervals ++ last.tested libm := by
  rw [allTested, List.flatMap_append, List.flatMap_singleton]
  rfl

theorem detections_eq (libm : Libm R) (beta : I32) (intervals : List (Interval R)) :
    detections libm beta intervals = testsFrom beta (allTested libm intervals) := by
  induction intervals generalizing beta with
  | nil => rfl
  | cons interval rest ih =>
      have split : allTested libm (interval :: rest) =
          interval.tested libm ++ allTested libm rest := List.flatMap_cons
      rw [detections, detection_eq, ih, split, testsFrom_append]

end Detection

/-- Logarithms of powers of two and roots of squares, as exact as they are in `libm`. -/
def exactLibm : Libm Rat where
  log2 x := (Nat.log2 x.num.natAbs : Int) - (Nat.log2 x.den : Int)
  sqrt x := (Nat.sqrt x.num.natAbs : Rat) / Nat.sqrt x.den

end Fide.UserEbpf
