import Fide.UserVolume

/-! What `calculate_ent` holds the flows against, and why steady traffic passes.

The average divides the entropies of all flows by one less than their number, and the deviations
are added up before they are squared. Together this leaves the entropy of the flow listed last: it
is what the code takes for the standard deviation. -/

namespace Fide.UserEbpf

open Words

section Call

variable (order : BoundedMap.Enumeration Addr) {R : Type} [Field R] [LinearOrder R]
  [IsStrictOrderedRing R] (libm : Libm R) (root : ∀ x, libm.sqrt (x * x) = |x|)

/-- The flow of an address as a call on these maps tests it. -/
def flowOf (maps : Maps) (front : List Addr) (last k : Addr) : Flow R where
  address := k
  entropy := flowEntropy libm maps.data.value maps.logger.lookup k
  avg := ((front ++ [last]).map (flowEntropy libm maps.data.value maps.logger.lookup)).sum /
    front.length
  std := |flowEntropy libm maps.data.value maps.logger.lookup last|

omit [LinearOrder R] in
/-- The deviations from the sum shared out among one fewer add up to the entropy left out. -/
theorem summed_deviations (entropies : List R) (last : R) (some : (entropies.length : R) ≠ 0) :
    (entropies.map fun entropy =>
      entropy - (entropies ++ [last]).sum / entropies.length).sum = -last := by
  rw [Spread.sum_sub, mul_div_cancel₀ _ some, List.sum_append, List.sum_singleton]
  ring

include root in
theorem std_eq_last (maps : Maps) (front : List Addr) (last : Addr) (some : front ≠ [])
    (scan : Scan R)
    (entropies : (List.range front.length).map scan.ent =
      front.map (flowEntropy libm maps.data.value maps.logger.lookup))
    (total : scan.entropyAll =
      ((front ++ [last]).map (flowEntropy libm maps.data.value maps.logger.lookup)).sum) :
    libm.sqrt (Interval.variance ⟨front.length, scan⟩) =
      |flowEntropy libm maps.data.value maps.logger.lookup last| := by
  have count : (front.length : R) ≠ 0 := by
    rw [Nat.cast_ne_zero]
    exact (List.length_pos_iff.mpr some).ne'
  have deviations := summed_deviations
    (front.map (flowEntropy libm maps.data.value maps.logger.lookup))
    (flowEntropy libm maps.data.value maps.logger.lookup last) (by rwa [List.length_map])
  have variance : Interval.variance ⟨front.length, scan⟩ =
      flowEntropy libm maps.data.value maps.logger.lookup last *
        flowEntropy libm maps.data.value maps.logger.lookup last := by
    rw [variance_eq, entropies, Interval.avg, total, List.map_append, List.map_singleton]
    rw [List.length_map] at deviations
    rw [deviations]
    ring
  rw [variance, root]

omit [IsStrictOrderedRing R] in
/-- The report of a call on flows listed with a last one: that one is enumerated, but not counted. -/
theorem listed_reported (heap : Heap R) (statics : Statics) (maps : Maps) (front : List Addr)
    (last : Addr) (listed : order.order maps.logger.keys = front ++ [last])
    (absent : 0 ∉ maps.logger.keys) :
    Interval.Reported libm ⟨front.length,
        heap.scan.recordAll libm maps.data.value maps.logger.lookup 0 (front ++ [last])⟩
      statics.beta ((calculateEnt libm heap statics).run (exec order) maps).1 := by
  have some : maps.logger.keys ≠ [] := by
    intro none
    have nothing := (order.perm maps.logger.keys).trans (.of_eq none)
    rw [listed] at nothing
    exact absurd nothing.eq_nil (by simp)
  obtain ⟨front', last', listed', reported⟩ :=
    call_reported order libm heap statics maps some absent
  obtain ⟨rfl, same⟩ := List.append_inj' (listed'.symm.trans listed) rfl
  obtain rfl := List.singleton_inj.mp same
  exact reported

include root

theorem listed_tests (heap : Heap R) (statics : Statics) (maps : Maps) (front : List Addr)
    (last : Addr) (listed : order.order maps.logger.keys = front ++ [last])
    (absent : 0 ∉ maps.logger.keys) :
    let report := ((calculateEnt libm heap statics).run (exec order) maps).1
    report.tests = testsFrom statics.beta (front.map (flowOf libm maps front last)) ∧
      report.statics.beta = betaAfter statics.beta (front.map (flowOf libm maps front last)) := by
  intro report
  have reported := listed_reported order libm heap statics maps front last listed absent
  have present := listed_present order maps
  obtain ⟨addresses, entropies⟩ := recordAll_front libm maps.data.value maps.logger.lookup front
    [last] heap.scan (fun k member => present k (listed ▸ List.mem_append_left _ member))
  have total := listed_entropyAll order libm heap maps _ listed
  have tested : Interval.tested libm ⟨front.length, heap.scan.recordAll libm maps.data.value
      maps.logger.lookup 0 (front ++ [last])⟩ = front.map (flowOf libm maps front last) := by
    apply List.ext_getElem
    · simp [Interval.tested]
    · intro j _ inside
      rw [List.length_map] at inside
      have address := List.getElem_of_eq addresses (by simpa using inside)
      have entropy := List.getElem_of_eq entropies (by simpa using inside)
      have std := std_eq_last libm root maps front last (List.ne_nil_of_length_pos (by omega)) _
        entropies total
      simp only [List.getElem_map, List.getElem_range] at address entropy
      simp only [Interval.tested, List.getElem_map, List.getElem_range, flowOf, address, entropy, std,
        Interval.avg, total]
  rw [reported.tests, reported.beta, detection_eq, tested]
  exact ⟨rfl, rfl⟩

/-- With all counts positive nothing in the entropies of a call is undefined, nor is their average
when a flow is tested. The call tests the flows in the order listed, the last one excepted, and each
against the entropy of the last one. -/
theorem tested_against_last (heap : Heap R) (statics : Statics) (maps : Maps) (front : List Addr)
    (last : Addr) (listed : order.order maps.logger.keys = front ++ [last])
    (absent : 0 ∉ maps.logger.keys) (packets : 1 ≤ maps.data.value.prevIntervalPkt.toInt)
    (counted : ∀ k value, maps.logger.lookup k = some value →
      1 ≤ value.prev.toInt ∧ 1 ≤ value.cur.toInt) :
    let report := ((calculateEnt libm heap statics).run (exec order) maps).1
    (∀ entry ∈ report.entries, EntropyDefined R maps.data.value entry.2) ∧
      (front ≠ [] → report.flows ≠ 0) ∧
      report.tests = testsFrom statics.beta (front.map (flowOf libm maps front last)) ∧
      report.statics.beta = betaAfter statics.beta (front.map (flowOf libm maps front last)) := by
  intro report
  have reported := listed_reported order libm heap statics maps front last listed absent
  refine ⟨?_, ?_, listed_tests order libm root heap statics maps front last listed absent⟩
  · intro entry member
    have present := listed_present order maps
    rw [listed] at present
    rw [reported.entries, recordAll_entries libm _ _ 0 _ _ _ present] at member
    rcases member with before | ⟨-, found⟩
    · cases before
    · obtain ⟨prev, cur⟩ := counted entry.1 entry.2 found
      exact entropyDefined_of_pos packets prev cur
  · intro some
    rw [reported.flows]
    exact (List.length_pos_iff.mpr some).ne'

end Call

/-! ### Steady traffic -/

/-- All entries count alike, in this interval and in the one before. -/
def Steady (maps : Maps) : Prop :=
  ∃ prev cur : I32, 1 ≤ prev.toInt ∧ 1 ≤ cur.toInt ∧ ∀ k ∈ maps.logger.keys,
    (maps.logger.lookup k).map (fun value => (value.prev, value.cur)) = some (prev, cur)

section Steady

variable {R : Type} [Field R] [LinearOrder R] [IsStrictOrderedRing R]

omit [IsStrictOrderedRing R] in
/-- Flows that leave `beta` alone and pass are still tested with it. -/
theorem testsFrom_passed (beta : I32) (flows : List (Flow R))
    (passes : ∀ flow ∈ flows, flow.high = false ∧ flow.low = false ∧
      (flow.test beta).flagged = false) :
    betaAfter beta flows = beta ∧ ∀ test ∈ testsFrom beta flows, test.flagged = false := by
  induction flows with
  | nil => exact ⟨by simp [betaAfter], by simp [testsFrom]⟩
  | cons flow rest ih =>
      obtain ⟨high, low, passed⟩ := passes flow List.mem_cons_self
      obtain ⟨same, others⟩ := ih (fun other member => passes other (List.mem_cons_of_mem _ member))
      have first : betaAfter beta [flow] = beta := by simp [betaAfter, high, low]
      constructor
      · rw [← List.singleton_append, betaAfter_append, first, same]
      · intro test member
        rw [testsFrom, first, List.mem_cons] at member
        rcases member with rfl | later
        · exact passed
        · exact others test later

/-- Among equal entropies none is high or low, and none deviates by more than the spread. -/
theorem equal_flow_passes (k : Addr) (e : R) (nonneg : 0 ≤ e) (n : Nat) (some : 1 ≤ n) (beta : I32)
    (positive : 1 ≤ beta.toInt) :
    let flow : Flow R := ⟨k, e, (n + 1) * e / n, e⟩
    flow.high = false ∧ flow.low = false ∧ (flow.test beta).flagged = false := by
  intro flow
  have count : (1 : R) ≤ n := by exact_mod_cast some
  have split : (n + 1) * e / n = e + e / n := by
    have nonzero : (n : R) ≠ 0 := by linarith
    field_simp
  have share : 0 ≤ e / n := div_nonneg nonneg (by linarith)
  have small : e / n ≤ e := div_le_self nonneg count
  have high : flow.high = false := by
    apply decide_eq_false
    change ¬ 3 / 2 * ((n + 1) * e / n) < e
    rw [split]
    linarith
  have low : flow.low = false := by
    rw [Flow.low, high, Bool.not_false, Bool.true_and]
    apply decide_eq_false
    change ¬ e < 1 / 2 * ((n + 1) * e / n)
    rw [split]
    linarith
  have passed : (flow.test beta).flagged = false := by
    apply decide_eq_false
    change ¬ (beta.toInt : R) * e < |e - (n + 1) * e / n|
    have factor : (1 : R) ≤ beta.toInt := by exact_mod_cast positive
    rw [split, sub_add_cancel_left, abs_neg, abs_of_nonneg share]
    nlinarith
  exact ⟨high, low, passed⟩

variable (order : BoundedMap.Enumeration Addr) (libm : Libm R)
  (root : ∀ x, libm.sqrt (x * x) = |x|) (log : ∀ x, 0 < x → x ≤ 1 → libm.log2 x ≤ 0)

include log

/-- The flows of steady traffic have one entropy, and it is not negative. -/
theorem Steady.entropies {maps : Maps} (steady : Steady maps) (accounted : Accounted maps) :
    ∃ e : R, 0 ≤ e ∧
      ∀ k ∈ maps.logger.keys, flowEntropy libm maps.data.value maps.logger.lookup k = e := by
  obtain ⟨prev, cur, before, now, counts⟩ := steady
  have alike : ∀ k ∈ maps.logger.keys, ∃ value, maps.logger.lookup k = some value ∧
      value.prev = prev ∧ value.cur = cur := by
    intro k member
    obtain ⟨value, found, same⟩ := Option.map_eq_some_iff.mp (counts k member)
    exact ⟨value, found, Prod.mk.inj same⟩
  by_cases none : maps.logger.keys = []
  · refine ⟨0, le_rfl, ?_⟩
    rw [none]
    intro k member
    cases member
  · obtain ⟨k, member⟩ := List.exists_mem_of_ne_nil _ none
    obtain ⟨value, found, same, -⟩ := alike k member
    have whole := (accounted.counts k value found).1.2
    rw [same] at whole
    refine ⟨entropyOf libm maps.data.value ⟨prev, cur, 0⟩, ?_, ?_⟩
    · have prevReal : (1 : R) ≤ prev.toInt := by exact_mod_cast before
      have wholeReal : (prev.toInt : R) ≤ maps.data.value.prevIntervalPkt.toInt := by
        exact_mod_cast whole
      have share : libm.log2 ((prev.toInt : R) / maps.data.value.prevIntervalPkt.toInt) ≤ 0 := by
        apply log
        · exact div_pos (by linarith) (by linarith)
        · exact (div_le_one (by linarith)).mpr wholeReal
      unfold entropyOf
      dsimp only
      split
      · linarith [abs_nonneg (libm.log2 ((cur.toInt : R) / prev.toInt))]
      · linarith [abs_nonneg (libm.log2 ((prev.toInt : R) / cur.toInt))]
    · intro other inside
      obtain ⟨entry, stored, samePrev, sameCur⟩ := alike other inside
      rw [flowEntropy, stored, Option.elim_some]
      simp only [entropyOf, samePrev, sameCur]

include root

/-- A call on steady traffic flags nobody and leaves `beta` as it is. -/
theorem Steady.call {maps : Maps} (steady : Steady maps) (accounted : Accounted maps)
    (some : maps.logger.keys ≠ []) (heap : Heap R) (statics : Statics)
    (beta : 1 ≤ statics.beta.toInt) :
    let report := ((calculateEnt libm heap statics).run (exec order) maps).1
    report.statics.beta = statics.beta ∧ ∀ test ∈ report.tests, test.flagged = false := by
  intro report
  obtain ⟨e, nonneg, equal⟩ := steady.entropies libm log accounted
  have listing : order.order maps.logger.keys ≠ [] := by
    intro nothing
    have perm := order.perm maps.logger.keys
    rw [nothing] at perm
    exact some perm.symm.eq_nil
  obtain ⟨front, last, listed⟩ : ∃ front last, order.order maps.logger.keys = front ++ [last] :=
    ⟨_, _, (List.dropLast_append_getLast listing).symm⟩
  have members : ∀ k ∈ front ++ [last],
      flowEntropy libm maps.data.value maps.logger.lookup k = e := by
    intro k member
    rw [← listed, (order.perm maps.logger.keys).mem_iff] at member
    exact equal k member
  have total : ((front ++ [last]).map (flowEntropy libm maps.data.value maps.logger.lookup)).sum =
      (front.length + 1) * e := by
    rw [List.map_congr_left members, List.map_const', List.sum_replicate, List.length_append,
      List.length_singleton, nsmul_eq_mul]
    push_cast
    rfl
  obtain ⟨tests, after⟩ := listed_tests order libm root heap statics maps front last listed
    accounted.absent
  have passes : ∀ flow ∈ front.map (flowOf libm maps front last), flow.high = false ∧
      flow.low = false ∧ (flow.test statics.beta).flagged = false := by
    intro flow member
    obtain ⟨k, inside, rfl⟩ := List.mem_map.mp member
    have shape : flowOf libm maps front last k =
        ⟨k, e, (front.length + 1) * e / front.length, e⟩ := by
      rw [flowOf, total, members k (List.mem_append_left _ inside),
        members last (List.mem_append_right _ List.mem_cons_self), abs_of_nonneg nonneg]
    rw [shape]
    exact equal_flow_passes k e nonneg front.length (List.length_pos_of_mem inside) statics.beta beta
  obtain ⟨same, unflagged⟩ := testsFrom_passed statics.beta _ passes
  exact ⟨after.trans same, by rw [tests]; exact unflagged⟩

variable (env : Env)

theorem Steady.turns (turns : List (Turn R)) (s : System R) (accounted : Accounted s.world.maps)
    (beta : 1 ≤ s.statics.beta.toInt)
    (regular : s.everyTurn env order libm (System.regular 1) turns = true)
    (steady : s.everyCall env order libm (fun s _ => Steady s.world.maps) turns) :
    let t := turns.foldl (System.turn env order libm) s
    t.statics.beta = s.statics.beta ∧ ∃ later, t.reports = s.reports ++ later ∧
      ∀ report ∈ later, ∀ test ∈ report.tests, test.flagged = false := by
  induction turns generalizing s with
  | nil => exact ⟨rfl, [], (List.append_nil _).symm, by simp⟩
  | cons turn rest ih =>
      rw [System.everyTurn, Bool.and_eq_true] at regular
      obtain ⟨kept, -⟩ := regular_turn env order libm le_rfl accounted accounted.multiple_one turn
        regular.1
      cases turn with
      | packet frame => exact ih _ kept beta regular.2 steady
      | call heap =>
          have some : s.world.maps.logger.keys ≠ [] := of_decide_eq_true regular.1
          obtain ⟨same, unflagged⟩ := steady.1.call order libm root log accounted some heap s.statics
            beta
          have positive : 1 ≤ (s.turn env order libm (.call heap)).statics.beta.toInt :=
            beta.trans_eq (congrArg BitVec.toInt same).symm
          obtain ⟨still, later, reports, others⟩ := ih (s.turn env order libm (.call heap)) kept
            positive regular.2 steady.2
          refine ⟨still.trans same, (s.callResult order libm heap).1 :: later, ?_, ?_⟩
          · rw [List.foldl_cons, reports, System.turn, List.append_assoc, List.singleton_append]
          · intro report member
            rcases List.mem_cons.mp member with rfl | after
            · exact unflagged
            · exact others report after

end Steady

section Runs

variable {R : Type} [Field R] [LinearOrder R] (env : Env) (order : BoundedMap.Enumeration Addr)
  (libm : Libm R)

theorem regular_turns (m : Nat) (positive : 1 ≤ m) (turns : List (Turn R)) (s : System R)
    (accounted : Accounted s.world.maps) (room : s.world.maps.data.value.Multiple m)
    (regular : s.everyTurn env order libm (System.regular m) turns = true) :
    Accounted (turns.foldl (System.turn env order libm) s).world.maps ∧
      (turns.foldl (System.turn env order libm) s).world.maps.data.value.Multiple m := by
  induction turns generalizing s with
  | nil => exact ⟨accounted, room⟩
  | cons turn rest ih =>
      rw [System.everyTurn, Bool.and_eq_true] at regular
      obtain ⟨kept, left⟩ := regular_turn env order libm positive accounted room turn regular.1
      exact ih _ kept left regular.2

end Runs

/-- Traffic from the start leaves counts that add up. From any such state whose `beta` is at least
one, calls that find all entries with the same positive counts flag nobody, and `beta` stays as it is
for as long as the traffic goes on like that. -/
theorem steady_traffic_passes {R : Type} [Field R] [LinearOrder R] [IsStrictOrderedRing R]
    (env : Env) (order : BoundedMap.Enumeration Addr) (libm : Libm R)
    (root : ∀ x, libm.sqrt (x * x) = |x|) (log : ∀ x, 0 < x → x ≤ 1 → libm.log2 x ≤ 0) :
    (∀ before : List (Turn R),
      (System.initial R).everyTurn env order libm (System.regular 1) before = true →
      Accounted (before.foldl (System.turn env order libm) (System.initial R)).world.maps) ∧
    ∀ (turns : List (Turn R)) (s : System R), Accounted s.world.maps →
      1 ≤ s.statics.beta.toInt →
      s.everyTurn env order libm (System.regular 1) turns = true →
      s.everyCall env order libm (fun s _ => Steady s.world.maps) turns →
      let t := turns.foldl (System.turn env order libm) s
      t.statics.beta = s.statics.beta ∧ ∃ later, t.reports = s.reports ++ later ∧
        ∀ report ∈ later, ∀ test ∈ report.tests, test.flagged = false :=
  ⟨fun before regular => (regular_turns env order libm 1 le_rfl before (System.initial R)
      initial_accounted (initial_multiple 1) regular).1,
    Steady.turns order libm root log env⟩

theorem exactLibm_sqrt (x : Rat) : exactLibm.sqrt (x * x) = |x| := by
  change (Nat.sqrt (x * x).num.natAbs : Rat) / Nat.sqrt (x * x).den = |x|
  rw [Rat.mul_self_num, Rat.mul_self_den, Int.natAbs_mul, Nat.sqrt_eq, Nat.sqrt_eq, Rat.abs_def,
    Rat.divInt_eq_div, Int.cast_natCast, Int.cast_natCast]

theorem exactLibm_log2 (x : Rat) (positive : 0 < x) (most : x ≤ 1) : exactLibm.log2 x ≤ 0 := by
  have less : x.num.natAbs ≤ x.den := by
    have bound : x.num ≤ x.den := Rat.num_le_denom_iff.mpr most
    have sign : 0 < x.num := Rat.num_pos.mpr positive
    omega
  have order : (Nat.log2 x.num.natAbs : Rat) ≤ Nat.log2 x.den := by
    rw [Nat.log2_eq_log_two, Nat.log2_eq_log_two]
    exact_mod_cast Nat.log_mono_right less
  change ((Nat.log2 x.num.natAbs : Int) : Rat) - ((Nat.log2 x.den : Int) : Rat) ≤ 0
  rw [Int.cast_natCast, Int.cast_natCast]
  linarith

/-- Of three flows two are tested, against the entropy of the third. -/
theorem steady_flows_against_third :
    ((calculateEnt exactLibm (uniformHeap 0) ⟨0, 1⟩).run (exec (.stored _)) steadyMaps).1.tests =
      testsFrom 1 ([3, 2].map (flowOf exactLibm steadyMaps [3, 2] 1)) := by
  have counted : (steadyMaps.logger.keys.all fun k => (steadyMaps.logger.lookup k).all fun value =>
      1 ≤ value.prev.toInt && 1 ≤ value.cur.toInt) = true := by decide +kernel
  refine (tested_against_last (.stored _) exactLibm exactLibm_sqrt (uniformHeap 0) ⟨0, 1⟩ steadyMaps
    [3, 2] 1 (by decide +kernel) (by decide +kernel) (by decide +kernel) ?_).2.2.1
  intro k value found
  have entry := List.all_eq_true.mp counted k
    ((BoundedMap.mem_keys_iff_lookup _ _).mpr ⟨value, found⟩)
  rw [found, Option.all_some, Bool.and_eq_true] at entry
  exact ⟨of_decide_eq_true entry.1, of_decide_eq_true entry.2⟩

/-- A check of the entries one by one. -/
theorem steady_of_all (maps : Maps) (prev cur : I32) (before : 1 ≤ prev.toInt) (now : 1 ≤ cur.toInt)
    (counts : (maps.logger.keys.all fun k =>
      (maps.logger.lookup k).map (fun value => (value.prev, value.cur)) = some (prev, cur)) = true) :
    Steady maps := by
  refine ⟨prev, cur, before, now, ?_⟩
  intro k member
  exact of_decide_eq_true (List.all_eq_true.mp counts k member)

/-- Two sources that send one packet in every interval. -/
def steadyRounds : List (Turn Rat) :=
  [.packet (Frame.ipv4From 1), .packet (Frame.ipv4From 2), .call plainHeap]

theorem steady_rounds_pass :
    let s := steadyRounds.foldl (System.turn plainEnv (.stored _) exactLibm) (System.initial Rat)
    let t := (steadyRounds ++ steadyRounds).foldl (System.turn plainEnv (.stored _) exactLibm) s
    t.statics.beta = s.statics.beta ∧ ∃ later, t.reports = s.reports ++ later ∧
      ∀ report ∈ later, ∀ test ∈ report.tests, test.flagged = false := by
  obtain ⟨accounted, passes⟩ :=
    steady_traffic_passes plainEnv (.stored _) exactLibm exactLibm_sqrt exactLibm_log2
  apply passes _ _ (accounted steadyRounds (by decide +kernel))
  · decide +kernel
  · decide +kernel
  · simp only [steadyRounds, List.cons_append, List.nil_append, System.everyCall, and_true]
    constructor
    · exact steady_of_all _ 1 1 (by decide) (by decide) (by decide +kernel)
    · exact steady_of_all _ 1 1 (by decide) (by decide) (by decide +kernel)

end Fide.UserEbpf
