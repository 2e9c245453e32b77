import Fide.KernelRun
import Fide.Filtering

/-! Runs of the in-kernel program held against each other.

Two runs are related step by step: `related_runs` carries a relation of states along, with one
between the rollovers. A threshold decides which addresses are flagged and nothing else, and the
origin of the clock decides nothing. -/

namespace Fide.Kernel

open Words FixedPoint

/-! ### Two runs side by side -/

section Related

variable (env env' : Env)

/-- The rollovers of a run. -/
def rollovers : State → List Packet → List Rollover
  | _, [] => []
  | st, packet :: rest =>
      (xdpFilterFunc env st packet).rollover.toList ++
        rollovers (xdpFilterFunc env st packet).state rest

/-- The same verdict, states related by `Same` and rollovers by `Rolled`. -/
structure Outcome.Like (Same : State → State → Prop) (Rolled : Rollover → Rollover → Prop)
    (outcome other : Outcome) : Prop where
  action : other.action = outcome.action
  state : Same outcome.state other.state
  rollover : List.Forall₂ Rolled outcome.rollover.toList other.rollover.toList

/-- Packets that neither run counts leave the states as they are. -/
theorem ignored_like {Same : State → State → Prop} {Rolled : Rollover → Rollover → Prop}
    (st st' : State) (packet packet' : Packet)
    (action : filterAction .pass env'.blacklist env'.redirect packet'.frame =
      filterAction .pass env.blacklist env.redirect packet.frame)
    (ignored : countedSource env packet.frame = none)
    (ignored' : countedSource env' packet'.frame = none) (same : Same st st') :
    (xdpFilterFunc env st packet).Like Same Rolled (xdpFilterFunc env' st' packet') := by
  obtain ⟨kept, idle⟩ := step_ignored env st packet ignored
  obtain ⟨kept', idle'⟩ := step_ignored env' st' packet' ignored'
  constructor
  · rw [kernel_action, kernel_action, action]
  · rwa [kept, kept']
  · rw [idle, idle']
    exact .nil

/-- Outcomes that are alike step by step are alike in whole runs. -/
theorem related_runs (Same : State → State → Prop) (Rolled : Rollover → Rollover → Prop)
    (Paired : Packet → Packet → Prop)
    (step : ∀ st st' packet packet', Same st st' → Paired packet packet' →
      (xdpFilterFunc env st packet).Like Same Rolled (xdpFilterFunc env' st' packet'))
    {packets packets' : List Packet} (paired : List.Forall₂ Paired packets packets')
    {st st' : State} (same : Same st st') :
    Same (run env st packets) (run env' st' packets') ∧
      (verdicts env' st' packets').map Prod.snd = (verdicts env st packets).map Prod.snd ∧
      List.Forall₂ Rolled (rollovers env st packets) (rollovers env' st' packets') := by
  induction paired generalizing st st' with
  | nil => exact ⟨same, rfl, .nil⟩
  | cons pair _ ih =>
      have like := step _ _ _ _ same pair
      obtain ⟨states, actions, rolled⟩ := ih like.state
      refine ⟨states, ?_, ?_⟩
      · simp only [verdicts, List.map_cons, like.action, actions]
      · exact List.rel_append like.rollover rolled

end Related

/-! ### Another threshold -/

def DataValue.withThreshold (threshold : I32) (tmp : DataValue) : DataValue :=
  { tmp with threshold := threshold }

def State.withThreshold (threshold : I32) (st : State) : State :=
  { st with data := st.data.update 0 (st.data.value.withThreshold threshold) }

/-- The same traversal so far, with no more addresses flagged. -/
structure Laxer (acc lax : Logger × DetectionPass) : Prop where
  logger : lax.1 = acc.1
  avg : lax.2.avg = acc.2.avg
  flagged : lax.2.flagged.Sublist acc.2.flagged

section Rollover

variable (target : Target) {tmp : DataValue} {threshold : I32}

/-- A higher threshold does the same to the entry and the average. -/
theorem detection_withThreshold (higher : tmp.threshold.toInt ≤ threshold.toInt) (key : Addr)
    (value : LoggerValue) (pass lax : DetectionPass) (avg : lax.avg = pass.avg)
    (fewer : lax.flagged.Sublist pass.flagged) :
    (detection target (tmp.withThreshold threshold) key value lax).1 =
        (detection target tmp key value pass).1 ∧
      (detection target (tmp.withThreshold threshold) key value lax).2.avg =
        (detection target tmp key value pass).2.avg ∧
      (detection target (tmp.withThreshold threshold) key value lax).2.flagged.Sublist
        (detection target tmp key value pass).2.flagged := by
  unfold detection
  by_cases unset : value.entropy.number = 0
  · simp only [if_pos unset]
    exact ⟨trivial, avg, fewer⟩
  · simp only [if_neg unset, avg, DataValue.withThreshold]
    have flags : (if threshold.toInt <
          (absVal (subtract target value.entropy pass.avg).result).number.toInt
        then lax.flagged ++ [key] else lax.flagged).Sublist
      (if tmp.threshold.toInt < (absVal (subtract target value.entropy pass.avg).result).number.toInt
        then pass.flagged ++ [key] else pass.flagged) := by
      split
      · next above =>
          rw [if_pos (by omega)]
          exact fewer.append_right [key]
      · split
        · exact fewer.trans (List.sublist_append_left _ _)
        · exact fewer
    split <;> exact ⟨rfl, rfl, flags⟩

theorem Laxer.visit (higher : tmp.threshold.toInt ≤ threshold.toInt)
    {acc lax : Logger × DetectionPass} (laxer : Laxer acc lax) (key : Addr) :
    Laxer (BoundedMap.visit (detection target tmp) acc key)
      (BoundedMap.visit (detection target (tmp.withThreshold threshold)) lax key) := by
  rw [BoundedMap.visit_eq, BoundedMap.visit_eq, laxer.logger]
  cases acc.1.lookup key with
  | none => exact laxer
  | some value =>
      obtain ⟨entry, avg, fewer⟩ := detection_withThreshold target higher key value acc.2 lax.2
        laxer.avg laxer.flagged
      refine ⟨?_, avg, fewer⟩
      simp only [Option.elim_some, entry]

theorem Laxer.visits (higher : tmp.threshold.toInt ≤ threshold.toInt) (keys : List Addr)
    {acc lax : Logger × DetectionPass} (laxer : Laxer acc lax) :
    Laxer (keys.foldl (BoundedMap.visit (detection target tmp)) acc)
      (keys.foldl (BoundedMap.visit (detection target (tmp.withThreshold threshold))) lax) := by
  induction keys generalizing acc lax with
  | nil => exact laxer
  | cons key rest ih => exact ih (laxer.visit target higher key)

/-- The same rollover, with no more addresses flagged. -/
structure Rollover.Laxer (rollover lax : Rollover) : Prop where
  entropies : lax.entropies = rollover.entropies
  divisors : lax.divisors = rollover.divisors
  avg : lax.avg = rollover.avg
  logger : lax.logger = rollover.logger
  finalAvg : lax.finalAvg = rollover.finalAvg
  flagged : lax.flagged.Sublist rollover.flagged

theorem analyse_withThreshold (higher : tmp.threshold.toInt ≤ threshold.toInt) (packet : Packet)
    (st st' : State) (logger : st'.logger = st.logger) (count : st'.count = st.count)
    (entropyAll : st'.entropyAll = st.entropyAll) :
    (analyse target packet tmp st).Laxer
      (analyse target packet (tmp.withThreshold threshold) st') := by
  have entropy : calcEntropy target (tmp.withThreshold threshold) = calcEntropy target tmp := rfl
  have bits : (tmp.withThreshold threshold).intBits = tmp.intBits := rfl
  unfold analyse
  simp only [logger, count, entropyAll, entropy, bits]
  generalize st.logger.forEach packet.entropyOrder (calcEntropy target tmp)
    ⟨st.count, st.entropyAll, []⟩ = pass
  generalize (divide target pass.2.entropyAll (toFixedPoint target pass.2.count tmp.intBits)).result =
    avg
  have same : Kernel.Laxer (pass.1, ⟨avg, []⟩) (pass.1, ⟨avg, []⟩) := ⟨rfl, rfl, .refl _⟩
  have found := same.visits target higher (packet.detectionOrder.order pass.1.keys)
  exact ⟨rfl, rfl, rfl, found.logger, found.avg, found.flagged⟩

end Rollover

section Runs

variable {env : Env} {threshold : I32}

theorem countPacket_withThreshold (target : Target) (tmp : DataValue) :
    countPacket target (tmp.withThreshold threshold) =
      (countPacket target tmp).withThreshold threshold := by
  unfold countPacket DataValue.withThreshold
  dsimp only
  split <;> rfl

theorem counted_withThreshold (st : State) (packet : Packet) (saddr : Addr) :
    counted env (st.withThreshold threshold) packet saddr =
      (counted env st packet saddr).withThreshold threshold := by
  simp only [counted, State.withThreshold, Slots.value_update_zero, Slots.update_update_zero,
    countPacket_withThreshold]

theorem closeInterval_withThreshold (st : State) (tmp : DataValue) {rollover lax : Rollover}
    (laxer : rollover.Laxer lax) :
    closeInterval (st.withThreshold threshold) (tmp.withThreshold threshold) lax =
      (closeInterval st tmp rollover).withThreshold threshold := by
  simp only [closeInterval, State.withThreshold, DataValue.withThreshold, laxer.logger,
    laxer.finalAvg, Slots.value_update_zero, Slots.update_update_zero]

theorem rolloverOf_withThreshold (st : State) (packet : Packet) (saddr : Addr)
    (higher : st.data.value.threshold.toInt ≤ threshold.toInt) :
    (rolloverOf env st packet saddr).Laxer
      (rolloverOf env (st.withThreshold threshold) packet saddr) := by
  have same : (countPacket env.target st.data.value).threshold = st.data.value.threshold := by
    unfold countPacket
    dsimp only
    split <;> rfl
  have value : (st.withThreshold threshold).data.value =
      st.data.value.withThreshold threshold := Slots.value_update_zero _ _
  unfold rolloverOf
  rw [value, countPacket_withThreshold, counted_withThreshold]
  apply analyse_withThreshold env.target
  · rwa [same]
  · rfl
  · rfl
  · rfl

/-- No packet writes the threshold. -/
theorem step_threshold (st : State) (packet : Packet) :
    (xdpFilterFunc env st packet).state.data.value.threshold = st.data.value.threshold := by
  have counting : (countPacket env.target st.data.value).threshold =
      st.data.value.threshold := by
    unfold countPacket
    dsimp only
    split <;> rfl
  cases source : countedSource env packet.frame with
  | none => rw [(step_ignored env st packet source).1]
  | some saddr =>
      rw [step_counted env st packet saddr source]
      split
      · simp only [closeInterval, Slots.value_update_zero, counting]
      · simp only [counted, Slots.value_update_zero, counting]

/-- The same state under a threshold at least as high. -/
def State.Raised (threshold : I32) (st st' : State) : Prop :=
  st' = st.withThreshold threshold ∧ st.data.value.threshold.toInt ≤ threshold.toInt

/-- One packet under the two thresholds. -/
theorem step_raised (st st' : State) (packet : Packet) (raised : st.Raised threshold st') :
    (xdpFilterFunc env st packet).Like (State.Raised threshold) Rollover.Laxer
      (xdpFilterFunc env st' packet) := by
  have still : (xdpFilterFunc env st packet).state.data.value.threshold = st.data.value.threshold :=
    step_threshold st packet
  obtain ⟨rfl, higher⟩ := raised
  cases source : countedSource env packet.frame with
  | none => exact ignored_like env env _ _ packet packet rfl source source ⟨rfl, higher⟩
  | some saddr =>
      have clock : rollsOver (st.withThreshold threshold) packet = rollsOver st packet := rfl
      have laxer : (rolloverOf env st packet saddr).Laxer
          (rolloverOf env (st.withThreshold threshold) packet saddr) :=
        rolloverOf_withThreshold st packet saddr higher
      have value : (st.withThreshold threshold).data.value =
          st.data.value.withThreshold threshold := Slots.value_update_zero _ _
      rw [← still] at higher
      rw [step_counted env st packet saddr source] at higher ⊢
      rw [step_counted env (st.withThreshold threshold) packet saddr source, clock,
        counted_withThreshold, value, countPacket_withThreshold,
        closeInterval_withThreshold _ _ laxer]
      split at higher
      · next due =>
          rw [if_pos due, if_pos due]
          exact ⟨rfl, ⟨rfl, higher⟩, .cons laxer .nil⟩
      · next early =>
          rw [if_neg early, if_neg early]
          exact ⟨rfl, ⟨rfl, higher⟩, .nil⟩

end Runs

/-- Under a higher threshold every packet gets the same verdict, the maps and statics go through
the same values, and each rollover flags some of the addresses it flagged before and no other. -/
theorem higher_threshold_flags_fewer (env : Env) (st : State) (threshold : I32)
    (packets : List Packet) (higher : st.data.value.threshold.toInt ≤ threshold.toInt) :
    run env (st.withThreshold threshold) packets =
        (run env st packets).withThreshold threshold ∧
      (verdicts env (st.withThreshold threshold) packets).map Prod.snd =
        (verdicts env st packets).map Prod.snd ∧
      List.Forall₂ Rollover.Laxer (rollovers env st packets)
        (rollovers env (st.withThreshold threshold) packets) := by
  obtain ⟨states, actions, rolled⟩ := related_runs env env (State.Raised threshold) Rollover.Laxer Eq
    (fun st st' packet _ raised same => same ▸ step_raised st st' packet raised)
    (List.forall₂_same.mpr fun packet _ => rfl) ⟨rfl, higher⟩
  exact ⟨states.1, actions, rolled⟩

/-- Two intervals in which one address sends more than the other. -/
def unevenPackets : List Packet :=
  [packetAt 1 2000000000, packetAt 2 2000000001, packetAt 2 2000000002, packetAt 2 2000000003,
    packetAt 2 2000000004, packetAt 1 4000000000, packetAt 2 4000000001, packetAt 2 4000000002,
    packetAt 1 6000000000]

/-- Both addresses are flagged at threshold 0, one of them at the higher threshold. -/
theorem uneven_flagged :
    (rollovers bareEnv initialised unevenPackets).map (·.flagged) = [[], [2, 1]] ∧
      (rollovers bareEnv (initialised.withThreshold 33554432) unevenPackets).map (·.flagged) =
        [[], [2]] ∧
      List.Forall₂ Rollover.Laxer (rollovers bareEnv initialised unevenPackets)
        (rollovers bareEnv (initialised.withThreshold 33554432) unevenPackets) :=
  ⟨by decide +kernel, by decide +kernel,
    (higher_threshold_flags_fewer bareEnv initialised 33554432 unevenPackets
      (by decide +kernel)).2.2⟩

/-! ### Another clock -/

/-- The packet, at a time later by the delay. -/
def Packet.later (delay : I64) (packet : Packet) : Packet := { packet with ts := packet.ts + delay }

/-- A time more than an interval after the origin and, delayed, more than one before the end. -/
structure Timely (delay time : I64) : Prop where
  low : invlNs.toInt < time.toInt
  high : time.toInt + delay.toInt + invlNs.toInt < 2 ^ 63

/-- Both clocks are unset, or one of them is ahead by the delay. -/
def Ahead (delay timestamp timestamp' : I64) : Prop :=
  timestamp = 0 ∧ timestamp' = 0 ∨ Timely delay timestamp ∧ timestamp' = timestamp + delay

section Clock

variable {delay ts timestamp timestamp' : I64} (forward : 0 ≤ delay.toInt) (timely : Timely delay ts)

include forward

theorem Timely.toInt (timely : Timely delay ts) :
    (ts + delay).toInt = ts.toInt + delay.toInt ∧ (ts + invlNs).toInt = ts.toInt + invlNs.toInt ∧
      (ts + delay + invlNs).toInt = ts.toInt + delay.toInt + invlNs.toInt := by
  have interval : invlNs.toInt = 1000000000 := by decide
  obtain ⟨low, high⟩ := timely
  have later : (ts + delay).toInt = ts.toInt + delay.toInt := by
    rw [BitVec.toInt_add]
    exact Int.bmod_eq_of_le (by omega) (by omega)
  refine ⟨later, ?_, ?_⟩
  · rw [BitVec.toInt_add]
    exact Int.bmod_eq_of_le (by omega) (by omega)
  · rw [BitVec.toInt_add, later]
    exact Int.bmod_eq_of_le (by omega) (by omega)

include timely

/-- The clocks agree on whether an interval is over, and stay as far apart as they are. -/
theorem timestampCheck_later (ahead : Ahead delay timestamp timestamp') :
    (timestampCheck (ts + delay) timestamp').2 = (timestampCheck ts timestamp).2 ∧
      Ahead delay (timestampCheck ts timestamp).1 (timestampCheck (ts + delay) timestamp').1 := by
  have interval : invlNs.toInt = 1000000000 := by decide
  obtain ⟨later, -, -⟩ := timely.toInt forward
  have started : Ahead delay ts (ts + delay) := .inr ⟨timely, rfl⟩
  rcases ahead with ⟨rfl, rfl⟩ | ⟨earlier, rfl⟩
  · have due₁ : due ts 0 = true := by
      apply decide_eq_true
      rw [zero_add]
      exact timely.low
    have due₂ : due (ts + delay) 0 = true := by
      apply decide_eq_true
      rw [zero_add, later]
      have low := timely.low
      omega
    simp only [timestampCheck, due₁, due₂, lockedSection, ↓reduceIte]
    exact ⟨trivial, started⟩
  · obtain ⟨sum, closed, closed'⟩ := earlier.toInt forward
    have low := earlier.low
    have set : timestamp ≠ 0 := by
      rintro rfl
      exact absurd low (by decide)
    have set' : timestamp + delay ≠ 0 := by
      intro zero
      rw [zero, show (0 : I64).toInt = 0 from rfl] at sum
      omega
    have same : due (ts + delay) (timestamp + delay) = due ts timestamp := by
      rw [due, due, closed', closed, later]
      exact decide_eq_decide.mpr (by omega)
    have kept : Ahead delay timestamp (timestamp + delay) := .inr ⟨earlier, rfl⟩
    cases elapsed : due ts timestamp with
    | true =>
        rw [elapsed] at same
        simp only [timestampCheck, same, elapsed, lockedSection, if_neg set, if_neg set', ↓reduceIte]
        exact ⟨trivial, started⟩
    | false =>
        rw [elapsed] at same
        simp only [timestampCheck, same, elapsed, Bool.false_eq_true, ↓reduceIte]
        exact ⟨trivial, kept⟩

end Clock

/-- The same state by another clock. -/
def State.Ahead (delay : I64) (st st' : State) : Prop :=
  st' = { st with locTs := st'.locTs } ∧ Kernel.Ahead delay st.locTs.value st'.locTs.value

/-- One packet by the two clocks. -/
theorem step_later (env : Env) {delay : I64} (forward : 0 ≤ delay.toInt) (st st' : State)
    (packet : Packet) (timely : Timely delay packet.ts) (ahead : st.Ahead delay st') :
    (xdpFilterFunc env st packet).Like (State.Ahead delay) Eq
      (xdpFilterFunc env st' (packet.later delay)) := by
  cases source : countedSource env packet.frame with
  | none => exact ignored_like env env _ _ packet (packet.later delay) rfl source source ahead
  | some saddr =>
      obtain ⟨same, clocks⟩ := ahead
      generalize st'.locTs = locTs at same clocks
      subst same
      obtain ⟨rolls, set⟩ := timestampCheck_later forward timely clocks
      have clock : rollsOver { st with locTs := locTs } (packet.later delay) =
          rollsOver st packet := rolls
      have rolled : rolloverOf env { st with locTs := locTs } (packet.later delay) saddr =
          rolloverOf env st packet saddr := by
        simp only [rolloverOf, analyse, counted, Packet.later]
      have still : (counted env st packet saddr).Ahead delay
          (counted env { st with locTs := locTs } (packet.later delay) saddr) := by
        refine ⟨rfl, ?_⟩
        simp only [counted, Slots.value_update_zero]
        exact set
      rw [step_counted env st packet saddr source,
        step_counted env { st with locTs := locTs } (packet.later delay) saddr source, clock, rolled]
      split
      · exact ⟨rfl, ⟨rfl, still.2⟩, .cons rfl .nil⟩
      · exact ⟨rfl, still, .nil⟩

/-- The origin of the clock decides nothing. With timestamps more than an interval after it, a run
at times later by any delay gives the same verdicts and the same rollovers, and leaves the same maps
and statics but for the timestamp, which is later by the delay. -/
theorem clock_origin_irrelevant (env : Env) (st : State) (fresh : st.locTs.value = 0) (delay : I64)
    (forward : 0 ≤ delay.toInt) (packets : List Packet)
    (timely : ∀ packet ∈ packets, Timely delay packet.ts) :
    (run env st packets).Ahead delay (run env st (packets.map (Packet.later delay))) ∧
      (verdicts env st (packets.map (Packet.later delay))).map Prod.snd =
        (verdicts env st packets).map Prod.snd ∧
      rollovers env st (packets.map (Packet.later delay)) = rollovers env st packets := by
  obtain ⟨states, actions, rolled⟩ := related_runs env env (State.Ahead delay) Eq
    (fun packet packet' => Timely delay packet.ts ∧ packet' = packet.later delay)
    (by
      rintro st st' packet _ ahead ⟨timely, rfl⟩
      exact step_later env forward st st' packet timely ahead)
    (List.forall₂_map_right_iff.mpr
      (List.forall₂_same.mpr fun packet member => ⟨timely packet member, rfl⟩))
    (⟨rfl, .inl ⟨fresh, fresh⟩⟩ : st.Ahead delay st)
  exact ⟨states, actions, (List.forall₂_eq_eq_eq ▸ rolled).symm⟩

theorem uneven_packets_later :
    rollovers bareEnv initialised (unevenPackets.map (Packet.later 5000000000)) =
      rollovers bareEnv initialised unevenPackets := by
  have timely : ∀ packet ∈ unevenPackets, Timely 5000000000 packet.ts := by
    have times : (unevenPackets.all fun packet => decide (invlNs.toInt < packet.ts.toInt) &&
        decide (packet.ts.toInt + (5000000000 : I64).toInt + invlNs.toInt < 2 ^ 63)) = true := by
      decide +kernel
    intro packet member
    have time := List.all_eq_true.mp times packet member
    rw [Bool.and_eq_true, decide_eq_true_eq, decide_eq_true_eq] at time
    exact ⟨time.1, time.2⟩
  exact (clock_origin_irrelevant bareEnv initialised (by decide +kernel) 5000000000 (by decide)
    unevenPackets timely).2.2

end Fide.Kernel
