import Fide.EntropyExponents
import Fide.RunningTotal

/-! What of a rollover depends on the orders of its traversals.

Entropies and counts never do. The average, and with it the flags, do where the running total
vanishes on the way in one order and not in another, which leaves it at different scales. -/

namespace Fide.Kernel

open Words FixedPoint DynamicScale

/-! ### Flags -/

/-- The flagging condition on a stored entropy against an average at its scale or a larger one. -/
def flags (target : Target) (tmp : DataValue) (entropy avg : FixedPoint) : Bool :=
  entropy.number ≠ 0 ∧
    tmp.threshold.toInt < (absVal (subtract target entropy avg).result).number.toInt

theorem flags_aligned (target : Target) (tmp : DataValue) (entropy avg : FixedPoint)
    (eight : entropy.number ≠ 0 → entropy.q = 8) :
    flags target tmp entropy ⟨avg.number, maxScale 8 avg.q⟩ = flags target tmp entropy avg := by
  by_cases zero : entropy.number = 0
  · simp [flags, zero]
  · have again : maxScale 8 (maxScale 8 avg.q) = maxScale 8 avg.q := by
      unfold maxScale
      split_ifs <;> rfl
    simp only [flags, subtract_eq, eight zero, again]

theorem detection_flagged (target : Target) (tmp : DataValue) (key : Addr) (value : LoggerValue)
    (pass : DetectionPass) (k : Addr) :
    k ∈ (detection target tmp key value pass).2.flagged ↔
      k ∈ pass.flagged ∨ (k = key ∧ flags target tmp value.entropy pass.avg = true) := by
  by_cases zero : value.entropy.number = 0
  · simp only [detection, flags, zero, ↓reduceIte, ne_eq, not_true_eq_false, false_and,
      decide_false, Bool.false_eq_true, and_false, or_false]
  · have listed : (detection target tmp key value pass).2.flagged =
        if flags target tmp value.entropy pass.avg then pass.flagged ++ [key]
        else pass.flagged := by
      simp only [detection, flags, ne_eq, zero, not_false_eq_true, true_and, ↓reduceIte,
        decide_eq_true_eq]
      by_cases idle : value.cur = 0
      · simp only [if_pos idle]
      · simp only [if_neg idle]
    rw [listed]
    split
    · next flagged => simp [flagged]
    · next quiet => simp [quiet]

theorem detection_avg (target : Target) (tmp : DataValue) (key : Addr) (value : LoggerValue)
    (pass : DetectionPass) (eight : value.entropy.number ≠ 0 → value.entropy.q = 8) :
    (detection target tmp key value pass).2.avg = pass.avg ∨
      (detection target tmp key value pass).2.avg = ⟨pass.avg.number, maxScale 8 pass.avg.q⟩ := by
  unfold detection
  by_cases zero : value.entropy.number = 0
  · simp [zero]
  · right
    simp only [zero, subtract_eq, eight zero, ↓reduceIte]
    split <;> rfl

theorem flags_detection (target : Target) (tmp : DataValue) (key : Addr) (value : LoggerValue)
    (pass : DetectionPass) (visited : value.entropy.number ≠ 0 → value.entropy.q = 8)
    (entropy : FixedPoint) (eight : entropy.number ≠ 0 → entropy.q = 8) :
    flags target tmp entropy (detection target tmp key value pass).2.avg =
      flags target tmp entropy pass.avg := by
  rcases detection_avg target tmp key value pass visited with kept | aligned
  · rw [kept]
  · rw [aligned]
    exact flags_aligned target tmp entropy pass.avg eight

/-- The second traversal flags an entry by the average it started with: what it leaves in the
static average between entries is the scale only. -/
theorem pass_flagged (target : Target) (tmp : DataValue) (logger : Logger) (order : List Addr)
    (eight : ∀ k value, logger.lookup k = some value → value.entropy.number ≠ 0 →
      value.entropy.q = 8) (pass : DetectionPass) (k : Addr) :
    k ∈ (logger.foldState (detection target tmp) order pass).flagged ↔
      k ∈ pass.flagged ∨
        (k ∈ order ∧ ∃ value, logger.lookup k = some value ∧
          flags target tmp value.entropy pass.avg = true) := by
  induction order generalizing pass with
  | nil => simp [BoundedMap.foldState]
  | cons head tail ih =>
      rw [BoundedMap.foldState_cons, ih, List.mem_cons]
      cases present : logger.lookup head with
      | none =>
          rw [Option.elim_none]
          constructor
          · intro listed
            rcases listed with before | ⟨later, rest⟩
            · exact .inl before
            · exact .inr ⟨.inr later, rest⟩
          · intro listed
            rcases listed with before | ⟨rfl | later, value, found, rest⟩
            · exact .inl before
            · rw [present] at found
              cases found
            · exact .inr ⟨later, value, found, rest⟩
      | some value =>
          rw [Option.elim_some, detection_flagged]
          have same : ∀ other, logger.lookup k = some other →
              flags target tmp other.entropy (detection target tmp head value pass).2.avg =
                flags target tmp other.entropy pass.avg := by
            intro other found
            exact flags_detection target tmp head value pass (eight head value present) _
              (eight k other found)
          constructor
          · intro listed
            rcases listed with (before | ⟨rfl, flagged⟩) | ⟨later, other, found, flagged⟩
            · exact .inl before
            · exact .inr ⟨.inl rfl, value, present, flagged⟩
            · exact .inr ⟨.inr later, other, found, (same other found) ▸ flagged⟩
          · intro listed
            rcases listed with before | ⟨rfl | later, other, found, flagged⟩
            · exact .inl (.inl before)
            · rw [present, Option.some.injEq] at found
              exact .inl (.inr ⟨rfl, found ▸ flagged⟩)
            · exact .inr ⟨later, other, found, (same other found).symm ▸ flagged⟩

/-- Where no entropy is short, every non-zero one is stored with eight fraction bits. -/
theorem entropies_eight (target : Target) (packet : Packet) (tmp : DataValue) (st : State)
    (sums : NoShortSums (entropyAt target tmp st.logger)) (k : Addr) (value : LoggerValue)
    (found : (analyse target packet tmp st).entropies.lookup k = some value)
    (nonzero : value.entropy.number ≠ 0) : value.entropy.q = 8 := by
  rw [analyse_entropies target packet tmp st k, Option.map_eq_some_iff] at found
  obtain ⟨original, present, rfl⟩ := found
  have stored : entropyAt target tmp st.logger k = (entropyOf target tmp original).entropy := by
    rw [entropyAt, present, Option.elim_some]
  have long := sums.single k
  rw [stored] at long
  exact (entropyOf_scale target tmp original).long (long nonzero)

theorem analyse_flagged (target : Target) (packet : Packet) (tmp : DataValue) (st : State)
    (sums : NoShortSums (entropyAt target tmp st.logger)) (k : Addr) :
    k ∈ (analyse target packet tmp st).flagged ↔
      ∃ value, st.logger.lookup k = some value ∧
        flags target tmp (entropyOf target tmp value).entropy
          (analyse target packet tmp st).avg = true := by
  let r := analyse target packet tmp st
  have stored := analyse_entropies target packet tmp st
  have eight := entropies_eight target packet tmp st sums
  have listed := packet.detectionOrder.perm r.entropies.keys
  have flagged : r.flagged = (r.entropies.foldState (detection target tmp)
      (packet.detectionOrder.order r.entropies.keys) ⟨r.avg, []⟩).flagged :=
    congrArg DetectionPass.flagged (BoundedMap.forEach_state _ _ _ _)
  change k ∈ r.flagged ↔ _
  rw [flagged, pass_flagged target tmp r.entropies _ eight, listed.mem_iff,
    BoundedMap.mem_keys_iff]
  constructor
  · intro listed
    rcases listed with impossible | ⟨-, value, found, condition⟩
    · cases impossible
    · rw [show r.entropies.lookup k = _ from stored k, Option.map_eq_some_iff] at found
      obtain ⟨original, present, rfl⟩ := found
      exact ⟨original, present, condition⟩
  · intro entry
    rcases entry with ⟨value, present, condition⟩
    have found : r.entropies.lookup k =
        some { value with entropy := (entropyOf target tmp value).entropy } := by
      rw [show r.entropies.lookup k = _ from stored k, present, Option.map_some]
    exact .inr ⟨by rw [found]; rfl, _, found, condition⟩

/-! ### Reachable rollovers -/

theorem restarted_history (env : Env) (st : State) (packets : List Packet)
    (later : 1 ≤ (history env st packets).ledger.closings) :
    Restarted (history env st packets).state := by
  have always : ∀ h packet,
      (1 ≤ h.ledger.closings → Restarted h.state) →
      1 ≤ (History.step env h packet).ledger.closings →
      Restarted (History.step env h packet).state := by
    intro h packet before
    rcases History.step_cases env h packet with same | ⟨saddr, -, -, next⟩ | ⟨saddr, -, -, next⟩
    · rw [same]
      exact before
    · rw [next]
      exact before
    · rw [next]
      exact fun _ => ⟨rfl, rfl⟩
  exact history_invariant env (fun h => 1 ≤ h.ledger.closings → Restarted h.state) always st packets
    (fun impossible => absurd impossible (by simp [Ledger.empty])) later

/-- The width is in range once a rollover has reset it. -/
theorem inRange_history (env : Env) (st : State) (packets : List Packet)
    (later : 1 ≤ (history env st packets).ledger.closings) :
    InRange (history env st packets).state.data.value.intBits := by
  have always : ∀ h packet,
      (1 ≤ h.ledger.closings → InRange h.state.data.value.intBits) →
      1 ≤ (History.step env h packet).ledger.closings →
      InRange (History.step env h packet).state.data.value.intBits := by
    intro h packet before
    rcases History.step_cases env h packet with same | ⟨saddr, -, -, next⟩ | ⟨saddr, -, -, next⟩
    · rw [same]
      exact before
    · rw [next]
      intro later
      simp only [counted, Slots.value_update_zero]
      exact countPacket_inRange env.target _ (before later)
    · rw [next]
      intro _
      simp only [closeInterval, Slots.value_update_zero]
      exact ⟨by decide, by decide⟩
  exact history_invariant env (fun h => 1 ≤ h.ledger.closings → InRange h.state.data.value.intBits)
    always st packets (fun impossible => absurd impossible (by simp [Ledger.empty])) later

/-- Two rollovers store the same entropies and leave the same counts. -/
structure SameEntries (r r' : Rollover) : Prop where
  entropies : ∀ k, r.entropies.lookup k = r'.entropies.lookup k
  counts : ∀ k, (r.logger.lookup k).map LoggerValue.counts =
    (r'.logger.lookup k).map LoggerValue.counts

/-- They also compute the same average and flag the same entries. -/
structure SameRollover (r r' : Rollover) : Prop extends SameEntries r r' where
  average : r.avg = r'.avg
  flags : ∀ k, k ∈ r.flagged ↔ k ∈ r'.flagged

theorem analyse_sameEntries (target : Target) (packet packet' : Packet) (tmp : DataValue)
    (st : State) :
    SameEntries (analyse target packet tmp st) (analyse target packet' tmp st) where
  entropies k := by rw [analyse_entropies, analyse_entropies]
  counts k := by rw [analyse_counts, analyse_counts]

theorem analyse_sameRollover (target : Target) (packet packet' : Packet) (tmp : DataValue)
    (st : State) (restarted : Restarted st) (free : OrderFree target tmp st.logger) :
    SameRollover (analyse target packet tmp st) (analyse target packet' tmp st) where
  toSameEntries := analyse_sameEntries target packet packet' tmp st
  average := analyse_avg_eq target packet packet' tmp st restarted free
  flags k := by
    rw [analyse_flagged target packet tmp st free.sums,
      analyse_flagged target packet' tmp st free.sums,
      analyse_avg_eq target packet packet' tmp st restarted free]

/-- The packet with other orders for the two traversals. -/
def Packet.reordered (packet : Packet) (entropyOrder detectionOrder : BoundedMap.Enumeration Addr) :
    Packet :=
  { packet with entropyOrder := entropyOrder, detectionOrder := detectionOrder }

/-- How any two rollovers the packet can run from a state are related, whatever the orders. -/
def InAnyOrders (env : Env) (st : State) (packet : Packet) (related : Rollover → Rollover → Prop) :
    Prop :=
  ∀ a b a' b' r r', (xdpFilterFunc env st (packet.reordered a b)).rollover = some r →
    (xdpFilterFunc env st (packet.reordered a' b')).rollover = some r' → related r r'

/-- The rollover of a packet is that of its analysis. -/
theorem reordered_rollover (env : Env) (st : State) (packet : Packet)
    (a b : BoundedMap.Enumeration Addr) (r : Rollover)
    (rolled : (xdpFilterFunc env st (packet.reordered a b)).rollover = some r) :
    r = analyse env.target (packet.reordered a b) (countPacket env.target st.data.value)
      (counted env st packet (Frame.saddr packet.frame)) := by
  obtain ⟨saddr, -, rfl, -, same⟩ :=
    RolloverIn.cases (h := ⟨st, Ledger.empty⟩) ⟨[], [], rfl, rfl, rolled⟩
  exact same

/-- Whether a packet rolls over does not depend on the orders. -/
theorem reordered_rolls (env : Env) (st : State) (packet : Packet)
    (rolls : (xdpFilterFunc env st packet).rollover.isSome = true)
    (a b : BoundedMap.Enumeration Addr) :
    (xdpFilterFunc env st (packet.reordered a b)).rollover =
      some (analyse env.target (packet.reordered a b) (countPacket env.target st.data.value)
        (counted env st packet (Frame.saddr packet.frame))) := by
  obtain ⟨r, rolled⟩ := Option.isSome_iff_exists.mp rolls
  obtain ⟨saddr, source, rfl, due, -⟩ :=
    RolloverIn.cases (h := ⟨st, Ledger.empty⟩) ⟨[], [], rfl, rfl, rolled⟩
  have step := step_counted env st (packet.reordered a b) (Frame.saddr packet.frame) source
  have rolls' : rollsOver st (packet.reordered a b) = true := due
  rw [step]
  simp only [rolls', ↓reduceIte]
  rfl

/-- Where no set of entropies sums to one to fifteen bits, all orders agree exactly when the scale
of the average is settled. -/
theorem orders_agree_iff (env : Env) (st : State) (packet : Packet)
    (rolls : (xdpFilterFunc env st packet).rollover.isSome = true) (restarted : Restarted st)
    (range : InRange st.data.value.intBits)
    (sums : NoShortSums (entropyAt env.target (countPacket env.target st.data.value)
      (logPacket (Frame.saddr packet.frame) st.logger))) :
    InAnyOrders env st packet SameRollover ↔
      ScaleSettled (numberOf (entropyAt env.target (countPacket env.target st.data.value)
          (logPacket (Frame.saddr packet.frame) st.logger)))
        (logPacket (Frame.saddr packet.frame) st.logger).keys := by
  constructor
  · intro agree
    refine scaleSettled_of_avg env.target packet _ (counted env st packet (Frame.saddr packet.frame))
      (countPacket_inRange env.target _ range) restarted sums ?_
    intro order order'
    have result := agree order packet.detectionOrder order' packet.detectionOrder _ _
      (reordered_rolls env st packet rolls _ _) (reordered_rolls env st packet rolls _ _)
    exact result.average
  · intro settled a b a' b' r r' rolled rolled'
    rw [reordered_rollover env st packet a b r rolled,
      reordered_rollover env st packet a' b' r' rolled']
    exact analyse_sameRollover env.target _ _ _ _ restarted ⟨sums, settled⟩

/-! ### Orders and counts -/

theorem sumOf_natCast {K M : Type} [Semiring M] (e : K → Nat) (order : List K) :
    sumOf (fun k => (e k : M)) order = ((sumOf e order : Nat) : M) := by
  rw [sumOf, sumOf, Nat.cast_list_sum, List.map_map]
  rfl

theorem multiple_eq_zero_iff (n : Nat) : ((n * 2 ^ 24 : Nat) : I32) = 0 ↔ 256 ∣ n := by
  rw [← BitVec.toNat_inj, BitVec.natCast_eq_ofNat, BitVec.toNat_ofNat]
  change n * 2 ^ 24 % 2 ^ 32 = 0 ↔ _
  omega

/-- The exponent of the entropy under a key; absent keys have none. -/
def exponentAt (tmp : DataValue) (logger : Logger) (k : Addr) : Nat :=
  (logger.lookup k).elim 0 fun value =>
    entropyExponent value.prev.toNat value.cur.toNat tmp.prevIntervalPkt.toNat

/-- All counts convert to numbers of `int32_t`. -/
def AllCountsFit (tmp : DataValue) (logger : Logger) : Prop :=
  ∀ k value, logger.lookup k = some value → CountsFit tmp value

section Exponents

variable (target : Target) (keeps : target.KeepsZero) (none : logIndex target 1 31 = 0)
variable (tmp : DataValue) (logger : Logger) (range : InRange tmp.intBits)
variable (fits : AllCountsFit tmp logger)

include keeps none range fits

theorem entropyAt_exponent (k : Addr) :
    (entropyAt target tmp logger k).number = ((exponentAt tmp logger k * 2 ^ 24 : Nat) : I32) := by
  have one : countZero32 ((1 : I32).signExtend 64) = 31 := by decide
  have entry : tableEntry target 1 = 0 := by
    rw [tableEntry, one, none]
    rfl
  rw [entropyAt, exponentAt]
  cases found : logger.lookup k with
  | none =>
      rw [Option.elim_none, Option.elim_none, Nat.zero_mul]
      rfl
  | some value =>
      exact entropyOf_exponent target keeps entry tmp value range (fits k value found)

theorem noShortSums_exponents : NoShortSums (entropyAt target tmp logger) := by
  intro S
  have sum : ∑ k ∈ S, numberOf (entropyAt target tmp logger) k =
      (((∑ k ∈ S, exponentAt tmp logger k) * 2 ^ 24 : Nat) : I32) := by
    rw [Finset.sum_mul, Nat.cast_sum]
    exact Finset.sum_congr rfl fun k _ =>
      entropyAt_exponent target keeps none tmp logger range fits k
  rw [sum, multiple_eq_zero_iff, BitVec.natCast_eq_ofNat, BitVec.toNat_ofNat]
  omega

/-- Numbers sum to zero where exponents sum to a multiple of 256. -/
theorem scaleSettled_exponents :
    ScaleSettled (numberOf (entropyAt target tmp logger)) logger.keys ↔
      ScaleSettled (fun k => (exponentAt tmp logger k : ZMod 256)) logger.keys := by
  apply scaleSettled_congr
  intro order
  have numbers : numberOf (entropyAt target tmp logger) =
      fun k => ((exponentAt tmp logger k * 2 ^ 24 : Nat) : I32) :=
    funext (entropyAt_exponent target keeps none tmp logger range fits)
  have product : sumOf (fun k => exponentAt tmp logger k * 2 ^ 24) order =
      sumOf (exponentAt tmp logger) order * 2 ^ 24 := by
    rw [sumOf, sumOf, List.sum_map_mul_right]
  rw [numbers, sumOf_natCast, sumOf_natCast, product, multiple_eq_zero_iff,
    ZMod.natCast_eq_zero_iff]

end Exponents

/-- Exponents that are positive and sum to less than 256 settle the scale. -/
theorem scaleSettled_of_small {K : Type} (e : K → Nat) (keys : List K)
    (positive : ∀ k ∈ keys, 0 < e k) (small : sumOf e keys < 256) :
    ScaleSettled (fun k => (e k : ZMod 256)) keys := by
  refine .inr (.inr (.inr ?_))
  rintro order perm ⟨front, starts, some, zero⟩
  rw [sumOf_natCast, ZMod.natCast_eq_zero_iff] at zero
  have part : sumOf e front ≤ sumOf e keys := by
    rw [← sumOf_perm perm]
    exact (starts.sublist.map e).sum_le_sum (fun _ _ => Nat.zero_le _)
  obtain ⟨k, member⟩ := List.exists_mem_of_ne_nil front some
  have least : e k ≤ sumOf e front := List.single_le_sum (fun _ _ => Nat.zero_le _) _
    (List.mem_map_of_mem member)
  have first := positive k (perm.mem_iff.mp (starts.subset member))
  have none := Nat.eq_zero_of_dvd_of_lt zero (by omega)
  omega

/-- At every rollover after the first, whatever the initial contents of the maps, all orders give
every entry the same entropy and leave the same counts. Whether they also give the same average and
flag the same entries is decided by the sums of the entropies, unless some entropies sum to one to
fifteen bits: with fewer than sixteen entries and a total that is not zero, the sum must vanish on
the way in every order or in none. While all counts convert to `int32_t` numbers, no sum is that
short, and the sums are those of the exponents modulo 256. -/
theorem rollover_order_independent (env : Env) (st : State) (packets : List Packet)
    (packet : Packet) (later : 1 ≤ (history env st packets).ledger.closings)
    (rolls : (xdpFilterFunc env (history env st packets).state packet).rollover.isSome = true) :
    let h := history env st packets
    let tmp := countPacket env.target h.state.data.value
    let logger := logPacket (Frame.saddr packet.frame) h.state.logger
    InAnyOrders env h.state packet SameEntries ∧
      (NoShortSums (entropyAt env.target tmp logger) →
        (InAnyOrders env h.state packet SameRollover ↔
          ScaleSettled (numberOf (entropyAt env.target tmp logger)) logger.keys)) ∧
      (env.target.KeepsZero → logIndex env.target 1 31 = 0 → AllCountsFit tmp logger →
        (InAnyOrders env h.state packet SameRollover ↔
          ScaleSettled (fun k => (exponentAt tmp logger k : ZMod 256)) logger.keys)) := by
  intro h tmp logger
  have restarted : Restarted h.state := restarted_history env st packets later
  have range := inRange_history env st packets later
  have agree := orders_agree_iff env h.state packet rolls restarted range
  refine ⟨?_, agree, ?_⟩
  · intro a b a' b' r r' rolled rolled'
    rw [reordered_rollover env h.state packet a b r rolled,
      reordered_rollover env h.state packet a' b' r' rolled']
    exact analyse_sameEntries env.target _ _ _ _
  · intro keeps none fits
    have width : InRange tmp.intBits := countPacket_inRange env.target _ range
    rw [agree (noShortSums_exponents env.target keeps none tmp logger width fits)]
    exact scaleSettled_exponents env.target keeps none tmp logger width fits

/-- Two sources seen in both intervals: all orders agree. -/
theorem two_sources_order_independent :
    let h := history bareEnv initialised
      [packetAt 1 2000000000, packetAt 2 4000000000, packetAt 1 4000000000,
        packetAt 2 4000000000]
    InAnyOrders bareEnv h.state (packetAt 2 6000000000) SameRollover := by
  intro h
  let last := packetAt 2 6000000000
  let tmp := countPacket bareEnv.target h.state.data.value
  let logger := logPacket (Frame.saddr last.frame) h.state.logger
  have later : 1 ≤ h.ledger.closings := by decide +kernel
  have rolls : (xdpFilterFunc bareEnv h.state last).rollover.isSome = true := by decide +kernel
  have counts : (logger.keys.all fun k => (logger.lookup k).all fun value =>
      value.prev.toNat ≤ tmp.prevIntervalPkt.toNat ∧
        tmp.intBits.toNat * 2 ^ tmp.prevIntervalPkt.toNat < 2 ^ 31 ∧
        tmp.intBits.toNat * 2 ^ value.cur.toNat < 2 ^ 31) = true := by decide +kernel
  have positive : (logger.keys.all fun k => 0 < exponentAt tmp logger k) = true := by
    decide +kernel
  have small : sumOf (exponentAt tmp logger) logger.keys < 256 := by decide +kernel
  have fits : AllCountsFit tmp logger := by
    intro k value found
    have entry := List.all_eq_true.mp counts k
      ((BoundedMap.mem_keys_iff_lookup _ _).mpr ⟨value, found⟩)
    rw [found, Option.all_some, decide_eq_true_iff] at entry
    exact ⟨⟨entry.1, entry.2.1⟩, entry.2.2⟩
  have settled := scaleSettled_of_small (exponentAt tmp logger) logger.keys
    (fun k member => of_decide_eq_true (List.all_eq_true.mp positive k member)) small
  exact ((rollover_order_independent bareEnv initialised _ last later rolls).2.2
    Target.masking_keepsZero (by decide) fits).mpr settled

/-- A source seen for the first time has entropy zero. Visited first, it takes the total to scale
zero, and the average comes out at scale 8 and not 16. -/
theorem leading_zero_changes_average :
    ¬ ∀ r r',
      let h := history bareEnv initialised
        [packetAt 1 2000000000, packetAt 2 4000000000, packetAt 1 4000000000,
          packetAt 2 4000000000]
      let last := packetAt 3 6000000000
      1 ≤ h.ledger.closings →
      (xdpFilterFunc bareEnv h.state last).rollover = some r →
      (xdpFilterFunc bareEnv h.state
        { last with entropyOrder := .reversed _, detectionOrder := .reversed _ }).rollover =
          some r' →
      r.avg = r'.avg := by
  intro claim
  let h := history bareEnv initialised
    [packetAt 1 2000000000, packetAt 2 4000000000, packetAt 1 4000000000, packetAt 2 4000000000]
  let last := packetAt 3 6000000000
  let backwards : Packet := { last with entropyOrder := .reversed _, detectionOrder := .reversed _ }
  have forth : (xdpFilterFunc bareEnv h.state last).rollover.any
      (fun r => r.avg = ⟨0x10000000, 8⟩) = true := by decide +kernel
  have back : (xdpFilterFunc bareEnv h.state backwards).rollover.any
      (fun r => r.avg = ⟨0, 16⟩) = true := by decide +kernel
  obtain ⟨rolled, avg⟩ := (Option.any_eq_true_iff_get _ _).mp forth
  obtain ⟨rolled', avg'⟩ := (Option.any_eq_true_iff_get _ _).mp back
  have same := claim _ _ (by decide +kernel) (Option.some_get rolled).symm
    (Option.some_get rolled').symm
  rw [of_decide_eq_true avg, of_decide_eq_true avg'] at same
  exact absurd same (by decide)

end Fide.Kernel
