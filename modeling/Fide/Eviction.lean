import Fide.IdleEntropy

/-! Which sources keep an entry through a rollover. -/

namespace Fide.Kernel

open Words FixedPoint

theorem counts_initialised : Counts ⟨initialised, Ledger.empty⟩ where
  cur _ := rfl
  prev _ := rfl
  curTotal := rfl
  prevTotal := rfl

theorem counts_history_initialised (env : Env) (packets : List Packet) :
    Counts (history env initialised packets) :=
  history_invariant env Counts (Counts.step env) initialised packets counts_initialised

/-- The arrivals of the interval a counted packet is about to close, its own included. -/
def closingInterval (h : History) (packet : Packet) : List (Arrival Addr) :=
  (h.ledger.arrive
    ⟨Frame.saddr packet.frame, h.state.logger.accepts (Frame.saddr packet.frame)⟩).current

/-- Exactly the sources of the interval hold an entry, each with its count moved to `prev`. -/
structure HoldsSenders (logger : Logger) (interval : List (Arrival Addr)) : Prop where
  keys : ∀ s, s ∈ logger.keys ↔ 0 < Ledger.sent interval s
  counts : ∀ s value, logger.lookup s = some value → 1 ≤ value.prev.toInt ∧ value.cur = 0

/-- The packets of the previous interval convert to an `int32_t`, at the width the closing one
calls for. -/
def TotalFits (h : History) : Prop :=
  intBitsAfter (h.ledger.current.length + 1) * 2 ^ h.ledger.previous.length < 2 ^ 31

instance (h : History) : Decidable (TotalFits h) := inferInstanceAs (Decidable (_ < _))

/-- Every source that holds an entry and was silent in the closing interval had a visible share of
the previous one, whose total fits, and the count of every sender is positive in 32 bits. -/
structure IdleVisible (h : History) (packet : Packet) : Prop where
  fits : ∀ s ∈ h.state.logger.keys, Ledger.sent (closingInterval h packet) s = 0 → TotalFits h
  idle : ∀ s ∈ h.state.logger.keys, Ledger.sent (closingInterval h packet) s = 0 →
    ShareVisible (Ledger.stored h.ledger.previous s) h.ledger.previous.length
  senders : ∀ s, 0 < Ledger.sent (closingInterval h packet) s →
    1 ≤ (Ledger.sent (closingInterval h packet) s : I32).toInt

/-- Every idle entry has an entropy, and the count of every sender is positive in 32 bits. -/
structure IdleEvicted (target : Target) (tmp : DataValue) (logger : Logger)
    (interval : List (Arrival Addr)) : Prop where
  idle : ∀ s value, logger.lookup s = some value → value.cur = 0 →
    (entropyOf target tmp value).entropy.number ≠ 0
  senders : ∀ s, 0 < Ledger.sent interval s → 1 ≤ (Ledger.sent interval s : I32).toInt

theorem sent_of_positive (interval : List (Arrival Addr)) (s : Addr)
    (positive : 1 ≤ (Ledger.sent interval s : I32).toInt) : 0 < Ledger.sent interval s := by
  by_contra none
  rw [show Ledger.sent interval s = 0 by omega] at positive
  exact absurd positive (by decide)

section Rollover

variable (target : Target) (packet : Packet) (tmp : DataValue) (st : State)
variable (interval : List (Arrival Addr))

/-- An entry survives a rollover unless it is evicted. -/
theorem analyse_lookup_iff (s : Addr) (counts : I32 × I32) :
    (∃ kept, (analyse target packet tmp st).logger.lookup s = some kept ∧
        kept.counts = counts) ↔
      ∃ value, st.logger.lookup s = some value ∧ evicted target tmp value = false ∧
        counts = (value.cur, 0) := by
  have moved := analyse_counts target packet tmp st s
  rw [← Option.map_eq_some_iff, moved, Option.bind_eq_some_iff]
  constructor
  · intro kept
    rcases kept with ⟨value, present, result⟩
    cases gone : evicted target tmp value with
    | true => simp [gone] at result
    | false =>
        simp only [gone, Bool.false_eq_true, ↓reduceIte, Option.some.injEq] at result
        exact ⟨value, present, gone, result.symm⟩
  · intro kept
    rcases kept with ⟨value, present, gone, rfl⟩
    exact ⟨value, present, by simp [gone]⟩

theorem analyse_entry (s : Addr) (kept : LoggerValue)
    (present : (analyse target packet tmp st).logger.lookup s = some kept) :
    ∃ value, st.logger.lookup s = some value ∧ evicted target tmp value = false ∧
      kept.prev = value.cur ∧ kept.cur = 0 := by
  obtain ⟨value, before, stays, moved⟩ :=
    (analyse_lookup_iff target packet tmp st s kept.counts).mp ⟨kept, present, rfl⟩
  exact ⟨value, before, stays, congrArg Prod.fst moved, congrArg Prod.snd moved⟩

theorem analyse_keys_iff (s : Addr) :
    s ∈ (analyse target packet tmp st).logger.keys ↔
      ∃ value, st.logger.lookup s = some value ∧ evicted target tmp value = false := by
  rw [BoundedMap.mem_keys_iff_lookup]
  constructor
  · intro found
    rcases found with ⟨kept, present⟩
    obtain ⟨value, before, stays, -⟩ := analyse_entry target packet tmp st s kept present
    exact ⟨value, before, stays⟩
  · intro found
    rcases found with ⟨value, before, stays⟩
    obtain ⟨kept, present, -⟩ :=
      (analyse_lookup_iff target packet tmp st s (value.cur, 0)).mpr ⟨value, before, stays, rfl⟩
    exact ⟨kept, present⟩

variable {target packet tmp st interval}

section Counted

variable (agree : ∀ s, curOf st.logger s = (Ledger.sent interval s : I32))

include agree

theorem cur_eq_sent (s : Addr) (value : LoggerValue) (present : st.logger.lookup s = some value) :
    value.cur = (Ledger.sent interval s : I32) := by
  have same := agree s
  rwa [curOf, BoundedMap.valueAt, present, Option.elim_some] at same

theorem entry_of_sent (s : Addr) (positive : 1 ≤ (Ledger.sent interval s : I32).toInt) :
    ∃ value, st.logger.lookup s = some value ∧ value.cur ≠ 0 := by
  rw [← agree s] at positive
  cases before : st.logger.lookup s with
  | none =>
      rw [curOf, BoundedMap.valueAt, before] at positive
      exact absurd positive (by decide)
  | some value =>
      refine ⟨value, rfl, ?_⟩
      intro idle
      rw [curOf, BoundedMap.valueAt, before, Option.elim_some, idle] at positive
      exact absurd positive (by decide)

/-- The kept count of a sender is what it sent. -/
theorem HoldsSenders.positive
    (holds : HoldsSenders (analyse target packet tmp st).logger interval) (s : Addr)
    (sent : 0 < Ledger.sent interval s) : 1 ≤ (Ledger.sent interval s : I32).toInt := by
  have member := (holds.keys s).mpr sent
  rw [BoundedMap.mem_keys_iff_lookup] at member
  obtain ⟨kept, present⟩ := member
  obtain ⟨value, before, -, prev, -⟩ := analyse_entry target packet tmp st s kept present
  rw [← cur_eq_sent agree s value before, ← prev]
  exact (holds.counts s kept present).1

theorem HoldsSenders.idleEvicted
    (holds : HoldsSenders (analyse target packet tmp st).logger interval) :
    IdleEvicted target tmp st.logger interval where
  senders := holds.positive agree
  idle := by
    intro s value present idle zero
    have stays := (not_evicted_iff target tmp value).mpr (fun _ => zero)
    have member := (analyse_keys_iff target packet tmp st s).mpr ⟨value, present, stays⟩
    have positive := holds.positive agree s ((holds.keys s).mp member)
    rw [← cur_eq_sent agree s value present, idle] at positive
    exact absurd positive (by decide)

/-- With every idle entry evicted, whatever survives was counted. -/
theorem IdleEvicted.survivor (gone : IdleEvicted target tmp st.logger interval) (s : Addr)
    (value : LoggerValue) (present : st.logger.lookup s = some value)
    (stays : evicted target tmp value = false) : 1 ≤ value.cur.toInt := by
  have active : value.cur ≠ 0 := by
    intro idle
    exact gone.idle s value present idle ((not_evicted_iff target tmp value).mp stays idle)
  rw [cur_eq_sent agree s value present] at active ⊢
  apply gone.senders s
  by_contra none
  apply active
  rw [show Ledger.sent interval s = 0 by omega]
  rfl

theorem IdleEvicted.holds (gone : IdleEvicted target tmp st.logger interval) :
    HoldsSenders (analyse target packet tmp st).logger interval where
  keys := by
    intro s
    rw [analyse_keys_iff]
    constructor
    · intro kept
      rcases kept with ⟨value, before, stays⟩
      have positive := gone.survivor agree s value before stays
      rw [cur_eq_sent agree s value before] at positive
      exact sent_of_positive interval s positive
    · intro sent
      obtain ⟨value, before, active⟩ := entry_of_sent agree s (gone.senders s sent)
      refine ⟨value, before, ?_⟩
      rw [not_evicted_iff]
      intro idle
      exact absurd idle active
  counts := by
    intro s kept present
    obtain ⟨value, before, stays, prev, cur⟩ := analyse_entry target packet tmp st s kept present
    rw [prev]
    exact ⟨gone.survivor agree s value before stays, cur⟩

end Counted

end Rollover

/-! ### Reachable rollovers -/

/-- Counts leave the positive range in intervals of `2^31` packets only. -/
theorem senders_of_small (interval : List (Arrival Addr)) (small : interval.length < 2 ^ 31)
    (s : Addr) (sent : 0 < Ledger.sent interval s) :
    1 ≤ (Ledger.sent interval s : I32).toInt := by
  have part : Ledger.sent interval s ≤ interval.length := List.countP_le_length
  rw [toInt_natCast _ (by omega)]
  omega

theorem closingInterval_sent_self (h : History) (packet : Packet) :
    0 < Ledger.sent (closingInterval h packet) (Frame.saddr packet.frame) := by
  simp [closingInterval, Ledger.arrive, Ledger.sent]

/-- A source silent in the closing interval is not that of the packet, and its entry is the one
from before the packet. -/
theorem idle_entry_iff (h : History) (packet : Packet) (s : Addr)
    (silent : Ledger.sent (closingInterval h packet) s = 0) :
    (logPacket (Frame.saddr packet.frame) h.state.logger).lookup s = h.state.logger.lookup s := by
  apply logPacket_lookup_of_ne
  rintro rfl
  have sent := closingInterval_sent_self h packet
  omega

section Closing

variable (env : Env) (keeps : env.target.KeepsZero) (h : History) (packet : Packet)
variable (counts : Counts h) (widened : Widened h)

include counts widened

/-- An idle entry holds the source's packets of the previous interval. -/
theorem idle_share (s : Addr) (value : LoggerValue)
    (present : h.state.logger.lookup s = some value) (fits : TotalFits h) :
    value.prev.toNat = Ledger.stored h.ledger.previous s ∧
      (countPacket env.target h.state.data.value).prevIntervalPkt.toNat =
        h.ledger.previous.length ∧
      ShareFits (countPacket env.target h.state.data.value) value := by
  have few := few_of_fits (intBitsAfter_bounds _).1 fits
  have part : Ledger.stored h.ledger.previous s ≤ h.ledger.previous.length :=
    List.countP_le_length
  have prev : value.prev = (Ledger.stored h.ledger.previous s : I32) := by
    have same := counts.prev s
    rwa [prevOf, BoundedMap.valueAt, present, Option.elim_some] at same
  have share : value.prev.toNat = Ledger.stored h.ledger.previous s := by
    rw [prev, toNat_natCast _ (by omega)]
  have total : (countPacket env.target h.state.data.value).prevIntervalPkt.toNat =
      h.ledger.previous.length := by
    rw [countPacket_prev, widened.previous, toNat_natCast _ (by omega)]
  have bounds := intBitsAfter_bounds (h.ledger.current.length + 1)
  have width : (countPacket env.target h.state.data.value).intBits.toNat =
      intBitsAfter (h.ledger.current.length + 1) := by
    rw [countPacket_intBits env.target _ _ widened.counter widened.width,
      toNat_natCast _ (by omega)]
  refine ⟨share, total, ?_, ?_⟩
  · rw [share, total]
    exact part
  · rw [width, total]
    exact fits

include keeps

variable (room : Ledger.refused (closingInterval h packet) = 0)
variable (range : InRange (countPacket env.target h.state.data.value).intBits)

include room range

theorem idleEvicted_iff (fits : ∀ s ∈ h.state.logger.keys,
    Ledger.sent (closingInterval h packet) s = 0 → TotalFits h) :
    IdleEvicted env.target (countPacket env.target h.state.data.value)
        (logPacket (Frame.saddr packet.frame) h.state.logger) (closingInterval h packet) ↔
      IdleVisible h packet := by
  have agree : ∀ s, curOf (logPacket (Frame.saddr packet.frame) h.state.logger) s =
      (Ledger.sent (closingInterval h packet) s : I32) := by
    intro s
    rw [← Ledger.stored_eq_sent _ room]
    exact (counts.arrive env h packet (Frame.saddr packet.frame)).cur s
  constructor
  · intro gone
    refine ⟨fits, ?_, gone.senders⟩
    intro s member silent
    obtain ⟨value, before⟩ := (BoundedMap.mem_keys_iff_lookup _ _).mp member
    obtain ⟨share, total, within⟩ :=
      idle_share env h counts widened s value before (fits s member silent)
    have present : (logPacket (Frame.saddr packet.frame) h.state.logger).lookup s = some value := by
      rw [idle_entry_iff h packet s silent, before]
    have idle : value.cur = 0 := by
      have cur := agree s
      rwa [silent, curOf, BoundedMap.valueAt, present, Option.elim_some] at cur
    rw [← share, ← total]
    exact (shareVisible_iff env.target _ value keeps range idle within).mpr
      (gone.idle s value present idle)
  · intro visible
    refine ⟨?_, visible.senders⟩
    intro s value present idle
    have silent : Ledger.sent (closingInterval h packet) s = 0 := by
      by_contra some
      have positive := visible.senders s (by omega)
      rw [← agree s, curOf, BoundedMap.valueAt, present, Option.elim_some, idle] at positive
      exact absurd positive (by decide)
    have before : h.state.logger.lookup s = some value := by
      rw [← idle_entry_iff h packet s silent, present]
    have member : s ∈ h.state.logger.keys :=
      (BoundedMap.mem_keys_iff_lookup _ _).mpr ⟨value, before⟩
    obtain ⟨share, total, within⟩ :=
      idle_share env h counts widened s value before (visible.fits s member silent)
    have share' := visible.idle s member silent
    rw [← share, ← total] at share'
    exact (shareVisible_iff env.target _ value keeps range idle within).mp share'

end Closing

/-- In a run that starts with `int_bits` four, a rollover without a refused insertion leaves
exactly the senders of the interval just closed where every silent entry had a visible share of a
previous interval whose total fits `int32_t`, and no sender's count leaves the positive range. Where
the total fits, it does so nowhere else. -/
theorem idle_sources_evicted (env : Env) (keeps : env.target.KeepsZero) (packets : List Packet) :
    (∀ h packet r, RolloverIn env initialised packets h packet r →
      Ledger.refused (closingInterval h packet) = 0 → IdleVisible h packet →
      HoldsSenders r.logger (closingInterval h packet)) ∧
    (∀ h packet r, RolloverIn env initialised packets h packet r →
      Ledger.refused (closingInterval h packet) = 0 → TotalFits h →
      HoldsSenders r.logger (closingInterval h packet) → IdleVisible h packet) := by
  have each : ∀ h packet r, RolloverIn env initialised packets h packet r →
      Ledger.refused (closingInterval h packet) = 0 →
      (∀ s ∈ h.state.logger.keys, Ledger.sent (closingInterval h packet) s = 0 → TotalFits h) →
      (HoldsSenders r.logger (closingInterval h packet) ↔ IdleVisible h packet) := by
    intro h packet r rolled room fits
    obtain ⟨front, reached⟩ := rolled.reached
    have counts : Counts h := reached ▸ counts_history_initialised env front
    have ready : Ready h := reached ▸ ready_history env front
    have widened : Widened h := reached ▸ widened_history env front
    have range := countPacket_inRange env.target _ ready.1
    obtain ⟨saddr, -, rfl, -, rfl⟩ := rolled.cases
    have arrived := counts.arrive env h packet (Frame.saddr packet.frame)
    have agree : ∀ s, curOf (counted env h.state packet (Frame.saddr packet.frame)).logger s =
        (Ledger.sent (closingInterval h packet) s : I32) := by
      intro s
      rw [← Ledger.stored_eq_sent _ room]
      exact arrived.cur s
    rw [← idleEvicted_iff env keeps h packet counts widened room range fits]
    exact ⟨HoldsSenders.idleEvicted agree, IdleEvicted.holds agree⟩
  constructor
  · intro h packet r rolled room visible
    exact (each h packet r rolled room visible.fits).mpr visible
  · intro h packet r rolled room fits holds
    exact (each h packet r rolled room fun _ _ _ => fits).mp holds

/-- Source 1 sends one of the three packets of the first interval and nothing in the second. -/
theorem silent_source_evicted :
    let h := history bareEnv initialised
      [packetAt 1 2000000000, packetAt 2 2500000000, packetAt 2 4000000000]
    ∃ r, (xdpFilterFunc bareEnv h.state (packetAt 2 6000000000)).rollover = some r ∧
      HoldsSenders r.logger (closingInterval h (packetAt 2 6000000000)) := by
  intro h
  let front := [packetAt 1 2000000000, packetAt 2 2500000000, packetAt 2 4000000000]
  let last := packetAt 2 6000000000
  have due : (xdpFilterFunc bareEnv h.state last).rollover.isSome := by decide +kernel
  have room : Ledger.refused (closingInterval h last) = 0 := by decide +kernel
  have fits : TotalFits h := by decide +kernel
  have shares : (h.state.logger.keys.all fun s =>
      Ledger.sent (closingInterval h last) s ≠ 0 ∨
        ShareVisible (Ledger.stored h.ledger.previous s) h.ledger.previous.length) = true := by
    decide +kernel
  have few : (closingInterval h last).length < 2 ^ 31 := by decide +kernel
  have visible : IdleVisible h last := by
    refine ⟨fun _ _ _ => fits, ?_, senders_of_small _ few⟩
    intro s member silent
    have share := of_decide_eq_true (List.all_eq_true.mp shares s member)
    exact share.resolve_left (not_not.mpr silent)
  obtain ⟨r, rolled⟩ := Option.isSome_iff_exists.mp due
  refine ⟨r, rolled, ?_⟩
  exact (idle_sources_evicted bareEnv Target.masking_keepsZero (front ++ [last])).1 h last r
    ⟨front, [], rfl, rfl, rolled⟩ room visible

/-- Source 1 sends all of the first interval and nothing in the second; its entropy is zero and
its entry survives with both counts zero. -/
theorem silent_source_kept :
    ¬ ∀ h packet r,
      RolloverIn bareEnv initialised
        [packetAt 1 2000000000, packetAt 1 4000000000, packetAt 2 6000000000] h packet r →
      Ledger.refused (closingInterval h packet) = 0 →
      HoldsSenders r.logger (closingInterval h packet) := by
  intro claim
  let front := [packetAt 1 2000000000, packetAt 1 4000000000]
  let last := packetAt 2 6000000000
  let h := history bareEnv initialised front
  have kept : (xdpFilterFunc bareEnv h.state last).rollover.any
      (fun r => (r.logger.lookup 1).any fun value => value.prev = 0) = true := by decide +kernel
  have room : Ledger.refused (closingInterval h last) = 0 := by decide +kernel
  obtain ⟨rolled, entry⟩ := (Option.any_eq_true_iff_get _ _).mp kept
  obtain ⟨present, zero⟩ := (Option.any_eq_true_iff_get _ _).mp entry
  have holds := claim h last _ ⟨front, [], rfl, rfl, (Option.some_get rolled).symm⟩ room
  have positive := (holds.counts 1 _ (Option.some_get present).symm).1
  rw [of_decide_eq_true zero] at positive
  exact absurd positive (by decide)

end Fide.Kernel
