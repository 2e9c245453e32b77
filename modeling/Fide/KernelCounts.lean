import Fide.Rollover

/-! The logger and the data record hold the interval counts of the packet history. -/

namespace Fide.Kernel

open Words FixedPoint

/-- `cur` of the entry under a source, zero without an entry. -/
abbrev curOf (logger : Logger) : Addr → I32 := logger.valueAt LoggerValue.cur

abbrev prevOf (logger : Logger) : Addr → I32 := logger.valueAt LoggerValue.prev

theorem logPacket_lookup_of_ne (saddr k : Addr) (logger : Logger) (other : k ≠ saddr) :
    (logPacket saddr logger).lookup k = logger.lookup k := by
  unfold logPacket
  split <;> exact BoundedMap.lookup_update_of_ne _ _ _ _ other

theorem logPacket_lookup_self (saddr : Addr) (logger : Logger)
    (accepted : logger.accepts saddr = true) :
    (logPacket saddr logger).lookup saddr =
      some ((logger.lookup saddr).elim ⟨0, 1, ⟨0, 16⟩⟩ fun v => { v with cur := v.cur + 1 }) := by
  unfold logPacket
  split
  · next v present => rw [BoundedMap.lookup_update_self _ _ _ accepted, present, Option.elim_some]
  · next absent => rw [BoundedMap.lookup_update_self _ _ _ accepted, absent, Option.elim_none]

theorem logPacket_refused (saddr : Addr) (logger : Logger)
    (refused : logger.accepts saddr = false) : logPacket saddr logger = logger := by
  unfold logPacket
  split <;> exact BoundedMap.update_refused _ _ _ refused

theorem logPacket_cur (saddr k : Addr) (logger : Logger) :
    curOf (logPacket saddr logger) k =
      curOf logger k + if saddr = k ∧ logger.accepts saddr then 1 else 0 := by
  by_cases same : k = saddr
  · subst same
    cases room : logger.accepts k with
    | true =>
        simp only [curOf, BoundedMap.valueAt, logPacket_lookup_self k logger room,
          Option.elim_some, and_self, ↓reduceIte]
        cases logger.lookup k <;> simp
    | false => simp [logPacket_refused k logger room]
  · rw [if_neg (fun both => same both.1.symm), add_zero]
    simp only [curOf, BoundedMap.valueAt, logPacket_lookup_of_ne saddr k logger same]

theorem logPacket_prev (saddr k : Addr) (logger : Logger) :
    prevOf (logPacket saddr logger) k = prevOf logger k := by
  by_cases same : k = saddr
  · subst same
    cases room : logger.accepts k with
    | true =>
        simp only [prevOf, BoundedMap.valueAt, logPacket_lookup_self k logger room,
          Option.elim_some]
        cases logger.lookup k <;> simp
    | false => rw [logPacket_refused k logger room]
  · simp only [prevOf, BoundedMap.valueAt, logPacket_lookup_of_ne saddr k logger same]

theorem analyse_prev (target : Target) (packet : Packet) (tmp : DataValue) (st : State)
    (k : Addr) :
    prevOf (analyse target packet tmp st).logger k = curOf st.logger k := by
  have moved := analyse_counts target packet tmp st k
  unfold prevOf curOf BoundedMap.valueAt
  cases before : st.logger.lookup k with
  | none =>
      rw [before, Option.bind_none, Option.map_eq_none_iff] at moved
      rw [moved]
      rfl
  | some value =>
      rw [before, Option.bind_some] at moved
      by_cases gone : evicted target tmp value = true
      · rw [if_pos gone, Option.map_eq_none_iff] at moved
        have idle : value.cur = 0 := (of_decide_eq_true gone).1
        rw [moved, Option.elim_none, Option.elim_some, idle]
      · rw [if_neg gone, Option.map_eq_some_iff] at moved
        obtain ⟨kept, after, counts⟩ := moved
        rw [after, Option.elim_some, Option.elim_some]
        exact congrArg Prod.fst counts

theorem analyse_cur (target : Target) (packet : Packet) (tmp : DataValue) (st : State)
    (k : Addr) : curOf (analyse target packet tmp st).logger k = 0 := by
  have moved := analyse_counts target packet tmp st k
  unfold curOf BoundedMap.valueAt
  cases after : (analyse target packet tmp st).logger.lookup k with
  | none => rfl
  | some kept =>
      rw [after, Option.map_some] at moved
      cases before : st.logger.lookup k with
      | none => simp [before] at moved
      | some value =>
          rw [before, Option.bind_some] at moved
          split at moved
          · cases moved
          · exact congrArg Prod.snd (Option.some.inj moved)

/-- The record agrees with the ledger: the counts under every source, and the interval totals
with the refused arrivals on top. -/
structure Counts (h : History) : Prop where
  cur : ∀ s, curOf h.state.logger s = (Ledger.stored h.ledger.current s : I32)
  prev : ∀ s, prevOf h.state.logger s = (Ledger.stored h.ledger.previous s : I32)
  curTotal : h.state.data.value.curIntervalPkt =
    h.state.logger.total LoggerValue.cur + (Ledger.refused h.ledger.current : I32)
  prevTotal : h.state.data.value.prevIntervalPkt =
    h.state.logger.total LoggerValue.prev + (Ledger.refused h.ledger.previous : I32)

theorem countPacket_cur (target : Target) (tmp : DataValue) :
    (countPacket target tmp).curIntervalPkt = tmp.curIntervalPkt + 1 := by
  unfold countPacket
  simp only
  split <;> rfl

theorem countPacket_prev (target : Target) (tmp : DataValue) :
    (countPacket target tmp).prevIntervalPkt = tmp.prevIntervalPkt := by
  unfold countPacket
  simp only
  split <;> rfl

theorem Counts.arrive (env : Env) (h : History) (packet : Packet) (saddr : Addr)
    (counts : Counts h) :
    Counts ⟨counted env h.state packet saddr,
      h.ledger.arrive ⟨saddr, h.state.logger.accepts saddr⟩⟩ where
  cur s := by
    simp only [counted, Ledger.arrive, logPacket_cur, counts.cur s, Ledger.stored_cons]
    push_cast
    rfl
  prev s := by
    simp only [counted, Ledger.arrive, logPacket_prev, counts.prev s]
  curTotal := by
    simp only [counted, Slots.value_update_zero, countPacket_cur, counts.curTotal,
      Ledger.arrive, Ledger.refused_cons]
    have grown : (logPacket saddr h.state.logger).total LoggerValue.cur =
        h.state.logger.total LoggerValue.cur +
          if h.state.logger.accepts saddr then 1 else 0 := by
      apply BoundedMap.total_add LoggerValue.cur _ _ saddr
      · simpa using logPacket_cur saddr saddr h.state.logger
      · intro k other
        have rest := logPacket_cur saddr k h.state.logger
        rw [if_neg (fun both => other both.1.symm), add_zero] at rest
        exact rest
    rw [grown, Nat.cast_add]
    cases h.state.logger.accepts saddr with
    | true =>
        simp only [↓reduceIte, Nat.cast_zero, add_zero]
        exact add_right_comm _ _ _
    | false =>
        simp only [Bool.false_eq_true, ↓reduceIte, Nat.cast_one, add_zero]
        exact add_assoc _ _ _
  prevTotal := by
    simp only [counted, Slots.value_update_zero, countPacket_prev, counts.prevTotal,
      Ledger.arrive]
    congr 1
    exact (BoundedMap.total_congr _ _ _ _ fun k => logPacket_prev saddr k h.state.logger).symm

theorem Counts.close (target : Target) (packet : Packet) (h : History) (counts : Counts h) :
    Counts ⟨closeInterval h.state h.state.data.value
      (analyse target packet h.state.data.value h.state), h.ledger.close⟩ where
  cur s := by simp [closeInterval, Ledger.close, analyse_cur]
  prev s := by simp only [closeInterval, Ledger.close, analyse_prev, counts.cur s]
  curTotal := by
    simp only [closeInterval, Slots.value_update_zero, Ledger.close]
    rw [BoundedMap.total_eq_zero _ _ fun k => analyse_cur _ _ _ _ k]
    rfl
  prevTotal := by
    simp only [closeInterval, Slots.value_update_zero, Ledger.close, counts.curTotal]
    congr 1
    exact (BoundedMap.total_congr _ _ _ _ fun k => analyse_prev _ _ _ _ k).symm

theorem Counts.step (env : Env) (h : History) (packet : Packet) (counts : Counts h) :
    Counts (History.step env h packet) := by
  rcases History.step_cases env h packet with same | ⟨saddr, -, -, next⟩ | ⟨saddr, -, -, next⟩
  · rw [same]
    exact counts
  · rw [next]
    exact counts.arrive env h packet saddr
  · rw [next]
    have arrived := counts.arrive env h packet saddr
    have closed := arrived.close env.target packet
    simpa only [rolloverOf, counted, Slots.value_update_zero] using closed

theorem counts_zeroed : Counts ⟨zeroed, Ledger.empty⟩ where
  cur _ := rfl
  prev _ := rfl
  curTotal := rfl
  prevTotal := rfl

theorem counts_history (env : Env) (packets : List Packet) :
    Counts (history env zeroed packets) :=
  history_invariant env Counts (Counts.step env) zeroed packets counts_zeroed

/-- The interval counts of a run from zeroed maps, modulo `2^32`. While no insertion was refused
in the two intervals the record covers, an entry holds the packets its source sent in each, a
source without an entry sent none (up to a multiple of `2^32`), and the interval totals are the
sums over the logger. Refused packets are exactly what the current total has on top. -/
theorem logger_counts_history (env : Env) (packets : List Packet) :
    let h := history env zeroed packets
    (Ledger.refused h.ledger.current = 0 → Ledger.refused h.ledger.previous = 0 →
      (∀ s v, h.state.logger.lookup s = some v →
        v.cur = (Ledger.sent h.ledger.current s : I32) ∧
        v.prev = (Ledger.sent h.ledger.previous s : I32)) ∧
      (∀ s, h.state.logger.lookup s = none →
        (Ledger.sent h.ledger.current s : I32) = 0 ∧
        (Ledger.sent h.ledger.previous s : I32) = 0) ∧
      h.state.data.value.curIntervalPkt = h.state.logger.total LoggerValue.cur ∧
      h.state.data.value.prevIntervalPkt = h.state.logger.total LoggerValue.prev) ∧
    h.state.data.value.curIntervalPkt - h.state.logger.total LoggerValue.cur =
      (Ledger.refused h.ledger.current : I32) := by
  intro h
  have counts : Counts h := counts_history env packets
  refine ⟨fun roomCur roomPrev => ⟨?_, ?_, ?_, ?_⟩, ?_⟩
  · intro s v present
    have cur := counts.cur s
    have prev := counts.prev s
    rw [Ledger.stored_eq_sent _ roomCur] at cur
    rw [Ledger.stored_eq_sent _ roomPrev] at prev
    simp only [curOf, prevOf, BoundedMap.valueAt, present, Option.elim_some] at cur prev
    exact ⟨cur, prev⟩
  · intro s absent
    have cur := counts.cur s
    have prev := counts.prev s
    rw [Ledger.stored_eq_sent _ roomCur] at cur
    rw [Ledger.stored_eq_sent _ roomPrev] at prev
    simp only [curOf, prevOf, BoundedMap.valueAt, absent, Option.elim_none] at cur prev
    exact ⟨cur.symm, prev.symm⟩
  · rw [counts.curTotal, roomCur, Nat.cast_zero, add_zero]
  · rw [counts.prevTotal, roomPrev, Nat.cast_zero, add_zero]
  · rw [counts.curTotal, add_sub_cancel_left]

end Fide.Kernel
