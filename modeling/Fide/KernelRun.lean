import Fide.Kernel
import Fide.Ledger

/-! Runs of the in-kernel program over packet sequences.

`step_ignored` and `step_counted` say everything one invocation can do to the state; every
result about runs goes through them and never unfolds the program. -/

namespace Fide.Kernel

open Words FixedPoint

/-- The source of a full IPv4 frame that the blacklist does not cover. -/
def countedSource (env : Env) (frame : Frame) : Option Addr :=
  if frame.length < Frame.sizeofEthhdr + Frame.sizeofIphdr then none
  else if Frame.hProto frame ≠ Frame.ethPIp then none
  else if (env.blacklist.lookup (filterKey (Frame.saddr frame))).isSome then none
  else some (Frame.saddr frame)

/-- The state once the packet is counted and the interval clock has been consulted. -/
def counted (env : Env) (st : State) (packet : Packet) (saddr : Addr) : State :=
  { st with
    data := st.data.update 0 (countPacket env.target st.data.value)
    logger := logPacket saddr st.logger
    locTs := st.locTs.update 0 (timestampCheck packet.ts st.locTs.value).1 }

/-- Whether a counted packet goes on to run the rollover. -/
def rollsOver (st : State) (packet : Packet) : Bool :=
  (timestampCheck packet.ts st.locTs.value).2

/-- The rollover a counted packet runs when it is due. -/
def rolloverOf (env : Env) (st : State) (packet : Packet) (saddr : Addr) : Rollover :=
  analyse env.target packet (countPacket env.target st.data.value) (counted env st packet saddr)

theorem step_ignored (env : Env) (st : State) (packet : Packet)
    (ignored : countedSource env packet.frame = none) :
    (xdpFilterFunc env st packet).state = st ∧ (xdpFilterFunc env st packet).rollover = none := by
  unfold countedSource at ignored
  unfold xdpFilterFunc
  split_ifs with short other cut
  · exact ⟨rfl, rfl⟩
  · exact ⟨rfl, rfl⟩
  · rw [if_neg cut, if_neg (by simpa using other)] at ignored
    cases found : env.blacklist.lookup (filterKey (Frame.saddr packet.frame)) with
    | none => simp [found] at ignored
    | some rule => simp [found]
  · exact ⟨rfl, rfl⟩

theorem step_counted (env : Env) (st : State) (packet : Packet) (saddr : Addr)
    (source : countedSource env packet.frame = some saddr) :
    xdpFilterFunc env st packet =
      if rollsOver st packet then
        ⟨env.redirect,
          closeInterval (counted env st packet saddr) (countPacket env.target st.data.value)
            (rolloverOf env st packet saddr),
          some (rolloverOf env st packet saddr)⟩
      else ⟨env.redirect, counted env st packet saddr, none⟩ := by
  unfold countedSource at source
  split_ifs at source with short other blocked
  have long : ¬ packet.frame.length < Frame.sizeofEthhdr := by omega
  have clear : env.blacklist.lookup (filterKey (Frame.saddr packet.frame)) = none := by
    simpa using blocked
  cases source
  simp only [xdpFilterFunc, if_neg long, if_neg short, if_pos (not_not.mp other), clear,
    Slots.lookup_zero]
  rfl

def run (env : Env) (st : State) (packets : List Packet) : State :=
  packets.foldl (fun st packet => (xdpFilterFunc env st packet).state) st

/-- The packets of a run with the verdict each one got. -/
def verdicts (env : Env) : State → List Packet → List (Packet × XdpAction)
  | _, [] => []
  | st, packet :: rest =>
      (packet, (xdpFilterFunc env st packet).action) ::
        verdicts env (xdpFilterFunc env st packet).state rest

/-- The run together with the arrivals it counts, interval by interval. -/
structure History where
  state : State
  ledger : Ledger Addr

/-- A counted packet arrives in the current interval, stored unless the logger has no room for
its source, and closes the interval when it rolls over. -/
def History.step (env : Env) (h : History) (packet : Packet) : History where
  state := (xdpFilterFunc env h.state packet).state
  ledger :=
    match countedSource env packet.frame with
    | none => h.ledger
    | some saddr =>
      let ledger := h.ledger.arrive ⟨saddr, h.state.logger.accepts saddr⟩
      if rollsOver h.state packet then ledger.close else ledger

def history (env : Env) (st : State) (packets : List Packet) : History :=
  packets.foldl (History.step env) ⟨st, Ledger.empty⟩

theorem history_state (env : Env) (st : State) (packets : List Packet) :
    (history env st packets).state = run env st packets := by
  unfold history run
  generalize Ledger.empty = ledger
  induction packets generalizing st ledger with
  | nil => rfl
  | cons packet rest ih => exact ih (xdpFilterFunc env st packet).state _

/-- Invariants of histories hold along whole runs. -/
theorem history_invariant (env : Env) (Inv : History → Prop)
    (preserved : ∀ h packet, Inv h → Inv (History.step env h packet))
    (st : State) (packets : List Packet) (initial : Inv ⟨st, Ledger.empty⟩) :
    Inv (history env st packets) := by
  unfold history
  induction packets using List.reverseRecOn with
  | nil => exact initial
  | append_singleton front last ih =>
      rw [List.foldl_append, List.foldl_cons, List.foldl_nil]
      exact preserved _ last ih

/-- The three things a packet can do to a history: nothing, count, or count and roll over. -/
theorem History.step_cases (env : Env) (h : History) (packet : Packet) :
    (History.step env h packet = h) ∨
    (∃ saddr, countedSource env packet.frame = some saddr ∧ rollsOver h.state packet = false ∧
      History.step env h packet =
        ⟨counted env h.state packet saddr,
          h.ledger.arrive ⟨saddr, h.state.logger.accepts saddr⟩⟩) ∨
    (∃ saddr, countedSource env packet.frame = some saddr ∧ rollsOver h.state packet = true ∧
      History.step env h packet =
        ⟨closeInterval (counted env h.state packet saddr)
            (countPacket env.target h.state.data.value) (rolloverOf env h.state packet saddr),
          (h.ledger.arrive ⟨saddr, h.state.logger.accepts saddr⟩).close⟩) := by
  cases source : countedSource env packet.frame with
  | none =>
      left
      simp only [History.step, source, (step_ignored env h.state packet source).1]
  | some saddr =>
      right
      cases due : rollsOver h.state packet with
      | false =>
          left
          refine ⟨saddr, rfl, rfl, ?_⟩
          simp only [History.step, source, due, step_counted env h.state packet saddr source,
            Bool.false_eq_true, ↓reduceIte]
      | true =>
          right
          refine ⟨saddr, rfl, rfl, ?_⟩
          simp only [History.step, source, due, step_counted env h.state packet saddr source,
            ↓reduceIte]

/-- `packet` runs the rollover `r` at some point of the run, from the history `h`. -/
def RolloverIn (env : Env) (st : State) (packets : List Packet) (h : History) (packet : Packet)
    (r : Rollover) : Prop :=
  ∃ front back, packets = front ++ packet :: back ∧ h = history env st front ∧
    (xdpFilterFunc env h.state packet).rollover = some r

theorem RolloverIn.reached {env : Env} {st : State} {packets : List Packet} {h : History}
    {packet : Packet} {r : Rollover} (rolled : RolloverIn env st packets h packet r) :
    ∃ front, h = history env st front := by
  obtain ⟨front, -, -, reached, -⟩ := rolled
  exact ⟨front, reached⟩

/-- A rollover is run by a counted packet that is due. -/
theorem RolloverIn.cases {env : Env} {st : State} {packets : List Packet} {h : History}
    {packet : Packet} {r : Rollover} (rolled : RolloverIn env st packets h packet r) :
    ∃ saddr, countedSource env packet.frame = some saddr ∧ saddr = Frame.saddr packet.frame ∧
      rollsOver h.state packet = true ∧ r = rolloverOf env h.state packet saddr := by
  obtain ⟨front, back, -, -, result⟩ := rolled
  cases source : countedSource env packet.frame with
  | none => simp [(step_ignored env h.state packet source).2] at result
  | some saddr =>
      have address : saddr = Frame.saddr packet.frame := by
        unfold countedSource at source
        split_ifs at source
        exact (Option.some.inj source).symm
      rw [step_counted env h.state packet saddr source] at result
      cases due : rollsOver h.state packet with
      | false => simp [due] at result
      | true =>
          simp only [due, ↓reduceIte, Option.some.injEq] at result
          exact ⟨saddr, rfl, address, rfl, result.symm⟩

/-! ### Concrete runs -/

/-- Masking shifts, no blacklist, and a redirect that succeeds. -/
def bareEnv : Env := ⟨masking, [], .redirect⟩

/-- A full IPv4 frame from a source at a time, traversals in stored order. -/
def packetAt (source : Addr) (ts : I64) : Packet :=
  ⟨ts, Frame.ipv4From source, .stored _, .stored _⟩

/-! ### Blocked and irrelevant traffic -/

/-- A frame cut inside its headers, not IPv4, or from a blacklisted source. -/
def irrelevant (env : Env) (packet : Packet) : Bool :=
  packet.frame.length < Frame.sizeofEthhdr ||
  Frame.hProto packet.frame ≠ Frame.ethPIp ||
  packet.frame.length < Frame.sizeofEthhdr + Frame.sizeofIphdr ||
  (env.blacklist.lookup (filterKey (Frame.saddr packet.frame))).isSome

theorem irrelevant_iff (env : Env) (packet : Packet) :
    irrelevant env packet = true ↔ countedSource env packet.frame = none := by
  unfold irrelevant countedSource
  split_ifs with short other blocked
  · simp [short]
  · simp [other]
  · simp [blocked]
  · have long : ¬ packet.frame.length < Frame.sizeofEthhdr := by omega
    simp [short, blocked, long, not_not.mp other]

theorem irrelevant_step (env : Env) (st : State) (packet : Packet)
    (skipped : irrelevant env packet = true) : (xdpFilterFunc env st packet).state = st :=
  (step_ignored env st packet ((irrelevant_iff env packet).mp skipped)).1

/-- Removing the blocked and irrelevant frames changes no map, no static and no verdict of a
frame that stays. -/
theorem irrelevant_traffic_erasable (env : Env) (st : State) (packets : List Packet) :
    run env st (packets.filter fun packet => !irrelevant env packet) = run env st packets ∧
    verdicts env st (packets.filter fun packet => !irrelevant env packet) =
      (verdicts env st packets).filter fun entry => !irrelevant env entry.1 := by
  induction packets generalizing st with
  | nil => exact ⟨rfl, rfl⟩
  | cons packet rest ih =>
      by_cases skipped : irrelevant env packet = true
      · have same := irrelevant_step env st packet skipped
        have tail := ih st
        simp only [List.filter_cons, skipped, Bool.not_true, Bool.false_eq_true, ↓reduceIte,
          verdicts, run, List.foldl_cons, same]
        exact tail
      · have kept : irrelevant env packet = false := by simpa using skipped
        have tail := ih (xdpFilterFunc env st packet).state
        simp only [List.filter_cons, kept, Bool.not_false, ↓reduceIte, verdicts, run,
          List.foldl_cons, List.cons.injEq, true_and]
        exact tail

end Fide.Kernel
