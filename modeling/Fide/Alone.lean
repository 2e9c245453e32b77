import Fide.Accesses
import Fide.KernelRun

/-! An execution that nothing interrupts does to the state what the program does in one piece. -/

namespace Fide.Kernel

open Words FixedPoint Program

/-! ### Writes through pointers -/

section Entries

variable {logger : Logger} {key : Addr} {value : LoggerValue}

theorem modifyEntry_present (present : logger.lookup key = some value)
    (change : LoggerValue → LoggerValue) :
    modifyEntry key change logger = logger.update key (change value) := by
  rw [modifyEntry, present]

theorem readThrough_present (present : logger.lookup key = some value) :
    readThrough key logger = value := by
  rw [readThrough, present, Option.getD_some]

theorem lookup_updated (present : logger.lookup key = some value) (changed : LoggerValue) :
    (logger.update key changed).lookup key = some changed :=
  BoundedMap.lookup_update_self _ _ _ (BoundedMap.accepts_of_lookup _ _ _ present)

/-- Writes to one entry, one after the other, are one write. -/
theorem modifyEntry_updated (present : logger.lookup key = some value) (changed : LoggerValue)
    (change : LoggerValue → LoggerValue) :
    modifyEntry key change (logger.update key changed) = logger.update key (change changed) := by
  rw [modifyEntry_present (lookup_updated present changed), BoundedMap.update_update]

theorem readThrough_updated (present : logger.lookup key = some value) (changed : LoggerValue) :
    readThrough key (logger.update key changed) = changed :=
  readThrough_present (lookup_updated present changed)

end Entries

/-! ### Recording -/

theorem recordPacket_run (target : Target) (st : State) :
    (recordPacket target).run (exec target) st =
      ((), { st with data := st.data.update 0 (countPacket target st.data.value) }) := by
  simp only [recordPacket, Program.run, exec, State.setData, Slots.value_update_zero, countPacket]
  split <;> simp only [Program.run, exec, State.setData, Slots.value_update_zero,
    Slots.update_update_zero]

theorem recordSource_run (target : Target) (saddr : Addr) (st : State) :
    (recordSource saddr).run (exec target) st =
      ((), { st with logger := logPacket saddr st.logger }) := by
  cases found : st.logger.lookup saddr with
  | none => simp [recordSource, Program.run, exec, logPacket, found]
  | some value =>
      simp [recordSource, Program.run, exec, logPacket, found, State.modify,
        modifyEntry_present found]

/-! ### Traversals -/

/-- The state with what the first traversal has made of the logger and the statics. -/
def State.withEntropies (st : State) (acc : Logger × EntropyPass) : State :=
  { st with logger := acc.1, count := acc.2.count, entropyAll := acc.2.entropyAll }

/-- The state with what the second traversal has made of the logger and the average. -/
def State.withDetection (st : State) (acc : Logger × DetectionPass) : State :=
  { st with logger := acc.1, avg := acc.2.avg }

theorem calcEntropyVisit_run (target : Target) (tmp : DataValue) (st : State)
    (acc : Logger × EntropyPass) (key : Addr) :
    (calledFor (calcEntropyVisit target tmp) () key).run (exec target) (st.withEntropies acc) =
      ((), st.withEntropies (BoundedMap.visit (calcEntropy target tmp) acc key)) := by
  obtain ⟨logger, pass⟩ := acc
  cases present : logger.lookup key with
  | none => simp [calledFor, Program.run, exec, State.withEntropies, BoundedMap.visit, present]
  | some value =>
      simp [calledFor, calcEntropyVisit, Program.run, exec, State.withEntropies, State.modify,
        BoundedMap.visit, calcEntropy, present, readThrough_present present,
        modifyEntry_present present]

theorem entropyPass_run (target : Target) (tmp : DataValue) (st : State) (keys : List Addr)
    (acc : Logger × EntropyPass) :
    (forEach (calledFor (calcEntropyVisit target tmp)) keys ()).run (exec target)
        (st.withEntropies acc) =
      ((), st.withEntropies (keys.foldl (BoundedMap.visit (calcEntropy target tmp)) acc)) := by
  rw [run_forEach]
  induction keys generalizing acc with
  | nil => rfl
  | cons key rest ih =>
      rw [List.foldl_cons, calcEntropyVisit_run, List.foldl_cons]
      exact ih _

theorem closeEntry_run {β : Type} (target : Target) (st : State) (key : Addr)
    (value : LoggerValue) (present : st.logger.lookup key = some value) (result : β) :
    (closeEntry key result).run (exec target) st =
      (result,
        { st with logger := st.logger.update key { value with prev := value.cur, cur := 0 } }) := by
  simp only [closeEntry, Program.run, exec, State.modify, readThrough_present present,
    modifyEntry_present present, modifyEntry_updated present]

theorem detectionVisit_run (target : Target) (tmp : DataValue) (st : State)
    (acc : Logger × DetectionPass) (key : Addr) :
    (calledFor (detectionVisit tmp) acc.2.flagged key).run (exec target) (st.withDetection acc) =
      ((BoundedMap.visit (detection target tmp) acc key).2.flagged,
        st.withDetection (BoundedMap.visit (detection target tmp) acc key)) := by
  obtain ⟨logger, pass⟩ := acc
  cases present : logger.lookup key with
  | none => simp [calledFor, Program.run, exec, State.withDetection, BoundedMap.visit, present]
  | some value =>
      simp only [calledFor, detectionVisit, Program.run, exec, State.withDetection,
        BoundedMap.visit, detection, present, readThrough_present present, Option.isSome_some,
        ↓reduceIte]
      by_cases unset : value.entropy.number = 0
      · rw [if_pos unset, if_pos unset]
        exact closeEntry_run target (st.withDetection (logger, pass)) key value present pass.flagged
      · rw [if_neg unset, if_neg unset]
        simp only [Program.run, exec, State.modify, readThrough_present present,
          modifyEntry_present present, readThrough_updated present]
        by_cases idle : value.cur = 0
        · simp only [if_pos idle, Program.run, exec, BoundedMap.delete_update]
        · rw [if_neg idle, if_neg idle]
          refine (closeEntry_run target _ key _ (lookup_updated present _) _).trans ?_
          rw [BoundedMap.update_update]

theorem detectionPass_run (target : Target) (tmp : DataValue) (st : State) (keys : List Addr)
    (acc : Logger × DetectionPass) :
    (forEach (calledFor (detectionVisit tmp)) keys acc.2.flagged).run (exec target)
        (st.withDetection acc) =
      ((keys.foldl (BoundedMap.visit (detection target tmp)) acc).2.flagged,
        st.withDetection (keys.foldl (BoundedMap.visit (detection target tmp)) acc)) := by
  rw [run_forEach]
  induction keys generalizing acc with
  | nil => rfl
  | cons key rest ih =>
      rw [List.foldl_cons, detectionVisit_run, List.foldl_cons]
      exact ih _

/-! ### The whole execution -/

theorem startInterval_run {β : Type} (target : Target) (st : State) (result : β) :
    (startInterval result).run (exec target) st =
      (result,
        { st with
          data := st.data.update 0
            { st.data.value with
              prevIntervalPkt := st.data.value.curIntervalPkt, curIntervalPkt := 0, intBits := 4 }
          count := 0
          entropyAll := ⟨0, 16⟩ }) := by
  simp only [startInterval, Program.run, exec, State.setData, Slots.value_update_zero,
    Slots.update_update_zero]

theorem rolloverBody_run (target : Target) (packet : Packet) (st : State) :
    (rolloverBody target packet).run (exec target) st =
      ((analyse target packet st.data.value st).flagged,
        closeInterval st st.data.value (analyse target packet st.data.value st)) := by
  let pass := st.logger.forEach packet.entropyOrder (calcEntropy target st.data.value)
    ⟨st.count, st.entropyAll, []⟩
  let quotient := divide target pass.2.entropyAll
    (toFixedPoint target pass.2.count st.data.value.intBits)
  have first : (forEach (calledFor (calcEntropyVisit target st.data.value))
      (packet.entropyOrder.order st.logger.keys) ()).run (exec target) st =
      ((), st.withEntropies pass) :=
    entropyPass_run target st.data.value st _ (st.logger, ⟨st.count, st.entropyAll, []⟩)
  have second := detectionPass_run target st.data.value
    { st.withEntropies pass with entropyAll := quotient.first, avg := quotient.result }
    (packet.detectionOrder.order pass.1.keys) (pass.1, ⟨quotient.result, []⟩)
  simp only [rolloverBody, Program.run, exec, run_bind, first]
  refine (congrArg (fun end' => (startInterval end'.1).run (exec target) end'.2) second).trans ?_
  exact startInterval_run target _ _

theorem consultClock_run (env : Env) (packet : Packet) (st : State) :
    (consultClock env packet).run (exec env.target) st =
      let st' := { st with
        locTs := st.locTs.update 0 (timestampCheck packet.ts st.locTs.value).1 }
      if (timestampCheck packet.ts st.locTs.value).2 then
        ((env.redirect, (analyse env.target packet st.data.value st').flagged),
          closeInterval st' st.data.value (analyse env.target packet st.data.value st'))
      else ((env.redirect, []), st') := by
  change (if due packet.ts st.locTs.value then _ else _ : Execution _).run _ _ = _
  by_cases late : due packet.ts st.locTs.value
  · have check : timestampCheck packet.ts st.locTs.value =
        lockedSection packet.ts st.locTs.value := if_pos late
    rw [if_pos late, check]
    change (if (lockedSection packet.ts st.locTs.value).2 then _ else _ : Execution _).run _ _ = _
    by_cases body : (lockedSection packet.ts st.locTs.value).2
    · rw [if_pos body, if_pos body, run_bind, rolloverBody_run]
      rfl
    · rw [if_neg body, if_neg body]
      rfl
  · have check : timestampCheck packet.ts st.locTs.value = (st.locTs.value, false) := if_neg late
    rw [if_neg late, check]
    simp only [Program.run, exec, Bool.false_eq_true, ↓reduceIte, Slots.update_zero_value]

/-- One execution that nothing interrupts gives the verdict, the flagged addresses and the state
of the program run in one piece. -/
theorem execution_alone (env : Env) (packet : Packet) (st : State) :
    (xdpFilterExecution env packet).run (exec env.target) st =
      (((xdpFilterFunc env st packet).action,
          ((xdpFilterFunc env st packet).rollover.map Rollover.flagged).getD []),
        (xdpFilterFunc env st packet).state) := by
  unfold xdpFilterExecution xdpFilterFunc
  split_ifs with short ipv4 cut
  · rfl
  · rfl
  · cases listed : env.blacklist.lookup (filterKey (Frame.saddr packet.frame)) with
    | some rule => simp only [listed]; rfl
    | none =>
        simp only [listed, countedExecution, Program.run, exec, run_bind, Slots.lookup_zero,
          Option.isSome_some, ↓reduceIte, recordPacket_run, recordSource_run, consultClock_run,
          Slots.value_update_zero]
        split <;> rfl
  · rfl

end Fide.Kernel
