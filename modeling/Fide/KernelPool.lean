import Fide.Alone
import Fide.KernelCounts

/-! Any number of executions of the in-kernel program at the same time.

The executions share the state, and with it a tally of what they have counted: the packets, those
of each source, and what has been moved into the previous counts. A closing moves a count by
reading it, storing it as the previous one and zeroing it; an access of another execution that
falls in between loses or doubles packets, and the clash relations say which accesses these are. -/

namespace Fide.Kernel

open Words FixedPoint Program

/-! ### Tallies -/

/-- The state with the packets counted, the counts stored in `prev_interval_pkt` whenever the
counter was zeroed, and the same for each source; `refused` counts insertions into a full logger. -/
structure World where
  state : State
  counted : Nat
  closed : I32
  recorded : Addr → Nat
  refused : Addr → Nat
  moved : Addr → I32

def World.of (st : State) : World := ⟨st, 0, 0, fun _ => 0, fun _ => 0, fun _ => 0⟩

/-- What an access adds to the tallies. -/
def World.tally (w : World) : Op → World
  | .countPacket => { w with counted := w.counted + 1 }
  | .zeroCounter => { w with closed := w.closed + w.state.data.value.prevIntervalPkt }
  | .countEntry key => { w with recorded := w.recorded + Pi.single key 1 }
  | .insertEntry key =>
      if w.state.logger.accepts key then { w with recorded := w.recorded + Pi.single key 1 }
      else { w with refused := w.refused + Pi.single key 1 }
  | .zeroEntry key => { w with moved := w.moved + Pi.single key (prevOf w.state.logger key) }
  | _ => w

def World.exec (target : Target) (op : Op) (w : World) : Answer op × World :=
  ((Kernel.exec target op w.state).1, { w.tally op with state := (Kernel.exec target op w.state).2 })

/-- What an access can answer: traversals list keys in any order, left out or repeated as may be,
and what only entropies depend on is left open. -/
def answers (target : Target) : (op : Op) → State → Answer op → Prop
  | .traverse _, _, _ | .copyData, _, _ | .readEntry _, _, _ | .readCount, _, _
  | .readEntropy _, _, _ | .subtractAvg _, _, _ => True
  | op, st, answer => answer = (exec target op st).1

def acts (target : Target) (op : Op) (w : World) (answer : Answer op) (w' : World) : Prop :=
  answers target op w.state answer ∧ w' = (w.exec target op).2

theorem acts_exec (target : Target) (op : Op) (w : World) :
    acts target op w (w.exec target op).1 (w.exec target op).2 := by
  refine ⟨?_, rfl⟩
  cases op <;> trivial

abbrev Executions (ι : Type) := Pool ι Op Answer (XdpAction × List Addr) World

/-- Every execution at its start. -/
def starting {ι : Type} (env : Env) (packet : ι → Packet) (st : State) : Executions ι :=
  ⟨World.of st, fun i => xdpFilterExecution env (packet i)⟩

/-! ### What an execution relies on -/

theorem execution_ignored (env : Env) (packet : Packet)
    (ignored : countedSource env packet.frame = none) :
    ∃ result, xdpFilterExecution env packet = .done result := by
  unfold countedSource at ignored
  unfold xdpFilterExecution
  split_ifs with short other cut
  · exact ⟨_, rfl⟩
  · exact ⟨_, rfl⟩
  · rw [if_neg cut, if_neg (by simpa using other)] at ignored
    cases found : env.blacklist.lookup (filterKey (Frame.saddr packet.frame)) with
    | none => simp [found] at ignored
    | some rule => exact ⟨_, by simp only [found]; rfl⟩
  · exact ⟨_, rfl⟩

theorem execution_counted (env : Env) (packet : Packet) (saddr : Addr)
    (source : countedSource env packet.frame = some saddr) :
    xdpFilterExecution env packet = countedExecution env packet saddr := by
  unfold countedSource at source
  split_ifs at source with short other blocked
  have long : ¬ packet.frame.length < Frame.sizeofEthhdr := by omega
  have clear : env.blacklist.lookup (filterKey (Frame.saddr packet.frame)) = none := by
    simpa using blocked
  cases source
  simp only [xdpFilterExecution, if_neg long, if_neg short, if_pos (not_not.mp other), clear]

section Meets

/-- Accesses that rely on what an earlier one has read. -/
def relies : Op → Bool
  | .countEntry _ | .insertEntry _ | .deleteEntry _ | .movePrev _ _ | .zeroEntry _
  | .setPrevInterval _ | .zeroCounter => true
  | _ => false

variable {target : Target} {pre : Op → World → Prop} {clash : Op → Op → Bool}
  (free : ∀ op, relies op = false → ∀ w, pre op w)

include free

theorem recordPacket_meets (w : World) : (recordPacket target).Meets (acts target) pre clash w := by
  refine meets_free (free _ rfl) (fun _ => meets_free (free _ rfl) fun packets =>
    meets_free (free _ rfl) fun intBits w => ?_) w
  split
  · exact meets_free (free _ rfl) (fun _ => meets_done ()) w
  · trivial

theorem calcEntropyVisit_meets (tmp : DataValue) (key : Addr) (w : World) :
    (calledFor (calcEntropyVisit target tmp) () key).Meets (acts target) pre clash w := by
  refine meets_free (free _ rfl) (fun present w => ?_) w
  split
  · exact meets_free (free _ rfl) (fun _ => meets_free (free _ rfl) fun _ =>
      meets_free (free _ rfl) fun _ => meets_free (free _ rfl) fun _ => meets_done ()) w
  · trivial

/-- Everything but the recording of the source, the visits of the second traversal and the start of
an interval relies on nothing. -/
theorem execution_meets
    (source : ∀ saddr w, (recordSource saddr).Meets (acts target) pre clash w)
    (visit : ∀ tmp flagged key w,
      (detectionVisit tmp flagged key).Meets (acts target) pre clash w)
    (start : ∀ (flagged : List Addr) w, (startInterval flagged).Meets (acts target) pre clash w)
    (env : Env) (compiled : env.target = target) (packet : Packet) (w : World) :
    (xdpFilterExecution env packet).Meets (acts target) pre clash w := by
  have visits : ∀ tmp flagged key w,
      (calledFor (detectionVisit tmp) flagged key).Meets (acts target) pre clash w := by
    intro tmp flagged key w
    refine meets_free (free _ rfl) (fun present w => ?_) w
    split
    · exact visit tmp flagged key w
    · trivial
  have body : ∀ w, (rolloverBody target packet).Meets (acts target) pre clash w := by
    refine meets_free (free _ rfl) fun tmp => meets_free (free _ rfl) fun listed w => ?_
    refine meets_bind (meets_forEach (fun _ => calcEntropyVisit_meets free tmp) listed () w) ?_
    intro _
    refine meets_free (free _ rfl) fun n => meets_free (free _ rfl) fun intBits =>
      meets_free (free _ rfl) fun _ => meets_free (free _ rfl) fun listed w => ?_
    exact meets_bind (meets_forEach (visits tmp) listed [] w) start
  have clock : ∀ w, (consultClock env packet).Meets (acts target) pre clash w := by
    refine meets_free (free _ rfl) fun timestamp w => ?_
    split
    · refine meets_free (free _ rfl) (fun due w => ?_) w
      split
      · rw [compiled]
        exact meets_bind (body w) fun _ _ => trivial
      · trivial
    · trivial
  cases counted : countedSource env packet.frame with
  | none =>
      obtain ⟨result, stopped⟩ := execution_ignored env packet counted
      rw [stopped]
      trivial
  | some saddr =>
      rw [execution_counted env packet saddr counted]
      refine meets_free (free _ rfl) (fun found w => ?_) w
      split
      · rw [compiled]
        refine meets_bind (recordPacket_meets free w) fun _ w => ?_
        refine meets_bind (source saddr w) fun _ => meets_free (free _ rfl) fun found w => ?_
        split
        · exact clock w
        · trivial
      · trivial

end Meets

/-! ### What an execution records -/

section Performs

def records : Op → Bool
  | .countPacket | .countEntry _ | .insertEntry _ => true
  | _ => false

variable {target : Target} {weight : Op → Nat} (others : ∀ op, records op = false → weight op = 0)

include others

theorem recordPacket_performs :
    (recordPacket target).Performs (acts target) weight (weight .countPacket) := by
  refine performs_perform (n := 0) rfl fun _ _ _ _ => performs_weightless (others _ rfl)
    fun _ packets _ _ => performs_weightless (others _ rfl) fun _ intBits _ _ => ?_
  split
  · exact performs_weightless (others _ rfl) fun _ _ _ _ => rfl
  · rfl

theorem recordSource_performs (saddr : Addr) (n : Nat) (counting : weight (.countEntry saddr) = n)
    (inserting : weight (.insertEntry saddr) = n) :
    (recordSource saddr).Performs (acts target) weight n := by
  refine performs_weightless (others _ rfl) fun _ found _ _ => ?_
  split
  · exact performs_perform (n := 0) counting fun _ _ _ _ => rfl
  · exact performs_perform (n := 0) inserting fun _ _ _ _ => rfl

theorem calcEntropyVisit_performs (tmp : DataValue) (result : Unit) (key : Addr) :
    (calledFor (calcEntropyVisit target tmp) result key).Performs (acts target) weight 0 := by
  refine performs_weightless (others _ rfl) fun _ present _ _ => ?_
  split
  · refine performs_weightless (others _ rfl) fun _ value _ _ => performs_weightless (others _ rfl)
      fun _ _ _ _ => performs_weightless (others _ rfl) fun _ _ _ _ =>
      performs_weightless (others _ rfl) fun _ _ _ _ => rfl
  · rfl

theorem closeEntry_performs {β : Type} (key : Addr) (result : β) :
    (closeEntry key result).Performs (acts target) weight 0 := by
  refine performs_weightless (others _ rfl) fun _ n _ _ => performs_weightless (others _ rfl)
    fun _ _ _ _ => performs_weightless (others _ rfl) fun _ _ _ _ => rfl

theorem detectionVisit_performs (tmp : DataValue) (flagged : List Addr) (key : Addr) :
    (calledFor (detectionVisit tmp) flagged key).Performs (acts target) weight 0 := by
  refine performs_weightless (others _ rfl) fun _ present _ _ => ?_
  split
  · refine performs_weightless (others _ rfl) fun _ entropy _ _ => ?_
    split
    · exact closeEntry_performs others key flagged
    · refine performs_weightless (others _ rfl) fun _ diff _ _ =>
        performs_weightless (others _ rfl) fun _ cur _ _ => ?_
      split
      · exact performs_weightless (others _ rfl) fun _ _ _ _ => rfl
      · exact closeEntry_performs others key _
  · rfl

theorem startInterval_performs {β : Type} (result : β) :
    (startInterval result).Performs (acts target) weight 0 := by
  refine performs_weightless (others _ rfl) fun _ packets _ _ => performs_weightless (others _ rfl)
    fun _ _ _ _ => performs_weightless (others _ rfl) fun _ _ _ _ =>
    performs_weightless (others _ rfl) fun _ _ _ _ => performs_weightless (others _ rfl)
    fun _ _ _ _ => performs_weightless (others _ rfl) fun _ _ _ _ => rfl

theorem rolloverBody_performs (packet : Packet) :
    (rolloverBody target packet).Performs (acts target) weight 0 := by
  refine performs_weightless (others _ rfl) fun _ tmp _ _ => performs_weightless (others _ rfl)
    fun _ listed _ _ => ?_
  refine performs_bind (n := 0) (performs_forEach (calcEntropyVisit_performs others tmp) listed ())
    fun _ => ?_
  refine performs_weightless (others _ rfl) fun _ n _ _ => performs_weightless (others _ rfl)
    fun _ intBits _ _ => performs_weightless (others _ rfl) fun _ _ _ _ =>
    performs_weightless (others _ rfl) fun _ listed _ _ => ?_
  exact performs_bind (performs_forEach (detectionVisit_performs others tmp) listed [])
    (startInterval_performs others)

theorem consultClock_performs (env : Env) (packet : Packet) :
    (consultClock env packet).Performs (acts env.target) weight 0 := by
  refine performs_weightless (others _ rfl) fun _ timestamp _ _ => ?_
  split
  · refine performs_weightless (others _ rfl) fun _ body _ _ => ?_
    split
    · exact performs_bind (rolloverBody_performs others packet) fun _ => performs_done _
    · rfl
  · rfl

/-- Every execution of a counted packet records the packet once and its source once. -/
theorem execution_performs (source : Addr → Nat)
    (counting : ∀ saddr, weight (.countEntry saddr) = source saddr)
    (inserting : ∀ saddr, weight (.insertEntry saddr) = source saddr) (env : Env)
    (packet : Packet) :
    (xdpFilterExecution env packet).Performs (acts env.target) weight
      ((countedSource env packet.frame).elim 0 fun saddr =>
        weight .countPacket + source saddr) := by
  cases counted : countedSource env packet.frame with
  | none =>
      obtain ⟨result, stopped⟩ := execution_ignored env packet counted
      rw [stopped]
      rfl
  | some saddr =>
      rw [execution_counted env packet saddr counted]
      refine performs_weightless (others _ rfl) fun w found _ action => ?_
      have present : found = true := by
        rw [action.1]
        exact congrArg Option.isSome (Slots.lookup_zero w.state.data)
      rw [if_pos present]
      refine performs_bind (recordPacket_performs others) fun _ => ?_
      refine performs_bind (n := 0) (recordSource_performs others saddr _ (counting saddr)
        (inserting saddr)) fun _ => performs_weightless (others _ rfl) fun w found _ action => ?_
      have present : found = true := by
        rw [action.1]
        exact congrArg Option.isSome (Slots.lookup_zero w.state.locTs)
      rw [if_pos present]
      exact consultClock_performs others env packet

end Performs

/-! ### One execution after another -/

theorem run_state {α : Type} (target : Target) (p : Execution α) (w : World) :
    (p.run (World.exec target) w).1 = (p.run (exec target) w.state).1 ∧
      (p.run (World.exec target) w).2.state = (p.run (exec target) w.state).2 := by
  induction p generalizing w with
  | done result => exact ⟨rfl, rfl⟩
  | perform op next ih => exact ih _ (w.exec target op).2

/-- The verdict of every packet handled one at a time, with the addresses its rollover flags. -/
def outcomes (env : Env) : State → List Packet → List (XdpAction × List Addr)
  | _, [] => []
  | st, packet :: rest =>
      ((xdpFilterFunc env st packet).action,
          ((xdpFilterFunc env st packet).rollover.map Rollover.flagged).getD []) ::
        outcomes env (xdpFilterFunc env st packet).state rest

section Serial

variable {ι : Type} [DecidableEq ι] (env : Env) (packet : ι → Packet)

/-- One execution run to its end from a world, in a pool of others. -/
theorem execution_serially (pool : Executions ι) (i : ι) (n : Nat)
    (fresh : pool.thread i = xdpFilterExecution env (packet i))
    (stopped : ((pool.schedule (World.exec env.target) (List.replicate n i)).thread i).pending =
      none) :
    (pool.schedule (World.exec env.target) (List.replicate n i)).shared.state =
        (xdpFilterFunc env pool.shared.state (packet i)).state ∧
      (pool.schedule (World.exec env.target) (List.replicate n i)).thread i =
        .done ((xdpFilterFunc env pool.shared.state (packet i)).action,
          ((xdpFilterFunc env pool.shared.state (packet i)).rollover.map Rollover.flagged).getD
            []) := by
  obtain ⟨shared, thread⟩ := Pool.schedule_replicate pool i n stopped
  have projected := run_state env.target (xdpFilterExecution env (packet i)) pool.shared
  rw [execution_alone env (packet i) pool.shared.state] at projected
  rw [shared, thread, fresh]
  exact ⟨projected.2, congrArg Program.done projected.1⟩

theorem serially_outcomes (turns : List (ι × Nat)) (distinct : (turns.map Prod.fst).Nodup)
    (pool : Executions ι)
    (fresh : ∀ i ∈ turns.map Prod.fst, pool.thread i = xdpFilterExecution env (packet i))
    (stopped : ∀ i ∈ turns.map Prod.fst,
      ((pool.serially (World.exec env.target) turns).thread i).pending = none) :
    (pool.serially (World.exec env.target) turns).shared.state =
        run env pool.shared.state (turns.map fun turn => packet turn.1) ∧
      turns.map (fun turn =>
          ((pool.serially (World.exec env.target) turns).thread turn.1).result) =
        (outcomes env pool.shared.state (turns.map fun turn => packet turn.1)).map some := by
  induction turns generalizing pool with
  | nil => exact ⟨rfl, rfl⟩
  | cons turn rest ih =>
      rw [List.map_cons, List.nodup_cons] at distinct
      let next := pool.schedule (World.exec env.target) (List.replicate turn.2 turn.1)
      have split : pool.serially (World.exec env.target) (turn :: rest) =
          next.serially (World.exec env.target) rest := Pool.serially_cons pool turn rest
      have kept : ∀ i, i ≠ turn.1 → next.thread i = pool.thread i := fun i other =>
        Pool.schedule_of_notMem pool _ i fun member => other (List.eq_of_mem_replicate member)
      have own : (next.serially (World.exec env.target) rest).thread turn.1 =
          next.thread turn.1 := by
        refine Pool.schedule_of_notMem next _ turn.1 fun member => ?_
        obtain ⟨later, inside, copy⟩ := List.mem_flatMap.mp member
        exact distinct.1 (List.mem_map.mpr ⟨later, inside, (List.eq_of_mem_replicate copy).symm⟩)
      rw [split] at stopped ⊢
      have ended : (next.thread turn.1).pending = none := by
        rw [← own]
        exact stopped turn.1 List.mem_cons_self
      obtain ⟨state, result⟩ := execution_serially env packet pool turn.1 turn.2
        (fresh turn.1 List.mem_cons_self) ended
      obtain ⟨states, results⟩ := ih distinct.2 next
        (by
          intro i member
          have other : i ≠ turn.1 := fun same => distinct.1 (same ▸ member)
          exact (kept i other).trans (fresh i (List.mem_cons_of_mem _ member)))
        (fun i member => stopped i (List.mem_cons_of_mem _ member))
      have ran : next.shared.state = (xdpFilterFunc env pool.shared.state (packet turn.1)).state :=
        state
      rw [ran] at states results
      refine ⟨states, ?_⟩
      rw [List.map_cons, results, own, List.map_cons, outcomes, List.map_cons]
      exact congrArg₂ List.cons (congrArg Program.result result) rfl

/-- Enough operations for each execution of an order. -/
theorem exists_serially (order : List ι) (distinct : order.Nodup) (pool : Executions ι) :
    ∃ turns : List (ι × Nat), turns.map Prod.fst = order ∧
      ∀ i ∈ order, ((pool.serially (World.exec env.target) turns).thread i).pending = none := by
  induction order generalizing pool with
  | nil => exact ⟨[], rfl, by simp⟩
  | cons i rest ih =>
      rw [List.nodup_cons] at distinct
      obtain ⟨n, stopped⟩ : ∃ n, ((pool.schedule (World.exec env.target)
          (List.replicate n i)).thread i).pending = none := Pool.exists_replicate pool i
      obtain ⟨turns, order, later⟩ := ih distinct.2
        (pool.schedule (World.exec env.target) (List.replicate n i))
      refine ⟨(i, n) :: turns, by rw [List.map_cons, order], ?_⟩
      rw [Pool.serially_cons]
      intro j member
      rcases List.mem_cons.mp member with rfl | inside
      · let next := pool.schedule (World.exec env.target) (List.replicate n j)
        have own : (next.serially (World.exec env.target) turns).thread j = next.thread j := by
          refine Pool.schedule_of_notMem next _ j fun member => ?_
          obtain ⟨turn, inside, copy⟩ := List.mem_flatMap.mp member
          rw [← order] at distinct
          exact distinct.1 (List.mem_map.mpr ⟨turn, inside, (List.eq_of_mem_replicate copy).symm⟩)
        exact (congrArg Program.pending own).trans stopped
      · exact later j inside

/-- Executions that run one after another, each to its end, leave the state, give the verdicts and
flag the addresses of the packets handled one at a time; and given enough operations, every one
comes to its end. -/
theorem serial_executions (st : State) :
    (∀ turns : List (ι × Nat), (turns.map Prod.fst).Nodup →
      (∀ i ∈ turns.map Prod.fst, (((starting env packet st).serially (World.exec env.target)
        turns).thread i).pending = none) →
      ((starting env packet st).serially (World.exec env.target) turns).shared.state =
          run env st (turns.map fun turn => packet turn.1) ∧
        turns.map (fun turn => (((starting env packet st).serially (World.exec env.target)
            turns).thread turn.1).result) =
          (outcomes env st (turns.map fun turn => packet turn.1)).map some) ∧
    ∀ order : List ι, order.Nodup → ∃ turns : List (ι × Nat), turns.map Prod.fst = order ∧
      ∀ i ∈ order, (((starting env packet st).serially (World.exec env.target)
        turns).thread i).pending = none :=
  ⟨fun turns distinct stopped =>
      serially_outcomes env packet turns distinct (starting env packet st) (fun _ _ => rfl) stopped,
    fun order distinct => exists_serially env order distinct (starting env packet st)⟩

end Serial

/-- Two packets an interval apart, the second of which rolls over. -/
theorem serial_packets :
    let packet := ![packetAt 1 2000000000, packetAt 2 4000000000]
    let pool := (starting bareEnv packet initialised).serially (World.exec masking)
      [(0, 9), (1, 42)]
    pool.shared.state = run bareEnv initialised [packet 0, packet 1] ∧
      pool.shared.state.data.value.prevIntervalPkt = 2 := by
  intro packet pool
  have stopped : ∀ i : Fin 2, (pool.thread i).pending = none := by decide +kernel
  have serial := (serial_executions bareEnv packet initialised).1 [(0, 9), (1, 42)] (by decide)
    fun i _ => stopped i
  have closed : pool.shared.state.data.value.prevIntervalPkt = 2 := by decide +kernel
  exact ⟨serial.1, closed⟩

end Fide.Kernel
