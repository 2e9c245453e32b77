import Fide.KernelPool
import Fide.TimestampProtocol

/-! The whole program refines the protocol of the interval clock.

Whatever the executions of the program do between them, the timestamp and the executions that have
consulted it move as the protocol says; so rollovers that are under way at the same time belong to
times more than an interval apart. -/

namespace Fide.Kernel

open Words FixedPoint Program

/-- The accesses to `loc_ts`. -/
def clocks : Op → Bool
  | .readTimestamp | .locked _ => true
  | _ => false

/-- The accesses that only a rollover makes. -/
def rolls : Op → Bool
  | .copyData | .traverse _ | .readEntry _ | .storeEntropy _ _ | .addEntropy _ | .countEntropy
  | .readCount | .setAvg _ | .readEntropy _ | .subtractAvg _ | .readCur _ | .deleteEntry _
  | .movePrev _ _ | .zeroEntry _ | .setPrevInterval _ | .zeroCounter | .resetBits | .resetCount
  | .resetEntropyAll => true
  | _ => false

def clocksOrRolls (op : Op) : Bool := clocks op || rolls op

/-- An execution in its rollover: past the clock, and not yet past the accesses only a rollover
makes. -/
def Rolling {α : Type} (p : Execution α) : Prop := p.Avoids clocks ∧ ¬ p.Avoids rolls

section Phases

variable {α : Type} (ts : I64)

/-- About to enter the locked section; only an execution that it lets through makes a rollover. -/
def Waits (p : Execution α) : Prop :=
  ∃ next : Bool → Execution α, p = .perform (.locked ts) next ∧
    (∀ body, (next body).Avoids clocks) ∧ (next false).Avoids clocksOrRolls

/-- On its way to the clock, or out of the program without it. -/
inductive Starts : Execution α → Prop
  | done (result : α) : Starts (.done result)
  | other (op : Op) (next : Answer op → Execution α) (apart : clocksOrRolls op = false)
      (rest : ∀ answer, Starts (next answer)) : Starts (.perform op next)
  | read (next : I64 → Execution α)
      (late : ∀ timestamp, due ts timestamp = true → Waits ts (next timestamp))
      (early : ∀ timestamp, due ts timestamp = false → (next timestamp).Avoids clocksOrRolls) :
      Starts (.perform .readTimestamp next)

def Follows (p : Execution α) : Phase → Prop
  | .started => Starts ts p
  | .waiting => Waits ts p
  | .finished true => p.Avoids clocks
  | .finished false => p.Avoids clocksOrRolls

variable {ts}

/-- An access of the rollover is pending only past the clock. -/
theorem Follows.past {p : Execution α} {phase : Phase} (follows : Follows ts p phase) {op : Op}
    (pending : p.pending = some op) (body : rolls op = true) : p.Avoids clocks := by
  have inside : clocksOrRolls op = true := by rw [clocksOrRolls, body, Bool.or_true]
  cases phase with
  | started =>
      cases follows with
      | done result => cases pending
      | other first _ apart _ =>
          cases pending
          rw [inside] at apart
          cases apart
      | read _ _ _ =>
          cases pending
          cases body
  | waiting =>
      obtain ⟨next, rfl, -⟩ := follows
      cases pending
      cases body
  | finished done =>
      cases done with
      | true => exact follows
      | false =>
          have apart := Avoids.pending follows pending
          rw [inside] at apart
          cases apart

/-- Short of the clock there is no rollover. -/
theorem Starts.avoids_rolls {p : Execution α} (starts : Starts ts p) (past : p.Avoids clocks) :
    p.Avoids rolls := by
  induction starts with
  | done result => trivial
  | other op next apart rest ih =>
      exact ⟨(Bool.or_eq_false_iff.mp apart).2, fun answer => ih answer (past.2 answer)⟩
  | read next late early => cases past.1

theorem starts_bind {β : Type} {p : Execution β} {rest : β → Execution α}
    (first : p.Avoids clocksOrRolls) (second : ∀ result, Starts ts (rest result)) :
    Starts ts (p.bind rest) := by
  induction p with
  | done result => exact second result
  | perform op next ih => exact .other op _ first.1 fun answer => ih answer (first.2 answer)

end Phases

/-! ### The phases of an execution -/

theorem rolloverBody_avoids (target : Target) (packet : Packet) :
    (rolloverBody target packet).Avoids clocks := by
  have closing : ∀ key (flagged : List Addr), (closeEntry key flagged).Avoids clocks :=
    fun key flagged => ⟨rfl, fun _ => ⟨rfl, fun _ => ⟨rfl, fun _ => trivial⟩⟩⟩
  refine ⟨rfl, fun tmp => ⟨rfl, fun listed => ?_⟩⟩
  refine avoids_bind (avoids_forEach ?_ _ _) fun _ => ⟨rfl, fun n => ⟨rfl, fun intBits =>
    ⟨rfl, fun _ => ⟨rfl, fun listed => avoids_bind (avoids_forEach ?_ _ _) ?_⟩⟩⟩⟩
  · intro _ key
    refine ⟨rfl, fun (present : Bool) => ?_⟩
    cases present with
    | false => trivial
    | true => exact ⟨rfl, fun _ => ⟨rfl, fun _ => ⟨rfl, fun _ => ⟨rfl, fun _ => trivial⟩⟩⟩⟩
  · intro flagged key
    refine ⟨rfl, fun (present : Bool) => ?_⟩
    cases present with
    | false => trivial
    | true =>
        refine ⟨rfl, fun entropy => ?_⟩
        beta_reduce
        split
        · exact closing key flagged
        · refine ⟨rfl, fun diff => ⟨rfl, fun cur => ?_⟩⟩
          beta_reduce
          split
          · exact ⟨rfl, fun _ => trivial⟩
          · exact closing key _
  · intro flagged
    exact ⟨rfl, fun _ => ⟨rfl, fun _ => ⟨rfl, fun _ => ⟨rfl, fun _ => ⟨rfl, fun _ =>
      ⟨rfl, fun _ => trivial⟩⟩⟩⟩⟩⟩

theorem consultClock_starts (env : Env) (packet : Packet) :
    Starts packet.ts (consultClock env packet) := by
  refine .read _ ?_ ?_
  · intro timestamp late
    rw [if_pos late]
    refine ⟨_, rfl, ?_, trivial⟩
    intro body
    cases body with
    | false => trivial
    | true => exact avoids_bind (rolloverBody_avoids env.target packet) fun _ => trivial
  · intro timestamp early
    rw [if_neg (by simp [early])]
    trivial

theorem recordPacket_avoids (target : Target) : (recordPacket target).Avoids clocksOrRolls := by
  refine ⟨rfl, fun _ => ⟨rfl, fun packets => ⟨rfl, fun intBits => ?_⟩⟩⟩
  beta_reduce
  split
  · exact ⟨rfl, fun _ => trivial⟩
  · trivial

theorem recordSource_avoids (saddr : Addr) : (recordSource saddr).Avoids clocksOrRolls := by
  refine ⟨rfl, fun (found : Bool) => ?_⟩
  cases found with
  | false => exact ⟨rfl, fun _ => trivial⟩
  | true => exact ⟨rfl, fun _ => trivial⟩

theorem execution_starts (env : Env) (packet : Packet) :
    Starts packet.ts (xdpFilterExecution env packet) := by
  cases counted : countedSource env packet.frame with
  | none =>
      obtain ⟨result, stopped⟩ := execution_ignored env packet counted
      rw [stopped]
      exact .done result
  | some saddr =>
      rw [execution_counted env packet saddr counted]
      refine .other _ _ rfl fun (found : Bool) => ?_
      cases found with
      | false => exact .done _
      | true =>
          refine starts_bind (recordPacket_avoids env.target) fun _ =>
            starts_bind (recordSource_avoids saddr) fun _ => .other _ _ rfl fun (found : Bool) => ?_
          cases found with
          | false => exact .done _
          | true => exact consultClock_starts env packet

/-! ### The simulation -/

theorem timestamp_kept (target : Target) (op : Op) (st : State) (apart : clocks op = false) :
    (exec target op st).2.locTs = st.locTs := by
  cases op with
  | locked time => cases apart
  | _ => rfl

section Simulation

variable {ι : Type} [DecidableEq ι] (ts : ι → I64)

/-- The clock has the timestamp, and every execution is in its phase. -/
def Simulates (pool : Executions ι) (clock : Clock ι) : Prop :=
  clock.timestamp = pool.shared.state.locTs.value ∧
    ∀ i, Follows (ts i) (pool.thread i) (clock.phase i)

variable {ts} {clash : Op → Op → Bool} {target : Target}

/-- An execution moves on within its phase. -/
theorem Simulates.stutter {pool : Executions ι} {clock : Clock ι} (related : Simulates ts pool clock)
    (i : ι) (op : Op) (answer : Answer op) (next : Answer op → Execution (XdpAction × List Addr))
    (apart : clocks op = false) (follows : Follows (ts i) (next answer) (clock.phase i)) :
    Simulates ts ⟨(pool.shared.exec target op).2, Function.update pool.thread i (next answer)⟩
      clock := by
  refine ⟨?_, ?_⟩
  · rw [related.1]
    exact congrArg Slots.value (timestamp_kept target op pool.shared.state apart).symm
  · intro j
    by_cases same : j = i
    · subst same
      simpa using follows
    · simpa [same] using related.2 j

/-- An execution moves on to its next phase. -/
theorem Simulates.advance {pool : Executions ι} {clock : Clock ι} (related : Simulates ts pool clock)
    (i : ι) (shared : World) (thread : Execution (XdpAction × List Addr)) (clock' : Clock ι)
    (phase : Phase) (phases : clock'.phase = Function.update clock.phase i phase)
    (timestamp : clock'.timestamp = shared.state.locTs.value)
    (follows : Follows (ts i) thread phase) :
    Simulates ts ⟨shared, Function.update pool.thread i thread⟩ clock' := by
  refine ⟨timestamp, ?_⟩
  intro j
  rw [phases]
  by_cases same : j = i
  · subst same
    simpa using follows
  · simpa [same] using related.2 j

theorem Simulates.step {pool pool' : Executions ι} {clock : Clock ι}
    (related : Simulates ts pool clock) (step : pool.Step (acts target) clash pool') :
    ∃ clock', Relation.ReflTransGen (ClockStep ts) clock clock' ∧ Simulates ts pool' clock' := by
  cases step with
  | perform i op next answer w pending action quiet =>
      obtain ⟨answered, rfl⟩ := action
      have follows := related.2 i
      rw [pending] at follows
      cases phase : clock.phase i with
      | started =>
          rw [phase] at follows
          cases follows with
          | other _ _ apart rest =>
              have quiet : clocks op = false := (Bool.or_eq_false_iff.mp apart).1
              refine ⟨clock, .refl, related.stutter i op answer next quiet ?_⟩
              rw [phase]
              exact rest answer
          | read _ late early =>
              have read : answer = clock.timestamp := Eq.trans answered related.1.symm
              refine ⟨clock.read ts i, .single (.read clock i phase), ?_⟩
              refine related.advance i _ _ _ _ rfl related.1 ?_
              rw [read]
              cases decision : due (ts i) clock.timestamp with
              | true => exact late _ decision
              | false => exact early _ decision
      | waiting =>
          rw [phase] at follows
          obtain ⟨_, same, past, stopped⟩ := follows
          cases same
          have decided : answer = (lockedSection (ts i) clock.timestamp).2 := by
            rw [related.1]
            exact answered
          refine ⟨clock.lock ts i, .single (.lock clock i phase), ?_⟩
          refine related.advance i _ _ _ (.finished (lockedSection (ts i) clock.timestamp).2) rfl
            ?_ ?_
          · rw [Clock.lock, related.1]
            exact (Slots.value_update_zero _ _).symm
          · rw [decided]
            cases (lockedSection (ts i) clock.timestamp).2 with
            | true => exact past true
            | false => exact stopped
      | finished body =>
          rw [phase] at follows
          cases body with
          | true =>
              refine ⟨clock, .refl, related.stutter i op answer next follows.1 ?_⟩
              rw [phase]
              exact follows.2 answer
          | false =>
              have quiet : clocks op = false := (Bool.or_eq_false_iff.mp follows.1).1
              refine ⟨clock, .refl, related.stutter i op answer next quiet ?_⟩
              rw [phase]
              exact follows.2 answer

theorem simulates_reaches {pool pool' : Executions ι} {clock : Clock ι}
    (related : Simulates ts pool clock) (reached : pool.Reaches (acts target) clash pool') :
    ∃ clock', Relation.ReflTransGen (ClockStep ts) clock clock' ∧ Simulates ts pool' clock' := by
  induction reached with
  | refl => exact ⟨clock, .refl, related⟩
  | tail _ step ih =>
      obtain ⟨middle, before, there⟩ := ih
      obtain ⟨clock', after, related'⟩ := there.step step
      exact ⟨clock', before.trans after, related'⟩

omit [DecidableEq ι] in
/-- A rollover is made only by an execution that the locked section has let through. -/
theorem Simulates.rolling {pool : Executions ι} {clock : Clock ι} (related : Simulates ts pool clock)
    (i : ι) (body : Rolling (pool.thread i)) : clock.phase i = .finished true := by
  obtain ⟨past, ahead⟩ := body
  have follows := related.2 i
  cases phase : clock.phase i with
  | started =>
      rw [phase] at follows
      exact absurd (Starts.avoids_rolls follows past) ahead
  | waiting =>
      rw [phase] at follows
      obtain ⟨next, same, -⟩ := follows
      rw [same] at past
      cases past.1
  | finished body =>
      rw [phase] at follows
      cases body with
      | true => rfl
      | false =>
          exact absurd (Avoids.mono follows fun op apart => (Bool.or_eq_false_iff.mp apart).2) ahead

omit [DecidableEq ι] in
/-- An execution about to make an access of the rollover is in it. -/
theorem Simulates.rolling_of_pending {pool : Executions ι} {clock : Clock ι}
    (related : Simulates ts pool clock) (i : ι)
    (body : (pool.thread i).pending.any rolls = true) : Rolling (pool.thread i) := by
  obtain ⟨op, pending, body⟩ := Option.any_eq_true _ _ |>.mp body
  refine ⟨(related.2 i).past pending body, ?_⟩
  intro avoids
  have never := avoids.pending pending
  rw [body] at never
  cases never

end Simulation

theorem starting_simulates {ι : Type} [DecidableEq ι] (env : Env) (packet : ι → Packet) (st : State)
    (unset : st.locTs.value = 0) :
    Simulates (fun i => (packet i).ts) (starting env packet st) (Clock.initial ι) :=
  ⟨unset.symm, fun i => execution_starts env (packet i)⟩

/-- In every interleaving of any number of executions, two that are in their rollovers at the same
time have times more than an interval apart. -/
theorem concurrent_rollovers_apart {ι : Type} [DecidableEq ι] (env : Env) (packet : ι → Packet)
    (st : State) (unset : st.locTs.value = 0) (range : ∀ i, NoOverflow (packet i).ts)
    (clash : Op → Op → Bool) (pool : Executions ι)
    (reached : (starting env packet st).Reaches (acts env.target) clash pool) (i j : ι)
    (different : i ≠ j) (left : Rolling (pool.thread i)) (right : Rolling (pool.thread j)) :
    Apart (packet i).ts (packet j).ts ∨ Apart (packet j).ts (packet i).ts := by
  obtain ⟨clock, run, related⟩ := simulates_reaches (starting_simulates env packet st unset) reached
  have inv := clockInv_reachable range run
  let far : ι → ι → Prop := fun a b => a = b ∨ Apart (packet a).ts (packet b).ts ∨
    Apart (packet b).ts (packet a).ts
  have mirrored : Std.Symm far := by
    refine ⟨?_⟩
    rintro a b (same | before | after)
    · exact .inl same.symm
    · exact .inr (.inr before)
    · exact .inr (.inl after)
  have chain : clock.writers.Pairwise far := inv.chain.imp fun apart => .inr (.inr apart)
  have distance := chain.forall_of_forall (fun _ _ => .inl rfl)
    (inv.body i (related.rolling i left)) (inv.body j (related.rolling j right))
  exact distance.resolve_left different

/-- Three packets two seconds apart: the first one sets the clock, the others are in their
rollovers. -/
def twoRollovers : Executions (Fin 3) :=
  (starting bareEnv ![packetAt 1 2000000000, packetAt 1 4000000000, packetAt 2 6000000000]
    initialised).schedule (World.exec masking)
      (List.replicate 9 0 ++ List.replicate 9 1 ++ List.replicate 9 2)

theorem two_rollovers_apart :
    Apart (packetAt 1 4000000000).ts (packetAt 2 6000000000).ts ∨
      Apart (packetAt 2 6000000000).ts (packetAt 1 4000000000).ts := by
  have range : ∀ i : Fin 3, NoOverflow
      ((![packetAt 1 2000000000, packetAt 1 4000000000, packetAt 2 6000000000] : Fin 3 → Packet)
        i).ts := by
    intro i
    fin_cases i <;> (unfold NoOverflow; decide)
  have reached : (starting bareEnv ![packetAt 1 2000000000, packetAt 1 4000000000,
      packetAt 2 6000000000] initialised).Reaches (acts masking) (fun _ _ => false) twoRollovers :=
    Pool.schedule_reaches (acts_exec masking) _ _ (by decide +kernel)
  obtain ⟨clock, -, related⟩ := simulates_reaches (starting_simulates bareEnv _ initialised rfl)
    reached
  exact concurrent_rollovers_apart bareEnv _ initialised rfl range _ twoRollovers reached 1 2
    (by decide) (related.rolling_of_pending 1 (by decide +kernel))
    (related.rolling_of_pending 2 (by decide +kernel))

end Fide.Kernel
