import Fide.KernelPool

/-! No packet is lost or doubled among concurrent executions of the in-kernel program, as long as
no access falls into the middle of a closing.

All sums are of 32-bit counters and wrap with them. -/

namespace Fide.Kernel

open Words FixedPoint Program

/-! ### The interval counter -/

def World.counter (w : World) : I32 := w.state.data.value.curIntervalPkt

/-- The closing of an interval finds the counter as it has read it, and zeroes what it has stored
as the previous count. -/
def dataPre : Op → World → Prop
  | .setPrevInterval n, w => w.counter = n
  | .zeroCounter, w => w.state.data.value.prevIntervalPkt = w.counter
  | _, _ => True

/-- A packet is counted, or the counter zeroed, between the reading of the counter and its
zeroing. -/
def dataClash : Op → Op → Bool
  | .setPrevInterval _, .countPacket | .setPrevInterval _, .zeroCounter
  | .zeroCounter, .countPacket | .zeroCounter, .zeroCounter => true
  | _, _ => false

/-- The packets counted since a start with the given count are in the counts stored and in the
counter. -/
def DataBalanced (base : I32) (w : World) : Prop := (w.counted : I32) + base = w.closed + w.counter

section Data

variable {target : Target}

theorem counter_kept (op : Op) (w : World) (counts : op ≠ .countPacket) (zeroes : op ≠ .zeroCounter) :
    (w.exec target op).2.counter = w.counter := by
  cases op <;>
    simp_all [World.exec, World.counter, exec, State.setData, State.modify]

theorem previous_kept (op : Op) (w : World) (stores : ∀ n, op ≠ .setPrevInterval n) :
    (w.exec target op).2.state.data.value.prevIntervalPkt = w.state.data.value.prevIntervalPkt := by
  cases op <;>
    simp_all [World.exec, exec, State.setData, State.modify]

theorem tallies_kept (op : Op) (w : World) (counts : op ≠ .countPacket) (zeroes : op ≠ .zeroCounter) :
    (w.exec target op).2.counted = w.counted ∧ (w.exec target op).2.closed = w.closed := by
  cases op <;> simp_all [World.exec, World.tally]
  split <;> exact ⟨rfl, rfl⟩

theorem dataBalanced_step (base : I32) (op : Op) (w : World) (answer : Answer op) (w' : World)
    (balanced : DataBalanced base w) (ready : dataPre op w) (action : acts target op w answer w') :
    DataBalanced base w' := by
  obtain ⟨-, rfl⟩ := action
  by_cases counts : op = .countPacket
  · subst counts
    have counter : (w.exec target .countPacket).2.counter = w.counter + 1 := by
      simp [World.exec, exec, State.setData, World.counter]
    have counted : (w.exec target .countPacket).2.counted = w.counted + 1 := rfl
    have closed : (w.exec target .countPacket).2.closed = w.closed := rfl
    rw [DataBalanced, counter, counted, closed, Nat.cast_add, Nat.cast_one, add_right_comm, balanced]
    ring
  · by_cases zeroes : op = .zeroCounter
    · subst zeroes
      have counter : (w.exec target .zeroCounter).2.counter = 0 := by
        simp [World.exec, exec, State.setData, World.counter]
      have counted : (w.exec target .zeroCounter).2.counted = w.counted := rfl
      have closed : (w.exec target .zeroCounter).2.closed =
          w.closed + w.state.data.value.prevIntervalPkt := rfl
      have stored : w.state.data.value.prevIntervalPkt = w.counter := ready
      rw [DataBalanced, counter, counted, closed, stored, balanced, add_zero]
    · obtain ⟨counted, closed⟩ : (w.exec target op).2.counted = w.counted ∧
          (w.exec target op).2.closed = w.closed := tallies_kept op w counts zeroes
      rw [DataBalanced, counted, closed, counter_kept op w counts zeroes]
      exact balanced

theorem counter_between (op : Op) (w w' : World)
    (between : Between (acts target) dataPre dataClash op w w')
    (closing : op = .zeroCounter ∨ ∃ n, op = .setPrevInterval n) : w'.counter = w.counter := by
  obtain ⟨other, answer, quiet, -, -, rfl⟩ := between
  apply counter_kept
  · rintro rfl
    rcases closing with rfl | ⟨n, rfl⟩ <;> cases quiet
  · rintro rfl
    rcases closing with rfl | ⟨n, rfl⟩ <;> cases quiet

/-- Another closing may store the count too: it is the same one. -/
theorem stored_between (w w' : World) (stored : w.state.data.value.prevIntervalPkt = w.counter)
    (between : Between (acts target) dataPre dataClash .zeroCounter w w') :
    w'.state.data.value.prevIntervalPkt = w'.counter := by
  rw [counter_between _ w w' between (.inl rfl)]
  obtain ⟨other, answer, quiet, ready, -, rfl⟩ := between
  by_cases stores : ∃ n, other = .setPrevInterval n
  · obtain ⟨n, rfl⟩ := stores
    have same : w.counter = n := ready
    simp [World.exec, exec, State.setData, same]
  · rw [previous_kept other w (fun n same => stores ⟨n, same⟩)]
    exact stored

theorem startInterval_dataMeets (flagged : List Addr) (w : World) :
    (startInterval flagged).Meets (acts target) dataPre dataClash w := by
  refine meets_perform (fun _ => True) trivial (fun _ _ _ _ => trivial) (fun _ _ => trivial) ?_
  intro w packets w' _ action
  obtain ⟨read, rfl⟩ := action
  refine meets_perform (fun w => w.counter = packets) read.symm ?_ (fun _ same => same) ?_
  · intro w w' same between
    rw [counter_between _ w w' between (.inr ⟨packets, rfl⟩)]
    exact same
  intro w answer w' same action
  obtain ⟨-, rfl⟩ := action
  refine meets_perform (fun w => w.state.data.value.prevIntervalPkt = w.counter) ?_
    (fun w w' => stored_between w w') (fun _ stored => stored) ?_
  · rw [counter_kept _ w (by simp) (by simp), same]
    simp [World.exec, exec, State.setData]
  intro w answer w' _ _
  exact meets_free (fun _ => trivial) (fun _ => meets_free (fun _ => trivial) fun _ =>
    meets_free (fun _ => trivial) fun _ => meets_done flagged) w'

theorem closeEntry_dataMeets (key : Addr) (flagged : List Addr) (w : World) :
    (closeEntry key flagged).Meets (acts target) dataPre dataClash w :=
  meets_free (fun _ => trivial) (fun _ => meets_free (fun _ => trivial) fun _ =>
    meets_free (fun _ => trivial) fun _ => meets_done flagged) w

theorem execution_dataMeets (env : Env) (packet : Packet) (w : World) :
    (xdpFilterExecution env packet).Meets (acts env.target) dataPre dataClash w := by
  have free : ∀ op, relies op = false → ∀ w, dataPre op w := by
    intro op quiet w
    cases op <;> trivial
  refine execution_meets free ?_ ?_ startInterval_dataMeets env rfl packet w
  · intro saddr
    refine meets_free (fun _ => trivial) fun found w => ?_
    split <;> exact meets_free (fun _ => trivial) (fun _ => meets_done ()) w
  · intro tmp flagged key
    refine meets_free (fun _ => trivial) fun entropy w => ?_
    split
    · exact closeEntry_dataMeets key flagged w
    · refine meets_free (fun _ => trivial) (fun diff => meets_free (fun _ => trivial) fun cur w => ?_)
        w
      split
      · exact meets_free (fun _ => trivial) (fun _ => meets_done _) w
      · exact closeEntry_dataMeets key _ w

def dataWeight : Op → Nat
  | .countPacket => 1
  | _ => 0

theorem counted_step (op : Op) (w : World) (answer : Answer op) (w' : World)
    (action : acts target op w answer w') : w'.counted = w.counted + dataWeight op := by
  obtain ⟨-, rfl⟩ := action
  by_cases counts : op = .countPacket
  · subst counts
    rfl
  · by_cases zeroes : op = .zeroCounter
    · subst zeroes
      rfl
    · rw [(tallies_kept op w counts zeroes).1]
      cases op <;> first | rfl | exact absurd rfl counts

end Data

/-- In every interleaving of any number of executions in which no packet is counted, and no counter
zeroed, in the middle of another closing: the packets counted are those in the counts stored and in
the counter, and once all executions have finished every packet of a counted source is counted. -/
theorem interval_counts_conserved {ι : Type} [Fintype ι] [DecidableEq ι] (env : Env)
    (packet : ι → Packet) (st : State) (pool : Executions ι)
    (reached : (starting env packet st).Reaches (acts env.target) dataClash pool) :
    (pool.shared.counted : I32) + st.data.value.curIntervalPkt =
      pool.shared.closed + pool.shared.state.data.value.curIntervalPkt ∧
    (pool.Finished → pool.shared.counted =
      (Finset.univ.filter fun i => (countedSource env (packet i).frame).isSome).card) := by
  constructor
  · refine Pool.reaches_invariant (DataBalanced st.data.value.curIntervalPkt) (dataBalanced_step _)
      (fun i => execution_dataMeets env (packet i) _) ?_ reached
    rw [DataBalanced]
    rfl
  · intro finished
    have others : ∀ op, records op = false → dataWeight op = 0 := by
      intro op quiet
      cases op <;> first | rfl | cases quiet
    have performs := fun i => execution_performs others (fun _ => 0) (fun _ => rfl) (fun _ => rfl)
      env (packet i)
    have all := Pool.finished_weight World.counted counted_step _ performs reached finished
    rw [all, Finset.card_filter]
    have none : (starting env packet st).shared.counted = 0 := rfl
    rw [none, Nat.zero_add]
    refine Finset.sum_congr rfl fun i _ => ?_
    cases countedSource env (packet i).frame <;> rfl

/-- Two packets of one source, the first of them due. -/
def twoPackets : Executions (Fin 2) :=
  starting bareEnv ![packetAt 1 2000000000, packetAt 1 5] { initialised with locTs := .single 1 }

/-- The second packet is counted while the first one looks at the clock, and recorded while it
computes entropies. -/
def overlap : List (Fin 2) :=
  List.replicate 8 0 ++ List.replicate 4 1 ++ List.replicate 8 0 ++ List.replicate 8 1 ++
    List.replicate 15 0

theorem overlap_finishes : (twoPackets.schedule (World.exec masking) overlap).Finished := by
  have stopped : ∀ i : Fin 2,
      ((twoPackets.schedule (World.exec masking) overlap).thread i).pending.isNone = true := by
    decide +kernel
  exact fun i => Option.isNone_iff_eq_none.mp (stopped i)

/-- Both packets end up in the interval that the first one closes. -/
theorem overlap_counted :
    (twoPackets.schedule (World.exec masking) overlap).shared.counted = 2 ∧
      (2 : I32) = (twoPackets.schedule (World.exec masking) overlap).shared.closed +
        (twoPackets.schedule (World.exec masking) overlap).shared.counter := by
  have conserved := interval_counts_conserved bareEnv _ _ _
    (Pool.schedule_reaches (acts_exec masking) twoPackets overlap (by decide +kernel))
  have all := conserved.2 overlap_finishes
  have two : (twoPackets.schedule (World.exec masking) overlap).shared.counted = 2 := by
    rw [all]
    decide +kernel
  refine ⟨two, ?_⟩
  have sum := conserved.1
  rw [two] at sum
  exact sum

/-- A packet counted between the reading of the counter and its zeroing is lost. -/
example :
    let late := twoPackets.schedule (World.exec masking)
      (List.replicate 26 0 ++ List.replicate 12 1 ++ List.replicate 5 0)
    late.shared.counted = 2 ∧ late.shared.closed + late.shared.counter = 1 := by
  decide +kernel

/-! ### The counts of one source -/

/-- The entry an access reaches through a pointer. -/
def pointsTo : Op → Option Addr
  | .countEntry key | .readEntry key | .storeEntropy key _ | .readEntropy key | .subtractAvg key
  | .readCur key | .deleteEntry key | .movePrev key _ | .zeroEntry key => some key
  | _ => none

/-- An entry is deleted while another execution holds a pointer to it. -/
def stale (pending : Op) : Op → Bool
  | .deleteEntry key => pointsTo pending = some key
  | _ => false

section Source

variable (a : Addr)

def inserts : Op → Bool
  | .insertEntry key => key = a
  | _ => false

/-- The accesses that change the current count of the source. -/
def changes : Op → Bool
  | .countEntry key | .insertEntry key | .zeroEntry key | .deleteEntry key => key = a
  | _ => false

def closes : Op → Bool
  | .movePrev key _ | .zeroEntry key | .deleteEntry key => key = a
  | _ => false

/-- An entry is deleted under a pointer to it, the count of the source changes in the middle of
its closing, or two executions insert an entry for it. -/
def sourceClash (pending op : Op) : Bool :=
  stale pending op || (closes a pending && changes a op) || (inserts a pending && inserts a op)

/-- An entry is counted if it is there and inserted if it is not; a closing finds the count as it
has read it. -/
def sourcePre : Op → World → Prop
  | .countEntry key, w => key = a → (w.state.logger.lookup a).isSome
  | .insertEntry key, w => key = a → w.state.logger.lookup a = none
  | .deleteEntry key, w => key = a → curOf w.state.logger a = 0
  | .movePrev key n, w => key = a → curOf w.state.logger a = n
  | .zeroEntry key, w => key = a → prevOf w.state.logger a = curOf w.state.logger a
  | _, _ => True

/-- The packets of the source recorded since a start with the given count are in the counts moved
and in its current count. -/
def SourceBalanced (base : I32) (w : World) : Prop :=
  (w.recorded a : I32) + base = w.moved a + curOf w.state.logger a

end Source

/-! #### Entries under accesses -/

section Entries

variable {a : Addr}

theorem lookup_modifyEntry (key : Addr) (change : LoggerValue → LoggerValue) (logger : Logger) :
    (modifyEntry key change logger).lookup a =
      if key = a then (logger.lookup a).map change else logger.lookup a := by
  unfold modifyEntry
  by_cases own : key = a
  · subst own
    rw [if_pos rfl]
    cases present : logger.lookup key with
    | none => simp only [present, Option.map_none]
    | some value => exact lookup_updated present _
  · rw [if_neg own]
    split
    · exact BoundedMap.lookup_update_of_ne _ _ _ _ (fun same => own same.symm)
    · rfl

theorem curOf_eq (logger : Logger) (key : Addr) :
    curOf logger key = (readThrough key logger).cur := by
  rw [readThrough, curOf, BoundedMap.valueAt]
  cases logger.lookup key <;> rfl

theorem prevOf_eq (logger : Logger) (key : Addr) :
    prevOf logger key = (readThrough key logger).prev := by
  rw [readThrough, prevOf, BoundedMap.valueAt]
  cases logger.lookup key <;> rfl

theorem isSome_modifyEntry (key : Addr) (change : LoggerValue → LoggerValue) (logger : Logger) :
    ((modifyEntry key change logger).lookup a).isSome = (logger.lookup a).isSome := by
  rw [lookup_modifyEntry]
  split
  · rw [Option.isSome_map]
  · rfl

theorem readThrough_congr {logger logger' : Logger} (same : logger.lookup a = logger'.lookup a) :
    readThrough a logger = readThrough a logger' := by
  rw [readThrough, readThrough, same]

theorem readThrough_update_of_ne (logger : Logger) (key : Addr) (value : LoggerValue)
    (other : key ≠ a) : readThrough a (logger.update key value) = readThrough a logger :=
  readThrough_congr (BoundedMap.lookup_update_of_ne _ _ _ _ other.symm)

theorem readThrough_delete_of_ne (logger : Logger) (key : Addr) (other : key ≠ a) :
    readThrough a (logger.delete key) = readThrough a logger :=
  readThrough_congr (BoundedMap.lookup_delete_of_ne _ _ _ other.symm)

theorem readThrough_modify_of_ne (logger : Logger) (key : Addr)
    (change : LoggerValue → LoggerValue) (other : key ≠ a) :
    readThrough a (modifyEntry key change logger) = readThrough a logger :=
  readThrough_congr (by rw [lookup_modifyEntry, if_neg other])

/-- A write through a pointer keeps a field it does not write. -/
theorem readThrough_modify {β : Type} (logger : Logger) (key : Addr)
    (change : LoggerValue → LoggerValue) (field : LoggerValue → β)
    (same : ∀ value, field (change value) = field value) :
    field (readThrough a (modifyEntry key change logger)) = field (readThrough a logger) := by
  rw [readThrough, lookup_modifyEntry, readThrough]
  split
  · cases logger.lookup a with
    | none => rfl
    | some value => exact same value
  · rfl

variable {target : Target}

theorem present_kept (op : Op) (st : State) (insert : inserts a op = false)
    (delete : op ≠ .deleteEntry a) :
    ((exec target op st).2.logger.lookup a).isSome = (st.logger.lookup a).isSome := by
  cases op with
  | countEntry key | storeEntropy key entropy | subtractAvg key | movePrev key n | zeroEntry key =>
      exact isSome_modifyEntry _ _ _
  | insertEntry key =>
      have other : a ≠ key := fun same => of_decide_eq_false insert same.symm
      exact congrArg _ (BoundedMap.lookup_update_of_ne _ _ _ _ other)
  | deleteEntry key =>
      have other : a ≠ key := fun same => delete (by rw [same])
      exact congrArg _ (BoundedMap.lookup_delete_of_ne _ _ _ other)
  | _ => rfl

theorem curOf_kept (op : Op) (st : State) (quiet : changes a op = false) :
    curOf (exec target op st).2.logger a = curOf st.logger a := by
  rw [curOf_eq, curOf_eq]
  cases op with
  | countEntry key | zeroEntry key =>
      exact congrArg _ (readThrough_modify_of_ne _ _ _ (of_decide_eq_false quiet))
  | insertEntry key => exact congrArg _ (readThrough_update_of_ne _ _ _ (of_decide_eq_false quiet))
  | deleteEntry key => exact congrArg _ (readThrough_delete_of_ne _ _ (of_decide_eq_false quiet))
  | storeEntropy key entropy | subtractAvg key | movePrev key n =>
      exact readThrough_modify _ _ _ LoggerValue.cur fun _ => rfl
  | _ => rfl

theorem prevOf_kept (op : Op) (st : State) (quiet : changes a op = false)
    (moves : ∀ n, op ≠ .movePrev a n) :
    prevOf (exec target op st).2.logger a = prevOf st.logger a := by
  rw [prevOf_eq, prevOf_eq]
  cases op with
  | countEntry key | zeroEntry key =>
      exact congrArg _ (readThrough_modify_of_ne _ _ _ (of_decide_eq_false quiet))
  | insertEntry key => exact congrArg _ (readThrough_update_of_ne _ _ _ (of_decide_eq_false quiet))
  | deleteEntry key => exact congrArg _ (readThrough_delete_of_ne _ _ (of_decide_eq_false quiet))
  | storeEntropy key entropy | subtractAvg key =>
      exact readThrough_modify _ _ _ LoggerValue.prev fun _ => rfl
  | movePrev key n =>
      exact congrArg _ (readThrough_modify_of_ne _ _ _ fun same => moves n (by rw [same]))
  | _ => rfl

theorem sourceTallies_kept (op : Op) (w : World) (quiet : changes a op = false) :
    (w.exec target op).2.recorded a = w.recorded a ∧
      (w.exec target op).2.refused a = w.refused a ∧
      (w.exec target op).2.moved a = w.moved a := by
  cases op with
  | countEntry key | zeroEntry key =>
      have other : a ≠ key := fun same => of_decide_eq_false quiet same.symm
      simp [World.exec, World.tally, other]
  | insertEntry key =>
      have other : a ≠ key := fun same => of_decide_eq_false quiet same.symm
      simp only [World.exec, World.tally]
      split <;> simp [other]
  | _ => exact ⟨rfl, rfl, rfl⟩

end Entries

section SourceSteps

variable {a : Addr} {target : Target}

theorem countEntry_balanced (base : I32) (w : World) (balanced : SourceBalanced a base w)
    (present : (w.state.logger.lookup a).isSome) :
    SourceBalanced a base (w.exec target (.countEntry a)).2 := by
  obtain ⟨value, found⟩ := Option.isSome_iff_exists.mp present
  have recorded : (w.exec target (.countEntry a)).2.recorded a = w.recorded a + 1 := by
    simp [World.exec, World.tally]
  have moved : (w.exec target (.countEntry a)).2.moved a = w.moved a := rfl
  have count : curOf (w.exec target (.countEntry a)).2.state.logger a =
      curOf w.state.logger a + 1 := by
    rw [curOf_eq, curOf_eq]
    change (readThrough a (modifyEntry a _ w.state.logger)).cur = _
    rw [modifyEntry_present found, readThrough_updated found, readThrough_present found]
  rw [SourceBalanced, recorded, moved, count, Nat.cast_add, Nat.cast_one, add_right_comm, balanced]
  ring

theorem insertEntry_balanced (base : I32) (w : World) (balanced : SourceBalanced a base w)
    (absent : w.state.logger.lookup a = none) :
    SourceBalanced a base (w.exec target (.insertEntry a)).2 := by
  have zero : curOf w.state.logger a = 0 := by
    rw [curOf_eq, readThrough, absent]
    rfl
  have before : (w.recorded a : I32) + base = w.moved a := by
    rw [balanced, zero, add_zero]
  cases accepted : w.state.logger.accepts a with
  | true =>
      have recorded : (w.exec target (.insertEntry a)).2.recorded a = w.recorded a + 1 := by
        simp [World.exec, World.tally, accepted]
      have moved : (w.exec target (.insertEntry a)).2.moved a = w.moved a := by
        simp [World.exec, World.tally, accepted]
      have count : curOf (w.exec target (.insertEntry a)).2.state.logger a = 1 := by
        rw [curOf_eq]
        change (readThrough a (w.state.logger.update a _)).cur = 1
        rw [readThrough_present (BoundedMap.lookup_update_self _ _ _ accepted)]
      rw [SourceBalanced, recorded, moved, count, Nat.cast_add, Nat.cast_one, add_right_comm, before]
  | false =>
      have recorded : (w.exec target (.insertEntry a)).2.recorded a = w.recorded a := by
        simp [World.exec, World.tally, accepted]
      have moved : (w.exec target (.insertEntry a)).2.moved a = w.moved a := by
        simp [World.exec, World.tally, accepted]
      have count : curOf (w.exec target (.insertEntry a)).2.state.logger a = 0 := by
        change curOf (w.state.logger.update a _) a = 0
        rw [BoundedMap.update_refused _ _ _ accepted, zero]
      rw [SourceBalanced, recorded, moved, count, before, add_zero]

theorem zeroEntry_balanced (base : I32) (w : World) (balanced : SourceBalanced a base w)
    (stored : prevOf w.state.logger a = curOf w.state.logger a) :
    SourceBalanced a base (w.exec target (.zeroEntry a)).2 := by
  have recorded : (w.exec target (.zeroEntry a)).2.recorded a = w.recorded a := rfl
  have moved : (w.exec target (.zeroEntry a)).2.moved a =
      w.moved a + prevOf w.state.logger a := by
    simp [World.exec, World.tally]
  have count : curOf (w.exec target (.zeroEntry a)).2.state.logger a = 0 := by
    rw [curOf_eq]
    change (readThrough a (modifyEntry a _ w.state.logger)).cur = 0
    rw [readThrough, lookup_modifyEntry, if_pos rfl]
    cases w.state.logger.lookup a <;> rfl
  rw [SourceBalanced, recorded, moved, count, stored, balanced, add_zero]

theorem deleteEntry_balanced (base : I32) (w : World) (balanced : SourceBalanced a base w)
    (idle : curOf w.state.logger a = 0) :
    SourceBalanced a base (w.exec target (.deleteEntry a)).2 := by
  have count : curOf (w.exec target (.deleteEntry a)).2.state.logger a = 0 := by
    rw [curOf_eq]
    change (readThrough a (w.state.logger.delete a)).cur = 0
    rw [readThrough, BoundedMap.lookup_delete_self]
    rfl
  have before : (w.recorded a : I32) + base = w.moved a + 0 := by rw [balanced, idle]
  rw [SourceBalanced, count]
  exact before

theorem sourceBalanced_step (base : I32) (op : Op) (w : World) (answer : Answer op) (w' : World)
    (balanced : SourceBalanced a base w) (ready : sourcePre a op w)
    (action : acts target op w answer w') : SourceBalanced a base w' := by
  obtain ⟨-, rfl⟩ := action
  cases change : changes a op with
  | false =>
      obtain ⟨recorded, -, moved⟩ : (w.exec target op).2.recorded a = w.recorded a ∧ _ ∧
        (w.exec target op).2.moved a = w.moved a := sourceTallies_kept op w change
      have count : curOf (w.exec target op).2.state.logger a = curOf w.state.logger a :=
        curOf_kept op w.state change
      rw [SourceBalanced, recorded, moved, count]
      exact balanced
  | true =>
      cases op with
      | countEntry key =>
          have own : key = a := of_decide_eq_true change
          subst own
          exact countEntry_balanced base w balanced (ready rfl)
      | insertEntry key =>
          have own : key = a := of_decide_eq_true change
          subst own
          exact insertEntry_balanced base w balanced (ready rfl)
      | zeroEntry key =>
          have own : key = a := of_decide_eq_true change
          subst own
          exact zeroEntry_balanced base w balanced (ready rfl)
      | deleteEntry key =>
          have own : key = a := of_decide_eq_true change
          subst own
          exact deleteEntry_balanced base w balanced (ready rfl)
      | _ => cases change

/-! #### Between two accesses -/

theorem unchanged_of_quiet (pending op : Op) (closing : closes a pending = true)
    (quiet : sourceClash a pending op = false) : changes a op = false := by
  rw [sourceClash, closing, Bool.true_and, Bool.or_eq_false_iff, Bool.or_eq_false_iff] at quiet
  exact quiet.1.2

theorem uninserted_of_quiet (pending op : Op) (inserting : inserts a pending = true)
    (quiet : sourceClash a pending op = false) : inserts a op = false := by
  rw [sourceClash, inserting, Bool.true_and, Bool.or_eq_false_iff] at quiet
  exact quiet.2

theorem present_between (w w' : World) (present : (w.state.logger.lookup a).isSome)
    (between : Between (acts target) (sourcePre a) (sourceClash a) (.countEntry a) w w') :
    (w'.state.logger.lookup a).isSome := by
  obtain ⟨other, answer, quiet, ready, -, rfl⟩ := between
  have kept : other ≠ .deleteEntry a := by
    rintro rfl
    simp [sourceClash, stale, pointsTo] at quiet
  cases insert : inserts a other with
  | false =>
      refine (present_kept other w.state insert kept).trans present
  | true =>
      cases other with
      | insertEntry key =>
          have absent : w.state.logger.lookup a = none := ready (of_decide_eq_true insert)
          rw [absent] at present
          cases present
      | _ => cases insert

theorem absent_between (w w' : World) (absent : w.state.logger.lookup a = none)
    (between : Between (acts target) (sourcePre a) (sourceClash a) (.insertEntry a) w w') :
    w'.state.logger.lookup a = none := by
  obtain ⟨other, answer, quiet, -, -, rfl⟩ := between
  have insert := uninserted_of_quiet (.insertEntry a) other (decide_eq_true rfl) quiet
  by_cases delete : other = .deleteEntry a
  · subst delete
    exact BoundedMap.lookup_delete_self _ _
  · have kept : ((w.exec target other).2.state.logger.lookup a).isSome = _ :=
      present_kept other w.state insert delete
    rw [absent] at kept
    exact Option.not_isSome_iff_eq_none.mp (by rw [kept]; exact Bool.false_ne_true)

theorem count_between (op : Op) (closing : closes a op = true) (w w' : World)
    (between : Between (acts target) (sourcePre a) (sourceClash a) op w w') :
    curOf w'.state.logger a = curOf w.state.logger a := by
  obtain ⟨other, answer, quiet, -, -, rfl⟩ := between
  exact curOf_kept other w.state (unchanged_of_quiet op other closing quiet)

/-- A count stored as the previous one; without an entry both are zero. -/
theorem movePrev_stores (w : World) (n : I32) (read : curOf w.state.logger a = n) :
    prevOf (w.exec target (.movePrev a n)).2.state.logger a =
      curOf (w.exec target (.movePrev a n)).2.state.logger a := by
  rw [prevOf_eq, curOf_eq]
  change (readThrough a (modifyEntry a _ w.state.logger)).prev =
    (readThrough a (modifyEntry a _ w.state.logger)).cur
  rw [curOf_eq, readThrough] at read
  rw [readThrough, lookup_modifyEntry, if_pos rfl]
  cases found : w.state.logger.lookup a with
  | none => rfl
  | some value =>
      rw [found] at read
      exact read.symm

theorem moved_between (w w' : World)
    (stored : prevOf w.state.logger a = curOf w.state.logger a)
    (between : Between (acts target) (sourcePre a) (sourceClash a) (.zeroEntry a) w w') :
    prevOf w'.state.logger a = curOf w'.state.logger a := by
  have count := count_between (.zeroEntry a) (decide_eq_true rfl) w w' between
  obtain ⟨other, answer, quiet, ready, -, rfl⟩ := between
  by_cases moves : ∃ n, other = .movePrev a n
  · obtain ⟨n, rfl⟩ := moves
    exact movePrev_stores w n (ready rfl)
  · have unchanged := unchanged_of_quiet (.zeroEntry a) other (decide_eq_true rfl) quiet
    rw [count]
    exact (prevOf_kept other w.state unchanged fun n same => moves ⟨n, same⟩).trans stored

/-! #### What an execution relies on -/

theorem recordSource_sourceMeets (saddr : Addr) (w : World) :
    (recordSource saddr).Meets (acts target) (sourcePre a) (sourceClash a) w := by
  refine meets_perform (fun _ => True) trivial (fun _ _ _ _ => trivial) (fun _ _ => trivial) ?_
  intro w found w' _ action
  obtain ⟨answered, rfl⟩ := action
  have looked : found = (w.state.logger.lookup saddr).isSome := answered
  by_cases own : saddr = a
  · subst own
    cases found with
    | true =>
        refine meets_perform (fun w => (w.state.logger.lookup saddr).isSome) looked.symm
          (fun w w' => present_between w w') (fun _ present _ => present) ?_
        exact fun _ _ _ _ _ => meets_done () _
    | false =>
        refine meets_perform (fun w => w.state.logger.lookup saddr = none)
          (Option.isSome_eq_false_iff.mp looked.symm |> Option.isNone_iff_eq_none.mp)
          (fun w w' => absent_between w w') (fun _ absent _ => absent) ?_
        exact fun _ _ _ _ _ => meets_done () _
  · split <;> exact meets_free (fun _ same => absurd same own) (fun _ => meets_done ()) _

theorem closeEntry_sourceMeets {β : Type} (key : Addr) (result : β) (w : World) :
    (closeEntry key result).Meets (acts target) (sourcePre a) (sourceClash a) w := by
  by_cases own : key = a
  · subst own
    refine meets_perform (fun _ => True) trivial (fun _ _ _ _ => trivial) (fun _ _ => trivial) ?_
    intro w n w' _ action
    obtain ⟨read, rfl⟩ := action
    refine meets_perform (fun w => curOf w.state.logger key = n)
      ((curOf_eq _ _).trans read.symm) ?_
      (fun _ same _ => same) ?_
    · intro w w' same between
      rw [count_between (.movePrev key n) (decide_eq_true rfl) w w' between]
      exact same
    intro w answer w' same action
    obtain ⟨-, rfl⟩ := action
    refine meets_perform (fun w => prevOf w.state.logger key = curOf w.state.logger key)
      (movePrev_stores w n same) (fun w w' => moved_between w w') (fun _ stored _ => stored) ?_
    exact fun _ _ _ _ _ => meets_done result _
  · exact meets_free (fun _ => trivial) (fun _ => meets_free (fun _ same => absurd same own) fun _ =>
      meets_free (fun _ same => absurd same own) fun _ => meets_done result) w

theorem detectionVisit_sourceMeets (tmp : DataValue) (flagged : List Addr) (key : Addr)
    (w : World) :
    (detectionVisit tmp flagged key).Meets (acts target) (sourcePre a) (sourceClash a) w := by
  refine meets_free (fun _ => trivial) (fun entropy w => ?_) w
  split
  · exact closeEntry_sourceMeets key flagged w
  refine meets_free (fun _ => trivial) (fun diff w => ?_) w
  refine meets_perform (fun _ => True) trivial (fun _ _ _ _ => trivial) (fun _ _ => trivial) ?_
  intro w cur w' _ action
  obtain ⟨answered, rfl⟩ := action
  have read : cur = curOf w.state.logger key := answered.trans (curOf_eq _ _).symm
  split
  · next idle =>
      refine meets_perform (fun w => key = a → curOf w.state.logger a = 0) ?_ ?_
        (fun _ zero => zero) ?_
      · intro own
        rw [← own]
        exact read.symm.trans idle
      · intro w w' zero between own
        rw [count_between (.deleteEntry key) (decide_eq_true own) w w' between]
        exact zero own
      · exact fun _ _ _ _ _ => meets_done _ _
  · exact closeEntry_sourceMeets key _ _

theorem execution_sourceMeets (env : Env) (packet : Packet) (w : World) :
    (xdpFilterExecution env packet).Meets (acts env.target) (sourcePre a) (sourceClash a) w := by
  refine execution_meets ?_ recordSource_sourceMeets detectionVisit_sourceMeets ?_ env rfl packet w
  · intro op quiet w
    cases op <;> trivial
  · intro flagged
    exact meets_free (fun _ => trivial) fun _ => meets_free (fun _ => trivial) fun _ =>
      meets_free (fun _ => trivial) fun _ => meets_free (fun _ => trivial) fun _ =>
      meets_free (fun _ => trivial) fun _ => meets_free (fun _ => trivial) fun _ =>
      meets_done flagged

def sourceWeight (a : Addr) : Op → Nat
  | .countEntry key | .insertEntry key => if key = a then 1 else 0
  | _ => 0

theorem recorded_step (op : Op) (w : World) (answer : Answer op) (w' : World)
    (action : acts target op w answer w') :
    w'.recorded a + w'.refused a = w.recorded a + w.refused a + sourceWeight a op := by
  obtain ⟨-, rfl⟩ := action
  have single : ∀ key, (Pi.single key 1 : Addr → Nat) a = if key = a then 1 else 0 := by
    intro key
    rw [Pi.single_apply]
    simp only [eq_comm]
  cases op with
  | countEntry key =>
      change (w.recorded + Pi.single key 1 : Addr → Nat) a + w.refused a = _
      rw [Pi.add_apply, single, sourceWeight]
      omega
  | insertEntry key =>
      rw [sourceWeight, World.exec, World.tally, ← single]
      split
      · change (w.recorded + Pi.single key 1 : Addr → Nat) a + w.refused a = _
        rw [Pi.add_apply]
        omega
      · change w.recorded a + (w.refused + Pi.single key 1 : Addr → Nat) a = _
        rw [Pi.add_apply]
        omega
  | _ => rfl

end SourceSteps

/-- In every interleaving of any number of executions in which no entry is deleted under a pointer,
no count of the source changes in the middle of its closing and no entry of it is inserted twice:
the packets of the source recorded are those in the counts moved and in its current count, and once
all executions have finished every one of its packets is recorded or was refused by a full logger. -/
theorem source_counts_conserved {ι : Type} [Fintype ι] [DecidableEq ι] (env : Env) (a : Addr)
    (packet : ι → Packet) (st : State) (pool : Executions ι)
    (reached : (starting env packet st).Reaches (acts env.target) (sourceClash a) pool) :
    (pool.shared.recorded a : I32) + curOf st.logger a =
      pool.shared.moved a + curOf pool.shared.state.logger a ∧
    (pool.Finished → pool.shared.recorded a + pool.shared.refused a =
      (Finset.univ.filter fun i => countedSource env (packet i).frame = some a).card) := by
  constructor
  · refine Pool.reaches_invariant (SourceBalanced a (curOf st.logger a)) (sourceBalanced_step _)
      (fun i => execution_sourceMeets env (packet i) _) ?_ reached
    rw [SourceBalanced]
    rfl
  · intro finished
    have others : ∀ op, records op = false → sourceWeight a op = 0 := by
      intro op quiet
      cases op <;> first | rfl | cases quiet
    have performs := fun i => execution_performs others (fun key => if key = a then 1 else 0)
      (fun _ => rfl) (fun _ => rfl) env (packet i)
    have all := Pool.finished_weight (fun w => w.recorded a + w.refused a) recorded_step _ performs
      reached finished
    have none : (starting env packet st).shared.recorded a +
      (starting env packet st).shared.refused a = 0 := rfl
    rw [none, Nat.zero_add] at all
    rw [all, Finset.card_filter]
    refine Finset.sum_congr rfl fun i _ => ?_
    cases countedSource env (packet i).frame with
    | none => rfl
    | some saddr => simp [sourceWeight]

theorem overlap_recorded :
    (twoPackets.schedule (World.exec masking) overlap).shared.recorded 1 +
      (twoPackets.schedule (World.exec masking) overlap).shared.refused 1 = 2 := by
  have conserved := source_counts_conserved bareEnv 1 _ _ _
    (Pool.schedule_reaches (acts_exec masking) twoPackets overlap (by decide +kernel))
  rw [conserved.2 overlap_finishes]
  decide +kernel

end Fide.Kernel
