import Fide.Kernel

/-! The interval clock under concurrent executions of the in-kernel program.

Any number of executions, each with a time of its own, read `loc_ts` without the lock and, when
they find themselves due, enter the locked section. The read and the section are one atomic step
each, in any order. -/

namespace Fide.Kernel

open Words

/-- Where an execution is in its timestamp check, and whether it goes on to the rollover. -/
inductive Phase
  | started
  | waiting
  | finished (body : Bool)
  deriving DecidableEq, Repr

/-- The shared timestamp, the executions, and those that wrote the timestamp, latest first. -/
structure Clock (ι : Type) where
  timestamp : I64
  phase : ι → Phase
  writers : List ι

def Clock.initial (ι : Type) : Clock ι := ⟨0, fun _ => .started, []⟩

section Protocol

variable {ι : Type} (ts : ι → I64)

/-- Whether the locked section stores `ts`. -/
def writes (time timestamp : I64) : Bool := timestamp = 0 || due time timestamp

/-- `ts + invl_ns` stays in the range of `int64_t`. -/
def NoOverflow (time : I64) : Prop := time.toInt + invlNs.toInt < 2 ^ 63

/-- `a` is more than an interval before `b`. -/
def Apart (a b : I64) : Prop := a.toInt + invlNs.toInt < b.toInt

structure ClockInv (s : Clock ι) : Prop where
  unwritten : s.writers = [] → s.timestamp = 0
  latest : ∀ i rest, s.writers = i :: rest → s.timestamp = ts i
  positive : ∀ i ∈ s.writers, 0 < (ts i).toInt
  chain : s.writers.Pairwise fun later earlier => Apart (ts earlier) (ts later)
  waiting : ∀ i, s.phase i = .waiting → invlNs.toInt < (ts i).toInt
  settled : ∀ i ∈ s.writers, ∃ body, s.phase i = .finished body
  first : ∀ i, s.writers.getLast? = some i → s.phase i = .finished false
  body : ∀ i, s.phase i = .finished true → i ∈ s.writers
  punctual : ∀ i b, s.phase i = .finished b → (ts i).toInt ≤ s.timestamp.toInt + invlNs.toInt

variable {ts}

theorem ClockInv.timestamp_zero_iff {s : Clock ι} (inv : ClockInv ts s) :
    s.timestamp = 0 ↔ s.writers = [] := by
  constructor
  · intro zero
    cases writers : s.writers with
    | nil => rfl
    | cons i rest =>
        have positive := inv.positive i (by simp [writers])
        rw [← inv.latest i rest writers, zero] at positive
        exact absurd positive (by decide)
  · exact inv.unwritten

theorem ClockInv.timestamp_nonneg {s : Clock ι} (inv : ClockInv ts s) :
    0 ≤ s.timestamp.toInt := by
  cases writers : s.writers with
  | nil =>
      rw [inv.unwritten writers]
      decide
  | cons i rest =>
      rw [inv.latest i rest writers]
      exact (inv.positive i (by simp [writers])).le

theorem ClockInv.writer_ne {s : Clock ι} (inv : ClockInv ts s) {i : ι}
    (pending : ∀ body, s.phase i ≠ .finished body) : ∀ j ∈ s.writers, j ≠ i := by
  intro j member same
  subst same
  obtain ⟨body, phase⟩ := inv.settled j member
  exact pending body phase

theorem due_iff {s : Clock ι} (inv : ClockInv ts s) (range : ∀ i, NoOverflow (ts i)) (time : I64) :
    due time s.timestamp = true ↔ Apart s.timestamp time := by
  have upper : s.timestamp.toInt + invlNs.toInt < 2 ^ 63 := by
    cases writers : s.writers with
    | nil =>
        rw [inv.unwritten writers]
        decide
    | cons i rest =>
        rw [inv.latest i rest writers]
        exact range i
  have lower := inv.timestamp_nonneg
  have interval : invlNs.toInt = 1000000000 := by decide
  have sum : (s.timestamp + invlNs).toInt = s.timestamp.toInt + invlNs.toInt := by
    rw [BitVec.toInt_add, Int.bmod_eq_of_le (by omega) (by omega)]
  rw [due, decide_eq_true_iff, sum, Apart]

/-- A time apart from the timestamp is apart from every stored one. -/
theorem ClockInv.apart_writers {s : Clock ι} (inv : ClockInv ts s) {time : I64}
    (apart : Apart s.timestamp time) : ∀ j ∈ s.writers, Apart (ts j) time := by
  intro j member
  cases writers : s.writers with
  | nil => simp [writers] at member
  | cons head rest =>
      have latest := inv.latest head rest writers
      rw [latest] at apart
      rw [writers] at member
      rcases List.mem_cons.mp member with rfl | earlier
      · exact apart
      · have interval : 0 < invlNs.toInt := by decide
        have chain := inv.chain
        rw [writers, List.pairwise_cons] at chain
        have before : (ts j).toInt + invlNs.toInt < (ts head).toInt := chain.1 j earlier
        have after : (ts head).toInt + invlNs.toInt < time.toInt := apart
        rw [Apart]
        omega

theorem ClockInv.apart_of_writes {s : Clock ι} (inv : ClockInv ts s)
    (range : ∀ i, NoOverflow (ts i)) (i : ι) (phase : s.phase i = .waiting)
    (stored : writes (ts i) s.timestamp = true) : Apart s.timestamp (ts i) := by
  rw [writes, Bool.or_eq_true, decide_eq_true_iff] at stored
  rcases stored with zero | late
  · have beyond := inv.waiting i phase
    rw [Apart, zero]
    change 0 + _ < _
    omega
  · exact (due_iff inv range (ts i)).mp late

theorem clockInv_initial : ClockInv ts (Clock.initial ι) := by
  refine ⟨fun _ => rfl, ?_, ?_, ?_, ?_, ?_, ?_, ?_, ?_⟩ <;> simp [Clock.initial]

variable (ts) [DecidableEq ι]

def Clock.read (s : Clock ι) (i : ι) : Clock ι :=
  { s with
    phase := Function.update s.phase i
      (if due (ts i) s.timestamp then .waiting else .finished false) }

def Clock.lock (s : Clock ι) (i : ι) : Clock ι where
  timestamp := (lockedSection (ts i) s.timestamp).1
  phase := Function.update s.phase i (.finished (lockedSection (ts i) s.timestamp).2)
  writers := if writes (ts i) s.timestamp then i :: s.writers else s.writers

inductive ClockStep : Clock ι → Clock ι → Prop
  | read (s : Clock ι) (i : ι) (phase : s.phase i = .started) : ClockStep s (s.read ts i)
  | lock (s : Clock ι) (i : ι) (phase : s.phase i = .waiting) : ClockStep s (s.lock ts i)

variable {ts}

/-- A pending execution may start to wait once it is due, or finish without the clock. -/
theorem ClockInv.advance {s : Clock ι} (inv : ClockInv ts s) (i : ι) (next : Phase)
    (pending : ∀ body, s.phase i ≠ .finished body) (idle : next ≠ .finished true)
    (waits : next = .waiting → invlNs.toInt < (ts i).toInt)
    (finishes : next = .finished false → (ts i).toInt ≤ s.timestamp.toInt + invlNs.toInt) :
    ClockInv ts { s with phase := Function.update s.phase i next } := by
  have other := inv.writer_ne pending
  refine ⟨inv.unwritten, inv.latest, inv.positive, inv.chain, ?_, ?_, ?_, ?_, ?_⟩
  · intro j phase
    by_cases same : j = i
    · subst same
      exact waits (by simpa using phase)
    · exact inv.waiting j (by simpa [same] using phase)
  · intro j member
    simpa [other j member] using inv.settled j member
  · intro j last
    have member : j ∈ s.writers := List.mem_of_getLast? last
    simpa [other j member] using inv.first j last
  · intro j phase
    by_cases same : j = i
    · subst same
      exact absurd (by simpa using phase) idle
    · exact inv.body j (by simpa [same] using phase)
  · intro j b phase
    by_cases same : j = i
    · subst same
      have finished : next = .finished b := by simpa using phase
      cases b with
      | false => exact finishes finished
      | true => exact absurd finished idle
    · exact inv.punctual j b (by simpa [same] using phase)

/-- An execution more than an interval after the timestamp stores its time; the first one to do
so does not go on. -/
theorem ClockInv.write {s : Clock ι} (inv : ClockInv ts s) (i : ι) (body : Bool)
    (phase : s.phase i = .waiting) (apart : Apart s.timestamp (ts i))
    (first : s.writers = [] → body = false) :
    ClockInv ts ⟨ts i, Function.update s.phase i (.finished body), i :: s.writers⟩ := by
  have other := inv.writer_ne (i := i) (by simp [phase])
  have interval : 0 < invlNs.toInt := by decide
  have nonneg := inv.timestamp_nonneg
  have later : s.timestamp.toInt + invlNs.toInt < (ts i).toInt := apart
  refine ⟨by simp, ?_, ?_, ?_, ?_, ?_, ?_, ?_, ?_⟩
  · intro j rest same
    rw [(List.cons.inj same).1]
  · intro j member
    rcases List.mem_cons.mp member with rfl | earlier
    · omega
    · exact inv.positive j earlier
  · rw [List.pairwise_cons]
    exact ⟨inv.apart_writers apart, inv.chain⟩
  · intro j waiting
    by_cases same : j = i
    · simp [same] at waiting
    · exact inv.waiting j (by simpa [same] using waiting)
  · intro j member
    rcases List.mem_cons.mp member with rfl | earlier
    · exact ⟨body, by simp⟩
    · simpa [other j earlier] using inv.settled j earlier
  · intro j last
    cases writers : s.writers with
    | nil =>
        have same : i = j := by simpa [writers] using last
        simp [same, first writers]
    | cons head rest =>
        have before : s.writers.getLast? = some j := by simpa [writers] using last
        have member : j ∈ s.writers := List.mem_of_getLast? before
        simpa [other j member] using inv.first j before
  · intro j finished
    by_cases same : j = i
    · simp [same]
    · exact List.mem_cons_of_mem i (inv.body j (by simpa [same] using finished))
  · intro j b finished
    change (ts j).toInt ≤ (ts i).toInt + invlNs.toInt
    by_cases same : j = i
    · rw [same]
      omega
    · have before := inv.punctual j b (by simpa [same] using finished)
      omega

/-- The locked section stores the time, or finds that another execution already did. -/
theorem ClockInv.lock_cases {s : Clock ι} (inv : ClockInv ts s) (i : ι) :
    (writes (ts i) s.timestamp = true ∧
      s.lock ts i = ⟨ts i, Function.update s.phase i (.finished !s.writers.isEmpty),
        i :: s.writers⟩) ∨
    (due (ts i) s.timestamp = false ∧
      s.lock ts i = { s with phase := Function.update s.phase i (.finished false) }) := by
  by_cases zero : s.timestamp = 0
  · left
    have none := inv.timestamp_zero_iff.mp zero
    simp [Clock.lock, lockedSection, writes, zero, none]
  · have some : s.writers ≠ [] := fun none => zero (inv.timestamp_zero_iff.mpr none)
    cases decision : due (ts i) s.timestamp with
    | true =>
        left
        have body : lockedSection (ts i) s.timestamp = (ts i, true) := by
          rw [lockedSection, if_neg zero, if_pos decision]
        have stored : writes (ts i) s.timestamp = true := by
          rw [writes, decision, Bool.or_true]
        have nonempty : s.writers.isEmpty = false := by simpa using some
        rw [Clock.lock, body, stored, nonempty]
        simp
    | false =>
        right
        have body : lockedSection (ts i) s.timestamp = (s.timestamp, false) := by
          rw [lockedSection, if_neg zero, if_neg (by simp [decision])]
        have kept : writes (ts i) s.timestamp = false := by
          rw [writes, decision, Bool.or_false, decide_eq_false zero]
        rw [Clock.lock, body, kept]
        simp

theorem ClockInv.step {s s' : Clock ι} (inv : ClockInv ts s) (range : ∀ i, NoOverflow (ts i))
    (step : ClockStep ts s s') : ClockInv ts s' := by
  have early : ∀ i, due (ts i) s.timestamp = false →
      (ts i).toInt ≤ s.timestamp.toInt + invlNs.toInt := by
    intro i decision
    have near : ¬ Apart s.timestamp (ts i) := by
      rw [← due_iff inv range, decision]
      decide
    unfold Apart at near
    omega
  cases step with
  | read i phase =>
      unfold Clock.read
      cases decision : due (ts i) s.timestamp with
      | false =>
          exact inv.advance i (.finished false) (by simp [phase]) (by simp) (by simp)
            fun _ => early i decision
      | true =>
          refine inv.advance i .waiting (by simp [phase]) (by simp) (fun _ => ?_) (by simp)
          have apart := (due_iff inv range (ts i)).mp decision
          have nonneg := inv.timestamp_nonneg
          unfold Apart at apart
          omega
  | lock i phase =>
      rcases inv.lock_cases i with ⟨stored, next⟩ | ⟨decision, next⟩
      · rw [next]
        exact inv.write i _ phase (inv.apart_of_writes range i phase stored) (by simp)
      · rw [next]
        exact inv.advance i (.finished false) (by simp [phase]) (by simp) (by simp)
          fun _ => early i decision

theorem clockInv_reachable (range : ∀ i, NoOverflow (ts i)) {s : Clock ι}
    (run : Relation.ReflTransGen (ClockStep ts) (Clock.initial ι) s) : ClockInv ts s := by
  induction run with
  | refl => exact clockInv_initial
  | tail _ step ih => exact ih.step range step

/-- In every interleaving: a step that writes or changes the timestamp raises it by more than the
interval, executions that run the rollover body are more than an interval apart, the first writer
does not run it, and an execution past its check is not due any more. -/
theorem rollover_exclusive_and_punctual (range : ∀ i, NoOverflow (ts i)) (s : Clock ι)
    (run : Relation.ReflTransGen (ClockStep ts) (Clock.initial ι) s) :
    (∀ s', ClockStep ts s s' → s'.writers ≠ s.writers ∨ s'.timestamp ≠ s.timestamp →
      s.timestamp.toInt + invlNs.toInt < s'.timestamp.toInt) ∧
    (∀ i j, i ≠ j → s.phase i = .finished true → s.phase j = .finished true →
      invlNs.toInt < |(ts i).toInt - (ts j).toInt|) ∧
    (∀ i, s.writers.getLast? = some i → s.phase i = .finished false) ∧
    (∀ i body, s.phase i = .finished body →
      (ts i).toInt ≤ s.timestamp.toInt + invlNs.toInt) := by
  have inv := clockInv_reachable range run
  refine ⟨?_, ?_, inv.first, inv.punctual⟩
  · intro s' step wrote
    cases step with
    | read i phase => exact wrote.elim (absurd rfl) (absurd rfl)
    | lock i phase =>
        rcases inv.lock_cases i with ⟨stored, next⟩ | ⟨-, next⟩
        · rw [next]
          exact inv.apart_of_writes range i phase stored
        · rw [next] at wrote
          exact wrote.elim (absurd rfl) (absurd rfl)
  · intro i j different left right
    let far : ι → ι → Prop := fun a b =>
      a = b ∨ invlNs.toInt < |(ts a).toInt - (ts b).toInt|
    have chain : s.writers.Pairwise far := inv.chain.imp fun apart => by
      unfold Apart at apart
      exact .inr (lt_of_lt_of_le (by omega) (le_abs_self _))
    have mirrored : s.writers.Pairwise (flip far) := chain.imp fun ordered => by
      rcases ordered with same | apart
      · exact .inl same.symm
      · exact .inr (by rwa [abs_sub_comm])
    have distance := chain.forall_of_forall_of_flip (fun _ _ => .inl rfl) mirrored
      (inv.body i left) (inv.body j right)
    exact distance.resolve_left different

end Protocol

/-- Two executions, one after the other: the second runs the rollover and is not due any more. -/
theorem second_execution_rolls_over :
    let ts : Bool → I64 := fun second => if second then 4000000000 else 2000000000
    let s := ((((Clock.initial Bool).read ts false).lock ts false).read ts true).lock ts true
    Relation.ReflTransGen (ClockStep ts) (Clock.initial Bool) s ∧
      s.phase true = .finished true ∧
      (ts true).toInt ≤ s.timestamp.toInt + invlNs.toInt := by
  intro ts s
  have range : ∀ i, NoOverflow (ts i) := by
    intro i
    cases i <;> (unfold NoOverflow; decide)
  have run : Relation.ReflTransGen (ClockStep ts) (Clock.initial Bool) s := by
    refine .head (.read _ false rfl) ?_
    refine .head (.lock _ false (by decide +kernel)) ?_
    refine .head (.read _ true (by decide +kernel)) ?_
    exact .single (.lock _ true (by decide +kernel))
  have body : s.phase true = .finished true := by decide +kernel
  exact ⟨run, body, (rollover_exclusive_and_punctual range s run).2.2.2 true true body⟩

end Fide.Kernel
