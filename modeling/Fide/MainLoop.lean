import Fide.UserBalance

/-! The main loop of the split version: `main` of `user+ebpf/main/xdp_loader.c`.

Between its calls of `calculate_ent` the loop counts the intervals since traffic was first seen and
prints what `holder` has gathered when the count comes to eleven. -/

namespace Fide.UserEbpf

open Words

/-! ### Roundups -/

/-- `holder`, `count` and what has been printed so far. -/
structure Tally where
  holder : I32
  count : I32
  roundups : List I32
  deriving DecidableEq, Repr

def Tally.initial : Tally := ⟨0, 0, []⟩

/-- The body of the loop after the call. -/
def Tally.conclude (t : Tally) : Tally :=
  let count := if 0 < t.holder.toInt then t.count + 1 else t.count
  if count = 11 then ⟨0, 0, t.roundups ++ [t.holder]⟩ else { t with count := count }

/-- One iteration: the call adds the packets of its interval to `holder`. -/
def Tally.add (t : Tally) (added : I32) : Tally :=
  ({ t with holder := t.holder + added } : Tally).conclude

/-- What the roundups are meant to be: idle intervals are passed over, and each roundup is the sum
of eleven intervals from the first busy one on. -/
def roundupsOf (counts : List Int) : List Int :=
  if (counts.dropWhile (· = 0)).length < 11 then []
  else ((counts.dropWhile (· = 0)).take 11).sum ::
    roundupsOf ((counts.dropWhile (· = 0)).drop 11)
termination_by counts.length
decreasing_by
  have shorter : (counts.dropWhile (· = 0)).length ≤ counts.length :=
    (List.dropWhile_sublist _).length_le
  rw [List.length_drop]
  omega

theorem roundupsOf_idle (counts : List Int) : roundupsOf (0 :: counts) = roundupsOf counts := by
  conv_lhs => rw [roundupsOf]
  conv_rhs => rw [roundupsOf]
  rw [List.dropWhile_cons_of_pos (by simp)]

theorem roundupsOf_short (counts : List Int) (short : counts.length < 11) :
    roundupsOf counts = [] := by
  have shorter : (counts.dropWhile (· = 0)).length ≤ counts.length :=
    (List.dropWhile_sublist _).length_le
  rw [roundupsOf, if_pos (by omega)]

/-- Eleven intervals, the first of them busy. -/
theorem roundupsOf_full (chunk rest : List Int) (eleven : chunk.length = 11)
    (busy : chunk.head? ≠ some 0) : roundupsOf (chunk ++ rest) = chunk.sum :: roundupsOf rest := by
  have kept : (chunk ++ rest).dropWhile (· = 0) = chunk ++ rest := by
    cases chunk with
    | nil => simp at eleven
    | cons head tail =>
        rw [List.cons_append, List.dropWhile_cons_of_neg]
        simpa using busy
  rw [roundupsOf, kept, if_neg (by rw [List.length_append]; omega), List.take_left' eleven,
    List.drop_left' eleven]

/-! ### The loop over the counts of its calls -/

theorem Tally.conclude_sum (t : Tally) :
    t.conclude.roundups.sum + t.conclude.holder = t.roundups.sum + t.holder := by
  unfold Tally.conclude
  generalize (if 0 < t.holder.toInt then t.count + 1 else t.count) = count
  dsimp only
  split
  · rw [List.sum_append, List.sum_singleton, add_zero]
  · rfl

theorem Tally.conclude_busy (t : Tally) (busy : 0 < t.holder.toInt) :
    t.conclude = if t.count + 1 = 11 then ⟨0, 0, t.roundups ++ [t.holder]⟩
      else { t with count := t.count + 1 } := by
  rw [Tally.conclude, if_pos busy]

/-- Nothing the calls add is lost: it has been printed or is in `holder`. -/
theorem tally_sum (counts : List I32) (t : Tally) :
    (counts.foldl Tally.add t).roundups.sum + (counts.foldl Tally.add t).holder =
      t.roundups.sum + t.holder + counts.sum := by
  induction counts generalizing t with
  | nil => simp
  | cons added rest ih =>
      have once : (t.add added).roundups.sum + (t.add added).holder =
          t.roundups.sum + t.holder + added := by
        rw [Tally.add, Tally.conclude_sum, add_assoc]
      rw [List.foldl_cons, ih, once, List.sum_cons]
      ring

/-- The counts are not negative, and no eleven in a row overflow `holder`. -/
structure Countable (counts : List Int) : Prop where
  nonneg : ∀ count ∈ counts, 0 ≤ count
  bounded : ∀ window, window <:+: counts → window.length ≤ 11 → window.sum < 2 ^ 31

theorem Countable.part {counts part : List Int} (countable : Countable counts)
    (inside : part <:+: counts) : Countable part where
  nonneg count member := countable.nonneg count (inside.subset member)
  bounded window sub short := countable.bounded window (sub.trans inside) short

/-- `holder` and `count` in the middle of a roundup. -/
structure Gathering (t : Tally) (chunk : List Int) : Prop where
  holder : t.holder.toInt = chunk.sum
  count : t.count = (chunk.length : I32)
  short : chunk.length < 11
  started : chunk.head? ≠ some 0

theorem sum_pos_of_started (chunk : List Int) (nonneg : ∀ count ∈ chunk, 0 ≤ count)
    (some : chunk ≠ []) (started : chunk.head? ≠ Option.some 0) : 0 < chunk.sum := by
  cases chunk with
  | nil => exact absurd rfl some
  | cons head tail =>
      have first := nonneg head List.mem_cons_self
      have rest : 0 ≤ tail.sum :=
        List.sum_nonneg fun count member => nonneg count (List.mem_cons_of_mem head member)
      have busy : head ≠ 0 := fun zero => started (by rw [zero]; rfl)
      rw [List.sum_cons]
      omega

/-- A call adds its packets to the chunk, unless nothing has come yet and nothing comes now. -/
theorem Gathering.add {t : Tally} {chunk : List Int} (gathering : Gathering t chunk) (added : I32)
    (countable : Countable (chunk ++ [added.toInt])) :
    (chunk = [] ∧ added.toInt = 0 ∧ t.add added = t) ∨
    (0 < (chunk ++ [added.toInt]).sum ∧ (chunk ++ [added.toInt]).head? ≠ some 0 ∧
      ∃ holder : I32, holder.toInt = (chunk ++ [added.toInt]).sum ∧
        t.add added =
          if chunk.length = 10 then ⟨0, 0, t.roundups ++ [holder]⟩
          else ⟨holder, (chunk.length + 1 : Nat), t.roundups⟩) := by
  have fits := countable.bounded _ (List.infix_refl _)
    (by rw [List.length_append]; have := gathering.short; simp; omega)
  have total : (t.holder + added).toInt = (chunk ++ [added.toInt]).sum := by
    have nonneg : 0 ≤ (chunk ++ [added.toInt]).sum := List.sum_nonneg countable.nonneg
    rw [List.sum_append, List.sum_singleton] at fits nonneg ⊢
    rw [BitVec.toInt_add, gathering.holder]
    exact Int.bmod_eq_of_le (by omega) (by omega)
  by_cases idle : chunk = [] ∧ added.toInt = 0
  · left
    refine ⟨idle.1, idle.2, ?_⟩
    have zero : added = 0 := BitVec.eq_of_toInt_eq (by rw [idle.2]; rfl)
    have empty : t.holder = 0 := by
      apply BitVec.eq_of_toInt_eq
      rw [gathering.holder, idle.1]
      rfl
    have count : t.count = 0 := by
      rw [gathering.count, idle.1]
      rfl
    have still : ¬ 0 < (t.holder + added).toInt := by
      rw [total, idle.1, idle.2]
      decide
    have sum : t.holder + added = t.holder := by rw [zero, add_zero]
    rw [Tally.add, Tally.conclude, if_neg still, sum, count, if_neg (by decide), ← count]
  · right
    have started : (chunk ++ [added.toInt]).head? ≠ some 0 := by
      cases chunk with
      | nil =>
          intro zero
          exact idle ⟨rfl, Option.some.inj zero⟩
      | cons head tail => exact gathering.started
    have positive := sum_pos_of_started _ countable.nonneg (by simp) started
    refine ⟨positive, started, t.holder + added, total, ?_⟩
    rw [← total] at positive
    rw [Tally.add, Tally.conclude_busy _ positive]
    have short := gathering.short
    have next : t.count + 1 = ((chunk.length + 1 : Nat) : I32) := by
      rw [gathering.count]
      push_cast
      rfl
    have full : t.count + 1 = 11 ↔ chunk.length = 10 := by
      rw [next]
      constructor
      · intro eleven
        have values := congrArg BitVec.toNat eleven
        rw [toNat_natCast _ (by omega)] at values
        have eleven : (11 : I32).toNat = 11 := rfl
        omega
      · intro ten
        rw [ten]
        rfl
    by_cases ten : chunk.length = 10
    · rw [if_pos (full.mpr ten), if_pos ten]
    · rw [if_neg (fun eleven => ten (full.mp eleven)), if_neg ten, ← next]

/-- The loop prints what the roundups are meant to be. -/
theorem tally_roundups (counts : List I32) (t : Tally) (chunk : List Int)
    (gathering : Gathering t chunk) (countable : Countable (chunk ++ counts.map BitVec.toInt)) :
    (counts.foldl Tally.add t).roundups.map BitVec.toInt =
      t.roundups.map BitVec.toInt ++ roundupsOf (chunk ++ counts.map BitVec.toInt) := by
  induction counts generalizing t chunk with
  | nil => simp [roundupsOf_short chunk gathering.short]
  | cons added rest ih =>
      have split : chunk ++ (added :: rest).map BitVec.toInt =
          (chunk ++ [added.toInt]) ++ rest.map BitVec.toInt := by simp
      rw [split] at countable ⊢
      have now : Countable (chunk ++ [added.toInt]) := countable.part (List.infix_append' [] _ _)
      rw [List.foldl_cons]
      rcases gathering.add added now with
        ⟨empty, zero, same⟩ | ⟨positive, started, holder, total, next⟩
      · rw [same, ih t chunk gathering (by
          refine countable.part ?_
          rw [empty, zero]
          exact (List.suffix_cons _ _).isInfix), empty, zero]
        exact congrArg _ (roundupsOf_idle _).symm
      · by_cases ten : chunk.length = 10
        · rw [next, if_pos ten, ih _ [] ⟨rfl, rfl, by decide, by simp⟩
            (countable.part (List.suffix_append _ _).isInfix), List.nil_append,
            roundupsOf_full _ _ (by simp [ten]) started, List.map_append, List.map_singleton, total,
            List.append_assoc]
          rfl
        · have short := gathering.short
          rw [next, if_neg ten]
          exact ih _ (chunk ++ [added.toInt]) ⟨total, by simp, by simp; omega, started⟩ countable

/-! ### The loop among packets -/

/-- The split version with the loop that drives it; `holder` is one of the statics. -/
structure Monitor (R : Type) where
  system : System R
  count : I32
  roundups : List I32

namespace Monitor

variable {R : Type}

def initial (R : Type) : Monitor R := ⟨System.initial R, 0, []⟩

def tally (m : Monitor R) : Tally := ⟨m.system.statics.holder, m.count, m.roundups⟩

/-- The loop goes on after a call has returned. -/
def conclude (m : Monitor R) : Monitor R where
  system := { m.system with
    statics := { m.system.statics with holder := m.tally.conclude.holder } }
  count := m.tally.conclude.count
  roundups := m.tally.conclude.roundups

variable [Field R] [LinearOrder R] (env : Env) (order : BoundedMap.Enumeration Addr) (libm : Libm R)

def step (m : Monitor R) (event : Event R) : Monitor R :=
  let next := { m with system := m.system.step env order libm event }
  match event, m.system.process with
  | .user, some (.done _) => next.conclude
  | _, _ => next

def run (m : Monitor R) (events : List (Event R)) : Monitor R :=
  events.foldl (step env order libm) m

/-- A condition on every event of a run and the system it meets. -/
def along (condition : System R → Event R → Bool) (m : Monitor R) : List (Event R) → Bool
  | [] => true
  | event :: rest => condition m.system event && along condition (m.step env order libm event) rest

/-- What an event does to the loop: a call that returns is taken account of. -/
theorem step_cases (m : Monitor R) (event : Event R) :
    (∃ report, event = .user ∧ m.system.process = some (.done report) ∧
      m.step env order libm event =
        ({ m with system := m.system.step env order libm .user } : Monitor R).conclude) ∨
    (m.step env order libm event = { m with system := m.system.step env order libm event } ∧
      ∀ report, event = .user → m.system.process ≠ some (.done report)) := by
  unfold step
  split
  · next report returned => exact .inl ⟨report, rfl, returned, rfl⟩
  · next other =>
      exact .inr ⟨rfl, fun report user returned => other report user returned⟩

end Monitor

/-- A call reports what it adds to `holder`. -/
def Report.AddsTo {R : Type} (statics : Statics) (report : Report R) : Prop :=
  report.statics.holder = statics.holder + report.added

section Loop

variable {R : Type} [Field R] [LinearOrder R]
  {env : Env} {order : BoundedMap.Enumeration Addr} {libm : Libm R}

theorem concludeCall_returns (statics : Statics) (data : DataValue) (i : Nat) (scan : Scan R) :
    (concludeCall libm statics data i scan).Returns (Report.AddsTo statics) :=
  fun _ => Program.returns_bind _ fun _ => rfl

theorem calculateEnt_returns (heap : Heap R) (statics : Statics) :
    (calculateEnt libm heap statics).Returns (Report.AddsTo statics) := by
  intro found first
  cases first with
  | none => exact concludeCall_returns statics _ 1 _
  | some key =>
      exact Program.returns_bind _ fun end' => concludeCall_returns statics _ end'.1 end'.2

/-- Between calls the loop has taken account of every report; during a call it will have. -/
structure Tallied (m : Monitor R) : Prop where
  tally : m.tally = (m.system.reports.map Report.added).foldl Tally.add Tally.initial
  process : ∀ p, m.system.process = some p → p.Returns (Report.AddsTo m.system.statics)

theorem Tallied.step {m : Monitor R} (tallied : Tallied m) (event : Event R) :
    Tallied (m.step env order libm event) := by
  rcases m.step_cases env order libm event with ⟨report, -, returned, next⟩ | ⟨next, waiting⟩
  · have moved : m.system.step env order libm .user =
        { m.system with
          process := none, statics := report.statics, reports := m.system.reports ++ [report] } := by
      rw [System.step, returned]
    rw [next, moved]
    refine ⟨?_, by intro p running; cases running⟩
    have adds : report.statics.holder = m.system.statics.holder + report.added :=
      tallied.process _ returned
    change (Tally.conclude ⟨report.statics.holder, m.count, m.roundups⟩) =
      ((m.system.reports ++ [report]).map Report.added).foldl Tally.add Tally.initial
    rw [List.map_append, List.foldl_append, ← tallied.tally, adds]
    rfl
  · rw [next]
    obtain ⟨⟨world, statics, process, reports⟩, count, roundups⟩ := m
    cases event with
    | packet frame => exact ⟨tallied.tally, tallied.process⟩
    | call heap =>
        cases process with
        | none =>
            refine ⟨tallied.tally, ?_⟩
            intro p running
            cases running
            exact calculateEnt_returns heap statics
        | some p => exact ⟨tallied.tally, tallied.process⟩
    | user =>
        cases process with
        | none => exact ⟨tallied.tally, tallied.process⟩
        | some p =>
            cases p with
            | done report => exact absurd rfl (waiting report rfl)
            | perform op rest =>
                refine ⟨tallied.tally, ?_⟩
                intro p running
                cases running
                exact tallied.process _ rfl _

variable (env order libm)

theorem tallied_run (events : List (Event R)) (m : Monitor R) (tallied : Tallied m) :
    Tallied (m.run env order libm events) := by
  induction events generalizing m with
  | nil => exact tallied
  | cons event rest ih => exact ih _ (tallied.step event)

/-- The loop keeps an account that the events keep. -/
theorem Account.Kept.monitor {account : Account R}
    {act : (op : Op) → World → Answer op → World → Prop}
    {disturb : Option Op → World → World → Prop} {quiet : System R → Event R → Bool}
    (keeps : account.KeptBy order libm act disturb quiet) (events : List (Event R)) (m : Monitor R)
    (kept : account.Kept act disturb m.system)
    (conditions : m.along env order libm quiet events = true) :
    account.Kept act disturb (m.run env order libm events).system := by
  induction events generalizing m with
  | nil => exact kept
  | cons event rest ih =>
      rw [Monitor.along, Bool.and_eq_true] at conditions
      refine ih _ ?_ conditions.2
      have moved : account.Kept act disturb (m.system.step env order libm event) :=
        kept.step keeps m.system event conditions.1
      rcases m.step_cases env order libm event with ⟨report, rfl, -, next⟩ | ⟨next, -⟩
      · rw [next]
        exact moved
      · rw [next]
        exact moved

end Loop

theorem added_toInt {R : Type} (reports : List (Report R)) :
    (reports.map fun report => report.added.toInt) =
      (reports.map Report.added).map BitVec.toInt := by
  rw [List.map_map]
  rfl

theorem tallied_initial (R : Type) : Tallied (Monitor.initial R) :=
  ⟨rfl, by intro p running; cases running⟩

/-- Among packets in any order, as long as the counts of the calls do not overflow: every roundup
printed is the sum of eleven calls in a row, from the first one with packets on. -/
theorem roundups_printed {R : Type} [Field R] [LinearOrder R] (env : Env)
    (order : BoundedMap.Enumeration Addr) (libm : Libm R) (events : List (Event R))
    (countable : Countable (((Monitor.initial R).run env order libm events).system.reports.map
      fun report => report.added.toInt)) :
    ((Monitor.initial R).run env order libm events).roundups.map BitVec.toInt =
      roundupsOf (((Monitor.initial R).run env order libm events).system.reports.map
        fun report => report.added.toInt) := by
  have tallied := tallied_run env order libm events _ (tallied_initial R)
  have printed := congrArg Tally.roundups tallied.tally
  have start : Gathering Tally.initial [] := ⟨rfl, rfl, by decide, by simp⟩
  rw [added_toInt] at countable ⊢
  have all := tally_roundups _ Tally.initial [] start countable
  rw [← printed] at all
  exact all

/-- One packet before each of eleven calls. -/
def elevenCalls : List (Event Rat) :=
  (List.range 11).flatMap fun _ =>
    [.packet (Frame.ipv4From 1), .call plainHeap] ++ List.replicate 8 .user

def afterEleven : Monitor Rat := (Monitor.initial Rat).run plainEnv (.stored _) plainLibm elevenCalls

theorem eleven_packets_printed : afterEleven.roundups.map BitVec.toInt = [11] := by
  have added : (afterEleven.system.reports.map fun report => report.added.toInt) =
      List.replicate 11 1 := by decide +kernel
  have nonneg : ∀ count ∈ List.replicate 11 (1 : Int), 0 ≤ count := by decide
  have countable : Countable (List.replicate 11 (1 : Int)) := by
    refine ⟨nonneg, ?_⟩
    intro window inside _
    have small : window.sum ≤ (List.replicate 11 (1 : Int)).sum :=
      inside.sublist.sum_le_sum nonneg
    exact lt_of_le_of_lt small (by decide)
  have sums : roundupsOf (List.replicate 11 1) = [11] := by
    have full := roundupsOf_full (List.replicate 11 1) [] rfl (by decide)
    rw [List.append_nil, roundupsOf_short [] (by decide)] at full
    exact full
  rw [← sums]
  rw [← added] at countable ⊢
  unfold afterEleven at countable ⊢
  exact roundups_printed plainEnv (.stored _) plainLibm elevenCalls countable

/-- When no call is under way and no packet arrived between a call's reading and writing of the data
record: every packet is in one of the roundups printed, in `holder` or in the counter of the current
interval, up to the width of the counters. -/
theorem packets_rounded_up {R : Type} [Field R] [LinearOrder R] (env : Env)
    (order : BoundedMap.Enumeration Addr) (libm : Libm R) (events : List (Event R))
    (idle : ((Monitor.initial R).run env order libm events).system.process = none)
    (quiet : (Monitor.initial R).along env order libm dataQuiet events = true) :
    let m := (Monitor.initial R).run env order libm events
    (m.system.world.total : I32) =
      m.roundups.sum + m.system.statics.holder + m.system.world.maps.data.value.curIntervalPkt := by
  intro m
  have kept := Account.Kept.monitor env order libm (dataAccount_kept order libm) events
    (Monitor.initial R) rfl quiet
  rw [Account.Kept, idle] at kept
  have tallied := tallied_run env order libm events _ (tallied_initial R)
  have sum := tally_sum (m.system.reports.map Report.added) Tally.initial
  rw [← tallied.tally] at sum
  have balanced : (m.system.world.total : Int) =
    (m.system.reports.map fun report => report.added.toInt).sum + curInterval m.system.world := kept
  have none : Tally.initial.roundups.sum + Tally.initial.holder = 0 := rfl
  rw [none, zero_add] at sum
  calc (m.system.world.total : I32)
    _ = (((m.system.world.total : Int)) : I32) := (Int.cast_natCast _).symm
    _ = (m.system.reports.map Report.added).sum +
        m.system.world.maps.data.value.curIntervalPkt := by
      rw [balanced, Int.cast_add, added_toInt, intCast_sum_toInt, curInterval, intCast_toInt]
    _ = _ := by
      rw [← sum]
      rfl

theorem eleven_packets_rounded_up :
    (afterEleven.system.world.total : I32) =
      afterEleven.roundups.sum + afterEleven.system.statics.holder +
        afterEleven.system.world.maps.data.value.curIntervalPkt := by
  have idle : afterEleven.system.process.isNone := by decide +kernel
  unfold afterEleven at idle ⊢
  exact packets_rounded_up plainEnv (.stored _) plainLibm elevenCalls
    (Option.isNone_iff_eq_none.mp idle) (by decide +kernel)

end Fide.UserEbpf
