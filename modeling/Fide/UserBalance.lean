import Fide.UserInterleaving

/-! No packet is lost or doubled between the two sides, as long as none arrives while the user
process holds the record that counts it. -/

namespace Fide.UserEbpf

open Words

/-! ### Arrivals -/

/-- An IPv4 packet of a source. -/
def World.arrive (a : Addr) (w : World) : World where
  maps := recorded a w.maps
  total := w.total + 1
  sent := fun b => w.sent b + if b = a then 1 else 0

theorem receive_ignored (env : Env) (w : World) (frame : Frame) (other : ipv4Source frame = none) :
    w.receive env frame = w := by
  rw [World.receive, filter_ignored env w.maps frame other, other]
  rfl

theorem receive_source (env : Env) (w : World) (frame : Frame) (a : Addr)
    (source : ipv4Source frame = some a) : w.receive env frame = w.arrive a := by
  rw [World.receive, filter_recorded env w.maps frame a source, source]
  simp only [Option.isSome_some, ↓reduceIte, Option.some.injEq, World.arrive, eq_comm]

/-! ### Accounts -/

/-- A number of packets to be accounted for, the counter that holds those of the current interval,
and the share of them a finished call has taken over. -/
structure Account (R : Type) where
  counted : World → Int
  counter : World → Int
  amount : Report R → Int

namespace Account

variable {R : Type}

def Balanced (account : Account R) (base : Int) (w : World) : Prop :=
  account.counted w = base + account.counter w

section Runs

variable [Field R] [LinearOrder R]
  (env : Env) (order : BoundedMap.Enumeration Addr) (libm : Libm R) (account : Account R)
  (act : (op : Op) → World → Answer op → World → Prop) (disturb : Option Op → World → World → Prop)

/-- Between calls the account is balanced; during a call it will be once the call ends. -/
def Kept (s : System R) : Prop :=
  let base := (s.reports.map account.amount).sum
  match s.process with
  | none => account.Balanced base s.world
  | some p =>
      p.Ensures act disturb (fun report w => account.Balanced (base + account.amount report) w)
        s.world

/-- What an account needs to be kept by the events that meet a condition: they disturb and act
within the given bounds, disturbances keep the balance between calls, and every call, started in
balance, ends in balance. -/
structure KeptBy (quiet : System R → Event R → Bool) : Prop where
  disturbs : ∀ s frame a, ipv4Source frame = some a → quiet s (.packet frame) = true →
    disturb s.pending s.world (s.world.arrive a)
  acts : ∀ s op next, s.process = some (.perform op next) → quiet s .user = true →
    act op s.world (s.world.exec order op).1 (s.world.exec order op).2
  stable : ∀ base w w', account.Balanced base w → disturb none w w' → account.Balanced base w'
  calls : ∀ heap statics base w, account.Balanced base w →
    (calculateEnt libm heap statics).Ensures act disturb
      (fun report w => account.Balanced (base + account.amount report) w) w

variable {env order libm account act disturb}

theorem Kept.step {quiet : System R → Event R → Bool}
    (keeps : KeptBy order libm account act disturb quiet) (s : System R) (event : Event R)
    (kept : account.Kept act disturb s) (condition : quiet s event = true) :
    account.Kept act disturb (s.step env order libm event) := by
  obtain ⟨world, statics, process, reports⟩ := s
  cases event with
  | packet frame =>
      cases source : ipv4Source frame with
      | none =>
          simp only [System.step, receive_ignored env world frame source]
          exact kept
      | some a =>
          have disturbance := keeps.disturbs _ frame a source condition
          simp only [System.step, receive_source env world frame a source]
          cases process with
          | none => exact keeps.stable _ _ _ kept disturbance
          | some p =>
              exact Program.Ensures.disturbed (fun report => keeps.stable _) kept disturbance
  | call heap =>
      cases process with
      | none => exact keeps.calls heap statics _ world kept
      | some p => exact kept
  | user =>
      match process, kept with
      | none, kept => exact kept
      | some (.done report), kept =>
          change account.Balanced ((reports ++ [report]).map account.amount).sum world
          rw [List.map_append, List.sum_append, List.map_singleton, List.sum_singleton]
          exact kept
      | some (.perform op next), kept =>
          exact Program.Ensures.acts kept (keeps.acts _ op next rfl condition)

theorem Kept.run {quiet : System R → Event R → Bool}
    (keeps : KeptBy order libm account act disturb quiet) (s : System R) (events : List (Event R))
    (kept : account.Kept act disturb s) (conditions : s.along env order libm quiet events = true) :
    account.Kept act disturb (s.run env order libm events) := by
  induction events generalizing s with
  | nil => exact kept
  | cons event rest ih =>
      rw [System.along, Bool.and_eq_true] at conditions
      exact ih _ (kept.step keeps s event conditions.1) conditions.2

end Runs

end Account

/-! ### Calls under disturbance -/

section Calls

variable {R : Type} [Field R] [LinearOrder R] (order : BoundedMap.Enumeration Addr) (libm : Libm R)
  {act : (op : Op) → World → Answer op → World → Prop} {disturb : Option Op → World → World → Prop}
  (acts : ∀ op w answer w', act op w answer w' →
    answer = (w.exec order op).1 ∧ w' = (w.exec order op).2)

include acts

/-- The enumeration only reads: what disturbances keep meanwhile holds at its end. -/
theorem enumerate_keeps (inv : World → Prop) (data : DataValue)
    (listing : ∀ key w w', inv w → disturb (some (.nextKey key)) w w' → inv w')
    (reading : ∀ key w w', inv w → disturb (some (.lookupEntry key)) w w' → inv w')
    (fuel i : Nat) (key : Addr) (scan : Scan R) (w : World) (holds : inv w) :
    (enumerate libm data fuel i key scan).Ensures act disturb (fun _ w => inv w) w := by
  induction fuel generalizing i key scan w with
  | zero => exact holds
  | succ fuel ih =>
      refine Program.ensures_perform _ holds (reading key) ?_
      intro w answer w' holds effect
      obtain ⟨rfl, rfl⟩ := acts _ _ _ _ effect
      refine Program.ensures_perform _ holds (listing key) ?_
      intro w answer w' holds effect
      obtain ⟨rfl, rfl⟩ := acts _ _ _ _ effect
      split
      · exact holds
      · exact ih _ _ _ _ holds

/-- The rule for a call: what holds before it reads the data record, what holds from there on until
the record is written back, and what the rest of the call makes of that. -/
theorem calculateEnt_ensures (post : Report R → World → Prop) (before : World → Prop)
    (during : DataValue → World → Prop) (heap : Heap R) (statics : Statics)
    (starting : ∀ w w', before w → disturb (some .lookupData) w w' → before w')
    (read : ∀ w, before w → during w.maps.data.value w)
    (listing : ∀ data key w w', during data w → disturb (some (.nextKey key)) w w' → during data w')
    (reading : ∀ data key w w', during data w → disturb (some (.lookupEntry key)) w w' →
      during data w')
    (concludes : ∀ data i scan w, during data w →
      (concludeCall libm statics data i scan).Ensures act disturb post w)
    (w : World) (holds : before w) :
    (calculateEnt libm heap statics).Ensures act disturb post w := by
  refine Program.ensures_perform _ holds starting ?_
  intro w answer w' holds effect
  obtain ⟨rfl, rfl⟩ := acts _ _ _ _ effect
  have held : during w.maps.data.value w := read w holds
  simp only [World.exec, exec, Slots.lookup_zero, Option.getD_some]
  refine Program.ensures_perform _ held (listing _ 0) ?_
  intro w' answer w'' held effect
  obtain ⟨rfl, rfl⟩ := acts _ _ _ _ effect
  split
  · exact concludes _ _ _ _ held
  · refine Program.ensures_bind ((enumerate_keeps order libm acts (during w.maps.data.value) _
      (listing _) (reading _) _ _ _ _ _ held).mono ?_)
    intro found w held
    rcases found with ⟨i, scan⟩
    exact concludes _ i scan w held

end Calls

/-! ### All packets -/

section Data

variable {R : Type}

def curInterval (w : World) : Int := w.maps.data.value.curIntervalPkt.toInt

def dataAccount (R : Type) : Account R := ⟨fun w => w.total, curInterval, fun r => r.added.toInt⟩

def dataActs (order : BoundedMap.Enumeration Addr) (op : Op) (w : World) (answer : Answer op)
    (w' : World) : Prop :=
  answer = (w.exec order op).1 ∧ w' = (w.exec order op).2

def dataDisturbs (pending : Option Op) (w w' : World) : Prop :=
  ∃ a, holdsData pending = false ∧ curInterval w < 2 ^ 31 - 1 ∧ w' = w.arrive a

theorem curInterval_arrive (w : World) (a : Addr) (room : curInterval w < 2 ^ 31 - 1) :
    curInterval (w.arrive a) = curInterval w + 1 := by
  simp only [curInterval, World.arrive, recorded, Slots.value_update_zero]
  exact toInt_succ _ room

theorem dataBalanced_disturbed (base : Int) (pending : Option Op) (w w' : World)
    (balanced : (dataAccount R).Balanced base w) (disturbance : dataDisturbs pending w w') :
    (dataAccount R).Balanced base w' := by
  obtain ⟨a, -, room, rfl⟩ := disturbance
  have next := curInterval_arrive w a room
  have before : (w.total : Int) = base + curInterval w := balanced
  change ((w.total + 1 : Nat) : Int) = base + curInterval (w.arrive a)
  push_cast
  omega

theorem reset_dataBalanced (order : BoundedMap.Enumeration Addr) (ip : Nat → Addr) (base : Int)
    (fuel k : Nat) (buffer : LoggerValue) (moved : List (Addr × I32)) (w : World)
    (balanced : (dataAccount R).Balanced base w) :
    (reset ip fuel k buffer moved).Ensures (dataActs order) dataDisturbs
      (fun _ w => (dataAccount R).Balanced base w) w := by
  induction fuel generalizing k buffer moved w with
  | zero => exact balanced
  | succ fuel ih =>
      refine Program.ensures_perform _ balanced (dataBalanced_disturbed base _) ?_
      intro w answer w' balanced effect
      rcases effect with ⟨rfl, rfl⟩
      unfold writeBack
      split
      · refine Program.ensures_perform _ balanced (dataBalanced_disturbed base _) ?_
        intro w answer w' balanced effect
        rcases effect with ⟨rfl, rfl⟩
        exact ih (k + 1) _ _ _ balanced
      · refine Program.ensures_perform _ balanced (dataBalanced_disturbed base _) ?_
        intro w answer w' balanced effect
        rcases effect with ⟨rfl, rfl⟩
        exact ih (k + 1) _ _ _ balanced

/-- While the process holds the record, no packet arrives. -/
theorem total_undisturbed (total : Int) (op : Op) (held : holdsData (some op) = true)
    (w w' : World) (_inv : (w.total : Int) = total) (disturbance : dataDisturbs (some op) w w') :
    (w'.total : Int) = total := by
  obtain ⟨a, free, -⟩ := disturbance
  rw [held] at free
  cases free

variable [Field R] [LinearOrder R] (order : BoundedMap.Enumeration Addr) (libm : Libm R)

theorem concludeCall_dataBalanced (statics : Statics) (data : DataValue) (base : Int) (i : Nat)
    (scan : Scan R) (w : World) (held : (w.total : Int) = base + data.curIntervalPkt.toInt) :
    (concludeCall libm statics data i scan).Ensures (dataActs order) dataDisturbs
      (fun report w => (dataAccount R).Balanced (base + report.added.toInt) w) w := by
  refine Program.ensures_perform _ held (total_undisturbed _ _ rfl) ?_
  intro w answer w' held effect
  rcases effect with ⟨rfl, rfl⟩
  have written : (dataAccount R).Balanced (base + data.curIntervalPkt.toInt)
      (w.exec order (.updateData ⟨data.curIntervalPkt, 0⟩)).2 := by
    change (w.total : Int) = base + data.curIntervalPkt.toInt + curInterval _
    simp only [held, curInterval, World.exec, exec, Slots.value_update_zero]
    exact (add_zero _).symm
  exact Program.ensures_bind (reset_dataBalanced order scan.ip _ (i + 1) 0 _ [] _ written)

theorem calculateEnt_dataBalanced (heap : Heap R) (statics : Statics) (base : Int) (w : World)
    (balanced : (dataAccount R).Balanced base w) :
    (calculateEnt libm heap statics).Ensures (dataActs order) dataDisturbs
      (fun report w => (dataAccount R).Balanced (base + report.added.toInt) w) w := by
  refine calculateEnt_ensures order libm (fun _ _ _ _ effect => effect) _
    (fun w => (dataAccount R).Balanced base w)
    (fun data w => (w.total : Int) = base + data.curIntervalPkt.toInt) heap statics ?_ ?_ ?_ ?_ ?_ w
    balanced
  · exact dataBalanced_disturbed base _
  · exact fun w balanced => balanced
  · exact fun data key => total_undisturbed _ _ rfl
  · exact fun data key => total_undisturbed _ _ rfl
  · exact fun data => concludeCall_dataBalanced order libm statics data base

theorem dataAccount_kept :
    (dataAccount R).KeptBy order libm (dataActs order) dataDisturbs dataQuiet where
  disturbs s frame a source condition := by
    simp only [dataQuiet, source, Option.isNone_some, Bool.false_or, Bool.and_eq_true,
      Bool.not_eq_true', decide_eq_true_eq] at condition
    exact ⟨a, condition.1, condition.2, rfl⟩
  acts _ _ _ _ _ := ⟨rfl, rfl⟩
  stable base := dataBalanced_disturbed base none
  calls heap statics base w balanced := calculateEnt_dataBalanced order libm heap statics base w
    balanced

end Data

/-! ### The packets of one source -/

section Source

variable {R : Type} (a : Addr)

def curCount (w : World) : Int := (curOf w.maps.logger a).toInt

def sourceAccount (R : Type) : Account R :=
  ⟨fun w => w.sent a, curCount a, fun report => movedFrom report.moved a⟩

def sourceActs (order : BoundedMap.Enumeration Addr) (op : Op) (w : World) (answer : Answer op)
    (w' : World) : Prop :=
  (writesEntry a (some op) = true → (w.maps.logger.lookup a).isSome) ∧
    answer = (w.exec order op).1 ∧ w' = (w.exec order op).2

def sourceDisturbs (pending : Option Op) (w w' : World) : Prop :=
  ∃ b, w' = w.arrive b ∧ (b = a → holdsEntry a pending = false ∧
    w.maps.logger.accepts a = true ∧ curCount a w < 2 ^ 31 - 1)

variable {a}

theorem movedFrom_append (moved : List (Addr × I32)) (key : Addr) (n : I32) :
    movedFrom (moved ++ [(key, n)]) a = movedFrom moved a + if key = a then n.toInt else 0 := by
  unfold movedFrom
  by_cases same : key = a <;> simp [List.filter_append, same]

theorem sourceBalanced_disturbed (base : Int) (pending : Option Op) (w w' : World)
    (balanced : (sourceAccount a R).Balanced base w) (disturbance : sourceDisturbs a pending w w') :
    (sourceAccount a R).Balanced base w' := by
  obtain ⟨b, rfl, own⟩ := disturbance
  have before : (w.sent a : Int) = base + curCount a w := balanced
  by_cases same : b = a
  · subst same
    obtain ⟨-, accepted, room⟩ := own rfl
    have next : curCount b (w.arrive b) = curCount b w + 1 := by
      rw [curCount, World.arrive, recorded, curOf_logPacket_self w.maps.logger b accepted]
      exact toInt_succ _ room
    change ((w.sent b + if b = b then 1 else 0 : Nat) : Int) = base + curCount b (w.arrive b)
    rw [if_pos rfl]
    push_cast
    omega
  · have next : curCount a (w.arrive b) = curCount a w := by
      rw [curCount, World.arrive, recorded,
        curOf_logPacket_of_ne w.maps.logger b a (fun equal => same equal.symm), curCount]
    change ((w.sent a + if a = b then 1 else 0 : Nat) : Int) = base + curCount a (w.arrive b)
    rw [if_neg (fun equal => same equal.symm), Nat.add_zero, next]
    exact before

/-- In balance, and holding the entry under `key` as it was read. -/
def Holding (a : Addr) (base : Int) (key : Addr) (found : Option LoggerValue) (w : World) : Prop :=
  (w.sent a : Int) = base + curCount a w ∧ (key = a → w.maps.logger.lookup a = found)

theorem holding_disturbed (base : Int) (key : Addr) (found : Option LoggerValue) (op : Op)
    (held : key = a → holdsEntry a (some op) = true) (w w' : World)
    (holding : Holding a base key found w) (disturbance : sourceDisturbs a (some op) w w') :
    Holding a base key found w' := by
  refine ⟨sourceBalanced_disturbed (R := Unit) base (some op) w w' holding.1 disturbance, ?_⟩
  intro same
  obtain ⟨b, rfl, own⟩ := disturbance
  have other : a ≠ b := by
    intro equal
    have free := (own equal.symm).1
    rw [held same] at free
    cases free
  change (logPacket b w.maps.logger).lookup a = found
  rw [logPacket_lookup_of_ne w.maps.logger b a other]
  exact holding.2 same

/-- Deleting an entry read with a zero count changes no count. -/
theorem deleteEntry_balanced (order : BoundedMap.Enumeration Addr) (base : Int) (key : Addr)
    (found : Option LoggerValue) (buffer : LoggerValue) (idle : (found.getD buffer).cur = 0)
    (w : World) (holding : Holding a base key found w) :
    (sourceAccount a R).Balanced base (w.exec order (.deleteEntry key)).2 := by
  obtain ⟨balanced, read⟩ := holding
  have same : curCount a (w.exec order (.deleteEntry key)).2 = curCount a w := by
    change (curOf (w.maps.logger.delete key) a).toInt = (curOf w.maps.logger a).toInt
    by_cases own : key = a
    · have none : curOf w.maps.logger a = 0 := by
        rw [curOf, BoundedMap.valueAt, read own]
        cases found with
        | none => rfl
        | some value => exact idle
      rw [own, curOf_delete_self, none]
    · rw [curOf_delete_of_ne w.maps.logger key a (fun equal => own equal.symm)]
  change (w.sent a : Int) = base + curCount a _
  rw [same]
  exact balanced

/-- Writing back an entry that is there moves its count. -/
theorem updateEntry_balanced (order : BoundedMap.Enumeration Addr) (base : Int) (key : Addr)
    (found : Option LoggerValue) (buffer : LoggerValue) (w : World)
    (holding : Holding a base key found w)
    (present : key = a → (w.maps.logger.lookup a).isSome) :
    (sourceAccount a R).Balanced (base + if key = a then (found.getD buffer).cur.toInt else 0)
      (w.exec order (.updateEntry key
        { found.getD buffer with prev := (found.getD buffer).cur, cur := 0 })).2 := by
  obtain ⟨balanced, read⟩ := holding
  change (w.sent a : Int) = _ + (curOf (w.maps.logger.update key _) a).toInt
  by_cases own : key = a
  · subst own
    obtain ⟨value, stored⟩ := Option.isSome_iff_exists.mp (present rfl)
    have count : curCount key w = value.cur.toInt := by
      rw [curCount, curOf, BoundedMap.valueAt, stored, Option.elim_some]
    rw [curOf_update_self w.maps.logger key _
        (BoundedMap.accepts_of_lookup w.maps.logger key value stored), if_pos rfl, ← read rfl, stored,
      Option.getD_some, balanced, count]
    exact (add_zero _).symm
  · rw [curOf_update_of_ne w.maps.logger key a _ (fun equal => own equal.symm), if_neg own, add_zero]
    exact balanced

theorem reset_sourceBalanced (order : BoundedMap.Enumeration Addr) (ip : Nat → Addr) (base : Int)
    (fuel k : Nat) (buffer : LoggerValue) (moved : List (Addr × I32)) (w : World)
    (balanced : (sourceAccount a R).Balanced (base + movedFrom moved a) w) :
    (reset ip fuel k buffer moved).Ensures (sourceActs a order) (sourceDisturbs a)
      (fun moved w => (sourceAccount a R).Balanced (base + movedFrom moved a) w) w := by
  induction fuel generalizing k buffer moved w with
  | zero => exact balanced
  | succ fuel ih =>
      refine Program.ensures_perform _ balanced (sourceBalanced_disturbed _ _) ?_
      intro w answer w' balanced effect
      rcases effect with ⟨-, rfl, rfl⟩
      have holding : Holding a (base + movedFrom moved a) (ip k) (w.maps.logger.lookup (ip k)) w :=
        ⟨balanced, fun same => by rw [same]⟩
      change (writeBack (ip k) ((w.maps.logger.lookup (ip k)).getD buffer) moved _).Ensures _ _ _ w
      generalize w.maps.logger.lookup (ip k) = found at holding
      unfold writeBack
      split
      · next idle =>
          refine Program.ensures_perform _ holding
            (holding_disturbed _ _ _ _ (fun same => decide_eq_true same)) ?_
          intro w answer w' holding effect
          rcases effect with ⟨-, rfl, rfl⟩
          exact ih (k + 1) _ _ _ (deleteEntry_balanced order _ _ found buffer idle w holding)
      · refine Program.ensures_perform _ holding
          (holding_disturbed _ _ _ _ (fun same => decide_eq_true same)) ?_
        intro w answer w' holding effect
        rcases effect with ⟨present, rfl, rfl⟩
        apply ih
        rw [movedFrom_append, ← add_assoc]
        exact updateEntry_balanced order _ _ found buffer w holding
          (fun same => present (decide_eq_true same))

variable [Field R] [LinearOrder R] (order : BoundedMap.Enumeration Addr) (libm : Libm R)

theorem concludeCall_sourceBalanced (statics : Statics) (data : DataValue) (base : Int) (i : Nat)
    (scan : Scan R) (w : World) (balanced : (sourceAccount a R).Balanced base w) :
    (concludeCall libm statics data i scan).Ensures (sourceActs a order) (sourceDisturbs a)
      (fun report w => (sourceAccount a R).Balanced (base + movedFrom report.moved a) w) w := by
  refine Program.ensures_perform _ balanced (sourceBalanced_disturbed base _) ?_
  intro w answer w' balanced effect
  rcases effect with ⟨-, rfl, rfl⟩
  refine Program.ensures_bind (reset_sourceBalanced order scan.ip base (i + 1) 0 _ [] _ ?_)
  exact balanced.trans (by rw [movedFrom]; simp; rfl)

theorem calculateEnt_sourceBalanced (heap : Heap R) (statics : Statics) (base : Int) (w : World)
    (balanced : (sourceAccount a R).Balanced base w) :
    (calculateEnt libm heap statics).Ensures (sourceActs a order) (sourceDisturbs a)
      (fun report w => (sourceAccount a R).Balanced (base + movedFrom report.moved a) w) w := by
  refine calculateEnt_ensures order libm (fun _ _ _ _ effect => effect.2) _
    (fun w => (sourceAccount a R).Balanced base w) (fun _ w => (sourceAccount a R).Balanced base w)
    heap statics ?_ ?_ ?_ ?_ ?_ w balanced
  · exact sourceBalanced_disturbed base _
  · exact fun w balanced => balanced
  · exact fun data key => sourceBalanced_disturbed base _
  · exact fun data key => sourceBalanced_disturbed base _
  · exact fun data i scan => concludeCall_sourceBalanced order libm statics data base i scan

theorem sourceAccount_kept :
    (sourceAccount a R).KeptBy order libm (sourceActs a order) (sourceDisturbs a)
      (sourceQuiet a) where
  disturbs s frame b source condition := by
    refine ⟨b, rfl, ?_⟩
    intro own
    simp only [sourceQuiet, source, own, ne_eq, not_true_eq_false, decide_false, Bool.false_or,
      Bool.and_eq_true, Bool.not_eq_true', decide_eq_true_eq] at condition
    exact ⟨condition.1.1, condition.1.2, condition.2⟩
  acts s op next running condition := by
    refine ⟨?_, rfl, rfl⟩
    intro writing
    simp only [sourceQuiet, System.pending, running, Option.bind_some, Program.pending, writing,
      Bool.not_true, Bool.false_or] at condition
    exact condition
  stable base := sourceBalanced_disturbed base none
  calls heap statics base w balanced := calculateEnt_sourceBalanced order libm heap statics base w
    balanced

end Source

/-! ### Whole runs -/

/-- Whenever no call is under way, so in particular when one has just returned: all packets are
accounted for if none arrived between a call's reading and writing of the data record, and those of
a source are if none arrived between a call's reading and writing of its entry, and no call wrote
an entry for the source while it had none. -/
theorem packets_conserved {R : Type} [Field R] [LinearOrder R] (env : Env)
    (order : BoundedMap.Enumeration Addr) (libm : Libm R) (events : List (Event R))
    (idle : ((System.initial R).run env order libm events).process = none) :
    ((System.initial R).along env order libm dataQuiet events = true →
      ((System.initial R).run env order libm events).TotalBalanced) ∧
    (∀ a, (System.initial R).along env order libm (sourceQuiet a) events = true →
      ((System.initial R).run env order libm events).SourceBalanced a) := by
  constructor
  · intro quiet
    have kept := Account.Kept.run (dataAccount_kept order libm) (System.initial R) events rfl quiet
    rw [Account.Kept, idle] at kept
    exact kept
  · intro a quiet
    have kept := Account.Kept.run (sourceAccount_kept (a := a) order libm) (System.initial R) events
      rfl quiet
    rw [Account.Kept, idle] at kept
    exact kept

/-- Logarithms and roots left as they are, for runs that are only about packets. -/
def plainLibm : Libm Rat := ⟨id, id⟩

def plainEnv : Env := ⟨[], .redirect⟩

def plainHeap : Heap Rat := ⟨⟨0, 0⟩, ⟨0, 0, 0⟩, fun _ => 0, fun _ => 0⟩

/-- A packet before a call and one while it rewrites the entry of another source. -/
theorem quiet_call_conserves :
    let events : List (Event Rat) :=
      [.packet (Frame.ipv4From 1), .call plainHeap, .user, .user, .user, .user, .user, .user,
        .packet (Frame.ipv4From 2), .user, .user]
    let s := (System.initial Rat).run plainEnv (.stored _) plainLibm events
    s.process.isNone ∧ s.TotalBalanced ∧ s.SourceBalanced 1 ∧ s.SourceBalanced 2 := by
  intro events s
  have idle : s.process.isNone := by decide +kernel
  have conserved := packets_conserved plainEnv (.stored _) plainLibm events
    (Option.isNone_iff_eq_none.mp idle)
  exact ⟨idle, conserved.1 (by decide +kernel), conserved.2 1 (by decide +kernel),
    conserved.2 2 (by decide +kernel)⟩

/-- A packet that arrives after the data record is read is overwritten by the write-back. -/
theorem packet_in_window_lost :
    ¬ ∀ (events : List (Event Rat)),
      ((System.initial Rat).run plainEnv (.stored _) plainLibm events).process = none →
      ((System.initial Rat).run plainEnv (.stored _) plainLibm events).TotalBalanced := by
  intro claim
  let events : List (Event Rat) :=
    [.packet (Frame.ipv4From 1), .call plainHeap, .user, .packet (Frame.ipv4From 1),
      .user, .user, .user, .user, .user, .user, .user]
  have idle : ((System.initial Rat).run plainEnv (.stored _) plainLibm events).process.isNone := by
    decide +kernel
  have balanced := claim events (Option.isNone_iff_eq_none.mp idle)
  revert balanced
  unfold System.TotalBalanced
  decide +kernel

end Fide.UserEbpf
