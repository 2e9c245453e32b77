import Fide.VersionsAlike

/-! What the analysis of the split version makes of the volume of traffic: nothing.

Let every packet arrive `m` times instead of once. All counters are then `m` times what they were,
and as the entropies are made of ratios of counters, every call finds the same averages and puts
the same flows to the same tests. -/

namespace Fide.UserEbpf

open Words

/-! ### Counters in their intervals -/

/-- No entry counts more than the interval it counts in, and no entry is one for 0.0.0.0. -/
structure Accounted (maps : Maps) : Prop where
  counts : ∀ k value, maps.logger.lookup k = some value →
    (0 ≤ value.prev.toInt ∧ value.prev.toInt ≤ maps.data.value.prevIntervalPkt.toInt) ∧
      0 ≤ value.cur.toInt ∧ value.cur.toInt ≤ maps.data.value.curIntervalPkt.toInt
  prevInterval : 0 ≤ maps.data.value.prevIntervalPkt.toInt
  curInterval : 0 ≤ maps.data.value.curIntervalPkt.toInt
  absent : 0 ∉ maps.logger.keys

/-- The entry of the source of a packet afterwards. -/
theorem logPacket_lookup_cases (logger : Logger) (saddr : Addr) (value : LoggerValue)
    (found : (logPacket saddr logger).lookup saddr = some value) :
    (value.prev = 0 ∧ value.cur = 1) ∨
      ∃ before, logger.lookup saddr = some before ∧ value.prev = before.prev ∧
        value.cur = before.cur + 1 := by
  unfold logPacket at found
  cases before : logger.lookup saddr with
  | none =>
      left
      simp only [before] at found
      rcases BoundedMap.lookup_update_cases _ _ _ _ _ found with stored | earlier
      · rw [stored]
        exact ⟨rfl, rfl⟩
      · rw [before] at earlier
        cases earlier
  | some entry =>
      right
      simp only [before] at found
      rw [BoundedMap.lookup_update_self _ _ _ (BoundedMap.accepts_of_lookup _ _ _ before),
        Option.some.injEq] at found
      rw [← found]
      exact ⟨entry, rfl, rfl, rfl⟩

theorem Accounted.recorded {maps : Maps} (accounted : Accounted maps) (saddr : Addr)
    (nonzero : saddr ≠ 0) (room : maps.data.value.curIntervalPkt.toInt < 2 ^ 31 - 1) :
    Accounted (recorded saddr maps) := by
  have grown := toInt_succ maps.data.value.curIntervalPkt room
  have nonneg := accounted.curInterval
  have prevInterval : (UserEbpf.recorded saddr maps).data.value.prevIntervalPkt =
      maps.data.value.prevIntervalPkt := by
    simp only [UserEbpf.recorded, Slots.value_update_zero]
  have curInterval : (UserEbpf.recorded saddr maps).data.value.curIntervalPkt =
      maps.data.value.curIntervalPkt + 1 := by
    simp only [UserEbpf.recorded, Slots.value_update_zero]
  constructor
  · intro k value found
    rw [prevInterval, curInterval, grown]
    by_cases own : k = saddr
    · subst own
      rcases logPacket_lookup_cases maps.logger k value found with ⟨prev, cur⟩ | known
      · rw [prev, cur]
        exact ⟨⟨le_rfl, accounted.prevInterval⟩, by decide, by
          rw [show (1 : I32).toInt = 1 by decide]
          omega⟩
      · obtain ⟨before, present, prev, cur⟩ := known
        obtain ⟨earlier, low, high⟩ := accounted.counts k before present
        rw [prev, cur, toInt_succ before.cur (by omega)]
        exact ⟨earlier, by omega, by omega⟩
    · rw [UserEbpf.recorded, logPacket_lookup_of_ne maps.logger saddr k own] at found
      obtain ⟨earlier, low, high⟩ := accounted.counts k value found
      exact ⟨earlier, low, by omega⟩
  · rw [prevInterval]
    exact accounted.prevInterval
  · rw [curInterval, grown]
    omega
  · intro member
    rcases user_logPacket_keys saddr 0 maps.logger member with same | before
    · exact nonzero same.symm
    · exact accounted.absent before

theorem Accounted.reset {before after : Maps} (accounted : Accounted before)
    (reset : ResetBy before after) : Accounted after := by
  have zero : (0 : I32).toInt = 0 := rfl
  constructor
  · intro k value found
    have moved := reset.logger k
    rw [found, Option.map_some] at moved
    cases present : before.logger.lookup k with
    | none =>
        rw [present] at moved
        cases moved
    | some entry =>
        rw [present, Option.bind_some] at moved
        split at moved
        · cases moved
        · obtain ⟨prev, cur⟩ := Prod.mk.inj (Option.some.inj moved)
          obtain ⟨-, low, high⟩ := accounted.counts k entry present
          rw [prev, cur, reset.data]
          exact ⟨⟨low, high⟩, le_rfl, le_rfl⟩
  · rw [reset.data]
    exact accounted.curInterval
  · rw [reset.data]
    exact le_rfl
  · intro member
    have busy := reset_keys reset 0 member
    rw [curOf, BoundedMap.valueAt_of_notMem _ _ _ accounted.absent] at busy
    exact busy rfl

/-! ### Multiplied counters -/

def LoggerValue.times (m : Nat) (value : LoggerValue) : LoggerValue :=
  { value with prev := m * value.prev, cur := m * value.cur }

def DataValue.times (m : Nat) (data : DataValue) : DataValue where
  prevIntervalPkt := m * data.prevIntervalPkt
  curIntervalPkt := m * data.curIntervalPkt

def Maps.times (m : Nat) (maps : Maps) : Maps where
  logger := maps.logger.mapValues (LoggerValue.times m)
  data := maps.data.update 0 (maps.data.value.times m)

/-- The product of a counter fits its type. -/
def Multiple (m : Nat) (n : I32) : Prop := 0 ≤ n.toInt ∧ m * n.toInt < 2 ^ 31

theorem Multiple.toInt {m : Nat} {n : I32} (fits : Multiple m n) :
    ((m : I32) * n).toInt = m * n.toInt := by
  obtain ⟨nonneg, high⟩ := fits
  have number := toInt_eq_toNat n nonneg
  have product : m * n.toNat < 2 ^ 31 := by
    rw [number] at high
    exact_mod_cast high
  have value : ((m : I32) * n).toNat = m * n.toNat := by
    rw [BitVec.toNat_mul, BitVec.natCast_eq_ofNat, BitVec.toNat_ofNat, Nat.mod_mul_mod,
      Nat.mod_eq_of_lt (by omega)]
  rw [BitVec.toInt_eq_toNat_of_lt (by omega), value, number]
  push_cast
  rfl

theorem Multiple.eq_zero_iff {m : Nat} {n : I32} (fits : Multiple m n) (positive : 1 ≤ m) :
    (m : I32) * n = 0 ↔ n = 0 := by
  constructor
  · intro zero
    have product := fits.toInt
    rw [zero] at product
    have number : n.toInt = 0 := by
      have cases : (m : Int) = 0 ∨ n.toInt = 0 := mul_eq_zero.mp product.symm
      omega
    exact BitVec.eq_of_toInt_eq number
  · rintro rfl
    exact mul_zero _

theorem multiple_zero (m : Nat) : Multiple m 0 := by
  refine ⟨le_rfl, ?_⟩
  change (m : Int) * 0 < 2 ^ 31
  omega

structure LoggerValue.Multiple (m : Nat) (value : LoggerValue) : Prop where
  prev : UserEbpf.Multiple m value.prev
  cur : UserEbpf.Multiple m value.cur

structure DataValue.Multiple (m : Nat) (data : DataValue) : Prop where
  prevIntervalPkt : UserEbpf.Multiple m data.prevIntervalPkt
  curIntervalPkt : UserEbpf.Multiple m data.curIntervalPkt

/-- Counts that add up are their own products. -/
theorem Accounted.multiple_one {maps : Maps} (accounted : Accounted maps) :
    maps.data.value.Multiple 1 where
  prevIntervalPkt := ⟨accounted.prevInterval, by
    have bound := maps.data.value.prevIntervalPkt.toInt_lt
    omega⟩
  curIntervalPkt := ⟨accounted.curInterval, by
    have bound := maps.data.value.curIntervalPkt.toInt_lt
    omega⟩

section Entropies

variable {R : Type} [Field R] [LinearOrder R] [IsStrictOrderedRing R] (libm : Libm R) {m : Nat}
  (positive : 1 ≤ m)

include positive

/-- The entropy of an entry is made of ratios. -/
theorem entropyOf_times (data : DataValue) (value : LoggerValue)
    (total : Multiple m data.prevIntervalPkt) (counts : value.Multiple m) :
    entropyOf libm (data.times m) (value.times m) = entropyOf libm data value := by
  have factor : (m : R) ≠ 0 := by
    rw [Nat.cast_ne_zero]
    omega
  have sign : (0 : Int) < m := by omega
  have order : (m : Int) * value.cur.toInt ≤ m * value.prev.toInt ↔
      value.cur.toInt ≤ value.prev.toInt := mul_le_mul_iff_right₀ sign
  have prev : ((value.times m).prev.toInt : R) = m * value.prev.toInt := by
    rw [LoggerValue.times, counts.prev.toInt]
    push_cast
    rfl
  have cur : ((value.times m).cur.toInt : R) = m * value.cur.toInt := by
    rw [LoggerValue.times, counts.cur.toInt]
    push_cast
    rfl
  have prevInterval : ((data.times m).prevIntervalPkt.toInt : R) =
      m * data.prevIntervalPkt.toInt := by
    rw [DataValue.times, total.toInt]
    push_cast
    rfl
  have branch : (value.times m).cur.toInt ≤ (value.times m).prev.toInt ↔
      value.cur.toInt ≤ value.prev.toInt := by
    rw [LoggerValue.times, counts.cur.toInt, counts.prev.toInt]
    exact order
  simp only [entropyOf, prev, cur, prevInterval, branch, mul_div_mul_left _ _ factor]

/-! ### A call -/

/-- The same buffers, but for the counters kept beside the entropies. -/
structure Scan.Matches (m : Nat) (scan other : Scan R) : Prop where
  ent : other.ent = scan.ent
  ip : other.ip = scan.ip
  entropyAll : other.entropyAll = scan.entropyAll
  entries : other.entries = scan.entries.map fun entry => (entry.1, entry.2.times m)

theorem Scan.Matches.record {scan other : Scan R} (same : scan.Matches m other) (data : DataValue)
    (total : UserEbpf.Multiple m data.prevIntervalPkt) (i : Nat) (key : Addr) (value : LoggerValue)
    (counts : value.Multiple m) :
    (scan.record libm data i key (some value)).Matches m
      (other.record libm (data.times m) i key (some (value.times m))) := by
  have entropy := entropyOf_times libm positive data value total counts
  constructor
  · simp only [Scan.record, Option.getD_some, entropy, same.ent]
  · simp only [Scan.record, same.ip]
  · simp only [Scan.record, Option.getD_some, entropy, same.entropyAll]
  · simp only [Scan.record, Option.getD_some, same.entries, List.map_append, List.map_cons,
      List.map_nil]

/-- The enumeration of a logger whose counters are multiplied. The buffer holds the entry found
last. -/
theorem recordAll_times (data : DataValue) (total : UserEbpf.Multiple m data.prevIntervalPkt)
    (find : Addr → Option LoggerValue) (keys : List Addr) (i : Nat)
    (present : ∀ k ∈ keys, ∃ value, find k = some value ∧ value.Multiple m)
    {scan other : Scan R} (same : scan.Matches m other)
    (buffer : other.loggerValue = scan.loggerValue.times m ∧ scan.loggerValue.Multiple m ∨
      keys ≠ []) :
    let scanned := scan.recordAll libm data find i keys
    let again := other.recordAll libm (data.times m)
      (fun k => (find k).map (LoggerValue.times m)) i keys
    scanned.Matches m again ∧ again.loggerValue = scanned.loggerValue.times m ∧
      scanned.loggerValue.Multiple m := by
  induction keys generalizing i scan other with
  | nil => exact ⟨same, buffer.resolve_right (fun some => some rfl)⟩
  | cons key rest ih =>
      obtain ⟨value, found, counts⟩ := present key List.mem_cons_self
      simp only [Scan.recordAll, found, Option.map_some]
      apply ih (i + 1) (fun k member => present k (List.mem_cons_of_mem _ member))
      · exact same.record libm positive data total i key value counts
      · exact .inl ⟨rfl, counts⟩

end Entropies

/-- Multiplied counts moved into `prev`. -/
def movedTimes (m : Nat) (moved : List (Addr × I32)) : List (Addr × I32) :=
  moved.map fun entry => (entry.1, (m : I32) * entry.2)

section Reset

variable (order : BoundedMap.Enumeration Addr) {m : Nat} (positive : 1 ≤ m)

include positive

/-- The reset of a logger whose counters are multiplied. -/
theorem reset_times (ip : Nat → Addr) (fuel k : Nat) (buffer : LoggerValue)
    (moved : List (Addr × I32)) (maps : Maps) (counts : buffer.Multiple m)
    (entries : ∀ k value, maps.logger.lookup k = some value → value.Multiple m) :
    (reset ip fuel k (buffer.times m) (movedTimes m moved)).run (exec order) (maps.times m) =
      (movedTimes m ((reset ip fuel k buffer moved).run (exec order) maps).1,
        ((reset ip fuel k buffer moved).run (exec order) maps).2.times m) := by
  induction fuel generalizing k buffer moved maps with
  | zero => rfl
  | succ fuel ih =>
      let value := (maps.logger.lookup (ip k)).getD buffer
      have found : ((maps.times m).logger.lookup (ip k)).getD (buffer.times m) = value.times m := by
        rw [Maps.times, BoundedMap.lookup_mapValues, Option.getD_map]
      have range : value.Multiple m := by
        cases present : maps.logger.lookup (ip k) with
        | none => simpa [value, present] using counts
        | some entry => simpa [value, present] using entries (ip k) entry present
      have test : (value.times m).cur = 0 ↔ value.cur = 0 := range.cur.eq_zero_iff positive
      change (writeBack (ip k) (((maps.times m).logger.lookup (ip k)).getD (buffer.times m))
          (movedTimes m moved) (reset ip fuel (k + 1))).run (exec order) (maps.times m) =
        (movedTimes m ((writeBack (ip k) value moved (reset ip fuel (k + 1))).run (exec order)
            maps).1,
          ((writeBack (ip k) value moved (reset ip fuel (k + 1))).run (exec order) maps).2.times m)
      rw [found]
      unfold writeBack
      by_cases idle : value.cur = 0
      · rw [if_pos idle, if_pos (test.mpr idle)]
        have step := ih (k + 1) value moved { maps with logger := maps.logger.delete (ip k) } range
          (fun other entry present => entries other entry
            (BoundedMap.lookup_of_delete _ _ _ _ present))
        rw [Maps.times, BoundedMap.mapValues_delete] at step
        exact step
      · let written : LoggerValue := { value with prev := value.cur, cur := 0 }
        have kept : written.Multiple m := ⟨range.cur, multiple_zero m⟩
        have multiplied : { value.times m with prev := (value.times m).cur, cur := 0 } =
            written.times m := by
          simp only [written, LoggerValue.times, mul_zero]
        have step := ih (k + 1) written (moved ++ [(ip k, value.cur)])
          { maps with logger := maps.logger.update (ip k) written } kept (by
            intro other entry present
            rcases BoundedMap.lookup_update_cases _ _ _ _ _ present with stored | earlier
            · rw [stored]
              exact kept
            · exact entries other entry earlier)
        rw [Maps.times, BoundedMap.mapValues_update, movedTimes, List.map_append,
          List.map_singleton] at step
        rw [if_neg idle, if_neg (mt test.mp idle), multiplied]
        exact step

end Reset

section Call

variable (order : BoundedMap.Enumeration Addr) {R : Type} [Field R] [LinearOrder R] (libm : Libm R)
  {m : Nat}

def Statics.times (m : Nat) (statics : Statics) : Statics :=
  { statics with holder := m * statics.holder }

/-- The same flows, average, spread and tests; the counts are multiplied. -/
def Report.times (m : Nat) (report : Report R) : Report R :=
  { report with
    entries := report.entries.map fun entry => (entry.1, entry.2.times m)
    added := m * report.added
    moved := movedTimes m report.moved
    statics := report.statics.times m }

theorem dataReset_times (maps : Maps) : (dataReset maps).times m = dataReset (maps.times m) := by
  simp only [dataReset, Maps.times, DataValue.times, Slots.value_update_zero,
    Slots.update_update_zero, mul_zero]

/-- The part of a call after the enumeration. -/
theorem concludeCall_times (positive : 1 ≤ m) (statics : Statics) (maps : Maps) (i : Nat)
    {scan other : Scan R} (same : scan.Matches m other)
    (buffer : other.loggerValue = scan.loggerValue.times m) (counts : scan.loggerValue.Multiple m)
    (entries : ∀ k value, maps.logger.lookup k = some value → value.Multiple m) :
    (concludeCall libm (statics.times m) (maps.times m).data.value i other).run (exec order)
        (maps.times m) =
      let result := (concludeCall libm statics maps.data.value i scan).run (exec order) maps
      (result.1.times m, result.2.times m) := by
  have data : (maps.times m).data.value = maps.data.value.times m := Slots.value_update_zero _ _
  have moved := reset_times order positive scan.ip (i + 1) 0 scan.loggerValue [] (dataReset maps)
    counts entries
  have detected : ∀ avg std, detect other avg std = detect scan avg std := by
    intro avg std
    funext acc k
    simp only [detect, same.ent, same.ip]
  rw [dataReset_times] at moved
  change (Program.bind (reset other.ip (i + 1) 0 other.loggerValue []) _).run (exec order)
      (dataReset (maps.times m)) =
    (Report.times m ((Program.bind (reset scan.ip (i + 1) 0 scan.loggerValue []) _).run (exec order)
        (dataReset maps)).1,
      Maps.times m ((Program.bind (reset scan.ip (i + 1) 0 scan.loggerValue []) _).run (exec order)
        (dataReset maps)).2)
  rw [Program.run_bind, Program.run_bind, buffer, same.ip,
    show ([] : List (Addr × I32)) = movedTimes m [] from rfl, moved]
  simp only [Program.run, Report.times, Statics.times, same.ent, same.entropyAll, same.entries,
    detected, data, DataValue.times, mul_add]
  rfl

/-- With room for the multiplied interval counters there is room for those of every entry. -/
theorem Accounted.multiple {maps : Maps} (accounted : Accounted maps)
    (room : maps.data.value.Multiple m) (k : Addr) (value : LoggerValue)
    (found : maps.logger.lookup k = some value) : value.Multiple m := by
  obtain ⟨⟨prevLow, prevHigh⟩, curLow, curHigh⟩ := accounted.counts k value found
  have prev : (m : Int) * value.prev.toInt ≤ m * maps.data.value.prevIntervalPkt.toInt :=
    mul_le_mul_of_nonneg_left prevHigh (Int.natCast_nonneg m)
  have cur : (m : Int) * value.cur.toInt ≤ m * maps.data.value.curIntervalPkt.toInt :=
    mul_le_mul_of_nonneg_left curHigh (Int.natCast_nonneg m)
  exact ⟨⟨prevLow, lt_of_le_of_lt prev room.prevIntervalPkt.2⟩,
    ⟨curLow, lt_of_le_of_lt cur room.curIntervalPkt.2⟩⟩

/-- A call on multiplied counters does and reports what it does on the counters themselves. -/
theorem calculateEnt_times [IsStrictOrderedRing R] (positive : 1 ≤ m) (heap : Heap R)
    (statics : Statics) (maps : Maps) (accounted : Accounted maps)
    (room : maps.data.value.Multiple m) (some : maps.logger.keys ≠ []) :
    (calculateEnt libm heap (statics.times m)).run (exec order) (maps.times m) =
      let result := (calculateEnt libm heap statics).run (exec order) maps
      (result.1.times m, result.2.times m) := by
  obtain ⟨key, rest, listed, first⟩ := listed_first order maps some accounted.absent
  have keys : (maps.times m).logger.keys = maps.logger.keys := BoundedMap.keys_mapValues _ _
  have again : (maps.times m).logger.nextKey order 0 = Option.some key := by
    obtain ⟨key', rest', listed', first'⟩ := listed_first order (maps.times m)
      (by rwa [keys]) (by rw [keys]; exact accounted.absent)
    rw [keys, listed] at listed'
    rw [first', (List.cons.inj listed').1]
  have data : (maps.times m).data.value = maps.data.value.times m := Slots.value_update_zero _ _
  have entries := accounted.multiple room
  have scanned := recordAll_times libm positive maps.data.value room.prevIntervalPkt
    maps.logger.lookup (key :: rest) 0 (by
      intro k member
      have present := listed_present order maps k (listed ▸ member)
      obtain ⟨value, found⟩ := Option.isSome_iff_exists.mp present
      exact ⟨value, found, entries k value found⟩)
    (⟨rfl, rfl, rfl, rfl⟩ : heap.scan.Matches m heap.scan) (.inr (List.cons_ne_nil _ _))
  have find : (maps.times m).logger.lookup =
      fun k => (maps.logger.lookup k).map (LoggerValue.times m) := by
    funext k
    exact BoundedMap.lookup_mapValues _ _ _
  rw [calculateEnt_some order libm heap statics maps [] rest key first listed,
    calculateEnt_some order libm heap (statics.times m) (maps.times m) [] rest key again
      (by rw [keys, listed]; rfl), find, data]
  have concluded := concludeCall_times order libm positive statics maps rest.length scanned.1
    scanned.2.1 scanned.2.2 entries
  rw [data] at concluded
  exact concluded

end Call

/-! ### Packets -/

/-- The logger after `n` packets of a source. -/
def logPackets (n : Nat) (saddr : Addr) (logger : Logger) : Logger :=
  (logger.lookup saddr).elim (logger.update saddr ⟨0, n, 0⟩)
    fun value => logger.update saddr { value with cur := value.cur + n }

theorem logPacket_eq (saddr : Addr) (logger : Logger) :
    logPacket saddr logger = logPackets 1 saddr logger := by
  unfold logPacket logPackets
  cases logger.lookup saddr <;> rfl

theorem logPacket_logPackets (n : Nat) (saddr : Addr) (logger : Logger) :
    logPacket saddr (logPackets n saddr logger) = logPackets (n + 1) saddr logger := by
  unfold logPacket logPackets
  cases found : logger.lookup saddr with
  | some value =>
      have accepted := BoundedMap.accepts_of_lookup _ _ _ found
      simp only [Option.elim_some, BoundedMap.lookup_update_self _ _ _ accepted,
        BoundedMap.update_update]
      rw [Nat.cast_add, Nat.cast_one, add_assoc]
  | none =>
      cases accepted : logger.accepts saddr with
      | true =>
          simp only [Option.elim_none, BoundedMap.lookup_update_self _ _ _ accepted,
            BoundedMap.update_update]
          rw [Nat.cast_add, Nat.cast_one]
      | false =>
          simp only [Option.elim_none, BoundedMap.update_refused _ _ _ accepted, found]

theorem logPackets_times (m : Nat) (saddr : Addr) (logger : Logger) :
    logPackets m saddr (logger.mapValues (LoggerValue.times m)) =
      (logPacket saddr logger).mapValues (LoggerValue.times m) := by
  unfold logPackets logPacket
  rw [BoundedMap.lookup_mapValues]
  cases logger.lookup saddr with
  | none =>
      simp only [Option.map_none, Option.elim_none, BoundedMap.mapValues_update, LoggerValue.times,
        mul_zero, mul_one]
  | some value =>
      simp only [Option.map_some, Option.elim_some, BoundedMap.mapValues_update, LoggerValue.times,
        mul_add, mul_one]

/-- The maps after `n + 1` packets of a source. -/
theorem recorded_iterate (n : Nat) (saddr : Addr) (maps : Maps) :
    (recorded saddr)^[n + 1] maps =
      { data := maps.data.update 0
          { maps.data.value with curIntervalPkt := maps.data.value.curIntervalPkt + (n + 1 : Nat) }
        logger := logPackets (n + 1) saddr maps.logger } := by
  induction n with
  | zero =>
      rw [zero_add, Function.iterate_one, recorded, logPacket_eq]
      rfl
  | succ n ih =>
      have next : maps.data.value.curIntervalPkt + ((n + 1 + 1 : Nat) : I32) =
          maps.data.value.curIntervalPkt + ((n + 1 : Nat) : I32) + 1 := by
        rw [Nat.cast_add (n + 1) 1, Nat.cast_one, add_assoc]
      rw [Function.iterate_succ_apply', ih]
      simp only [recorded, logPacket_logPackets, Slots.value_update_zero, Slots.update_update_zero,
        next]

theorem recorded_times (m : Nat) (positive : 1 ≤ m) (saddr : Addr) (maps : Maps) :
    (recorded saddr)^[m] (maps.times m) = (recorded saddr maps).times m := by
  obtain ⟨n, rfl⟩ := Nat.exists_eq_add_of_le' positive
  rw [recorded_iterate]
  simp only [Maps.times, recorded, logPackets_times, DataValue.times, Slots.value_update_zero,
    Slots.update_update_zero, mul_add, mul_one]

/-! ### Whole runs -/

section Runs

variable {R : Type} [Field R] [LinearOrder R] (env : Env) (order : BoundedMap.Enumeration Addr)
  (libm : Libm R) {m : Nat}

/-- Every packet `m` times, every call once. -/
def Turn.times (m : Nat) : Turn R → List (Turn R)
  | .packet frame => List.replicate m (.packet frame)
  | .call heap => [.call heap]

/-- All counts multiplied; reports and `beta` as they are. -/
def System.times (m : Nat) (s : System R) : System R :=
  { s with
    world := ⟨s.world.maps.times m, m * s.world.total, fun a => m * s.world.sent a⟩
    statics := s.statics.times m
    reports := s.reports.map (Report.times m) }

/-- No packet comes from 0.0.0.0 or is one too many for the multiplied counter, and no call finds
the logger empty. -/
def System.regular (m : Nat) (s : System R) : Turn R → Bool
  | .packet frame => (ipv4Source frame).all fun saddr =>
      saddr ≠ 0 && m * (s.world.maps.data.value.curIntervalPkt.toInt + 1) < 2 ^ 31
  | .call _ => s.world.maps.logger.keys ≠ []

/-- A condition on every turn and the system it meets. -/
def System.everyTurn (condition : System R → Turn R → Bool) (s : System R) : List (Turn R) → Bool
  | [] => true
  | turn :: rest => condition s turn && everyTurn condition (s.turn env order libm turn) rest

/-- Copies of a packet of a source one after another. -/
theorem packets_turn (n : Nat) (frame : Frame) (saddr : Addr) (source : ipv4Source frame = some saddr)
    (s : System R) :
    (List.replicate n (.packet frame)).foldl (System.turn env order libm) s =
      { s with
        world := ⟨(recorded saddr)^[n] s.world.maps, s.world.total + n,
          fun a => s.world.sent a + if ipv4Source frame = some a then n else 0⟩ } := by
  induction n generalizing s with
  | zero => simp
  | succ n ih =>
      have first : s.turn env order libm (.packet frame) =
          { s with
            world := ⟨recorded saddr s.world.maps, s.world.total + 1,
              fun a => s.world.sent a + if ipv4Source frame = some a then 1 else 0⟩ } := by
        simp only [System.turn, System.step, World.receive,
          filter_recorded env s.world.maps frame saddr source, source, Option.isSome_some, ↓reduceIte]
      rw [List.replicate_succ, List.foldl_cons, ih, first]
      simp only [Function.iterate_succ_apply]
      congr 2
      · omega
      · funext a
        split <;> omega

theorem packets_ignored (n : Nat) (frame : Frame) (other : ipv4Source frame = none) (s : System R) :
    (List.replicate n (.packet frame)).foldl (System.turn env order libm) s = s := by
  induction n with
  | zero => rfl
  | succ n ih =>
      have first : s.turn env order libm (.packet frame) = s := by
        simp only [System.turn, System.step, World.receive, filter_ignored env s.world.maps frame other,
          other, Option.isSome_none, Bool.false_eq_true, ↓reduceIte, reduceCtorEq, add_zero]
      rw [List.replicate_succ, List.foldl_cons, first, ih]

variable (positive : 1 ≤ m) {s : System R} (accounted : Accounted s.world.maps)
  (room : s.world.maps.data.value.Multiple m)

include positive accounted room

/-- The counters stay accounted for and leave room for their multiples. -/
theorem regular_turn (turn : Turn R) (regular : s.regular m turn = true) :
    Accounted (s.turn env order libm turn).world.maps ∧
      (s.turn env order libm turn).world.maps.data.value.Multiple m := by
  cases turn with
  | packet frame =>
      cases source : ipv4Source frame with
      | none =>
          have kept : (s.turn env order libm (.packet frame)).world.maps = s.world.maps :=
            filter_ignored env s.world.maps frame source
          rw [kept]
          exact ⟨accounted, room⟩
      | some saddr =>
          have received : (s.turn env order libm (.packet frame)).world.maps =
              recorded saddr s.world.maps := filter_recorded env s.world.maps frame saddr source
          simp only [System.regular, source, Option.all_some, Bool.and_eq_true, decide_eq_true_eq]
            at regular
          obtain ⟨nonzero, fits⟩ := regular
          have nonneg := accounted.curInterval
          have below : s.world.maps.data.value.curIntervalPkt.toInt + 1 ≤
              m * (s.world.maps.data.value.curIntervalPkt.toInt + 1) :=
            le_mul_of_one_le_left (by omega) (by exact_mod_cast positive)
          have grown := toInt_succ s.world.maps.data.value.curIntervalPkt (by omega)
          rw [received]
          refine ⟨accounted.recorded saddr nonzero (by omega), ?_⟩
          rw [recorded, Slots.value_update_zero]
          refine ⟨room.prevIntervalPkt, ?_, ?_⟩
          · rw [grown]
            omega
          · rw [grown]
            exact fits
  | call heap =>
      have some : s.world.maps.logger.keys ≠ [] := of_decide_eq_true regular
      have reset := entries_reset order libm s.world.maps heap s.statics some accounted.absent
      have data : (s.turn env order libm (.call heap)).world.maps.data.value =
          ⟨s.world.maps.data.value.curIntervalPkt, 0⟩ := reset.data
      refine ⟨accounted.reset reset, ?_⟩
      rw [data]
      exact ⟨room.curIntervalPkt, multiple_zero m⟩

theorem turn_times [IsStrictOrderedRing R] (turn : Turn R) (regular : s.regular m turn = true) :
    (turn.times m).foldl (System.turn env order libm) (s.times m) =
      (s.turn env order libm turn).times m := by
  cases turn with
  | packet frame =>
      cases source : ipv4Source frame with
      | none =>
          have once := packets_ignored env order libm 1 frame source s
          change s.turn env order libm (.packet frame) = s at once
          rw [Turn.times, packets_ignored env order libm m frame source, once]
      | some saddr =>
          have once := packets_turn env order libm 1 frame saddr source s
          change s.turn env order libm (.packet frame) = _ at once
          rw [Turn.times, packets_turn env order libm m frame saddr source, once]
          simp only [System.times, recorded_times m positive, Function.iterate_one, mul_add, mul_one,
            mul_ite, mul_zero]
  | call heap =>
      have some : s.world.maps.logger.keys ≠ [] := of_decide_eq_true regular
      have called := calculateEnt_times order libm positive heap s.statics s.world.maps accounted
        room some
      change (s.times m).turn env order libm (.call heap) = _
      simp only [System.turn, System.callResult, System.times, called, List.map_append,
        List.map_singleton]
      rfl

theorem turns_times [IsStrictOrderedRing R] (turns : List (Turn R))
    (regular : s.everyTurn env order libm (System.regular m) turns = true) :
    (turns.flatMap (Turn.times m)).foldl (System.turn env order libm) (s.times m) =
      (turns.foldl (System.turn env order libm) s).times m := by
  induction turns generalizing s with
  | nil => rfl
  | cons turn rest ih =>
      rw [System.everyTurn, Bool.and_eq_true] at regular
      have kept : Accounted (s.turn env order libm turn).world.maps ∧
          (s.turn env order libm turn).world.maps.data.value.Multiple m :=
        regular_turn env order libm positive accounted room turn regular.1
      rw [List.flatMap_cons, List.foldl_append,
        turn_times env order libm positive accounted room turn regular.1]
      exact ih kept.1 kept.2 regular.2

end Runs

theorem initial_accounted {R : Type} : Accounted (System.initial R).world.maps := by
  refine ⟨?_, le_rfl, le_rfl, ?_⟩
  · intro k value found
    cases found
  · intro member
    cases member

theorem initial_multiple {R : Type} (m : Nat) :
    (System.initial R).world.maps.data.value.Multiple m := ⟨multiple_zero m, multiple_zero m⟩

/-- Let every packet of a run arrive `m` times. Every call then counts the same flows, finds the
same average and spread and puts the same addresses to the same tests, with `beta` going through
the same values; the counts are `m` times what they were. -/
theorem detection_ignores_volume {R : Type} [Field R] [LinearOrder R] [IsStrictOrderedRing R]
    (env : Env) (order : BoundedMap.Enumeration Addr) (libm : Libm R) (m : Nat) (positive : 1 ≤ m)
    (turns : List (Turn R))
    (regular : (System.initial R).everyTurn env order libm (System.regular m) turns = true) :
    (turns.flatMap (Turn.times m)).foldl (System.turn env order libm) (System.initial R) =
      (turns.foldl (System.turn env order libm) (System.initial R)).times m := by
  have start : (System.initial R).times m = System.initial R := by
    have data : (Slots.single (⟨0, 0⟩ : DataValue)).value.times m =
        (Slots.single (⟨0, 0⟩ : DataValue)).value := by
      change DataValue.times m ⟨0, 0⟩ = ⟨0, 0⟩
      rw [DataValue.times, mul_zero]
    simp only [System.times, System.initial, Maps.times, Statics.times, data,
      Slots.update_zero_value, mul_zero, List.map_nil]
    rfl
  rw [← turns_times env order libm positive initial_accounted (initial_multiple m) turns regular,
    start]

/-- Two intervals of two sources, the second of them busier. -/
def twoRounds : List (Turn Rat) :=
  [.packet (Frame.ipv4From 1), .packet (Frame.ipv4From 2), .packet (Frame.ipv4From 2),
    .call plainHeap, .packet (Frame.ipv4From 1), .packet (Frame.ipv4From 2), .call plainHeap]

/-- Two reports, and the same two when every packet arrives three times. -/
theorem two_rounds_tripled :
    (twoRounds.foldl (System.turn plainEnv (.stored _) exactLibm) (System.initial Rat)).reports.map
        (fun report => report.tests.map Test.address) = [[2], [2]] ∧
      (twoRounds.flatMap (Turn.times 3)).foldl (System.turn plainEnv (.stored _) exactLibm)
          (System.initial Rat) =
        (twoRounds.foldl (System.turn plainEnv (.stored _) exactLibm) (System.initial Rat)).times 3 :=
  ⟨by decide +kernel,
    detection_ignores_volume plainEnv (.stored _) exactLibm 3 (by decide) twoRounds
      (by decide +kernel)⟩

end Fide.UserEbpf
