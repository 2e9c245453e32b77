import Fide.Filtering
import Fide.KernelCounts
import Fide.UserTurns

/-! The two versions count alike.

The in-kernel version rolls over when a packet is due; the split one when the user process calls
`calculate_ent`. Let the calls come where the rollovers come. Then the counters of both agree after
every packet, although the in-kernel version may keep entries of silent sources and the split one
does not. -/

namespace Fide

open Words

/-! ### The turns of the split version -/

section Turns

variable {R : Type} (env : Kernel.Env) (heap : Kernel.Packet → UserEbpf.Heap R)

/-- The packets of an in-kernel run, with a call after every one that rolls over. -/
def turnsOf : Kernel.State → List Kernel.Packet → List (UserEbpf.Turn R)
  | _, [] => []
  | st, packet :: rest =>
      let outcome := Kernel.xdpFilterFunc env st packet
      .packet packet.frame ::
        ((if outcome.rollover.isSome then [.call (heap packet)] else []) ++
          turnsOf outcome.state rest)

/-- No packet of the run is refused by the logger. -/
def allAccepted : Kernel.State → List Kernel.Packet → Bool
  | _, [] => true
  | st, packet :: rest =>
      (Kernel.countedSource env packet.frame).all st.logger.accepts &&
        allAccepted (Kernel.xdpFilterFunc env st packet).state rest

end Turns

/-! ### The counters -/

/-- The counters of both versions agree, and the split one has no entry the in-kernel one does not
have. -/
structure Alike (st : Kernel.State) (maps : UserEbpf.Maps) : Prop where
  cur : ∀ a, UserEbpf.curOf maps.logger a = Kernel.curOf st.logger a
  prev : ∀ a, maps.logger.valueAt UserEbpf.LoggerValue.prev a = Kernel.prevOf st.logger a
  keys : ∀ a ∈ maps.logger.keys, a ∈ st.logger.keys
  curTotal : maps.data.value.curIntervalPkt = st.data.value.curIntervalPkt
  prevTotal : maps.data.value.prevIntervalPkt = st.data.value.prevIntervalPkt

section Steps

variable {st : Kernel.State} {maps : UserEbpf.Maps}

/-! #### A packet -/

theorem user_logPacket_prev (saddr a : Addr) (logger : UserEbpf.Logger) :
    (UserEbpf.logPacket saddr logger).valueAt UserEbpf.LoggerValue.prev a =
      logger.valueAt UserEbpf.LoggerValue.prev a := by
  by_cases own : a = saddr
  · subst own
    cases accepted : logger.accepts a with
    | true =>
        unfold UserEbpf.logPacket
        cases found : logger.lookup a with
        | none => simp [BoundedMap.valueAt, BoundedMap.lookup_update_self _ _ _ accepted, found]
        | some value => simp [BoundedMap.valueAt, BoundedMap.lookup_update_self _ _ _ accepted, found]
    | false =>
        unfold UserEbpf.logPacket
        split <;> rw [BoundedMap.update_refused _ _ _ accepted]
  · rw [BoundedMap.valueAt, UserEbpf.logPacket_lookup_of_ne logger saddr a own]
    rfl

/-- A packet leaves entries for its source and for those that had one. -/
theorem user_logPacket_keys (saddr a : Addr) (logger : UserEbpf.Logger)
    (member : a ∈ (UserEbpf.logPacket saddr logger).keys) : a = saddr ∨ a ∈ logger.keys := by
  by_cases own : a = saddr
  · exact .inl own
  · rw [BoundedMap.mem_keys_iff, UserEbpf.logPacket_lookup_of_ne logger saddr a own,
      ← BoundedMap.mem_keys_iff] at member
    exact .inr member

theorem Alike.packet (alike : Alike st maps) (env : Kernel.Env) (packet : Kernel.Packet)
    (saddr : Addr) (accepted : st.logger.accepts saddr = true) :
    Alike (Kernel.counted env st packet saddr) (UserEbpf.recorded saddr maps) where
  cur a := by
    have room := BoundedMap.accepts_of_keys maps.logger st.logger alike.keys saddr accepted
    simp only [Kernel.counted, Kernel.logPacket_cur, UserEbpf.recorded, accepted, and_true]
    by_cases own : a = saddr
    · subst own
      rw [if_pos rfl, UserEbpf.curOf_logPacket_self maps.logger a room, alike.cur a]
    · rw [if_neg (fun same => own same.symm), add_zero,
        UserEbpf.curOf_logPacket_of_ne maps.logger saddr a own, alike.cur a]
  prev a := by
    simp only [Kernel.counted, Kernel.logPacket_prev, UserEbpf.recorded, user_logPacket_prev]
    exact alike.prev a
  keys a member := by
    change a ∈ (Kernel.logPacket saddr st.logger).keys
    by_cases own : a = saddr
    · rw [own, BoundedMap.mem_keys_iff, Kernel.logPacket_lookup_self saddr st.logger accepted,
        Option.isSome_some]
    · rw [BoundedMap.mem_keys_iff, Kernel.logPacket_lookup_of_ne saddr a st.logger own,
        ← BoundedMap.mem_keys_iff]
      exact alike.keys a ((user_logPacket_keys saddr a maps.logger member).resolve_left own)
  curTotal := by
    simp only [Kernel.counted, UserEbpf.recorded, Slots.value_update_zero, Kernel.countPacket_cur,
      alike.curTotal]
  prevTotal := by
    simp only [Kernel.counted, UserEbpf.recorded, Slots.value_update_zero, Kernel.countPacket_prev,
      alike.prevTotal]

/-! #### A rollover -/

theorem reset_cur {after : UserEbpf.Maps} (reset : UserEbpf.ResetBy maps after) (a : Addr) :
    UserEbpf.curOf after.logger a = 0 := by
  have moved := reset.logger a
  rw [UserEbpf.curOf, BoundedMap.valueAt]
  cases found : after.logger.lookup a with
  | none => rfl
  | some value =>
      rw [found, Option.map_some] at moved
      cases before : maps.logger.lookup a with
      | none =>
          rw [before] at moved
          cases moved
      | some old =>
          rw [before, Option.bind_some] at moved
          split at moved
          · cases moved
          · exact congrArg Prod.snd (Option.some.inj moved)

theorem reset_prev {after : UserEbpf.Maps} (reset : UserEbpf.ResetBy maps after) (a : Addr) :
    after.logger.valueAt UserEbpf.LoggerValue.prev a = UserEbpf.curOf maps.logger a := by
  have moved := reset.logger a
  rw [UserEbpf.curOf, BoundedMap.valueAt, BoundedMap.valueAt]
  cases before : maps.logger.lookup a with
  | none =>
      rw [before, Option.bind_none, Option.map_eq_none_iff] at moved
      rw [moved]
      rfl
  | some old =>
      rw [before, Option.bind_some] at moved
      by_cases idle : old.cur = 0
      · rw [if_pos idle, Option.map_eq_none_iff] at moved
        rw [moved, Option.elim_none, Option.elim_some, idle]
      · rw [if_neg idle, Option.map_eq_some_iff] at moved
        obtain ⟨value, found, counts⟩ := moved
        rw [found, Option.elim_some, Option.elim_some]
        exact congrArg Prod.fst counts

/-- Only sources with packets in the closed interval keep their entries. -/
theorem reset_keys {after : UserEbpf.Maps} (reset : UserEbpf.ResetBy maps after) (a : Addr)
    (member : a ∈ after.logger.keys) : UserEbpf.curOf maps.logger a ≠ 0 := by
  obtain ⟨value, found⟩ := (BoundedMap.mem_keys_iff_lookup _ _).mp member
  have moved := reset.logger a
  rw [found, Option.map_some] at moved
  rw [UserEbpf.curOf, BoundedMap.valueAt]
  cases before : maps.logger.lookup a with
  | none =>
      rw [before] at moved
      cases moved
  | some old =>
      rw [before, Option.bind_some] at moved
      intro idle
      rw [Option.elim_some] at idle
      rw [if_pos idle] at moved
      cases moved

theorem Alike.rollover (alike : Alike st maps) (target : Target) (packet : Kernel.Packet)
    {after : UserEbpf.Maps} (reset : UserEbpf.ResetBy maps after) :
    Alike (Kernel.closeInterval st st.data.value
      (Kernel.analyse target packet st.data.value st)) after where
  cur a := by
    rw [reset_cur reset a]
    exact (Kernel.analyse_cur target packet st.data.value st a).symm
  prev a := by
    rw [reset_prev reset a, alike.cur a]
    exact (Kernel.analyse_prev target packet st.data.value st a).symm
  keys a member := by
    have busy := reset_keys reset a member
    rw [alike.cur a, Kernel.curOf, BoundedMap.valueAt] at busy
    have moved := Kernel.analyse_counts target packet st.data.value st a
    change a ∈ (Kernel.analyse target packet st.data.value st).logger.keys
    rw [BoundedMap.mem_keys_iff]
    cases before : st.logger.lookup a with
    | none =>
        rw [before] at busy
        exact absurd rfl busy
    | some value =>
        rw [before, Option.elim_some] at busy
        have stays : ¬ Kernel.evicted target st.data.value value = true :=
          fun gone => busy (of_decide_eq_true gone).1
        rw [before, Option.bind_some, if_neg stays] at moved
        cases found : (Kernel.analyse target packet st.data.value st).logger.lookup a with
        | none =>
            rw [found] at moved
            cases moved
        | some kept => rfl
  curTotal := by
    rw [reset.data]
    simp only [Kernel.closeInterval, Slots.value_update_zero]
  prevTotal := by
    rw [reset.data]
    simp only [Kernel.closeInterval, Slots.value_update_zero, alike.curTotal]

end Steps

/-! ### Whole runs -/

theorem countedSource_of_clear (env : Kernel.Env) (frame : Frame)
    (clear : blocked env.blacklist frame = false) :
    Kernel.countedSource env frame = UserEbpf.ipv4Source frame := by
  unfold Kernel.countedSource UserEbpf.ipv4Source
  split_ifs with short other listed
  · rfl
  · rfl
  · have proto : Frame.hProto frame = Frame.ethPIp := not_not.mp other
    have covered : blocked env.blacklist frame = true := decide_eq_true ⟨proto, listed⟩
    rw [covered] at clear
    cases clear
  · rfl

section Runs

variable {R : Type} [Field R] [LinearOrder R] (env : Kernel.Env) (userEnv : UserEbpf.Env)
  (order : BoundedMap.Enumeration Addr) (libm : UserEbpf.Libm R)
  (heap : Kernel.Packet → UserEbpf.Heap R)

/-- The counters agree, and no entry is one for 0.0.0.0. -/
def Tracks (st : Kernel.State) (s : UserEbpf.System R) : Prop :=
  Alike st s.world.maps ∧ 0 ∉ s.world.maps.logger.keys

variable {env userEnv order libm heap}

theorem Tracks.packet {st : Kernel.State} {s : UserEbpf.System R} (tracks : Tracks st s)
    (packet : Kernel.Packet) (saddr : Addr)
    (source : UserEbpf.ipv4Source packet.frame = some saddr) (nonzero : saddr ≠ 0)
    (accepted : st.logger.accepts saddr = true) :
    Tracks (Kernel.counted env st packet saddr)
      (s.turn userEnv order libm (.packet packet.frame)) := by
  have received : (s.turn userEnv order libm (.packet packet.frame)).world.maps =
      UserEbpf.recorded saddr s.world.maps :=
    UserEbpf.filter_recorded userEnv s.world.maps packet.frame saddr source
  rw [Tracks, received]
  refine ⟨tracks.1.packet env packet saddr accepted, ?_⟩
  intro member
  rcases user_logPacket_keys saddr 0 s.world.maps.logger member with same | before
  · exact nonzero same.symm
  · exact tracks.2 before

theorem Tracks.call {st : Kernel.State} {s : UserEbpf.System R} (tracks : Tracks st s)
    (target : Target) (packet : Kernel.Packet) (memory : UserEbpf.Heap R)
    (some : s.world.maps.logger.keys ≠ []) :
    Tracks (Kernel.closeInterval st st.data.value
      (Kernel.analyse target packet st.data.value st))
      (s.turn userEnv order libm (.call memory)) := by
  have reset := UserEbpf.entries_reset order libm s.world.maps memory s.statics some tracks.2
  refine ⟨tracks.1.rollover target packet reset, ?_⟩
  intro member
  have busy := reset_keys reset 0 member
  rw [UserEbpf.curOf, BoundedMap.valueAt_of_notMem _ _ _ tracks.2] at busy
  exact busy rfl

theorem Tracks.run (packets : List Kernel.Packet) (st : Kernel.State) (s : UserEbpf.System R)
    (tracks : Tracks st s)
    (clear : ∀ packet ∈ packets, blocked env.blacklist packet.frame = false)
    (nonzero : ∀ packet ∈ packets, UserEbpf.ipv4Source packet.frame ≠ some 0)
    (accepted : allAccepted env st packets = true) :
    Tracks (Kernel.run env st packets)
      ((turnsOf env heap st packets).foldl (UserEbpf.System.turn userEnv order libm) s) := by
  induction packets generalizing st s with
  | nil => exact tracks
  | cons packet rest ih =>
      rw [allAccepted, Bool.and_eq_true] at accepted
      have later := fun st s tracks => ih st s tracks
        (fun p member => clear p (List.mem_cons_of_mem packet member))
        (fun p member => nonzero p (List.mem_cons_of_mem packet member))
      have same := countedSource_of_clear env packet.frame (clear packet List.mem_cons_self)
      rw [turnsOf, Kernel.run, List.foldl_cons, List.foldl_cons, List.foldl_append]
      refine later _ _ ?_ accepted.2
      cases source : UserEbpf.ipv4Source packet.frame with
      | none =>
          rw [source] at same
          obtain ⟨state, rollover⟩ := Kernel.step_ignored env st packet same
          have received : (s.turn userEnv order libm (.packet packet.frame)).world.maps =
              s.world.maps := UserEbpf.filter_ignored userEnv s.world.maps packet.frame source
          simp only [rollover, Option.isSome_none, Bool.false_eq_true, ↓reduceIte, List.foldl_nil]
          rw [state, Tracks, received]
          exact tracks
      | some saddr =>
          rw [source] at same
          have room : st.logger.accepts saddr = true := by
            have head := accepted.1
            rw [same] at head
            exact head
          have other : saddr ≠ 0 := by
            rintro rfl
            exact nonzero packet List.mem_cons_self source
          have counted : Tracks (Kernel.counted env st packet saddr)
              (s.turn userEnv order libm (.packet packet.frame)) :=
            tracks.packet packet saddr source other room
          rw [Kernel.step_counted env st packet saddr same]
          cases due : Kernel.rollsOver st packet with
          | false =>
              simp only [Bool.false_eq_true, ↓reduceIte, Option.isSome_none, List.foldl_nil]
              exact counted
          | true =>
              simp only [↓reduceIte, Option.isSome_some, List.foldl_cons, List.foldl_nil]
              have filled : (s.turn userEnv order libm
                  (.packet packet.frame)).world.maps.logger.keys ≠ [] := by
                have received : (s.turn userEnv order libm (.packet packet.frame)).world.maps =
                    UserEbpf.recorded saddr s.world.maps :=
                  UserEbpf.filter_recorded userEnv s.world.maps packet.frame saddr source
                rw [received]
                exact UserEbpf.recorded_keys saddr s.world.maps
              have called : Tracks _ ((s.turn userEnv order libm (.packet packet.frame)).turn userEnv
                  order libm (.call (heap packet))) :=
                counted.call env.target packet (heap packet) filled
              simpa only [Kernel.rolloverOf, Kernel.counted, Slots.value_update_zero] using called

end Runs

/-- Let the calls of the split version come where the in-kernel one rolls over. From zeroed maps,
with no packet from a blacklisted source or from 0.0.0.0 and none refused by the in-kernel logger,
both versions hold the same counts of every source and the same interval totals after any
packets. -/
theorem versions_count_alike {R : Type} [Field R] [LinearOrder R] (env : Kernel.Env)
    (userEnv : UserEbpf.Env) (order : BoundedMap.Enumeration Addr) (libm : UserEbpf.Libm R)
    (heap : Kernel.Packet → UserEbpf.Heap R) (packets : List Kernel.Packet)
    (clear : ∀ packet ∈ packets, blocked env.blacklist packet.frame = false)
    (nonzero : ∀ packet ∈ packets, UserEbpf.ipv4Source packet.frame ≠ some 0)
    (accepted : allAccepted env Kernel.zeroed packets = true) :
    Alike (Kernel.run env Kernel.zeroed packets)
      ((turnsOf env heap Kernel.zeroed packets).foldl (UserEbpf.System.turn userEnv order libm)
        (UserEbpf.System.initial R)).world.maps := by
  have start : Tracks Kernel.zeroed (UserEbpf.System.initial R) := by
    refine ⟨⟨fun _ => rfl, fun _ => rfl, ?_, rfl, rfl⟩, ?_⟩
    · intro a member
      cases member
    · intro member
      cases member
  exact (Tracks.run packets Kernel.zeroed (UserEbpf.System.initial R) start clear nonzero accepted).1

/-- Two sources over two intervals, the first of them silent in the second. -/
def twoIntervals : List Kernel.Packet :=
  [Kernel.packetAt 1 2000000000, Kernel.packetAt 2 2000000001, Kernel.packetAt 1 4000000000,
    Kernel.packetAt 2 4000000001, Kernel.packetAt 2 6000000000]

theorem two_intervals_alike :
    Alike (Kernel.run Kernel.bareEnv Kernel.zeroed twoIntervals)
      ((turnsOf Kernel.bareEnv (fun _ => UserEbpf.plainHeap) Kernel.zeroed twoIntervals).foldl
        (UserEbpf.System.turn UserEbpf.plainEnv (.stored _) UserEbpf.plainLibm)
        (UserEbpf.System.initial Rat)).world.maps :=
  versions_count_alike Kernel.bareEnv UserEbpf.plainEnv (.stored _) UserEbpf.plainLibm _ twoIntervals
    (by decide +kernel) (by decide +kernel) (by decide +kernel)

end Fide
