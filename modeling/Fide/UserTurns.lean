import Fide.UserBalance
import Fide.UserStatistics

/-! Where the entropies of `calculate_ent` are defined.

Packets and whole calls take turns here, with no packet during a call. The entries of a call are
weighed against the packets of the interval before, and before the first call that finds an entry
there is no such interval. -/

namespace Fide.UserEbpf

open Words

/-! ### Turns -/

/-- A frame reaches the filter, or a call runs from its beginning to its end. -/
inductive Turn (R : Type)
  | packet (frame : Frame)
  | call (heap : Heap R)

section Turns

variable {R : Type} [Field R] [LinearOrder R]
  (env : Env) (order : BoundedMap.Enumeration Addr) (libm : Libm R)

/-- What a call run without interruption reports, and the maps it leaves behind. -/
def System.callResult (s : System R) (heap : Heap R) : Report R × Maps :=
  (calculateEnt libm heap s.statics).run (exec order) s.world.maps

def System.turn (s : System R) : Turn R → System R
  | .packet frame => s.step env order libm (.packet frame)
  | .call heap =>
      let result := s.callResult order libm heap
      { s with
        world := { s.world with maps := result.2 }
        statics := result.1.statics
        reports := s.reports ++ [result.1] }

/-- A condition on every call of the turns and the system it meets. -/
def System.everyCall (condition : System R → Heap R → Prop) (s : System R) : List (Turn R) → Prop
  | [] => True
  | .packet frame :: rest => everyCall condition (s.turn env order libm (.packet frame)) rest
  | .call heap :: rest =>
      condition s heap ∧ everyCall condition (s.turn env order libm (.call heap)) rest

/-- Left alone, the process runs to its end. -/
theorem process_run (p : Program Op Answer (Report R)) (s : System R)
    (running : s.process = some p) :
    ∃ n, s.run env order libm (List.replicate n .user) =
      { s with
        world := { s.world with maps := (p.run (exec order) s.world.maps).2 }
        statics := (p.run (exec order) s.world.maps).1.statics
        process := none
        reports := s.reports ++ [(p.run (exec order) s.world.maps).1] } := by
  induction p generalizing s with
  | done report =>
      refine ⟨1, ?_⟩
      change s.step env order libm .user = _
      rw [System.step, running]
      rfl
  | perform op next ih =>
      have moved : s.step env order libm .user =
          { s with
            world := (s.world.exec order op).2
            process := some (next (s.world.exec order op).1) } := by
        rw [System.step, running]
      obtain ⟨n, rest⟩ := ih (s.world.exec order op).1 (s.step env order libm .user) (by rw [moved])
      refine ⟨n + 1, ?_⟩
      rw [List.replicate_succ, System.run, List.foldl_cons]
      refine rest.trans ?_
      rw [moved]
      rfl

/-- Every turn of an idle system is a run of it. -/
theorem turn_run (s : System R) (idle : s.process = none) (turn : Turn R) :
    ∃ events, s.run env order libm events = s.turn env order libm turn := by
  cases turn with
  | packet frame => exact ⟨[.packet frame], rfl⟩
  | call heap =>
      have started : s.step env order libm (.call heap) =
          { s with process := some (calculateEnt libm heap s.statics) } := by
        rw [System.step, idle]
      obtain ⟨n, result⟩ := process_run env order libm (calculateEnt libm heap s.statics)
        (s.step env order libm (.call heap)) (by rw [started])
      refine ⟨.call heap :: List.replicate n .user, ?_⟩
      rw [System.run, List.foldl_cons]
      refine result.trans ?_
      rw [started, System.turn, System.callResult, ← idle]

theorem turns_run (turns : List (Turn R)) (s : System R) (idle : s.process = none) :
    ∃ events, s.run env order libm events = turns.foldl (System.turn env order libm) s := by
  induction turns generalizing s with
  | nil => exact ⟨[], rfl⟩
  | cons turn rest ih =>
      obtain ⟨first, reached⟩ := turn_run env order libm s idle turn
      have still : (s.turn env order libm turn).process = none := by
        cases turn <;> exact idle
      obtain ⟨later, result⟩ := ih (s.turn env order libm turn) still
      refine ⟨first ++ later, ?_⟩
      rw [System.run, List.foldl_append, List.foldl_cons, ← result, ← reached]
      rfl

end Turns

/-! ### Divisors and logarithms -/

section Defined

variable (R : Type) [Field R] [LinearOrder R]

/-- Every division in the entropy of an entry has a divisor other than zero and every logarithm a
positive argument. -/
def EntropyDefined (data : DataValue) (value : LoggerValue) : Prop :=
  let prev : R := value.prev.toInt
  let cur : R := value.cur.toInt
  let prevInterval : R := data.prevIntervalPkt.toInt
  prevInterval ≠ 0 ∧ 0 < prev / prevInterval ∧
    if value.cur.toInt ≤ value.prev.toInt then prev ≠ 0 ∧ 0 < cur / prev
    else cur ≠ 0 ∧ 0 < prev / cur

variable {R}

theorem entropyDefined_of_pos [IsStrictOrderedRing R] {data : DataValue} {value : LoggerValue}
    (packets : 1 ≤ data.prevIntervalPkt.toInt) (prev : 1 ≤ value.prev.toInt)
    (cur : 1 ≤ value.cur.toInt) : EntropyDefined R data value := by
  have whole : (0 : R) < data.prevIntervalPkt.toInt := Int.cast_pos.mpr packets
  have before : (0 : R) < value.prev.toInt := Int.cast_pos.mpr prev
  have now : (0 : R) < value.cur.toInt := Int.cast_pos.mpr cur
  refine ⟨whole.ne', div_pos before whole, ?_⟩
  split
  · exact ⟨before.ne', div_pos now before⟩
  · exact ⟨now.ne', div_pos before now⟩

/-- The entropies of a call are defined, and so is their average if there are any. -/
structure EntropiesDefined (maps : Maps) (report : Report R) : Prop where
  entries : ∀ entry ∈ report.entries, EntropyDefined R maps.data.value entry.2
  average : maps.logger.keys ≠ [] → report.flows ≠ 0

/-- No interval with a packet is over yet: the data record counts none for the interval before, and
none for the current one unless an entry shows it. -/
structure FirstInterval (maps : Maps) : Prop where
  prev : maps.data.value.prevIntervalPkt = 0
  cur : maps.logger.keys = [] → maps.data.value.curIntervalPkt = 0

theorem recorded_keys (saddr : Addr) (maps : Maps) : (recorded saddr maps).logger.keys ≠ [] := by
  change (logPacket saddr maps.logger).keys ≠ []
  unfold logPacket
  split <;> exact BoundedMap.keys_update_ne_nil _ _ _ (by decide)

theorem firstInterval_packet (env : Env) (maps : Maps) (frame : Frame)
    (first : FirstInterval maps) : FirstInterval (xdpFilterFunc env maps frame).maps := by
  cases source : ipv4Source frame with
  | none =>
      rw [filter_ignored env maps frame source]
      exact first
  | some saddr =>
      rw [filter_recorded env maps frame saddr source]
      refine ⟨?_, ?_⟩
      · rw [recorded, Slots.value_update_zero]
        exact first.prev
      · intro none
        exact absurd none (recorded_keys saddr maps)

variable (order : BoundedMap.Enumeration Addr) (libm : Libm R)

theorem firstInterval_call (heap : Heap R) (statics : Statics) (maps : Maps)
    (first : FirstInterval maps) (none : maps.logger.keys = []) :
    FirstInterval ((calculateEnt libm heap statics).run (exec order) maps).2 := by
  have data : ((calculateEnt libm heap statics).run (exec order) maps).2.data.value = ⟨0, 0⟩ := by
    rw [calculateEnt_run_none order libm heap statics maps (nextKey_of_empty order maps none),
      (reset_frame order _ 2 0 _ [] (dataReset maps)).1, dataReset, Slots.value_update_zero,
      first.cur none]
  refine ⟨?_, fun _ => ?_⟩
  · rw [data]
  · rw [data]

/-- In the first interval a call is defined exactly when it finds no entry. -/
theorem defined_iff_empty (heap : Heap R) (statics : Statics) (maps : Maps)
    (first : FirstInterval maps) (absent : 0 ∉ maps.logger.keys) :
    EntropiesDefined maps ((calculateEnt libm heap statics).run (exec order) maps).1 ↔
      maps.logger.keys = [] := by
  constructor
  · intro defined
    by_contra some
    obtain ⟨front, last, listed, reported⟩ :=
      call_reported order libm heap statics maps some absent
    have present := listed_present order maps
    rw [listed] at present
    have inside : last ∈ front ++ [last] := List.mem_concat_self
    obtain ⟨value, found⟩ := Option.isSome_iff_exists.mp (present last inside)
    have member : (last, value) ∈
        ((calculateEnt libm heap statics).run (exec order) maps).1.entries := by
      rw [reported.entries, recordAll_entries libm _ _ 0 _ _ _ present]
      exact .inr ⟨inside, found⟩
    have divisor := (defined.entries _ member).1
    rw [first.prev] at divisor
    exact divisor Int.cast_zero
  · intro none
    have reported := concludeCall_run_reported libm (exec order) statics maps.data.value 1 heap.scan
      maps
    rw [← calculateEnt_none order libm heap statics maps (nextKey_of_empty order maps none)]
      at reported
    refine ⟨?_, ?_⟩
    · intro entry member
      rw [reported.entries] at member
      cases member
    · intro some
      exact absurd none some

variable (env : Env)

/-- From the first interval on. A call that finds the logger empty ends it without a packet, so the
interval after it is a first one again. -/
theorem everyCall_defined_iff (turns : List (Turn R)) (s : System R)
    (first : FirstInterval s.world.maps)
    (absent : s.everyCall env order libm (fun s _ => 0 ∉ s.world.maps.logger.keys) turns) :
    s.everyCall env order libm
        (fun s heap => EntropiesDefined s.world.maps (s.callResult order libm heap).1) turns ↔
      s.everyCall env order libm (fun s _ => s.world.maps.logger.keys = []) turns := by
  induction turns generalizing s with
  | nil => exact Iff.rfl
  | cons turn rest ih =>
      cases turn with
      | packet frame => exact ih _ (firstInterval_packet env _ frame first) absent
      | call heap =>
          have now := defined_iff_empty order libm heap s.statics s.world.maps first absent.1
          constructor
          · intro defined
            have none := now.mp defined.1
            have next := firstInterval_call order libm heap s.statics s.world.maps first none
            exact ⟨none, (ih _ next absent.2).mp defined.2⟩
          · intro empty
            have next := firstInterval_call order libm heap s.statics s.world.maps first empty.1
            exact ⟨now.mpr empty.1, (ih _ next absent.2).mpr empty.2⟩

/-- Packets and calls in any order: every call finds its entropies and their average defined exactly
when every call finds the logger empty. -/
theorem calls_defined_iff (turns : List (Turn R))
    (absent : (System.initial R).everyCall env order libm
      (fun s _ => 0 ∉ s.world.maps.logger.keys) turns) :
    (System.initial R).everyCall env order libm
        (fun s heap => EntropiesDefined s.world.maps (s.callResult order libm heap).1) turns ↔
      (System.initial R).everyCall env order libm
        (fun s _ => s.world.maps.logger.keys = []) turns := by
  have first : FirstInterval (System.initial R).world.maps := ⟨rfl, fun _ => rfl⟩
  exact everyCall_defined_iff order libm env turns (System.initial R) first absent

end Defined

/-- A call before the first packet. -/
theorem early_call_defined :
    (System.initial Rat).everyCall plainEnv (.stored _) exactLibm
      (fun s heap => EntropiesDefined s.world.maps (s.callResult (.stored _) exactLibm heap).1)
      [.call plainHeap, .packet (Frame.ipv4From 1)] :=
  (calls_defined_iff (.stored _) exactLibm plainEnv _ (by
    refine ⟨?_, trivial⟩
    decide +kernel)).mpr ⟨rfl, trivial⟩

/-- One packet, then a call: its entry has no packets in the interval before, which has none at
all. -/
theorem first_entry_undefined :
    ¬ ∀ turns : List (Turn Rat),
      (System.initial Rat).everyCall plainEnv (.stored _) exactLibm
        (fun s _ => 0 ∉ s.world.maps.logger.keys) turns →
      (System.initial Rat).everyCall plainEnv (.stored _) exactLibm
        (fun s heap => EntropiesDefined s.world.maps (s.callResult (.stored _) exactLibm heap).1)
        turns := by
  intro claim
  have defined := claim [.packet (Frame.ipv4From 1), .call plainHeap]
    ⟨by decide +kernel, trivial⟩
  let s := (System.initial Rat).turn plainEnv (.stored _) exactLibm (.packet (Frame.ipv4From 1))
  have enumerated : (s.callResult (.stored _) exactLibm plainHeap).1.entries =
      [(1, ⟨0, 1, 0⟩)] := by decide +kernel
  have divisor := (defined.1.entries (1, ⟨0, 1, 0⟩) (by
    rw [enumerated]
    exact List.mem_singleton_self _)).1
  exact divisor (by decide +kernel)

end Fide.UserEbpf
