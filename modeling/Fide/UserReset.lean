import Fide.UserEnumeration

/-! When a call of `calculate_ent` with no packet in between resets every entry. -/

namespace Fide.UserEbpf

open Words

/-- What the reset does to an entry: an idle one goes, the count of the others moves. -/
def LoggerValue.reset (value : LoggerValue) : Option LoggerValue :=
  if value.cur = 0 then none else some { value with prev := value.cur, cur := 0 }

/-- The keys the reset loop visits, with `fuel` iterations left at index `k`. -/
def visited (ip : Nat → Addr) : (fuel k : Nat) → List Addr
  | 0, _ => []
  | fuel + 1, k => ip k :: visited ip fuel (k + 1)

section Run

variable (order : BoundedMap.Enumeration Addr)

/-! ### The reset loop -/

/-- One iteration changes the entry under its key only, and resets it when it is there. -/
theorem reset_succ (ip : Nat → Addr) (fuel k : Nat) (buffer : LoggerValue)
    (moved : List (Addr × I32)) (maps : Maps) :
    ∃ buffer' moved' maps',
      ((reset ip (fuel + 1) k buffer moved).run (exec order) maps).2 =
        ((reset ip fuel (k + 1) buffer' moved').run (exec order) maps').2 ∧
      maps'.data = maps.data ∧
      (∀ x, x ≠ ip k → maps'.logger.lookup x = maps.logger.lookup x) ∧
      (∀ value, maps.logger.lookup (ip k) = some value →
        maps'.logger.lookup (ip k) = value.reset) := by
  let value := (maps.logger.lookup (ip k)).getD buffer
  by_cases idle : value.cur = 0
  · refine ⟨value, moved, { maps with logger := maps.logger.delete (ip k) }, ?_, rfl, ?_, ?_⟩
    · change ((writeBack (ip k) value moved (reset ip fuel (k + 1))).run (exec order) maps).2 = _
      rw [writeBack, if_pos idle]
      rfl
    · intro x different
      exact BoundedMap.lookup_delete_of_ne maps.logger (ip k) x different
    · intro stored present
      have same : value = stored := by simp only [value, present, Option.getD_some]
      rw [LoggerValue.reset, ← same, if_pos idle]
      exact BoundedMap.lookup_delete_self maps.logger (ip k)
  · let value' : LoggerValue := { value with prev := value.cur, cur := 0 }
    refine ⟨value', moved ++ [(ip k, value.cur)],
      { maps with logger := maps.logger.update (ip k) value' }, ?_, rfl, ?_, ?_⟩
    · change ((writeBack (ip k) value moved (reset ip fuel (k + 1))).run (exec order) maps).2 = _
      rw [writeBack, if_neg idle]
      rfl
    · intro x different
      exact BoundedMap.lookup_update_of_ne maps.logger (ip k) x value' different
    · intro stored present
      have same : value = stored := by simp only [value, present, Option.getD_some]
      rw [LoggerValue.reset, ← same, if_neg idle]
      exact BoundedMap.lookup_update_self maps.logger (ip k) value'
        (BoundedMap.accepts_of_lookup maps.logger (ip k) stored present)

theorem reset_frame (ip : Nat → Addr) (fuel k : Nat) (buffer : LoggerValue)
    (moved : List (Addr × I32)) (maps : Maps) :
    ((reset ip fuel k buffer moved).run (exec order) maps).2.data = maps.data ∧
    ∀ x, x ∉ visited ip fuel k →
      ((reset ip fuel k buffer moved).run (exec order) maps).2.logger.lookup x =
        maps.logger.lookup x := by
  induction fuel generalizing k buffer moved maps with
  | zero => exact ⟨rfl, fun _ _ => rfl⟩
  | succ fuel ih =>
      obtain ⟨buffer', moved', maps', next, data, others, -⟩ :=
        reset_succ order ip fuel k buffer moved maps
      obtain ⟨data', frame⟩ := ih (k + 1) buffer' moved' maps'
      rw [next]
      refine ⟨data'.trans data, ?_⟩
      intro x outside
      rw [visited, List.mem_cons, not_or] at outside
      rw [frame x outside.2, others x outside.1]

/-- Distinct keys that all have entries are reset one by one. -/
theorem reset_entries (ip : Nat → Addr) (fuel k : Nat) (buffer : LoggerValue)
    (moved : List (Addr × I32)) (maps : Maps) (distinct : (visited ip fuel k).Nodup)
    (present : ∀ x ∈ visited ip fuel k, x ∈ maps.logger.keys) :
    ∀ x ∈ visited ip fuel k,
      ((reset ip fuel k buffer moved).run (exec order) maps).2.logger.lookup x =
        (maps.logger.lookup x).bind LoggerValue.reset := by
  induction fuel generalizing k buffer moved maps with
  | zero => simp [visited]
  | succ fuel ih =>
      obtain ⟨buffer', moved', maps', next, -, others, done⟩ :=
        reset_succ order ip fuel k buffer moved maps
      rw [visited, List.nodup_cons] at distinct
      have kept : ∀ x ∈ visited ip fuel (k + 1),
          maps'.logger.lookup x = maps.logger.lookup x := by
        intro x member
        exact others x (fun same => distinct.1 (same ▸ member))
      rw [next]
      intro x member
      rcases List.mem_cons.mp member with rfl | later
      · obtain ⟨value, found⟩ :=
          (BoundedMap.mem_keys_iff_lookup _ _).mp (present (ip k) List.mem_cons_self)
        rw [(reset_frame order ip fuel (k + 1) buffer' moved' maps').2 (ip k) distinct.1,
          done value found, found, Option.bind_some]
      · rw [ih (k + 1) buffer' moved' maps' distinct.2, kept x later]
        · intro y inside
          rw [BoundedMap.mem_keys_iff, kept y inside, ← BoundedMap.mem_keys_iff]
          exact present y (List.mem_cons_of_mem _ inside)
        · exact later

theorem visited_eq (ip : Nat → Addr) (list : List Addr) (k : Nat)
    (stored : ∀ j x, list[j]? = some x → ip (k + j) = x) : visited ip list.length k = list := by
  induction list generalizing k with
  | nil => rfl
  | cons head tail ih =>
      have first : ip k = head := stored 0 head rfl
      rw [List.length_cons, visited, first, ih (k + 1)]
      intro j x found
      rw [show k + 1 + j = k + (j + 1) by omega]
      exact stored (j + 1) x found

/-! ### The whole call -/

variable {R : Type} [Field R] [LinearOrder R] (libm : Libm R)

/-- The maps after the write-back of the data record. -/
def dataReset (maps : Maps) : Maps :=
  { maps with data := maps.data.update 0 ⟨maps.data.value.curIntervalPkt, 0⟩ }

theorem concludeCall_run (statics : Statics) (maps : Maps) (i : Nat) (scan : Scan R) :
    ((concludeCall libm statics maps.data.value i scan).run (exec order) maps).2 =
      ((reset scan.ip (i + 1) 0 scan.loggerValue []).run (exec order) (dataReset maps)).2 := by
  simp only [concludeCall, Program.run, exec, Program.run_bind]
  rfl

/-- With no key after key 0, the reset loop runs over the first two addresses in memory. -/
theorem calculateEnt_run_none (heap : Heap R) (statics : Statics) (maps : Maps)
    (nothing : maps.logger.nextKey order 0 = none) :
    ((calculateEnt libm heap statics).run (exec order) maps).2 =
      ((reset heap.ip 2 0 heap.loggerValue []).run (exec order) (dataReset maps)).2 := by
  rw [calculateEnt_none order libm heap statics maps nothing]
  exact concludeCall_run order libm statics maps 1 heap.scan

/-- Otherwise it runs over the keys the enumeration lists from there on. -/
theorem calculateEnt_run_some (heap : Heap R) (statics : Statics) (maps : Maps)
    (front rest : List Addr) (key : Addr) (first : maps.logger.nextKey order 0 = some key)
    (listed : order.order maps.logger.keys = front ++ key :: rest) :
    ∃ ip buffer, visited ip (rest.length + 1) 0 = key :: rest ∧
      ((calculateEnt libm heap statics).run (exec order) maps).2 =
        ((reset ip (rest.length + 1) 0 buffer []).run (exec order) (dataReset maps)).2 := by
  let scan :=
    heap.scan.recordAll libm maps.data.value maps.logger.lookup 0 (key :: rest)
  refine ⟨scan.ip, scan.loggerValue, ?_, ?_⟩
  · have all := visited_eq scan.ip (key :: rest) 0
    rw [List.length_cons] at all
    apply all
    intro j x found
    exact (recordAll_stored libm maps.data.value maps.logger.lookup 0 (key :: rest) heap.scan j x
      found).1
  · rw [calculateEnt_some order libm heap statics maps front rest key first listed]
    exact concludeCall_run order libm statics maps rest.length scan

/-- The reset a rollover is meant to do: counts move, idle entries go, nothing else is there. -/
structure ResetBy (before after : Maps) : Prop where
  logger : ∀ k, (after.logger.lookup k).map (fun value => (value.prev, value.cur)) =
    (before.logger.lookup k).bind fun value => if value.cur = 0 then none else some (value.cur, 0)
  data : after.data.value = ⟨before.data.value.curIntervalPkt, 0⟩

theorem reset_counts (value : LoggerValue) :
    value.reset.map (fun value => (value.prev, value.cur)) =
      if value.cur = 0 then none else some (value.cur, 0) := by
  unfold LoggerValue.reset
  split <;> rfl

/-- An entry the call does not visit is not reset. -/
theorem not_resetBy_of_kept (before after : Maps) (k : Addr) (present : k ∈ before.logger.keys)
    (kept : after.logger.lookup k = before.logger.lookup k) : ¬ ResetBy before after := by
  intro correct
  rw [BoundedMap.mem_keys_iff_lookup] at present
  obtain ⟨value, present⟩ := present
  have entry := correct.logger k
  rw [kept, present, Option.map_some, Option.bind_some] at entry
  split at entry
  · cases entry
  · next busy =>
      rw [Option.some.injEq, Prod.mk.injEq] at entry
      exact busy entry.2

/-- Memory in which every stored address is the given one. -/
def uniformHeap (address : Addr) : Heap R := ⟨⟨0, 0⟩, ⟨0, 0, 0⟩, fun _ => 0, fun _ => address⟩

theorem source_zero_kept (maps : Maps) (statics : Statics) (present : 0 ∈ maps.logger.keys) :
    ¬ ResetBy maps ((calculateEnt libm (uniformHeap 1) statics).run (exec order) maps).2 := by
  have listed : (0 : Addr) ∈ order.order maps.logger.keys :=
    (order.perm maps.logger.keys).mem_iff.mpr present
  obtain ⟨front, rest, split⟩ := List.append_of_mem listed
  have next := BoundedMap.nextKey_of_listed order maps.logger front rest 0 split
  apply not_resetBy_of_kept maps _ 0 present
  cases rest with
  | nil =>
      rw [calculateEnt_run_none order libm _ statics maps next]
      exact (reset_frame order _ 2 0 _ [] (dataReset maps)).2 0
        (by change (0 : Addr) ∉ [1, 1]; decide)
  | cons key tail =>
      have distinct := BoundedMap.order_nodup order maps.logger
      rw [split, List.nodup_append, List.nodup_cons] at distinct
      obtain ⟨ip, buffer, keys, result⟩ := calculateEnt_run_some order libm (uniformHeap 1) statics
        maps (front ++ [0]) tail key next (by rw [split, List.append_assoc, List.singleton_append])
      rw [result, (reset_frame order ip _ 0 buffer [] (dataReset maps)).2 0
        (by rw [keys]; exact distinct.2.1.1)]
      rfl

/-- Memory whose first address is 0.0.0.0, with a non-zero count in the entry buffer. -/
def strayHeap : Heap R :=
  ⟨⟨0, 0⟩, ⟨0, 1, 0⟩, fun _ => 0, fun index => if index = 0 then 0 else 1⟩

theorem empty_logger_filled (maps : Maps) (statics : Statics) (none : maps.logger.keys = []) :
    ¬ ResetBy maps ((calculateEnt libm strayHeap statics).run (exec order) maps).2 := by
  have absent : maps.logger.lookup 0 = Option.none :=
    (BoundedMap.lookup_eq_none_iff maps.logger 0).mpr (by simp [none])
  have accepted : maps.logger.accepts 0 = true := by
    rw [BoundedMap.accepts, none, Bool.or_eq_true]
    exact .inr (by decide)
  have next := nextKey_of_empty order maps none
  let written : LoggerValue := ⟨1, 0, 0⟩
  have first : ((reset (strayHeap (R := R)).ip 2 0 (strayHeap (R := R)).loggerValue []).run
      (exec order) (dataReset maps)).2 =
        ((reset (strayHeap (R := R)).ip 1 1 written [(0, 1)]).run (exec order)
          { dataReset maps with logger := maps.logger.update 0 written }).2 := by
    change ((writeBack 0 ((maps.logger.lookup 0).getD ⟨0, 1, 0⟩) [] _).run (exec order) _).2 = _
    rw [absent]
    rfl
  intro correct
  have entry := correct.logger 0
  rw [calculateEnt_run_none order libm _ statics maps next, first,
    (reset_frame order _ 1 1 written _ _).2 0 (by change (0 : Addr) ∉ [1]; decide)] at entry
  change ((maps.logger.update 0 written).lookup 0).map _ = _ at entry
  rw [BoundedMap.lookup_update_self maps.logger 0 written accepted, absent] at entry
  cases entry

theorem entries_reset (maps : Maps) (heap : Heap R) (statics : Statics)
    (some : maps.logger.keys ≠ []) (absent : 0 ∉ maps.logger.keys) :
    ResetBy maps ((calculateEnt libm heap statics).run (exec order) maps).2 := by
  have listed := order.perm maps.logger.keys
  obtain ⟨key, rest, split, first⟩ := listed_first order maps some absent
  obtain ⟨ip, buffer, keys, result⟩ := calculateEnt_run_some order libm heap statics maps [] rest key
    first split
  have members : ∀ k, k ∈ visited ip (rest.length + 1) 0 ↔ k ∈ maps.logger.keys := by
    intro k
    rw [keys, ← split, listed.mem_iff]
  have distinct : (visited ip (rest.length + 1) 0).Nodup := by
    rw [keys, ← split]
    exact BoundedMap.order_nodup order maps.logger
  rw [result]
  refine ⟨?_, ?_⟩
  · intro k
    by_cases present : k ∈ maps.logger.keys
    · rw [reset_entries order ip _ 0 buffer [] (dataReset maps) distinct
        (fun x member => (members x).mp member) k ((members k).mpr present)]
      change ((maps.logger.lookup k).bind LoggerValue.reset).map _ = _
      cases maps.logger.lookup k with
      | none => rfl
      | some value => exact reset_counts value
    · rw [(reset_frame order ip _ 0 buffer [] (dataReset maps)).2 k
        (fun member => present ((members k).mp member))]
      change (maps.logger.lookup k).map _ = _
      rw [(BoundedMap.lookup_eq_none_iff maps.logger k).mpr present]
      rfl
  · rw [(reset_frame order ip _ 0 buffer [] (dataReset maps)).1, dataReset, Slots.value_update_zero]

/-- With no packet in between, a call resets the logger and the data record whatever `malloc`
returned exactly when the logger has an entry and none for the address 0.0.0.0. -/
theorem logger_reset_iff (statics : Statics) (maps : Maps) :
    (∀ heap : Heap R, ResetBy maps ((calculateEnt libm heap statics).run (exec order) maps).2) ↔
      maps.logger.keys ≠ [] ∧ 0 ∉ maps.logger.keys := by
  constructor
  · intro correct
    refine ⟨?_, ?_⟩
    · intro none
      exact empty_logger_filled order libm maps statics none (correct strayHeap)
    · intro present
      exact source_zero_kept order libm maps statics present (correct (uniformHeap 1))
  · intro filled heap
    rcases filled with ⟨some, absent⟩
    exact entries_reset order libm maps heap statics some absent

end Run

/-- Two entries, 0.0.0.0 listed first: the enumeration starts after it, and its count stays. -/
theorem source_zero_never_reset :
    ¬ ∀ (order : BoundedMap.Enumeration Addr) (libm : Libm Rat) (heap : Heap Rat)
        (statics : Statics) (maps : Maps),
      ResetBy maps ((calculateEnt libm heap statics).run (exec order) maps).2 := by
  intro claim
  let logger : Logger := (BoundedMap.empty.update 1 ⟨0, 1, 0⟩).update 0 ⟨0, 1, 0⟩
  let maps : Maps := ⟨logger, Slots.single ⟨0, 2⟩⟩
  let libm : Libm Rat := ⟨id, id⟩
  have kept : ((calculateEnt libm (uniformHeap 2) ⟨0, 1⟩).run (exec (.stored _)) maps).2.logger.lookup
      0 = some ⟨0, 1, 0⟩ := by decide +kernel
  have entry := (claim (.stored _) libm (uniformHeap 2) ⟨0, 1⟩ maps).logger 0
  rw [kept] at entry
  exact absurd entry (by decide +kernel)

end Fide.UserEbpf
