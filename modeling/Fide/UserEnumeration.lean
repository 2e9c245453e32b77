import Fide.CalculateEnt

/-! What a call of `calculate_ent` enumerates when no packet arrives in between.

The loop leaves by `break` after the last entry, so its index ends one below the number of
entries. -/

namespace Fide.UserEbpf

open Words

section Scans

variable {R : Type} [Field R] [LinearOrder R] (libm : Libm R) (data : DataValue)
  (find : Addr → Option LoggerValue)

/-- The buffers after the listed keys, the first of them stored at index `i`. -/
def Scan.recordAll : Nat → List Addr → Scan R → Scan R
  | _, [], scan => scan
  | i, key :: rest, scan => recordAll (i + 1) rest (scan.record libm data i key (find key))

/-- The entropy of the flow of an address. -/
def flowEntropy (k : Addr) : R := (find k).elim 0 (entropyOf libm data)

theorem recordAll_before (i : Nat) (keys : List Addr) (scan : Scan R) (j : Nat) (before : j < i) :
    (scan.recordAll libm data find i keys).ip j = scan.ip j ∧
      (scan.recordAll libm data find i keys).ent j = scan.ent j := by
  induction keys generalizing i scan with
  | nil => exact ⟨rfl, rfl⟩
  | cons key rest ih =>
      obtain ⟨address, entropy⟩ := ih (i + 1) (scan.record libm data i key (find key)) (by omega)
      rw [Scan.recordAll, address, entropy]
      exact ⟨Function.update_of_ne (by omega) _ _, Function.update_of_ne (by omega) _ _⟩

/-- A listed key is stored at its place, with the entropy of its flow if it has an entry. -/
theorem recordAll_stored (i : Nat) (keys : List Addr) (scan : Scan R) (j : Nat) (x : Addr)
    (listed : keys[j]? = some x) :
    (scan.recordAll libm data find i keys).ip (i + j) = x ∧
      ((find x).isSome → (scan.recordAll libm data find i keys).ent (i + j) =
        flowEntropy libm data find x) := by
  induction keys generalizing i j scan with
  | nil => simp at listed
  | cons key rest ih =>
      rcases j with _ | j
      · rw [List.getElem?_cons_zero, Option.some.injEq] at listed
        obtain ⟨address, entropy⟩ := recordAll_before libm data find (i + 1) rest
          (scan.record libm data i key (find key)) i (by omega)
        rw [Scan.recordAll, ← listed]
        refine ⟨address.trans (Function.update_self _ _ _), ?_⟩
        intro present
        obtain ⟨value, found⟩ := Option.isSome_iff_exists.mp present
        refine entropy.trans ((Function.update_self _ _ _).trans ?_)
        rw [flowEntropy, found, Option.getD_some, Option.elim_some]
      · rw [List.getElem?_cons_succ] at listed
        rw [Scan.recordAll, show i + (j + 1) = i + 1 + j by omega]
        exact ih _ _ _ listed

/-- The buffers begin with the keys listed first and the entropies of their flows. -/
theorem recordAll_front (front back : List Addr) (scan : Scan R)
    (present : ∀ k ∈ front, (find k).isSome) :
    (List.range front.length).map (scan.recordAll libm data find 0 (front ++ back)).ip = front ∧
      (List.range front.length).map (scan.recordAll libm data find 0 (front ++ back)).ent =
        front.map (flowEntropy libm data find) := by
  have stored : ∀ j (inside : j < front.length),
      (scan.recordAll libm data find 0 (front ++ back)).ip j = front[j] ∧
        (scan.recordAll libm data find 0 (front ++ back)).ent j =
          flowEntropy libm data find front[j] := by
    intro j inside
    have listed : (front ++ back)[j]? = some front[j] := by
      rw [List.getElem?_append_left inside, List.getElem?_eq_getElem inside]
    obtain ⟨address, entropy⟩ := recordAll_stored libm data find 0 _ scan j _ listed
    rw [Nat.zero_add] at address entropy
    exact ⟨address, entropy (present _ (List.getElem_mem inside))⟩
  constructor
  · apply List.ext_getElem (by simp)
    intro j _ inside
    rw [List.getElem_map, List.getElem_range]
    exact (stored j inside).1
  · apply List.ext_getElem (by simp)
    intro j _ inside
    rw [List.length_map] at inside
    rw [List.getElem_map, List.getElem_map, List.getElem_range]
    exact (stored j inside).2

theorem recordAll_entries (i : Nat) (keys : List Addr) (scan : Scan R) (entry : Addr × LoggerValue)
    (present : ∀ k ∈ keys, (find k).isSome) :
    entry ∈ (scan.recordAll libm data find i keys).entries ↔
      entry ∈ scan.entries ∨ entry.1 ∈ keys ∧ find entry.1 = some entry.2 := by
  induction keys generalizing i scan with
  | nil => simp [Scan.recordAll]
  | cons key rest ih =>
      obtain ⟨value, found⟩ := Option.isSome_iff_exists.mp (present key List.mem_cons_self)
      rw [Scan.recordAll, ih (i + 1) _ fun k member => present k (List.mem_cons_of_mem _ member)]
      have own : entry = (key, value) ↔ entry.1 = key ∧ find entry.1 = some entry.2 := by
        constructor
        · rintro rfl
          exact ⟨rfl, found⟩
        · rintro ⟨same, stored⟩
          rw [same, found, Option.some.injEq] at stored
          exact Prod.ext same stored.symm
      simp only [Scan.record, found, Option.getD_some, List.mem_append, List.mem_cons,
        List.not_mem_nil, or_false, own, or_and_right, or_assoc]

theorem recordAll_entropyAll (i : Nat) (keys : List Addr) (scan : Scan R)
    (present : ∀ k ∈ keys, (find k).isSome) :
    (scan.recordAll libm data find i keys).entropyAll =
      scan.entropyAll + (keys.map (flowEntropy libm data find)).sum := by
  induction keys generalizing i scan with
  | nil => simp [Scan.recordAll]
  | cons key rest ih =>
      obtain ⟨value, found⟩ := Option.isSome_iff_exists.mp (present key List.mem_cons_self)
      rw [Scan.recordAll, ih (i + 1) _ fun k member => present k (List.mem_cons_of_mem _ member)]
      simp only [Scan.record, flowEntropy, found, Option.getD_some, Option.elim_some, List.map_cons,
        List.sum_cons]
      ring

end Scans

/-! ### The loop -/

section Run

variable (order : BoundedMap.Enumeration Addr) {R : Type} [Field R] [LinearOrder R] (libm : Libm R)

/-- From a listed key on, the loop records that key and the ones after it, and leaves `i` at the
last of them. -/
theorem enumerate_run (data : DataValue) (maps : Maps) (rest front : List Addr) (key : Addr)
    (fuel i : Nat) (scan : Scan R)
    (listed : order.order maps.logger.keys = front ++ key :: rest) (room : rest.length < fuel) :
    (enumerate libm data fuel i key scan).run (exec order) maps =
      ((i + rest.length, scan.recordAll libm data maps.logger.lookup i (key :: rest)), maps) := by
  induction rest generalizing front key fuel i scan with
  | nil =>
      obtain ⟨fuel, rfl⟩ := Nat.exists_eq_succ_of_ne_zero (by omega : fuel ≠ 0)
      have last : maps.logger.nextKey order key = none :=
        BoundedMap.nextKey_of_listed order maps.logger front [] key listed
      simp only [enumerate, Program.run, exec, last]
      rfl
  | cons next tail ih =>
      obtain ⟨fuel, rfl⟩ := Nat.exists_eq_succ_of_ne_zero (by omega : fuel ≠ 0)
      have follows : maps.logger.nextKey order key = some next :=
        BoundedMap.nextKey_of_listed order maps.logger front (next :: tail) key listed
      have step : (enumerate libm data (fuel + 1) i key scan).run (exec order) maps =
          (enumerate libm data fuel (i + 1) next
            (scan.record libm data i key (maps.logger.lookup key))).run (exec order) maps := by
        simp only [enumerate, Program.run, exec, follows]
      rw [step, ih (front ++ [key]) next fuel (i + 1) _
        (by rw [listed, List.append_assoc, List.singleton_append]) (by simpa using room),
        List.length_cons, Nat.add_assoc, Nat.add_comm 1]
      rfl

/-- The buffers a call starts its enumeration with. -/
def Heap.scan (heap : Heap R) : Scan R := ⟨heap.loggerValue, heap.ent, heap.ip, 0, []⟩

/-- With no key after key 0 the call goes on with `i` at one and the memory as it is. -/
theorem calculateEnt_none (heap : Heap R) (statics : Statics) (maps : Maps)
    (nothing : maps.logger.nextKey order 0 = none) :
    (calculateEnt libm heap statics).run (exec order) maps =
      (concludeCall libm statics maps.data.value 1 heap.scan).run (exec order) maps := by
  simp only [calculateEnt, Program.run, exec, nothing, Slots.lookup_zero, Option.getD_some]
  rfl

/-- Otherwise it goes on with the keys listed from there on, and `i` at the last of them. -/
theorem calculateEnt_some (heap : Heap R) (statics : Statics) (maps : Maps)
    (front rest : List Addr) (key : Addr) (first : maps.logger.nextKey order 0 = some key)
    (listed : order.order maps.logger.keys = front ++ key :: rest) :
    (calculateEnt libm heap statics).run (exec order) maps =
      (concludeCall libm statics maps.data.value rest.length
        (heap.scan.recordAll libm maps.data.value maps.logger.lookup 0 (key :: rest))).run
          (exec order) maps := by
  have room : rest.length < maxFlows := by
    have bounded := maps.logger.bounded
    have length := congrArg List.length listed
    rw [(order.perm maps.logger.keys).length_eq, List.length_append, List.length_cons] at length
    change maps.logger.keys.length ≤ maxFlows at bounded
    omega
  have result := enumerate_run order libm maps.data.value maps rest front key maxFlows 0 heap.scan
    listed room
  simp only [calculateEnt, Program.run, exec, first, Slots.lookup_zero, Option.getD_some,
    Program.run_bind]
  rw [Heap.scan, Nat.zero_add] at result
  rw [result]
  rfl

theorem nextKey_of_empty (maps : Maps) (none : maps.logger.keys = []) :
    maps.logger.nextKey order 0 = Option.none := by
  have nothing : order.order maps.logger.keys = [] := by
    rw [none]
    exact (order.perm []).eq_nil
  rw [BoundedMap.nextKey_of_absent order maps.logger 0 (by simp [none]), nothing]
  rfl

/-- A logger without the address 0.0.0.0 is enumerated from its first key. -/
theorem listed_first (maps : Maps) (some : maps.logger.keys ≠ []) (absent : 0 ∉ maps.logger.keys) :
    ∃ key rest, order.order maps.logger.keys = key :: rest ∧
      maps.logger.nextKey order 0 = Option.some key := by
  have listed := order.perm maps.logger.keys
  cases keys : order.order maps.logger.keys with
  | nil => exact absurd (by rw [keys] at listed; exact listed.symm.eq_nil) some
  | cons key rest =>
      refine ⟨key, rest, rfl, ?_⟩
      rw [BoundedMap.nextKey_of_absent order maps.logger 0 absent, keys]
      rfl

/-- Every key listed has its entry. -/
theorem listed_present (maps : Maps) :
    ∀ k ∈ order.order maps.logger.keys, (maps.logger.lookup k).isSome := by
  intro k member
  rw [(order.perm maps.logger.keys).mem_iff, BoundedMap.mem_keys_iff] at member
  exact member

theorem listed_entropyAll (heap : Heap R) (maps : Maps) (keys : List Addr)
    (listed : order.order maps.logger.keys = keys) :
    (heap.scan.recordAll libm maps.data.value maps.logger.lookup 0 keys).entropyAll =
      (keys.map (flowEntropy libm maps.data.value maps.logger.lookup)).sum := by
  rw [recordAll_entropyAll libm _ _ 0 _ _ (listed ▸ listed_present order maps)]
  exact zero_add _

end Run

end Fide.UserEbpf
