import Mathlib

/-! Maps with a bound on the number of entries, and arrays of preallocated slots.

A bounded map refuses a new key once it is full and never refuses a key it holds. Traversals
take the order of the keys from an `Enumeration`: nothing relates the order to the keys or to
earlier traversals except that every key present at the start is listed once. -/

namespace Fide.BoundedMap

/-- An order for the keys of a map: each key present is listed exactly once. -/
structure Enumeration (K : Type) where
  order : List K → List K
  perm : ∀ keys, (order keys).Perm keys

/-- The order in which the keys are stored. -/
def Enumeration.stored (K : Type) : Enumeration K := ⟨id, fun _ => List.Perm.refl _⟩

def Enumeration.reversed (K : Type) : Enumeration K := ⟨List.reverse, List.reverse_perm⟩

/-- A given order of given keys. -/
def Enumeration.listing {K : Type} [DecidableEq K] (keys order : List K) (perm : order.Perm keys) :
    Enumeration K where
  order stored := if stored = keys then order else stored
  perm stored := by
    split
    · next same => exact same ▸ perm
    · exact List.Perm.refl _

theorem Enumeration.listing_order {K : Type} [DecidableEq K] (keys order : List K)
    (perm : order.Perm keys) : (Enumeration.listing keys order perm).order keys = order :=
  if_pos rfl

end Fide.BoundedMap

namespace Fide

open BoundedMap

/-- Key-value entries with distinct keys, at most `maxEntries` of them. -/
structure BoundedMap (K V : Type) (maxEntries : Nat) where
  entries : AList (fun _ : K => V)
  bounded : entries.keys.length ≤ maxEntries

namespace BoundedMap

variable {K V : Type} {maxEntries : Nat}

def empty : BoundedMap K V maxEntries := ⟨∅, Nat.zero_le _⟩

theorem ext_entries {m n : BoundedMap K V maxEntries} (same : m.entries = n.entries) : m = n := by
  cases m
  cases n
  cases same
  rfl

def keys (m : BoundedMap K V maxEntries) : List K := m.entries.keys

theorem keys_nodup (m : BoundedMap K V maxEntries) : m.keys.Nodup := m.entries.keys_nodup

theorem order_nodup (enumeration : Enumeration K) (m : BoundedMap K V maxEntries) :
    (enumeration.order m.keys).Nodup :=
  (enumeration.perm m.keys).nodup_iff.mpr m.keys_nodup

variable [DecidableEq K]

def lookup (m : BoundedMap K V maxEntries) (k : K) : Option V := m.entries.lookup k

/-- Whether a value for the key can be stored: the key is present or a slot is free. -/
def accepts (m : BoundedMap K V maxEntries) (k : K) : Bool :=
  (m.lookup k).isSome || decide (m.keys.length < maxEntries)

theorem mem_keys_iff (m : BoundedMap K V maxEntries) (k : K) :
    k ∈ m.keys ↔ (m.lookup k).isSome := by
  rw [lookup, AList.lookup_isSome, AList.mem_keys]
  rfl

theorem mem_keys_iff_lookup (m : BoundedMap K V maxEntries) (k : K) :
    k ∈ m.keys ↔ ∃ v, m.lookup k = some v := by
  rw [mem_keys_iff, Option.isSome_iff_exists]

theorem lookup_eq_none_iff (m : BoundedMap K V maxEntries) (k : K) :
    m.lookup k = none ↔ k ∉ m.keys := by
  rw [mem_keys_iff, Option.not_isSome_iff_eq_none]

private theorem insert_bounded (m : BoundedMap K V maxEntries) (k : K) (v : V)
    (accepted : m.accepts k = true) : (m.entries.insert k v).keys.length ≤ maxEntries := by
  rw [AList.keys_insert, List.length_cons]
  by_cases present : k ∈ m.entries.keys
  · rw [List.length_erase_of_mem present]
    have positive : 0 < m.entries.keys.length := List.length_pos_of_mem present
    have bound := m.bounded
    omega
  · rw [List.erase_of_not_mem present]
    have absent : (m.lookup k).isSome = false := by
      rw [Bool.eq_false_iff, ne_eq, ← mem_keys_iff]
      exact present
    have free : m.keys.length < maxEntries := by simpa [accepts, absent] using accepted
    exact free

/-- Store a value; a map that does not accept the key stays as it is. -/
def update (m : BoundedMap K V maxEntries) (k : K) (v : V) : BoundedMap K V maxEntries :=
  if accepted : m.accepts k = true then
    ⟨m.entries.insert k v, insert_bounded m k v accepted⟩
  else m

def delete (m : BoundedMap K V maxEntries) (k : K) : BoundedMap K V maxEntries :=
  ⟨m.entries.erase k, by
    rw [AList.keys_erase]
    exact (List.length_erase_le).trans m.bounded⟩

theorem accepts_of_lookup (m : BoundedMap K V maxEntries) (k : K) (v : V)
    (present : m.lookup k = some v) : m.accepts k = true := by
  simp [accepts, present]

/-- Fewer keys leave at least as much room. -/
theorem accepts_of_keys {W : Type} (m : BoundedMap K V maxEntries) (n : BoundedMap K W maxEntries)
    (fewer : ∀ k ∈ m.keys, k ∈ n.keys) (k : K) (accepted : n.accepts k = true) :
    m.accepts k = true := by
  by_cases present : k ∈ m.keys
  · rw [accepts, (mem_keys_iff _ _).mp present, Bool.true_or]
  · have shorter : m.keys.length ≤ (n.keys.erase k).length := by
      apply List.Subperm.length_le
      apply List.subperm_of_subset m.keys_nodup
      intro other member
      have different : other ≠ k := by
        rintro rfl
        exact present member
      exact (List.mem_erase_of_ne different).mpr (fewer other member)
    have free : m.keys.length < maxEntries := by
      have bound : n.keys.length ≤ maxEntries := n.bounded
      by_cases known : k ∈ n.keys
      · have positive := List.length_pos_of_mem known
        rw [List.length_erase_of_mem known] at shorter
        omega
      · have absent : (n.lookup k).isSome = false := by
          rw [Bool.eq_false_iff, ne_eq, ← mem_keys_iff]
          exact known
        rw [accepts, absent, Bool.false_or, decide_eq_true_iff] at accepted
        rw [List.erase_of_not_mem known] at shorter
        omega
    rw [accepts, decide_eq_true free, Bool.or_true]

theorem lookup_update_self (m : BoundedMap K V maxEntries) (k : K) (v : V)
    (accepted : m.accepts k = true) : (m.update k v).lookup k = some v := by
  rw [update, dif_pos accepted, lookup, AList.lookup_insert]

@[simp] theorem lookup_update_of_ne (m : BoundedMap K V maxEntries) (k k' : K) (v : V)
    (other : k' ≠ k) : (m.update k v).lookup k' = m.lookup k' := by
  rw [update]
  split
  · rw [lookup, AList.lookup_insert_ne other]
    rfl
  · rfl

theorem update_refused (m : BoundedMap K V maxEntries) (k : K) (v : V)
    (refused : m.accepts k = false) : m.update k v = m := by
  rw [update, dif_neg (by simp [refused])]

/-- What is found after an update was stored by it or was there before. -/
theorem lookup_update_cases (m : BoundedMap K V maxEntries) (k k' : K) (v w : V)
    (found : (m.update k v).lookup k' = some w) : w = v ∨ m.lookup k' = some w := by
  by_cases own : k' = k
  · subst own
    cases accepted : m.accepts k' with
    | true =>
        rw [lookup_update_self m k' v accepted, Option.some.injEq] at found
        exact .inl found.symm
    | false =>
        rw [update_refused m k' v accepted] at found
        exact .inr found
  · rw [lookup_update_of_ne m k k' v own] at found
    exact .inr found

theorem lookup_of_delete (m : BoundedMap K V maxEntries) (k k' : K) (w : V)
    (found : (m.delete k).lookup k' = some w) : m.lookup k' = some w := by
  by_cases own : k' = k
  · rw [own, lookup, delete, AList.lookup_erase] at found
    cases found
  · rwa [lookup, delete, AList.lookup_erase_ne own] at found

/-- Of two updates under one key the second counts. -/
theorem update_update (m : BoundedMap K V maxEntries) (k : K) (v w : V) :
    (m.update k v).update k w = m.update k w := by
  cases accepted : m.accepts k with
  | true =>
      have again : (m.update k v).accepts k = true :=
        accepts_of_lookup _ k v (lookup_update_self m k v accepted)
      have once : ∀ v, (m.update k v).entries = m.entries.insert k v := by
        intro v
        rw [update, dif_pos accepted]
      have twice : ((m.update k v).update k w).entries = (m.update k v).entries.insert k w := by
        rw [update, dif_pos again]
      have same : ((m.update k v).update k w).entries = (m.update k w).entries := by
        rw [twice, once, once, AList.insert_insert]
      exact ext_entries same
  | false => rw [update_refused m k v accepted]

/-- An update of a map that can hold anything leaves an entry behind, if only an earlier one. -/
theorem keys_update_ne_nil (m : BoundedMap K V maxEntries) (k : K) (v : V) (room : 0 < maxEntries) :
    (m.update k v).keys ≠ [] := by
  intro none
  cases accepted : m.accepts k with
  | true =>
      have stored : k ∈ (m.update k v).keys := by
        rw [mem_keys_iff, lookup_update_self m k v accepted, Option.isSome_some]
      rw [none] at stored
      cases stored
  | false =>
      rw [update_refused m k v accepted] at none
      rw [accepts, none, List.length_nil, decide_eq_true room, Bool.or_true] at accepted
      cases accepted

theorem delete_update (m : BoundedMap K V maxEntries) (k : K) (v : V) :
    (m.update k v).delete k = m.delete k := by
  cases accepted : m.accepts k with
  | true =>
      apply ext_entries
      rw [update, dif_pos accepted]
      exact AList.ext (List.kerase_cons_eq rfl)
  | false => rw [update_refused m k v accepted]

@[simp] theorem lookup_delete_self (m : BoundedMap K V maxEntries) (k : K) :
    (m.delete k).lookup k = none := AList.lookup_erase k m.entries

@[simp] theorem lookup_delete_of_ne (m : BoundedMap K V maxEntries) (k k' : K)
    (other : k' ≠ k) : (m.delete k).lookup k' = m.lookup k' :=
  AList.lookup_erase_ne other

/-! ### Traversals -/

section Traversal

variable {σ : Type}

/-- One visit of a traversal. The callback works on the value in place (`some`) or deletes the
entry it was called for (`none`), and threads its own state. -/
def visit (callback : K → V → σ → Option V × σ)
    (acc : BoundedMap K V maxEntries × σ) (k : K) : BoundedMap K V maxEntries × σ :=
  match acc.1.lookup k with
  | none => acc
  | some v =>
    match callback k v acc.2 with
    | (some v', s) => (acc.1.update k v', s)
    | (none, s) => (acc.1.delete k, s)

def forEach (enumeration : Enumeration K) (callback : K → V → σ → Option V × σ)
    (m : BoundedMap K V maxEntries) (s : σ) : BoundedMap K V maxEntries × σ :=
  (enumeration.order m.keys).foldl (visit callback) (m, s)

/-- The callback's state after the listed keys when each is visited with its value in `m`. -/
def foldState (callback : K → V → σ → Option V × σ) (m : BoundedMap K V maxEntries)
    (order : List K) (s : σ) : σ :=
  order.foldl (fun s k => (m.lookup k).elim s fun v => (callback k v s).2) s

variable (callback : K → V → σ → Option V × σ)

theorem foldState_cons (m : BoundedMap K V maxEntries) (k : K) (rest : List K) (s : σ) :
    foldState callback m (k :: rest) s =
      foldState callback m rest ((m.lookup k).elim s fun v => (callback k v s).2) := rfl

theorem visit_eq (acc : BoundedMap K V maxEntries × σ) (k : K) :
    visit callback acc k = (acc.1.lookup k).elim acc fun v =>
      ((callback k v acc.2).1.elim (acc.1.delete k) (acc.1.update k), (callback k v acc.2).2) := by
  unfold visit
  cases acc.1.lookup k with
  | none => rfl
  | some v =>
      cases result : callback k v acc.2 with
      | mk kept s => cases kept <;> simp only [result, Option.elim_some, Option.elim_none]

theorem visit_lookup_self (acc : BoundedMap K V maxEntries × σ) (k : K) :
    (visit callback acc k).1.lookup k =
      (acc.1.lookup k).bind fun v => (callback k v acc.2).1 := by
  unfold visit
  split
  · next absent => simp [absent]
  · next v present =>
      rw [present, Option.bind_some]
      split
      · next v' s result =>
          rw [result]
          exact lookup_update_self _ _ _ (accepts_of_lookup _ _ _ present)
      · next s result =>
          rw [result]
          exact lookup_delete_self _ _

theorem visit_lookup_of_ne (acc : BoundedMap K V maxEntries × σ) (k k' : K) (other : k' ≠ k) :
    (visit callback acc k).1.lookup k' = acc.1.lookup k' := by
  unfold visit
  split
  · rfl
  · split
    · exact lookup_update_of_ne _ _ _ _ other
    · exact lookup_delete_of_ne _ _ _ other

theorem visit_state (acc : BoundedMap K V maxEntries × σ) (k : K) :
    (visit callback acc k).2 =
      (acc.1.lookup k).elim acc.2 fun v => (callback k v acc.2).2 := by
  unfold visit
  split
  · next absent => simp [absent]
  · next v present =>
      rw [present, Option.elim_some]
      split
      · next v' s result => rw [result]
      · next s result => rw [result]

theorem foldl_visit_lookup_of_notMem (order : List K) (acc : BoundedMap K V maxEntries × σ)
    (k : K) (outside : k ∉ order) :
    (order.foldl (visit callback) acc).1.lookup k = acc.1.lookup k := by
  induction order generalizing acc with
  | nil => rfl
  | cons head tail ih =>
      rw [List.mem_cons, not_or] at outside
      rw [List.foldl_cons, ih _ outside.2]
      exact visit_lookup_of_ne callback acc head k outside.1

private theorem foldl_visit_lookup (order : List K) (distinct : order.Nodup)
    (acc : BoundedMap K V maxEntries × σ) (k : K) (member : k ∈ order) :
    ∃ s, (order.foldl (visit callback) acc).1.lookup k =
      (acc.1.lookup k).bind fun v => (callback k v s).1 := by
  induction order generalizing acc with
  | nil => cases member
  | cons head tail ih =>
      rw [List.nodup_cons] at distinct
      rw [List.foldl_cons]
      rcases List.mem_cons.mp member with rfl | later
      · refine ⟨acc.2, ?_⟩
        rw [foldl_visit_lookup_of_notMem callback tail _ _ distinct.1]
        exact visit_lookup_self callback acc _
      · have other : k ≠ head := fun same => distinct.1 (same ▸ later)
        obtain ⟨s, result⟩ := ih distinct.2 (visit callback acc head) later
        exact ⟨s, by rw [result, visit_lookup_of_ne callback acc head k other]⟩

/-- Every entry is rewritten or deleted by the callback, called once on the entry's value
with some state of the traversal. -/
theorem forEach_lookup (enumeration : Enumeration K) (m : BoundedMap K V maxEntries) (s : σ)
    (k : K) :
    ∃ s', (forEach enumeration callback m s).1.lookup k =
      (m.lookup k).bind fun v => (callback k v s').1 := by
  by_cases member : k ∈ enumeration.order m.keys
  · exact foldl_visit_lookup callback _ (order_nodup enumeration m) (m, s) k member
  · refine ⟨s, ?_⟩
    rw [forEach, foldl_visit_lookup_of_notMem callback _ _ _ member]
    have absent : m.lookup k = none := by
      rw [lookup_eq_none_iff, ← (enumeration.perm m.keys).mem_iff]
      exact member
    simp [absent]

private theorem foldl_visit_state (order : List K) (distinct : order.Nodup)
    (m : BoundedMap K V maxEntries) (acc : BoundedMap K V maxEntries × σ)
    (agree : ∀ k ∈ order, acc.1.lookup k = m.lookup k) :
    (order.foldl (visit callback) acc).2 = foldState callback m order acc.2 := by
  induction order generalizing acc with
  | nil => rfl
  | cons head tail ih =>
      rw [List.nodup_cons] at distinct
      rw [List.foldl_cons, ih distinct.2]
      · rw [foldState, foldState, List.foldl_cons, visit_state,
          agree head List.mem_cons_self]
      · intro k member
        have other : k ≠ head := fun same => distinct.1 (same ▸ member)
        rw [visit_lookup_of_ne callback acc head k other]
        exact agree k (List.mem_cons_of_mem head member)

/-- The callback's final state depends on the stored values only: no visit sees the effect of
another visit on the map. -/
theorem forEach_state (enumeration : Enumeration K) (m : BoundedMap K V maxEntries) (s : σ) :
    (forEach enumeration callback m s).2 =
      foldState callback m (enumeration.order m.keys) s :=
  foldl_visit_state callback _ (order_nodup enumeration m) m (m, s) (fun _ _ => rfl)

end Traversal

/-- The key after `k`: the first key when `k` is absent, none after the last. -/
def nextKey (enumeration : Enumeration K) (m : BoundedMap K V maxEntries) (k : K) : Option K :=
  if k ∈ m.keys then ((enumeration.order m.keys).dropWhile (· ≠ k)).tail.head?
  else (enumeration.order m.keys).head?

theorem nextKey_of_listed (enumeration : Enumeration K) (m : BoundedMap K V maxEntries)
    (front rest : List K) (k : K) (listed : enumeration.order m.keys = front ++ k :: rest) :
    m.nextKey enumeration k = rest.head? := by
  have present : k ∈ m.keys := by
    rw [← (enumeration.perm m.keys).mem_iff, listed]
    simp
  have distinct := order_nodup enumeration m
  rw [listed, List.nodup_append] at distinct
  have before : ∀ x ∈ front, x ≠ k := fun x member => distinct.2.2 x member k List.mem_cons_self
  have dropped : (front ++ k :: rest).dropWhile (· ≠ k) = k :: rest := by
    rw [List.dropWhile_append_of_pos (by simpa using before), List.dropWhile_cons_of_neg (by simp)]
  rw [nextKey, if_pos present, listed, dropped, List.tail_cons]

theorem nextKey_of_absent (enumeration : Enumeration K) (m : BoundedMap K V maxEntries) (k : K)
    (absent : k ∉ m.keys) : m.nextKey enumeration k = (enumeration.order m.keys).head? := by
  rw [nextKey, if_neg absent]

/-! ### Sums over the entries -/

section Total

variable {M : Type} [AddCommMonoid M]

/-- A quantity of the entry under `k`; an absent entry counts as zero. -/
def valueAt (f : V → M) (m : BoundedMap K V maxEntries) (k : K) : M := (m.lookup k).elim 0 f

def total (f : V → M) (m : BoundedMap K V maxEntries) : M := (m.keys.map (m.valueAt f)).sum

theorem valueAt_of_notMem (f : V → M) (m : BoundedMap K V maxEntries) (k : K)
    (absent : k ∉ m.keys) : m.valueAt f k = 0 := by
  rw [valueAt, (m.lookup_eq_none_iff k).mpr absent, Option.elim_none]

/-- Keys without an entry may be added to the sum. -/
theorem total_eq_sum (f : V → M) (m : BoundedMap K V maxEntries) (support : Finset K)
    (covered : ∀ k ∈ m.keys, k ∈ support) : m.total f = ∑ k ∈ support, m.valueAt f k := by
  have listed : m.total f = ∑ k ∈ m.keys.toFinset, m.valueAt f k := by
    rw [total, List.sum_toFinset _ m.keys_nodup]
  rw [listed]
  apply Finset.sum_subset
  · intro k member
    exact covered k (List.mem_toFinset.mp member)
  · intro k _ absent
    exact valueAt_of_notMem f m k (fun member => absent (List.mem_toFinset.mpr member))

/-- A sum is determined by the quantity under each key, whatever keys hold entries. -/
theorem total_congr {W : Type} {bound : Nat} (f : V → M) (g : W → M)
    (m : BoundedMap K V maxEntries) (n : BoundedMap K W bound)
    (agree : ∀ k, m.valueAt f k = n.valueAt g k) : m.total f = n.total g := by
  rw [total_eq_sum f m (m.keys.toFinset ∪ n.keys.toFinset)
      (fun k member => Finset.mem_union_left _ (List.mem_toFinset.mpr member)),
    total_eq_sum g n (m.keys.toFinset ∪ n.keys.toFinset)
      (fun k member => Finset.mem_union_right _ (List.mem_toFinset.mpr member))]
  exact Finset.sum_congr rfl (fun k _ => agree k)

theorem total_eq_zero (f : V → M) (m : BoundedMap K V maxEntries)
    (vanish : ∀ k, m.valueAt f k = 0) : m.total f = 0 := by
  rw [total_eq_sum f m m.keys.toFinset (fun k member => List.mem_toFinset.mpr member)]
  exact Finset.sum_eq_zero (fun k _ => vanish k)

/-- A change under one key changes the sum by the same amount. -/
theorem total_add (f : V → M) (m n : BoundedMap K V maxEntries) (key : K) (amount : M)
    (changed : n.valueAt f key = m.valueAt f key + amount)
    (agree : ∀ k, k ≠ key → n.valueAt f k = m.valueAt f k) :
    n.total f = m.total f + amount := by
  let support := insert key (m.keys.toFinset ∪ n.keys.toFinset)
  have member : key ∈ support := Finset.mem_insert_self _ _
  have left : n.total f = ∑ k ∈ support, n.valueAt f k :=
    total_eq_sum f n support (fun k present => Finset.mem_insert_of_mem
      (Finset.mem_union_right _ (List.mem_toFinset.mpr present)))
  have right : m.total f = ∑ k ∈ support, m.valueAt f k :=
    total_eq_sum f m support (fun k present => Finset.mem_insert_of_mem
      (Finset.mem_union_left _ (List.mem_toFinset.mpr present)))
  have rest : ∑ k ∈ support.erase key, n.valueAt f k = ∑ k ∈ support.erase key, m.valueAt f k :=
    Finset.sum_congr rfl (fun k inside => agree k (Finset.ne_of_mem_erase inside))
  rw [left, right, ← Finset.add_sum_erase support _ member,
    ← Finset.add_sum_erase support (m.valueAt f) member, rest, changed]
  exact add_right_comm _ _ _

end Total

/-! ### Changed values -/

section MapValues

variable {W : Type} (f : V → W)

/-- The entries with every value replaced, in the order they are in. -/
def mapEntries (entries : List (Σ _ : K, V)) : List (Σ _ : K, W) :=
  entries.map fun entry => ⟨entry.1, f entry.2⟩

omit [DecidableEq K] in
theorem keys_mapEntries (entries : List (Σ _ : K, V)) :
    (mapEntries f entries).keys = entries.keys := by
  rw [mapEntries, List.keys, List.map_map]
  rfl

theorem kerase_mapEntries (entries : List (Σ _ : K, V)) (k : K) :
    (mapEntries f entries).kerase k = mapEntries f (entries.kerase k) := List.eraseP_map

def mapValues (m : BoundedMap K V maxEntries) : BoundedMap K W maxEntries where
  entries := ⟨mapEntries f m.entries.entries, by
    rw [List.NodupKeys, keys_mapEntries]
    exact m.entries.nodupKeys⟩
  bounded := by
    change (mapEntries f m.entries.entries).keys.length ≤ maxEntries
    rw [keys_mapEntries]
    exact m.bounded

omit [DecidableEq K] in
@[simp] theorem keys_mapValues (m : BoundedMap K V maxEntries) : (m.mapValues f).keys = m.keys :=
  keys_mapEntries f m.entries.entries

@[simp] theorem lookup_mapValues (m : BoundedMap K V maxEntries) (k : K) :
    (m.mapValues f).lookup k = (m.lookup k).map f :=
  List.dlookup_map₂ (γ := fun _ => V) (δ := fun _ => W) (f := fun _ => f) k

@[simp] theorem accepts_mapValues (m : BoundedMap K V maxEntries) (k : K) :
    (m.mapValues f).accepts k = m.accepts k := by
  rw [accepts, accepts, lookup_mapValues, keys_mapValues, Option.isSome_map]

theorem mapValues_update (m : BoundedMap K V maxEntries) (k : K) (v : V) :
    (m.update k v).mapValues f = (m.mapValues f).update k (f v) := by
  cases accepted : m.accepts k with
  | true =>
      apply ext_entries
      rw [update, dif_pos accepted, update, dif_pos (by rwa [accepts_mapValues])]
      apply AList.ext
      change mapEntries f (List.kinsert k v _) = List.kinsert k (f v) (mapEntries f _)
      rw [List.kinsert_def, List.kinsert_def, kerase_mapEntries]
      rfl
  | false =>
      rw [update_refused m k v accepted, update_refused _ _ _ (by rwa [accepts_mapValues])]

theorem mapValues_delete (m : BoundedMap K V maxEntries) (k : K) :
    (m.delete k).mapValues f = (m.mapValues f).delete k := by
  apply ext_entries
  apply AList.ext
  exact (kerase_mapEntries f _ k).symm

end MapValues

/-! ### Changed keys -/

section MapKeys

variable {K' : Type} [DecidableEq K'] (rename : K ↪ K')

def renameEntries (entries : List (Σ _ : K, V)) : List (Σ _ : K', V) :=
  entries.map fun entry => ⟨rename entry.1, entry.2⟩

omit [DecidableEq K] [DecidableEq K'] in
theorem keys_renameEntries (entries : List (Σ _ : K, V)) :
    (renameEntries rename entries).keys = entries.keys.map rename := by
  rw [renameEntries, List.keys, List.keys, List.map_map, List.map_map]
  rfl

theorem kerase_renameEntries (entries : List (Σ _ : K, V)) (k : K) :
    (renameEntries rename entries).kerase (rename k) =
      renameEntries rename (entries.kerase k) := by
  rw [renameEntries, List.kerase, List.kerase, List.eraseP_map, renameEntries]
  congr 2
  funext entry
  exact decide_eq_decide.mpr rename.injective.eq_iff

/-- The map with every key renamed, its entries in the order they are in. -/
def mapKeys (m : BoundedMap K V maxEntries) : BoundedMap K' V maxEntries where
  entries := ⟨renameEntries rename m.entries.entries, by
    rw [List.NodupKeys, keys_renameEntries]
    exact m.entries.nodupKeys.map rename.injective⟩
  bounded := by
    change (renameEntries rename m.entries.entries).keys.length ≤ maxEntries
    rw [keys_renameEntries, List.length_map]
    exact m.bounded

omit [DecidableEq K] [DecidableEq K'] in
@[simp] theorem keys_mapKeys (m : BoundedMap K V maxEntries) :
    (m.mapKeys rename).keys = m.keys.map rename := keys_renameEntries rename m.entries.entries

@[simp] theorem lookup_mapKeys (m : BoundedMap K V maxEntries) (k : K) :
    (m.mapKeys rename).lookup (rename k) = m.lookup k :=
  List.dlookup_map₁ m.entries.entries rename.injective k

@[simp] theorem accepts_mapKeys (m : BoundedMap K V maxEntries) (k : K) :
    (m.mapKeys rename).accepts (rename k) = m.accepts k := by
  rw [accepts, accepts, lookup_mapKeys, keys_mapKeys, List.length_map]

theorem mapKeys_update (m : BoundedMap K V maxEntries) (k : K) (v : V) :
    (m.update k v).mapKeys rename = (m.mapKeys rename).update (rename k) v := by
  cases accepted : m.accepts k with
  | true =>
      apply ext_entries
      rw [update, dif_pos accepted, update, dif_pos (by rwa [accepts_mapKeys])]
      apply AList.ext
      change renameEntries rename (List.kinsert k v _) =
        List.kinsert (rename k) v (renameEntries rename _)
      rw [List.kinsert_def, List.kinsert_def, kerase_renameEntries]
      rfl
  | false =>
      rw [update_refused m k v accepted, update_refused _ _ _ (by rwa [accepts_mapKeys])]

theorem mapKeys_delete (m : BoundedMap K V maxEntries) (k : K) :
    (m.delete k).mapKeys rename = (m.mapKeys rename).delete (rename k) := by
  apply ext_entries
  apply AList.ext
  exact (kerase_renameEntries rename _ k).symm

variable {σ τ : Type} {callback : K → V → σ → Option V × σ} {callback' : K' → V → τ → Option V × τ}
  (state : σ → τ)
  (agree : ∀ k v s, callback' (rename k) v (state s) =
    ((callback k v s).1, state (callback k v s).2))

include agree

/-- A visit by callbacks that agree up to the names. -/
theorem visit_mapKeys (acc : BoundedMap K V maxEntries × σ) (k : K) :
    visit callback' (acc.1.mapKeys rename, state acc.2) (rename k) =
      ((visit callback acc k).1.mapKeys rename, state (visit callback acc k).2) := by
  rw [visit_eq, visit_eq, lookup_mapKeys]
  cases acc.1.lookup k with
  | none => rfl
  | some v =>
      simp only [Option.elim_some, agree]
      cases (callback k v acc.2).1 with
      | none => rw [Option.elim_none, Option.elim_none, mapKeys_delete]
      | some w => rw [Option.elim_some, Option.elim_some, mapKeys_update]

/-- Traversals in orders that agree up to the names. -/
theorem forEach_mapKeys (enumeration : Enumeration K) (enumeration' : Enumeration K')
    (orders : ∀ keys, enumeration'.order (keys.map rename) = (enumeration.order keys).map rename)
    (m : BoundedMap K V maxEntries) (s : σ) :
    (m.mapKeys rename).forEach enumeration' callback' (state s) =
      ((m.forEach enumeration callback s).1.mapKeys rename,
        state (m.forEach enumeration callback s).2) := by
  rw [forEach, forEach, keys_mapKeys, orders]
  generalize enumeration.order m.keys = keys
  have folded : ∀ acc : BoundedMap K V maxEntries × σ,
      (keys.map rename).foldl (visit callback') (acc.1.mapKeys rename, state acc.2) =
        ((keys.foldl (visit callback) acc).1.mapKeys rename,
          state (keys.foldl (visit callback) acc).2) := by
    induction keys with
    | nil => exact fun _ => rfl
    | cons k rest ih =>
        intro acc
        rw [List.map_cons, List.foldl_cons, List.foldl_cons,
          visit_mapKeys rename state agree acc k, ih]
  exact folded (m, s)

end MapKeys

end BoundedMap

/-- An array of preallocated slots: every index below `size` has a value at all times. -/
structure Slots (V : Type) (size : Nat) where
  cells : Vector V size

namespace Slots

variable {V : Type} {size : Nat}

def lookup (slots : Slots V size) (index : Nat) : Option V := slots.cells[index]?

def update (slots : Slots V size) (index : Nat) (v : V) : Slots V size :=
  ⟨slots.cells.setIfInBounds index v⟩

/-- The value of the only slot of a one-slot array. -/
def value (slots : Slots V 1) : V := slots.cells[0]

def single (v : V) : Slots V 1 := ⟨#v[v]⟩

@[simp] theorem lookup_zero (slots : Slots V 1) : slots.lookup 0 = some slots.value := by
  simp [lookup, value]

@[simp] theorem value_update_zero (slots : Slots V 1) (v : V) :
    (slots.update 0 v).value = v := by
  simp [update, value]

theorem update_update_zero (slots : Slots V 1) (v w : V) :
    (slots.update 0 v).update 0 w = slots.update 0 w := by
  simp [update]

theorem update_zero_value (slots : Slots V 1) : slots.update 0 slots.value = slots := by
  cases slots with
  | mk cells =>
      rw [update, mk.injEq, value]
      ext i inside
      have only : i = 0 := by omega
      subst only
      simp

end Slots

end Fide
