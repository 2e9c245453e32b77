import Fide.Ratio
import Fide.Rollover

/-! The running total of the entropy pass, in any order, and the average it ends in.

The total starts at scale 16 and keeps it as long as every partial sum has at least sixteen bits; a
shorter partial sum is cut and its scale reduced, and that depends on the order. -/

namespace Fide.Kernel

open Words FixedPoint DynamicScale

/-! ### Summing entropies -/

/-- The running total of the entropy pass. -/
def sumUp (target : Target) (entropies : List FixedPoint) (start : FixedPoint) : FixedPoint :=
  entropies.foldl (fun total entropy => (add target total entropy).result) start

/-- Entropies are aligned at eight fraction bits or fewer, and at eight once they are long. -/
structure EntropyScale (entropy : FixedPoint) : Prop where
  nonneg : 0 ≤ entropy.q.toInt
  bounded : entropy.q.toInt ≤ 8
  long : 2 ^ 15 ≤ entropy.number.toNat → entropy.q = 8

theorem scale_eight (n : I32) : EntropyScale ⟨n, 8⟩ where
  nonneg := by
    change 0 ≤ (8 : I32).toInt
    decide
  bounded := by
    change (8 : I32).toInt ≤ 8
    decide
  long _ := rfl

theorem scale_zero : EntropyScale ⟨0, 0⟩ :=
  ⟨by decide, by decide, fun long => absurd long (by decide)⟩

theorem cut_scale (n : Nat) (number : n < 2 ^ 31) :
    EntropyScale ⟨(cutNumber 8 n : I32), (cutScale 8 n : I32)⟩ := by
  have less := cutNumber_le 8 n
  have bound : cutScale 8 n ≤ 8 := min_le_left _ _
  have scale : ((cutScale 8 n : Nat) : I32).toInt = cutScale 8 n :=
    toInt_natCast _ (by omega)
  refine ⟨scale ▸ Int.natCast_nonneg _, scale ▸ Nat.cast_le.mpr bound, ?_⟩
  intro long
  change 2 ^ 15 ≤ ((cutNumber 8 n : Nat) : I32).toNat at long
  rw [toNat_natCast _ (by omega)] at long
  have size : 15 < Nat.size n := Nat.lt_size.mpr (by omega)
  change ((cutScale 8 n : Nat) : I32) = 8
  rw [cutScale_of_long 8 n (by omega)]
  rfl

theorem rescale_eight (target : Target) (n : I32) :
    EntropyScale (rescale target (n.signExtend 64) 8) := by
  by_cases small : (n.signExtend 64).toNat < 2 ^ 31
  · rw [rescale_eq_cut target _ 8 small (by decide) (by decide)]
    exact cut_scale _ small
  · rw [rescale_large target _ 8 (by omega) (by decide)]
    exact scale_eight _

theorem entropyOf_scale (target : Target) (tmp : DataValue) (value : LoggerValue) :
    EntropyScale (entropyOf target tmp value).entropy := by
  unfold entropyOf
  dsimp only
  split <;>
    (simp only [add_eq, absVal, calcLog_q]
     exact rescale_eight target _)

/-- A long total stays at its scale when the next sum is long. -/
theorem add_long (target : Target) (total entropy : FixedPoint) (scale : EntropyScale entropy)
    (aligned : total.q = 8 ∨ total.q = 16)
    (long : 2 ^ 15 ≤ (total.number + entropy.number).toNat) :
    (add target total entropy).result = ⟨total.number + entropy.number, total.q⟩ := by
  have bounded := scale.bounded
  have top : maxScale total.q entropy.q = total.q := by
    unfold maxScale
    rcases aligned with q | q <;> rw [q]
    · exact if_neg (by change ¬ (8 : Int) < _; omega)
    · exact if_neg (by change ¬ (16 : Int) < _; omega)
  rw [add_eq, top]
  exact rescale_long target _ _ long (by rcases aligned with q | q <;> rw [q] <;> decide)

/-- From zero, a long entropy sets the total, at the larger of the scales. -/
theorem add_first (target : Target) (q : I32) (entropy : FixedPoint) (scale : EntropyScale entropy)
    (long : 2 ^ 15 ≤ entropy.number.toNat) (start : q = 0 ∨ q = 16) :
    (add target ⟨0, q⟩ entropy).result = ⟨entropy.number, if q = 0 then 8 else 16⟩ := by
  have top : maxScale q entropy.q = if q = 0 then 8 else 16 := by
    rw [scale.long long]
    rcases start with rfl | rfl <;> rfl
  rw [add_eq, top]
  change rescale target (((0 : I32) + entropy.number).signExtend 64) _ = _
  rw [zero_add]
  exact rescale_long target _ _ long (by rcases start with rfl | rfl <;> decide)

/-- Zero and zero is zero at scale zero. -/
theorem add_zero_zero (target : Target) (q : I32) (entropy : FixedPoint)
    (scale : EntropyScale entropy) (zero : entropy.number = 0) (start : q = 0 ∨ q = 16) :
    (add target ⟨0, q⟩ entropy).result = ⟨0, 0⟩ := by
  have nonneg := scale.nonneg
  have bounded := scale.bounded
  have within : 0 ≤ q.toInt ∧ q.toInt ≤ 16 := by rcases start with rfl | rfl <;> decide
  have top : 0 ≤ (maxScale q entropy.q).toInt ∧ (maxScale q entropy.q).toInt ≤ 16 :=
    maxScale_of (motive := fun q => 0 ≤ q.toInt ∧ q.toInt ≤ 16) q entropy.q within (by omega)
  rw [add_eq, zero]
  exact rescale_zero target (maxScale q entropy.q) top.1 (by omega)

/-- A sum that cancels ends at scale zero. -/
theorem add_cancel (target : Target) (total entropy : FixedPoint) (scale : EntropyScale entropy)
    (aligned : total.q = 8 ∨ total.q = 16) (zero : total.number + entropy.number = 0) :
    (add target total entropy).result = ⟨0, 0⟩ := by
  have nonneg := scale.nonneg
  have bounded := scale.bounded
  have within : 0 ≤ total.q.toInt ∧ total.q.toInt ≤ 16 := by
    rcases aligned with q | q <;> rw [q] <;> decide
  have top : 0 ≤ (maxScale total.q entropy.q).toInt ∧ (maxScale total.q entropy.q).toInt ≤ 16 :=
    maxScale_of (motive := fun q => 0 ≤ q.toInt ∧ q.toInt ≤ 16) _ _ within (by omega)
  rw [add_eq, zero]
  exact rescale_zero target _ top.1 (by omega)

/-! ### Sums in any order -/

section Sums

variable {K M : Type} [AddCommMonoid M] (f : K → M)

def sumOf (order : List K) : M := (order.map f).sum

/-- The values visited first sum to zero at some point. -/
def Vanishes (order : List K) : Prop := ∃ front, front <+: order ∧ front ≠ [] ∧ sumOf f front = 0

/-- No order is any different: there are sixteen values or more, or all of them sum to zero, or the
sum vanishes on the way in every order or in none. -/
def ScaleSettled (keys : List K) : Prop :=
  16 ≤ keys.length ∨ sumOf f keys = 0 ∨ (∀ order : List K, order.Perm keys → Vanishes f order) ∨
    ∀ order : List K, order.Perm keys → ¬ Vanishes f order

variable {f}

theorem sumOf_single (k : K) : sumOf f [k] = f k := by
  rw [sumOf, List.map_singleton, List.sum_singleton]

theorem sumOf_snoc (front : List K) (last : K) :
    sumOf f (front ++ [last]) = sumOf f front + f last := by
  rw [sumOf, List.map_append, List.sum_append, List.map_singleton, List.sum_singleton]
  rfl

theorem sumOf_perm {order order' : List K} (perm : order.Perm order') :
    sumOf f order = sumOf f order' :=
  (perm.map f).sum_eq

theorem vanishes_of_zero (order : List K) (some : order ≠ []) (zero : sumOf f order = 0) :
    Vanishes f order :=
  ⟨order, List.prefix_rfl, some, zero⟩

theorem vanishes_snoc (front : List K) (last : K) (sum : sumOf f (front ++ [last]) ≠ 0) :
    Vanishes f (front ++ [last]) ↔ Vanishes f front := by
  constructor
  · intro vanishes
    obtain ⟨part, starts, some, zero⟩ := vanishes
    rcases List.prefix_concat_iff.mp starts with whole | early
    · rw [whole] at zero
      exact absurd zero sum
    · exact ⟨part, early, some, zero⟩
  · intro vanishes
    obtain ⟨part, early, some, zero⟩ := vanishes
    exact ⟨part, early.trans (List.prefix_append front [last]), some, zero⟩

theorem not_vanishes_nil : ¬ Vanishes f [] := by
  rintro ⟨part, starts, some, -⟩
  exact some (List.prefix_nil.mp starts)

/-- Only where the sums are zero matters. -/
theorem scaleSettled_congr {N : Type} [AddCommMonoid N] {g : K → N}
    (same : ∀ order : List K, sumOf f order = 0 ↔ sumOf g order = 0) (keys : List K) :
    ScaleSettled f keys ↔ ScaleSettled g keys := by
  simp only [ScaleSettled, Vanishes, same]

end Sums

/-! ### The total in any order -/

section Totals

variable {K : Type} (f : K → FixedPoint)

abbrev numberOf (k : K) : I32 := (f k).number

/-- No set of values has a sum, modulo `2^32`, of one to fifteen bits. -/
def NoShortSums : Prop :=
  ∀ S : Finset K, ∑ k ∈ S, numberOf f k = 0 ∨ 2 ^ 15 ≤ (∑ k ∈ S, numberOf f k).toNat

/-- The total of a traversal: untouched, zero, or the plain sum at the scale that is left. -/
inductive Total (order : List K) : FixedPoint → Prop
  | untouched (none : order = []) : Total order ⟨0, 16⟩
  | zero (some : order ≠ []) (sum : sumOf (numberOf f) order = 0) : Total order ⟨0, 0⟩
  | kept (sum : sumOf (numberOf f) order ≠ 0) (never : ¬ Vanishes (numberOf f) order) :
      Total order ⟨sumOf (numberOf f) order, 16⟩
  | reset (sum : sumOf (numberOf f) order ≠ 0) (once : Vanishes (numberOf f) order) :
      Total order ⟨sumOf (numberOf f) order, 8⟩

variable {f}

theorem NoShortSums.single (sums : NoShortSums f) (k : K) (nonzero : (f k).number ≠ 0) :
    2 ^ 15 ≤ (f k).number.toNat := by
  have long := sums {k}
  rw [Finset.sum_singleton] at long
  exact long.resolve_left nonzero

variable [DecidableEq K]

theorem NoShortSums.list (sums : NoShortSums f) (order : List K) (distinct : order.Nodup)
    (nonzero : sumOf (numberOf f) order ≠ 0) : 2 ^ 15 ≤ (sumOf (numberOf f) order).toNat := by
  have long := sums order.toFinset
  rw [List.sum_toFinset _ distinct] at long
  exact long.resolve_left nonzero

theorem total_step (target : Target) (front : List K) (last : K)
    (distinct : (front ++ [last]).Nodup) (scale : EntropyScale (f last)) (sums : NoShortSums f)
    {total : FixedPoint} (before : Total f front total) :
    Total f (front ++ [last]) (add target total (f last)).result := by
  have grown := sumOf_snoc (f := numberOf f) front last
  have some : front ++ [last] ≠ [] := by simp
  cases before with
  | untouched none =>
      subst none
      have alone : sumOf (numberOf f) ([] ++ [last]) = (f last).number := sumOf_single last
      by_cases zero : (f last).number = 0
      · rw [add_zero_zero target 16 _ scale zero (.inr rfl)]
        exact .zero some (alone.trans zero)
      · rw [add_first target 16 _ scale (sums.single last zero) (.inr rfl), ← alone]
        have nonzero : sumOf (numberOf f) ([] ++ [last]) ≠ 0 := by rwa [alone]
        exact .kept nonzero (mt (vanishes_snoc [] last nonzero).mp not_vanishes_nil)
  | zero held sum =>
      have alone : sumOf (numberOf f) (front ++ [last]) = (f last).number := by
        rw [grown, sum, zero_add]
      by_cases zero : (f last).number = 0
      · rw [add_zero_zero target 0 _ scale zero (.inl rfl)]
        exact .zero some (alone.trans zero)
      · rw [add_first target 0 _ scale (sums.single last zero) (.inl rfl), ← alone]
        have nonzero : sumOf (numberOf f) (front ++ [last]) ≠ 0 := by rwa [alone]
        exact .reset nonzero ((vanishes_snoc front last nonzero).mpr
          (vanishes_of_zero front held sum))
  | kept sum never =>
      by_cases zero : sumOf (numberOf f) (front ++ [last]) = 0
      · rw [add_cancel target _ _ scale (.inr rfl) (grown.symm.trans zero)]
        exact .zero some zero
      · have next := sums.list (front ++ [last]) distinct zero
        rw [grown] at next
        rw [add_long target _ _ scale (.inr rfl) next, ← grown]
        exact .kept zero (mt (vanishes_snoc front last zero).mp never)
  | reset sum once =>
      by_cases zero : sumOf (numberOf f) (front ++ [last]) = 0
      · rw [add_cancel target _ _ scale (.inl rfl) (grown.symm.trans zero)]
        exact .zero some zero
      · have next := sums.list (front ++ [last]) distinct zero
        rw [grown] at next
        rw [add_long target _ _ scale (.inl rfl) next, ← grown]
        exact .reset zero ((vanishes_snoc front last zero).mpr once)

theorem total_sumUp (target : Target) (order : List K) (distinct : order.Nodup)
    (scales : ∀ k, EntropyScale (f k)) (sums : NoShortSums f) :
    Total f order (sumUp target (order.map f) ⟨0, 16⟩) := by
  induction order using List.reverseRecOn with
  | nil => exact .untouched rfl
  | append_singleton front last ih =>
      rw [sumUp, List.map_append, List.foldl_append]
      exact total_step target front last distinct (scales last) sums
        (ih (List.nodup_append.mp distinct).1)

end Totals

/-! ### The average -/

/-- The entropy the first traversal stores under a key; absent keys count as zero. -/
def entropyAt (target : Target) (tmp : DataValue) (logger : Logger) (k : Addr) : FixedPoint :=
  (logger.lookup k).elim ⟨0, 0⟩ fun value => (entropyOf target tmp value).entropy

theorem entropyAt_scale (target : Target) (tmp : DataValue) (logger : Logger) (k : Addr) :
    EntropyScale (entropyAt target tmp logger k) := by
  unfold entropyAt
  cases logger.lookup k with
  | none => exact scale_zero
  | some value => exact entropyOf_scale target tmp value

theorem pass_entropyAll (target : Target) (tmp : DataValue) (logger : Logger) (order : List Addr)
    (present : ∀ k ∈ order, k ∈ logger.keys) (pass : EntropyPass) :
    (logger.foldState (calcEntropy target tmp) order pass).entropyAll =
      sumUp target (order.map (entropyAt target tmp logger)) pass.entropyAll := by
  induction order generalizing pass with
  | nil => rfl
  | cons head tail ih =>
      rw [BoundedMap.foldState_cons,
        ih (fun k member => present k (List.mem_cons_of_mem head member))]
      obtain ⟨value, found⟩ :=
        (BoundedMap.mem_keys_iff_lookup _ _).mp (present head List.mem_cons_self)
      simp only [found, Option.elim_some, calcEntropy, List.map_cons, sumUp, List.foldl_cons,
        entropyAt]

/-- No order of the traversal costs the running total a bit, and all leave the same scale. -/
structure OrderFree (target : Target) (tmp : DataValue) (logger : Logger) : Prop where
  sums : NoShortSums (entropyAt target tmp logger)
  scale : ScaleSettled (numberOf (entropyAt target tmp logger)) logger.keys

theorem divide_congr (target : Target) (n q q' : I32) (divisor : FixedPoint)
    (scale : maxScale q divisor.q = maxScale q' divisor.q) :
    (divide target ⟨n, q⟩ divisor).result = (divide target ⟨n, q'⟩ divisor).result := by
  simp only [divide_eq, scale]

/-- Sixteen entries or more set the scale of the average by themselves. -/
theorem maxScale_many (q q' : I32) (n : Nat) (scale : q = 8 ∨ q = 16) (scale' : q' = 8 ∨ q' = 16)
    (many : 16 ≤ n) (bounded : n < 2 ^ 31) : maxScale q (n : I32) = maxScale q' (n : I32) := by
  have value := toInt_natCast n bounded
  have top : ∀ s : I32, s = 8 ∨ s = 16 → maxScale s (n : I32) = (n : I32) := by
    intro s aligned
    unfold maxScale
    split
    · rfl
    · next above =>
        rw [value] at above
        rcases aligned with rfl | rfl
        · change ¬ (8 : Int) < _ at above
          omega
        · change ¬ (16 : Int) < _ at above
          exact BitVec.eq_of_toInt_eq (by rw [value]; change (16 : Int) = _; omega)
  rw [top q scale, top q' scale']

theorem total_divide_eq (target : Target) (tmp : DataValue) (logger : Logger)
    (settled : ScaleSettled (numberOf (entropyAt target tmp logger)) logger.keys)
    (order order' : List Addr)
    (perm : order.Perm logger.keys) (perm' : order'.Perm logger.keys) (total total' : FixedPoint)
    (is : Total (entropyAt target tmp logger) order total)
    (is' : Total (entropyAt target tmp logger) order' total') (n : I32) :
    (divide target total ⟨n, (logger.keys.length : I32)⟩).result =
      (divide target total' ⟨n, (logger.keys.length : I32)⟩).result := by
  have both : order.Perm order' := perm.trans perm'.symm
  have same := sumOf_perm (f := numberOf (entropyAt target tmp logger)) both
  have whole := sumOf_perm (f := numberOf (entropyAt target tmp logger)) perm
  have bounded := logger.bounded
  have small : logger.keys.length < 2 ^ 31 := by
    change logger.keys.length ≤ 100000 at bounded
    omega
  cases is with
  | untouched none =>
      cases is' with
      | untouched _ => rfl
      | zero some _ => exact absurd (none ▸ both).symm.eq_nil some
      | kept sum _ => exact absurd (same ▸ none ▸ rfl) sum
      | reset sum _ => exact absurd (same ▸ none ▸ rfl) sum
  | zero some sum =>
      cases is' with
      | untouched none => exact absurd (none ▸ both).eq_nil some
      | zero _ _ => rfl
      | kept sum' _ => exact absurd (same ▸ sum) sum'
      | reset sum' _ => exact absurd (same ▸ sum) sum'
  | kept sum never =>
      cases is' with
      | untouched none => exact absurd (same.trans (none ▸ rfl)) sum
      | zero _ sum' => exact absurd (same.trans sum') sum
      | kept _ _ => rw [same]
      | reset _ once =>
          rw [same]
          apply divide_congr
          rcases settled with many | zero | all | none
          · exact maxScale_many _ _ _ (.inr rfl) (.inl rfl) many small
          · exact absurd (whole.trans zero) sum
          · exact absurd (all order perm) never
          · exact absurd once (none order' perm')
  | reset sum once =>
      cases is' with
      | untouched none => exact absurd (same.trans (none ▸ rfl)) sum
      | zero _ sum' => exact absurd (same.trans sum') sum
      | reset _ _ => rw [same]
      | kept _ never =>
          rw [same]
          apply divide_congr
          rcases settled with many | zero | all | none
          · exact maxScale_many _ _ _ (.inl rfl) (.inr rfl) many small
          · exact absurd (whole.trans zero) sum
          · exact absurd (all order' perm') never
          · exact absurd once (none order perm)

/-- A rollover that starts from the statics every rollover leaves. -/
def Restarted (st : State) : Prop := st.count = 0 ∧ st.entropyAll = ⟨0, 16⟩

/-- The average is the total of the order, over the number of entries. -/
theorem analyse_avg (target : Target) (packet : Packet) (tmp : DataValue) (st : State)
    (restarted : Restarted st) (sums : NoShortSums (entropyAt target tmp st.logger)) :
    ∃ total, Total (entropyAt target tmp st.logger)
        (packet.entropyOrder.order st.logger.keys) total ∧
      (analyse target packet tmp st).avg =
        (divide target total
          ⟨scaled target tmp.intBits (st.logger.keys.length : I32),
            (st.logger.keys.length : I32)⟩).result := by
  have listed := packet.entropyOrder.perm st.logger.keys
  have inside : ∀ k ∈ packet.entropyOrder.order st.logger.keys, k ∈ st.logger.keys :=
    fun k member => listed.mem_iff.mp member
  refine ⟨sumUp target ((packet.entropyOrder.order st.logger.keys).map
    (entropyAt target tmp st.logger)) ⟨0, 16⟩, ?_, ?_⟩
  · exact total_sumUp target _ (BoundedMap.order_nodup packet.entropyOrder st.logger)
      (entropyAt_scale target tmp st.logger) sums
  · simp only [analyse, BoundedMap.forEach_state, pass_entropyAll target tmp st.logger _ inside,
      pass_count target tmp st.logger _ inside, listed.length_eq, restarted.1, restarted.2,
      toFixedPoint_eq]
    rw [show (0 : I32) + (st.logger.keys.length : I32) = _ from zero_add _]

theorem analyse_avg_eq (target : Target) (packet packet' : Packet) (tmp : DataValue) (st : State)
    (restarted : Restarted st) (free : OrderFree target tmp st.logger) :
    (analyse target packet tmp st).avg = (analyse target packet' tmp st).avg := by
  obtain ⟨total, is, avg⟩ := analyse_avg target packet tmp st restarted free.sums
  obtain ⟨total', is', avg'⟩ := analyse_avg target packet' tmp st restarted free.sums
  rw [avg, avg']
  exact total_divide_eq target tmp st.logger free.scale _ _ (packet.entropyOrder.perm _)
    (packet'.entropyOrder.perm _) total total' is is' _

/-! ### Averages at two scales -/

/-- The tail leaves no more fraction bits than the sum has bits. -/
theorem rescale_q (target : Target) (sum : I64) (q : Nat) (bounded : q ≤ 31) :
    (rescale target sum (q : I32)).q = ((min q (Nat.size sum.toNat) : Nat) : I32) := by
  have scale : ((q : Nat) : I32).toInt = q := toInt_natCast q (by omega)
  have value : ((q : Nat) : I32).toNat = q := toNat_natCast q (by omega)
  by_cases small : sum.toNat < 2 ^ 31
  · rw [rescale_eq_cut target sum _ small (by omega) (by omega), value]
    rfl
  · have size : 31 < Nat.size sum.toNat := Nat.lt_size.mpr (by omega)
    rw [rescale_large target sum _ (by omega) (by omega), min_eq_left (by omega)]

theorem size_div_two_pow (n k : Nat) : Nat.size (n / 2 ^ k) = Nat.size n - k := by
  apply le_antisymm
  · rw [Nat.size_le, Nat.div_lt_iff_lt_mul (by positivity), ← pow_add]
    exact Nat.size_le.mp (by omega)
  · by_contra less
    have below : n / 2 ^ k < 2 ^ (Nat.size n - k - 1) := Nat.size_le.mp (by omega)
    rw [Nat.div_lt_iff_lt_mul (by positivity), ← pow_add] at below
    have size := Nat.size_le.mpr below
    omega

section TwoScales

variable (target : Target) (s n : I32) (long : 2 ^ 15 ≤ s.toNat)
variable (positive : 0 < n.toNat) (divisor : n.toNat ≤ 2 ^ 20)

theorem widened_toNat : (s.signExtend 64 <<< 32).toNat = s.toNat * 2 ^ 32 := by
  have word : (s.signExtend 64).toNat % 2 ^ 32 = s.toNat := by
    rw [← BitVec.toNat_setWidth, setWidth_signExtend]
  rw [BitVec.toNat_shiftLeft, Nat.shiftLeft_eq]
  omega

include divisor in
/-- The scale of the quotient at a scale up to sixteen. -/
theorem quotient_q (q r : I32) (t : Nat) (aligned : maxScale q r = (t : I32)) (high : t ≤ 16) :
    (divide target ⟨s, q⟩ ⟨n, r⟩).result.q =
      ((min t (Nat.size (s.toNat * 2 ^ 32 / n.toNat) - (32 - t)) : Nat) : I32) := by
  have scale : ((t : Nat) : I32).toNat = t := toNat_natCast t (by omega)
  have amount : (32 - (t : I32)).toNat = 32 - t := by
    have within : (t : I32) ≤ 32 := by
      rw [BitVec.le_def, scale]
      change t ≤ 32
      omega
    rw [BitVec.toNat_sub_of_le within, scale]
    rfl
  have number : (n.signExtend 64).toNat = n.toNat := toNat_signExtend_of_small n (by omega)
  simp only [divide_eq, aligned]
  rw [rescale_q target _ t (by omega), Target.shr64_in_range target _ _ (by omega),
    BitVec.toNat_ushiftRight, amount, BitVec.toNat_udiv, widened_toNat, number,
    Nat.shiftRight_eq_div_pow, size_div_two_pow]

include long positive divisor

theorem quotient_size : 28 ≤ Nat.size (s.toNat * 2 ^ 32 / n.toNat) := by
  apply Nat.lt_size.mpr
  rw [Nat.le_div_iff_mul_le positive]
  omega

/-- Fewer than sixteen entries leave the scales of the average apart. -/
theorem divide_scales_apart (entries : Nat) (few : entries < 16) :
    (divide target ⟨s, 16⟩ ⟨n, (entries : I32)⟩).result ≠
      (divide target ⟨s, 8⟩ ⟨n, (entries : I32)⟩).result := by
  have sixteen : maxScale 16 (entries : I32) = ((16 : Nat) : I32) := by
    have top := maxScale_natCast 16 entries (by omega) (by omega)
    rwa [max_eq_left (by omega)] at top
  have eight : maxScale 8 (entries : I32) = ((max 8 entries : Nat) : I32) :=
    maxScale_natCast 8 entries (by omega) (by omega)
  have first := quotient_q target s n divisor _ _ 16 sixteen le_rfl
  have second := quotient_q target s n divisor _ _ _ eight (by omega)
  have size := quotient_size s n long positive divisor
  intro equal
  have scales := congrArg (fun r => r.q.toNat) equal
  simp only [first, second] at scales
  rw [toNat_natCast _ (by omega), toNat_natCast _ (by omega)] at scales
  omega

end TwoScales

/-- Where no order costs the total a bit, only a settled scale gives one average. -/
theorem scaleSettled_of_avg (target : Target) (packet : Packet) (tmp : DataValue) (st : State)
    (range : InRange tmp.intBits) (restarted : Restarted st)
    (sums : NoShortSums (entropyAt target tmp st.logger))
    (same : ∀ order order' : BoundedMap.Enumeration Addr,
      (analyse target { packet with entropyOrder := order } tmp st).avg =
        (analyse target { packet with entropyOrder := order' } tmp st).avg) :
    ScaleSettled (numberOf (entropyAt target tmp st.logger)) st.logger.keys := by
  by_contra unsettled
  obtain ⟨few, sum, some, all⟩ : st.logger.keys.length < 16 ∧
      sumOf (numberOf (entropyAt target tmp st.logger)) st.logger.keys ≠ 0 ∧
      (∃ order : List Addr, order.Perm st.logger.keys ∧
        ¬ Vanishes (numberOf (entropyAt target tmp st.logger)) order) ∧
      ∃ order : List Addr, order.Perm st.logger.keys ∧
        Vanishes (numberOf (entropyAt target tmp st.logger)) order := by
    simpa only [ScaleSettled, not_or, not_forall, not_le, exists_prop, not_not, ne_eq] using
      unsettled
  obtain ⟨order, perm, never⟩ := some
  obtain ⟨order', perm', once⟩ := all
  have kept := sumOf_perm (f := numberOf (entropyAt target tmp st.logger)) perm
  have kept' := sumOf_perm (f := numberOf (entropyAt target tmp st.logger)) perm'
  have average := same (.listing _ order perm) (.listing _ order' perm')
  obtain ⟨total, is, avg⟩ := analyse_avg target
    { packet with entropyOrder := .listing _ order perm } tmp st restarted sums
  obtain ⟨total', is', avg'⟩ := analyse_avg target
    { packet with entropyOrder := .listing _ order' perm' } tmp st restarted sums
  rw [BoundedMap.Enumeration.listing_order] at is is'
  have first : total = ⟨sumOf (numberOf (entropyAt target tmp st.logger)) st.logger.keys, 16⟩ := by
    cases is with
    | untouched none => exact absurd (kept.symm.trans (none ▸ rfl)) sum
    | zero _ zero => exact absurd (kept.symm.trans zero) sum
    | kept _ _ => rw [kept]
    | reset _ once => exact absurd once never
  have second : total' = ⟨sumOf (numberOf (entropyAt target tmp st.logger)) st.logger.keys, 8⟩ := by
    cases is' with
    | untouched none => exact absurd (kept'.symm.trans (none ▸ rfl)) sum
    | zero _ zero => exact absurd (kept'.symm.trans zero) sum
    | kept _ never => exact absurd once never
    | reset _ _ => rw [kept']
  have number := scaled_toNat target tmp.intBits st.logger.keys.length range (by omega)
  have power : 2 ^ st.logger.keys.length ≤ 2 ^ 15 := Nat.pow_le_pow_right (by decide) (by omega)
  have product : tmp.intBits.toNat * 2 ^ st.logger.keys.length ≤ 32 * 2 ^ 15 :=
    Nat.mul_le_mul range.2 power
  have positive : 0 < tmp.intBits.toNat * 2 ^ st.logger.keys.length :=
    Nat.mul_pos (Nat.lt_of_lt_of_le (by decide) range.1) (by positivity)
  have long := sums.list st.logger.keys st.logger.keys_nodup sum
  have apart := divide_scales_apart target _ _ long (number ▸ positive)
    (by rw [number]; omega) _ few
  rw [avg, avg', first, second] at average
  exact apart average

end Fide.Kernel
