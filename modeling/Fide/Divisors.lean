import Fide.CounterWidth
import Fide.FixedPointSpec

/-! Which divisors of a rollover are zero. -/

namespace Fide.Kernel

open Words FixedPoint

/-- The number `to_fixed_point(n, int_bits)` holds: `int_bits * 2^n` in 32 bits. -/
def scaled (target : Target) (intBits n : I32) : I32 := intBits * target.shl32 1 n

/-- The number of a count of an entry, whose substitute for zero is `1/10` cut to zero. -/
def scaledCount (target : Target) (intBits n : I32) : I32 :=
  if n = 0 then 0 else scaled target intBits n

/-- `1 << n`: a power of two while `n` is the index of a bit, and beyond, where the shift is
undefined, whatever the target makes of it. -/
def shiftedOne (target : Target) (n : I32) : Nat :=
  if n.toNat < 32 then 2 ^ n.toNat else (target.wildShl32 1 n).toNat

theorem shiftedOne_masking (n : I32) : shiftedOne masking n = 2 ^ (n.toNat % 32) := by
  rw [shiftedOne]
  split
  · next inside => rw [Nat.mod_eq_of_lt inside]
  · have bit : n.toNat % 32 < 32 := Nat.mod_lt _ (by decide)
    change ((1 : I32) <<< (n.toNat % 32)).toNat = _
    rw [BitVec.toNat_shiftLeft, Nat.shiftLeft_eq]
    exact (congrArg (· % 2 ^ 32) (Nat.one_mul _)).trans
      (Nat.mod_eq_of_lt (Nat.pow_lt_pow_right (by decide) bit))

theorem shl32_one_eq (target : Target) (n : I32) :
    target.shl32 1 n = (shiftedOne target n : I32) := by
  rw [shiftedOne]
  split
  · next inside =>
      have power := Target.shl32_one target n.toNat inside
      rwa [natCast_toNat] at power
  · next outside => rw [Target.shl32, if_neg outside, natCast_toNat]

theorem scaled_eq (target : Target) (intBits n : I32) :
    scaled target intBits n = ((intBits.toNat * shiftedOne target n : Nat) : I32) := by
  rw [scaled, shl32_one_eq, Nat.cast_mul, natCast_toNat]

/-- `int_bits` as it ever is from four on. -/
def InRange (intBits : I32) : Prop := 4 ≤ intBits.toNat ∧ intBits.toNat ≤ 32

theorem scaled_of_fits (target : Target) (intBits : I32) (n : Nat) (amount : n < 32)
    (fits : intBits.toNat * 2 ^ n < 2 ^ 32) :
    (scaled target intBits (n : I32)).toNat = intBits.toNat * 2 ^ n := by
  have power : 2 ^ n < 2 ^ 32 := Nat.pow_lt_pow_right (by decide) amount
  rw [scaled, Target.shl32_one target n amount, BitVec.toNat_mul, toNat_natCast _ power,
    Nat.mod_eq_of_lt fits]

theorem scaled_toNat (target : Target) (intBits : I32) (n : Nat) (range : InRange intBits)
    (small : n ≤ 24) : (scaled target intBits (n : I32)).toNat = intBits.toNat * 2 ^ n := by
  have power : 2 ^ n ≤ 2 ^ 24 := Nat.pow_le_pow_right (by decide) small
  have product : intBits.toNat * 2 ^ n ≤ 32 * 2 ^ 24 := Nat.mul_le_mul range.2 power
  exact scaled_of_fits target intBits n (by omega) (by omega)

/-- `divide(1, 10)` keeps two fraction bits and no number, whatever the scale of `tmp_one`. -/
theorem tenth_eq (target : Target) (intBits q : I32) (range : InRange intBits)
    (scale : q = 1 ∨ q = 10) :
    divide target ⟨scaled target intBits 1, q⟩ ⟨scaled target intBits 10, 10⟩ =
      ⟨⟨0, 2⟩, ⟨scaled target intBits 1, 10⟩, ⟨scaled target intBits 10, 10⟩⟩ := by
  have aligned : maxScale q 10 = 10 := by rcases scale with rfl | rfl <;> decide
  have one : (scaled target intBits 1).toNat = intBits.toNat * 2 ^ 1 :=
    scaled_toNat target intBits 1 range (by decide)
  have ten : (scaled target intBits 10).toNat = intBits.toNat * 2 ^ 10 :=
    scaled_toNat target intBits 10 range (by decide)
  obtain ⟨low, high⟩ := range
  let sum := target.shr64 (((scaled target intBits 1).signExtend 64 <<< 32) /
    (scaled target intBits 10).signExtend 64) (32 - 10)
  have quotient : sum.toNat = 2 := by
    rw [quotient_toNat target _ _ 10 (by omega) (by omega) (by decide), one, ten]
    have cancel : intBits.toNat * 2 ^ 1 * 2 ^ (10 : I32).toNat = 2 * (intBits.toNat * 2 ^ 10) := by
      change intBits.toNat * 2 ^ 1 * 2 ^ 10 = _
      ring
    rw [cancel, Nat.mul_div_cancel _ (by omega)]
  have word : sum = 2 := BitVec.eq_of_toNat_eq quotient
  have tail : rescale target sum 10 = ⟨0, 2⟩ := by
    rw [word, rescale_cuts target 2 10 (by decide) (by decide),
      Target.shr64_in_range target _ _ (by decide)]
    rfl
  rw [divide_eq, aligned]
  exact congrArg (fun r => Operation.mk r _ _) tail

/-- The larger of the two scaled counts of an entry, which the second quotient divides by. -/
def larger (target : Target) (intBits : I32) (value : LoggerValue) : I32 :=
  if (scaledCount target intBits value.cur).toInt ≤ (scaledCount target intBits value.prev).toInt
  then scaledCount target intBits value.prev
  else scaledCount target intBits value.cur

theorem toFixedPoint_eq (target : Target) (n intBits : I32) :
    toFixedPoint target n intBits = ⟨scaled target intBits n, n⟩ := rfl

theorem operands_numbers (target : Target) (tmp : DataValue) (value : LoggerValue)
    (range : InRange tmp.intBits) :
    (operands target tmp value).prev.number = scaledCount target tmp.intBits value.prev ∧
    (operands target tmp value).cur.number = scaledCount target tmp.intBits value.cur := by
  have fresh := tenth_eq target tmp.intBits 1 range (Or.inl rfl)
  have again := tenth_eq target tmp.intBits 10 range (Or.inr rfl)
  unfold operands scaledCount
  simp only [toFixedPoint_eq, fresh, again]
  split_ifs <;> exact ⟨rfl, rfl⟩

theorem operands_divisors (target : Target) (tmp : DataValue) (value : LoggerValue)
    (range : InRange tmp.intBits) :
    ∀ d ∈ (operands target tmp value).divisors, d = scaled target tmp.intBits 10 := by
  have fresh := tenth_eq target tmp.intBits 1 range (Or.inl rfl)
  unfold operands
  simp only [toFixedPoint_eq, fresh]
  split_ifs <;> simp

theorem entropyOf_divisors (target : Target) (tmp : DataValue) (value : LoggerValue)
    (range : InRange tmp.intBits) :
    (entropyOf target tmp value).divisors =
      (operands target tmp value).divisors ++
        [scaled target tmp.intBits tmp.prevIntervalPkt, larger target tmp.intBits value] := by
  obtain ⟨prev, cur⟩ := operands_numbers target tmp value range
  unfold entropyOf larger
  simp only [toFixedPoint_eq, divide_eq, prev, cur]
  split_ifs <;> rfl

theorem ten_ne_zero (target : Target) (intBits : I32) (range : InRange intBits) :
    scaled target intBits 10 ≠ 0 := by
  intro zero
  have value := scaled_toNat target intBits 10 range (by decide)
  obtain ⟨low, high⟩ := range
  have none : (scaled target intBits 10).toNat = 0 := by rw [zero]; rfl
  rw [show ((10 : Nat) : I32) = 10 from rfl, none] at value
  omega

theorem entropyOf_divisors_ne_zero (target : Target) (tmp : DataValue) (value : LoggerValue)
    (range : InRange tmp.intBits) :
    (∀ d ∈ (entropyOf target tmp value).divisors, d ≠ 0) ↔
      scaled target tmp.intBits tmp.prevIntervalPkt ≠ 0 ∧ larger target tmp.intBits value ≠ 0 := by
  rw [entropyOf_divisors target tmp value range]
  constructor
  · intro all
    exact ⟨all _ (by simp), all _ (by simp)⟩
  · intro nonzero d member
    rcases nonzero with ⟨share, ratio⟩
    rw [List.mem_append] at member
    rcases member with tenth | rest
    · rw [operands_divisors target tmp value range d tenth]
      exact ten_ne_zero target tmp.intBits range
    · rcases List.mem_cons.mp rest with rfl | last
      · exact share
      · rw [List.mem_singleton.mp last]
        exact ratio

/-! ### The whole entropy pass -/

theorem pass_divisors (target : Target) (tmp : DataValue) (logger : Logger) (order : List Addr)
    (pass : EntropyPass) (d : I32) :
    d ∈ (logger.foldState (calcEntropy target tmp) order pass).divisors ↔
      d ∈ pass.divisors ∨ ∃ k ∈ order, ∃ value, logger.lookup k = some value ∧
        d ∈ (entropyOf target tmp value).divisors := by
  induction order generalizing pass with
  | nil => simp [BoundedMap.foldState]
  | cons head tail ih =>
      rw [BoundedMap.foldState_cons, ih]
      cases present : logger.lookup head with
      | none => simp [present]
      | some value => simp [present, calcEntropy, or_assoc]

theorem pass_count (target : Target) (tmp : DataValue) (logger : Logger) (order : List Addr)
    (present : ∀ k ∈ order, k ∈ logger.keys) (pass : EntropyPass) :
    (logger.foldState (calcEntropy target tmp) order pass).count =
      pass.count + (order.length : I32) := by
  induction order generalizing pass with
  | nil => simp [BoundedMap.foldState]
  | cons head tail ih =>
      rw [BoundedMap.foldState_cons,
        ih (fun k member => present k (List.mem_cons_of_mem head member))]
      obtain ⟨value, found⟩ :=
        (BoundedMap.mem_keys_iff_lookup _ _).mp (present head List.mem_cons_self)
      simp only [found, Option.elim_some, calcEntropy, List.length_cons, Nat.cast_add,
        Nat.cast_one]
      ring

/-! ### The divisors on the counts -/

/-- A count `n` is converted to a number other than zero: `b * 2^n` is no multiple of `2^32`. -/
def Nonvanishing (target : Target) (b : Nat) (n : I32) : Prop := ¬ 2 ^ 32 ∣ b * shiftedOne target n

/-- What a count of an entry weighs against the other one: nothing if it is zero, and else `b * 2^n`
read as a signed 32-bit number. -/
def weight (target : Target) (b : Nat) (n : I32) : Int :=
  if n = 0 then 0 else ((b * shiftedOne target n : Nat) : Int).bmod (2 ^ 32)

/-- The previous interval's packets and the number of entries convert to non-zero numbers, and the
heavier count of every entry does not weigh nothing. -/
structure ScalesNonzero (target : Target) (b : Nat) (total : I32) (logger : Logger) : Prop where
  total : Nonvanishing target b total
  flows : Nonvanishing target b (logger.keys.length : I32)
  entries : ∀ k value, logger.lookup k = some value →
    max (weight target b value.prev) (weight target b value.cur) ≠ 0

theorem scaled_ne_zero_iff (target : Target) (intBits n : I32) :
    scaled target intBits n ≠ 0 ↔ Nonvanishing target intBits.toNat n := by
  rw [Nonvanishing, Nat.dvd_iff_mod_eq_zero, ne_eq, scaled_eq, ← BitVec.toNat_inj,
    BitVec.natCast_eq_ofNat, BitVec.toNat_ofNat]
  exact Iff.rfl

theorem scaledCount_toInt (target : Target) (intBits n : I32) :
    (scaledCount target intBits n).toInt = weight target intBits.toNat n := by
  rw [scaledCount, weight]
  split
  · rfl
  · rw [scaled_eq, BitVec.natCast_eq_ofNat, BitVec.toInt_ofNat']

theorem larger_ne_zero_iff (target : Target) (intBits : I32) (value : LoggerValue) :
    larger target intBits value ≠ 0 ↔
      max (weight target intBits.toNat value.prev) (weight target intBits.toNat value.cur) ≠ 0 := by
  have heavier : (larger target intBits value).toInt =
      max (weight target intBits.toNat value.prev) (weight target intBits.toNat value.cur) := by
    rw [larger, scaledCount_toInt, scaledCount_toInt]
    split
    · next less => rw [scaledCount_toInt, max_eq_left less]
    · next more => rw [scaledCount_toInt, max_eq_right (by omega)]
  rw [← heavier]
  constructor
  · intro nonzero zero
    exact nonzero (BitVec.eq_of_toInt_eq zero)
  · intro nonzero zero
    exact nonzero (by rw [zero]; rfl)

section InRange

variable (target : Target) (b : Nat)

/-- Below 32 the count vanishes only where the width makes up for the missing bits. -/
theorem nonvanishing_iff (n : I32) (index : n.toNat < 32) :
    Nonvanishing target b n ↔ ¬ 2 ^ (32 - n.toNat) ∣ b := by
  have split : 2 ^ 32 = 2 ^ (32 - n.toNat) * 2 ^ n.toNat := by
    rw [← pow_add, Nat.sub_add_cancel index.le]
  rw [Nonvanishing, shiftedOne, if_pos index, split, Nat.mul_dvd_mul_iff_right (by positivity)]

variable (low : 4 ≤ b) (high : b ≤ 32)

include low high in
theorem nonvanishing_of_small (n : I32) (small : n.toNat ≤ 26) : Nonvanishing target b n := by
  rw [nonvanishing_iff target b n (by omega)]
  intro divides
  have bits : 2 ^ 6 ≤ 2 ^ (32 - n.toNat) := Nat.pow_le_pow_right (by decide) (by omega)
  have less := Nat.le_of_dvd (by omega) divides
  omega

include high in
theorem weight_of_small (n : I32) (small : n.toNat ≤ 25) :
    weight target b n = if n = 0 then 0 else (b : Int) * 2 ^ n.toNat := by
  have power : 2 ^ n.toNat ≤ 2 ^ 25 := Nat.pow_le_pow_right (by decide) small
  have product : b * 2 ^ n.toNat ≤ 32 * 2 ^ 25 := Nat.mul_le_mul high power
  rw [weight, shiftedOne, if_pos (by omega : n.toNat < 32)]
  split
  · rfl
  · rw [Int.bmod_eq_of_le_mul_two (by omega) (by omega)]
    push_cast
    rfl

include low high in
theorem weight_pos_of_small (n : I32) (small : n.toNat ≤ 25) :
    0 ≤ weight target b n ∧ (0 < weight target b n ↔ n ≠ 0) := by
  rw [weight_of_small target b high n small]
  split
  · next zero => simp [zero]
  · next positive =>
      have product : (0 : Int) < b * 2 ^ n.toNat := by positivity
      exact ⟨product.le, iff_of_true product positive⟩

include low high in
/-- With small counts all that can go wrong is an entry that counted nothing in either interval. -/
theorem scalesNonzero_iff_of_small (total : I32) (logger : Logger) (few : total.toNat ≤ 26)
    (flows : logger.keys.length ≤ 26)
    (counts : ∀ k value, logger.lookup k = some value →
      value.prev.toNat ≤ 25 ∧ value.cur.toNat ≤ 25) :
    ScalesNonzero target b total logger ↔
      ∀ k value, logger.lookup k = some value → value.prev ≠ 0 ∨ value.cur ≠ 0 := by
  have heavier : ∀ k value, logger.lookup k = some value →
      (max (weight target b value.prev) (weight target b value.cur) ≠ 0 ↔
        value.prev ≠ 0 ∨ value.cur ≠ 0) := by
    intro k value present
    obtain ⟨prev, cur⟩ := counts k value present
    obtain ⟨prevNonneg, prevPositive⟩ := weight_pos_of_small target b low high value.prev prev
    obtain ⟨curNonneg, curPositive⟩ := weight_pos_of_small target b low high value.cur cur
    rw [← prevPositive, ← curPositive]
    omega
  have number : ((logger.keys.length : Nat) : I32).toNat ≤ 26 := by
    rw [toNat_natCast _ (by omega)]
    exact flows
  constructor
  · intro scales k value present
    exact (heavier k value present).mp (scales.entries k value present)
  · intro active
    exact ⟨nonvanishing_of_small target b low high total few,
      nonvanishing_of_small target b low high _ number,
      fun k value present => (heavier k value present).mpr (active k value present)⟩

end InRange

theorem analyse_divisors (target : Target) (packet : Packet) (tmp : DataValue) (st : State)
    (fresh : st.count = 0) (d : I32) :
    d ∈ (analyse target packet tmp st).divisors ↔
      (∃ k value, st.logger.lookup k = some value ∧ d ∈ (entropyOf target tmp value).divisors) ∨
        d = scaled target tmp.intBits (st.logger.keys.length : I32) := by
  have listed := packet.entropyOrder.perm st.logger.keys
  have counted : (st.logger.foldState (calcEntropy target tmp)
      (packet.entropyOrder.order st.logger.keys) ⟨st.count, st.entropyAll, []⟩).count =
        (st.logger.keys.length : I32) := by
    rw [pass_count target tmp st.logger _ (fun k member => listed.mem_iff.mp member),
      listed.length_eq, fresh]
    exact zero_add _
  unfold analyse
  simp only [BoundedMap.forEach_state, toFixedPoint_eq, counted, List.mem_append,
    List.mem_singleton, pass_divisors, List.not_mem_nil, false_or]
  constructor
  · intro source
    rcases source with ⟨k, -, value, present, member⟩ | last
    · exact Or.inl ⟨k, value, present, member⟩
    · exact Or.inr last
  · intro source
    rcases source with ⟨k, value, present, member⟩ | last
    · have key : k ∈ st.logger.keys := by
        rw [BoundedMap.mem_keys_iff, present]
        rfl
      exact Or.inl ⟨k, listed.mem_iff.mpr key, value, present, member⟩
    · exact Or.inr last

theorem analyse_divisors_ne_zero (target : Target) (packet : Packet) (tmp : DataValue) (st : State)
    (range : InRange tmp.intBits) (fresh : st.count = 0) (entries : st.logger.keys ≠ []) :
    (∀ d ∈ (analyse target packet tmp st).divisors, d ≠ 0) ↔
      ScalesNonzero target tmp.intBits.toNat tmp.prevIntervalPkt st.logger := by
  constructor
  · intro all
    have entry : ∀ k value, st.logger.lookup k = some value →
        scaled target tmp.intBits tmp.prevIntervalPkt ≠ 0 ∧ larger target tmp.intBits value ≠ 0 := by
      intro k value present
      rw [← entropyOf_divisors_ne_zero target tmp value range]
      intro d member
      exact all d ((analyse_divisors target packet tmp st fresh d).mpr
        (Or.inl ⟨k, value, present, member⟩))
    obtain ⟨k, member⟩ := List.exists_mem_of_ne_nil _ entries
    rw [BoundedMap.mem_keys_iff_lookup] at member
    obtain ⟨value, present⟩ := member
    have flows := all _ ((analyse_divisors target packet tmp st fresh _).mpr (Or.inr rfl))
    exact ⟨(scaled_ne_zero_iff target _ _).mp (entry k value present).1,
      (scaled_ne_zero_iff target _ _).mp flows,
      fun k value present => (larger_ne_zero_iff target _ value).mp (entry k value present).2⟩
  · intro scales d member
    rcases (analyse_divisors target packet tmp st fresh d).mp member with
      ⟨k, value, present, inside⟩ | last
    · exact (entropyOf_divisors_ne_zero target tmp value range).mpr
        ⟨(scaled_ne_zero_iff target _ _).mpr scales.total,
          (larger_ne_zero_iff target _ value).mpr (scales.entries k value present)⟩ d inside
    · rw [last]
      exact (scaled_ne_zero_iff target _ _).mpr scales.flows

/-! ### Reachable rollovers -/

theorem logPacket_keys_ne_nil (saddr : Addr) (logger : Logger) :
    (logPacket saddr logger).keys ≠ [] := by
  unfold logPacket
  split <;> exact BoundedMap.keys_update_ne_nil _ _ _ (by decide)

theorem countPacket_inRange (target : Target) (tmp : DataValue) (range : InRange tmp.intBits) :
    InRange (countPacket target tmp).intBits := by
  obtain ⟨low, high⟩ := range
  unfold countPacket
  simp only
  split
  · next wider =>
      have room : tmp.intBits.toNat ≤ 31 := by
        by_contra full
        have bits : tmp.intBits = 32 := BitVec.eq_of_toNat_eq (by
          change tmp.intBits.toNat = 32
          omega)
        have limit : (target.shl32 1 (tmp.intBits - 1) - 1).toInt = 2 ^ 31 - 1 := by
          rw [bits, show (32 : I32) - 1 = ((31 : Nat) : I32) from rfl,
            Target.shl32_one target 31 (by decide)]
          rfl
        have bound := BitVec.toInt_lt (x := tmp.curIntervalPkt + 1)
        omega
      have next : (tmp.intBits + 1).toNat = tmp.intBits.toNat + 1 := by
        rw [BitVec.toNat_add]
        exact Nat.mod_eq_of_lt (by change tmp.intBits.toNat + 1 < 2 ^ 32; omega)
      change InRange (tmp.intBits + 1)
      rw [InRange, next]
      omega
  · exact ⟨low, high⟩

/-- The width stays in range and the static count is zero between packets. -/
def Ready (h : History) : Prop := InRange h.state.data.value.intBits ∧ h.state.count = 0

theorem Ready.step (env : Env) (h : History) (packet : Packet) (ready : Ready h) :
    Ready (History.step env h packet) := by
  rcases History.step_cases env h packet with same | ⟨saddr, -, -, next⟩ | ⟨saddr, -, -, next⟩
  · rw [same]
    exact ready
  · rw [next]
    refine ⟨?_, ready.2⟩
    simp only [counted, Slots.value_update_zero]
    exact countPacket_inRange env.target _ ready.1
  · rw [next]
    refine ⟨?_, rfl⟩
    simp only [closeInterval, Slots.value_update_zero]
    exact ⟨by decide, by decide⟩

theorem ready_history (env : Env) (packets : List Packet) :
    Ready (history env initialised packets) :=
  history_invariant env Ready (Ready.step env) initialised packets
    ⟨⟨by decide, by decide⟩, rfl⟩

/-- No rollover of a run divides by zero exactly when every rollover finds counts that convert to
non-zero divisors: with `b` the width its interval's packets call for, `b * 2^n` is no multiple of
`2^32` for the previous total and for the number of entries, and of the two numbers of an entry,
zero for a zero count, the larger one is not zero. -/
theorem rollover_divisors_ne_zero_iff (env : Env) (packets : List Packet) :
    (∀ h packet r, RolloverIn env initialised packets h packet r → ∀ d ∈ r.divisors, d ≠ 0) ↔
    (∀ h packet r, RolloverIn env initialised packets h packet r →
      ScalesNonzero env.target (intBitsAfter (h.ledger.current.length + 1))
        h.state.data.value.prevIntervalPkt
        (logPacket (Frame.saddr packet.frame) h.state.logger)) := by
  have each : ∀ h packet r, RolloverIn env initialised packets h packet r →
      ((∀ d ∈ r.divisors, d ≠ 0) ↔
        ScalesNonzero env.target (intBitsAfter (h.ledger.current.length + 1))
          h.state.data.value.prevIntervalPkt
          (logPacket (Frame.saddr packet.frame) h.state.logger)) := by
    intro h packet r rolled
    obtain ⟨front, reached⟩ := rolled.reached
    have ready : Ready h := reached ▸ ready_history env front
    have widened : Widened h := reached ▸ widened_history env front
    have width := countPacket_intBits env.target _ _ widened.counter widened.width
    have bounds := intBitsAfter_bounds (h.ledger.current.length + 1)
    have bits : (countPacket env.target h.state.data.value).intBits.toNat =
        intBitsAfter (h.ledger.current.length + 1) := by
      rw [width, toNat_natCast _ (by omega)]
    obtain ⟨saddr, -, rfl, -, rfl⟩ := rolled.cases
    have divisors := analyse_divisors_ne_zero env.target packet
      (countPacket env.target h.state.data.value)
      (counted env h.state packet (Frame.saddr packet.frame))
      (countPacket_inRange env.target _ ready.1) ready.2 (logPacket_keys_ne_nil _ _)
    rw [bits, countPacket_prev] at divisors
    exact divisors
  constructor
  · intro safe h packet r rolled
    exact (each h packet r rolled).mp (safe h packet r rolled)
  · intro scales h packet r rolled
    exact (each h packet r rolled).mpr (scales h packet r rolled)

/-- Source 1 sends all of the first interval and then stops; its entry is kept with both counts
zero, and the third rollover divides one zero substitute by the other. -/
theorem silent_source_divides_by_zero :
    ¬ ∀ h packet r,
      RolloverIn bareEnv initialised
        [packetAt 1 2000000000, packetAt 1 4000000000, packetAt 2 6000000000,
          packetAt 2 8000000000] h packet r →
      ∀ d ∈ r.divisors, d ≠ 0 := by
  intro safe
  let front := [packetAt 1 2000000000, packetAt 1 4000000000, packetAt 2 6000000000]
  let last := packetAt 2 8000000000
  have zero : (xdpFilterFunc bareEnv (history bareEnv initialised front).state last).rollover.any
      (fun r => r.divisors.contains 0) = true := by decide +kernel
  obtain ⟨rolled, member⟩ := (Option.any_eq_true_iff_get _ _).mp zero
  exact safe _ last _ ⟨front, [], rfl, rfl, (Option.some_get rolled).symm⟩ 0
    (List.contains_iff_mem.mp member) rfl

end Fide.Kernel
