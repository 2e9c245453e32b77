import Fide.KernelCounts

/-! `int_bits` follows the bit length of the interval counter. -/

namespace Fide.Kernel

open Words FixedPoint

/-- The bits of a count with one to spare, at least four. -/
def widthOf (n : Nat) : Nat := max 4 (Nat.size n + 1)

theorem lt_two_pow_widthOf (n : Nat) : n < 2 ^ (widthOf n - 1) := by
  apply Nat.size_le.mp
  unfold widthOf
  omega

/-- One more packet widens the count by a bit exactly when it reaches the next power of two. -/
theorem widthOf_succ (n : Nat) :
    widthOf (n + 1) = if 2 ^ (widthOf n - 1) ≤ n + 1 then widthOf n + 1 else widthOf n := by
  have below := lt_two_pow_widthOf n
  have grows : Nat.size n ≤ Nat.size (n + 1) := Nat.size_le_size (Nat.le_succ n)
  split
  · next reached =>
      have power : n + 1 = 2 ^ (widthOf n - 1) := by omega
      have size : Nat.size (n + 1) = widthOf n - 1 + 1 := by rw [power, Nat.size_pow]
      unfold widthOf at size ⊢
      omega
  · next short =>
      have size : Nat.size (n + 1) ≤ widthOf n - 1 := Nat.size_le.mpr (by omega)
      unfold widthOf at size ⊢
      omega

theorem widthOf_le (n : Nat) (small : n < 2 ^ 30) : widthOf n ≤ 31 := by
  have size : Nat.size n ≤ 30 := Nat.size_le.mpr small
  unfold widthOf
  omega

theorem widthOf_le_word (n : Nat) (small : n < 2 ^ 31) : widthOf n ≤ 32 := by
  have size : Nat.size n ≤ 31 := Nat.size_le.mpr small
  unfold widthOf
  omega

theorem four_le_widthOf (n : Nat) : 4 ≤ widthOf n := le_max_left _ _

/-- A data record whose counter and width describe `n` packets. -/
def Tracks (n : Nat) (tmp : DataValue) : Prop :=
  tmp.curIntervalPkt = (n : I32) ∧ (n < 2 ^ 30 → tmp.intBits = (widthOf n : I32))

theorem widens_iff (target : Target) (n : Nat) (small : n + 1 < 2 ^ 31) :
    (target.shl32 1 ((widthOf n : I32) - 1) - 1).toInt < ((n + 1 : Nat) : I32).toInt ↔
      2 ^ (widthOf n - 1) ≤ n + 1 := by
  have width := widthOf_le_word n (by omega)
  have four := four_le_widthOf n
  have power : 2 ^ (widthOf n - 1) ≤ 2 ^ 31 := Nat.pow_le_pow_right (by omega) (by omega)
  have positive : 1 ≤ 2 ^ (widthOf n - 1) := Nat.one_le_two_pow
  have amount : (widthOf n : I32) - 1 = ((widthOf n - 1 : Nat) : I32) := by
    rw [Nat.cast_sub (by omega), Nat.cast_one]
  have limit : ((2 ^ (widthOf n - 1) : Nat) : I32) - 1 =
      ((2 ^ (widthOf n - 1) - 1 : Nat) : I32) := by
    rw [Nat.cast_sub positive, Nat.cast_one]
  rw [amount, Target.shl32_one target _ (by omega), limit, toInt_natCast _ (by omega),
    toInt_natCast _ (by omega)]
  omega

theorem Tracks.count (target : Target) (n : Nat) (tmp : DataValue) (tracks : Tracks n tmp) :
    Tracks (n + 1) (countPacket target tmp) := by
  obtain ⟨counter, width⟩ := tracks
  refine ⟨?_, fun small => ?_⟩
  · unfold countPacket
    simp only
    split <;> simp only [counter, Nat.cast_add, Nat.cast_one]
  · have bits := width (by omega)
    have counted : tmp.curIntervalPkt + 1 = ((n + 1 : Nat) : I32) := by
      rw [counter, Nat.cast_add, Nat.cast_one]
    have crossing := widens_iff target n (by omega)
    unfold countPacket
    simp only [bits, counted, crossing, widthOf_succ]
    split
    · exact (Nat.cast_succ (widthOf n)).symm
    · rfl

/-- After a first rollover the record describes the packets of the current interval. -/
def TracksHistory (h : History) : Prop :=
  1 ≤ h.ledger.closings → Tracks h.ledger.current.length h.state.data.value

theorem tracks_reset (tmp : DataValue) :
    Tracks 0 { tmp with prevIntervalPkt := tmp.curIntervalPkt, curIntervalPkt := 0, intBits := 4 } :=
  ⟨rfl, fun _ => rfl⟩

theorem TracksHistory.step (env : Env) (h : History) (packet : Packet)
    (tracks : TracksHistory h) : TracksHistory (History.step env h packet) := by
  rcases History.step_cases env h packet with same | ⟨saddr, -, -, next⟩ | ⟨saddr, -, -, next⟩
  · rw [same]
    exact tracks
  · rw [next]
    intro closed
    simp only [counted, Slots.value_update_zero]
    exact (tracks closed).count env.target
  · rw [next]
    intro _
    simp only [closeInterval, Slots.value_update_zero]
    exact tracks_reset _

/-- Once an interval was closed, and while the current one has fewer than `2^30` packets,
`int_bits` is the bit length of the counter plus one, at least four; so the counter stays below
`2^(int_bits-1)` and the shift by `int_bits - 1` is defined. The maps may start with any
contents. -/
theorem int_bits_tracks_counter (env : Env) (st : State) (packets : List Packet)
    (closed : 1 ≤ (history env st packets).ledger.closings)
    (small : (history env st packets).ledger.current.length < 2 ^ 30) :
    let tmp := (history env st packets).state.data.value
    tmp.intBits.toInt = max 4 (Nat.size tmp.curIntervalPkt.toNat + 1) ∧
    tmp.curIntervalPkt.toInt ≤ 2 ^ (tmp.intBits.toInt - 1).toNat - 1 ∧
    0 ≤ (tmp.intBits - 1).toInt ∧ (tmp.intBits - 1).toInt < 32 := by
  intro tmp
  have tracks : TracksHistory (history env st packets) :=
    history_invariant env TracksHistory (TracksHistory.step env) st packets
      (fun impossible => absurd impossible (by simp [Ledger.empty]))
  let n := (history env st packets).ledger.current.length
  obtain ⟨counter, width⟩ : tmp.curIntervalPkt = (n : I32) ∧ tmp.intBits = (widthOf n : I32) :=
    ⟨(tracks closed).1, (tracks closed).2 small⟩
  have counterNat : tmp.curIntervalPkt.toNat = n := by
    rw [counter, toNat_natCast n (by omega)]
  have upper := widthOf_le n small
  have lower := four_le_widthOf n
  have widthInt : tmp.intBits.toInt = widthOf n := by
    rw [width, toInt_natCast _ (by omega)]
  have amount : (tmp.intBits - 1).toInt = (widthOf n - 1 : Nat) := by
    rw [width, ← Nat.cast_one, ← Nat.cast_sub (by omega), toInt_natCast _ (by omega)]
  refine ⟨?_, ?_, ?_, ?_⟩
  · rw [widthInt, counterNat]
    rfl
  · have below := lt_two_pow_widthOf n
    have exponent : ((widthOf n : Int) - 1).toNat = widthOf n - 1 := by omega
    rw [widthInt, counter, toInt_natCast _ (by omega), exponent]
    have cast : (n : Int) < ((2 ^ (widthOf n - 1) : Nat) : Int) := by exact_mod_cast below
    push_cast at cast
    omega
  · omega
  · omega

/-- A packet after an interval that two packets closed. -/
theorem int_bits_after_one_interval :
    let h := history bareEnv zeroed
      [packetAt 1 2000000000, packetAt 1 4000000000, packetAt 2 4500000000]
    1 ≤ h.ledger.closings ∧ h.ledger.current.length < 2 ^ 30 ∧
      h.state.data.value.intBits.toInt =
        max 4 (Nat.size h.state.data.value.curIntervalPkt.toNat + 1) := by
  intro h
  have closed : 1 ≤ h.ledger.closings := by decide +kernel
  have small : h.ledger.current.length < 2 ^ 30 := by decide +kernel
  exact ⟨closed, small, (int_bits_tracks_counter bareEnv zeroed _ closed small).1⟩

/-! ### Runs that start with the width four -/

/-- `int_bits` after `n` packets of an interval that began at four: it stops at the width of the
counter itself. -/
def intBitsAfter (n : Nat) : Nat := min 32 (widthOf n)

theorem intBitsAfter_bounds (n : Nat) : 4 ≤ intBitsAfter n ∧ intBitsAfter n ≤ 32 :=
  ⟨le_min (by decide) (four_le_widthOf n), min_le_left _ _⟩

theorem intBitsAfter_of_small (n : Nat) (small : n < 2 ^ 31) : intBitsAfter n = widthOf n :=
  min_eq_right (widthOf_le_word n small)

theorem intBitsAfter_of_large (n : Nat) (large : 2 ^ 30 ≤ n) : intBitsAfter n = 32 := by
  have size : 30 < Nat.size n := Nat.lt_size.mpr large
  rw [intBitsAfter, widthOf]
  omega

theorem countPacket_intBits (target : Target) (n : Nat) (tmp : DataValue)
    (counter : tmp.curIntervalPkt = (n : I32)) (width : tmp.intBits = (intBitsAfter n : I32)) :
    (countPacket target tmp).intBits = (intBitsAfter (n + 1) : I32) := by
  have next : tmp.curIntervalPkt + 1 = ((n + 1 : Nat) : I32) := by
    rw [counter, Nat.cast_add, Nat.cast_one]
  unfold countPacket
  by_cases small : n + 1 < 2 ^ 31
  · have crossing := widens_iff target n small
    have below := widthOf_le_word (n + 1) small
    rw [intBitsAfter_of_small n (by omega)] at width
    rw [intBitsAfter_of_small (n + 1) small]
    simp only [width, next, crossing, widthOf_succ]
    split
    · exact (Nat.cast_succ (widthOf n)).symm
    · rfl
  · -- the counter reads negative from here on, and the limit is the largest `int32_t`
    have limit : (target.shl32 1 ((32 : Nat) - 1) - 1).toInt = 2 ^ 31 - 1 := by
      rw [show ((32 : Nat) : I32) - 1 = ((31 : Nat) : I32) from rfl,
        Target.shl32_one target 31 (by decide)]
      rfl
    have bound := BitVec.toInt_lt (x := ((n + 1 : Nat) : I32))
    rw [intBitsAfter_of_large n (by omega)] at width
    rw [intBitsAfter_of_large (n + 1) (by omega)]
    simp only [width, next]
    rw [limit, if_neg (by omega)]

/-- The record holds the packets of both intervals and the width the current ones call for. -/
structure Widened (h : History) : Prop where
  previous : h.state.data.value.prevIntervalPkt = (h.ledger.previous.length : I32)
  counter : h.state.data.value.curIntervalPkt = (h.ledger.current.length : I32)
  width : h.state.data.value.intBits = (intBitsAfter h.ledger.current.length : I32)

theorem Widened.step (env : Env) (h : History) (packet : Packet) (widened : Widened h) :
    Widened (History.step env h packet) := by
  rcases History.step_cases env h packet with same | ⟨saddr, -, -, next⟩ | ⟨saddr, -, -, next⟩
  · rw [same]
    exact widened
  · rw [next]
    constructor
    · simp only [counted, Slots.value_update_zero, Ledger.arrive]
      rw [countPacket_prev, widened.previous]
    · simp only [counted, Slots.value_update_zero, Ledger.arrive, List.length_cons]
      rw [countPacket_cur, widened.counter, Nat.cast_add, Nat.cast_one]
    · simp only [counted, Slots.value_update_zero, Ledger.arrive, List.length_cons]
      exact countPacket_intBits env.target _ _ widened.counter widened.width
  · rw [next]
    constructor
    · simp only [closeInterval, Slots.value_update_zero, Ledger.close, Ledger.arrive,
        List.length_cons]
      rw [countPacket_cur, widened.counter, Nat.cast_add, Nat.cast_one]
    · simp only [closeInterval, Slots.value_update_zero]
      rfl
    · simp only [closeInterval, Slots.value_update_zero]
      rfl

theorem widened_history (env : Env) (packets : List Packet) :
    Widened (history env initialised packets) :=
  history_invariant env Widened (Widened.step env) initialised packets ⟨rfl, rfl, rfl⟩

end Fide.Kernel
