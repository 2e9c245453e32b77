import Fide.KernelRun

/-! What a rollover does to the logger, whatever the orders of its traversals. -/

namespace Fide.Kernel

open Words FixedPoint

/-- The pair of counts of an entry. -/
def LoggerValue.counts (value : LoggerValue) : I32 × I32 := (value.prev, value.cur)

/-- An idle entry is evicted only when its entropy is not zero. -/
def evicted (target : Target) (tmp : DataValue) (value : LoggerValue) : Bool :=
  value.cur = 0 ∧ (entropyOf target tmp value).entropy.number ≠ 0

theorem not_evicted_iff (target : Target) (tmp : DataValue) (value : LoggerValue) :
    evicted target tmp value = false ↔
      (value.cur = 0 → (entropyOf target tmp value).entropy.number = 0) := by
  rw [evicted, decide_eq_false_iff_not, not_and, not_not]

theorem detection_counts (target : Target) (tmp : DataValue) (key : Addr) (value : LoggerValue)
    (pass : DetectionPass) :
    (detection target tmp key value pass).1.map LoggerValue.counts =
      if value.cur = 0 ∧ value.entropy.number ≠ 0 then none else some (value.cur, 0) := by
  unfold detection
  by_cases zero : value.entropy.number = 0
  · simp only [zero, ↓reduceIte, ne_eq, not_true_eq_false, and_false, Option.map_some,
      LoggerValue.counts]
  · by_cases idle : value.cur = 0
    · simp only [zero, idle, ↓reduceIte, ne_eq, not_false_eq_true, and_self, Option.map_none]
    · simp only [zero, idle, ↓reduceIte, false_and, Option.map_some, LoggerValue.counts]

theorem analyse_entropies (target : Target) (packet : Packet) (tmp : DataValue) (st : State)
    (k : Addr) :
    (analyse target packet tmp st).entropies.lookup k =
      (st.logger.lookup k).map fun value =>
        { value with entropy := (entropyOf target tmp value).entropy } := by
  obtain ⟨pass, result⟩ := BoundedMap.forEach_lookup (calcEntropy target tmp)
    packet.entropyOrder st.logger ⟨st.count, st.entropyAll, []⟩ k
  rw [Option.map_eq_bind]
  exact result

/-- A rollover moves `cur` into `prev` under every key, or evicts the entry. -/
theorem analyse_counts (target : Target) (packet : Packet) (tmp : DataValue) (st : State)
    (k : Addr) :
    ((analyse target packet tmp st).logger.lookup k).map LoggerValue.counts =
      (st.logger.lookup k).bind fun value =>
        if evicted target tmp value then none else some (value.cur, 0) := by
  let r := analyse target packet tmp st
  obtain ⟨pass, result⟩ := BoundedMap.forEach_lookup (detection target tmp)
    packet.detectionOrder r.entropies ⟨r.avg, []⟩ k
  have final : r.logger.lookup k =
      (r.entropies.lookup k).bind fun value => (detection target tmp k value pass).1 := result
  rw [show (analyse target packet tmp st).logger = r.logger from rfl, final,
    show r.entropies.lookup k = _ from analyse_entropies target packet tmp st k]
  cases st.logger.lookup k with
  | none => rfl
  | some value =>
      simp only [Option.map_some, Option.bind_some, detection_counts, evicted,
        Bool.decide_and, Bool.and_eq_true, decide_eq_true_eq]

end Fide.Kernel
