import Mathlib

/-! How far the members of a list lie from a given point.

The mean square is taken about any point; about the mean it is the variance. Deviations summed
before they are squared measure the distance of the mean from the point and nothing else. -/

namespace Fide.Spread

section Field

variable {R : Type} [Field R]

def mean (xs : List R) : R := xs.sum / xs.length

def meanSquare (point : R) (xs : List R) : R :=
  (xs.map fun x => (x - point) ^ 2).sum / xs.length

theorem sum_sub (point : R) (xs : List R) :
    (xs.map fun x => x - point).sum = xs.sum - xs.length * point := by
  induction xs with
  | nil => simp
  | cons x rest ih =>
      rw [List.map_cons, List.sum_cons, List.sum_cons, ih, List.length_cons]
      push_cast
      ring

theorem sum_sq_sub (point : R) (xs : List R) :
    (xs.map fun x => (x - point) ^ 2).sum =
      (xs.map fun x => x ^ 2).sum - 2 * point * xs.sum + xs.length * point ^ 2 := by
  induction xs with
  | nil => simp
  | cons x rest ih =>
      simp only [List.map_cons, List.sum_cons, ih, List.length_cons]
      push_cast
      ring

variable (point : R) (xs : List R) (some : (xs.length : R) ≠ 0)

include some

theorem sum_sub_eq_mean : (xs.map fun x => x - point).sum = xs.length * (mean xs - point) := by
  rw [sum_sub, mean, mul_sub, mul_div_cancel₀ _ some]

/-- The mean square about a point is the one about the mean and the square of the distance. -/
theorem meanSquare_eq : meanSquare point xs = meanSquare (mean xs) xs + (mean xs - point) ^ 2 := by
  have total : xs.sum = xs.length * mean xs := by rw [mean, mul_div_cancel₀ _ some]
  rw [meanSquare, meanSquare, sum_sq_sub, sum_sq_sub, total]
  field_simp
  ring

/-- The square of the summed deviations is the mean square only for one amount of spread. -/
theorem sum_sub_sq_eq_iff :
    (xs.map fun x => x - point).sum ^ 2 = meanSquare point xs ↔
      meanSquare (mean xs) xs = ((xs.length : R) ^ 2 - 1) * (mean xs - point) ^ 2 := by
  rw [sum_sub_eq_mean point xs some, meanSquare_eq point xs some]
  constructor
  · intro equal
    linear_combination -equal
  · intro equal
    linear_combination -equal

end Field

section Ordered

variable {R : Type} [Field R] [LinearOrder R] [IsStrictOrderedRing R]

theorem meanSquare_nonneg (point : R) (xs : List R) : 0 ≤ meanSquare point xs := by
  refine div_nonneg (List.sum_nonneg ?_) (Nat.cast_nonneg _)
  intro square member
  obtain ⟨x, -, rfl⟩ := List.mem_map.mp member
  exact sq_nonneg _

/-- Only a list without spread has the mean square zero. -/
theorem eq_of_meanSquare_eq_zero (point : R) (xs : List R) (zero : meanSquare point xs = 0) :
    ∀ x ∈ xs, x = point := by
  intro x member
  have some : (xs.length : R) ≠ 0 := by
    rw [Nat.cast_ne_zero]
    exact (List.length_pos_of_mem member).ne'
  have total : (xs.map fun x => (x - point) ^ 2).sum = 0 :=
    (div_eq_zero_iff.mp zero).resolve_right some
  have squares : ∀ square ∈ xs.map fun x => (x - point) ^ 2, 0 ≤ square := by
    intro square inside
    obtain ⟨y, -, rfl⟩ := List.mem_map.mp inside
    exact sq_nonneg _
  have own : (x - point) ^ 2 ≤ (xs.map fun x => (x - point) ^ 2).sum :=
    List.single_le_sum squares _ (List.mem_map_of_mem member)
  rw [total] at own
  have none : x - point = 0 := pow_eq_zero_iff two_ne_zero |>.mp (le_antisymm own (sq_nonneg _))
  exact sub_eq_zero.mp none

end Ordered

end Fide.Spread
