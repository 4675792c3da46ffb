import Mathlib

/-!
# Mean and variance of a list

The variance is Bessel's, with one less than the number of values in the denominator; of
a single value it is 0. It can be read off the sums of the values and of their squares.
-/

namespace Moments

variable {K : Type} [Field K]

def mean (xs : List K) : K := xs.sum / xs.length

def variance (xs : List K) : K :=
  (xs.map fun x => (x - mean xs) ^ 2).sum / (if 2 ≤ xs.length then (xs.length : K) - 1 else xs.length)

theorem sum_sq_sub (xs : List K) (c : K) :
    (xs.map fun x => (x - c) ^ 2).sum = (xs.map (· ^ 2)).sum - 2 * c * xs.sum + xs.length * c ^ 2 := by
  induction xs with
  | nil => simp
  | cons x xs ih =>
    simp only [List.map_cons, List.sum_cons, ih, List.length_cons, Nat.cast_add_one]
    ring

variable [CharZero K]

/-- **The variance from the two sums.** -/
theorem variance_eq {xs : List K} (nonempty : xs ≠ []) :
    variance xs =
      let biased : K := (xs.map (· ^ 2)).sum / xs.length - mean xs ^ 2
      if 2 ≤ xs.length then biased * ((xs.length : K) / ((xs.length : K) - 1)) else biased := by
  have size : (xs.length : K) ≠ 0 := Nat.cast_ne_zero.2 (Nat.ne_of_gt (List.length_pos_iff.2 nonempty))
  have sum : xs.sum = xs.length * mean xs := by
    unfold mean
    field_simp
  have squares : (xs.map fun x => (x - mean xs) ^ 2).sum =
      xs.length * ((xs.map (· ^ 2)).sum / xs.length - mean xs ^ 2) := by
    rw [sum_sq_sub, sum, mul_sub, mul_div_cancel₀ _ size]
    ring
  unfold variance
  dsimp only
  rw [squares]
  split
  · ring
  · exact mul_div_cancel_left₀ _ size

theorem mean_sub {xs : List K} (nonempty : xs ≠ []) (c : K) : mean (xs.map (· - c)) = mean xs - c := by
  have size : (xs.length : K) ≠ 0 := Nat.cast_ne_zero.2 (Nat.ne_of_gt (List.length_pos_iff.2 nonempty))
  have sum : (xs.map (· - c)).sum = xs.sum - xs.length * c := by
    clear nonempty size
    induction xs with
    | nil => simp
    | cons x xs ih =>
      simp only [List.map_cons, List.sum_cons, ih, List.length_cons, Nat.cast_add_one]
      ring
  rw [mean, mean, List.length_map, sum]
  field_simp

/-- The variance does not depend on where 0 is. -/
theorem variance_sub {xs : List K} (nonempty : xs ≠ []) (c : K) : variance (xs.map (· - c)) = variance xs := by
  rw [variance, variance, mean_sub nonempty, List.map_map, List.length_map]
  congr 3
  funext x
  dsimp only [Function.comp]
  ring

end Moments
