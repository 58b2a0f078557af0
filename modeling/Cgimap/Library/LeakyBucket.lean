/- path: Cgimap/Library/LeakyBucket
   generality: G
   source: none
   digest: A debt that is drained at a fixed rate. -/

import Mathlib.Data.Int.Order.Lemmas
import Mathlib.Order.Lattice
import Mathlib.Tactic.Linarith

set_option autoImplicit false
set_option relaxedAutoImplicit false

namespace Cgimap.Library.LeakyBucket

variable {rate debt limit elapsed later : ℤ}

/-- What is left of a debt after some time. -/
def residual (rate debt elapsed : ℤ) : ℤ := max 0 (debt - elapsed * rate)

theorem residual_nonneg : 0 ≤ residual rate debt elapsed := le_max_left _ _

theorem residual_of_lt (left : elapsed * rate < debt) :
    residual rate debt elapsed = debt - elapsed * rate :=
  max_eq_right (by omega)

theorem residual_of_le (drained : debt ≤ elapsed * rate) : residual rate debt elapsed = 0 :=
  max_eq_left (by omega)

theorem residual_lt_iff (positive : 0 < limit) :
    residual rate debt elapsed < limit ↔ debt - elapsed * rate < limit := by
  rw [residual, max_lt_iff, and_iff_right positive]

theorem residual_residual (forward : 0 ≤ rate) (time : 0 ≤ later) :
    residual rate (residual rate debt elapsed) later = residual rate debt (elapsed + later) := by
  have drained : 0 ≤ later * rate := mul_nonneg time forward
  rw [residual, residual, residual, add_mul]
  omega

theorem residual_antitone (forward : 0 ≤ rate) (order : elapsed ≤ later) :
    residual rate debt later ≤ residual rate debt elapsed := by
  have more : elapsed * rate ≤ later * rate := mul_le_mul_of_nonneg_right order forward
  rw [residual, residual]
  omega

/-- The seconds until a debt is below the limit. -/
def waiting (rate limit debt : ℤ) : ℤ := (debt - limit) / rate + 1

variable (debt elapsed) in
theorem residual_lt_iff_waiting (running : 0 < rate) (positive : 0 < limit) :
    residual rate debt elapsed < limit ↔ waiting rate limit debt ≤ elapsed := by
  rw [residual_lt_iff positive, waiting, Int.add_one_le_iff, Int.ediv_lt_iff_lt_mul running]
  omega

variable (elapsed) in
/-- Twice the larger summand, drained, is enough to forget a debt to which something was added
when it was below the limit. -/
theorem residual_lt_of_lifetime {left : ℤ} (added : ℤ) (running : 0 < rate) (below : left < limit)
    (nonneg : 0 ≤ left) (lives : 0 < 2 * max limit added / rate)
    (passed : 2 * max limit added / rate ≤ elapsed) :
    residual rate (left + added) elapsed < limit := by
  have positive : 0 < limit := lt_of_le_of_lt nonneg below
  rw [residual_lt_iff positive]
  have rest_lt : 2 * max limit added % rate < rate := Int.emod_lt_of_pos _ running
  have division := Int.emod_add_mul_ediv (2 * max limit added) rate
  have once : rate ≤ rate * (2 * max limit added / rate) := le_mul_of_one_le_right running.le lives
  -- the part of a second that the quotient drops is less than the larger summand
  have rest_small : 2 * max limit added % rate ≤ max limit added := by omega
  have drained : rate * (2 * max limit added / rate) ≤ elapsed * rate := by
    rw [mul_comm elapsed]
    exact mul_le_mul_of_nonneg_left passed running.le
  have added_le : added ≤ max limit added := le_max_right _ _
  omega

end Cgimap.Library.LeakyBucket
