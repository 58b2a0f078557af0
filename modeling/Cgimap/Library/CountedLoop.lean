/- path: Cgimap/Library/CountedLoop
   generality: G
   source: none
   digest: Loops over an unsigned counter up to and including a last value. -/

import Mathlib.Algebra.Ring.Nat
import Mathlib.Data.List.Range

set_option autoImplicit false
set_option relaxedAutoImplicit false

namespace Cgimap.Library.CountedLoop

variable {σ : Type}

/-- The loop `for (; x <= last; x++)` with a counter of `w` bits, which starts again at 0
behind its largest value. -/
def forUpTo (w : Nat) (last : Nat) (body : σ → Nat → Option σ) : Nat → Nat → σ → Option σ
  | 0, _, _ => none
  | fuel + 1, x, s =>
      if x ≤ last then (body s x).bind (forUpTo w last body fuel ((x + 1) % 2 ^ w)) else some s

/-- As long as the counter can go past the last value, the loop goes through all values up
to it. -/
theorem forUpTo_eq {w last fuel x : Nat} {body : σ → Nat → Option σ} {f : σ → Nat → σ}
    (past : last + 1 < 2 ^ w) (start : x ≤ last + 1) (enough : last + 1 < x + fuel)
    (bodies : ∀ s y, x ≤ y → y ≤ last → body s y = some (f s y)) (s : σ) :
    forUpTo w last body fuel x s = some ((List.range' x (last + 1 - x)).foldl f s) := by
  induction fuel generalizing x s with
  | zero => omega
  | succ fuel ih =>
      rw [forUpTo]
      split
      · rename_i within
        have next : (x + 1) % 2 ^ w = x + 1 := Nat.mod_eq_of_lt (by omega)
        have rounds : last + 1 - x = (last + 1 - (x + 1)) + 1 := by omega
        rw [bodies s x (le_refl x) within, next, rounds, List.range'_succ, List.foldl_cons]
        exact ih (by omega) (by omega) (fun s y low high => bodies s y (by omega) high) (f s x)
      · rename_i beyond
        have rounds : last + 1 - x = 0 := by omega
        rw [rounds]
        rfl

end Cgimap.Library.CountedLoop
