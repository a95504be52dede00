import Mathlib.Tactic.Linarith
import Mathlib.Data.Nat.Sqrt

/-!
# Newton's iteration for integer square roots

One step goes from a guess `r` to the mean of `r` and `x / r`, rounded down. From any guess that is
not below the root the steps go down to the root and stop there: a step does not fall below the
root, and a guess that a step does not make smaller is the root.
-/

namespace KyroKernel.Foundations

/-- The next guess at the square root of `x`. -/
def newton (x r : Nat) : Nat := (r + x / r) / 2

variable {x r : Nat}

/-- A step does not fall below the root. -/
theorem sqrt_le_newton (hr : 0 < r) : x.sqrt ≤ newton x r := by
  have hsq : x.sqrt * x.sqrt ≤ x := Nat.sqrt_le x
  -- The geometric mean is not above the arithmetic one.
  have hmean : 2 * x.sqrt ≤ r + x / r := by
    rcases Nat.le_total r (2 * x.sqrt) with hle | hle
    · obtain ⟨k, hk⟩ := Nat.exists_eq_add_of_le hle
      have hdiv : k ≤ x / r := by
        rw [Nat.le_div_iff_mul_le hr]
        nlinarith [sq_nonneg ((x.sqrt : Int) - r)]
      omega
    · exact Nat.le_add_right_of_le hle
  unfold newton
  omega

/-- A guess that is not below the root and that a step does not make smaller is the root. -/
theorem eq_sqrt_of_newton (hr : 0 < r) (hroot : x.sqrt ≤ r) (hstop : r ≤ newton x r) :
    r = x.sqrt := by
  have hdiv : r ≤ x / r := by
    unfold newton at hstop
    omega
  have hsq : r * r ≤ x := (Nat.le_div_iff_mul_le hr).mp hdiv
  exact Nat.le_antisymm (Nat.le_sqrt.mpr hsq) hroot

/-- The sum in a step is largest for the guesses `1` and `x`. -/
theorem add_div_le (hr : 0 < r) (hle : r ≤ x) : r + x / r ≤ x + 1 := by
  have hquot : 1 ≤ x / r := (Nat.one_le_div_iff hr).mpr hle
  have hmul : x / r * r ≤ x := Nat.div_mul_le_self x r
  nlinarith

end KyroKernel.Foundations
