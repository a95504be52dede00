import Mathlib.Tactic.Common
import Mathlib.Logic.Function.Basic

/-!
# Ring buffers

`n` cells used in a circle. A ring holds the queue `q` from cell `t` on when the cells
`t`, `t + 1`, … modulo `n` have the elements of `q` in order; the next free cell is
`t + q.length` modulo `n`. Putting at the free cell appends, moving `t` removes the front.
-/

namespace KyroKernel.Foundations

universe u

variable {α : Type u}

/-- The ring of `n` cells holds `q`, front first, from cell `t` on. -/
def RingHolds (n : Int) (cells : Int → α) (t : Int) (q : List α) : Prop :=
  ∀ i, (h : i < q.length) → cells ((t + i) % n) = q[i]

namespace RingHolds

variable {n t : Int} {cells : Int → α} {q : List α} {x : α}

/-- An empty queue needs no cells. -/
theorem nil (n : Int) (cells : Int → α) (t : Int) : RingHolds n cells t [] :=
  fun _ h => absurd h (Nat.not_lt_zero _)

/-- Fewer than `n` steps around the circle do not come back to the same cell. -/
theorem cell_ne {i j : Nat} (hij : i < j) (hj : (j : Int) < n) :
    (t + i) % n ≠ (t + j) % n := by
  intro h
  -- The two cells would differ by a multiple of `n` smaller than `n`.
  have hzero := Int.emod_eq_emod_iff_emod_sub_eq_zero.mp h.symm
  have hdiff : (t + j) - (t + i) = (j : Int) - i := by omega
  rw [hdiff] at hzero
  have hdvd : n ∣ (j : Int) - i := Int.dvd_of_emod_eq_zero hzero
  have hpos : (0 : Int) < j - i := by omega
  have := Int.le_of_dvd hpos hdvd
  omega

/-- Writing the next free cell appends to the queue while there is a free cell. -/
theorem push (h : RingHolds n cells t q) (hlen : (q.length : Int) < n) (x : α) :
    RingHolds n (Function.update cells ((t + q.length) % n) x) t (q ++ [x]) := by
  intro i hi
  rw [List.length_append, List.length_singleton] at hi
  by_cases hlast : i = q.length
  · -- The cell just written.
    subst hlast
    simp
  · have hlt : i < q.length := by omega
    rw [Function.update_of_ne (cell_ne hlt hlen), h i hlt, List.getElem_append_left hlt]

/-- The front is in the first cell. -/
theorem front (h : RingHolds n cells t (x :: q)) (ht : 0 ≤ t) (htn : t < n) : cells t = x := by
  have := h 0 (Nat.zero_lt_succ _)
  rw [Int.natCast_zero, Int.add_zero, Int.emod_eq_of_lt ht htn] at this
  exact this

/-- Moving the first cell on removes the front. -/
theorem pop (h : RingHolds n cells t (x :: q)) : RingHolds n cells ((t + 1) % n) q := by
  intro i hi
  have := h (i + 1) (Nat.succ_lt_succ hi)
  rw [List.getElem_cons_succ] at this
  rw [← this, Int.emod_add_emod]
  congr 2
  push_cast
  omega

/-- The elements of the queue, read off the cells. -/
theorem eq_map (h : RingHolds n cells t q) :
    q = (List.range q.length).map fun i => cells ((t + (i : Nat)) % n) := by
  apply List.ext_getElem
  · simp
  · intro i hi _
    rw [List.getElem_map, List.getElem_range]
    exact (h i hi).symm

end RingHolds

/-- The next free cell after a push. -/
theorem ringNext_push (n t : Int) (len : Nat) :
    ((t + len) % n + 1) % n = (t + (len + 1 : Nat)) % n := by
  rw [Int.emod_add_emod]
  congr 1
  push_cast
  omega

/-- A pop does not move the next free cell. -/
theorem ringNext_pop (n t : Int) (len : Nat) :
    (t + (len + 1 : Nat)) % n = ((t + 1) % n + len) % n := by
  rw [Int.emod_add_emod]
  congr 1
  push_cast
  omega

end KyroKernel.Foundations
