import Mathlib.Logic.Function.Basic
import Mathlib.Tactic.Common

/-!
# Sets of numbers as bits of words

An array of `w`-bit words holds a set of numbers: `n` is in it when bit `n % w` of word `n / w` is
set. Or-ing a bit in inserts a number, masking it out erases one, and the first clear bit of the
first word that has one is the least number that is not in the set.
-/

namespace KyroKernel.Foundations.BitSet

universe u

variable {α : Type u} {w : Nat} {words : Nat → BitVec w} {x : BitVec w} {m n i j : Nat}

/-- Bit `n % w` of word `n / w` is set. -/
def Contains (words : Nat → BitVec w) (n : Nat) : Prop := (words (n / w)).getLsbD (n % w) = true

/-! ## One word -/

theorem getLsbD_bit (hi : i < w) (j : Nat) : (1#w <<< i).getLsbD j = decide (j = i) := by
  rw [← BitVec.twoPow_eq, BitVec.getLsbD_twoPow]
  simp only [hi, decide_true, Bool.true_and, decide_eq_decide]
  exact eq_comm

/-- Masking out all bits but one tells whether it is set. -/
theorem and_bit_eq_zero (hi : i < w) : x &&& 1#w <<< i = 0#w ↔ x.getLsbD i = false := by
  rw [← BitVec.twoPow_eq, BitVec.and_twoPow]
  cases hx : x.getLsbD i with
  | false => simp
  | true =>
    -- The bit that is left is set.
    simp only [if_true, Bool.true_eq_false, iff_false]
    intro h0
    have hbit := congrArg (·.getLsbD i) h0
    simp [hi] at hbit

theorem getLsbD_or_bit (hi : i < w) (j : Nat) :
    (x ||| 1#w <<< i).getLsbD j = true ↔ j = i ∨ x.getLsbD j = true := by
  rw [BitVec.getLsbD_or, getLsbD_bit hi, Bool.or_eq_true, decide_eq_true_eq, or_comm]

theorem getLsbD_and_not_bit (hi : i < w) (hj : j < w) :
    (x &&& ~~~(1#w <<< i)).getLsbD j = true ↔ j ≠ i ∧ x.getLsbD j = true := by
  rw [BitVec.getLsbD_and, BitVec.getLsbD_not, getLsbD_bit hi, Bool.and_eq_true]
  simp only [hj, decide_true, Bool.true_and, Bool.not_eq_true', decide_eq_false_iff_not]
  exact and_comm

/-! ## Insertion and erasure -/

/-- The word and the bit determine the number. -/
theorem eq_iff (m n w : Nat) : m = n ↔ m / w = n / w ∧ m % w = n % w := by
  constructor
  · rintro rfl
    exact ⟨rfl, rfl⟩
  · rintro ⟨hdiv, hmod⟩
    rw [← Nat.div_add_mod m w, ← Nat.div_add_mod n w, hdiv, hmod]

/-- A word that changed in one bit: other words and other bits do not matter. -/
theorem contains_update (hw : 0 < w) {P : Prop} {y : BitVec w}
    (hbit : y.getLsbD (n % w) = true ↔ P)
    (hothers : ∀ j < w, j ≠ n % w → y.getLsbD j = (words (n / w)).getLsbD j) :
    Contains (Function.update words (n / w) y) m ↔ if m = n then P else Contains words m := by
  unfold Contains
  by_cases hword : m / w = n / w
  · rw [hword, Function.update_self]
    by_cases hmod : m % w = n % w
    · rw [if_pos ((eq_iff m n w).mpr ⟨hword, hmod⟩), hmod]
      exact hbit
    · have hne : m ≠ n := fun heq => hmod (by rw [heq])
      rw [if_neg hne, hothers _ (Nat.mod_lt m hw) hmod]
  · have hne : m ≠ n := fun heq => hword (by rw [heq])
    rw [Function.update_of_ne hword, if_neg hne]

theorem contains_insert (hw : 0 < w) :
    Contains (Function.update words (n / w) (words (n / w) ||| 1#w <<< (n % w))) m ↔
      m = n ∨ Contains words m := by
  have hmod := Nat.mod_lt n hw
  rw [contains_update hw (P := True)]
  · by_cases hmn : m = n <;> simp [hmn]
  · simp only [getLsbD_or_bit hmod, true_or]
  · intro j _ hne
    rw [BitVec.getLsbD_or, getLsbD_bit hmod, decide_eq_false hne, Bool.or_false]

theorem contains_erase (hw : 0 < w) :
    Contains (Function.update words (n / w) (words (n / w) &&& ~~~(1#w <<< (n % w)))) m ↔
      m ≠ n ∧ Contains words m := by
  have hmod := Nat.mod_lt n hw
  rw [contains_update hw (P := False)]
  · by_cases hmn : m = n <;> simp [hmn]
  · simp only [getLsbD_and_not_bit hmod hmod, ne_eq, not_true, false_and]
  · intro j hj hne
    rw [BitVec.getLsbD_and, BitVec.getLsbD_not, getLsbD_bit hmod, decide_eq_false hne]
    simp [hj]

/-! ## The least number that is not in the set -/

/-- A search through `0, 1, …` finds the first success. -/
theorem findSome?_range_eq_some {f : Nat → Option α} {k : Nat} {a : α} :
    (List.range k).findSome? f = some a ↔ ∃ i < k, f i = some a ∧ ∀ j < i, f j = none := by
  induction k with
  | zero => simp
  | succ k ih =>
    rw [List.range_succ, List.findSome?_append, Option.or_eq_some_iff, ih]
    constructor
    · rintro (⟨i, hi, hfound, hbefore⟩ | ⟨hnone, hlast⟩)
      · exact ⟨i, by omega, hfound, hbefore⟩
      · -- Nothing before the last one.
        rw [List.findSome?_eq_none_iff] at hnone
        exact ⟨k, Nat.lt_succ_self k, by simpa using hlast,
          fun j hj => hnone j (List.mem_range.mpr hj)⟩
    · rintro ⟨i, hi, hfound, hbefore⟩
      by_cases hik : i < k
      · exact .inl ⟨i, hik, hfound, hbefore⟩
      · obtain rfl : i = k := by omega
        refine .inr ⟨?_, by simpa using hfound⟩
        rw [List.findSome?_eq_none_iff]
        exact fun j hj => hbefore j (List.mem_range.mp hj)

/-- All numbers of a full word are in the set. -/
theorem contains_of_full (hw : 0 < w) (hfull : ∀ j < w, (words i).getLsbD j = true)
    (hm : m / w = i) : Contains words m := by
  unfold Contains
  rw [hm]
  exact hfull _ (Nat.mod_lt m hw)

/-- The first clear bit of the first word that is not full. -/
theorem least_not_contains (hj : j < w)
    (hfull : ∀ i' < i, ∀ j' < w, (words i').getLsbD j' = true)
    (hclear : (words i).getLsbD j = false) (hset : ∀ j' < j, (words i).getLsbD j' = true) :
    ¬ Contains words (i * w + j) ∧ ∀ m < i * w + j, Contains words m := by
  have hw : 0 < w := by omega
  have hdiv : (i * w + j) / w = i := by
    rw [Nat.mul_comm, Nat.mul_add_div hw, Nat.div_eq_of_lt hj, Nat.add_zero]
  have hmod : (i * w + j) % w = j := by
    rw [Nat.mul_comm, Nat.mul_add_mod, Nat.mod_eq_of_lt hj]
  constructor
  · unfold Contains
    rw [hdiv, hmod, hclear]
    exact Bool.false_ne_true
  · intro m hm
    have hle : m / w ≤ i := by
      rw [← hdiv]
      exact Nat.div_le_div_right (Nat.le_of_lt hm)
    rcases Nat.lt_or_eq_of_le hle with hlt | heq
    · exact contains_of_full hw (hfull _ hlt) rfl
    · -- In the same word, before bit `j`.
      have hrest := Nat.div_add_mod m w
      rw [heq, Nat.mul_comm] at hrest
      unfold Contains
      rw [heq]
      exact hset _ (by omega)

end KyroKernel.Foundations.BitSet
