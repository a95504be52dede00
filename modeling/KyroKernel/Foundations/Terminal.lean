import Mathlib.Tactic.Common
import Mathlib.Logic.Function.Basic

/-!
# Unbounded terminals

A terminal with rows of a fixed width and no last row: the cursor moves down as far as it has
to, and nothing ever scrolls. A screen of a fixed height shows the last rows of it.
-/

namespace KyroKernel.Foundations

universe u

variable {α : Type u}

/-- The cells of all rows, and the cursor. -/
structure Terminal (α : Type u) where
  cells : Nat → Nat → α
  row : Nat
  col : Nat

namespace Terminal

/-- An empty terminal with the cursor at its first cell. -/
def clear (blank : α) : Terminal α := ⟨fun _ _ => blank, 0, 0⟩

/-- Change a cell of the cursor's row. -/
def store (t : Terminal α) (col : Nat) (x : α) : Terminal α :=
  { t with cells := Function.update t.cells t.row (Function.update (t.cells t.row) col x) }

/-- A cursor past the last column goes to the start of the next row. -/
def wrap (width : Nat) (t : Terminal α) : Terminal α :=
  if width ≤ t.col then { t with row := t.row + 1, col := 0 } else t

/-- Go to the start of the next row. -/
def newline (t : Terminal α) : Terminal α := { t with row := t.row + 1, col := 0 }

/-- Go to the start of the row. -/
def carriageReturn (t : Terminal α) : Terminal α := { t with col := 0 }

/-- Go to the next column that is a multiple of `n`. -/
def tab (n : Nat) (t : Terminal α) : Terminal α := { t with col := (t.col / n + 1) * n }

/-- Go back one column, within the row, and erase the cell there. -/
def erase (blank : α) (t : Terminal α) : Terminal α :=
  if 0 < t.col then { t.store (t.col - 1) blank with col := t.col - 1 } else t

/-- Write at the cursor and move it on. -/
def put (t : Terminal α) (x : α) : Terminal α := { t.store t.col x with col := t.col + 1 }

/-- The first row that a screen of `height` rows shows: 0 as long as the cursor is in one of
the first `height` rows, then the one that makes the cursor's row the last. -/
def top (height : Nat) (t : Terminal α) : Nat := t.row + 1 - height

/-- Nothing has been written from row `n` on. -/
def BlankFrom (n : Nat) (blank : α) (t : Terminal α) : Prop :=
  ∀ r, n ≤ r → ∀ c, t.cells r c = blank

variable {t : Terminal α} {blank : α} {n : Nat}

theorem store_cells (t : Terminal α) (col : Nat) (x : α) (r c : Nat) :
    (t.store col x).cells r c = if r = t.row ∧ c = col then x else t.cells r c := by
  unfold store
  by_cases hr : r = t.row
  · subst hr
    by_cases hc : c = col
    · simp [hc]
    · simp [hc]
  · simp [hr]

theorem BlankFrom.clear (n : Nat) (blank : α) : (clear blank).BlankFrom n blank := fun _ _ _ => rfl

/-- Erasing what was written on a blank. -/
theorem erase_put (h : t.cells t.row t.col = blank) (x : α) : (t.put x).erase blank = t := by
  have hcells : ((t.store t.col x).store t.col blank).cells = t.cells := by
    funext r c
    have hrow : (t.store t.col x).row = t.row := rfl
    rw [store_cells, store_cells, hrow]
    by_cases hcell : r = t.row ∧ c = t.col
    · rw [if_pos hcell, hcell.1, hcell.2, h]
    · rw [if_neg hcell, if_neg hcell]
  have herase : (t.put x).erase blank =
      ⟨((t.store t.col x).store t.col blank).cells, t.row, t.col⟩ := if_pos (Nat.succ_pos _)
  rw [herase, hcells]

/-- Writes go to the cursor's row. -/
theorem BlankFrom.store (h : t.BlankFrom n blank) (hrow : t.row < n) (col : Nat) (x : α) :
    (t.store col x).BlankFrom n blank := by
  intro r hr c
  rw [store_cells, if_neg fun hcell => Nat.ne_of_gt (Nat.lt_of_lt_of_le hrow hr) hcell.1]
  exact h r hr c

end Terminal

end KyroKernel.Foundations
