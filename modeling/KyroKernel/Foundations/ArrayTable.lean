import Mathlib.Data.List.Lookmap
import Mathlib.Tactic.Common
import Mathlib.Logic.Function.Basic

/-!
# Tables in arrays

An array of records of which the first `n` are in use, as C programs keep them: a search from the
front, removal by shifting the later records down, appending at the end. Each is a list
operation on the records in use.
-/

namespace KyroKernel.Foundations

universe u

variable {α : Type u}

/-- The `n` records from index `lo` on. -/
def rowsFrom (rows : Int → α) : Int → Nat → List α
  | _, 0 => []
  | lo, n + 1 => rows lo :: rowsFrom rows (lo + 1) n

/-- The records in use. -/
def tableList (rows : Int → α) (n : Nat) : List α := rowsFrom rows 0 n

/-- `for (i = lo; …; i++) if (p(rows[i])) return i;`, `n` rounds. -/
def findRow (p : α → Bool) (rows : Int → α) : Int → Nat → Option Int
  | _, 0 => none
  | i, n + 1 => if p (rows i) then some i else findRow p rows (i + 1) n

/-- `for (j = lo; …; j++) rows[j] = rows[j + 1];`, `n` rounds. -/
def shiftRows : (Int → α) → Int → Nat → Int → α
  | rows, _, 0 => rows
  | rows, j, n + 1 => shiftRows (Function.update rows j (rows (j + 1))) (j + 1) n

/-- `for (i = lo; …; i++) print(rows[i]);`, `n` rounds. -/
def printRows {β : Type u} (print : α → List β) (rows : Int → α) : Int → Nat → List β
  | _, 0 => []
  | i, n + 1 => print (rows i) ++ printRows print rows (i + 1) n

variable {rows rows' : Int → α} {p : α → Bool} {lo i : Int} {n k : Nat}

/-- What is printed for the records, one after the other. -/
theorem printRows_eq {β : Type u} (print : α → List β) (rows : Int → α) (lo : Int) (n : Nat) :
    printRows print rows lo n = (rowsFrom rows lo n).flatMap print := by
  induction n generalizing lo with
  | zero => rfl
  | succ n ih => rw [printRows, rowsFrom, List.flatMap_cons, ih]

theorem rowsFrom_length (rows : Int → α) (lo : Int) (n : Nat) : (rowsFrom rows lo n).length = n := by
  induction n generalizing lo with
  | zero => rfl
  | succ n ih => rw [rowsFrom, List.length_cons, ih]

theorem rowsFrom_append (rows : Int → α) (lo : Int) (k n : Nat) :
    rowsFrom rows lo (k + n) = rowsFrom rows lo k ++ rowsFrom rows (lo + k) n := by
  induction k generalizing lo with
  | zero => simp [rowsFrom]
  | succ k ih =>
    have hstep : k + 1 + n = (k + n) + 1 := by omega
    have hindex : lo + 1 + (k : Int) = lo + (k + 1 : Nat) := by omega
    rw [hstep, rowsFrom, ih, rowsFrom, List.cons_append, hindex]

/-- Only the records in the range matter. -/
theorem rowsFrom_congr (h : ∀ j, lo ≤ j → j < lo + n → rows j = rows' j) :
    rowsFrom rows lo n = rowsFrom rows' lo n := by
  induction n generalizing lo with
  | zero => rfl
  | succ n ih =>
    rw [rowsFrom, rowsFrom, h lo (Int.le_refl _) (by omega)]
    congr 1
    exact ih fun j hlo hhi => h j (by omega) (by omega)

theorem mem_rowsFrom {x : α} : x ∈ rowsFrom rows lo n ↔ ∃ j, lo ≤ j ∧ j < lo + n ∧ rows j = x := by
  induction n generalizing lo with
  | zero =>
    constructor
    · intro h
      exact absurd h List.not_mem_nil
    · rintro ⟨j, hlo, hhi, -⟩
      omega
  | succ n ih =>
    rw [rowsFrom, List.mem_cons, ih]
    constructor
    · rintro (rfl | ⟨j, hlo, hhi, rfl⟩)
      · exact ⟨lo, Int.le_refl _, by omega, rfl⟩
      · exact ⟨j, by omega, by omega, rfl⟩
    · rintro ⟨j, hlo, hhi, rfl⟩
      by_cases hj : j = lo
      · exact .inl (by rw [hj])
      · exact .inr ⟨j, by omega, by omega, rfl⟩

/-- Shifting moves the records of the range down by one. -/
theorem shiftRows_apply (rows : Int → α) (lo : Int) (n : Nat) (j : Int) :
    shiftRows rows lo n j = if lo ≤ j ∧ j < lo + n then rows (j + 1) else rows j := by
  induction n generalizing rows lo with
  | zero =>
    rw [shiftRows, if_neg (by omega)]
  | succ n ih =>
    rw [shiftRows, ih]
    -- The first round has written row `lo`, which the later rounds do not touch.
    by_cases hfirst : j = lo
    · subst hfirst
      rw [if_neg (by omega), Function.update_self, if_pos (by omega)]
    · by_cases hin : lo + 1 ≤ j ∧ j < lo + 1 + n
      · rw [if_pos hin, if_pos (by omega), Function.update_of_ne (by omega)]
      · rw [if_neg hin, if_neg (by omega), Function.update_of_ne hfirst]

/-- Shifted records are the later ones. -/
theorem rowsFrom_shift (rows : Int → α) (lo : Int) (n : Nat) :
    rowsFrom (fun j => rows (j + 1)) lo n = rowsFrom rows (lo + 1) n := by
  induction n generalizing lo with
  | zero => rfl
  | succ n ih => rw [rowsFrom, rowsFrom, ih]

/-- A search that fails: no record of the range is a hit. -/
theorem findRow_none (h : findRow p rows lo n = none) : ∀ x ∈ rowsFrom rows lo n, p x = false := by
  induction n generalizing lo with
  | zero => exact fun x hx => absurd hx List.not_mem_nil
  | succ n ih =>
    rw [findRow] at h
    by_cases hp : p (rows lo) = true
    · rw [if_pos hp] at h
      cases h
    · rw [if_neg hp] at h
      exact List.forall_mem_cons.mpr ⟨Bool.eq_false_iff.mpr hp, ih h⟩

/-- A search that succeeds stops at the first hit. -/
theorem findRow_some (h : findRow p rows lo n = some i) :
    ∃ k : Nat, i = lo + k ∧ k < n ∧ p (rows i) = true ∧ ∀ x ∈ rowsFrom rows lo k, p x = false := by
  induction n generalizing lo with
  | zero => cases h
  | succ n ih =>
    rw [findRow] at h
    by_cases hp : p (rows lo) = true
    · -- A hit in the first row of the range.
      rw [if_pos hp] at h
      obtain rfl := Option.some.inj h
      exact ⟨0, by simp, Nat.zero_lt_succ _, hp, fun x hx => absurd hx List.not_mem_nil⟩
    · rw [if_neg hp] at h
      obtain ⟨k, rfl, hk, hhit, hbefore⟩ := ih h
      refine ⟨k + 1, by omega, Nat.succ_lt_succ hk, hhit, ?_⟩
      exact List.forall_mem_cons.mpr ⟨Bool.eq_false_iff.mpr hp, hbefore⟩

/-- A search succeeds if there is a hit. -/
theorem exists_findRow {x : α} (hx : x ∈ rowsFrom rows lo n) (hp : p x = true) :
    ∃ i, findRow p rows lo n = some i := by
  cases h : findRow p rows lo n with
  | some i => exact ⟨i, rfl⟩
  | none =>
    have := findRow_none h x hx
    rw [hp] at this
    cases this

/-- A search is decided by the hits and misses. -/
theorem findRow_congr (h : ∀ j, p (rows j) = p (rows' j)) (lo : Int) (n : Nat) :
    findRow p rows lo n = findRow p rows' lo n := by
  induction n generalizing lo with
  | zero => rfl
  | succ n ih => rw [findRow, findRow, h lo, ih]

/-- Row `i` is the first hit of the table, with the rows `pre` before it and `post` after it. -/
structure FirstRow (p : α → Bool) (rows : Int → α) (n : Nat) (i : Int) (pre post : List α) :
    Prop where
  list : tableList rows n = pre ++ rows i :: post
  hit : p (rows i) = true
  before : ∀ x ∈ pre, p x = false
  nonneg : 0 ≤ i
  lt : i < n
  /-- Removal by shifting. -/
  removed : ∀ m : Int, m = n - 1 → tableList (shiftRows rows i (m - i).toNat) m.toNat = pre ++ post
  /-- Changing the record. -/
  replaced : ∀ y, tableList (Function.update rows i y) n = pre ++ y :: post

/-- The search finds the first hit of the table. -/
theorem exists_firstRow (h : findRow p rows 0 n = some i) : ∃ pre post, FirstRow p rows n i pre post := by
  obtain ⟨k, hik, hk, hhit, hbefore⟩ := findRow_some h
  rw [Int.zero_add] at hik
  subst hik
  obtain ⟨m, rfl⟩ := Nat.exists_eq_add_of_lt hk
  have hsplit : ∀ rows : Int → α, tableList rows (k + m + 1) =
      rowsFrom rows 0 k ++ rows k :: rowsFrom rows (k + 1) m := by
    intro rows
    rw [tableList, Nat.add_assoc, rowsFrom_append, Int.zero_add]
    rfl
  -- The table is the rows before the hit, the hit, and the rows after it.
  refine ⟨rowsFrom rows 0 k, rowsFrom rows (k + 1) m, hsplit rows, hhit, hbefore,
    Int.natCast_nonneg _, by omega, ?_, ?_⟩
  · -- The rows after the hit come down by one, those before it stay.
    rintro m' hm'
    have hrounds : (m' - k).toNat = m := by omega
    have hleft : m'.toNat = k + m := by omega
    rw [hrounds, hleft, tableList, rowsFrom_append, Int.zero_add]
    congr 1
    · apply rowsFrom_congr
      intro j hlo hhi
      rw [shiftRows_apply, if_neg (by omega)]
    · rw [← rowsFrom_shift]
      apply rowsFrom_congr
      intro j hlo hhi
      rw [shiftRows_apply, if_pos (by omega)]
  · -- No other row changes.
    intro y
    rw [hsplit, Function.update_self]
    congr 1
    · apply rowsFrom_congr
      intro j hlo hhi
      rw [Function.update_of_ne (by omega)]
    · congr 1
      apply rowsFrom_congr
      intro j hlo hhi
      rw [Function.update_of_ne (by omega)]

/-- Appending a record after the last. -/
theorem tableList_append (rows : Int → α) (n : Nat) (x : α) :
    tableList (Function.update rows n x) (n + 1) = tableList rows n ++ [x] := by
  rw [tableList, rowsFrom_append, Int.zero_add]
  congr 1
  · apply rowsFrom_congr
    intro j hlo hhi
    rw [Function.update_of_ne (by omega)]
  · rw [rowsFrom, rowsFrom, Function.update_self]

/-! ## The list operations on the records -/

/-- `l` is split at its first hit `x`. -/
structure FirstHit (p : α → Bool) (l pre post : List α) (x : α) : Prop where
  list : l = pre ++ x :: post
  hit : p x = true
  before : ∀ y ∈ pre, p y = false

namespace FirstHit

variable {l pre post : List α} {x y : α}

theorem find?_eq (h : FirstHit p l pre post x) : l.find? p = some x := by
  have hpre : pre.find? p = none := List.find?_eq_none.mpr fun y hy => by
    rw [h.before y hy]
    exact Bool.false_ne_true
  rw [h.list, List.find?_append, hpre, List.find?_cons_of_pos h.hit]
  rfl

theorem eraseP_eq (h : FirstHit p l pre post x) : l.eraseP p = pre ++ post := by
  have hpre : ∀ y ∈ pre, ¬ p y = true := fun y hy => by
    rw [h.before y hy]
    exact Bool.false_ne_true
  rw [h.list, List.eraseP_append_right _ hpre, List.eraseP_cons_of_pos h.hit]

/-- The first hit is replaced. -/
theorem lookmap_eq (h : FirstHit p l pre post x) (f : α → α) :
    (l.lookmap fun z => if p z then some (f z) else none) = pre ++ f x :: post := by
  obtain ⟨rfl, hx, hpre⟩ := h
  induction pre with
  | nil => exact List.lookmap_cons_some _ _ (if_pos hx)
  | cons z pre ih =>
    obtain ⟨hz, hrest⟩ := List.forall_mem_cons.mp hpre
    have hnone : (if p z then some (f z) else none) = none := by
      rw [hz]
      rfl
    rw [List.cons_append, List.lookmap_cons_none _ _ hnone, ih hrest]
    rfl

/-- The split of the list of what the records stand for. -/
theorem map {β : Type u} {q : β → Bool} {f : α → β} (h : FirstHit p l pre post x)
    (hpq : ∀ z, q (f z) = p z) : FirstHit q (l.map f) (pre.map f) (post.map f) (f x) where
  list := by rw [h.list, List.map_append, List.map_cons]
  hit := (hpq x).trans h.hit
  before := by
    rw [List.forall_mem_map]
    exact fun z hz => (hpq z).trans (h.before z hz)

end FirstHit

end KyroKernel.Foundations
