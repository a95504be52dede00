import KyroKernel.Foundations.CString
import KyroKernel.Foundations.Bytes
import KyroKernel.Foundations.Loop
import Mathlib.Order.Bounds.Basic

/-!
# Loads that can fail

A memory of which only some bytes can be read. A loop that returns has loaded no other byte, so a
result about every memory that holds a string says that no byte behind the NUL is loaded. What a
search returns is a pointer to the first or the last of some positions, NULL when there are none.
-/

namespace KyroKernel.Foundations

universe u

/-! ## Loops -/

/-- `while (cond(x)) x = body(x);` with a condition that loads bytes, `none` when a load fails or
the fuel runs out first. -/
def whileLoads {α : Type u} (cond : α → Option Bool) (body : α → α) : Nat → α → Option α
  | 0, _ => none
  | fuel + 1, x =>
    match cond x with
    | none => none
    | some false => some x
    | some true => whileLoads cond body fuel (body x)

section whileLoads

variable {α : Type u} {cond : α → Option Bool} {body : α → α} {x : α}

theorem whileLoads_stop (h : cond x = some false) (fuel : Nat) :
    whileLoads cond body (fuel + 1) x = some x := by
  rw [whileLoads, h]

theorem whileLoads_next (h : cond x = some true) (fuel : Nat) :
    whileLoads cond body (fuel + 1) x = whileLoads cond body fuel (body x) := by
  rw [whileLoads, h]

end whileLoads

/-! ## Strings -/

/-- A memory; the load of a `none` fails. -/
abbrev PartialMem := Word → Option Byte

namespace PartialMem

/-- The characters from `p` on, and a NUL after them. -/
def HasString (m : PartialMem) (p : Word) : List Byte → Prop
  | [] => m p = some 0
  | c :: s => m p = some c ∧ HasString m (p + 1) s

/-- The first `n` bytes of a string from `p` on, the NUL included. -/
def HasChars (m : PartialMem) (p : Word) : List Byte → Nat → Prop
  | _, 0 => True
  | [], _ + 1 => m p = some 0
  | c :: s, n + 1 => m p = some c ∧ HasChars m (p + 1) s n

/-- The bytes from `p` on. -/
def HasBytes (m : PartialMem) (p : Word) : List Byte → Prop
  | [] => True
  | c :: l => m p = some c ∧ HasBytes m (p + 1) l

variable {m : PartialMem} {p : Word} {c : Byte} {s : List Byte} {i n : Nat}

/-- The first byte of a string is its NUL when the string is empty. -/
theorem HasString.load (h : m.HasString p s) : m p = some (s.headD 0) := by
  cases s with
  | nil => exact h
  | cons c s => exact h.1

theorem HasChars.load (h : m.HasChars p s (n + 1)) : m p = some (s.headD 0) := by
  cases s with
  | nil => exact h
  | cons c s => exact h.1

/-- Behind a character that is not the NUL, the string goes on. -/
theorem HasString.tail (h : m.HasString p s) (hne : s.headD 0 ≠ 0) :
    m.HasString (p + 1) s.tail := by
  cases s with
  | nil => exact absurd rfl hne
  | cons c s => exact h.2

theorem HasChars.tail (h : m.HasChars p s (n + 1)) (hne : s.headD 0 ≠ 0) :
    m.HasChars (p + 1) s.tail n := by
  cases s with
  | nil => exact absurd rfl hne
  | cons c s => exact h.2

/-- A string at an offset, to begin with, -/
theorem HasString.at_zero (h : m.HasString p s) : m.HasString (p + BitVec.ofNat 32 0) s := by
  rw [Mem.addr_zero]
  exact h

/-- and the rest of it at the next one. -/
theorem HasString.at_succ (h : m.HasString (p + BitVec.ofNat 32 i) (c :: s)) :
    m.HasString (p + BitVec.ofNat 32 (i + 1)) s := by
  rw [Mem.addr_add_one]
  exact h.2

/-- A string has its first `n` bytes. -/
theorem HasString.hasChars (h : m.HasString p s) (n : Nat) : m.HasChars p s n := by
  induction s generalizing p n with
  | nil =>
    cases n with
    | zero => trivial
    | succ n => exact h
  | cons c s ih =>
    cases n with
    | zero => trivial
    | succ n => exact ⟨h.1, ih h.2 n⟩

end PartialMem

/-! ## Positions -/

/-- A pointer to the first of the positions from `p` on, NULL when there are none. -/
structure PointsToFirst (p : Word) (positions : Set Nat) (r : Option Word) : Prop where
  null_iff : r = none ↔ positions = ∅
  first : ∀ i, IsLeast positions i → r = some (p + BitVec.ofNat 32 i)

/-- A pointer to the last of the positions from `p` on, NULL when there are none. -/
structure PointsToLast (p : Word) (positions : Set Nat) (r : Option Word) : Prop where
  null_iff : r = none ↔ positions = ∅
  last : ∀ i, IsGreatest positions i → r = some (p + BitVec.ofNat 32 i)

variable {p : Word} {positions : Set Nat} {k : Nat}

/-- A search that has passed an offset goes on behind it. -/
theorem succ_le_of_notMem (hbefore : ∀ i ∈ positions, k ≤ i) (hk : k ∉ positions) :
    ∀ i ∈ positions, k + 1 ≤ i := by
  intro i hi
  apply Nat.lt_of_le_of_ne (hbefore i hi)
  rintro rfl
  exact hk hi

theorem pointsToFirst_of_isLeast (h : IsLeast positions k) :
    PointsToFirst p positions (some (p + BitVec.ofNat 32 k)) := by
  refine ⟨iff_of_false (Option.some_ne_none _) (Set.Nonempty.ne_empty ⟨k, h.1⟩), fun i hi => ?_⟩
  rw [hi.unique h]

theorem pointsToLast_of_isGreatest (h : IsGreatest positions k) :
    PointsToLast p positions (some (p + BitVec.ofNat 32 k)) := by
  refine ⟨iff_of_false (Option.some_ne_none _) (Set.Nonempty.ne_empty ⟨k, h.1⟩), fun i hi => ?_⟩
  rw [hi.unique h]

theorem pointsToFirst_empty (p : Word) : PointsToFirst p ∅ none :=
  ⟨iff_of_true rfl rfl, fun i hi => absurd hi.1 (Set.notMem_empty i)⟩

theorem pointsToLast_empty (p : Word) : PointsToLast p ∅ none :=
  ⟨iff_of_true rfl rfl, fun i hi => absurd hi.1 (Set.notMem_empty i)⟩

end KyroKernel.Foundations
