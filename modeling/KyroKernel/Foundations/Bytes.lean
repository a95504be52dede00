import KyroKernel.Foundations.CString

/-!
# Bytes one after the other

Lists of bytes from an address on: stored, read, and strings with the NUL behind them. Addresses
are taken modulo 2^32, so a block of at most 2^32 bytes has no address twice.
-/

namespace KyroKernel.Foundations.Mem

/-- Store the bytes from `p` on. -/
def store (m : Mem) (p : Word) : List Byte → Mem
  | [] => m
  | c :: l => store (m.write8 p c) (p + 1) l

/-- The `k` bytes from `p` on. -/
def bytes (m : Mem) (p : Word) (k : Nat) : List Byte :=
  (List.range k).map fun i => m (p + BitVec.ofNat 32 i)

/-- The characters from `p` on, and a NUL after them. -/
def HasString (m : Mem) (p : Word) : List Byte → Prop
  | [] => m p = 0
  | c :: s => m p = c ∧ HasString m (p + 1) s

/-- `a` is none of the `k` addresses from `p` on. -/
def Outside (a p : Word) (k : Nat) : Prop := ∀ i < k, a ≠ p + BitVec.ofNat 32 i

instance (a p : Word) (k : Nat) : Decidable (Outside a p k) :=
  inferInstanceAs (Decidable (∀ i < k, a ≠ p + BitVec.ofNat 32 i))

variable {m m' : Mem} {a p : Word} {c : Byte} {l l' s : List Byte} {i j k : Nat}

/-! ## Addresses -/

theorem addr_succ (p : Word) (i : Nat) :
    p + BitVec.ofNat 32 (i + 1) = p + 1 + BitVec.ofNat 32 i := by
  rw [Nat.add_comm, BitVec.ofNat_add, BitVec.add_assoc]
  rfl

theorem addr_add_one (p : Word) (i : Nat) :
    p + BitVec.ofNat 32 (i + 1) = p + BitVec.ofNat 32 i + 1 := by
  rw [BitVec.ofNat_add, ← BitVec.add_assoc]
  rfl

theorem addr_zero (p : Word) : p + BitVec.ofNat 32 0 = p := by simp

/-- Fewer than 2^32 bytes apart, different offsets are different addresses. -/
theorem eq_of_add_eq (hi : i < 2 ^ 32) (hj : j < 2 ^ 32)
    (h : p + BitVec.ofNat 32 i = p + BitVec.ofNat 32 j) : i = j := by
  have heq := congrArg BitVec.toNat ((BitVec.add_right_inj p).mp h)
  rw [BitVec.toNat_ofNat, BitVec.toNat_ofNat, Nat.mod_eq_of_lt hi, Nat.mod_eq_of_lt hj] at heq
  exact heq

theorem toNat_add_of_lt (h : p.toNat + i < 2 ^ 32) :
    (p + BitVec.ofNat 32 i).toNat = p.toNat + i := by
  rw [BitVec.toNat_add, BitVec.toNat_ofNat, Nat.add_mod_mod, Nat.mod_eq_of_lt h]

theorem Outside.tail (h : Outside a p (k + 1)) : Outside a (p + 1) k := by
  intro i hi
  rw [← addr_succ]
  exact h (i + 1) (Nat.succ_lt_succ hi)

theorem Outside.head (h : Outside a p (k + 1)) : a ≠ p := by
  have h0 := h 0 (Nat.zero_lt_succ k)
  rwa [addr_zero] at h0

theorem Outside.mono (h : Outside a p k) (hj : j ≤ k) : Outside a p j :=
  fun i hi => h i (Nat.lt_of_lt_of_le hi hj)

theorem outside_succ (hk : k < 2 ^ 32) : Outside p (p + 1) k := by
  intro i hi h
  rw [← addr_succ] at h
  have h0 := eq_of_add_eq (by omega) (by omega) ((addr_zero p).trans h)
  cases h0

/-! ## Stored bytes -/

theorem store_append (m : Mem) (p : Word) (l l' : List Byte) :
    m.store p (l ++ l') = (m.store p l).store (p + BitVec.ofNat 32 l.length) l' := by
  induction l generalizing m p with
  | nil =>
    rw [List.length_nil, addr_zero]
    rfl
  | cons c l ih =>
    rw [List.length_cons, addr_succ]
    exact ih (m.write8 p c) (p + 1)

/-- What is not overwritten is kept. -/
theorem store_of_outside (h : Outside a p l.length) : m.store p l a = m a := by
  induction l generalizing m p with
  | nil => rfl
  | cons c l ih =>
    rw [store, ih h.tail]
    exact write8_of_ne h.head

/-- What is stored is there, unless it was overwritten after a turn through the memory. -/
theorem store_apply (hi : i < l.length) (hl : l.length ≤ 2 ^ 32) :
    m.store p l (p + BitVec.ofNat 32 i) = l[i] := by
  induction l generalizing m p i with
  | nil => exact absurd hi (Nat.not_lt_zero _)
  | cons c l ih =>
    simp only [List.length_cons] at hi hl
    cases i with
    | zero =>
      rw [addr_zero, store, store_of_outside (outside_succ (by omega))]
      exact write8_self ..
    | succ i =>
      rw [addr_succ]
      exact ih (Nat.lt_of_succ_lt_succ hi) (Nat.le_of_succ_le hl)

/-- The bytes from `p` on after a store there. -/
theorem bytes_store (hl : l.length ≤ k) (hk : k ≤ 2 ^ 32) :
    (m.store p l).bytes p k = l ++ (m.bytes p k).drop l.length := by
  apply List.ext_getElem
  · simp [bytes]
    omega
  · intro i hi _
    have hik : i < k := by simpa [bytes] using hi
    simp only [bytes, List.getElem_map, List.getElem_range]
    by_cases hin : i < l.length
    · rw [List.getElem_append_left hin]
      exact store_apply hin (Nat.le_trans hl hk)
    · have hout : Outside (p + BitVec.ofNat 32 i) p l.length := by
        intro j hj h
        have := eq_of_add_eq (by omega) (by omega) h
        omega
      rw [List.getElem_append_right (Nat.not_lt.mp hin), store_of_outside hout]
      simp only [List.getElem_drop, List.getElem_map, List.getElem_range]
      rw [Nat.add_sub_cancel' (Nat.not_lt.mp hin)]

/-! ## Strings -/

/-- A string is read character by character, and its NUL after them. -/
theorem HasString.apply (h : m.HasString p s) (hi : i ≤ s.length) :
    m (p + BitVec.ofNat 32 i) = s.getD i 0 := by
  induction s generalizing p i with
  | nil =>
    obtain rfl := Nat.le_zero.mp hi
    rw [addr_zero]
    exact h
  | cons c s ih =>
    cases i with
    | zero =>
      rw [addr_zero]
      exact h.1
    | succ i =>
      rw [addr_succ]
      exact ih h.2 (Nat.le_of_succ_le_succ hi)

/-- Characters stored with a NUL behind them are a string. -/
theorem hasString_store (hs : s.length < 2 ^ 32) : (m.store p (s ++ [0])).HasString p s := by
  induction s generalizing m p with
  | nil => exact write8_self ..
  | cons c s ih =>
    have hlt : s.length < 2 ^ 32 := Nat.lt_of_succ_lt hs
    refine ⟨?_, ih hlt⟩
    -- The first character is not overwritten by the others.
    have hout : Outside p (p + 1) (s ++ [0]).length := by
      rw [List.length_append]
      exact outside_succ hs
    rw [List.cons_append, store, store_of_outside hout]
    exact write8_self ..

/-- To store a string where it is changes nothing. -/
theorem HasString.store_self (h : m.HasString p s) : m.store p s = m := by
  induction s generalizing p with
  | nil => rfl
  | cons c s ih =>
    have hsame : m.write8 p c = m := by
      rw [← h.1]
      exact Function.update_eq_self p m
    rw [store, hsame]
    exact ih h.2

end KyroKernel.Foundations.Mem
