import KyroKernel.Foundations.Bytes
import KyroKernel.Utils.Strings

/-!
# Copying strings in memory

`strncpy` of `kernel/utils/string.c` with its pointers. The copy of the NUL of a string that is
shorter than `n` moves `dest` on, but it ends the first loop before `n--`: the second loop then
writes one NUL too many, behind the `n` bytes. When `dest` points into the string, the first loop
comes to read characters that it has written.
-/

namespace KyroKernel

open Foundations Foundations.Mem

namespace InMemory

/-- `while (n && (*dest++ = *src++)) n--;`: the memory, `dest` and `n` after it. -/
def copyChars (m : Mem) (dest src : Word) : Nat → Mem × Word × Nat
  | 0 => (m, dest, 0)
  | n + 1 =>
    let c := m src
    let m := m.write8 dest c
    if c = 0 then (m, dest + 1, n + 1) else copyChars m (dest + 1) (src + 1) n

/-- `while (n--) *dest++ = '\0';` -/
def padNuls (m : Mem) (dest : Word) : Nat → Mem
  | 0 => m
  | n + 1 => padNuls (m.write8 dest 0) (dest + 1) n

/-- `strncpy`: the memory it leaves and the pointer it returns. -/
def strncpy (m : Mem) (dest src n : Word) : Mem × Word :=
  let origDest := dest
  let (m, dest, n) := copyChars m dest src n.toNat
  (padNuls m dest n, origDest)

end InMemory

/-- The `n` bytes from `dest` on are the first `n` characters of `s`, with NULs behind them if
there are fewer, and no other byte has changed. -/
structure FillsExactly (m m' : Mem) (dest : Word) (n : Nat) (s : List Byte) : Prop where
  filled : ∀ i < n, m' (dest + BitVec.ofNat 32 i) = s.getD i 0
  kept : ∀ a, Outside a dest n → m' a = m a

/-- Where a character is copied over one that has not been read yet, the two are the same. -/
def Undisturbed (src : Word) (s : List Byte) (dest : Word) (n : Nat) : Prop :=
  ∀ i < n, i ≤ s.length → ∀ j < i, dest + BitVec.ofNat 32 j = src + BitVec.ofNat 32 i →
    s.getD i 0 = s.getD j 0

instance (src : Word) (s : List Byte) (dest : Word) (n : Nat) :
    Decidable (Undisturbed src s dest n) :=
  inferInstanceAs (Decidable (∀ i < n, i ≤ s.length → ∀ j < i,
    dest + BitVec.ofNat 32 j = src + BitVec.ofNat 32 i → s.getD i 0 = s.getD j 0))

/-- What the first loop can read of the string. -/
def ReadsString (m : Mem) (src : Word) (s : List Byte) (n : Nat) : Prop :=
  ∀ i < n, i ≤ s.length → m (src + BitVec.ofNat 32 i) = s.getD i 0

variable {m m' : Mem} {dest src : Word} {a : Word} {s : List Byte} {i j n k : Nat}

/-! ## The two loops -/

theorem padNuls_eq (m : Mem) (dest : Word) (n : Nat) :
    InMemory.padNuls m dest n = m.store dest (List.replicate n 0) := by
  induction n generalizing m dest with
  | zero => rfl
  | succ n ih => exact ih (m.write8 dest 0) (dest + 1)

theorem ReadsString.head {c : Byte} (h : ReadsString m src (c :: s) (n + 1)) : m src = c := by
  have h0 := h 0 (Nat.zero_lt_succ n) (Nat.zero_le _)
  rwa [addr_zero] at h0

theorem Undisturbed.tail {c : Byte} (h : Undisturbed src (c :: s) dest (n + 1)) :
    Undisturbed (src + 1) s (dest + 1) n := by
  intro i hi hlen j hj heq
  rw [← addr_succ, ← addr_succ] at heq
  exact h (i + 1) (Nat.succ_lt_succ hi) (Nat.succ_le_succ hlen) (j + 1) (Nat.succ_lt_succ hj) heq

/-- The rest of the string is still there after its first character was copied. -/
theorem Undisturbed.rest {c : Byte} (h : Undisturbed src (c :: s) dest (n + 1))
    (hs : ReadsString m src (c :: s) (n + 1)) : ReadsString (m.write8 dest c) (src + 1) s n := by
  intro i hi hlen
  rw [← addr_succ]
  by_cases heq : dest = src + BitVec.ofNat 32 (i + 1)
  · -- The character was copied over one like it.
    have hsame := h (i + 1) (Nat.succ_lt_succ hi) (Nat.succ_le_succ hlen) 0 (Nat.zero_lt_succ i)
      ((addr_zero dest).trans heq)
    rw [← heq]
    exact (write8_self ..).trans hsame.symm
  · rw [write8_of_ne (Ne.symm heq)]
    exact hs (i + 1) (Nat.succ_lt_succ hi) (Nat.succ_le_succ hlen)

/-- The first loop stops at `n`, -/
theorem copyChars_of_le (hnul : (0 : Byte) ∉ s) (hs : ReadsString m src s n)
    (hfree : Undisturbed src s dest n) (hlen : n ≤ s.length) :
    InMemory.copyChars m dest src n =
      (m.store dest (s.take n), dest + BitVec.ofNat 32 n, 0) := by
  induction n generalizing m dest src s with
  | zero =>
    rw [addr_zero]
    rfl
  | succ n ih =>
    cases s with
    | nil => exact absurd hlen (Nat.not_succ_le_zero n)
    | cons c s =>
      obtain ⟨hne, hnul'⟩ := List.ne_and_not_mem_of_not_mem_cons hnul
      rw [InMemory.copyChars]
      simp only [hs.head]
      rw [if_neg (Ne.symm hne), ih hnul' (hfree.rest hs) hfree.tail (Nat.le_of_succ_le_succ hlen),
        addr_succ]
      rfl

/-- or with the NUL of a shorter string, which it does not count. -/
theorem copyChars_of_lt (hnul : (0 : Byte) ∉ s) (hs : ReadsString m src s n)
    (hfree : Undisturbed src s dest n) (hlen : s.length < n) :
    InMemory.copyChars m dest src n =
      (m.store dest (s ++ [0]), dest + BitVec.ofNat 32 (s.length + 1), n - s.length) := by
  induction n generalizing m dest src s with
  | zero => exact absurd hlen (Nat.not_lt_zero _)
  | succ n ih =>
    cases s with
    | nil =>
      have h0 := hs 0 (Nat.zero_lt_succ n) (Nat.le_refl _)
      rw [addr_zero, List.getD_nil] at h0
      rw [InMemory.copyChars]
      simp only [h0]
      rfl
    | cons c s =>
      obtain ⟨hne, hnul'⟩ := List.ne_and_not_mem_of_not_mem_cons hnul
      rw [InMemory.copyChars]
      simp only [hs.head]
      rw [if_neg (Ne.symm hne), ih hnul' (hfree.rest hs) hfree.tail (Nat.lt_of_succ_lt_succ hlen),
        List.length_cons, addr_succ dest (s.length + 1), Nat.succ_sub_succ]
      rfl

/-! ## What is stored -/

/-- What `strncpy` writes: `n` bytes, or `n + 1` when the string is shorter. -/
def copiedBytes (s : List Byte) (n : Nat) : List Byte :=
  if n ≤ s.length then s.take n else s ++ List.replicate (n - s.length + 1) 0

theorem length_copiedBytes (s : List Byte) (n : Nat) :
    (copiedBytes s n).length = if n ≤ s.length then n else n + 1 := by
  unfold copiedBytes
  split
  · simp [*]
  · simp only [List.length_append, List.length_replicate]
    omega

theorem strncpy_eq {n : Word} (hnul : (0 : Byte) ∉ s) (hs : ReadsString m src s n.toNat)
    (hfree : Undisturbed src s dest n.toNat) :
    InMemory.strncpy m dest src n = (m.store dest (copiedBytes s n.toNat), dest) := by
  unfold InMemory.strncpy copiedBytes
  by_cases hlen : n.toNat ≤ s.length
  · rw [copyChars_of_le hnul hs hfree hlen, if_pos hlen]
    rfl
  · have hlt := Nat.not_le.mp hlen
    -- The NUL of the string and the NULs of the second loop.
    have hnuls : s ++ List.replicate (n.toNat - s.length + 1) 0 =
        (s ++ [0]) ++ List.replicate (n.toNat - s.length) 0 := by
      simp [List.replicate_succ]
    rw [copyChars_of_lt hnul hs hfree hlt, if_neg hlen, hnuls, store_append m dest (s ++ [0]),
      List.length_append, List.length_singleton]
    simp only [padNuls_eq]

/-- On the bytes from `dest` on, it is the copy into a field. -/
theorem bytes_strncpy {n : Word} (hnul : (0 : Byte) ∉ s) (hs : ReadsString m src s n.toNat)
    (hfree : Undisturbed src s dest n.toNat) (hk : n.toNat < k) (hk' : k ≤ 2 ^ 32) :
    (InMemory.strncpy m dest src n).1.bytes dest k = strncpy (m.bytes dest k) s n.toNat := by
  have hroom : n.toNat ≤ (m.bytes dest k).length := by
    simp only [Mem.bytes, List.length_map, List.length_range]
    omega
  have hlength := length_copiedBytes s n.toNat
  rw [strncpy_eq hnul hs hfree]
  simp only
  rw [bytes_store (by split at hlength <;> omega) hk', hlength]
  unfold copiedBytes
  by_cases hlen : n.toNat ≤ s.length
  · rw [if_pos hlen, if_pos hlen, strncpy_of_le hnul hlen hroom]
  · rw [if_neg hlen, if_neg hlen, strncpy_of_lt hnul (Nat.not_le.mp hlen) hroom]

theorem getElem_copiedBytes {i : Nat} (hi : i < n) (h : i < (copiedBytes s n).length) :
    (copiedBytes s n)[i] = s.getD i 0 := by
  unfold copiedBytes at h ⊢
  split
  · next hlen => simp [List.getD_eq_getElem?_getD, Nat.lt_of_lt_of_le hi hlen]
  · by_cases hin : i < s.length
    · simp [List.getElem_append_left hin, List.getD_eq_getElem?_getD, hin]
    · simp [List.getElem_append_right (Nat.not_lt.mp hin), List.getD_eq_getElem?_getD, hin]

/-- The last of `n + 1` bytes is a NUL. -/
theorem getElem_copiedBytes_last (hlen : s.length < n) (h : n < (copiedBytes s n).length) :
    (copiedBytes s n)[n] = 0 := by
  unfold copiedBytes at h ⊢
  simp [Nat.not_le.mpr hlen, List.getElem_append_right (Nat.le_of_lt hlen)]

/-- Storing the bytes fills the `n` bytes, and no other byte changes unless there are `n + 1` and
the one behind was not a NUL. -/
theorem fillsExactly_store_iff (hn : n < 2 ^ 32) :
    FillsExactly m (m.store dest (copiedBytes s n)) dest n s ↔
      n ≤ s.length ∨ m (dest + BitVec.ofNat 32 n) = 0 := by
  have hlength := length_copiedBytes s n
  constructor
  · intro h
    by_cases hlen : n ≤ s.length
    · exact .inl hlen
    · -- The byte behind the `n` bytes is written, and it is as before.
      right
      rw [if_neg hlen] at hlength
      have hlast : n < (copiedBytes s n).length := by omega
      have hout : Outside (dest + BitVec.ofNat 32 n) dest n := fun i hi heq =>
        absurd (eq_of_add_eq hn (by omega) heq) (Nat.ne_of_gt hi)
      rw [← h.kept _ hout, store_apply hlast (by omega),
        getElem_copiedBytes_last (Nat.not_le.mp hlen)]
  · intro hcase
    constructor
    · intro i hi
      have hi' : i < (copiedBytes s n).length := by split at hlength <;> omega
      rw [store_apply hi' (by split at hlength <;> omega), getElem_copiedBytes hi]
    · intro a hout
      by_cases hlen : n ≤ s.length
      · rw [if_pos hlen] at hlength
        exact store_of_outside (by rw [hlength]; exact hout)
      · rw [if_neg hlen] at hlength
        by_cases hlast : a = dest + BitVec.ofNat 32 n
        · -- A NUL over a NUL.
          subst hlast
          rw [store_apply (by omega) (by omega), getElem_copiedBytes_last (Nat.not_le.mp hlen)]
          exact (hcase.resolve_left hlen).symm
        · apply store_of_outside
          rw [hlength]
          intro i hi heq
          rcases Nat.lt_succ_iff_lt_or_eq.mp hi with hlt | rfl
          · exact hout i hlt heq
          · exact hlast heq

/-! ## A string that the copy runs into -/

/-- The two loops together, from any place in the string on. -/
def copyAndPad (m : Mem) (dest src : Word) (n : Nat) : Mem :=
  InMemory.padNuls (InMemory.copyChars m dest src n).1 (InMemory.copyChars m dest src n).2.1
    (InMemory.copyChars m dest src n).2.2

theorem copyAndPad_nul (h : m src = 0) :
    copyAndPad m dest src (n + 1) = (m.write8 dest 0).store (dest + 1) (List.replicate (n + 1) 0) := by
  unfold copyAndPad
  rw [InMemory.copyChars]
  simp only [h]
  exact padNuls_eq _ _ _

theorem copyAndPad_char (h : m src ≠ 0) :
    copyAndPad m dest src (n + 1) = copyAndPad (m.write8 dest (m src)) (dest + 1) (src + 1) n := by
  unfold copyAndPad
  rw [InMemory.copyChars]
  simp only [if_neg h]

/-- At most `n + 1` bytes are written. -/
theorem copyAndPad_of_outside (h : Outside a dest (n + 1)) : copyAndPad m dest src n a = m a := by
  induction n generalizing m dest src with
  | zero => rfl
  | succ n ih =>
    by_cases hnul : m src = 0
    · have hout : Outside a (dest + 1) (List.replicate (n + 1) (0 : Byte)).length := by
        rw [List.length_replicate]
        exact h.tail
      rw [copyAndPad_nul hnul, store_of_outside hout]
      exact write8_of_ne h.head
    · rw [copyAndPad_char hnul, ih h.tail]
      exact write8_of_ne h.head

/-- The first byte is written once. -/
theorem copyAndPad_head (hn : n + 1 < 2 ^ 32) : copyAndPad m dest src (n + 1) dest = m src := by
  have hout : Outside dest (dest + 1) (n + 1) := outside_succ hn
  by_cases hnul : m src = 0
  · rw [copyAndPad_nul hnul, store_of_outside (by rwa [List.length_replicate]), hnul]
    exact write8_self ..
  · rw [copyAndPad_char hnul, copyAndPad_of_outside hout]
    exact write8_self ..

/-- When the loop has not ended after its first rounds, what is left of it has not either. -/
theorem copyAndPad_rest (hn : n + 1 < 2 ^ 32)
    (hchars : ∀ k < i + 1, copyAndPad m dest src (n + 1) (dest + BitVec.ofNat 32 k) ≠ 0) :
    m src ≠ 0 ∧ ∀ k < i, copyAndPad (m.write8 dest (m src)) (dest + 1) (src + 1) n
      (dest + 1 + BitVec.ofNat 32 k) ≠ 0 := by
  have hnul : m src ≠ 0 := by
    have h0 := hchars 0 (Nat.zero_lt_succ i)
    rwa [addr_zero, copyAndPad_head hn] at h0
  refine ⟨hnul, fun k hk => ?_⟩
  rw [← addr_succ, ← copyAndPad_char hnul]
  exact hchars (k + 1) (Nat.succ_lt_succ hk)

/-- A byte of the source that has not been overwritten when it is read, -/
theorem copyAndPad_of_unwritten (hi : i < n) (hn : n < 2 ^ 32)
    (hsrc : Outside (src + BitVec.ofNat 32 i) dest i)
    (hchars : ∀ k < i, copyAndPad m dest src n (dest + BitVec.ofNat 32 k) ≠ 0) :
    copyAndPad m dest src n (dest + BitVec.ofNat 32 i) = m (src + BitVec.ofNat 32 i) := by
  induction i generalizing m dest src n with
  | zero =>
    obtain ⟨n, rfl⟩ := Nat.exists_eq_succ_of_ne_zero (Nat.ne_of_gt hi)
    rw [addr_zero, addr_zero]
    exact copyAndPad_head hn
  | succ i ih =>
    obtain ⟨n, rfl⟩ := Nat.exists_eq_succ_of_ne_zero (Nat.ne_of_gt (Nat.zero_lt_of_lt hi))
    obtain ⟨hnul, hrest⟩ := copyAndPad_rest hn hchars
    have hsrc' := hsrc.tail
    rw [addr_succ] at hsrc'
    rw [copyAndPad_char hnul, addr_succ, addr_succ,
      ih (Nat.lt_of_succ_lt_succ hi) (Nat.lt_of_succ_lt hn) hsrc' hrest, ← addr_succ,
      write8_of_ne hsrc.head]

/-- and one that has: it is copied once more. -/
theorem copyAndPad_of_written (hi : i < n) (hn : n < 2 ^ 32) (hj : j < i)
    (hsrc : dest + BitVec.ofNat 32 j = src + BitVec.ofNat 32 i)
    (hchars : ∀ k < i, copyAndPad m dest src n (dest + BitVec.ofNat 32 k) ≠ 0) :
    copyAndPad m dest src n (dest + BitVec.ofNat 32 i) =
      copyAndPad m dest src n (dest + BitVec.ofNat 32 j) := by
  induction j generalizing m dest src n i with
  | zero =>
    -- The first byte written is read again after `i` rounds.
    obtain ⟨n, rfl⟩ := Nat.exists_eq_succ_of_ne_zero (Nat.ne_of_gt (Nat.zero_lt_of_lt hi))
    obtain ⟨i, rfl⟩ := Nat.exists_eq_succ_of_ne_zero (Nat.ne_of_gt hj)
    obtain ⟨hnul, hrest⟩ := copyAndPad_rest hn hchars
    rw [addr_zero, addr_succ] at hsrc
    have hout : Outside (src + 1 + BitVec.ofNat 32 i) (dest + 1) i := by
      rw [← hsrc]
      exact outside_succ (by omega)
    rw [addr_zero, copyAndPad_head hn, copyAndPad_char hnul, addr_succ,
      copyAndPad_of_unwritten (Nat.lt_of_succ_lt_succ hi) (Nat.lt_of_succ_lt hn) hout hrest, ← hsrc]
    exact write8_self ..
  | succ j ih =>
    obtain ⟨n, rfl⟩ := Nat.exists_eq_succ_of_ne_zero (Nat.ne_of_gt (Nat.zero_lt_of_lt hi))
    obtain ⟨i, rfl⟩ := Nat.exists_eq_succ_of_ne_zero (Nat.ne_of_gt (Nat.zero_lt_of_lt hj))
    obtain ⟨hnul, hrest⟩ := copyAndPad_rest hn hchars
    rw [addr_succ, addr_succ] at hsrc
    rw [copyAndPad_char hnul, addr_succ, addr_succ]
    exact ih (Nat.lt_of_succ_lt_succ hi) (Nat.lt_of_succ_lt hn) (Nat.lt_of_succ_lt_succ hj) hsrc
      hrest

/-- A destination that ends up as it should has not disturbed the string before it was read. -/
theorem FillsExactly.undisturbed {n : Word} (hnul : (0 : Byte) ∉ s)
    (h : FillsExactly m (InMemory.strncpy m dest src n).1 dest n.toNat s) :
    Undisturbed src s dest n.toNat := by
  intro i hi hlen j hj heq
  have hfilled : ∀ k < n.toNat, copyAndPad m dest src n.toNat (dest + BitVec.ofNat 32 k) =
      s.getD k 0 := h.filled
  -- The bytes before are characters of the string, so the loop has not ended.
  have hchars : ∀ k < i, copyAndPad m dest src n.toNat (dest + BitVec.ofNat 32 k) ≠ 0 := by
    intro k hk hzero
    have hlt : k < s.length := Nat.lt_of_lt_of_le hk hlen
    rw [hfilled k (Nat.lt_trans hk hi), List.getD_eq_getElem?_getD, List.getElem?_eq_getElem hlt,
      Option.getD_some] at hzero
    exact hnul (hzero ▸ List.getElem_mem hlt)
  rw [← hfilled i hi, ← hfilled j (Nat.lt_trans hj hi)]
  exact copyAndPad_of_written hi n.isLt hj heq hchars

/-- `strncpy` writes exactly its `n` bytes when the string has that many characters, or when the
byte behind them is a NUL already; and when it has not disturbed the string before it was read. -/
theorem strncpy_fillsExactly_iff {n : Word} (s : CString) (hs : m.HasString src s.toList) :
    FillsExactly m (InMemory.strncpy m dest src n).1 dest n.toNat s.toList ↔
      Undisturbed src s.toList dest n.toNat ∧ (n.toNat ≤ s.toList.length ∨ m (dest + n) = 0) := by
  have hholds : ReadsString m src s.toList n.toNat := fun i _ hlen => hs.apply hlen
  constructor
  · intro h
    have hfree := h.undisturbed s.nul_free
    rw [strncpy_eq s.nul_free hholds hfree, fillsExactly_store_iff n.isLt, BitVec.ofNat_toNat,
      BitVec.setWidth_eq] at h
    exact ⟨hfree, h⟩
  · rintro ⟨hfree, hcase⟩
    rw [strncpy_eq s.nul_free hholds hfree, fillsExactly_store_iff n.isLt, BitVec.ofNat_toNat,
      BitVec.setWidth_eq]
    exact hcase

/-- The string `a` at `0x1000`, in a memory that is `0xFF` elsewhere. -/
def stringMemory : Mem := fun a => if a = 0x1000 then ascii 'a' else if a = 0x1001 then 0 else 0xFF

theorem hasString_stringMemory : stringMemory.HasString 0x1000 (chars "a") := ⟨rfl, rfl⟩

/-- `strncpy` of one character. -/
theorem strncpy_fillsExactly_iff_one :
    FillsExactly stringMemory (InMemory.strncpy stringMemory 0x2000 0x1000 1).1 0x2000
        (1 : Word).toNat (chars "a") ↔
      Undisturbed 0x1000 (chars "a") 0x2000 (1 : Word).toNat ∧
        ((1 : Word).toNat ≤ (chars "a").length ∨ stringMemory (0x2000 + 1) = 0) :=
  strncpy_fillsExactly_iff ⟨chars "a", by decide⟩ hasString_stringMemory

/-- The string `a` into two bytes: the third byte becomes 0 too. -/
theorem not_forall_strncpy_fillsExactly :
    ¬ ∀ (m : Mem) (dest src n : Word) (s : CString), m.HasString src s.toList →
      FillsExactly m (InMemory.strncpy m dest src n).1 dest n.toNat s.toList := by
  intro hall
  have hholds : ReadsString stringMemory 0x1000 (chars "a") (2 : Word).toNat :=
    fun i _ hlen => hasString_stringMemory.apply hlen
  have hfree : Undisturbed 0x1000 (chars "a") 0x2000 (2 : Word).toNat := by decide
  have h := hall stringMemory 0x2000 0x1000 2 ⟨chars "a", by decide⟩ hasString_stringMemory
  rw [strncpy_eq (by decide) hholds hfree] at h
  rcases (fillsExactly_store_iff (by decide)).mp h with hlen | hnul
  · exact absurd hlen (by decide)
  · exact absurd hnul (by decide)

end KyroKernel
