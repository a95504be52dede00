import KyroKernel.Foundations.Memory

/-!
# 32-bit x86 two-level paging

The page walk of the processor with 4 KB pages, and the arithmetic of the three parts of a
virtual address: the directory index (bits 31..22), the table index (bits 21..12) and the
offset in the page (bits 11..0).
-/

namespace KyroKernel.Foundations

/-- Bits 31..22 of an address: the index of its page-directory entry. -/
abbrev dirIndex (v : Word) : Word := v >>> 22

/-- Bits 21..12 of an address: the index of its page-table entry. -/
abbrev tableIndex (v : Word) : Word := (v >>> 12) &&& 0x3FF

/-- Bits 11..0 of an address: the offset in its page. -/
abbrev pageOffset (v : Word) : Word := v &&& 0xFFF

/-- The frame address of an entry, or the page address of an address: bits 31..12. -/
abbrev frameOf (e : Word) : Word := e &&& 0xFFFFF000

/-- The present bit of an entry. -/
abbrev presentBit : Word := 0x01

/-- What the processor does with the virtual address `v` when CR3 holds `cr3`: read the
page-directory entry, then the page-table entry, and fault (`none`) when either is not
present. -/
def pageWalk (m : Mem) (cr3 v : Word) : Option Word :=
  let pde := m.read32 (frameOf cr3 + 4 * dirIndex v)
  if pde &&& presentBit = 0 then none
  else
    let pte := m.read32 (frameOf pde + 4 * tableIndex v)
    if pte &&& presentBit = 0 then none
    else some (frameOf pte ||| pageOffset v)

/-! ## The parts of an address as numbers -/

theorem toNat_dirIndex (v : Word) : (dirIndex v).toNat = v.toNat / 2 ^ 22 := by
  rw [BitVec.toNat_ushiftRight, Nat.shiftRight_eq_div_pow]

theorem dirIndex_lt (v : Word) : (dirIndex v).toNat < 1024 := by
  rw [toNat_dirIndex]
  have := v.isLt
  omega

theorem toNat_tableIndex (v : Word) : (tableIndex v).toNat = v.toNat / 2 ^ 12 % 1024 := by
  rw [BitVec.toNat_and, BitVec.toNat_ushiftRight, Nat.shiftRight_eq_div_pow,
    show (0x3FF : Word).toNat = 2 ^ 10 - 1 by rfl, Nat.and_two_pow_sub_one_eq_mod]

theorem tableIndex_lt (v : Word) : (tableIndex v).toNat < 1024 := by
  rw [toNat_tableIndex]
  omega

/-- Two addresses lie in the same 4 KB page exactly when both indices agree. -/
theorem same_page_iff (a v : Word) :
    a >>> 12 = v >>> 12 ↔ dirIndex a = dirIndex v ∧ tableIndex a = tableIndex v := by
  rw [← BitVec.toNat_inj, ← BitVec.toNat_inj, ← BitVec.toNat_inj, toNat_dirIndex, toNat_dirIndex,
    toNat_tableIndex, toNat_tableIndex, BitVec.toNat_ushiftRight, BitVec.toNat_ushiftRight,
    Nat.shiftRight_eq_div_pow, Nat.shiftRight_eq_div_pow]
  omega

/-- A mask whose set bits are those from `k` up clears the low `k` bits. -/
theorem toNat_and_highMask (e mask : Word) {k : Nat}
    (hmask : ∀ j < 32, mask.getLsbD j = decide (k ≤ j)) :
    (e &&& mask).toNat = e.toNat / 2 ^ k * 2 ^ k := by
  -- Clearing bits by a mask is shifting them out and back.
  have hshift : e &&& mask = (e >>> k) <<< k := by
    apply BitVec.eq_of_getLsbD_eq
    intro i hi
    rw [BitVec.getLsbD_and, hmask i hi, BitVec.getLsbD_shiftLeft, BitVec.getLsbD_ushiftRight]
    by_cases hk : k ≤ i
    · simp [hk, hi, Nat.not_lt.mpr hk]
    · simp [hk, Nat.lt_of_not_le hk]
  rw [hshift, BitVec.toNat_shiftLeft, BitVec.toNat_ushiftRight, Nat.shiftRight_eq_div_pow,
    Nat.shiftLeft_eq]
  -- Shifting back does not overflow: the bits came from there.
  apply Nat.mod_eq_of_lt
  exact Nat.lt_of_le_of_lt (Nat.div_mul_le_self _ _) e.isLt

/-- Masking with `0xFFFFF000` clears the low twelve bits. -/
theorem toNat_frameOf (e : Word) : (frameOf e).toNat = e.toNat / 4096 * 4096 :=
  toNat_and_highMask e _ (k := 12) (by decide)

/-- An address is its page and the offset in it. -/
theorem frameOf_or_pageOffset_self (v : Word) : frameOf v ||| pageOffset v = v := by
  rw [← BitVec.and_or_distrib_left]
  exact BitVec.and_allOnes

/-! ## Entries -/

/-- A page-aligned word is its own frame. -/
theorem frameOf_of_aligned {t : Word} (ht : t.toNat % 4096 = 0) : frameOf t = t := by
  apply BitVec.eq_of_toNat_eq
  rw [toNat_frameOf]
  omega

/-- The frame of an entry is the frame it was built from when the flags stay in the low
twelve bits. -/
theorem frameOf_entry {p f : Word} (hf : f.toNat < 4096) :
    frameOf (frameOf p ||| f) = frameOf p := by
  have h : frameOf f = 0 := by
    apply BitVec.eq_of_toNat_eq
    rw [toNat_frameOf]
    simp
    omega
  unfold frameOf at h ⊢
  rw [BitVec.and_or_distrib_right, h, BitVec.and_assoc, BitVec.and_self]
  simp

/-- The present bit of an entry is the one of its flags. -/
theorem present_entry (p f : Word) : (frameOf p ||| f) &&& presentBit = f &&& presentBit := by
  unfold frameOf
  rw [BitVec.and_or_distrib_right, BitVec.and_assoc]
  simp

/-- A page-aligned word read as an entry is not present. -/
theorem not_present_of_aligned {t : Word} (ht : t.toNat % 4096 = 0) :
    t &&& presentBit = 0 := by
  apply BitVec.eq_of_toNat_eq
  rw [BitVec.toNat_and, show presentBit.toNat = 2 ^ 1 - 1 by rfl, Nat.and_two_pow_sub_one_eq_mod]
  simp
  omega

/-! ## The entries as a value -/

/-- The user bit of an entry. -/
abbrev userBit : Word := 0x04

/-- The entries of a page directory and of its page tables, by their indices. -/
structure PageDirectory where
  pde : Word → Word
  pte : Word → Word → Word

namespace PageDirectory

/-- The entries that the processor reads when CR3 holds `cr3`. -/
def loaded (m : Mem) (cr3 : Word) : PageDirectory where
  pde i := m.read32 (frameOf cr3 + 4 * i)
  pte i j := m.read32 (frameOf (m.read32 (frameOf cr3 + 4 * i)) + 4 * j)

/-- The physical address of `v`, `none` for a page fault. -/
def translate (d : PageDirectory) (v : Word) : Option Word :=
  if d.pde (dirIndex v) &&& presentBit = 0 then none
  else if d.pte (dirIndex v) (tableIndex v) &&& presentBit = 0 then none
  else some (frameOf (d.pte (dirIndex v) (tableIndex v)) ||| pageOffset v)

/-- User mode reaches the page of `v`, if it is present. -/
def UserPage (d : PageDirectory) (v : Word) : Prop :=
  d.pde (dirIndex v) &&& userBit ≠ 0 ∧ d.pte (dirIndex v) (tableIndex v) &&& userBit ≠ 0

/-- The byte at the physical address `p` lies in a page that user mode reaches. -/
def UserByte (d : PageDirectory) (p : Word) : Prop :=
  ∃ v, d.translate v = some p ∧ d.UserPage v

theorem translate_loaded (m : Mem) (cr3 v : Word) :
    (loaded m cr3).translate v = pageWalk m cr3 v := rfl

/-! ### Directories in memory -/

/-- With the directory at `cr3` the entry at the physical address `a` is `e`: one of the directory,
or one of a table that is present. -/
inductive EntryAt (d : PageDirectory) (cr3 : Word) : Word → Word → Prop where
  | pde (i : Word) (hi : i.toNat < 1024) : EntryAt d cr3 (frameOf cr3 + 4 * i) (d.pde i)
  | pte (i j : Word) (hi : i.toNat < 1024) (hj : j.toNat < 1024)
      (hpresent : d.pde i &&& presentBit ≠ 0) :
      EntryAt d cr3 (frameOf (d.pde i) + 4 * j) (d.pte i j)

/-- The memory has all these entries. -/
def HeldIn (d : PageDirectory) (cr3 : Word) (m : Mem) : Prop :=
  ∀ a e, d.EntryAt cr3 a e → m.read32 a = e

/-- The physical address `p` is in an entry, and the byte there is `b`. -/
def EntryByte (d : PageDirectory) (cr3 p : Word) (b : Byte) : Prop :=
  ∃ a e, d.EntryAt cr3 a e ∧ ∃ k < 4, p = a + BitVec.ofNat 32 k ∧ b = e.extractLsb' (8 * k) 8

/-- The physical address `p` is in the directory or in one of its tables. -/
def TableByte (d : PageDirectory) (cr3 p : Word) : Prop := ∃ b, d.EntryByte cr3 p b

variable {d : PageDirectory} {cr3 p v : Word} {m m' : Mem} {b : Byte}

/-- The bytes of a word in memory. -/
theorem byte_read32 (m : Mem) (a : Word) {k : Nat} (hk : k < 4) :
    (m.read32 a).extractLsb' (8 * k) 8 = m (a + BitVec.ofNat 32 k) := by
  have hbyte (i : Nat) (hi : i < 8) :
      ((m.read32 a).extractLsb' (8 * k) 8).getLsbD i = (m (a + BitVec.ofNat 32 k)).getLsbD i := by
    rw [BitVec.getLsbD_extractLsb', decide_eq_true hi, Bool.true_and, Mem.read32]
    simp only [BitVec.getLsbD_append]
    obtain rfl | rfl | rfl | rfl : k = 0 ∨ k = 1 ∨ k = 2 ∨ k = 3 := by omega
    all_goals
      simp only [BitVec.ofNat_eq_ofNat, BitVec.add_zero]
      split_ifs
      all_goals first
        | omega
        | congr 1
          omega
  exact BitVec.eq_of_getLsbD_eq hbyte

/-- The processor walks a directory that memory holds. -/
theorem HeldIn.pageWalk (h : d.HeldIn cr3 m) (v : Word) : pageWalk m cr3 v = d.translate v := by
  have hpde := h _ _ (.pde (dirIndex v) (dirIndex_lt v))
  unfold Foundations.pageWalk translate
  rw [hpde]
  by_cases hpresent : d.pde (dirIndex v) &&& presentBit = 0
  · rw [if_pos hpresent, if_pos hpresent]
  · have hpte := h _ _ (.pte (dirIndex v) (tableIndex v) (dirIndex_lt v) (tableIndex_lt v) hpresent)
    simp only [if_neg hpresent, hpte]

/-- What is in the tables is the same in all memories that hold them. -/
theorem HeldIn.byte (h : d.HeldIn cr3 m) (hp : d.EntryByte cr3 p b) : m p = b := by
  obtain ⟨a, e, hentry, k, hk, rfl, rfl⟩ := hp
  rw [← h a e hentry, byte_read32 m a hk]

/-- Other bytes do not matter. -/
theorem HeldIn.congr (h : d.HeldIn cr3 m) (hsame : ∀ p, d.TableByte cr3 p → m' p = m p) :
    d.HeldIn cr3 m' := by
  intro a e hentry
  rw [← h a e hentry]
  apply Mem.read32_congr
  intro x hx
  apply hsame
  refine ⟨_, a, e, hentry, (x - a).toNat, hx, ?_, rfl⟩
  rw [BitVec.ofNat_toNat, BitVec.setWidth_eq, BitVec.add_comm, BitVec.sub_add_cancel]

theorem heldIn_loaded (m : Mem) (cr3 : Word) : (loaded m cr3).HeldIn cr3 m := by
  rintro a e (_ | _)
  all_goals rfl

end PageDirectory

end KyroKernel.Foundations
