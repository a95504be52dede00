import KyroKernel.Paging.Basic

/-!
# How directories and tables lie in the heap

`Layout lo m hc D` says that the directories `D` and the tables they point to are pairwise
disjoint page-aligned blocks of the heap, at or above `lo` and below `heap_current`. It is
the invariant behind every fact about translations: a write into one block changes no entry
of another. It does not ask that requests succeed, so it also covers an exhausted heap,
where `map_page` writes through a NULL table pointer into low memory.
-/

namespace KyroKernel

open Foundations

/-- A page-aligned block of `n` bytes at `a`, inside `[lo, hi)`. -/
structure HeapBlock (lo hi : Nat) (a : Word) (n : Nat) : Prop where
  aligned : a.toNat % 4096 = 0
  lower : lo ≤ a.toNat
  upper : a.toNat + n ≤ hi

/-- The blocks `[a, a+n)` and `[b, b+k)` do not meet. -/
def Clear (a : Word) (n : Nat) (b : Word) (k : Nat) : Prop :=
  a.toNat + n ≤ b.toNat ∨ b.toNat + k ≤ a.toNat

/-- The layout invariant for the directories `D`. -/
structure Layout (lo : Nat) (m : Mem) (hc : Word) (D : List Word) : Prop where
  low : 8196 ≤ lo
  heap_le : hc.toNat ≤ 0x800000
  lo_le : lo ≤ hc.toNat
  dir : ∀ d ∈ D, HeapBlock lo hc.toNat d 8196
  dirs : ∀ d ∈ D, ∀ e ∈ D, d ≠ e → Clear d 8196 e 8196
  table : ∀ d ∈ D, ∀ i : Word, i.toNat < 1024 → tables m d i ≠ 0 →
    HeapBlock lo hc.toNat (tables m d i) 4096
  table_dir : ∀ d ∈ D, ∀ i : Word, i.toNat < 1024 → tables m d i ≠ 0 →
    ∀ e ∈ D, Clear (tables m d i) 4096 e 8196
  table_inj : ∀ d ∈ D, ∀ i : Word, i.toNat < 1024 → tables m d i ≠ 0 →
    ∀ e ∈ D, ∀ j : Word, j.toNat < 1024 → tables m e j = tables m d i → e = d ∧ j = i

/-- The entry that translates `v` under `dir`, 0 when its table is missing. -/
def pte (m : Mem) (dir v : Word) : Word :=
  if tables m dir (dirIndex v) = 0 then 0
  else pages m (tables m dir (dirIndex v)) (tableIndex v)

theorem getPhysicalAddress_eq (s : PagingState) (v : Word) :
    getPhysicalAddress s v =
      if pte s.mem s.currentDirectory v &&& presentBit = 0 then 0
      else frameOf (pte s.mem s.currentDirectory v) ||| pageOffset v := by
  unfold getPhysicalAddress pte
  by_cases h : tables s.mem s.currentDirectory (v >>> 22) = 0
  · simp only [dirIndex, if_pos h]
    rfl
  · simp only [dirIndex, if_neg h]
    rfl

/-! ## Slots as numbers -/

theorem toNat_tablesSlot {d i : Word} (h : d.toNat + 4 * i.toNat < 2 ^ 32) :
    (tablesSlot d i).toNat = d.toNat + 4 * i.toNat := by
  unfold tablesSlot
  rw [BitVec.toNat_add, BitVec.toNat_mul]
  simp
  omega

theorem toNat_pagesSlot {t j : Word} (h : t.toNat + 4 * j.toNat < 2 ^ 32) :
    (pagesSlot t j).toNat = t.toNat + 4 * j.toNat :=
  toNat_tablesSlot h

theorem toNat_tablesPhysicalSlot {d i : Word} (h : d.toNat + 4096 + 4 * i.toNat < 2 ^ 32) :
    (tablesPhysicalSlot d i).toNat = d.toNat + 4096 + 4 * i.toNat := by
  unfold tablesPhysicalSlot
  rw [BitVec.toNat_add, BitVec.toNat_add, BitVec.toNat_mul]
  simp
  omega

theorem toNat_physicalAddrSlot {d : Word} (h : d.toNat + 8192 < 2 ^ 32) :
    (physicalAddrSlot d).toNat = d.toNat + 8192 := by
  unfold physicalAddrSlot
  rw [BitVec.toNat_add]
  simp
  omega

theorem read32_write32_clear {m : Mem} {a b v : Word} (h : Clear a 4 b 4)
    (ha : a.toNat + 4 ≤ 2 ^ 32) (hb : b.toNat + 4 ≤ 2 ^ 32) :
    (m.write32 b v).read32 a = m.read32 a :=
  Mem.read32_write32_apart (.of_clear (by decide) (by decide) h ha hb)

theorem read32_fill_clear {m : Mem} {a b : Word} {c : Byte} {n : Nat} (hn : 0 < n)
    (h : Clear a 4 b n) (ha : a.toNat + 4 ≤ 2 ^ 32) (hb : b.toNat + n ≤ 2 ^ 32) :
    (m.fill b c n).read32 a = m.read32 a :=
  Mem.read32_fill_apart (by omega) (.of_clear (by decide) hn h ha hb)

theorem read32_fill_inside {m : Mem} {a b : Word} {n : Nat} (hba : b.toNat ≤ a.toNat)
    (han : a.toNat + 4 ≤ b.toNat + n) (hn : n ≤ 2 ^ 32) : (m.fill b 0 n).read32 a = 0 := by
  apply Mem.read32_fill_zero hn
  rw [BitVec.toNat_sub]
  have := a.isLt
  have := b.isLt
  omega

/-! ## Keeping the layout -/

namespace Layout

variable {lo : Nat} {m m' : Mem} {hc hc' : Word} {D : List Word}

/-- A directory at or above `heap_current` is a new one. -/
theorem not_mem_of_le {d : Word} (h : Layout lo m hc D) (hd : hc.toNat ≤ d.toNat) : d ∉ D := by
  intro hmem
  have hup := (h.dir d hmem).upper
  omega

/-- A change that moves no table pointer keeps the layout. -/
theorem frame (h : Layout lo m hc D) (hle : hc.toNat ≤ hc'.toNat) (hend : hc'.toNat ≤ 0x800000)
    (htab : ∀ d ∈ D, ∀ i : Word, i.toNat < 1024 → tables m' d i = tables m d i) :
    Layout lo m' hc' D where
  low := h.low
  heap_le := hend
  lo_le := Nat.le_trans h.lo_le hle
  dir d hd := ⟨(h.dir d hd).aligned, (h.dir d hd).lower, Nat.le_trans (h.dir d hd).upper hle⟩
  dirs := h.dirs
  table d hd i hi ht := by
    rw [htab d hd i hi] at ht ⊢
    obtain ⟨hal, hlo, hup⟩ := h.table d hd i hi ht
    exact ⟨hal, hlo, Nat.le_trans hup hle⟩
  table_dir d hd i hi ht := by
    rw [htab d hd i hi] at ht ⊢
    exact h.table_dir d hd i hi ht
  table_inj d hd i hi ht e he j hj := by
    rw [htab d hd i hi] at ht ⊢
    rw [htab e he j hj]
    exact h.table_inj d hd i hi ht e he j hj

/-- A fresh zeroed block above `heap_current` can join the directories. -/
theorem addDir {a : Word} (h : Layout lo m hc D) (ha : a.toNat % 4096 = 0)
    (hca : hc.toNat ≤ a.toNat) (hac : a.toNat + 8196 ≤ hc'.toNat)
    (hend : hc'.toNat ≤ 0x800000)
    (htab : ∀ d ∈ D, ∀ i : Word, i.toNat < 1024 → tables m' d i = tables m d i)
    (hzero : ∀ i : Word, i.toNat < 1024 → tables m' a i = 0) : Layout lo m' hc' (a :: D) := by
  have hle : hc.toNat ≤ hc'.toNat := by omega
  have hf : Layout lo m' hc' D := h.frame hle hend htab
  have hbelow : ∀ d ∈ D, d.toNat + 8196 ≤ a.toNat := fun d hd =>
    Nat.le_trans (h.dir d hd).upper hca
  refine ⟨hf.low, hf.heap_le, hf.lo_le, ?_, ?_, ?_, ?_, ?_⟩
  · intro d hd
    rcases List.mem_cons.mp hd with rfl | hd'
    · exact ⟨ha, Nat.le_trans h.lo_le hca, hac⟩
    · exact hf.dir d hd'
  · intro d hd e he hne
    rcases List.mem_cons.mp hd with rfl | hd' <;> rcases List.mem_cons.mp he with rfl | he'
    · exact absurd rfl hne
    · exact .inr (hbelow e he')
    · exact .inl (hbelow d hd')
    · exact hf.dirs d hd' e he' hne
  · intro d hd i hi ht
    rcases List.mem_cons.mp hd with rfl | hd'
    · exact absurd (hzero i hi) ht
    · exact hf.table d hd' i hi ht
  · intro d hd i hi ht e he
    rcases List.mem_cons.mp hd with rfl | hd'
    · exact absurd (hzero i hi) ht
    · rcases List.mem_cons.mp he with rfl | he'
      · rw [htab d hd' i hi] at ht ⊢
        exact .inl (Nat.le_trans (h.table d hd' i hi ht).upper hca)
      · exact hf.table_dir d hd' i hi ht e he'
  · intro d hd i hi ht e he j hj heq
    rcases List.mem_cons.mp hd with rfl | hd'
    · exact absurd (hzero i hi) ht
    · rcases List.mem_cons.mp he with rfl | he'
      · rw [hzero j hj] at heq
        exact absurd heq.symm ht
      · exact hf.table_inj d hd' i hi ht e he' j hj heq

/-- A fresh block above `heap_current` can become the missing table `i` of `c`. -/
theorem addTable {c i t : Word} (h : Layout lo m hc D) (hc_mem : c ∈ D)
    (ht : t.toNat % 4096 = 0) (hct : hc.toNat ≤ t.toNat)
    (htc : t.toNat + 4096 ≤ hc'.toNat) (hend : hc'.toNat ≤ 0x800000)
    (hnew : tables m' c i = t)
    (htab : ∀ d ∈ D, ∀ j : Word, j.toNat < 1024 → ¬ (d = c ∧ j = i) →
      tables m' d j = tables m d j) : Layout lo m' hc' D := by
  have hle : hc.toNat ≤ hc'.toNat := by omega
  -- An old table lies below `heap_current`, so it is not the new one.
  have hold : ∀ d ∈ D, ∀ j : Word, j.toNat < 1024 → tables m d j ≠ 0 → tables m d j ≠ t := by
    intro d hd j hj hne heq
    have hup := (h.table d hd j hj hne).upper
    rw [heq] at hup
    omega
  refine ⟨h.low, hend, Nat.le_trans h.lo_le hle, ?_, h.dirs, ?_, ?_, ?_⟩
  · intro d hd
    exact ⟨(h.dir d hd).aligned, (h.dir d hd).lower, Nat.le_trans (h.dir d hd).upper hle⟩
  · intro d hd j hj hne
    by_cases hdj : d = c ∧ j = i
    · obtain ⟨rfl, rfl⟩ := hdj
      rw [hnew]
      exact ⟨ht, Nat.le_trans h.lo_le hct, htc⟩
    · rw [htab d hd j hj hdj] at hne ⊢
      obtain ⟨hal, hlo, hup⟩ := h.table d hd j hj hne
      exact ⟨hal, hlo, Nat.le_trans hup hle⟩
  · intro d hd j hj hne e he
    by_cases hdj : d = c ∧ j = i
    · obtain ⟨rfl, rfl⟩ := hdj
      rw [hnew]
      exact .inr (Nat.le_trans (h.dir e he).upper hct)
    · rw [htab d hd j hj hdj] at hne ⊢
      exact h.table_dir d hd j hj hne e he
  · intro d hd j hj hne e he k hk heq
    by_cases hdj : d = c ∧ j = i <;> by_cases hek : e = c ∧ k = i
    · exact ⟨hek.1.trans hdj.1.symm, hek.2.trans hdj.2.symm⟩
    · obtain ⟨rfl, rfl⟩ := hdj
      rw [hnew, htab e he k hk hek] at heq
      rw [hnew] at hne
      exact absurd heq (hold e he k hk (by rw [heq]; exact hne))
    · obtain ⟨rfl, rfl⟩ := hek
      rw [htab d hd j hj hdj] at heq hne
      rw [hnew] at heq
      exact absurd heq.symm (hold d hd j hj hne)
    · rw [htab d hd j hj hdj] at heq hne
      rw [htab e he k hk hek] at heq
      exact h.table_inj d hd j hj hne e he k hk heq

end Layout

end KyroKernel
