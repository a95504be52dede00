import KyroKernel.Paging.Init

/-!
# Table pointers and directory entries

For each 4 MB region a directory holds the pointer to the page table that the kernel follows and,
in `tables_physical`, the entry that the processor reads. `map_page` writes both when it creates the
table, from the flags of that one call, and nothing changes them later.
-/

namespace KyroKernel

open Foundations

variable {lo : Nat} {D : List Word} {s : PagingState}

/-- Region `i` of the directory `d` has the same table and the same entry. -/
def SameRegion (m m' : Mem) (d i : Word) : Prop :=
  tables m' d i = tables m d i ∧ tablesPhysical m' d i = tablesPhysical m d i

theorem SameRegion.trans {m m' m'' : Mem} {d i : Word} (h : SameRegion m m' d i)
    (h' : SameRegion m' m'' d i) : SameRegion m m'' d i :=
  ⟨h'.1.trans h.1, h'.2.trans h.2⟩

/-- A change outside the part of the heap that is in use changes no region. -/
theorem Layout.sameRegion {m m' : Mem} {hc : Word} (h : Layout lo m hc D)
    (hread : ∀ a : Word, lo ≤ a.toNat → a.toNat + 4 ≤ hc.toNat → m'.read32 a = m.read32 a)
    {d i : Word} (hd : d ∈ D) (hi : i.toNat < 1024) : SameRegion m m' d i := by
  obtain ⟨-, hlo, hup⟩ := h.dir d hd
  have hb := h.dir_bound hd
  have h1 := toNat_tablesSlot (d := d) (i := i) (by omega)
  have h2 := toNat_tablesPhysicalSlot (d := d) (i := i) (by omega)
  exact ⟨hread _ (by omega) (by omega), hread _ (by omega) (by omega)⟩

/-! ## Creating a page table -/

/-- The directory entry for a new table: without `PAGE_USER` when the flags of the call have it, and
with it when they lack it. -/
def newPde (table flags : Word) : Word :=
  if flags &&& pageUser = 0 then table ||| pagePresent ||| pageWritable ||| pageUser
  else table ||| pagePresent ||| pageWritable

theorem newPageTable_tablesPhysical {i f t hc' : Word}
    (hk : kmallocA s.heapCurrent (BitVec.ofNat 32 sizeofPageTable) = (t, hc')) :
    tablesPhysical (newPageTable s i f).mem s.currentDirectory i = newPde t f := by
  rw [newPageTable_of_alloc hk]
  unfold newPde
  simp only [tablesPhysical]
  split_ifs
  · rw [Mem.read32_write32_self, Mem.read32_write32_self]
  · rw [Mem.read32_write32_self]

/-- The other regions stay as they are. -/
theorem NewTable.sameRegion {t hc' i f : Word} (hn : NewTable s t hc')
    (h : Layout lo s.mem s.heapCurrent D) (hcur : s.currentDirectory ∈ D) (hi : i.toNat < 1024)
    {d j : Word} (hd : d ∈ D) (hj : j.toNat < 1024) (hne : ¬ (d = s.currentDirectory ∧ j = i)) :
    SameRegion s.mem (newPageTable s i f).mem d j :=
  ⟨hn.tables_of_ne h hcur hi hd hj hne, hn.slot_of_ne h hcur hi hd hj hne (.inr rfl)⟩

/-- No region lies in a page table, so writing an entry changes none. -/
theorem setPage_sameRegion {i j : Word} (e : Word) (h : Layout lo s.mem s.heapCurrent D)
    (hcur : s.currentDirectory ∈ D) (hi : i.toNat < 1024) (hj : j.toNat < 1024)
    (ht : tables s.mem s.currentDirectory i ≠ 0) {d k : Word} (hd : d ∈ D)
    (hk : k.toNat < 1024) : SameRegion s.mem (setPage s i j e).mem d k := by
  refine ⟨setPage_tables e h hcur hi hj ht hd hk, ?_⟩
  have hb := h.table_bound hcur hi ht
  have hslot := toNat_pagesSlot (t := tables s.mem s.currentDirectory i) (j := j) (by omega)
  have hdb := h.dir_bound hd
  have hsep := h.table_dir _ hcur i hi ht d hd
  have hk' := toNat_tablesPhysicalSlot (d := d) (i := k) (by omega)
  unfold Clear at hsep
  exact setPage_read32 (by omega) (by omega) (by unfold Clear; omega)

/-! ## `map_page` and `unmap_page` -/

/-- What is there after `map_page` created the missing table `t` and before it stores the entry. -/
structure CreatedTable (lo : Nat) (D : List Word) (s : PagingState) (v f t : Word) : Prop where
  ne_zero : t ≠ 0
  aligned : t.toNat % 4096 = 0
  layout : Layout lo (newPageTable s (dirIndex v) f).mem
    (newPageTable s (dirIndex v) f).heapCurrent D
  currentDirectory : (newPageTable s (dirIndex v) f).currentDirectory = s.currentDirectory
  table : tables (newPageTable s (dirIndex v) f).mem s.currentDirectory (dirIndex v) = t
  pde : tablesPhysical (newPageTable s (dirIndex v) f).mem s.currentDirectory (dirIndex v) =
    newPde t f
  others : ∀ d ∈ D, ∀ i : Word, i.toNat < 1024 → ¬ (d = s.currentDirectory ∧ i = dirIndex v) →
    SameRegion s.mem (newPageTable s (dirIndex v) f).mem d i

theorem exists_createdTable (v f : Word) (h : Layout lo s.mem s.heapCurrent D)
    (hcur : s.currentDirectory ∈ D) (hready : TableReady s v)
    (ht : tables s.mem s.currentDirectory (dirIndex v) = 0) :
    ∃ t, CreatedTable lo D s v f t := by
  obtain ⟨t, hc', hn⟩ := exists_newTable s h.heap_le
  have hr : t ≠ 0 := by
    have hor := hready.resolve_left fun hne => hne ht
    rwa [hn.alloc] at hor
  have hl := hn.layout (f := f) h hcur (dirIndex_lt v) ht
  have hheap : (newPageTable s (dirIndex v) f).heapCurrent = hc' := by
    rw [newPageTable_globals, hn.alloc]
  rw [← hheap] at hl
  exact ⟨t, hr, (hn.fresh_or_null.resolve_right hr).1, hl,
    (hn.keeps h hcur (dirIndex_lt v)).currentDirectory, (hn.self h hcur (dirIndex_lt v)).1,
    newPageTable_tablesPhysical hn.alloc,
    fun d hd i hi hne => hn.sameRegion h hcur (dirIndex_lt v) hd hi hne⟩

/-- Storing the entry in the new table changes no region. -/
theorem CreatedTable.setPage {v f t : Word} (hn : CreatedTable lo D s v f t)
    (hcur : s.currentDirectory ∈ D) (e : Word) {d i : Word} (hd : d ∈ D) (hi : i.toNat < 1024) :
    SameRegion (newPageTable s (dirIndex v) f).mem
      (KyroKernel.setPage (newPageTable s (dirIndex v) f) (dirIndex v) (tableIndex v) e).mem d i := by
  have hcur' := hn.currentDirectory
  exact setPage_sameRegion e hn.layout (by rw [hcur']; exact hcur) (dirIndex_lt v)
    (tableIndex_lt v) (by rw [hcur', hn.table]; exact hn.ne_zero) hd hi

/-- `map_page` changes no region but that of a table it creates. -/
theorem mapPage_sameRegion (v p f : Word) (h : Layout lo s.mem s.heapCurrent D)
    (hcur : s.currentDirectory ∈ D) (hready : TableReady s v) {d i : Word} (hd : d ∈ D)
    (hi : i.toNat < 1024)
    (hne : ¬ (d = s.currentDirectory ∧ i = dirIndex v ∧ tables s.mem s.currentDirectory i = 0)) :
    SameRegion s.mem (mapPage s v p f).mem d i := by
  by_cases ht : tables s.mem s.currentDirectory (dirIndex v) = 0
  · rw [mapPage_newTable p f ht]
    obtain ⟨t, hn⟩ := exists_createdTable v f h hcur hready ht
    have hother : ¬ (d = s.currentDirectory ∧ i = dirIndex v) := by
      rintro ⟨hdc, hiv⟩
      exact hne ⟨hdc, hiv, hiv ▸ ht⟩
    exact (hn.others d hd i hi hother).trans (hn.setPage hcur _ hd hi)
  · rw [mapPage_oldTable p f ht]
    exact setPage_sameRegion _ h hcur (dirIndex_lt v) (tableIndex_lt v) ht hd hi

/-- The region of a table that `map_page` creates. -/
theorem mapPage_newRegion (v p f : Word) (h : Layout lo s.mem s.heapCurrent D)
    (hcur : s.currentDirectory ∈ D) (hready : TableReady s v)
    (ht : tables s.mem s.currentDirectory (dirIndex v) = 0) :
    ∃ t : Word, t ≠ 0 ∧ t.toNat % 4096 = 0 ∧
      tables (mapPage s v p f).mem s.currentDirectory (dirIndex v) = t ∧
      tablesPhysical (mapPage s v p f).mem s.currentDirectory (dirIndex v) = newPde t f := by
  obtain ⟨t, hn⟩ := exists_createdTable v f h hcur hready ht
  obtain ⟨htable, hentry⟩ := hn.setPage hcur (frameOf p ||| f) hcur (dirIndex_lt v)
  rw [mapPage_newTable p f ht]
  exact ⟨t, hn.ne_zero, hn.aligned, htable.trans hn.table, hentry.trans hn.pde⟩

theorem unmapPage_sameRegion (v : Word) (h : Layout lo s.mem s.heapCurrent D)
    (hcur : s.currentDirectory ∈ D) {d i : Word} (hd : d ∈ D) (hi : i.toNat < 1024) :
    SameRegion s.mem (unmapPage s v).mem d i := by
  by_cases ht : tables s.mem s.currentDirectory (dirIndex v) = 0
  · rw [unmapPage_noTable ht]
    exact ⟨rfl, rfl⟩
  · rw [unmapPage_table ht]
    exact setPage_sameRegion _ h hcur (dirIndex_lt v) (tableIndex_lt v) ht hd hi

/-! ## New directories -/

/-- Making a directory changes no region of the others, and it has no table itself. -/
theorem createPageDirectory_regions (h : Layout lo s.mem s.heapCurrent D)
    (hfits : (createPageDirectory s).1 ≠ 0) :
    (∀ d ∈ D, ∀ i : Word, i.toNat < 1024 → SameRegion s.mem (createPageDirectory s).2.mem d i) ∧
      ∀ i : Word, i.toNat < 1024 →
        tables (createPageDirectory s).2.mem (createPageDirectory s).1 i = 0 := by
  obtain ⟨a, ha, hk⟩ := kmallocA_cases pageDirectory_size h.heap_le
  have hle := h.heap_le
  rw [createPageDirectory_fst] at hfits ⊢
  rcases hk with ⟨hk, hadd, hlt⟩ | ⟨hk, -⟩
  · obtain ⟨hread, hzero, -⟩ := createPageDirectory_read32 hk (by omega)
    refine ⟨fun d hd i hi => h.sameRegion (fun x _ hx => ?_) hd hi, ?_⟩
    · exact hread x (by omega) (.inl (by omega))
    · rw [hk]
      exact hzero
  · rw [hk] at hfits
    exact absurd rfl hfits

/-- Neither does `paging_init` before its loop. -/
theorem beforeLoop_regions (h : Layout lo s.mem s.heapCurrent D)
    (hbitmap : (kmalloc s.heapCurrent 512).1 ≠ 0)
    (hdirectory : (kmallocA (pagingInitBitmap s).heapCurrent
      (BitVec.ofNat 32 sizeofPageDirectory)).1 ≠ 0) {d : Word}
    (hd : (pagingInitKernelDirectory (pagingInitBitmap s)).kernelDirectory = d) :
    (∀ e ∈ D, ∀ i : Word, i.toNat < 1024 →
        SameRegion s.mem (pagingInitKernelDirectory (pagingInitBitmap s)).mem e i) ∧
      ∀ i : Word, i.toNat < 1024 →
        tables (pagingInitKernelDirectory (pagingInitBitmap s)).mem d i = 0 := by
  obtain ⟨hl, -, -, heq, hadd, hlt⟩ := pagingInitBitmap_spec h hbitmap
  obtain ⟨d', -, -, hheap', heq', hl', -, -, -, -, hread'⟩ :=
    pagingInitKernelDirectory_spec hl hdirectory
  have hheap : (pagingInitBitmap s).heapCurrent.toNat = s.heapCurrent.toNat + 512 := by
    rw [heq]
    exact hadd
  have hend := hl'.heap_le
  obtain rfl : d' = d := by
    rw [← hd, heq']
  refine ⟨fun e he i hi => h.sameRegion (fun x _ hx => ?_) he hi, fun i hi => ?_⟩
  · rw [hread' x (by omega), heq]
    exact read32_fill_clear (by decide) (.inl hx) (by omega) (by omega)
  · have hs := toNat_tablesSlot (d := d') (i := i) (by omega)
    rw [heq']
    exact read32_fill_inside (by omega) (by omega) (by decide)

end KyroKernel
