import KyroKernel.Paging.Layout

/-!
# What each paging operation does

One specification for each function of `paging.c` over a state whose directories satisfy
`Layout`: the layout after the call, the entry `pte` of every directory and address, and
`Keeps`, the list of everything the call leaves alone. The cases of an exhausted heap are
part of the specifications, because callers do not check for them.
-/

namespace KyroKernel

open Foundations

variable {lo : Nat} {D : List Word} {s s' : PagingState}

/-- What every paging operation leaves alone: the globals and control registers, the
`physical_addr` of the directories, and memory between the NULL structures and the heap. -/
structure Keeps (lo : Nat) (D : List Word) (s s' : PagingState) : Prop where
  kernelDirectory : s'.kernelDirectory = s.kernelDirectory
  currentDirectory : s'.currentDirectory = s.currentDirectory
  frames : s'.frames = s.frames
  nframes : s'.nframes = s.nframes
  cr3 : s'.cr3 = s.cr3
  heap : s.heapCurrent.toNat ≤ s'.heapCurrent.toNat
  physicalAddr : ∀ d ∈ D, physicalAddr s'.mem d = physicalAddr s.mem d
  below : ∀ a : Word, 8196 ≤ a.toNat → a.toNat + 4 ≤ lo → s'.mem.read32 a = s.mem.read32 a

theorem Keeps.refl (lo : Nat) (D : List Word) (s : PagingState) : Keeps lo D s s :=
  ⟨rfl, rfl, rfl, rfl, rfl, Nat.le_refl _, fun _ _ => rfl, fun _ _ _ => rfl⟩

theorem Keeps.trans {s'' : PagingState} (h : Keeps lo D s s') (h' : Keeps lo D s' s'') :
    Keeps lo D s s'' where
  kernelDirectory := h'.kernelDirectory.trans h.kernelDirectory
  currentDirectory := h'.currentDirectory.trans h.currentDirectory
  frames := h'.frames.trans h.frames
  nframes := h'.nframes.trans h.nframes
  cr3 := h'.cr3.trans h.cr3
  heap := Nat.le_trans h.heap h'.heap
  physicalAddr d hd := (h'.physicalAddr d hd).trans (h.physicalAddr d hd)
  below a ha hlo := (h'.below a ha hlo).trans (h.below a ha hlo)

/-! ## Entries under a memory change -/

/-- Loads from the directories and from their existing tables agree in `m` and `m'`. -/
structure SameEntries (D : List Word) (m m' : Mem) : Prop where
  tables : ∀ d ∈ D, ∀ i : Word, i.toNat < 1024 → tables m' d i = tables m d i
  pages : ∀ d ∈ D, ∀ i : Word, i.toNat < 1024 → KyroKernel.tables m d i ≠ 0 →
    ∀ j : Word, j.toNat < 1024 →
      pages m' (KyroKernel.tables m d i) j = pages m (KyroKernel.tables m d i) j

theorem SameEntries.pte {m m' : Mem} (h : SameEntries D m m') {d : Word} (hd : d ∈ D) (v : Word) :
    pte m' d v = pte m d v := by
  unfold KyroKernel.pte
  rw [h.tables d hd _ (dirIndex_lt v)]
  -- Without a table both sides are 0.
  by_cases ht : KyroKernel.tables m d (dirIndex v) = 0
  · rw [if_pos ht, if_pos ht]
  · rw [if_neg ht, if_neg ht, h.pages d hd _ (dirIndex_lt v) ht _ (tableIndex_lt v)]

/-! ## Sizes and bounds -/

theorem pageTable_size : RequestSize (BitVec.ofNat 32 sizeofPageTable) 4096 :=
  ⟨by decide, by decide, by decide⟩

theorem pageDirectory_size : RequestSize (BitVec.ofNat 32 sizeofPageDirectory) 8196 :=
  ⟨by decide, by decide, by decide⟩

theorem Layout.dir_bound {m : Mem} {hc d : Word} (h : Layout lo m hc D) (hd : d ∈ D) :
    8196 ≤ d.toNat ∧ d.toNat + 8196 ≤ 0x800000 := by
  have hb := h.dir d hd
  have := hb.lower
  have := hb.upper
  have := h.low
  have := h.heap_le
  omega

theorem Layout.table_bound {m : Mem} {hc d i : Word} (h : Layout lo m hc D) (hd : d ∈ D)
    (hi : i.toNat < 1024) (ht : tables m d i ≠ 0) :
    8196 ≤ (tables m d i).toNat ∧ (tables m d i).toNat + 4096 ≤ 0x800000 := by
  have hb := h.table d hd i hi ht
  have := hb.lower
  have := hb.upper
  have := h.low
  have := h.heap_le
  omega

/-- A change outside the part of the heap that is in use changes no entry. -/
theorem Layout.sameEntries {m m' : Mem} {hc : Word} (h : Layout lo m hc D)
    (hread : ∀ a : Word, lo ≤ a.toNat → a.toNat + 4 ≤ hc.toNat → m'.read32 a = m.read32 a) :
    SameEntries D m m' where
  tables d hd i hi := by
    obtain ⟨-, hlo, hup⟩ := h.dir d hd
    have hb := h.dir_bound hd
    have hslot := toNat_tablesSlot (d := d) (i := i) (by omega)
    exact hread _ (by omega) (by omega)
  pages d hd i hi ht j hj := by
    obtain ⟨-, hlo, hup⟩ := h.table d hd i hi ht
    have hb := h.table_bound hd hi ht
    have hslot := toNat_pagesSlot (t := tables m d i) (j := j) (by omega)
    exact hread _ (by omega) (by omega)

/-- Neither does it change the `physical_addr` of a directory. -/
theorem Layout.physicalAddr_eq {m m' : Mem} {hc : Word} (h : Layout lo m hc D)
    (hread : ∀ a : Word, lo ≤ a.toNat → a.toNat + 4 ≤ hc.toNat → m'.read32 a = m.read32 a) :
    ∀ d ∈ D, physicalAddr m' d = physicalAddr m d := by
  intro d hd
  obtain ⟨-, hlo, hup⟩ := h.dir d hd
  have hb := h.dir_bound hd
  have hslot := toNat_physicalAddrSlot (d := d) (by omega)
  exact hread _ (by omega) (by omega)

/-! ## Creating a page table -/

/-- `newPageTable`, once `kmalloc_ap` has returned. -/
theorem newPageTable_of_alloc {i f t hc' : Word}
    (hk : kmallocA s.heapCurrent (BitVec.ofNat 32 sizeofPageTable) = (t, hc')) :
    newPageTable s i f =
      { s with
        mem :=
          let mem := s.mem.write32 (tablesSlot s.currentDirectory i) t
          let mem := mem.fill (tables mem s.currentDirectory i) 0 sizeofPageTable
          let mem := mem.write32 (tablesPhysicalSlot s.currentDirectory i)
            (t ||| pagePresent ||| pageWritable)
          if f &&& pageUser = 0 then
            mem.write32 (tablesPhysicalSlot s.currentDirectory i)
              (tablesPhysical mem s.currentDirectory i ||| pageUser)
          else mem
        heapCurrent := hc' } := by
  rw [newPageTable, kmallocAp, hk]

/-- A load clear of the three places `newPageTable` writes is unchanged. -/
theorem newPageTable_read32 {i f t hc' a : Word}
    (hk : kmallocA s.heapCurrent (BitVec.ofNat 32 sizeofPageTable) = (t, hc'))
    (hi : i.toNat < 1024) (hdir : s.currentDirectory.toNat + 8196 ≤ 2 ^ 32)
    (ht : t.toNat + 4096 ≤ 2 ^ 32) (ha : a.toNat + 4 ≤ 2 ^ 32)
    (htables : Clear a 4 (tablesSlot s.currentDirectory i) 4) (htable : Clear a 4 t 4096)
    (hphys : Clear a 4 (tablesPhysicalSlot s.currentDirectory i) 4) :
    (newPageTable s i f).mem.read32 a = s.mem.read32 a := by
  have h1 := toNat_tablesSlot (d := s.currentDirectory) (i := i) (by omega)
  have h2 := toNat_tablesPhysicalSlot (d := s.currentDirectory) (i := i) (by omega)
  rw [newPageTable_of_alloc hk]
  simp only [tables, Mem.read32_write32_self, sizeofPageTable]
  -- The table pointer, the zeroed table and `tables_physical`, which is written a second time
  -- without the user flag.
  have hbody : ∀ v : Word, (((s.mem.write32 (tablesSlot s.currentDirectory i) t).fill t 0
      4096).write32 (tablesPhysicalSlot s.currentDirectory i) v).read32 a =
      s.mem.read32 a := by
    intro v
    rw [read32_write32_clear hphys ha (by omega),
      read32_fill_clear (by decide) htable ha ht,
      read32_write32_clear htables ha (by omega)]
  split_ifs
  · rw [read32_write32_clear hphys ha (by omega), hbody]
  · exact hbody _

/-- The table pointer that `newPageTable` stores, and the zeroed table behind it. -/
theorem newPageTable_self {i f t hc' : Word}
    (hk : kmallocA s.heapCurrent (BitVec.ofNat 32 sizeofPageTable) = (t, hc'))
    (hi : i.toNat < 1024) (hdir : s.currentDirectory.toNat + 8196 ≤ 2 ^ 32)
    (ht : t.toNat + 4096 ≤ 2 ^ 32) (hclear : Clear t 4096 s.currentDirectory 8196) :
    tables (newPageTable s i f).mem s.currentDirectory i = t ∧
      ∀ j : Word, j.toNat < 1024 → pages (newPageTable s i f).mem t j = 0 := by
  have h1 := toNat_tablesSlot (d := s.currentDirectory) (i := i) (by omega)
  have h2 := toNat_tablesPhysicalSlot (d := s.currentDirectory) (i := i) (by omega)
  rw [newPageTable_of_alloc hk]
  simp only [tables, pages, Mem.read32_write32_self, sizeofPageTable]
  -- Both facts hold before the writes to `tables_physical`, which touch neither place.
  have hphys : ∀ (m : Mem) (v a : Word), a.toNat + 4 ≤ 2 ^ 32 →
      Clear a 4 (tablesPhysicalSlot s.currentDirectory i) 4 →
      (m.write32 (tablesPhysicalSlot s.currentDirectory i) v).read32 a = m.read32 a :=
    fun m v a ha hcl => read32_write32_clear hcl ha (by omega)
  have hslot : Clear (tablesSlot s.currentDirectory i) 4
      (tablesPhysicalSlot s.currentDirectory i) 4 := by
    unfold Clear
    omega
  have hptr : ((s.mem.write32 (tablesSlot s.currentDirectory i) t).fill t 0 4096).read32
      (tablesSlot s.currentDirectory i) = t := by
    have hcl : Clear (tablesSlot s.currentDirectory i) 4 t 4096 := by
      unfold Clear at *
      omega
    rw [read32_fill_clear (by decide) hcl (by omega) ht, Mem.read32_write32_self]
  have hzero : ∀ j : Word, j.toNat < 1024 → ((s.mem.write32 (tablesSlot s.currentDirectory i)
      t).fill t 0 4096).read32 (pagesSlot t j) = 0 := by
    intro j hj
    have hj' := toNat_pagesSlot (t := t) (j := j) (by omega)
    exact read32_fill_inside (by omega) (by omega) (by decide)
  -- An entry of the new table is not in the directory.
  have hpage : ∀ j : Word, j.toNat < 1024 → (pagesSlot t j).toNat + 4 ≤ 2 ^ 32 ∧
      Clear (pagesSlot t j) 4 (tablesPhysicalSlot s.currentDirectory i) 4 := by
    intro j hj
    have hj' := toNat_pagesSlot (t := t) (j := j) (by omega)
    unfold Clear at *
    omega
  split_ifs
  · refine ⟨?_, fun j hj => ?_⟩
    · rw [hphys _ _ _ (by omega) hslot, hphys _ _ _ (by omega) hslot, hptr]
    · rw [hphys _ _ _ (hpage j hj).1 (hpage j hj).2, hphys _ _ _ (hpage j hj).1 (hpage j hj).2,
        hzero j hj]
  · refine ⟨?_, fun j hj => ?_⟩
    · rw [hphys _ _ _ (by omega) hslot, hptr]
    · rw [hphys _ _ _ (hpage j hj).1 (hpage j hj).2, hzero j hj]

/-- `newPageTable` changes memory and the heap only. -/
theorem newPageTable_globals (s : PagingState) (i f : Word) :
    newPageTable s i f = { s with
      mem := (newPageTable s i f).mem
      heapCurrent := (kmallocA s.heapCurrent (BitVec.ofNat 32 sizeofPageTable)).2 } := by
  rcases hk : kmallocA s.heapCurrent (BitVec.ofNat 32 sizeofPageTable) with ⟨t, hc'⟩
  rw [newPageTable_of_alloc hk]

/-- The request of `newPageTable` returned `t`: a block above the old heap, or NULL. -/
structure NewTable (s : PagingState) (t hc' : Word) : Prop where
  alloc : kmallocA s.heapCurrent (BitVec.ofNat 32 sizeofPageTable) = (t, hc')
  heap_le : hc'.toNat ≤ 0x800000
  heap_ge : s.heapCurrent.toNat ≤ hc'.toNat
  fresh_or_null : (t.toNat % 4096 = 0 ∧ s.heapCurrent.toNat ≤ t.toNat ∧
    t.toNat + 4096 ≤ hc'.toNat) ∨ t = 0

theorem exists_newTable (s : PagingState) (h : s.heapCurrent.toNat ≤ 0x800000) :
    ∃ t hc', NewTable s t hc' := by
  obtain ⟨a, ha, hk⟩ := kmallocA_cases pageTable_size h
  rcases hk with ⟨hk, hadd, hlt⟩ | ⟨hk, hge⟩
  · exact ⟨_, _, hk, by omega, by omega, .inl ⟨by omega, by omega, by omega⟩⟩
  · exact ⟨_, _, hk, by omega, by omega, .inr rfl⟩

namespace NewTable

variable {t hc' i f : Word}

theorem bound (hn : NewTable s t hc') : t.toNat + 4096 ≤ 2 ^ 32 := by
  have := hn.heap_le
  rcases hn.fresh_or_null with ⟨-, -, ht⟩ | rfl
  · omega
  · decide

/-- The new table is clear of every directory. -/
theorem clear_dir (hn : NewTable s t hc') (h : Layout lo s.mem s.heapCurrent D) {d : Word}
    (hd : d ∈ D) : Clear t 4096 d 8196 := by
  have hup := (h.dir d hd).upper
  have hb := h.dir_bound hd
  -- A fresh table comes after all directories, NULL before them.
  rcases hn.fresh_or_null with ⟨-, ht, -⟩ | rfl
  · exact .inr (by omega)
  · exact .inl (by simp; omega)

theorem self (hn : NewTable s t hc') (h : Layout lo s.mem s.heapCurrent D)
    (hcur : s.currentDirectory ∈ D) (hi : i.toNat < 1024) :
    tables (newPageTable s i f).mem s.currentDirectory i = t ∧
      ∀ j : Word, j.toNat < 1024 → pages (newPageTable s i f).mem t j = 0 := by
  have hb := h.dir_bound hcur
  exact newPageTable_self hn.alloc hi (by omega) hn.bound (hn.clear_dir h hcur)

/-- Loads below the old heap and above the NULL page see only the directory writes. -/
theorem read32 (hn : NewTable s t hc') (h : Layout lo s.mem s.heapCurrent D)
    (hcur : s.currentDirectory ∈ D) (hi : i.toNat < 1024) {x : Word} (hx : 4096 ≤ x.toNat)
    (hxh : x.toNat + 4 ≤ s.heapCurrent.toNat)
    (htables : Clear x 4 (tablesSlot s.currentDirectory i) 4)
    (hphys : Clear x 4 (tablesPhysicalSlot s.currentDirectory i) 4) :
    (newPageTable s i f).mem.read32 x = s.mem.read32 x := by
  have hb := h.dir_bound hcur
  have hle := h.heap_le
  refine newPageTable_read32 hn.alloc hi (by omega) hn.bound (by omega) htables ?_ hphys
  rcases hn.fresh_or_null with ⟨-, ht, -⟩ | rfl
  · exact .inl (by omega)
  · exact .inr (by simp; omega)

/-- Loads clear of the current directory are covered by `read32`. -/
theorem read32_clear (hn : NewTable s t hc') (h : Layout lo s.mem s.heapCurrent D)
    (hcur : s.currentDirectory ∈ D) (hi : i.toNat < 1024) {x : Word} (hx : 4096 ≤ x.toNat)
    (hxh : x.toNat + 4 ≤ s.heapCurrent.toNat) (hclear : Clear x 4 s.currentDirectory 8192) :
    (newPageTable s i f).mem.read32 x = s.mem.read32 x := by
  have hb := h.dir_bound hcur
  have h1 := toNat_tablesSlot (d := s.currentDirectory) (i := i) (by omega)
  have h2 := toNat_tablesPhysicalSlot (d := s.currentDirectory) (i := i) (by omega)
  unfold Clear at hclear
  exact hn.read32 h hcur hi hx hxh (by unfold Clear; omega) (by unfold Clear; omega)

/-- A word of another slot, in either array of its directory. -/
theorem slot_of_ne (hn : NewTable s t hc') (h : Layout lo s.mem s.heapCurrent D)
    (hcur : s.currentDirectory ∈ D) (hi : i.toNat < 1024) {d j x : Word} (hd : d ∈ D)
    (hj : j.toNat < 1024) (hne : ¬ (d = s.currentDirectory ∧ j = i))
    (hx : x = tablesSlot d j ∨ x = tablesPhysicalSlot d j) :
    (newPageTable s i f).mem.read32 x = s.mem.read32 x := by
  have hdb := h.dir_bound hd
  have hup := (h.dir d hd).upper
  have hxd : x.toNat = d.toNat + 4 * j.toNat ∨ x.toNat = d.toNat + 4096 + 4 * j.toNat := by
    rcases hx with rfl | rfl
    · exact .inl (toNat_tablesSlot (by omega))
    · exact .inr (toNat_tablesPhysicalSlot (by omega))
  by_cases hdc : d = s.currentDirectory
  · -- Another slot of the directory that gets the table.
    have hji : j.toNat ≠ i.toNat := fun heq => hne ⟨hdc, BitVec.eq_of_toNat_eq heq⟩
    subst hdc
    have h1 := toNat_tablesSlot (d := s.currentDirectory) (i := i) (by omega)
    have h2 := toNat_tablesPhysicalSlot (d := s.currentDirectory) (i := i) (by omega)
    exact hn.read32 h hcur hi (by omega) (by omega) (by unfold Clear; omega)
      (by unfold Clear; omega)
  · -- Another directory lies apart from the current one.
    have hsep := h.dirs d hd _ hcur hdc
    unfold Clear at hsep
    exact hn.read32_clear h hcur hi (by omega) (by omega) (by unfold Clear; omega)

theorem tables_of_ne (hn : NewTable s t hc') (h : Layout lo s.mem s.heapCurrent D)
    (hcur : s.currentDirectory ∈ D) (hi : i.toNat < 1024) {d j : Word} (hd : d ∈ D)
    (hj : j.toNat < 1024) (hne : ¬ (d = s.currentDirectory ∧ j = i)) :
    tables (newPageTable s i f).mem d j = tables s.mem d j :=
  hn.slot_of_ne h hcur hi hd hj hne (.inl rfl)

theorem pages_old (hn : NewTable s t hc') (h : Layout lo s.mem s.heapCurrent D)
    (hcur : s.currentDirectory ∈ D) (hi : i.toNat < 1024) {d j k : Word} (hd : d ∈ D)
    (hj : j.toNat < 1024) (hne : tables s.mem d j ≠ 0) (hk : k.toNat < 1024) :
    pages (newPageTable s i f).mem (tables s.mem d j) k = pages s.mem (tables s.mem d j) k := by
  have htb := h.table_bound hd hj hne
  have hup := (h.table d hd j hj hne).upper
  have hsep := h.table_dir d hd j hj hne _ hcur
  have h3 := toNat_pagesSlot (t := tables s.mem d j) (j := k) (by omega)
  unfold Clear at hsep
  exact hn.read32_clear h hcur hi (by omega) (by omega) (by unfold Clear; omega)

theorem layout (hn : NewTable s t hc') (h : Layout lo s.mem s.heapCurrent D)
    (hcur : s.currentDirectory ∈ D) (hi : i.toNat < 1024)
    (hmissing : tables s.mem s.currentDirectory i = 0) :
    Layout lo (newPageTable s i f).mem hc' D := by
  obtain ⟨hself, -⟩ := hn.self (f := f) h hcur hi
  rcases hn.fresh_or_null with ⟨hal, hge, hup⟩ | rfl
  · exact h.addTable hcur hal hge hup hn.heap_le hself fun d hd j hj hne =>
      hn.tables_of_ne h hcur hi hd hj hne
  · -- The slot held NULL before, and NULL is stored again.
    refine h.frame hn.heap_ge hn.heap_le fun d hd j hj => ?_
    by_cases hdj : d = s.currentDirectory ∧ j = i
    · rw [hdj.1, hdj.2, hself, hmissing]
    · exact hn.tables_of_ne h hcur hi hd hj hdj

theorem keeps (hn : NewTable s t hc') (h : Layout lo s.mem s.heapCurrent D)
    (hcur : s.currentDirectory ∈ D) (hi : i.toNat < 1024) :
    Keeps lo D s (newPageTable s i f) := by
  have hglob := newPageTable_globals s i f
  rw [hn.alloc] at hglob
  have hcb := h.dir_bound hcur
  have hclo := (h.dir _ hcur).lower
  have hlo := h.lo_le
  refine ⟨by rw [hglob], by rw [hglob], by rw [hglob], by rw [hglob], by rw [hglob],
    by rw [hglob]; exact hn.heap_ge, fun d hd => ?_, fun x hx hxlo => ?_⟩
  · -- `physical_addr` comes after the two arrays of a directory.
    have hdb := h.dir_bound hd
    have hup := (h.dir d hd).upper
    have h3 := toNat_physicalAddrSlot (d := d) (by omega)
    by_cases hdc : d = s.currentDirectory
    · rw [hdc] at h3 hup
      rw [hdc]
      exact hn.read32_clear h hcur hi (by omega) (by omega) (by unfold Clear; omega)
    · have hsep := h.dirs d hd _ hcur hdc
      unfold Clear at hsep
      exact hn.read32_clear h hcur hi (by omega) (by omega) (by unfold Clear; omega)
  · exact hn.read32_clear h hcur hi (by omega) (by omega) (by unfold Clear; omega)

/-- A missing table translates nothing, and neither does a new one. -/
theorem pte_eq (hn : NewTable s t hc') (h : Layout lo s.mem s.heapCurrent D)
    (hcur : s.currentDirectory ∈ D) (hi : i.toNat < 1024)
    (hmissing : tables s.mem s.currentDirectory i = 0) {d : Word} (hd : d ∈ D) (v : Word) :
    pte (newPageTable s i f).mem d v = pte s.mem d v := by
  obtain ⟨hself, hzero⟩ := hn.self (f := f) h hcur hi
  unfold pte
  by_cases hdv : d = s.currentDirectory ∧ dirIndex v = i
  · -- The slot of the new table: NULL before, a table of zeros now.
    rw [hdv.1, hdv.2, hself, hmissing, if_pos rfl, hzero _ (tableIndex_lt v), ite_self]
  · rw [hn.tables_of_ne h hcur hi hd (dirIndex_lt v) hdv]
    by_cases hne : tables s.mem d (dirIndex v) = 0
    · rw [if_pos hne, if_pos hne]
    · rw [if_neg hne, if_neg hne,
        hn.pages_old h hcur hi hd (dirIndex_lt v) hne (tableIndex_lt v)]

end NewTable

/-! ## Writing an entry -/

@[simp] theorem setPage_heapCurrent (s : PagingState) (i j e : Word) :
    (setPage s i j e).heapCurrent = s.heapCurrent := rfl

/-- A load clear of the entry that `setPage` writes is unchanged. -/
theorem setPage_read32 {i j e x : Word}
    (hslot : (pagesSlot (tables s.mem s.currentDirectory i) j).toNat + 4 ≤ 2 ^ 32)
    (hx : x.toNat + 4 ≤ 2 ^ 32)
    (hclear : Clear x 4 (pagesSlot (tables s.mem s.currentDirectory i) j) 4) :
    (setPage s i j e).mem.read32 x = s.mem.read32 x :=
  read32_write32_clear hclear hx hslot

/-- No table pointer lies in a page table, so writing an entry moves none. -/
theorem setPage_tables {i j : Word} (e : Word) (h : Layout lo s.mem s.heapCurrent D)
    (hcur : s.currentDirectory ∈ D) (hi : i.toNat < 1024) (hj : j.toNat < 1024)
    (ht : tables s.mem s.currentDirectory i ≠ 0) {d k : Word} (hd : d ∈ D)
    (hk : k.toNat < 1024) : tables (setPage s i j e).mem d k = tables s.mem d k := by
  have hb := h.table_bound hcur hi ht
  have hslot := toNat_pagesSlot (t := tables s.mem s.currentDirectory i) (j := j) (by omega)
  have hdb := h.dir_bound hd
  have hsep := h.table_dir _ hcur i hi ht d hd
  have hk' := toNat_tablesSlot (d := d) (i := k) (by omega)
  unfold Clear at hsep
  exact setPage_read32 (by omega) (by omega) (by unfold Clear; omega)

/-- Writing entry `j` of the existing table `i` changes exactly the translation of the page
with these indices under the current directory. -/
theorem setPage_spec {i j : Word} (e : Word) (h : Layout lo s.mem s.heapCurrent D)
    (hcur : s.currentDirectory ∈ D) (hi : i.toNat < 1024) (hj : j.toNat < 1024)
    (ht : tables s.mem s.currentDirectory i ≠ 0) :
    Layout lo (setPage s i j e).mem (setPage s i j e).heapCurrent D ∧
    Keeps lo D s (setPage s i j e) ∧
    ∀ d ∈ D, ∀ v, pte (setPage s i j e).mem d v =
      if d = s.currentDirectory ∧ dirIndex v = i ∧ tableIndex v = j then e
      else pte s.mem d v := by
  have hb := h.table_bound hcur hi ht
  have hlo := (h.table _ hcur i hi ht).lower
  have hslot := toNat_pagesSlot (t := tables s.mem s.currentDirectory i) (j := j) (by omega)
  have htab : ∀ d ∈ D, ∀ k : Word, k.toNat < 1024 →
      tables (setPage s i j e).mem d k = tables s.mem d k := fun d hd k hk =>
    setPage_tables e h hcur hi hj ht hd hk
  refine ⟨h.frame (Nat.le_refl _) h.heap_le htab, ?_, ?_⟩
  · refine ⟨rfl, rfl, rfl, rfl, rfl, Nat.le_refl _, fun d hd => ?_, fun x hx hxlo => ?_⟩
    · have hdb := h.dir_bound hd
      have hsep := h.table_dir _ hcur i hi ht d hd
      have hp := toNat_physicalAddrSlot (d := d) (by omega)
      unfold Clear at hsep
      exact setPage_read32 (by omega) (by omega) (by unfold Clear; omega)
    · exact setPage_read32 (by omega) (by omega) (by unfold Clear; omega)
  · intro d hd v
    unfold pte
    rw [htab d hd _ (dirIndex_lt v)]
    by_cases hne : tables s.mem d (dirIndex v) = 0
    · -- An address without a table is not the one written.
      have hnot : ¬ (d = s.currentDirectory ∧ dirIndex v = i ∧ tableIndex v = j) := by
        rintro ⟨rfl, rfl, -⟩
        exact ht hne
      rw [if_pos hne, if_pos hne, if_neg hnot]
    · rw [if_neg hne, if_neg hne]
      have hv := tableIndex_lt v
      have htb := h.table_bound hd (dirIndex_lt v) hne
      have hv' := toNat_pagesSlot (t := tables s.mem d (dirIndex v)) (j := tableIndex v) (by omega)
      by_cases hsame : tables s.mem d (dirIndex v) = tables s.mem s.currentDirectory i
      · -- No two slots share a table, so this is the slot of the write.
        obtain ⟨hdc, hdi⟩ := h.table_inj _ hcur i hi ht d hd _ (dirIndex_lt v) hsame
        by_cases htj : tableIndex v = j
        · rw [if_pos ⟨hdc, hdi, htj⟩, hsame, htj]
          exact Mem.read32_write32_self ..
        · -- Another entry of the same table.
          have hvj : (tableIndex v).toNat ≠ j.toNat := fun heq => htj (BitVec.eq_of_toNat_eq heq)
          rw [if_neg fun hh => htj hh.2.2]
          rw [hsame] at hv' ⊢
          exact setPage_read32 (by omega) (by omega) (by unfold Clear; omega)
      · -- Different tables are different aligned blocks.
        have hal := (h.table d hd _ (dirIndex_lt v) hne).aligned
        have hal' := (h.table _ hcur i hi ht).aligned
        have hnat : (tables s.mem d (dirIndex v)).toNat ≠
            (tables s.mem s.currentDirectory i).toNat := fun heq =>
          hsame (BitVec.eq_of_toNat_eq heq)
        have hnot : ¬ (d = s.currentDirectory ∧ dirIndex v = i ∧ tableIndex v = j) := by
          rintro ⟨rfl, rfl, -⟩
          exact hsame rfl
        rw [if_neg hnot]
        exact setPage_read32 (by omega) (by omega) (by unfold Clear; omega)

/-- With a NULL table pointer the entry is written into the first page of memory, which
holds no directory and no table. -/
theorem setPage_null {i j : Word} (e : Word) (h : Layout lo s.mem s.heapCurrent D)
    (hj : j.toNat < 1024) (ht : tables s.mem s.currentDirectory i = 0) :
    Layout lo (setPage s i j e).mem (setPage s i j e).heapCurrent D ∧
    Keeps lo D s (setPage s i j e) ∧
    ∀ d ∈ D, ∀ v, pte (setPage s i j e).mem d v = pte s.mem d v := by
  -- The write hits one of the first 4096 bytes.
  have hslot : (pagesSlot (tables s.mem s.currentDirectory i) j).toNat = 4 * j.toNat := by
    rw [toNat_pagesSlot (by rw [ht]; simp; omega), ht]
    simp
  have hread : ∀ x : Word, 4096 ≤ x.toNat → x.toNat + 4 ≤ 2 ^ 32 →
      (setPage s i j e).mem.read32 x = s.mem.read32 x := fun x hx hx' =>
    setPage_read32 (by omega) hx' (by unfold Clear; omega)
  have hlow := h.low
  have hle := h.heap_le
  have hlo := h.lo_le
  have hheap : ∀ x : Word, lo ≤ x.toNat → x.toNat + 4 ≤ s.heapCurrent.toNat →
      (setPage s i j e).mem.read32 x = s.mem.read32 x := fun x hx hx' =>
    hread x (by omega) (by omega)
  have hsame := h.sameEntries hheap
  refine ⟨h.frame (Nat.le_refl _) h.heap_le hsame.tables, ?_, fun d hd v => hsame.pte hd v⟩
  refine ⟨rfl, rfl, rfl, rfl, rfl, Nat.le_refl _, h.physicalAddr_eq hheap, fun x hx hxlo => ?_⟩
  exact hread _ (by omega) (by omega)

/-! ## `map_page` and `unmap_page` -/

/-- `map_page` finds a table for `v`, or the heap provides one. -/
def TableReady (s : PagingState) (v : Word) : Prop :=
  tables s.mem s.currentDirectory (dirIndex v) ≠ 0 ∨
    (kmallocA s.heapCurrent (BitVec.ofNat 32 sizeofPageTable)).1 ≠ 0

/-- `map_page` of a region without a table, -/
theorem mapPage_newTable {v : Word} (p f : Word)
    (ht : tables s.mem s.currentDirectory (dirIndex v) = 0) :
    mapPage s v p f = setPage (newPageTable s (dirIndex v) f) (dirIndex v) (tableIndex v)
      (frameOf p ||| f) := by
  rw [mapPage]
  simp only [dirIndex] at ht ⊢
  rw [if_pos ht]

/-- and of a region with one. -/
theorem mapPage_oldTable {v : Word} (p f : Word)
    (ht : tables s.mem s.currentDirectory (dirIndex v) ≠ 0) :
    mapPage s v p f = setPage s (dirIndex v) (tableIndex v) (frameOf p ||| f) := by
  rw [mapPage]
  simp only [dirIndex] at ht ⊢
  rw [if_neg ht]

/-- `map_page` changes exactly the entry of `v`'s page under the current directory when the
table is there or can be created, and no entry at all otherwise. -/
theorem mapPage_spec (v p f : Word) (h : Layout lo s.mem s.heapCurrent D)
    (hcur : s.currentDirectory ∈ D) :
    Layout lo (mapPage s v p f).mem (mapPage s v p f).heapCurrent D ∧
    Keeps lo D s (mapPage s v p f) ∧
    (TableReady s v → ∀ d ∈ D, ∀ a, pte (mapPage s v p f).mem d a =
      if d = s.currentDirectory ∧ a >>> 12 = v >>> 12 then frameOf p ||| f else pte s.mem d a) ∧
    (¬ TableReady s v → ∀ d ∈ D, ∀ a, pte (mapPage s v p f).mem d a = pte s.mem d a) := by
  unfold TableReady
  by_cases ht : tables s.mem s.currentDirectory (dirIndex v) = 0
  · -- `map_page` requests a table first.
    rw [mapPage_newTable p f ht]
    obtain ⟨t, hc', hn⟩ := exists_newTable s h.heap_le
    have hl := hn.layout (f := f) h hcur (dirIndex_lt v) ht
    have hk := hn.keeps (f := f) h hcur (dirIndex_lt v)
    have hpte := fun d hd a => hn.pte_eq (f := f) (d := d) h hcur (dirIndex_lt v) ht hd a
    have hself := (hn.self (f := f) h hcur (dirIndex_lt v)).1
    have hcur' : (newPageTable s (dirIndex v) f).currentDirectory = s.currentDirectory :=
      hk.currentDirectory
    have hheap : (newPageTable s (dirIndex v) f).heapCurrent = hc' := by
      rw [newPageTable_globals, hn.alloc]
    rw [← hheap] at hl
    rw [hn.alloc]
    by_cases hr : t = 0
    · -- The table could not be allocated, and the entry goes to low memory.
      obtain ⟨hl', hk', hpte'⟩ := setPage_null (i := dirIndex v) (j := tableIndex v)
        (frameOf p ||| f) hl (tableIndex_lt v) (by rw [hcur', hself]; exact hr)
      refine ⟨hl', hk.trans hk', fun hor => ?_, fun _ d hd a => ?_⟩
      · exact absurd hr (hor.resolve_left fun hne => hne ht)
      · exact (hpte' d hd a).trans (hpte d hd a)
    · -- The entry goes into the new table.
      obtain ⟨hl', hk', hpte'⟩ := setPage_spec (i := dirIndex v) (j := tableIndex v)
        (frameOf p ||| f) hl (by rw [hcur']; exact hcur) (dirIndex_lt v) (tableIndex_lt v)
        (by rw [hcur', hself]; exact hr)
      refine ⟨hl', hk.trans hk', fun _ d hd a => ?_, fun hnor => absurd (.inr hr) hnor⟩
      have hp := hpte' d hd a
      rw [hcur', hpte d hd a] at hp
      simp only [same_page_iff]
      exact hp
  · rw [mapPage_oldTable p f ht]
    obtain ⟨hl', hk', hpte'⟩ := setPage_spec (i := dirIndex v) (j := tableIndex v)
      (frameOf p ||| f) h hcur (dirIndex_lt v) (tableIndex_lt v) ht
    refine ⟨hl', hk', fun _ d hd a => ?_, fun hnor => absurd (.inl ht) hnor⟩
    simp only [same_page_iff]
    exact hpte' d hd a

/-- `unmap_page` of a region without a table, -/
theorem unmapPage_noTable {v : Word} (ht : tables s.mem s.currentDirectory (dirIndex v) = 0) :
    unmapPage s v = s := by
  rw [unmapPage]
  simp only [dirIndex] at ht
  rw [if_neg (not_not.mpr ht)]

/-- and of a region with one. -/
theorem unmapPage_table {v : Word} (ht : tables s.mem s.currentDirectory (dirIndex v) ≠ 0) :
    unmapPage s v = setPage s (dirIndex v) (tableIndex v) 0 := by
  rw [unmapPage]
  simp only [dirIndex] at ht ⊢
  rw [if_pos ht]

/-- `unmap_page` clears exactly the entry of `v`'s page under the current directory. -/
theorem unmapPage_spec (v : Word) (h : Layout lo s.mem s.heapCurrent D)
    (hcur : s.currentDirectory ∈ D) :
    Layout lo (unmapPage s v).mem (unmapPage s v).heapCurrent D ∧
    Keeps lo D s (unmapPage s v) ∧
    ∀ d ∈ D, ∀ a, pte (unmapPage s v).mem d a =
      if d = s.currentDirectory ∧ a >>> 12 = v >>> 12 then 0 else pte s.mem d a := by
  by_cases ht : tables s.mem s.currentDirectory (dirIndex v) = 0
  · rw [unmapPage_noTable ht]
    refine ⟨h, .refl .., fun d hd a => ?_⟩
    split_ifs with hda
    · -- The page had no table, so its entry was 0 already.
      obtain ⟨rfl, hpage⟩ := hda
      unfold pte
      rw [((same_page_iff a v).mp hpage).1, if_pos ht]
    · rfl
  · rw [unmapPage_table ht]
    obtain ⟨hl', hk', hpte'⟩ := setPage_spec (i := dirIndex v) (j := tableIndex v)
      0 h hcur (dirIndex_lt v) (tableIndex_lt v) ht
    refine ⟨hl', hk', fun d hd a => ?_⟩
    simp only [same_page_iff]
    exact hpte' d hd a

/-! ## New directories -/

/-- A zeroed block above the old heap is a directory that translates nothing, and making
it changes no entry of the others. -/
theorem Layout.newDir {m m' : Mem} {hc a : Word} (hc' : Word) (h : Layout lo m hc D)
    (ha : a.toNat % 4096 = 0) (hca : hc.toNat ≤ a.toNat) (hac : a.toNat + 8196 ≤ hc'.toNat)
    (hend : hc'.toNat ≤ 0x800000)
    (hread : ∀ x : Word, x.toNat + 4 ≤ hc.toNat → m'.read32 x = m.read32 x)
    (hzero : ∀ i : Word, i.toNat < 1024 → tables m' a i = 0) :
    Layout lo m' hc' (a :: D) ∧ SameEntries D m m' ∧
      (∀ d ∈ D, physicalAddr m' d = physicalAddr m d) ∧ ∀ v, pte m' a v = 0 := by
  have hsame : SameEntries D m m' := h.sameEntries fun x _ => hread x
  refine ⟨h.addDir ha hca hac hend hsame.tables hzero, hsame,
    h.physicalAddr_eq fun x _ => hread x, fun v => ?_⟩
  unfold pte
  rw [hzero _ (dirIndex_lt v), if_pos rfl]

/-- `create_page_directory`, once `kmalloc_ap` has returned. -/
theorem createPageDirectory_of_alloc {a hc' : Word}
    (hk : kmallocA s.heapCurrent (BitVec.ofNat 32 sizeofPageDirectory) = (a, hc')) :
    createPageDirectory s =
      (a, { s with
        mem := (s.mem.fill a 0 sizeofPageDirectory).write32 (physicalAddrSlot a) a
        heapCurrent := hc' }) := by
  rw [createPageDirectory, kmallocAp, hk]

/-- `create_page_directory` changes memory and the heap only. -/
theorem createPageDirectory_globals (s : PagingState) :
    (createPageDirectory s).2 = { s with
      mem := (createPageDirectory s).2.mem
      heapCurrent :=
        (kmallocA s.heapCurrent (BitVec.ofNat 32 sizeofPageDirectory)).2 } := by
  rcases hk : kmallocA s.heapCurrent (BitVec.ofNat 32 sizeofPageDirectory) with ⟨a, hc'⟩
  rw [createPageDirectory_of_alloc hk]

theorem createPageDirectory_fst (s : PagingState) :
    (createPageDirectory s).1 =
      (kmallocA s.heapCurrent (BitVec.ofNat 32 sizeofPageDirectory)).1 := by
  rcases hk : kmallocA s.heapCurrent (BitVec.ofNat 32 sizeofPageDirectory) with ⟨a, hc'⟩
  rw [createPageDirectory_of_alloc hk]

/-- A directory is made when it fits, from a page boundary on. -/
theorem createPageDirectory_ne_zero_iff (hle : s.heapCurrent.toNat ≤ 0x800000)
    (hpos : s.heapCurrent ≠ 0) :
    (createPageDirectory s).1 ≠ 0 ↔
      (s.heapCurrent.toNat + 4095) / 4096 * 4096 + 8196 < 0x800000 := by
  rw [createPageDirectory_fst, kmallocA_ne_zero_iff pageDirectory_size hle hpos]

/-- Loads after `create_page_directory`, for a block `a` that it cleared. -/
theorem createPageDirectory_read32 {a hc' : Word}
    (hk : kmallocA s.heapCurrent (BitVec.ofNat 32 sizeofPageDirectory) = (a, hc'))
    (ha : a.toNat + 8196 ≤ 2 ^ 32) :
    (∀ x : Word, x.toNat + 4 ≤ 2 ^ 32 → Clear x 4 a 8196 →
      (createPageDirectory s).2.mem.read32 x = s.mem.read32 x) ∧
    (∀ i : Word, i.toNat < 1024 → tables (createPageDirectory s).2.mem a i = 0) ∧
    physicalAddr (createPageDirectory s).2.mem a = a := by
  have hp := toNat_physicalAddrSlot (d := a) (by omega)
  rw [createPageDirectory_of_alloc hk]
  simp only [sizeofPageDirectory, tables, physicalAddr, Mem.read32_write32_self]
  refine ⟨fun x hx hclear => ?_, fun i hi => ?_, trivial⟩
  · -- Outside the block neither the `memset` nor `physical_addr` is seen.
    have hclear' : Clear x 4 (physicalAddrSlot a) 4 := by
      unfold Clear at *
      omega
    rw [read32_write32_clear hclear' hx (by omega), read32_fill_clear (by decide) hclear hx ha]
  · have hs := toNat_tablesSlot (d := a) (i := i) (by omega)
    have hclear : Clear (tablesSlot a i) 4 (physicalAddrSlot a) 4 := by
      unfold Clear
      omega
    rw [read32_write32_clear hclear (by omega) (by omega)]
    exact read32_fill_inside (by omega) (by omega) (by decide)

/-- The outcome of `create_page_directory`: a new directory with its own address in
`physical_addr`, or NULL, with the first 8196 bytes of memory cleared. -/
theorem createPageDirectory_spec (h : Layout lo s.mem s.heapCurrent D) :
    Keeps lo D s (createPageDirectory s).2 ∧
    (∀ d ∈ D, ∀ v, pte (createPageDirectory s).2.mem d v = pte s.mem d v) ∧
    (((createPageDirectory s).1 ≠ 0 ∧ s.heapCurrent.toNat ≤ (createPageDirectory s).1.toNat ∧
        Layout lo (createPageDirectory s).2.mem (createPageDirectory s).2.heapCurrent
          ((createPageDirectory s).1 :: D) ∧
        physicalAddr (createPageDirectory s).2.mem (createPageDirectory s).1 =
          (createPageDirectory s).1 ∧
        ∀ v, pte (createPageDirectory s).2.mem (createPageDirectory s).1 v = 0) ∨
      ((createPageDirectory s).1 = 0 ∧
        Layout lo (createPageDirectory s).2.mem (createPageDirectory s).2.heapCurrent D ∧
        0x7FE000 ≤ (createPageDirectory s).2.heapCurrent.toNat ∧
        ∀ i : Word, i.toNat < 1024 → tables (createPageDirectory s).2.mem 0 i = 0)) := by
  obtain ⟨a, ha, hk⟩ := kmallocA_cases pageDirectory_size h.heap_le
  have hglob := createPageDirectory_globals s
  have hlow := h.low
  have hlo := h.lo_le
  have hle := h.heap_le
  rw [createPageDirectory_fst]
  rcases hk with ⟨hk, hadd, hlt⟩ | ⟨hk, hge⟩
  · -- The block lies above everything in use.
    obtain ⟨hread, hzero, hphys⟩ := createPageDirectory_read32 hk (by omega)
    have hclear : ∀ x : Word, x.toNat + 4 ≤ s.heapCurrent.toNat →
        (createPageDirectory s).2.mem.read32 x = s.mem.read32 x := fun x hx =>
      hread x (by omega) (.inl (by omega))
    rw [hk] at hglob ⊢
    have hheap : (createPageDirectory s).2.heapCurrent =
        a + BitVec.ofNat 32 sizeofPageDirectory := by rw [hglob]
    have hne : a ≠ 0 := by
      rintro rfl
      simp at ha
      omega
    obtain ⟨hl, hsame, hpa, hpte⟩ := h.newDir (a + BitVec.ofNat 32 sizeofPageDirectory)
      (by omega) (by omega) (by omega) (by omega) hclear hzero
    refine ⟨⟨by rw [hglob], by rw [hglob], by rw [hglob], by rw [hglob], by rw [hglob],
      by rw [hheap]; omega, hpa, fun x hx hxlo => hclear x (by omega)⟩,
      fun d hd v => hsame.pte hd v, .inl ⟨hne, by simp only; omega, ?_, hphys, hpte⟩⟩
    rw [hheap]
    exact hl
  · -- NULL is not checked: the `memset` and the store go to the start of memory.
    have hk0 : kmallocA s.heapCurrent (BitVec.ofNat 32 sizeofPageDirectory) = (0, a) := hk
    obtain ⟨hread, hzero, -⟩ := createPageDirectory_read32 hk0 (by decide)
    have hclear : ∀ x : Word, 8196 ≤ x.toNat → x.toNat + 4 ≤ 2 ^ 32 →
        (createPageDirectory s).2.mem.read32 x = s.mem.read32 x := fun x hx hx' =>
      hread x hx' (.inr (by simp; omega))
    rw [hk] at hglob ⊢
    have hheap : (createPageDirectory s).2.heapCurrent = a := by rw [hglob]
    have hinside : ∀ x : Word, lo ≤ x.toNat → x.toNat + 4 ≤ s.heapCurrent.toNat →
        (createPageDirectory s).2.mem.read32 x = s.mem.read32 x := fun x hx hx' =>
      hclear x (by omega) (by omega)
    have hsame := h.sameEntries hinside
    refine ⟨⟨by rw [hglob], by rw [hglob], by rw [hglob], by rw [hglob], by rw [hglob],
      by rw [hheap]; omega, h.physicalAddr_eq hinside,
      fun x hx hxlo => hclear x (by omega) (by omega)⟩,
      fun d hd v => hsame.pte hd v, .inr ⟨rfl, ?_, by rw [hheap]; omega, hzero⟩⟩
    rw [hheap]
    exact h.frame (by omega) (by omega) hsame.tables

/-! ## The heap under the paging functions -/

/-- What an operation may do to the heap and to the current and the kernel directory. -/
structure HeapGrows (s s' : PagingState) : Prop where
  ge : s.heapCurrent.toNat ≤ s'.heapCurrent.toNat
  le : s'.heapCurrent.toNat ≤ 0x800000
  currentDirectory : s'.currentDirectory = s.currentDirectory
  kernelDirectory : s'.kernelDirectory = s.kernelDirectory

theorem HeapGrows.trans {s s' s'' : PagingState} (h : HeapGrows s s') (h' : HeapGrows s' s'') :
    HeapGrows s s'' :=
  ⟨Nat.le_trans h.ge h'.ge, h'.le, h'.currentDirectory.trans h.currentDirectory,
    h'.kernelDirectory.trans h.kernelDirectory⟩

theorem createPageDirectory_heapGrows {s : PagingState} (h : s.heapCurrent.toNat ≤ 0x800000) :
    HeapGrows s (createPageDirectory s).2 := by
  obtain ⟨hge, hle⟩ := kmallocA_grows pageDirectory_size h
  rcases hk : kmallocA s.heapCurrent (BitVec.ofNat 32 sizeofPageDirectory) with ⟨a, hc'⟩
  rw [hk] at hge hle
  rw [createPageDirectory_of_alloc hk]
  exact ⟨hge, hle, rfl, rfl⟩

theorem HeapGrows.setPage {s s' : PagingState} (h : HeapGrows s s') (i j e : Word) :
    HeapGrows s (setPage s' i j e) :=
  ⟨h.ge, h.le, h.currentDirectory, h.kernelDirectory⟩

theorem newPageTable_heapGrows {s : PagingState} (i f : Word)
    (h : s.heapCurrent.toNat ≤ 0x800000) : HeapGrows s (newPageTable s i f) := by
  obtain ⟨hge, hle⟩ := kmallocA_grows pageTable_size h
  rcases hk : kmallocA s.heapCurrent (BitVec.ofNat 32 sizeofPageTable) with ⟨t, hc'⟩
  rw [hk] at hge hle
  rw [newPageTable_of_alloc hk]
  exact ⟨hge, hle, rfl, rfl⟩

theorem mapPage_heapGrows {s : PagingState} (v p f : Word) (h : s.heapCurrent.toNat ≤ 0x800000) :
    HeapGrows s (mapPage s v p f) := by
  by_cases ht : tables s.mem s.currentDirectory (dirIndex v) = 0
  · rw [mapPage_newTable p f ht]
    exact (newPageTable_heapGrows _ _ h).setPage _ _ _
  · have hsame : HeapGrows s s := ⟨Nat.le_refl _, h, rfl, rfl⟩
    rw [mapPage_oldTable p f ht]
    exact hsame.setPage _ _ _

theorem unmapPage_heapGrows {s : PagingState} (v : Word) (h : s.heapCurrent.toNat ≤ 0x800000) :
    HeapGrows s (unmapPage s v) := by
  have hsame : HeapGrows s s := ⟨Nat.le_refl _, h, rfl, rfl⟩
  by_cases ht : tables s.mem s.currentDirectory (dirIndex v) = 0
  · rw [unmapPage_noTable ht]
    exact hsame
  · rw [unmapPage_table ht]
    exact hsame.setPage _ _ _

theorem setFrame_heapGrows {s : PagingState} (a : Word) (h : s.heapCurrent.toNat ≤ 0x800000) :
    HeapGrows s (setFrame s a) := by
  unfold setFrame
  by_cases hout : s.nframes ≤ a / pageSize
  · simp only [if_pos hout]
    exact ⟨Nat.le_refl _, h, rfl, rfl⟩
  · simp only [if_neg hout]
    exact ⟨Nat.le_refl _, h, rfl, rfl⟩

theorem allocFrame_heapGrows {s : PagingState} (v : Word) (k w : Bool)
    (h : s.heapCurrent.toNat ≤ 0x800000) : HeapGrows s (allocFrame s v k w) := by
  unfold allocFrame
  by_cases hfull : firstFreeFrame s * pageSize = -1
  · simp only [if_pos hfull]
    exact ⟨Nat.le_refl _, h, rfl, rfl⟩
  · simp only [if_neg hfull]
    have hset := setFrame_heapGrows (firstFreeFrame s * pageSize) h
    exact hset.trans (mapPage_heapGrows _ _ _ hset.le)

/-- `map_page` takes at most a page table from the heap. -/
theorem mapPage_heap_le {s : PagingState} (v p f : Word) (h : s.heapCurrent.toNat ≤ 0x800000) :
    (mapPage s v p f).heapCurrent.toNat ≤ s.heapCurrent.toNat + 8191 := by
  by_cases ht : tables s.mem s.currentDirectory (dirIndex v) = 0
  · have hle := kmallocA_le pageTable_size h
    rw [mapPage_newTable p f ht, setPage_heapCurrent, newPageTable_globals]
    omega
  · rw [mapPage_oldTable p f ht]
    exact Nat.le_add_right _ _

theorem allocFrame_heap_le {s : PagingState} (v : Word) (k w : Bool)
    (h : s.heapCurrent.toNat ≤ 0x800000) :
    (allocFrame s v k w).heapCurrent.toNat ≤ s.heapCurrent.toNat + 8191 := by
  have hheap : ∀ a, (setFrame s a).heapCurrent = s.heapCurrent := by
    intro a
    unfold setFrame
    simp only [apply_ite PagingState.heapCurrent, ite_self]
  unfold allocFrame
  by_cases hfull : firstFreeFrame s * pageSize = -1
  · simp only [if_pos hfull]
    exact Nat.le_add_right _ _
  · simp only [if_neg hfull]
    have hmap (f : Word) := mapPage_heap_le (s := setFrame s (firstFreeFrame s * pageSize)) v
      (firstFreeFrame s * pageSize) f (by rwa [hheap])
    rw [hheap] at hmap
    exact hmap _

end KyroKernel
