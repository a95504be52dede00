import KyroKernel.Paging.Operations

/-!
# `paging_init`

The two allocations of `paging_init` and its mapping loop over a state that satisfies
`Layout`, and where the heap stands afterwards when `paging_init` runs first.
-/

namespace KyroKernel

open Foundations

variable {lo : Nat} {D : List Word} {s : PagingState}

/-- Size in bytes of the frame bitmap: one bit for each of the 4096 frames. -/
theorem bitmap_bytes : ((0x1000000 / pageSize) / 8 : Word) = 512 := by decide

/-- When the heap provides it, the bitmap lies at the old `heap_current`. -/
theorem pagingInitBitmap_eq {hc' : Word} (hk : kmalloc s.heapCurrent 512 = (s.heapCurrent, hc')) :
    pagingInitBitmap s = { s with
      mem := s.mem.fill s.heapCurrent 0 512, heapCurrent := hc'
      frames := s.heapCurrent, nframes := 4096 } := by
  have h512 : (512 : Word).toNat = 512 := by decide
  unfold pagingInitBitmap
  simp only [bitmap_bytes, hk, h512]
  rfl

/-- `paging_init` puts the bitmap at the old `heap_current`, zeroed; directories and tables
keep their entries. -/
theorem pagingInitBitmap_spec (h : Layout lo s.mem s.heapCurrent D)
    (hfit : (kmalloc s.heapCurrent 512).1 ≠ 0) :
    Layout lo (pagingInitBitmap s).mem (pagingInitBitmap s).heapCurrent D ∧
    SameEntries D s.mem (pagingInitBitmap s).mem ∧
    (∀ d ∈ D, physicalAddr (pagingInitBitmap s).mem d = physicalAddr s.mem d) ∧
    pagingInitBitmap s = { s with
      mem := s.mem.fill s.heapCurrent 0 512, heapCurrent := s.heapCurrent + 512
      frames := s.heapCurrent, nframes := 4096 } ∧
    (s.heapCurrent + 512).toNat = s.heapCurrent.toNat + 512 ∧
    s.heapCurrent.toNat + 512 < 0x800000 := by
  have hsize : RequestSize 512 512 := ⟨by decide, by decide, by decide⟩
  have hle := h.heap_le
  rcases kmalloc_cases hsize hle with ⟨hk, hadd, hlt⟩ | ⟨hk, -⟩
  · have heq : pagingInitBitmap s = { s with
        mem := s.mem.fill s.heapCurrent 0 512, heapCurrent := s.heapCurrent + 512
        frames := s.heapCurrent, nframes := 4096 } := pagingInitBitmap_eq hk
    -- The bitmap lies above everything in use.
    have hread : ∀ x : Word, lo ≤ x.toNat → x.toNat + 4 ≤ s.heapCurrent.toNat →
        (s.mem.fill s.heapCurrent 0 512).read32 x = s.mem.read32 x := fun x _ hx =>
      read32_fill_clear (by decide) (.inl hx) (by omega) (by omega)
    have hsame := h.sameEntries hread
    rw [heq]
    exact ⟨h.frame (by simp only; omega) (by simp only; omega) hsame.tables, hsame,
      h.physicalAddr_eq hread, rfl, hadd, hlt⟩
  · rw [hk] at hfit
    exact absurd rfl hfit

/-- `paging_init` makes a zeroed directory current, with 0 in its `physical_addr`. -/
theorem pagingInitKernelDirectory_spec (h : Layout lo s.mem s.heapCurrent D)
    (hfit : (kmallocA s.heapCurrent (BitVec.ofNat 32 sizeofPageDirectory)).1 ≠ 0) :
    ∃ d : Word, s.heapCurrent.toNat ≤ d.toNat ∧
      d.toNat = (s.heapCurrent.toNat + 4095) / 4096 * 4096 ∧
      (pagingInitKernelDirectory s).heapCurrent.toNat = d.toNat + 8196 ∧
      pagingInitKernelDirectory s = { s with
        mem := s.mem.fill d 0 8196
        heapCurrent := (pagingInitKernelDirectory s).heapCurrent
        kernelDirectory := d, currentDirectory := d } ∧
      Layout lo (pagingInitKernelDirectory s).mem (pagingInitKernelDirectory s).heapCurrent
        (d :: D) ∧
      SameEntries D s.mem (pagingInitKernelDirectory s).mem ∧
      (∀ e ∈ D, physicalAddr (pagingInitKernelDirectory s).mem e = physicalAddr s.mem e) ∧
      physicalAddr (pagingInitKernelDirectory s).mem d = 0 ∧
      (∀ v, pte (pagingInitKernelDirectory s).mem d v = 0) ∧
      ∀ x : Word, x.toNat + 4 ≤ s.heapCurrent.toNat →
        (pagingInitKernelDirectory s).mem.read32 x = s.mem.read32 x := by
  have hle := h.heap_le
  obtain ⟨d, hd, hk⟩ := kmallocA_cases pageDirectory_size hle
  rcases hk with ⟨hk, hadd, hlt⟩ | ⟨hk, -⟩
  · have heq : pagingInitKernelDirectory s = { s with
        mem := s.mem.fill d 0 8196, heapCurrent := d + BitVec.ofNat 32 sizeofPageDirectory
        kernelDirectory := d, currentDirectory := d } := by
      unfold pagingInitKernelDirectory
      rw [hk]
      simp only [sizeofPageDirectory]
    have hread : ∀ x : Word, x.toNat + 4 ≤ s.heapCurrent.toNat →
        (s.mem.fill d 0 8196).read32 x = s.mem.read32 x := fun x hx =>
      read32_fill_clear (by decide) (.inl (by omega)) (by omega) (by omega)
    have hzero : ∀ i : Word, i.toNat < 1024 → tables (s.mem.fill d 0 8196) d i = 0 := by
      intro i hi
      have hs := toNat_tablesSlot (d := d) (i := i) (by omega)
      exact read32_fill_inside (by omega) (by omega) (by decide)
    have hphys : physicalAddr (s.mem.fill d 0 8196) d = 0 := by
      have hp := toNat_physicalAddrSlot (d := d) (by omega)
      exact read32_fill_inside (by omega) (by omega) (by decide)
    obtain ⟨hl, hsame, hpa, hpte⟩ := h.newDir (d + BitVec.ofNat 32 sizeofPageDirectory)
      (by omega) (by omega) (by omega) (by omega) hread hzero
    rw [heq]
    exact ⟨d, by omega, hd, hadd, rfl, hl, hsame, hpa, hphys, hpte, hread⟩
  · rw [hk] at hfit
    exact absurd rfl hfit

/-! ## The heap after the mapping loop -/

/-- `map_page` on an existing table asks for no memory and keeps the tables. -/
theorem mapPage_of_table (v p f : Word) (h : Layout lo s.mem s.heapCurrent D)
    (hcur : s.currentDirectory ∈ D) (ht : tables s.mem s.currentDirectory (dirIndex v) ≠ 0) :
    (mapPage s v p f).heapCurrent = s.heapCurrent ∧
      ∀ i : Word, i.toNat < 1024 → tables (mapPage s v p f).mem s.currentDirectory i =
        tables s.mem s.currentDirectory i := by
  rw [mapPage_oldTable p f ht]
  exact ⟨rfl, fun i hi =>
    setPage_tables _ h hcur (dirIndex_lt v) (tableIndex_lt v) ht hcur hi⟩

/-- The heap provides a page when it has room for one after the next page boundary. -/
theorem kmallocA_table_ne_zero (h : Layout lo s.mem s.heapCurrent D)
    (hroom : (s.heapCurrent.toNat + 4095) / 4096 * 4096 + 4096 < 0x800000) :
    (kmallocA s.heapCurrent (BitVec.ofNat 32 sizeofPageTable)).1 ≠ 0 := by
  obtain ⟨a, ha, hk⟩ := kmallocA_cases pageTable_size h.heap_le
  have hlow := h.low
  have hlo := h.lo_le
  rcases hk with ⟨hk, -, -⟩ | ⟨-, hge⟩
  · rw [hk]
    rintro rfl
    simp at ha
    omega
  · omega

/-- `map_page` on a missing table takes one page from the heap for it. -/
theorem mapPage_of_missing (v p f : Word) (h : Layout lo s.mem s.heapCurrent D)
    (hcur : s.currentDirectory ∈ D) (ht : tables s.mem s.currentDirectory (dirIndex v) = 0)
    (hroom : (s.heapCurrent.toNat + 4095) / 4096 * 4096 + 4096 < 0x800000) :
    (mapPage s v p f).heapCurrent.toNat = (s.heapCurrent.toNat + 4095) / 4096 * 4096 + 4096 ∧
      ∀ i : Word, i.toNat < 1024 → (tables (mapPage s v p f).mem s.currentDirectory i ≠ 0 ↔
        i = dirIndex v ∨ tables s.mem s.currentDirectory i ≠ 0) := by
  obtain ⟨t, hc', hn⟩ := exists_newTable s h.heap_le
  obtain ⟨a, ha, hk⟩ := kmallocA_cases pageTable_size h.heap_le
  have hlow := h.low
  have hlo := h.lo_le
  rw [hn.alloc] at hk
  -- There is room, so the request succeeds.
  obtain ⟨rfl, rfl, hadd⟩ : t = a ∧ hc' = a + BitVec.ofNat 32 sizeofPageTable ∧
      (a + BitVec.ofNat 32 sizeofPageTable).toNat = a.toNat + 4096 := by
    rcases hk with ⟨hk, hadd, -⟩ | ⟨-, hge⟩
    · exact ⟨(Prod.mk.inj hk).1, (Prod.mk.inj hk).2, hadd⟩
    · omega
  have hne : t ≠ 0 := by
    rintro rfl
    simp at ha
    omega
  have hheap : (newPageTable s (dirIndex v) f).heapCurrent =
      t + BitVec.ofNat 32 sizeofPageTable := by
    rw [newPageTable_globals, hn.alloc]
  have hcur' := (hn.keeps (f := f) h hcur (dirIndex_lt v)).currentDirectory
  have hself := (hn.self (f := f) h hcur (dirIndex_lt v)).1
  have hl := hn.layout (f := f) h hcur (dirIndex_lt v) ht
  rw [← hheap] at hl
  have heq := mapPage_newTable p f ht
  -- The second half of `map_page` writes an entry of the new table, which moves no table.
  have htab : ∀ i : Word, i.toNat < 1024 → tables (mapPage s v p f).mem s.currentDirectory i =
      tables (newPageTable s (dirIndex v) f).mem s.currentDirectory i := by
    intro i hi
    rw [heq]
    exact setPage_tables _ hl (by rw [hcur']; exact hcur) (dirIndex_lt v) (tableIndex_lt v)
      (by rw [hcur', hself]; exact hne) hcur hi
  refine ⟨?_, fun i hi => ?_⟩
  · rw [heq, setPage_heapCurrent, hheap, hadd, ha]
  · rw [htab i hi]
    by_cases hiv : i = dirIndex v
    · subst hiv
      rw [hself]
      exact ⟨fun _ => .inl rfl, fun _ => hne⟩
    · rw [hn.tables_of_ne h hcur (dirIndex_lt v) hcur hi fun hh => hiv hh.2]
      exact ⟨.inr, fun hor => hor.resolve_left hiv⟩

/-- The state after `n` rounds of the loop, started on an empty current directory: round 0
takes the page at `base` for table 0 and round 1024 the next one for table 1, and the first
`n` pages are mapped to the frames of the same number. -/
structure LoopState (lo : Nat) (D : List Word) (s : PagingState) (base n : Nat)
    (s' : PagingState) : Prop where
  layout : Layout lo s'.mem s'.heapCurrent D
  keeps : Keeps lo D s s'
  none : n = 0 → s'.heapCurrent = s.heapCurrent
  one : 0 < n → n ≤ 1024 → s'.heapCurrent.toNat = base + 4096
  two : 1024 < n → s'.heapCurrent.toNat = base + 8192
  tables : ∀ i : Word, i.toNat < 1024 → (tables s'.mem s.currentDirectory i ≠ 0 ↔
    i.toNat = 0 ∧ 0 < n ∨ i.toNat = 1 ∧ 1024 < n)
  entries : ∀ v : Word, (v >>> 12).toNat < n → pte s'.mem s.currentDirectory v =
    frameOf v ||| (pagePresent ||| pageWritable)

/-- The page boundary after a page that starts at a boundary. -/
theorem align_next {base : Nat} (h : base % 4096 = 0) :
    (base + 4096 + 4095) / 4096 * 4096 = base + 4096 := by omega

theorem toNat_dirIndex_round {k : Nat} (hk : k < 2048) :
    (dirIndex (BitVec.ofNat 32 (4096 * k))).toNat = k / 1024 := by
  rw [toNat_dirIndex, BitVec.toNat_ofNat]
  omega

theorem toNat_page_round {k : Nat} (hk : k < 2048) :
    ((BitVec.ofNat 32 (4096 * k)) >>> 12).toNat = k := by
  rw [BitVec.toNat_ushiftRight, BitVec.toNat_ofNat, Nat.shiftRight_eq_div_pow]
  omega

/-- Addresses in the same page have the same page address. -/
theorem frameOf_congr {a v : Word} (h : a >>> 12 = v >>> 12) : frameOf a = frameOf v := by
  have hnat := congrArg BitVec.toNat h
  rw [BitVec.toNat_ushiftRight, BitVec.toNat_ushiftRight, Nat.shiftRight_eq_div_pow,
    Nat.shiftRight_eq_div_pow] at hnat
  apply BitVec.eq_of_toNat_eq
  rw [toNat_frameOf, toNat_frameOf]
  omega

/-- Round `k` adds the entry of page `k` to those of the earlier rounds. -/
theorem identityMap_round {k : Nat} (hk : k < 2048)
    (h : Layout lo (identityMap s k).mem (identityMap s k).heapCurrent D)
    (hcur : (identityMap s k).currentDirectory ∈ D)
    (hready : TableReady (identityMap s k) (BitVec.ofNat 32 (4096 * k)))
    (hold : ∀ v : Word, (v >>> 12).toNat < k →
      pte (identityMap s k).mem (identityMap s k).currentDirectory v =
        frameOf v ||| (pagePresent ||| pageWritable)) :
    ∀ v : Word, (v >>> 12).toNat < k + 1 →
      pte (identityMap s (k + 1)).mem (identityMap s k).currentDirectory v =
        frameOf v ||| (pagePresent ||| pageWritable) := by
  intro v hv
  obtain ⟨-, -, hpte, -⟩ := mapPage_spec (BitVec.ofNat 32 (4096 * k))
    (BitVec.ofNat 32 (4096 * k)) (pagePresent ||| pageWritable) h hcur
  rw [identityMap, hpte hready _ hcur v]
  have hround := toNat_page_round hk
  by_cases hpage : v >>> 12 = BitVec.ofNat 32 (4096 * k) >>> 12
  · -- The page of this round.
    rw [if_pos ⟨rfl, hpage⟩, frameOf_congr hpage]
  · have hne : (v >>> 12).toNat ≠ k := by
      intro heq
      exact hpage (BitVec.eq_of_toNat_eq (heq.trans hround.symm))
    rw [if_neg fun hh => hpage hh.2]
    exact hold v (by omega)

theorem identityMap_loopState (base : Nat) (h : Layout lo s.mem s.heapCurrent D)
    (hcur : s.currentDirectory ∈ D)
    (hempty : ∀ i : Word, i.toNat < 1024 → tables s.mem s.currentDirectory i = 0)
    (hbase : (s.heapCurrent.toNat + 4095) / 4096 * 4096 = base)
    (hroom : base + 8192 < 0x800000) {n : Nat} (hn : n ≤ 2048) :
    LoopState lo D s base n (identityMap s n) := by
  induction n with
  | zero =>
    refine ⟨h, .refl .., fun _ => rfl, fun h0 => absurd h0 (by decide),
      fun h0 => absurd h0 (by decide), fun i hi => ?_, fun v hv => absurd hv (by omega)⟩
    simp [identityMap, hempty i hi]
  | succ k ih =>
    -- Whether round `k` creates a table decides where the heap goes.
    obtain ⟨hl, hkeeps, h0, h1, h2, htab, hent⟩ := ih (by omega)
    have hk := toNat_dirIndex_round (k := k) (by omega)
    have hd := dirIndex_lt (BitVec.ofNat 32 (4096 * k))
    have hcur' : (identityMap s k).currentDirectory = s.currentDirectory := hkeeps.currentDirectory
    have hmem : (identityMap s k).currentDirectory ∈ D := by rw [hcur']; exact hcur
    have hspec := mapPage_spec (BitVec.ofNat 32 (4096 * k)) (BitVec.ofNat 32 (4096 * k))
      (pagePresent ||| pageWritable) hl hmem
    have hhere := htab _ hd
    have hentries := identityMap_round (by omega) hl hmem
    rw [hcur'] at hentries
    rw [identityMap] at hentries ⊢
    by_cases hround : k = 0 ∨ k = 1024
    · -- The first page of a 4 MB region: its table is created.
      have hmissing : tables (identityMap s k).mem (identityMap s k).currentDirectory
          (dirIndex (BitVec.ofNat 32 (4096 * k))) = 0 := by
        rw [hcur']
        by_contra hne
        have := hhere.mp hne
        omega
      have hheap : ((identityMap s k).heapCurrent.toNat + 4095) / 4096 * 4096 =
          if k = 0 then base else base + 4096 := by
        rcases hround with hz | hz
        · rw [h0 hz, hbase, if_pos hz]
        · rw [h1 (by omega) (by omega), if_neg (by omega), align_next (by omega)]
      obtain ⟨hnew, htables⟩ := mapPage_of_missing (BitVec.ofNat 32 (4096 * k))
        (BitVec.ofNat 32 (4096 * k)) (pagePresent ||| pageWritable) hl hmem hmissing
        (by rw [hheap]; split_ifs <;> omega)
      have hready : TableReady (identityMap s k) (BitVec.ofNat 32 (4096 * k)) := by
        refine .inr (kmallocA_table_ne_zero hl ?_)
        rw [hheap]
        split_ifs <;> omega
      rw [hheap] at hnew
      rw [hcur'] at htables
      refine ⟨hspec.1, hkeeps.trans hspec.2.1, fun hz => absurd hz (by omega),
        fun _ hle => ?_, fun hlt => ?_, fun i hi => ?_, hentries hready hent⟩
      · rw [hnew, if_pos (by omega)]
      · rw [hnew, if_neg (by omega)]
      · rw [htables i hi, htab i hi, ← BitVec.toNat_inj, hk]
        omega
    · -- The table of the region is there already.
      have hpresent : tables (identityMap s k).mem (identityMap s k).currentDirectory
          (dirIndex (BitVec.ofNat 32 (4096 * k))) ≠ 0 := by
        rw [hcur']
        exact hhere.mpr (by omega)
      obtain ⟨hheap, htables⟩ := mapPage_of_table (BitVec.ofNat 32 (4096 * k))
        (BitVec.ofNat 32 (4096 * k)) (pagePresent ||| pageWritable) hl hmem hpresent
      rw [hcur'] at htables
      refine ⟨hspec.1, hkeeps.trans hspec.2.1, fun hz => absurd hz (by omega),
        fun _ hle => ?_, fun hlt => ?_, fun i hi => ?_, hentries (.inl hpresent) hent⟩
      · rw [hheap, h1 (by omega) (by omega)]
      · rw [hheap, h2 (by omega)]
      · rw [htables i hi, htab i hi]
        omega

/-! ## `paging_init` at boot -/

/-- The state of the paging globals before anything ran; memory is arbitrary. -/
structure AtBoot (s : PagingState) : Prop where
  heapCurrent : s.heapCurrent = heapStart
  kernelDirectory : s.kernelDirectory = 0
  currentDirectory : s.currentDirectory = 0
  frames : s.frames = 0
  nframes : s.nframes = 0

/-- The state `paging_init` leaves behind at boot: the bitmap at 3 MB with all bits clear,
the kernel directory at `0x301000` and its two tables up to `0x306000`, with the first 8 MB
mapped to themselves. -/
structure AfterPagingInit (s : PagingState) : Prop where
  layout : Layout 0x300200 s.mem s.heapCurrent [0x301000]
  kernelDirectory : s.kernelDirectory = 0x301000
  currentDirectory : s.currentDirectory = 0x301000
  frames : s.frames = 0x300000
  nframes : s.nframes = 4096
  heapCurrent : s.heapCurrent = 0x306000
  bitmap : ∀ idx : Word, idx.toNat < 128 → s.mem.read32 (framesSlot s.frames idx) = 0
  identity : ∀ v : Word, (v >>> 12).toNat < 2048 → pte s.mem 0x301000 v =
    frameOf v ||| (pagePresent ||| pageWritable)

theorem toNat_framesSlot {a idx : Word} (h : a.toNat + 4 * idx.toNat < 2 ^ 32) :
    (framesSlot a idx).toNat = a.toNat + 4 * idx.toNat :=
  toNat_tablesSlot h

/-- The bitmap words of a bitmap at 3 MB. -/
theorem toNat_bitmapSlot {idx : Word} (h : idx.toNat < 128) :
    (framesSlot 0x300000 idx).toNat = 0x300000 + 4 * idx.toNat := by
  have h3 : (0x300000 : Word).toNat = 0x300000 := by decide
  rw [toNat_framesSlot (by rw [h3]; omega), h3]

/-- The state before the mapping loop, at boot. -/
theorem beforeLoop_of_atBoot (hb : AtBoot s) :
    let s' := pagingInitKernelDirectory (pagingInitBitmap s)
    Layout 0x300200 s'.mem s'.heapCurrent [0x301000] ∧
    s'.kernelDirectory = 0x301000 ∧ s'.currentDirectory = 0x301000 ∧ s'.frames = 0x300000 ∧
    s'.nframes = 4096 ∧ s'.heapCurrent.toNat = 0x303004 ∧
    (∀ i : Word, i.toNat < 1024 → tables s'.mem 0x301000 i = 0) ∧
    (∀ idx : Word, idx.toNat < 128 → s'.mem.read32 (framesSlot s'.frames idx) = 0) ∧
    physicalAddr s'.mem 0x301000 = 0 := by
  intro s'
  have hk : kmalloc s.heapCurrent 512 = (s.heapCurrent, 0x300200) := by
    rw [hb.heapCurrent]
    decide
  have heq := pagingInitBitmap_eq hk
  have hheap : (pagingInitBitmap s).heapCurrent = 0x300200 := by rw [heq]
  -- With no directory yet the layout only bounds the heap.
  have hl : Layout 0x300200 (pagingInitBitmap s).mem (pagingInitBitmap s).heapCurrent [] := by
    rw [hheap]
    exact ⟨by decide, by decide, by decide, by simp, by simp, by simp, by simp, by simp⟩
  have hfit : (kmallocA (pagingInitBitmap s).heapCurrent
      (BitVec.ofNat 32 sizeofPageDirectory)).1 ≠ 0 := by
    rw [hheap]
    decide
  obtain ⟨d, -, hd, hdheap, heq', hl', -, -, hphys, -, hread⟩ :=
    pagingInitKernelDirectory_spec hl hfit
  -- The bitmap ends at 3 MB + 512, so the first aligned page is the next one.
  have hd0 : d = 0x301000 := by
    apply BitVec.eq_of_toNat_eq
    rw [hd, hheap]
    decide
  subst hd0
  have hframes : s'.frames = 0x300000 := by
    show (pagingInitKernelDirectory (pagingInitBitmap s)).frames = 0x300000
    rw [heq', heq]
    exact hb.heapCurrent
  have hmem : s'.mem = (pagingInitBitmap s).mem.fill 0x301000 0 8196 := by
    show (pagingInitKernelDirectory (pagingInitBitmap s)).mem = _
    rw [heq']
  refine ⟨hl', ?_, ?_, hframes, ?_, hdheap, fun i hi => ?_, fun idx hidx => ?_, hphys⟩
  · show (pagingInitKernelDirectory (pagingInitBitmap s)).kernelDirectory = _
    rw [heq']
  · show (pagingInitKernelDirectory (pagingInitBitmap s)).currentDirectory = _
    rw [heq']
  · show (pagingInitKernelDirectory (pagingInitBitmap s)).nframes = _
    rw [heq', heq]
  · have hs := toNat_tablesSlot (d := 0x301000) (i := i) (by simp; omega)
    rw [hmem]
    exact read32_fill_inside (by rw [hs]; omega) (by rw [hs]; omega) (by decide)
  · rw [hframes]
    have hs := toNat_bitmapSlot hidx
    have hbm : (pagingInitBitmap s).mem = s.mem.fill 0x300000 0 512 := by
      rw [heq, hb.heapCurrent]
      rfl
    have hbelow : (framesSlot 0x300000 idx).toNat + 4 ≤ (pagingInitBitmap s).heapCurrent.toNat := by
      rw [hheap, hs]
      simp
      omega
    rw [hread _ hbelow, hbm]
    exact read32_fill_inside (by rw [hs]; simp) (by rw [hs]; simp; omega) (by decide)

/-- Switching to the kernel directory at the end keeps what the loop established. -/
theorem afterPagingInit_of_loop {t : PagingState}
    (hloop : LoopState 0x300200 [0x301000] s 0x304000 2048 t)
    (hkd : s.kernelDirectory = 0x301000) (hcd : s.currentDirectory = 0x301000)
    (hfr : s.frames = 0x300000) (hnf : s.nframes = 4096)
    (hbitmap : ∀ idx : Word, idx.toNat < 128 → s.mem.read32 (framesSlot s.frames idx) = 0) :
    AfterPagingInit (enablePaging t) := by
  have hk := hloop.keeps
  refine ⟨hloop.layout, hk.kernelDirectory.trans hkd, hk.kernelDirectory.trans hkd,
    hk.frames.trans hfr, hk.nframes.trans hnf,
    BitVec.eq_of_toNat_eq (hloop.two (by decide)), fun idx hidx => ?_, fun v hv => ?_⟩
  · -- The bitmap lies below the layout, where the loop writes nothing.
    have hs := toNat_bitmapSlot hidx
    show t.mem.read32 (framesSlot t.frames idx) = 0
    rw [hk.frames.trans hfr, hk.below _ (by rw [hs]; omega) (by rw [hs]; omega), ← hfr]
    exact hbitmap idx hidx
  · rw [← hcd]
    exact hloop.entries v hv

theorem afterPagingInit_of_atBoot (hb : AtBoot s) : AfterPagingInit (pagingInit s) := by
  obtain ⟨hl, hkd, hcd, hfr, hnf, hheap, hempty, hbitmap, -⟩ := beforeLoop_of_atBoot hb
  have hloop := identityMap_loopState (n := 2048) 0x304000 hl (by rw [hcd]; simp)
    (by rw [hcd]; exact hempty) (by rw [hheap]) (by decide) (by decide)
  exact afterPagingInit_of_loop hloop hkd hcd hfr hnf hbitmap

/-- The kernel directory has tables for the first 8 MB only. -/
theorem tables_pagingInit (hb : AtBoot s) {i : Word} (hi : i.toNat < 1024) (hregion : 2 ≤ i.toNat) :
    tables (pagingInit s).mem 0x301000 i = 0 := by
  obtain ⟨hl, -, hcd, -, -, hheap, hempty, -, -⟩ := beforeLoop_of_atBoot hb
  have hloop := identityMap_loopState (n := 2048) 0x304000 hl (by rw [hcd]; simp)
    (by rw [hcd]; exact hempty) (by rw [hheap]) (by decide) (by decide)
  have htables := hloop.tables i hi
  rw [hcd] at htables
  by_contra hne
  rcases htables.mp hne with ⟨h0, -⟩ | ⟨h1, -⟩ <;> omega

end KyroKernel
