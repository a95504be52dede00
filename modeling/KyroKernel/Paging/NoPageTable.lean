import KyroKernel.Heap.FailedRequests
import KyroKernel.Paging.DirectoryEntries
import KyroKernel.Paging.Runs

/-!
# `map_page` without memory for a page table

`map_page` does not look at what `kmalloc_ap` returned. With the heap exhausted it stores the NULL
pointer as the table of the region, clears the first page of memory through it and marks the region
present in `tables_physical`: the processor finds a page table at address 0, the kernel finds none.
-/

namespace KyroKernel

open Foundations

/-! ## Runs -/

/-- The calls of a run after `paging_init`, and the stores of all other code. -/
inductive MappingOp where
  | heap (call : HeapCall)
  | store (addr : Word) (byte : Byte)
  | createPageDirectory
  | switchPageDirectory (dir : Word)
  | mapPage (virtualAddr physicalAddr flags : Word)
  | unmapPage (virtualAddr : Word)
  | allocFrame (virtualAddr : Word) (isKernel isWritable : Bool)

/-- One call. None of them needs to succeed: the NULL that `create_page_directory` returns without
memory counts as a directory too. -/
inductive MappingStep : PagingSystem → MappingOp → PagingSystem → Prop where
  | heap {s : PagingState} {D : List Word} {c : HeapCall} :
      MappingStep ⟨s, D⟩ (.heap c) ⟨{ s with heapCurrent := (c.exec s.heapCurrent).2 }, D⟩
  | store {s : PagingState} {D : List Word} {a : Word} {b : Byte} :
      MappingStep ⟨s, D⟩ (.store a b) ⟨{ s with mem := s.mem.write8 a b }, D⟩
  | createPageDirectory {s : PagingState} {D : List Word} :
      MappingStep ⟨s, D⟩ .createPageDirectory
        ⟨(createPageDirectory s).2, (createPageDirectory s).1 :: D⟩
  | switchPageDirectory {s : PagingState} {D : List Word} {dir : Word} (hdir : dir ∈ D) :
      MappingStep ⟨s, D⟩ (.switchPageDirectory dir) ⟨switchPageDirectory s dir, D⟩
  | mapPage {s : PagingState} {D : List Word} {v p f : Word} :
      MappingStep ⟨s, D⟩ (.mapPage v p f) ⟨mapPage s v p f, D⟩
  | unmapPage {s : PagingState} {D : List Word} {v : Word} :
      MappingStep ⟨s, D⟩ (.unmapPage v) ⟨unmapPage s v, D⟩
  | allocFrame {s : PagingState} {D : List Word} {v : Word} {k w : Bool} :
      MappingStep ⟨s, D⟩ (.allocFrame v k w) ⟨allocFrame s v k w, D⟩

/-- The start of a run: `paging_init` has returned. -/
def MappingBoot (y : PagingSystem) : Prop :=
  ∃ s, AtBoot s ∧ y = ⟨pagingInit s, [(pagingInit s).kernelDirectory]⟩

/-! ## The claim about one call -/

/-- The heap has no page for another page table. -/
def NoTableLeft (s : PagingState) : Prop :=
  (kmallocA s.heapCurrent (BitVec.ofNat 32 sizeofPageTable)).1 = 0

/-- The call changed neither array of the current directory, left no entry for the region of `v`
that is present without a table, and wrote nothing outside the heap. -/
structure FailsCleanly (s s' : PagingState) (v : Word) : Prop where
  tables : ∀ i : Word, i.toNat < 1024 →
    tables s'.mem s.currentDirectory i = tables s.mem s.currentDirectory i
  tablesPhysical : ∀ i : Word, i.toNat < 1024 →
    tablesPhysical s'.mem s.currentDirectory i = tablesPhysical s.mem s.currentDirectory i
  backed : KyroKernel.tablesPhysical s'.mem s.currentDirectory (dirIndex v) &&& pagePresent ≠ 0 →
    KyroKernel.tables s'.mem s.currentDirectory (dirIndex v) ≠ 0
  memory : ∀ a : Word, a < heapStart ∨ heapEnd ≤ a → s'.mem a = s.mem a

/-! ## Where directories lie -/

/-- A page boundary in the heap, or NULL. -/
structure DirectoryAddr (d : Word) : Prop where
  le : d.toNat ≤ 0x800000
  aligned : d.toNat % 4096 = 0

/-- The invariant of the runs. -/
structure MappingInv (y : PagingSystem) : Prop where
  heap_le : y.state.heapCurrent.toNat ≤ 0x800000
  current : y.state.currentDirectory ∈ y.directories
  directories : ∀ d ∈ y.directories, DirectoryAddr d

variable {s s' : PagingState} {D : List Word} {v p f : Word}

/-- `create_page_directory` returns a page boundary, or NULL. -/
theorem directoryAddr_createPageDirectory (h : s.heapCurrent.toNat ≤ 0x800000) :
    DirectoryAddr (createPageDirectory s).1 := by
  obtain ⟨a, ha, hk⟩ := kmallocA_cases pageDirectory_size h
  rw [createPageDirectory_fst]
  rcases hk with ⟨hk, -, -⟩ | ⟨hk, -⟩
  · rw [hk]
    exact ⟨by simp only; omega, by simp only; omega⟩
  · rw [hk]
    exact ⟨by simp, by simp⟩

theorem mappingInv_of_boot {y : PagingSystem} (h : MappingBoot y) : MappingInv y := by
  obtain ⟨s, hs, rfl⟩ := h
  have hp := afterPagingInit_of_atBoot hs
  refine ⟨?_, ?_, List.forall_mem_singleton.mpr ?_⟩
  · show (pagingInit s).heapCurrent.toNat ≤ 0x800000
    simp [hp.heapCurrent]
  · show (pagingInit s).currentDirectory ∈ [(pagingInit s).kernelDirectory]
    simp [hp.currentDirectory, hp.kernelDirectory]
  · rw [hp.kernelDirectory]
    exact ⟨by simp, by simp⟩

/-- A call that keeps the current directory and the end of the heap. -/
theorem MappingInv.of_heapGrows (h : MappingInv ⟨s, D⟩) (hg : HeapGrows s s') :
    MappingInv ⟨s', D⟩ := by
  refine ⟨hg.le, ?_, h.directories⟩
  show s'.currentDirectory ∈ D
  rw [hg.currentDirectory]
  exact h.current

theorem mappingInv_step {y y' : PagingSystem} {op : MappingOp} (h : MappingInv y)
    (hstep : MappingStep y op y') : MappingInv y' := by
  have hle := h.heap_le
  cases hstep with
  | @heap s D c => exact ⟨HeapCall.exec_le hle c, h.current, h.directories⟩
  | @store s D a b => exact ⟨hle, h.current, h.directories⟩
  | @createPageDirectory s D =>
    obtain ⟨hle', hcur, -⟩ := h.of_heapGrows (createPageDirectory_heapGrows hle)
    exact ⟨hle', List.mem_cons_of_mem _ hcur,
      List.forall_mem_cons.mpr ⟨directoryAddr_createPageDirectory hle, h.directories⟩⟩
  | @switchPageDirectory s D dir hdir => exact ⟨hle, hdir, h.directories⟩
  | @mapPage s D v p f => exact h.of_heapGrows (mapPage_heapGrows v p f hle)
  | @unmapPage s D v => exact h.of_heapGrows (unmapPage_heapGrows v hle)
  | @allocFrame s D v k w => exact h.of_heapGrows (allocFrame_heapGrows v k w hle)

theorem mappingInv_run {tr : List (PagingSystem × MappingOp)} {y : PagingSystem}
    (h : Run MappingBoot MappingStep tr y) : MappingInv y :=
  h.inv MappingInv (fun _ => mappingInv_of_boot) fun _ _ _ => mappingInv_step

/-! ## What `map_page` leaves behind -/

/-- The table pointer stays NULL: it lies outside the page that is cleared through it, or, in a
directory at address 0, inside. -/
theorem newPageTable_null {i f hc' : Word} (hd : DirectoryAddr s.currentDirectory)
    (hk : kmallocA s.heapCurrent (BitVec.ofNat 32 sizeofPageTable) = (0, hc'))
    (hi : i.toNat < 1024) : tables (newPageTable s i f).mem s.currentDirectory i = 0 := by
  have hle := hd.le
  have haligned := hd.aligned
  by_cases h0 : s.currentDirectory = 0
  · -- The slot is in the page that is cleared, and the entry is not.
    have hslot := toNat_tablesSlot (d := s.currentDirectory) (i := i) (by omega)
    have hphys := toNat_tablesPhysicalSlot (d := s.currentDirectory) (i := i) (by omega)
    have hclear : Clear (tablesSlot s.currentDirectory i) 4
        (tablesPhysicalSlot s.currentDirectory i) 4 := .inl (by omega)
    have hzero : ((s.mem.write32 (tablesSlot s.currentDirectory i) 0).fill 0 0 4096).read32
        (tablesSlot s.currentDirectory i) = 0 := by
      simp only [h0] at hslot ⊢
      exact read32_fill_inside (by simp) (by simp at hslot ⊢; omega) (by decide)
    rw [newPageTable_of_alloc hk]
    simp only [tables, Mem.read32_write32_self, sizeofPageTable]
    split_ifs
    · rw [read32_write32_clear hclear (by omega) (by omega),
        read32_write32_clear hclear (by omega) (by omega), hzero]
    · rw [read32_write32_clear hclear (by omega) (by omega), hzero]
  · have hne : s.currentDirectory.toNat ≠ 0 := fun hz => h0 (BitVec.eq_of_toNat_eq hz)
    refine (newPageTable_self hk hi (by omega) (by simp) (.inl ?_)).1
    simp
    omega

/-- The entries of a table at address 0. -/
theorem toNat_pagesSlot_zero {j : Word} (hj : j.toNat < 1024) :
    (pagesSlot 0 j).toNat = 4 * j.toNat := by
  rw [toNat_pagesSlot (by simp; omega)]
  simp

/-- The region is marked present in the array that the processor reads. -/
theorem mapPage_unbacked (hd : DirectoryAddr s.currentDirectory) (hfull : NoTableLeft s)
    (hmissing : tables s.mem s.currentDirectory (dirIndex v) = 0) :
    tablesPhysical (mapPage s v p f).mem s.currentDirectory (dirIndex v) = newPde 0 f := by
  rcases hk : kmallocA s.heapCurrent (BitVec.ofNat 32 sizeofPageTable) with ⟨t, hc'⟩
  unfold NoTableLeft at hfull
  rw [hk] at hfull
  obtain rfl : t = 0 := hfull
  have hi := dirIndex_lt v
  have hj := tableIndex_lt v
  have hle := hd.le
  have hnull := newPageTable_null (f := f) hd hk hi
  have hpde := newPageTable_tablesPhysical (i := dirIndex v) (f := f) hk
  have hcur : (newPageTable s (dirIndex v) f).currentDirectory = s.currentDirectory := by
    rw [newPageTable_globals]
  rw [mapPage_newTable p f hmissing, ← hpde]
  -- The entry goes into the first page of memory, below every `tables_physical`.
  have hphys := toNat_tablesPhysicalSlot (d := s.currentDirectory) (i := dirIndex v) (by omega)
  have hslot := toNat_pagesSlot_zero hj
  refine setPage_read32 ?_ (by omega) ?_
  · rw [hcur, hnull]
    omega
  · rw [hcur, hnull]
    exact .inr (by omega)

theorem newPde_present (t f : Word) : newPde t f &&& pagePresent ≠ 0 := by
  intro h0
  have hbit := congrArg (·.getLsbD 0) h0
  unfold newPde at hbit
  split_ifs at hbit <;> simp [pagePresent, pageWritable, pageUser] at hbit

theorem not_failsCleanly_of_full (hd : DirectoryAddr s.currentDirectory) (hfull : NoTableLeft s)
    (hmissing : tables s.mem s.currentDirectory (dirIndex v) = 0) (p f : Word) :
    ¬ FailsCleanly s (mapPage s v p f) v := by
  intro hclean
  have hpde := mapPage_unbacked (p := p) (f := f) hd hfull hmissing
  have hsame := hclean.tables (dirIndex v) (dirIndex_lt v)
  refine hclean.backed ?_ (hsame.trans hmissing)
  rw [hpde]
  exact newPde_present 0 f

/-- With no memory for a page table `map_page` never fails cleanly. -/
theorem not_failsCleanly {tr : List (PagingSystem × MappingOp)} {y : PagingSystem}
    (h : Run MappingBoot MappingStep tr y) (hfull : NoTableLeft y.state)
    (hmissing : tables y.state.mem y.state.currentDirectory (dirIndex v) = 0) (p f : Word) :
    ¬ FailsCleanly y.state (mapPage y.state v p f) v := by
  have hinv := mappingInv_run h
  exact not_failsCleanly_of_full (hinv.directories _ hinv.current) hfull hmissing p f

/-! ## The heap runs out after `paging_init` -/

/-- All but 16 bytes of the heap are taken. -/
def exhausted (s : PagingState) : PagingState := { s with heapCurrent := 0x7FFFF0 }

theorem noTableLeft_exhausted (s : PagingState) : NoTableLeft (exhausted s) := by
  show (kmallocA 0x7FFFF0 (BitVec.ofNat 32 sizeofPageTable)).1 = 0
  decide

/-- One request does it. -/
theorem mappingStep_exhausted (hheap : s.heapCurrent = 0x306000) :
    MappingStep ⟨s, D⟩ (.heap (.kmalloc 0x4F9FF0)) ⟨exhausted s, D⟩ := by
  have hlast : ((HeapCall.kmalloc 0x4F9FF0).exec s.heapCurrent).2 = 0x7FFFF0 := by
    rw [hheap]
    decide
  have hstep := MappingStep.heap (s := s) (D := D) (c := .kmalloc 0x4F9FF0)
  rw [hlast] at hstep
  exact hstep

theorem tables_exhausted (s : PagingState) (i : Word) :
    tables (exhausted s).mem (exhausted s).currentDirectory i =
      tables s.mem s.currentDirectory i := rfl

theorem run_exhausted : ∃ tr, Run MappingBoot MappingStep tr
    ⟨exhausted (pagingInit bootState), [(pagingInit bootState).kernelDirectory]⟩ := by
  have hboot : Run MappingBoot MappingStep []
      ⟨pagingInit bootState, [(pagingInit bootState).kernelDirectory]⟩ :=
    .start ⟨bootState, atBoot_bootState, rfl⟩
  have hheap := (afterPagingInit_of_atBoot atBoot_bootState).heapCurrent
  exact ⟨_, .snoc hboot (mappingStep_exhausted hheap)⟩

/-- There is no table for the third region. -/
theorem tables_exhausted_boot : tables (exhausted (pagingInit bootState)).mem
    (exhausted (pagingInit bootState)).currentDirectory (dirIndex 0x800000) = 0 := by
  rw [tables_exhausted, (afterPagingInit_of_atBoot atBoot_bootState).currentDirectory]
  exact tables_pagingInit atBoot_bootState (by decide) (by decide)

theorem not_failsCleanly_exhausted :
    ¬ FailsCleanly (exhausted (pagingInit bootState))
      (mapPage (exhausted (pagingInit bootState)) 0x800000 0x5000 0x3) 0x800000 := by
  obtain ⟨tr, hrun⟩ := run_exhausted
  exact not_failsCleanly hrun (noTableLeft_exhausted _) tables_exhausted_boot 0x5000 0x3

/-- Not in every reachable state without memory for a table does `map_page` fail cleanly. -/
theorem not_forall_failsCleanly : ¬ ∀ (tr : List (PagingSystem × MappingOp)) (y : PagingSystem)
    (v p f : Word), Run MappingBoot MappingStep tr y → NoTableLeft y.state →
    tables y.state.mem y.state.currentDirectory (dirIndex v) = 0 →
    FailsCleanly y.state (mapPage y.state v p f) v := by
  intro hall
  obtain ⟨tr, hrun⟩ := run_exhausted
  have hfull := noTableLeft_exhausted (pagingInit bootState)
  have hclean := hall _ _ 0x800000 0x5000 0x3 hrun hfull tables_exhausted_boot
  have hinv := mappingInv_run hrun
  have hcur := hinv.directories _ hinv.current
  exact not_failsCleanly_of_full hcur hfull tables_exhausted_boot 0x5000 0x3 hclean

end KyroKernel
