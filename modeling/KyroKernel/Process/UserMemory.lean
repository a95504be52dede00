import KyroKernel.Paging.Frames
import KyroKernel.Process.Operations

/-!
# What `create_process` does to memory

A user process gets a page directory of its own, and a frame for its stack from
`alloc_frame`. The frame is requested while the directory of the caller is current.
-/

namespace KyroKernel

open Foundations

variable {lo : Nat} {D : List Word} {s : KernelState}

/-- The virtual address of the stack page of a user process. -/
def stackPage : Word := 0xC0000000 - pageSize

/-- The paging state in which `create_process` looks at its mode: the record and the kernel
stack have been requested. -/
def afterStack (s : KernelState) : PagingState :=
  { s.toPagingState with
    heapCurrent := (kmalloc (kmalloc s.heapCurrent sizeofProcess).2 kernelStackSize).2 }

/-- The state in which `create_process` calls `alloc_frame` for a user process. -/
def stackRequest (s : KernelState) : PagingState := (createPageDirectory (afterStack s)).2

/-- The directory that `create_process` makes for a user process, 0 when it makes none. -/
def userDirectory (s : KernelState) : Word :=
  if (kmalloc s.heapCurrent sizeofProcess).1 = 0 then 0
  else (createPageDirectory (afterStack s)).1

/-- A creation that returned NULL added no directory. -/
def addDirectory (dir : Word) (D : List Word) : List Word :=
  if dir = 0 then D else dir :: D

theorem mem_addDirectory {d dir : Word} (h : d ∈ D) : d ∈ addDirectory dir D := by
  unfold addDirectory
  split_ifs
  · exact h
  · exact List.mem_cons_of_mem _ h

/-! ## The two modes -/

/-- The paging state after a successful creation. -/
theorem createProcess_paging (name : List Byte) (entryPoint : Word) (kernelMode : Bool)
    (h : (kmalloc s.heapCurrent sizeofProcess).1 ≠ 0) :
    (createProcess s name entryPoint kernelMode).2.toPagingState =
      if kernelMode then afterStack s else allocFrame (stackRequest s) stackPage false true := by
  rw [stackRequest]
  exact (createProcess_filled name entryPoint kernelMode h).paging

/-- The directory and the user stack in the new record. -/
theorem createProcess_pageDirectory (name : List Byte) (entryPoint : Word) (kernelMode : Bool)
    (h : (kmalloc s.heapCurrent sizeofProcess).1 ≠ 0) :
    ((createProcess s name entryPoint kernelMode).2.procs
        (createProcess s name entryPoint kernelMode).1).pageDirectory =
      (if kernelMode then s.kernelDirectory else userDirectory s) ∧
    ((createProcess s name entryPoint kernelMode).2.procs
        (createProcess s name entryPoint kernelMode).1).userStack =
      if kernelMode then 0 else 0xC0000000 := by
  have hfill := createProcess_filled name entryPoint kernelMode h
  rw [userDirectory]
  rw [if_neg h]
  exact ⟨hfill.pageDirectory, hfill.userStack⟩

/-! ## The layout -/

theorem afterStack_mem (s : KernelState) : (afterStack s).mem = s.mem := by
  rw [afterStack]

theorem afterStack_grows (h : s.heapCurrent.toNat ≤ 0x800000) :
    s.heapCurrent.toNat ≤ (afterStack s).heapCurrent.toNat ∧
      (afterStack s).heapCurrent.toNat ≤ 0x800000 := by
  obtain ⟨hge, hle⟩ := kmalloc_grows process_size h
  obtain ⟨hge', hle'⟩ := kmalloc_grows kernelStack_size hle
  rw [afterStack]
  dsimp only
  exact ⟨Nat.le_trans hge hge', hle'⟩

theorem afterStack_keeps (lo : Nat) (D : List Word) (h : s.heapCurrent.toNat ≤ 0x800000) :
    Keeps lo D s.toPagingState (afterStack s) := by
  have hge := (afterStack_grows h).1
  unfold afterStack at hge ⊢
  generalize (kmalloc (kmalloc s.heapCurrent sizeofProcess).2 kernelStackSize).2 = hc at hge ⊢
  exact ⟨rfl, rfl, rfl, rfl, rfl, hge, fun _ _ => rfl, fun _ _ _ => rfl⟩

/-- The record and the kernel stack come from above the directories and tables. -/
theorem Layout.afterStack (h : Layout lo s.mem s.heapCurrent D) :
    Layout lo (afterStack s).mem (afterStack s).heapCurrent D := by
  obtain ⟨hge, hle⟩ := afterStack_grows h.heap_le
  rw [afterStack_mem]
  exact h.frame hge hle fun _ _ _ _ => rfl

/-- A new directory joins the others, unless the heap had no room for it. -/
theorem Layout.createPageDirectory {s : PagingState} (h : Layout lo s.mem s.heapCurrent D) :
    Layout lo (createPageDirectory s).2.mem (createPageDirectory s).2.heapCurrent
        (addDirectory (createPageDirectory s).1 D) ∧
      Keeps lo D s (createPageDirectory s).2 := by
  obtain ⟨hk, -, hout⟩ := createPageDirectory_spec h
  refine ⟨?_, hk⟩
  unfold addDirectory
  rcases hout with ⟨hne, -, hl, -⟩ | ⟨h0, hl, -⟩
  · rw [if_neg hne]
    exact hl
  · rw [if_pos h0]
    exact hl

/-- The directory of a user process joins the others too. -/
theorem Layout.stackRequest (h : Layout lo s.mem s.heapCurrent D)
    (hproc : (kmalloc s.heapCurrent sizeofProcess).1 ≠ 0) :
    Layout lo (stackRequest s).mem (stackRequest s).heapCurrent
        (addDirectory (userDirectory s) D) ∧
      Keeps lo D s.toPagingState (stackRequest s) ∧
      ∀ d ∈ D, ∀ v, pte (KyroKernel.stackRequest s).mem d v = pte s.mem d v := by
  have hstack := afterStack_keeps lo D h.heap_le
  obtain ⟨hl, hk⟩ := h.afterStack.createPageDirectory
  have hold := (createPageDirectory_spec h.afterStack).2.1
  rw [afterStack_mem] at hold
  rw [userDirectory, KyroKernel.stackRequest]
  rw [if_neg hproc]
  exact ⟨hl, hstack.trans hk, hold⟩

/-! ## The stack page -/

/-- The directory made for a user process is new and empty, or it is NULL because the heap
is nearly full. -/
theorem userDirectory_cases (h : Layout lo s.mem s.heapCurrent D)
    (hproc : (kmalloc s.heapCurrent sizeofProcess).1 ≠ 0) :
    (userDirectory s ≠ 0 ∧ userDirectory s ∉ D ∧
      (afterStack s).heapCurrent.toNat + 8196 ≤ 0x800000 ∧
      ∀ v, pte (stackRequest s).mem (userDirectory s) v = 0) ∨
    (userDirectory s = 0 ∧ 0x7FE000 ≤ (stackRequest s).heapCurrent.toNat ∧
      ∀ i : Word, i.toNat < 1024 → tables (stackRequest s).mem 0 i = 0) := by
  have hl := h.afterStack
  obtain ⟨-, -, hout⟩ := createPageDirectory_spec hl
  rw [userDirectory, stackRequest]
  rw [if_neg hproc]
  rcases hout with ⟨hne, hge, hl', -, hempty⟩ | ⟨h0, -, hfull, hzero⟩
  · have hb := hl'.dir_bound List.mem_cons_self
    exact .inl ⟨hne, hl.not_mem_of_le hge, by omega, hempty⟩
  · exact .inr ⟨h0, hfull, hzero⟩

/-- A directory pointer that the kernel may hold: a directory, or NULL after the heap was
too full for one. -/
def DirOrNull (D : List Word) (hc d : Word) : Prop :=
  d ∈ D ∨ (d = 0 ∧ 0x7FE000 ≤ hc.toNat)

theorem DirOrNull.mono {D' : List Word} {hc hc' d : Word} (h : DirOrNull D hc d)
    (hsub : ∀ e ∈ D, e ∈ D') (hle : hc.toNat ≤ hc'.toNat) : DirOrNull D' hc' d :=
  h.imp (hsub d) fun ⟨h0, hge⟩ => ⟨h0, Nat.le_trans hge hle⟩

theorem userDirectory_dirOrNull (h : Layout lo s.mem s.heapCurrent D)
    (hproc : (kmalloc s.heapCurrent sizeofProcess).1 ≠ 0) :
    DirOrNull (addDirectory (userDirectory s) D) (stackRequest s).heapCurrent
      (userDirectory s) := by
  rcases userDirectory_cases h hproc with ⟨hne, -⟩ | ⟨h0, hfull, -⟩
  · unfold addDirectory
    rw [if_neg hne]
    exact .inl List.mem_cons_self
  · exact .inr ⟨h0, hfull⟩

theorem toNat_stackPage : (dirIndex stackPage).toNat = 0x2FF ∧
    (tableIndex stackPage).toNat = 0x3FF := by decide

/-- While the current directory is a real one, the stack page of a new user process is not
mapped in the new directory. -/
theorem stackPage_of_mem (hb : FrameBitmap s.toPagingState)
    (hl : Layout 0x300200 s.mem s.heapCurrent D) (hcur : s.currentDirectory ∈ D)
    (hproc : (kmalloc s.heapCurrent sizeofProcess).1 ≠ 0) :
    Layout 0x300200 (allocFrame (stackRequest s) stackPage false true).mem
      (allocFrame (stackRequest s) stackPage false true).heapCurrent
      (addDirectory (userDirectory s) D) ∧
    pte (allocFrame (stackRequest s) stackPage false true).mem (userDirectory s) stackPage = 0 := by
  obtain ⟨hl', hk, -⟩ := hl.stackRequest hproc
  have hb' := hk.frameBitmap hb
  have hcur' : (stackRequest s).currentDirectory ∈ addDirectory (userDirectory s) D := by
    rw [hk.currentDirectory]
    exact mem_addDirectory hcur
  obtain ⟨hl'', hother⟩ := allocFrame_spec stackPage false true hb' hl' hcur'
  refine ⟨hl'', ?_⟩
  rcases userDirectory_cases hl hproc with ⟨hne, hfresh, -, hempty⟩ | ⟨h0, -, hzero⟩
  · -- The new directory is not the current one.
    have hmem : userDirectory s ∈ addDirectory (userDirectory s) D := by
      unfold addDirectory
      rw [if_neg hne]
      exact List.mem_cons_self
    have hnot : userDirectory s ≠ (stackRequest s).currentDirectory := by
      rw [hk.currentDirectory]
      intro heq
      exact hfresh (heq ▸ hcur)
    rw [hother _ hmem hnot, hempty]
  · -- NULL as a directory has no table for the page.
    obtain ⟨hi, hj⟩ := toNat_stackPage
    have hnull : (0 : Word).toNat = 0 := rfl
    have hslot : (tablesSlot 0 (dirIndex stackPage)).toNat = 4 * 0x2FF := by
      rw [toNat_tablesSlot (by omega), hnull, hi]
    obtain ⟨-, -, -, hlow⟩ := allocFrame_mem stackPage false true hb' hl' hcur'
    have hmissing := hlow (tablesSlot 0 (dirIndex stackPage)) (by omega) (hzero _ (by omega))
    unfold pte tables
    rw [h0, if_pos hmissing]

/-- When the current directory is NULL the heap is too full for a directory and for a table:
the record was the last thing that it had room for. -/
theorem stackRequest_null (hl : Layout lo s.mem s.heapCurrent D)
    (hfull : 0x7FE000 ≤ s.heapCurrent.toNat)
    (hproc : (kmalloc s.heapCurrent sizeofProcess).1 ≠ 0) :
    userDirectory s = 0 ∧
    (∃ hc', kmallocA (stackRequest s).heapCurrent (BitVec.ofNat 32 sizeofPageTable) = (0, hc')) ∧
    ∀ i : Word, i.toNat < 1024 → tables (stackRequest s).mem 0 i = 0 := by
  have hstack : 0x7FE088 ≤ (afterStack s).heapCurrent.toNat := by
    rcases kmalloc_cases process_size hl.heap_le with ⟨hkm, hadd, hlt⟩ | ⟨hkm, -⟩
    · have hrecord : (s.heapCurrent + sizeofProcess).toNat ≤ 0x800000 := by omega
      have hgrow := kmalloc_grows kernelStack_size hrecord
      rw [afterStack]
      dsimp only
      rw [hkm]
      dsimp only
      omega
    · rw [hkm] at hproc
      exact absurd rfl hproc
  obtain ⟨hl', -⟩ := hl.stackRequest hproc
  have hge : (afterStack s).heapCurrent.toNat ≤ (stackRequest s).heapCurrent.toNat := by
    rw [stackRequest]
    exact (createPageDirectory_spec hl.afterStack).1.heap
  rcases userDirectory_cases hl hproc with ⟨-, -, hroom, -⟩ | ⟨h0, -, hzero⟩
  · omega
  · refine ⟨h0, ?_, hzero⟩
    obtain ⟨a, ha, hka⟩ := kmallocA_cases pageTable_size hl'.heap_le
    rcases hka with ⟨-, -, hlt⟩ | ⟨hk0, -⟩
    · omega
    · exact ⟨_, hk0⟩

/-- With NULL as the current directory the new process has no directory, and its stack page no
table. -/
theorem stackPage_of_null (hb : FrameBitmap s.toPagingState)
    (hl : Layout 0x300200 s.mem s.heapCurrent D) (hcur : s.currentDirectory = 0)
    (hfull : 0x7FE000 ≤ s.heapCurrent.toNat)
    (hproc : (kmalloc s.heapCurrent sizeofProcess).1 ≠ 0) :
    Layout 0x300200 (allocFrame (stackRequest s) stackPage false true).mem
      (allocFrame (stackRequest s) stackPage false true).heapCurrent
      (addDirectory (userDirectory s) D) ∧
    pte (allocFrame (stackRequest s) stackPage false true).mem (userDirectory s) stackPage = 0 := by
  obtain ⟨hl', hk, -⟩ := hl.stackRequest hproc
  obtain ⟨h0, ⟨hc', hka⟩, hzero⟩ := stackRequest_null hl hfull hproc
  have hgrow := allocFrame_heapGrows stackPage false true hl'.heap_le
  obtain ⟨hi, hj⟩ := toNat_stackPage
  have hnull : (0 : Word).toNat = 0 := rfl
  have hslot : (tablesSlot 0 (dirIndex stackPage)).toNat = 4 * 0x2FF := by
    rw [toNat_tablesSlot (by omega), hnull, hi]
  obtain ⟨hlow, hhigh⟩ := allocFrame_null stackPage false true (hk.frameBitmap hb)
    (hk.currentDirectory.trans hcur) (hzero _ (by omega)) hka
  refine ⟨?_, ?_⟩
  · have hend := hl'.heap_le
    have hentries := hl'.sameEntries fun x hx hx' => hhigh x (by omega) (by omega) (.inr hx)
    exact hl'.frame hgrow.ge hgrow.le hentries.tables
  · have hmissing := hlow (tablesSlot 0 (dirIndex stackPage)) (by omega)
    unfold pte tables
    rw [h0, if_pos hmissing]

/-- A user process is created with its stack page not mapped in its own directory. -/
theorem stackPage_spec (hb : FrameBitmap s.toPagingState)
    (hl : Layout 0x300200 s.mem s.heapCurrent D)
    (hcur : DirOrNull D s.heapCurrent s.currentDirectory)
    (hproc : (kmalloc s.heapCurrent sizeofProcess).1 ≠ 0) :
    Layout 0x300200 (allocFrame (stackRequest s) stackPage false true).mem
      (allocFrame (stackRequest s) stackPage false true).heapCurrent
      (addDirectory (userDirectory s) D) ∧
    pte (allocFrame (stackRequest s) stackPage false true).mem (userDirectory s) stackPage = 0 := by
  rcases hcur with hmem | ⟨h0, hfull⟩
  · exact stackPage_of_mem hb hl hmem hproc
  · exact stackPage_of_null hb hl h0 hfull hproc

end KyroKernel
