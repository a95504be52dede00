import KyroKernel.Process.ProcessList
import KyroKernel.Process.UserMemory

/-!
# Where the stack of a user process is mapped

Runs that mix the process functions with the paging functions. `create_process` makes an
address space for a user process and then calls `alloc_frame` for its stack, which maps the
frame in `current_directory`. The new directory is never the current one, so the stack page
is never mapped in the address space of the process.
-/

namespace KyroKernel

open Foundations

/-- The processes together with the page directories made so far, latest first. -/
structure KernelSystem where
  processes : ProcessSystem
  directories : List Word

abbrev KernelSystem.kernel (y : KernelSystem) : KernelState := y.processes.kernel

/-- The calls a kernel run is made of. -/
inductive KernelOp where
  | process (op : ProcessOp)
  | allocFrame (virtualAddr : Word) (isKernel isWritable : Bool)
  | mapPage (virtualAddr physicalAddr flags : Word)
  | unmapPage (virtualAddr : Word)
  | createPageDirectory
  | switchPageDirectory (dir : Word)

/-- The directory that a process call makes, 0 when it makes none. -/
def newDirectory (s : KernelState) : ProcessOp → Word
  | .createProcess _ _ false => userDirectory s
  | .fork => if s.currentProcess = 0 then 0 else userDirectory s
  | _ => 0

/-- One call. The paging functions that dereference `current_directory` need it set, and
`switch_page_directory` gets a directory that was made. -/
inductive KernelStep : KernelSystem → KernelOp → KernelSystem → Prop where
  | process {y y' : ProcessSystem} {D : List Word} {op : ProcessOp}
      (hstep : ProcessStep y op y') :
      KernelStep ⟨y, D⟩ (.process op) ⟨y', addDirectory (newDirectory y.kernel op) D⟩
  | allocFrame {s : KernelState} {c d D : List Word} {v : Word} {k w : Bool}
      (hcur : s.currentDirectory ≠ 0) :
      KernelStep ⟨⟨s, c, d⟩, D⟩ (.allocFrame v k w)
        ⟨⟨{ s with toPagingState := allocFrame s.toPagingState v k w }, c, d⟩, D⟩
  | mapPage {s : KernelState} {c d D : List Word} {v p f : Word}
      (hcur : s.currentDirectory ≠ 0) :
      KernelStep ⟨⟨s, c, d⟩, D⟩ (.mapPage v p f)
        ⟨⟨{ s with toPagingState := mapPage s.toPagingState v p f }, c, d⟩, D⟩
  | unmapPage {s : KernelState} {c d D : List Word} {v : Word}
      (hcur : s.currentDirectory ≠ 0) :
      KernelStep ⟨⟨s, c, d⟩, D⟩ (.unmapPage v)
        ⟨⟨{ s with toPagingState := unmapPage s.toPagingState v }, c, d⟩, D⟩
  | createPageDirectory {s : KernelState} {c d D : List Word} :
      KernelStep ⟨⟨s, c, d⟩, D⟩ .createPageDirectory
        ⟨⟨{ s with toPagingState := (createPageDirectory s.toPagingState).2 }, c, d⟩,
          addDirectory (createPageDirectory s.toPagingState).1 D⟩
  | switchPageDirectory {s : KernelState} {c d D : List Word} {dir : Word} (hdir : dir ∈ D) :
      KernelStep ⟨⟨s, c, d⟩, D⟩ (.switchPageDirectory dir)
        ⟨⟨{ s with toPagingState := switchPageDirectory s.toPagingState dir }, c, d⟩, D⟩

/-- The start of a kernel run: `paging_init` and `process_init` have returned. -/
structure KernelBoot (y : KernelSystem) : Prop where
  processes : ProcessBoot y.processes
  directories : y.directories = [y.kernel.kernelDirectory]

/-! ## The invariant -/

/-- The memory part of the invariant, for the created processes `c` and the directories `D`:
the directories lie in the heap behind the bitmap, and every directory pointer the kernel
holds is one of them, or NULL when the heap got too full for another one. -/
structure MemoryInv (s : KernelState) (c D : List Word) : Prop where
  layout : Layout 0x300200 s.mem s.heapCurrent D
  bitmap : FrameBitmap s.toPagingState
  kernelDirectory : s.kernelDirectory ∈ D
  current : DirOrNull D s.heapCurrent s.currentDirectory
  pageDirectory : ∀ p ∈ c, DirOrNull D s.heapCurrent (s.procs p).pageDirectory

/-- The invariant of kernel runs. -/
structure KernelInv (y : KernelSystem) : Prop where
  processes : ProcessInv y.processes
  memory : MemoryInv y.kernel y.processes.created y.directories

namespace MemoryInv

variable {s s' : KernelState} {c D D' : List Word}

/-- A paging call keeps the invariant when it keeps the layout and leaves a directory, or
the old NULL, current. -/
theorem of_paging {t : PagingState} (h : MemoryInv s c D)
    (hl : Layout 0x300200 t.mem t.heapCurrent D') (hb : FrameBitmap t)
    (hheap : s.heapCurrent.toNat ≤ t.heapCurrent.toNat)
    (hkd : t.kernelDirectory = s.kernelDirectory) (hsub : ∀ e ∈ D, e ∈ D')
    (hcur : DirOrNull D' t.heapCurrent t.currentDirectory) :
    MemoryInv { s with toPagingState := t } c D' := by
  refine ⟨hl, hb, ?_, hcur, fun p hp => (h.pageDirectory p hp).mono hsub hheap⟩
  simp only [hkd]
  exact hsub _ h.kernelDirectory

theorem of_keeps {t : PagingState} (h : MemoryInv s c D)
    (hl : Layout 0x300200 t.mem t.heapCurrent D') (hk : Keeps 0x300200 D s.toPagingState t)
    (hsub : ∀ e ∈ D, e ∈ D') : MemoryInv { s with toPagingState := t } c D' := by
  refine h.of_paging hl (hk.frameBitmap h.bitmap) hk.heap hk.kernelDirectory hsub ?_
  rw [hk.currentDirectory]
  exact h.current.mono hsub hk.heap

/-- A call that changes no links and no memory keeps the invariant. -/
theorem of_sameLinks (h : MemoryInv s c D) (hlinks : SameLinks s s')
    (hcur : DirOrNull D s.heapCurrent s'.currentDirectory) : MemoryInv s' c D := by
  obtain ⟨hl, hb, hk, -, hdirs⟩ := h
  rw [← hlinks.heapCurrent] at hl hcur hdirs
  rw [← hlinks.mem] at hl
  rw [← hlinks.kernelDirectory] at hk
  refine ⟨hl, ⟨hlinks.frames.trans hb.frames, hlinks.nframes.trans hb.nframes⟩, hk, hcur,
    fun p hp => ?_⟩
  rw [hlinks.pageDirectory]
  exact hdirs p hp

/-- A new process keeps the invariant when its directory is one that the kernel may hold. -/
theorem of_newProcess {proc : Word} (h : MemoryInv s c D) (hnew : NewProcess s s' proc)
    (hne : ∀ p ∈ c, p ≠ proc) (hl : Layout 0x300200 s'.mem s'.heapCurrent D')
    (hb : FrameBitmap s'.toPagingState) (hgrow : HeapGrows s.toPagingState s'.toPagingState)
    (hsub : ∀ e ∈ D, e ∈ D') (hdir : DirOrNull D' s'.heapCurrent (s'.procs proc).pageDirectory) :
    MemoryInv s' (addCreated proc c) D' := by
  refine ⟨hl, hb, ?_, ?_, fun p hp => ?_⟩
  · rw [hgrow.kernelDirectory]
    exact hsub _ h.kernelDirectory
  · rw [hgrow.currentDirectory]
    exact h.current.mono hsub hgrow.ge
  · rw [addCreated, if_neg hnew.ne_zero] at hp
    rcases List.mem_cons.mp hp with rfl | hold
    · exact hdir
    · rw [hnew.others p (hne p hold)]
      exact (h.pageDirectory p hold).mono hsub hgrow.ge

/-- A kernel process gets the kernel directory. -/
theorem of_kernelProcess (h : MemoryInv s c D) (name : List Byte) (entryPoint : Word)
    (hne : ∀ p ∈ c, p ≠ (createProcess s name entryPoint true).1)
    (hnew : NewProcess s (createProcess s name entryPoint true).2
      (createProcess s name entryPoint true).1)
    (hproc : (kmalloc s.heapCurrent sizeofProcess).1 ≠ 0) :
    MemoryInv (createProcess s name entryPoint true).2
      (addCreated (createProcess s name entryPoint true).1 c) D := by
  have hpaging := createProcess_paging name entryPoint true hproc
  obtain ⟨hdir, -⟩ := createProcess_pageDirectory name entryPoint true hproc
  have hk := afterStack_keeps 0x300200 D h.layout.heap_le
  have hl := h.layout.afterStack
  -- Only these facts about the call are used: its definition must not unfold below.
  generalize createProcess s name entryPoint true = r at hne hnew hpaging hdir ⊢
  simp only [if_true] at hpaging hdir
  rw [← hpaging] at hk hl
  refine h.of_newProcess hnew hne hl (hk.frameBitmap h.bitmap)
    ⟨hk.heap, hl.heap_le, hk.currentDirectory, hk.kernelDirectory⟩ (fun _ => id) ?_
  rw [hdir]
  exact .inl h.kernelDirectory

/-- A user process gets the directory made for it, and its stack page is not mapped there. -/
theorem of_userProcess (h : MemoryInv s c D) (name : List Byte) (entryPoint : Word)
    (hne : ∀ p ∈ c, p ≠ (createProcess s name entryPoint false).1)
    (hnew : NewProcess s (createProcess s name entryPoint false).2
      (createProcess s name entryPoint false).1)
    (hproc : (kmalloc s.heapCurrent sizeofProcess).1 ≠ 0) :
    MemoryInv (createProcess s name entryPoint false).2
      (addCreated (createProcess s name entryPoint false).1 c)
      (addDirectory (userDirectory s) D) := by
  have hpaging := createProcess_paging name entryPoint false hproc
  obtain ⟨hdir, -⟩ := createProcess_pageDirectory name entryPoint false hproc
  obtain ⟨hlreq, hk, -⟩ := h.layout.stackRequest hproc
  obtain ⟨hl, -⟩ := stackPage_spec h.bitmap h.layout h.current hproc
  have hb := (hk.frameBitmap h.bitmap).allocFrame stackPage false true
  have hgrow := allocFrame_heapGrows stackPage false true hlreq.heap_le
  have hdirs := userDirectory_dirOrNull h.layout hproc
  generalize createProcess s name entryPoint false = r at hne hnew hpaging hdir ⊢
  simp only [Bool.false_eq_true, if_false] at hpaging hdir
  rw [← hpaging] at hl hb hgrow
  refine h.of_newProcess hnew hne hl hb ⟨Nat.le_trans hk.heap hgrow.ge, hgrow.le,
    hgrow.currentDirectory.trans hk.currentDirectory,
    hgrow.kernelDirectory.trans hk.kernelDirectory⟩ (fun _ => mem_addDirectory) ?_
  rw [hdir]
  exact hdirs.mono (fun _ => id) hgrow.ge

/-- `create_process` keeps the invariant, whether it succeeds or not. -/
theorem of_createProcess {d : List Word} (h : MemoryInv s c D) (hinv : ProcessInv ⟨s, c, d⟩)
    (name : List Byte) (entryPoint : Word) (kernelMode : Bool) :
    MemoryInv (createProcess s name entryPoint kernelMode).2
      (addCreated (createProcess s name entryPoint kernelMode).1 c)
      (addDirectory (newDirectory s (.createProcess name entryPoint kernelMode)) D) := by
  have hfst := createProcess_fst s name entryPoint kernelMode
  have hspec := createProcess_spec name entryPoint kernelMode hinv.heap_ne_zero hinv.heap_le
  by_cases hproc : (kmalloc s.heapCurrent sizeofProcess).1 = 0
  · -- No memory for the record: `create_process` returns NULL before it makes a directory.
    have hdir : newDirectory s (.createProcess name entryPoint kernelMode) = 0 := by
      cases kernelMode with
      | true => rfl
      | false => exact if_pos hproc
    rw [hproc] at hfst
    rw [(hspec.resolve_right fun hnew => hnew.1.ne_zero hfst).2, hfst, hdir]
    exact h
  · have hnew := (hspec.resolve_left fun hnull => hproc (hfst ▸ hnull.1)).1
    have hne := hinv.ne_newProcess hnew
    cases kernelMode with
    | true => exact h.of_kernelProcess name entryPoint hne hnew hproc
    | false => exact h.of_userProcess name entryPoint hne hnew hproc

/-- A change of a record that keeps its directory. -/
theorem of_modify (h : MemoryInv s c D) (proc : Word) {f : Process → Process}
    (hf : ∀ p, (f p).pageDirectory = p.pageDirectory) : MemoryInv (s.modify proc f) c D := by
  refine ⟨h.layout, h.bitmap, h.kernelDirectory, h.current, fun p hp => ?_⟩
  have hdir : ((s.modify proc f).procs p).pageDirectory = (s.procs p).pageDirectory := by
    by_cases hpp : p = proc
    · rw [hpp, modify_procs_self, hf]
    · rw [modify_procs_of_ne hpp]
  rw [hdir]
  exact h.pageDirectory p hp

theorem of_fork {d : List Word} (h : MemoryInv s c D) (hinv : ProcessInv ⟨s, c, d⟩) :
    MemoryInv (fork s).2 (addCreated (forkChild s) c)
      (addDirectory (newDirectory s .fork) D) := by
  have hcur : s.currentProcess ≠ 0 := hinv.ne_zero _ hinv.current
  have hcreate := h.of_createProcess hinv (s.procs s.currentProcess).name 0 false
  have hdir : newDirectory s .fork = userDirectory s := if_neg hcur
  unfold newDirectory at hcreate
  obtain ⟨hchild, hfork⟩ := fork_eq hcur
  rw [hdir, hchild, hfork]
  generalize createProcess s (s.procs s.currentProcess).name 0 false = r at hcreate ⊢
  split
  · exact hcreate
  · -- What `fork` copies into the child leaves its directory as it is.
    exact hcreate.of_modify _ fun _ => rfl

theorem of_schedule {d : List Word} (h : MemoryInv s c D) (hinv : ProcessInv ⟨s, c, d⟩)
    {esp : Word} {fuel : Nat} (hret : schedule s esp fuel = some s') : MemoryInv s' c D := by
  obtain ⟨vs, r, hpath, hall, hsw | ⟨rfl, -⟩⟩ :=
    schedule_spec (hinv.ne_zero _ hinv.current) hret
  · -- The directory of the next process becomes current.
    have hmem := (hinv.passes_mem hpath hall).resolve_left hsw.ne_zero
    refine h.of_sameLinks hsw.links ?_
    rw [hsw.currentDirectory]
    exact h.pageDirectory r hmem
  · exact h

theorem of_destroyProcess (h : MemoryInv s c D) {proc : Word} {fuel : Nat}
    (hret : destroyProcess s proc fuel = some s') : MemoryInv s' c D := by
  have hu := destroyProcess_unlinked hret
  obtain ⟨hl, hb, hk, hcur, hdirs⟩ := h
  rw [← hu.paging] at hl hb hk hcur hdirs
  refine ⟨hl, hb, hk, hcur, fun p hp => ?_⟩
  rw [hu.data p]
  exact hdirs p hp

end MemoryInv

/-- A paging call keeps the process part of the invariant. -/
theorem ProcessInv.of_paging {s : KernelState} {c d : List Word} {t : PagingState}
    (h : ProcessInv ⟨s, c, d⟩) (hge : s.heapCurrent.toNat ≤ t.heapCurrent.toNat)
    (hle : t.heapCurrent.toNat ≤ 0x800000) :
    ProcessInv ⟨{ s with toPagingState := t }, c, d⟩ := by
  refine ⟨fun h0 => ?_, hle, fun p hp => Nat.le_trans (h.below p hp) hge, h.apart, h.ne_zero,
    h.chain, h.current, h.next, h.parent, h.not_blocked, h.destroyed⟩
  -- The heap is nowhere near 0: a process lies below its end.
  have hbelow := Nat.le_trans (h.below _ h.current) hge
  simp only at h0 hbelow
  rw [h0] at hbelow
  simp at hbelow

/-- A process call keeps the memory part of the invariant. -/
theorem MemoryInv.of_process {y y' : ProcessSystem} {op : ProcessOp} {D : List Word}
    (h : MemoryInv y.kernel y.created D) (hinv : ProcessInv y) (hstep : ProcessStep y op y') :
    MemoryInv y'.kernel y'.created (addDirectory (newDirectory y.kernel op) D) := by
  cases hstep with
  | @createProcess s c d name entryPoint kernelMode =>
    dsimp only at h ⊢
    exact h.of_createProcess hinv name entryPoint kernelMode
  | fork =>
    dsimp only at h ⊢
    exact h.of_fork hinv
  | @schedule s s' c d esp fuel hret =>
    dsimp only at h ⊢
    rw [show addDirectory (newDirectory s (.schedule esp)) D = D from if_pos rfl]
    exact h.of_schedule hinv hret
  | @exit s s' c d esp fuel hret =>
    dsimp only at h ⊢
    rw [show addDirectory (newDirectory s (.exit esp)) D = D from if_pos rfl]
    rw [hinv.exit_eq] at hret
    have hexit := hinv.of_exitCurrent
    rw [hinv.exitCurrent_eq] at hret hexit
    have hmodify : MemoryInv (s.modify s.currentProcess (·.setState .terminated)) c D :=
      h.of_modify _ fun _ => rfl
    exact hmodify.of_schedule hexit hret
  | @destroyProcess s s' c d proc fuel hproc hret =>
    dsimp only at h ⊢
    rw [show addDirectory (newDirectory s (.destroyProcess proc)) D = D from if_pos rfl]
    exact h.of_destroyProcess hret

/-- `process_init` keeps the layout that `paging_init` made, and gives the first process the
kernel directory. -/
theorem memoryInv_processInit {s : KernelState} (hb : BeforeProcessInit s) :
    MemoryInv (processInit s) [(processInit s).currentProcess] [0x301000] := by
  have hp := hb.paging
  -- The invariant holds before the first process, with no process created.
  have hnone : MemoryInv s [] [0x301000] := by
    refine ⟨hp.layout, ⟨hp.frames, hp.nframes⟩, ?_, .inl ?_, by simp⟩
    · rw [hp.kernelDirectory]
      exact List.mem_cons_self
    · rw [hp.currentDirectory]
      exact List.mem_cons_self
  have hheap : s.heapCurrent = 0x306000 := hp.heapCurrent
  have hproc : (kmalloc s.heapCurrent sizeofProcess).1 ≠ 0 := by
    rw [hheap]
    decide
  have hfst := createProcess_fst s kernelName 0 true
  have hnew := ((createProcess_spec kernelName 0 true (by rw [hheap]; decide)
    (by rw [hheap]; decide)).resolve_left fun hnull => hproc (hfst ▸ hnull.1)).1
  have hcreate := hnone.of_kernelProcess kernelName 0 (by simp) hnew hproc
  unfold processInit
  generalize createProcess s kernelName 0 true = r at hnew hcreate ⊢
  obtain ⟨proc, t⟩ := r
  simp only [addCreated, if_neg hnew.ne_zero] at hcreate ⊢
  have hmodify : MemoryInv (t.modify proc (·.setState .running)) [proc] [0x301000] :=
    hcreate.of_modify proc fun _ => rfl
  exact ⟨hmodify.layout, hmodify.bitmap, hmodify.kernelDirectory, hmodify.current,
    hmodify.pageDirectory⟩

theorem kernelInv_of_boot {y : KernelSystem} (h : KernelBoot y) : KernelInv y := by
  refine ⟨processInv_of_boot h.processes, ?_⟩
  obtain ⟨⟨s, hb, hy⟩, hD⟩ := h
  have hm := memoryInv_processInit hb
  have hkd : y.kernel.kernelDirectory = 0x301000 := by
    unfold KernelSystem.kernel
    rw [hy]
    exact List.mem_singleton.mp hm.kernelDirectory
  unfold KernelSystem.kernel at hD hkd ⊢
  rw [hD, hkd, hy]
  exact hm

theorem kernelInv_step {y y' : KernelSystem} {op : KernelOp} (h : KernelInv y)
    (hstep : KernelStep y op y') : KernelInv y' := by
  obtain ⟨hp, hm⟩ := h
  cases hstep with
  | process hstep => exact ⟨processInv_step hp hstep, hm.of_process hp hstep⟩
  | @allocFrame s c d D v k w hcur =>
    -- `alloc_frame` writes the bitmap too, which `Keeps` holds fixed, so `of_keeps` is no use.
    have hm : MemoryInv s c D := hm
    have hmem := hm.current.resolve_right fun h0 => hcur h0.1
    obtain ⟨hl, -⟩ := allocFrame_spec v k w hm.bitmap hm.layout hmem
    have hgrow := allocFrame_heapGrows v k w hm.layout.heap_le
    refine ⟨hp.of_paging hgrow.ge hgrow.le, hm.of_paging hl (hm.bitmap.allocFrame v k w) hgrow.ge
      hgrow.kernelDirectory (fun _ => id) (.inl ?_)⟩
    rw [hgrow.currentDirectory]
    exact hmem
  | @mapPage s c d D v p f hcur =>
    have hm : MemoryInv s c D := hm
    have hmem := hm.current.resolve_right fun h0 => hcur h0.1
    obtain ⟨hl, hk, -⟩ := mapPage_spec v p f hm.layout hmem
    exact ⟨hp.of_paging hk.heap hl.heap_le, hm.of_keeps hl hk fun _ => id⟩
  | @unmapPage s c d D v hcur =>
    have hm : MemoryInv s c D := hm
    have hmem := hm.current.resolve_right fun h0 => hcur h0.1
    obtain ⟨hl, hk, -⟩ := unmapPage_spec v hm.layout hmem
    exact ⟨hp.of_paging hk.heap hl.heap_le, hm.of_keeps hl hk fun _ => id⟩
  | @createPageDirectory s c d D =>
    have hm : MemoryInv s c D := hm
    obtain ⟨hl, hk⟩ := hm.layout.createPageDirectory
    have hm' := hm.of_keeps hl hk fun _ => mem_addDirectory
    refine ⟨hp.of_paging hk.heap hl.heap_le, ?_⟩
    unfold KernelSystem.kernel
    dsimp only
    exact hm'
  | @switchPageDirectory s c d D dir hdir =>
    have hm : MemoryInv s c D := hm
    exact ⟨hp.of_paging (Nat.le_refl _) hm.layout.heap_le,
      hm.of_paging hm.layout ⟨hm.bitmap.frames, hm.bitmap.nframes⟩ (Nat.le_refl _) rfl
        (fun _ => id) (.inl hdir)⟩

theorem kernelInv_run {tr : List (KernelSystem × KernelOp)} {y : KernelSystem}
    (h : Run KernelBoot KernelStep tr y) : KernelInv y :=
  h.inv KernelInv (fun _ => kernelInv_of_boot) fun _ _ _ => kernelInv_step

/-! ## The stack page -/

/-- The new process `proc` got its stack in its own address space: the page below
`user_stack` is mapped in its directory, present, writable and for user mode, to the frame
that `alloc_frame` chose, and no translation of another directory has changed. -/
structure OwnStack (D : List Word) (s s' : KernelState) (proc : Word) : Prop where
  mapped : pte s'.mem (s'.procs proc).pageDirectory ((s'.procs proc).userStack - pageSize) =
    frameOf (firstFreeFrame (stackRequest s) * pageSize) |||
      (pagePresent ||| pageWritable ||| pageUser)
  others : ∀ d ∈ D, d ≠ (s'.procs proc).pageDirectory → ∀ v, pte s'.mem d v = pte s.mem d v

/-- The entry of an own stack page is present, so it is not 0. -/
theorem OwnStack.entry_ne_zero {D : List Word} {s s' : KernelState} {proc : Word}
    (h : OwnStack D s s' proc) :
    pte s'.mem (s'.procs proc).pageDirectory ((s'.procs proc).userStack - pageSize) ≠ 0 := by
  intro h0
  have hpresent := congrArg (· &&& presentBit) (h0.symm.trans h.mapped)
  simp only [present_entry] at hpresent
  exact absurd hpresent (by decide)

/-- A creation succeeds when its record can be allocated. -/
theorem kmalloc_of_createProcess {s : KernelState} {name : List Byte} {entryPoint : Word}
    {kernelMode : Bool} (h : (createProcess s name entryPoint kernelMode).1 ≠ 0) :
    (kmalloc s.heapCurrent sizeofProcess).1 ≠ 0 := by
  rwa [createProcess_fst] at h

/-- In no reachable state is the stack page of a new user process mapped in its directory. -/
theorem stackPage_unmapped {tr : List (KernelSystem × KernelOp)} {y : KernelSystem}
    (hrun : Run KernelBoot KernelStep tr y) (name : List Byte) (entryPoint : Word)
    (hproc : (createProcess y.kernel name entryPoint false).1 ≠ 0) :
    let s' := (createProcess y.kernel name entryPoint false).2
    let proc := (createProcess y.kernel name entryPoint false).1
    pte s'.mem (s'.procs proc).pageDirectory ((s'.procs proc).userStack - pageSize) = 0 := by
  have hm := (kernelInv_run hrun).memory
  have hroom := kmalloc_of_createProcess hproc
  -- The memory is the one `alloc_frame` left, and the directory the one made just before it.
  have hpaging := createProcess_paging name entryPoint false hroom
  obtain ⟨hdir, hstack⟩ := createProcess_pageDirectory name entryPoint false hroom
  have hpage : (0xC0000000 : Word) - pageSize = stackPage := rfl
  generalize createProcess y.kernel name entryPoint false = r at hpaging hdir hstack ⊢
  simp only [Bool.false_eq_true, if_false] at hpaging hdir hstack
  simp only [hpaging, hdir, hstack, hpage]
  exact (stackPage_spec hm.bitmap hm.layout hm.current hroom).2

/-- The stack page lands in the directory that was current, when there is a table for it. -/
theorem stackPage_in_current {tr : List (KernelSystem × KernelOp)} {y : KernelSystem}
    (hrun : Run KernelBoot KernelStep tr y) (name : List Byte) (entryPoint : Word)
    (hproc : (createProcess y.kernel name entryPoint false).1 ≠ 0)
    (hcur : y.kernel.currentDirectory ≠ 0)
    (hready : TableReady (stackRequest y.kernel) stackPage) :
    pte (createProcess y.kernel name entryPoint false).2.mem y.kernel.currentDirectory stackPage =
      frameOf (firstFreeFrame (stackRequest y.kernel) * pageSize) |||
        (pagePresent ||| pageWritable ||| pageUser) := by
  have hm := (kernelInv_run hrun).memory
  have hmem := hm.current.resolve_right fun h0 => hcur h0.1
  have hroom := kmalloc_of_createProcess hproc
  obtain ⟨hl, hk, -⟩ := hm.layout.stackRequest hroom
  -- The new directory was added, but `current_directory` is still the old one.
  have hentry := allocFrame_entry stackPage false true (hk.frameBitmap hm.bitmap) hl
    (by rw [hk.currentDirectory]; exact mem_addDirectory hmem) hready
  rw [hk.currentDirectory] at hentry
  have hpaging := createProcess_paging name entryPoint false hroom
  generalize createProcess y.kernel name entryPoint false = r at hpaging ⊢
  simp only [Bool.false_eq_true, if_false] at hpaging
  rw [hpaging]
  exact hentry

/-- In no reachable state does a new user process get its stack in its own address space. -/
theorem not_ownStack {tr : List (KernelSystem × KernelOp)} {y : KernelSystem}
    (hrun : Run KernelBoot KernelStep tr y) (name : List Byte) (entryPoint : Word)
    (hproc : (createProcess y.kernel name entryPoint false).1 ≠ 0) :
    ¬ OwnStack y.directories y.kernel (createProcess y.kernel name entryPoint false).2
      (createProcess y.kernel name entryPoint false).1 :=
  fun hown => hown.entry_ne_zero (stackPage_unmapped hrun name entryPoint hproc)

theorem createProcess_firstSystem {s : KernelState} (hs : AfterProcessInit s) :
    (createProcess s kernelName 0 false).1 ≠ 0 := by
  rw [createProcess_fst, hs.heapCurrent]
  decide

theorem run_firstKernelSystem {s : KernelState} (hboot : ProcessBoot (firstSystem s)) :
    Run KernelBoot KernelStep [] ⟨firstSystem s, [s.kernelDirectory]⟩ :=
  .start ⟨hboot, rfl⟩

/-- The first user process after `process_init` does not get its stack either. -/
theorem not_ownStack_firstSystem : ∃ s, AfterProcessInit s ∧
    ¬ OwnStack [s.kernelDirectory] s (createProcess s kernelName 0 false).2
      (createProcess s kernelName 0 false).1 := by
  obtain ⟨s, hs, hboot⟩ := exists_firstSystem
  exact ⟨s, hs, not_ownStack (run_firstKernelSystem hboot) kernelName 0
    (createProcess_firstSystem hs)⟩

theorem not_forall_ownStack : ¬ ∀ (tr : List (KernelSystem × KernelOp)) (y : KernelSystem),
    Run KernelBoot KernelStep tr y → ∀ (name : List Byte) (entryPoint : Word),
      (createProcess y.kernel name entryPoint false).1 ≠ 0 →
      OwnStack y.directories y.kernel (createProcess y.kernel name entryPoint false).2
        (createProcess y.kernel name entryPoint false).1 := by
  intro hall
  obtain ⟨s, hs, hboot⟩ := exists_firstSystem
  have hrun := run_firstKernelSystem hboot
  have hproc := createProcess_firstSystem hs
  have hown := hall _ _ hrun kernelName 0 hproc
  exact hown.entry_ne_zero (stackPage_unmapped hrun kernelName 0 hproc)

end KyroKernel
