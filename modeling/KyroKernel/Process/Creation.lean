import KyroKernel.Heap.FailedRequests
import KyroKernel.Paging.DirectoryEntries
import KyroKernel.Paging.OutOfFrames
import KyroKernel.Process.UserStack

/-!
# `create_process` when an allocation fails

`create_process` looks at one of its allocations, the process record. Without memory for the kernel
stack, the page directory or the page table of the user stack, or without a frame, it goes on and
returns a process all the same.
-/

namespace KyroKernel

open Foundations

/-! ## Runs -/

/-- The calls of a kernel run, other requests to the heap and to the bitmap in between. -/
inductive CreationOp where
  | kernel (op : KernelOp)
  | heap (call : HeapCall)
  | setFrame (frameAddr : Word)
  | clearFrame (frameAddr : Word)

/-- One call. Requests to the heap do not wrap around. -/
inductive CreationStep : KernelSystem → CreationOp → KernelSystem → Prop where
  | kernel {y y' : KernelSystem} {op : KernelOp} (hstep : KernelStep y op y') :
      CreationStep y (.kernel op) y'
  | heap {s : KernelState} {c d D : List Word} {call : HeapCall} (hfit : call.Fits s.heapCurrent) :
      CreationStep ⟨⟨s, c, d⟩, D⟩ (.heap call)
        ⟨⟨{ s with heapCurrent := (call.exec s.heapCurrent).2 }, c, d⟩, D⟩
  | setFrame {s : KernelState} {c d D : List Word} {a : Word} :
      CreationStep ⟨⟨s, c, d⟩, D⟩ (.setFrame a)
        ⟨⟨{ s with toPagingState := setFrame s.toPagingState a }, c, d⟩, D⟩
  | clearFrame {s : KernelState} {c d D : List Word} {a : Word} :
      CreationStep ⟨⟨s, c, d⟩, D⟩ (.clearFrame a)
        ⟨⟨{ s with toPagingState := clearFrame s.toPagingState a }, c, d⟩, D⟩

/-! ## All or nothing -/

/-- All allocations that `create_process` makes succeed: the record and the kernel stack and, for a
user process, its directory, the frame of its stack page and a page table for it. -/
structure AllocationsSucceed (s : KernelState) (kernelMode : Bool) : Prop where
  record : (kmalloc s.heapCurrent sizeofProcess).1 ≠ 0
  stack : (kmalloc (kmalloc s.heapCurrent sizeofProcess).2 kernelStackSize).1 ≠ 0
  directory : kernelMode = false → (createPageDirectory (afterStack s)).1 ≠ 0
  frame : kernelMode = false → ¬ AllFramesUsed (stackRequest s)
  table : kernelMode = false → TableReady (stackRequest s) stackPage

/-- `x` is an address of the kernel stack of `proc`. -/
def InKernelStack (s : KernelState) (proc : Word) (x : Nat) : Prop :=
  ((s.procs proc).kernelStack - kernelStackSize).toNat ≤ x ∧ x < (s.procs proc).kernelStack.toNat

/-- The kernel stack of the new process `proc` is a block that the heap handed out in this call, and
no other process has an address of it. -/
structure OwnKernelStack (s s' : KernelState) (created : List Word) (proc : Word) : Prop where
  size : ((s'.procs proc).kernelStack - kernelStackSize).toNat + kernelStackSize.toNat =
    (s'.procs proc).kernelStack.toNat
  inHeap : heapStart ≤ (s'.procs proc).kernelStack - kernelStackSize ∧
    (s'.procs proc).kernelStack ≤ heapEnd
  fresh : s.heapCurrent ≤ (s'.procs proc).kernelStack - kernelStackSize ∧
    (s'.procs proc).kernelStack ≤ s'.heapCurrent
  disjoint : ∀ p ∈ created, ∀ x, ¬ (InKernelStack s' p x ∧ InKernelStack s' proc x)

/-- The list, the next pid, the bitmap and the directories `D` are the same. -/
structure NothingCreated (D : List Word) (s s' : KernelState) : Prop where
  processList : s'.processList = s.processList
  nextPid : s'.nextPid = s.nextPid
  paging : SamePaging D s.toPagingState s'.toPagingState

/-- `create_process` creates a process with a kernel stack of its own, or returns NULL and leaves
everything as it was. -/
structure AllOrNothing (y : KernelSystem) (name : List Byte) (entryPoint : Word)
    (kernelMode : Bool) : Prop where
  nothing : ¬ AllocationsSucceed y.kernel kernelMode →
    (createProcess y.kernel name entryPoint kernelMode).1 = 0 ∧
      NothingCreated y.directories y.kernel (createProcess y.kernel name entryPoint kernelMode).2
  stack : (createProcess y.kernel name entryPoint kernelMode).1 ≠ 0 →
    OwnKernelStack y.kernel (createProcess y.kernel name entryPoint kernelMode).2
      y.processes.created (createProcess y.kernel name entryPoint kernelMode).1

/-- The page boundary at or above an address. -/
def pageAlign (n : Nat) : Nat := (n + 4095) / 4096 * 4096

/-- The heap has room for a record and a kernel stack. For a user process there is a free frame, and
room for a directory and, where the current directory has no table for the stack page, a table. -/
structure RoomForProcess (s : KernelState) (kernelMode : Bool) : Prop where
  stack : s.heapCurrent.toNat + 136 + 8192 < 0x800000
  directory : kernelMode = false → pageAlign (s.heapCurrent.toNat + 136 + 8192) + 8196 < 0x800000
  frame : kernelMode = false → ¬ AllFramesUsed s.toPagingState
  table : kernelMode = false →
    tables s.mem s.currentDirectory (dirIndex stackPage) ≠ 0 ∨
      pageAlign (pageAlign (s.heapCurrent.toNat + 136 + 8192) + 8196) + 4096 < 0x800000

/-! ## Kernel stacks of the created processes -/

/-- The kernel stacks of the processes `c` lie below `heap_current`. A stack that could not be
allocated ends at 8192. -/
def StacksBelow (s : KernelState) (c : List Word) : Prop :=
  ∀ p ∈ c, 8192 ≤ (s.procs p).kernelStack.toNat ∧
    (s.procs p).kernelStack.toNat ≤ s.heapCurrent.toNat

variable {s s' : KernelState} {c d D : List Word}

theorem StacksBelow.of_sameStacks (h : StacksBelow s c)
    (hstack : ∀ p ∈ c, (s'.procs p).kernelStack = (s.procs p).kernelStack)
    (hge : s.heapCurrent.toNat ≤ s'.heapCurrent.toNat) : StacksBelow s' c := by
  intro p hp
  obtain ⟨hlow, hhigh⟩ := h p hp
  rw [hstack p hp]
  exact ⟨hlow, Nat.le_trans hhigh hge⟩

theorem modify_kernelStack (s : KernelState) (proc : Word) {f : Process → Process}
    (hf : ∀ p, (f p).kernelStack = p.kernelStack) (q : Word) :
    ((s.modify proc f).procs q).kernelStack = (s.procs q).kernelStack := by
  by_cases hq : q = proc
  · rw [hq, modify_procs_self, hf]
  · rw [modify_procs_of_ne hq]

/-- A kernel stack ends where the heap goes on, or at 8192. -/
theorem kernelStack_end {hc : Word} (h : hc.toNat ≤ 0x800000) :
    8192 ≤ ((kmalloc hc kernelStackSize).1 + kernelStackSize).toNat ∧
      (((kmalloc hc kernelStackSize).1 + kernelStackSize).toNat = 8192 ∨
        ((kmalloc hc kernelStackSize).1 + kernelStackSize).toNat =
          (kmalloc hc kernelStackSize).2.toNat) := by
  rcases kmalloc_cases kernelStack_size h with ⟨hk, hadd, -⟩ | ⟨hk, -⟩
  · rw [hk]
    exact ⟨by simp only [hadd]; omega, .inr rfl⟩
  · rw [hk]
    have hnull : ((0 : Word) + kernelStackSize).toNat = 8192 := by decide
    exact ⟨Nat.le_of_eq hnull.symm, .inl hnull⟩

theorem createProcess_kernelStack (name : List Byte) (entryPoint : Word) (kernelMode : Bool)
    (h : (kmalloc s.heapCurrent sizeofProcess).1 ≠ 0) :
    ((createProcess s name entryPoint kernelMode).2.procs
        (createProcess s name entryPoint kernelMode).1).kernelStack =
      (kmalloc (kmalloc s.heapCurrent sizeofProcess).2 kernelStackSize).1 + kernelStackSize :=
  (createProcess_filled name entryPoint kernelMode h).kernelStack

/-- The heap after a successful creation is past the kernel stack. -/
theorem createProcess_heap_ge (name : List Byte) (entryPoint : Word) (kernelMode : Bool)
    (hle : s.heapCurrent.toNat ≤ 0x800000) (h : (kmalloc s.heapCurrent sizeofProcess).1 ≠ 0) :
    (afterStack s).heapCurrent.toNat ≤
      (createProcess s name entryPoint kernelMode).2.heapCurrent.toNat := by
  have hpaging := createProcess_paging name entryPoint kernelMode h
  have hstack := (afterStack_grows hle).2
  have hdir : HeapGrows (afterStack s) (stackRequest s) := createPageDirectory_heapGrows hstack
  have hframe := allocFrame_heapGrows stackPage false true hdir.le
  generalize createProcess s name entryPoint kernelMode = r at hpaging ⊢
  rw [hpaging]
  cases kernelMode with
  | true =>
    exact Nat.le_of_eq (by rw [if_pos rfl])
  | false =>
    rw [if_neg Bool.false_ne_true]
    exact Nat.le_trans hdir.ge hframe.ge

theorem stackRequest_heapCurrent (s : KernelState) : (stackRequest s).heapCurrent =
    (kmallocA (afterStack s).heapCurrent (BitVec.ofNat 32 sizeofPageDirectory)).2 := by
  rw [stackRequest]
  rw [createPageDirectory_globals]

/-- A creation takes a record, a kernel stack, a directory and a page table from the heap at most,
and what lies before the page boundaries of the last two. -/
theorem createProcess_heap_le (name : List Byte) (entryPoint : Word) (kernelMode : Bool)
    (hle : s.heapCurrent.toNat ≤ 0x800000) (h : (kmalloc s.heapCurrent sizeofProcess).1 ≠ 0) :
    (createProcess s name entryPoint kernelMode).2.heapCurrent.toNat ≤
      s.heapCurrent.toNat + 28810 := by
  have hpaging := createProcess_paging name entryPoint kernelMode h
  -- The record and the kernel stack are 136 and 8192 bytes.
  have hstack : (afterStack s).heapCurrent.toNat ≤ s.heapCurrent.toNat + 8328 := by
    have hrecord := kmalloc_le process_size hle
    have hrest := kmalloc_le kernelStack_size (kmalloc_grows process_size hle).2
    unfold afterStack
    dsimp only
    omega
  have hafter := (afterStack_grows hle).2
  -- The directory starts on a page boundary.
  have hdir : (stackRequest s).heapCurrent.toNat ≤ (afterStack s).heapCurrent.toNat + 12291 := by
    rw [stackRequest_heapCurrent]
    exact Nat.le_trans (kmallocA_le pageDirectory_size hafter) (by omega)
  have hgrows : HeapGrows (afterStack s) (stackRequest s) := createPageDirectory_heapGrows hafter
  -- A user process may need one more page table for its stack.
  have hframe := allocFrame_heap_le stackPage false true hgrows.le
  generalize createProcess s name entryPoint kernelMode = r at hpaging ⊢
  rw [hpaging]
  cases kernelMode with
  | true =>
    rw [if_pos rfl]
    omega
  | false =>
    rw [if_neg Bool.false_ne_true]
    omega

theorem fork_heap_le (hcur : s.currentProcess ≠ 0) (hle : s.heapCurrent.toNat ≤ 0x800000)
    (hchild : forkChild s ≠ 0) :
    (fork s).2.heapCurrent.toNat ≤ s.heapCurrent.toNat + 28810 := by
  obtain ⟨hfst, hfork⟩ := fork_eq hcur
  rw [hfst] at hchild
  have hheap := createProcess_heap_le (s.procs s.currentProcess).name 0 false hle
    (by rwa [createProcess_fst] at hchild)
  rw [hfork, if_neg hchild]
  exact hheap

/-- `schedule` moves no kernel stack. -/
theorem schedule_kernelStack {esp : Word} {fuel : Nat} (hret : schedule s esp fuel = some s')
    (q : Word) : (s'.procs q).kernelStack = (s.procs q).kernelStack := by
  unfold schedule at hret
  by_cases hcur : s.currentProcess = 0
  · rw [if_pos hcur] at hret
    obtain rfl := Option.some.inj hret
    rfl
  · rw [if_neg hcur, Option.map_eq_some_iff] at hret
    obtain ⟨r, -, hs'⟩ := hret
    by_cases hgo : r ≠ 0 ∧ r ≠ s.currentProcess ∧ (s.procs r).state = .ready
    · rw [if_pos hgo] at hs'
      rw [← hs', switchTask_procs esp hgo.1 hgo.2.1]
      split_ifs with hr hc
      · rw [hr]
        rfl
      · rw [hc]
        rfl
      · rfl
    · rw [if_neg hgo] at hs'
      rw [hs']

namespace StacksBelow

theorem of_createProcess (h : StacksBelow s c) (hinv : ProcessInv ⟨s, c, d⟩) (name : List Byte)
    (entryPoint : Word) (kernelMode : Bool) :
    StacksBelow (createProcess s name entryPoint kernelMode).2
      (addCreated (createProcess s name entryPoint kernelMode).1 c) := by
  have hfst := createProcess_fst s name entryPoint kernelMode
  have hspec := createProcess_spec name entryPoint kernelMode hinv.heap_ne_zero hinv.heap_le
  have hle : s.heapCurrent.toNat ≤ 0x800000 := hinv.heap_le
  by_cases hproc : (kmalloc s.heapCurrent sizeofProcess).1 = 0
  · rw [hproc] at hfst
    rw [(hspec.resolve_right fun hnew => hnew.1.ne_zero hfst).2, hfst]
    exact h
  · have hnew := (hspec.resolve_left fun hnull => hproc (hfst ▸ hnull.1)).1
    have hold := hinv.ne_newProcess hnew
    have hstack := createProcess_kernelStack name entryPoint kernelMode hproc
    have hge := createProcess_heap_ge name entryPoint kernelMode hle hproc
    have hgrow := (afterStack_grows hle).1
    -- The heap is past the stack of the current process already.
    obtain ⟨hlow, hhigh⟩ := h s.currentProcess hinv.current
    have hend := kernelStack_end (kmalloc_grows process_size hle).2
    generalize createProcess s name entryPoint kernelMode = r at hnew hold hstack hge ⊢
    rw [addCreated, if_neg hnew.ne_zero]
    refine List.forall_mem_cons.mpr ⟨?_, ?_⟩
    · rw [hstack]
      unfold afterStack at hge hgrow
      simp only at hge hgrow
      omega
    · refine h.of_sameStacks (fun p hp => ?_) (Nat.le_trans hgrow hge)
      rw [hnew.others p (hold p hp)]

theorem of_modify (h : StacksBelow s c) (proc : Word) {f : Process → Process}
    (hf : ∀ p, (f p).kernelStack = p.kernelStack) : StacksBelow (s.modify proc f) c :=
  h.of_sameStacks (fun p _ => modify_kernelStack s proc hf p) (Nat.le_refl _)

theorem of_fork (h : StacksBelow s c) (hinv : ProcessInv ⟨s, c, d⟩) :
    StacksBelow (fork s).2 (addCreated (forkChild s) c) := by
  have hcur : s.currentProcess ≠ 0 := hinv.ne_zero _ hinv.current
  have hcreate := h.of_createProcess hinv (s.procs s.currentProcess).name 0 false
  obtain ⟨hchild, hfork⟩ := fork_eq hcur
  rw [hchild, hfork]
  generalize createProcess s (s.procs s.currentProcess).name 0 false = r at hcreate ⊢
  split
  · exact hcreate
  · -- What `fork` copies into the child leaves its kernel stack as it is.
    exact hcreate.of_modify _ fun _ => rfl

theorem of_schedule (h : StacksBelow s c) (hinv : ProcessInv ⟨s, c, d⟩) {esp : Word} {fuel : Nat}
    (hret : schedule s esp fuel = some s') : StacksBelow s' c := by
  have hheap : s'.heapCurrent = s.heapCurrent := by
    obtain ⟨vs, r, -, -, hsw | ⟨rfl, -⟩⟩ := schedule_spec (hinv.ne_zero _ hinv.current) hret
    · exact hsw.links.heapCurrent
    · rfl
  refine h.of_sameStacks (fun p _ => schedule_kernelStack hret p) ?_
  exact Nat.le_of_eq (congrArg BitVec.toNat hheap.symm)

/-- Every call of the process functions keeps the stacks where they are. -/
theorem of_process {y y' : ProcessSystem} {op : ProcessOp} (h : StacksBelow y.kernel y.created)
    (hinv : ProcessInv y) (hstep : ProcessStep y op y') : StacksBelow y'.kernel y'.created := by
  cases hstep with
  | @createProcess s c d name entryPoint kernelMode =>
    dsimp only at h ⊢
    exact h.of_createProcess hinv name entryPoint kernelMode
  | fork =>
    dsimp only at h ⊢
    exact h.of_fork hinv
  | schedule hret =>
    dsimp only at h ⊢
    exact h.of_schedule hinv hret
  | @exit s s' c d esp fuel hret =>
    dsimp only at h ⊢
    rw [hinv.exit_eq] at hret
    have hexit := hinv.of_exitCurrent
    rw [hinv.exitCurrent_eq] at hret hexit
    have hmodify : StacksBelow (s.modify s.currentProcess (·.setState .terminated)) c :=
      h.of_modify _ fun _ => rfl
    exact hmodify.of_schedule hexit hret
  | @destroyProcess s s' c d proc fuel hproc hret =>
    dsimp only at h ⊢
    have hu := destroyProcess_unlinked hret
    have hheap : s'.heapCurrent = s.heapCurrent := congrArg PagingState.heapCurrent hu.paging
    refine h.of_sameStacks (fun p _ => ?_) (Nat.le_of_eq (congrArg BitVec.toNat hheap.symm))
    rw [hu.data p]

end StacksBelow

/-! ## The invariant -/

/-- The invariant of the runs. -/
structure CreationInv (y : KernelSystem) : Prop where
  kernel : KernelInv y
  stacksBelow : StacksBelow y.kernel y.processes.created

/-- A paging call keeps the stacks where they are. -/
theorem StacksBelow.of_paging {t : PagingState} (h : StacksBelow s c)
    (hge : s.heapCurrent.toNat ≤ t.heapCurrent.toNat) :
    StacksBelow { s with toPagingState := t } c :=
  h.of_sameStacks (fun _ _ => rfl) hge

theorem StacksBelow.of_kernelStep {y y' : KernelSystem} {op : KernelOp}
    (h : StacksBelow y.kernel y.processes.created) (hinv : KernelInv y)
    (hstep : KernelStep y op y') : StacksBelow y'.kernel y'.processes.created := by
  have hle := hinv.memory.layout.heap_le
  cases hstep with
  | process hstep => exact h.of_process hinv.processes hstep
  | allocFrame _ => exact h.of_paging (allocFrame_heapGrows _ _ _ hle).ge
  | mapPage _ => exact h.of_paging (mapPage_heapGrows _ _ _ hle).ge
  | unmapPage _ => exact h.of_paging (unmapPage_heapGrows _ hle).ge
  | @createPageDirectory s c d D =>
    have hge := (createPageDirectory_heapGrows hle).ge
    have hs : StacksBelow s c := h
    have hs' := hs.of_paging hge
    unfold KernelSystem.kernel
    dsimp only
    exact hs'
  | switchPageDirectory _ => exact h.of_paging (Nat.le_refl _)

/-- A change of the paging state that keeps the kernel and the kernel stacks where they are. -/
theorem CreationInv.of_paging {t : PagingState} (h : CreationInv ⟨⟨s, c, d⟩, D⟩)
    (hl : Layout 0x300200 t.mem t.heapCurrent D) (hb : FrameBitmap t)
    (hge : s.heapCurrent.toNat ≤ t.heapCurrent.toNat)
    (hkd : t.kernelDirectory = s.kernelDirectory) (hcd : t.currentDirectory = s.currentDirectory) :
    CreationInv ⟨⟨{ s with toPagingState := t }, c, d⟩, D⟩ := by
  have hp : ProcessInv ⟨s, c, d⟩ := h.kernel.processes
  have hm : MemoryInv s c D := h.kernel.memory
  have hs : StacksBelow s c := h.stacksBelow
  refine ⟨⟨hp.of_paging hge hl.heap_le, hm.of_paging hl hb hge hkd (fun _ => id) ?_⟩,
    hs.of_paging hge⟩
  rw [hcd]
  exact hm.current.mono (fun _ => id) hge

theorem creationInv_step {y y' : KernelSystem} {op : CreationOp} (h : CreationInv y)
    (hstep : CreationStep y op y') : CreationInv y' := by
  cases hstep with
  | kernel hstep => exact ⟨kernelInv_step h.kernel hstep, h.stacksBelow.of_kernelStep h.kernel hstep⟩
  | @heap s c d D call hfit =>
    have hm : MemoryInv s c D := h.kernel.memory
    have hge := HeapCall.exec_ge hm.layout.heap_le hfit
    have hle := HeapCall.exec_le hm.layout.heap_le call
    exact h.of_paging (hm.layout.frame hge hle fun _ _ _ _ => rfl)
      ⟨hm.bitmap.frames, hm.bitmap.nframes⟩ hge rfl rfl
  | @setFrame s c d D a =>
    have hm : MemoryInv s c D := h.kernel.memory
    have hl := (setFrame_spec hm.bitmap hm.layout a).1
    have hb := hm.bitmap.setFrame a
    have hglob := setFrame_globals s.toPagingState a
    refine h.of_paging hl hb ?_ ?_ ?_
    · exact Nat.le_of_eq (by rw [hglob])
    · rw [hglob]
    · rw [hglob]
  | @clearFrame s c d D a =>
    have hm : MemoryInv s c D := h.kernel.memory
    have hl := (clearFrame_spec hm.bitmap hm.layout a).1
    have hb := hm.bitmap.clearFrame a
    have hglob := clearFrame_globals s.toPagingState a
    refine h.of_paging hl hb ?_ ?_ ?_
    · exact Nat.le_of_eq (by rw [hglob])
    · rw [hglob]
    · rw [hglob]

/-- The stack of the first process follows its record. -/
theorem stacksBelow_processInit {s : KernelState} (hb : BeforeProcessInit s) :
    StacksBelow (processInit s) [(processInit s).currentProcess] := by
  have hheap : s.heapCurrent = 0x306000 := hb.paging.heapCurrent
  have hle : s.heapCurrent.toNat ≤ 0x800000 := by
    rw [hheap]
    decide
  have hproc : (kmalloc s.heapCurrent sizeofProcess).1 ≠ 0 := by
    rw [hheap]
    decide
  have hstack := createProcess_kernelStack kernelName 0 true hproc
  have hge := createProcess_heap_ge kernelName 0 true hle hproc
  have hvalue : ((kmalloc (kmalloc s.heapCurrent sizeofProcess).2 kernelStackSize).1 +
      kernelStackSize).toNat = 0x308088 := by
    rw [hheap]
    decide
  have hend : (afterStack s).heapCurrent.toNat = 0x308088 := by
    unfold afterStack
    dsimp only
    rw [hheap]
    decide
  unfold processInit
  generalize createProcess s kernelName 0 true = r at hstack hge ⊢
  obtain ⟨proc, t⟩ := r
  dsimp only at hstack hge ⊢
  have hone : StacksBelow t [proc] := by
    refine List.forall_mem_singleton.mpr ?_
    rw [hstack, hvalue]
    omega
  have hmodify : StacksBelow (t.modify proc (·.setState .running)) [proc] :=
    hone.of_modify proc fun _ => rfl
  exact fun p hp => hmodify p hp

theorem creationInv_of_boot {y : KernelSystem} (h : KernelBoot y) : CreationInv y := by
  refine ⟨kernelInv_of_boot h, ?_⟩
  obtain ⟨⟨s, hb, hy⟩, -⟩ := h
  unfold KernelSystem.kernel
  rw [hy]
  exact stacksBelow_processInit hb

theorem creationInv_run {tr : List (KernelSystem × CreationOp)} {y : KernelSystem}
    (h : Run KernelBoot CreationStep tr y) : CreationInv y :=
  h.inv CreationInv (fun _ => creationInv_of_boot) fun _ _ _ => creationInv_step

/-! ## Which allocations succeed -/

/-- The kernel stack lies behind the record. -/
theorem kernelStack_of_room (h : s.heapCurrent.toNat + 136 + 8192 < 0x800000) :
    ∃ a : Word, a.toNat = s.heapCurrent.toNat + 136 ∧
      kmalloc (kmalloc s.heapCurrent sizeofProcess).2 kernelStackSize = (a, a + kernelStackSize) ∧
      (a + kernelStackSize).toNat = a.toNat + 8192 := by
  have hheap : s.heapCurrent.toNat ≤ 0x800000 := by omega
  rcases kmalloc_cases process_size hheap with ⟨hk, hadd, -⟩ | ⟨-, hge⟩
  · have hrecord : (s.heapCurrent + sizeofProcess).toNat ≤ 0x800000 := by omega
    rcases kmalloc_cases kernelStack_size hrecord with ⟨hk', hadd', -⟩ | ⟨-, hge'⟩
    · refine ⟨_, hadd, ?_, hadd'⟩
      rw [hk]
      exact hk'
    · omega
  · omega

/-- The heap after the record and the kernel stack. -/
theorem toNat_afterStack (h : s.heapCurrent.toNat + 136 + 8192 < 0x800000) :
    (afterStack s).heapCurrent.toNat = s.heapCurrent.toNat + 136 + 8192 := by
  obtain ⟨a, ha, hk, hadd⟩ := kernelStack_of_room h
  rw [afterStack]
  dsimp only
  rw [hk, hadd, ha]

/-- The heap after the directory. -/
theorem toNat_stackRequest (hstack : s.heapCurrent.toNat + 136 + 8192 < 0x800000)
    (hdir : pageAlign (s.heapCurrent.toNat + 136 + 8192) + 8196 < 0x800000) :
    (stackRequest s).heapCurrent.toNat = pageAlign (s.heapCurrent.toNat + 136 + 8192) + 8196 := by
  have hafter := toNat_afterStack hstack
  unfold pageAlign at hdir ⊢
  rw [stackRequest_heapCurrent]
  have hstart : (afterStack s).heapCurrent.toNat ≤ 0x800000 := by omega
  obtain ⟨a, ha, hk⟩ := kmallocA_cases pageDirectory_size hstart
  rw [hafter] at ha
  rcases hk with ⟨hk, hadd, -⟩ | ⟨hk, hge⟩
  · rw [hk]
    dsimp only
    omega
  · omega

/-- The kernel stack is allocated when it fits behind the record. -/
theorem kernelStack_iff (hrecord : s.heapCurrent.toNat + 136 < 0x800000) :
    (kmalloc (kmalloc s.heapCurrent sizeofProcess).2 kernelStackSize).1 ≠ 0 ↔
      s.heapCurrent.toNat + 136 + 8192 < 0x800000 := by
  have hheap : s.heapCurrent.toNat ≤ 0x800000 := by omega
  rcases kmalloc_cases process_size hheap with ⟨hk, hadd, -⟩ | ⟨hk, hge⟩
  · have hne : s.heapCurrent + sizeofProcess ≠ 0 := by
      intro h0
      have hnull : (0 : Word).toNat = 0 := rfl
      rw [h0] at hadd
      omega
    rw [hk, kmalloc_ne_zero_iff kernelStack_size (by omega) hne, hadd]
  · omega

/-- The directory is allocated when it fits behind the kernel stack, from a page boundary on. -/
theorem directory_iff (hstack : s.heapCurrent.toNat + 136 + 8192 < 0x800000) :
    (createPageDirectory (afterStack s)).1 ≠ 0 ↔
      pageAlign (s.heapCurrent.toNat + 136 + 8192) + 8196 < 0x800000 := by
  have hafter := toNat_afterStack hstack
  have hne : (afterStack s).heapCurrent ≠ 0 := by
    intro h0
    have hnull : (0 : Word).toNat = 0 := rfl
    rw [h0] at hafter
    omega
  have halloc := createPageDirectory_ne_zero_iff (s := afterStack s) (by omega) hne
  rw [hafter] at halloc
  unfold pageAlign
  exact halloc

/-- What the call does before `alloc_frame` changes no directory. -/
theorem stackRequest_sameRegion (hm : MemoryInv s c D)
    (hdir : (createPageDirectory (afterStack s)).1 ≠ 0) {e i : Word} (he : e ∈ D)
    (hi : i.toNat < 1024) : SameRegion s.mem (stackRequest s).mem e i := by
  have hregion := (createPageDirectory_regions hm.layout.afterStack hdir).1 e he i hi
  rw [afterStack_mem] at hregion
  rw [stackRequest]
  exact hregion

/-- The page of the user stack has a table, or it gets one when it fits behind the directory. -/
theorem table_iff (hm : MemoryInv s c D) (hproc : (kmalloc s.heapCurrent sizeofProcess).1 ≠ 0)
    (hstack : s.heapCurrent.toNat + 136 + 8192 < 0x800000)
    (hdir : pageAlign (s.heapCurrent.toNat + 136 + 8192) + 8196 < 0x800000) :
    TableReady (stackRequest s) stackPage ↔
      tables s.mem s.currentDirectory (dirIndex stackPage) ≠ 0 ∨
        pageAlign (pageAlign (s.heapCurrent.toNat + 136 + 8192) + 8196) + 4096 < 0x800000 := by
  have hreq := toNat_stackRequest hstack hdir
  obtain ⟨-, hk, -⟩ := hm.layout.stackRequest hproc
  -- The heap is not full enough for NULL to be the current directory.
  have hcur : s.currentDirectory ∈ D := hm.current.resolve_right fun hfull => by omega
  have hsame := stackRequest_sameRegion hm ((directory_iff hstack).mpr hdir) hcur
    (dirIndex_lt stackPage)
  have hne : (stackRequest s).heapCurrent ≠ 0 := by
    intro h0
    have hnull : (0 : Word).toNat = 0 := rfl
    rw [h0] at hreq
    omega
  have halloc := kmallocA_ne_zero_iff pageTable_size (by omega) hne
  rw [hreq] at halloc
  unfold TableReady
  rw [hk.currentDirectory, hsame.1, halloc]
  exact Iff.rfl

/-- The call marks no frame before `alloc_frame`. -/
theorem frame_iff (hm : MemoryInv s c D) (hproc : (kmalloc s.heapCurrent sizeofProcess).1 ≠ 0) :
    AllFramesUsed (stackRequest s) ↔ AllFramesUsed s.toPagingState := by
  obtain ⟨-, hk, -⟩ := hm.layout.stackRequest hproc
  have hb := hm.bitmap
  have hn := hk.nframes
  have h4096 : (4096 : Word).toNat = 4096 := by decide
  unfold AllFramesUsed
  rw [hn, hb.nframes, h4096]
  exact forall₂_congr fun F hF => hk.marked hb hF

/-- With memory for the record the allocations of `create_process` succeed when there is room. -/
theorem allocationsSucceed_iff (hm : MemoryInv s c D) (hpos : s.heapCurrent ≠ 0)
    (hrecord : s.heapCurrent.toNat + 136 < 0x800000) (kernelMode : Bool) :
    AllocationsSucceed s kernelMode ↔ RoomForProcess s kernelMode := by
  have hle := hm.layout.heap_le
  have hproc := (kmalloc_ne_zero_iff process_size hle hpos).mpr hrecord
  have hstack := kernelStack_iff hrecord
  constructor
  · rintro ⟨-, hs, hdir, hframe, htable⟩
    have hs' := hstack.mp hs
    refine ⟨hs', fun hu => (directory_iff hs').mp (hdir hu),
      fun hu hall => hframe hu ((frame_iff hm hproc).mpr hall), fun hu => ?_⟩
    exact (table_iff hm hproc hs' ((directory_iff hs').mp (hdir hu))).mp (htable hu)
  · rintro ⟨hs, hdir, hframe, htable⟩
    refine ⟨hproc, hstack.mpr hs, fun hu => (directory_iff hs).mpr (hdir hu),
      fun hu hall => hframe hu ((frame_iff hm hproc).mp hall), fun hu => ?_⟩
    exact (table_iff hm hproc hs (hdir hu)).mpr (htable hu)

/-! ## The theorem -/

/-- A process that `create_process` made with memory for its kernel stack has one of its own. -/
theorem CreationInv.ownKernelStack (h : CreationInv ⟨⟨s, c, d⟩, D⟩) (name : List Byte)
    (entryPoint : Word) (kernelMode : Bool)
    (hroom : s.heapCurrent.toNat + 136 + 8192 < 0x800000) :
    OwnKernelStack s (createProcess s name entryPoint kernelMode).2 c
      (createProcess s name entryPoint kernelMode).1 := by
  have hp : ProcessInv ⟨s, c, d⟩ := h.kernel.processes
  have hm : MemoryInv s c D := h.kernel.memory
  have hbelow : StacksBelow s c := h.stacksBelow
  have hle := hm.layout.heap_le
  have hproc := (kmalloc_ne_zero_iff process_size hle hp.heap_ne_zero).mpr (by omega)
  have hfst := createProcess_fst s name entryPoint kernelMode
  have hnew := ((createProcess_spec name entryPoint kernelMode hp.heap_ne_zero hle).resolve_left
    fun hnull => hproc (hfst ▸ hnull.1)).1
  have hold := hp.ne_newProcess hnew
  have hstack := createProcess_kernelStack name entryPoint kernelMode hproc
  have hge := createProcess_heap_ge name entryPoint kernelMode hle hproc
  obtain ⟨a, ha, hk, hadd⟩ := kernelStack_of_room hroom
  rw [toNat_afterStack hroom] at hge
  rw [hk] at hstack
  -- Directories lie in the heap, so its end is above its start.
  obtain ⟨-, hlo, hup⟩ := hm.layout.dir _ hm.kernelDirectory
  have hsize := kernelStack_size.toNat
  generalize createProcess s name entryPoint kernelMode = r at hnew hold hstack hge ⊢
  dsimp only at hstack
  have hstart : (r.2.procs r.1).kernelStack - kernelStackSize = a := by
    rw [hstack]
    exact BitVec.add_sub_cancel a kernelStackSize
  refine ⟨?_, ⟨?_, ?_⟩, ⟨?_, ?_⟩, ?_⟩
  · rw [hstart, hstack, hadd, hsize]
  · rw [hstart]
    show 0x300000 ≤ a.toNat
    omega
  · rw [hstack]
    show (a + kernelStackSize).toNat ≤ 0x800000
    omega
  · rw [hstart]
    show s.heapCurrent.toNat ≤ a.toNat
    omega
  · rw [hstack]
    show (a + kernelStackSize).toNat ≤ r.2.heapCurrent.toNat
    omega
  · -- All older stacks lie below the heap that the new one starts from.
    rintro p hp x ⟨⟨-, hx⟩, ⟨hx', -⟩⟩
    have hsame : r.2.procs p = s.procs p := hnew.others p (hold p hp)
    rw [hsame] at hx
    rw [hstart] at hx'
    have hend := (hbelow p hp).2
    omega

/-- With room for the record the call returns a process, whatever else fails. -/
theorem CreationInv.roomForProcess {y : KernelSystem} (h : CreationInv y) {name : List Byte}
    {entryPoint : Word} {kernelMode : Bool}
    (hrecord : y.kernel.heapCurrent.toNat + 136 < 0x800000)
    (hall : AllOrNothing y name entryPoint kernelMode) : RoomForProcess y.kernel kernelMode := by
  have hpos : y.kernel.heapCurrent ≠ 0 := h.kernel.processes.heap_ne_zero
  have hle := h.kernel.memory.layout.heap_le
  have hproc := (kmalloc_ne_zero_iff process_size hle hpos).mpr hrecord
  rw [← allocationsSucceed_iff h.kernel.memory hpos hrecord]
  by_contra hnot
  have hnull := (hall.nothing hnot).1
  rw [createProcess_fst] at hnull
  exact hproc hnull

/-- `create_process` is all or nothing exactly when the heap has no room for the record, or all that
the process needs is there. -/
theorem allOrNothing_iff {tr : List (KernelSystem × CreationOp)} {y : KernelSystem}
    (h : Run KernelBoot CreationStep tr y) (name : List Byte) (entryPoint : Word)
    (kernelMode : Bool) :
    AllOrNothing y name entryPoint kernelMode ↔
      0x800000 ≤ y.kernel.heapCurrent.toNat + 136 ∨ RoomForProcess y.kernel kernelMode := by
  have hinv := creationInv_run h
  have hpos : y.kernel.heapCurrent ≠ 0 := hinv.kernel.processes.heap_ne_zero
  have hle := hinv.kernel.memory.layout.heap_le
  have hfst := createProcess_fst y.kernel name entryPoint kernelMode
  have hrecord := kmalloc_ne_zero_iff process_size hle hpos
  constructor
  · intro hall
    by_cases hfull : 0x800000 ≤ y.kernel.heapCurrent.toNat + 136
    · exact .inl hfull
    · exact .inr (hinv.roomForProcess (Nat.lt_of_not_le hfull) hall)
  · rintro (hfull | hroom)
    · have hnull : (createProcess y.kernel name entryPoint kernelMode).1 = 0 := by
        rw [hfst]
        by_contra hne
        exact absurd (hrecord.mp hne) (Nat.not_lt.mpr hfull)
      have hsame := ((createProcess_spec name entryPoint kernelMode hpos hle).resolve_right
        fun hnew => hnew.1.ne_zero hnull).2
      refine ⟨fun _ => ⟨hnull, ?_⟩, fun hne => absurd hnull hne⟩
      rw [hsame]
      exact ⟨rfl, rfl, fun _ => rfl, fun _ _ _ _ => rfl, fun _ _ _ _ => rfl, fun _ _ _ => rfl⟩
    · have hstack := hroom.stack
      have hlt : y.kernel.heapCurrent.toNat + 136 < 0x800000 := by omega
      refine ⟨fun hnot => absurd ?_ hnot, fun _ => ?_⟩
      · exact (allocationsSucceed_iff hinv.kernel.memory hpos hlt kernelMode).mpr hroom
      · obtain ⟨⟨s, c, d⟩, D⟩ := y
        exact hinv.ownKernelStack name entryPoint kernelMode hstack

/-! ## After `process_init` -/

/-- The first user process gets all it needs. -/
theorem allOrNothing_iff_firstSystem : ∃ s, AfterProcessInit s ∧
    (AllOrNothing ⟨firstSystem s, [s.kernelDirectory]⟩ kernelName 0 true ↔
      0x800000 ≤ s.heapCurrent.toNat + 136 ∨ RoomForProcess s true) := by
  obtain ⟨s, hs, hboot⟩ := exists_firstSystem
  have hrun : Run KernelBoot CreationStep [] ⟨firstSystem s, [s.kernelDirectory]⟩ :=
    .start ⟨hboot, rfl⟩
  exact ⟨s, hs, allOrNothing_iff hrun kernelName 0 true⟩

/-- A request that leaves room for a record and not for a kernel stack. -/
theorem creationStep_fill (hheap : s.heapCurrent = 0x308088) :
    CreationStep ⟨⟨s, c, d⟩, D⟩ (.heap (.kmalloc 0x4F5F78))
      ⟨⟨{ s with heapCurrent := 0x7FE000 }, c, d⟩, D⟩ := by
  have hfit : (HeapCall.kmalloc 0x4F5F78).Fits s.heapCurrent := by
    intro size align hreq
    obtain ⟨rfl, rfl⟩ := Prod.mk.inj (Option.some.inj hreq)
    rw [hheap]
    exact .inl (by decide)
  have hlast : ((HeapCall.kmalloc 0x4F5F78).exec s.heapCurrent).2 = 0x7FE000 := by
    rw [hheap]
    decide
  have hstep := CreationStep.heap (c := c) (d := d) (D := D) hfit
  rw [hlast] at hstep
  exact hstep

/-- With room for the record and not for the kernel stack, `create_process` returns a process. -/
theorem not_forall_allOrNothing : ¬ ∀ (tr : List (KernelSystem × CreationOp)) (y : KernelSystem),
    Run KernelBoot CreationStep tr y → ∀ (name : List Byte) (entryPoint : Word)
      (kernelMode : Bool), AllOrNothing y name entryPoint kernelMode := by
  intro hall
  obtain ⟨s, hs, hboot⟩ := exists_firstSystem
  have hrun : Run KernelBoot CreationStep [] ⟨firstSystem s, [s.kernelDirectory]⟩ :=
    .start ⟨hboot, rfl⟩
  have hfull := Run.snoc hrun (creationStep_fill hs.heapCurrent)
  have hall' := hall _ _ hfull kernelName 0 true
  have hroom := (creationInv_run hfull).roomForProcess (by simp) hall'
  have hstack := hroom.stack
  simp at hstack

end KyroKernel
