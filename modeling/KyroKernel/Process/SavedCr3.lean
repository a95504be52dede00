import KyroKernel.Process.Directories

/-!
# The saved CR3 of a process

`create_process` saves the `physical_addr` of the new process's directory as its CR3. `fork`
creates a user process and then copies the whole CPU state of the parent over that of the child,
CR3 included, so the child keeps its own directory together with the CR3 of the parent.
-/

namespace KyroKernel

open Foundations

/-- The saved CR3 of the process is that of its own directory. -/
def SavesOwnCr3 (s : KernelState) (proc : Word) : Prop :=
  (s.procs proc).cpuState.cr3 = physicalAddr s.mem (s.procs proc).pageDirectory

/-! ## From boot -/

/-- The kernel after `paging_init`. -/
def afterPaging (s : KernelState) : KernelState :=
  { s with toPagingState := pagingInit s.toPagingState }

/-- The start of a run: `paging_init` and `process_init` have returned. -/
def KernelStart (y : ProcessSystem) : Prop :=
  ∃ s, AtKernelBoot s ∧ y = ⟨processInit (afterPaging s),
    [(processInit (afterPaging s)).currentProcess], []⟩

theorem AtKernelBoot.beforeProcessInit {s : KernelState} (h : AtKernelBoot s) :
    BeforeProcessInit (afterPaging s) :=
  ⟨afterPagingInit_of_atBoot h.paging, h.processList, h.currentProcess, h.nextPid, h.switches⟩

theorem KernelStart.boot {y : ProcessSystem} (h : KernelStart y) : ProcessBoot y := by
  obtain ⟨s, hs, rfl⟩ := h
  exact ⟨afterPaging s, hs.beforeProcessInit, rfl⟩

/-! ## The invariant -/

/-- Every directory pointer of a process leads to a directory or to the cleared NULL, and every
saved CR3 is 0 or the address of a directory. -/
structure Cr3Inv (D : List Word) (y : ProcessSystem) : Prop where
  inv : ProcessInv y
  memory : MemoryInv y.kernel y.created D
  kernelPhysical : physicalAddr y.kernel.mem y.kernel.kernelDirectory = 0
  directory : ∀ p ∈ y.created, (y.kernel.procs p).pageDirectory ∈ D ∨
    ((y.kernel.procs p).pageDirectory = 0 ∧ NullDirectory y.kernel.mem)
  cr3 : ∀ p ∈ y.created, (y.kernel.procs p).cpuState.cr3 = 0 ∨
    (y.kernel.procs p).cpuState.cr3 ∈ D

theorem cr3Inv_of_start {y : ProcessSystem} (h : KernelStart y) :
    Cr3Inv [0x301000] y ∧ ∀ p ∈ y.created, SavesOwnCr3 y.kernel p := by
  have hinv := processInv_of_boot h.boot
  obtain ⟨s, hs, rfl⟩ := h
  have hm := memoryInv_processInit hs.beforeProcessInit
  have hphys : physicalAddr (afterPaging s).mem 0x301000 = 0 := physicalAddr_of_atBoot hs.paging
  obtain ⟨hmem, hkd, hdir, hcr3⟩ := processInit_directory hs.beforeProcessInit
  rw [hphys] at hcr3
  rw [← hmem] at hphys
  generalize processInit (afterPaging s) = s' at hinv hm hkd hphys hdir hcr3 ⊢
  refine ⟨⟨hinv, hm, ?_, fun p hp => ?_, fun p hp => ?_⟩, fun p hp => ?_⟩
  · rw [hkd]
    exact hphys
  · rw [List.mem_singleton.mp hp, hdir]
    exact .inl List.mem_cons_self
  · rw [List.mem_singleton.mp hp]
    exact .inl hcr3
  · unfold SavesOwnCr3
    rw [List.mem_singleton.mp hp, hcr3, hdir, hphys]

/-- The directory of a process that a call adds, seen from the state after the call. -/
theorem AddedProcess.directory_cases {D : List Word} {y y' : ProcessSystem} {op : ProcessOp}
    {proc : Word} (h : AddedProcess D y y' op proc) (hy : Cr3Inv D y) :
    ((y'.kernel.procs proc).pageDirectory ∈ addDirectory (newDirectory y.kernel op) D ∨
      ((y'.kernel.procs proc).pageDirectory = 0 ∧ NullDirectory y'.kernel.mem)) ∧
    (physicalAddr y'.kernel.mem (y'.kernel.procs proc).pageDirectory = 0 ∨
      physicalAddr y'.kernel.mem (y'.kernel.procs proc).pageDirectory ∈
        addDirectory (newDirectory y.kernel op) D) := by
  rcases h.directory with ⟨-, hdir, hmem⟩ | ⟨hdir, huser⟩
  · rw [hdir, hmem, hy.kernelPhysical]
    exact ⟨.inl (mem_addDirectory hy.memory.kernelDirectory), .inl rfl⟩
  · rw [hdir]
    rcases huser.new with ⟨hne, -, -, hself⟩ | ⟨h0, hnull⟩
    · have hmem : newDirectory y.kernel op ∈ addDirectory (newDirectory y.kernel op) D := by
        unfold addDirectory
        rw [if_neg hne]
        exact List.mem_cons_self
      rw [hself]
      exact ⟨.inl hmem, .inr hmem⟩
    · rw [h0]
      exact ⟨.inr ⟨rfl, hnull⟩, .inl hnull.physicalAddr⟩

theorem Cr3Inv.step {D : List Word} {y y' : ProcessSystem} {op : ProcessOp} (h : Cr3Inv D y)
    (hstep : ProcessStep y op y') : Cr3Inv (addDirectory (newDirectory y.kernel op) D) y' := by
  have hs := stepDirectories_step h.memory h.inv hstep
  -- The processes that were there before.
  have holdDir : ∀ p ∈ y.created,
      (y'.kernel.procs p).pageDirectory ∈ addDirectory (newDirectory y.kernel op) D ∨
        ((y'.kernel.procs p).pageDirectory = 0 ∧ NullDirectory y'.kernel.mem) := by
    intro p hp
    rw [(hs.records p hp).1]
    exact (h.directory p hp).imp mem_addDirectory fun ⟨h0, hn⟩ => ⟨h0, hs.null hn⟩
  have holdCr3 : ∀ p ∈ y.created, (y'.kernel.procs p).cpuState.cr3 = 0 ∨
      (y'.kernel.procs p).cpuState.cr3 ∈ addDirectory (newDirectory y.kernel op) D := by
    intro p hp
    rw [(hs.records p hp).2]
    exact (h.cr3 p hp).imp id mem_addDirectory
  refine ⟨processInv_step h.inv hstep, h.memory.of_process h.inv hstep, ?_, ?_, ?_⟩
  · rw [hs.kernelDirectory, hs.physicalAddr h.memory.kernelDirectory]
    exact h.kernelPhysical
  · rcases hs.effect with ⟨hcreated, -⟩ | ⟨proc, hadd⟩
    · rw [hcreated]
      exact holdDir
    · rw [hadd.created]
      exact List.forall_mem_cons.mpr ⟨(hadd.directory_cases h).1, holdDir⟩
  · rcases hs.effect with ⟨hcreated, -⟩ | ⟨proc, hadd⟩
    · rw [hcreated]
      exact holdCr3
    · rw [hadd.created]
      refine List.forall_mem_cons.mpr ⟨?_, holdCr3⟩
      rcases hadd.cr3 with ⟨-, hcr3⟩ | ⟨-, hcr3⟩
      · rw [hcr3]
        exact (hadd.directory_cases h).2
      · rw [hcr3]
        exact (h.cr3 _ h.inv.current).imp id mem_addDirectory

theorem cr3Inv_run {tr : List (ProcessSystem × ProcessOp)} {y : ProcessSystem}
    (hrun : Run KernelStart ProcessStep tr y) : ∃ D, Cr3Inv D y :=
  hrun.inv (fun y => ∃ D, Cr3Inv D y) (fun _ h => ⟨_, (cr3Inv_of_start h).1⟩)
    fun _ _ _ ⟨_, h⟩ hstep => ⟨_, h.step hstep⟩

/-! ## Who saves the right CR3 -/

/-- A process that saves the CR3 of its own directory goes on doing so. -/
theorem SavesOwnCr3.step {D : List Word} {y y' : ProcessSystem} {op : ProcessOp} {p : Word}
    (h : SavesOwnCr3 y.kernel p) (hy : Cr3Inv D y) (hp : p ∈ y.created)
    (hstep : ProcessStep y op y') : SavesOwnCr3 y'.kernel p := by
  have hs := stepDirectories_step hy.memory hy.inv hstep
  unfold SavesOwnCr3 at h ⊢
  rw [(hs.records p hp).1, (hs.records p hp).2, h]
  rcases hy.directory p hp with hmem | ⟨h0, hnull⟩
  · exact (hs.physicalAddr hmem).symm
  · rw [h0, hnull.physicalAddr, (hs.null hnull).physicalAddr]

/-- `fork` gets no memory for the record of the child; or it gets none for the directory, which is
then NULL with 0 as its address, and 0 is also the CR3 that the parent saved. -/
def ForkKeepsCr3 (s : KernelState) : Prop :=
  (kmalloc s.heapCurrent sizeofProcess).1 = 0 ∨
    (userDirectory s = 0 ∧ (s.procs s.currentProcess).cpuState.cr3 = 0)

/-- A child saves the CR3 of its own directory when that is NULL and the parent saved 0: no
directory that exists already has the address of a new one. -/
theorem savesOwnCr3_child_iff {D : List Word} {y y' : ProcessSystem} {proc : Word}
    (hy : Cr3Inv D y) (hadd : AddedProcess D y y' .fork proc) :
    SavesOwnCr3 y'.kernel proc ↔ userDirectory y.kernel = 0 ∧
      (y.kernel.procs y.kernel.currentProcess).cpuState.cr3 = 0 := by
  have huser : newDirectory y.kernel .fork = userDirectory y.kernel :=
    if_neg (hy.inv.ne_zero _ hy.inv.current)
  have hcr3 := (hadd.cr3.resolve_left fun hh => hh.1 rfl).2
  obtain ⟨hdir, hspec⟩ := hadd.directory.resolve_left fun hh => hh.1 rfl
  unfold SavesOwnCr3
  rw [hcr3, hdir, huser]
  rw [huser] at hspec
  rcases hspec.new with ⟨hne, hfresh, -, hself⟩ | ⟨h0, hnull⟩
  · rw [hself]
    constructor
    · intro heq
      rcases hy.cr3 _ hy.inv.current with hzero | hmem
      · exact absurd (heq.symm.trans hzero) hne
      · exact absurd (heq ▸ hmem) hfresh
    · exact fun hh => absurd hh.1 hne
  · rw [h0, hnull.physicalAddr]
    exact ⟨fun heq => ⟨rfl, heq⟩, And.right⟩

/-- A step after which all processes save the CR3 of their own directory. -/
theorem savesOwnCr3_step {D : List Word} {y y' : ProcessSystem} {op : ProcessOp}
    (hy : Cr3Inv D y) (hall : ∀ p ∈ y.created, SavesOwnCr3 y.kernel p)
    (hfork : op = .fork → ForkKeepsCr3 y.kernel) (hstep : ProcessStep y op y') :
    ∀ p ∈ y'.created, SavesOwnCr3 y'.kernel p := by
  have hs := stepDirectories_step hy.memory hy.inv hstep
  have hold : ∀ p ∈ y.created, SavesOwnCr3 y'.kernel p := fun p hp =>
    (hall p hp).step hy hp hstep
  rcases hs.effect with ⟨hcreated, -⟩ | ⟨proc, hadd⟩
  · rw [hcreated]
    exact hold
  · rw [hadd.created]
    refine List.forall_mem_cons.mpr ⟨?_, hold⟩
    rcases hadd.cr3 with ⟨-, hcr3⟩ | ⟨rfl, -⟩
    · exact hcr3
    · refine (savesOwnCr3_child_iff hy hadd).mpr ((hfork rfl).resolve_left fun h0 => ?_)
      -- The child was created, so its record was allocated.
      have hchild : forkChild y.kernel = 0 := by
        unfold forkChild
        rw [if_neg (hy.inv.ne_zero _ hy.inv.current), createProcess_fst, h0]
      cases hstep with
      | @fork s c d =>
        have hcreated : addCreated (forkChild s) c = proc :: c := hadd.created
        rw [hchild] at hcreated
        exact List.cons_ne_self proc c hcreated.symm

/-- A child that `fork` creates is on the list. -/
theorem AddedProcess.live {D : List Word} {y y' : ProcessSystem} {op : ProcessOp} {proc : Word}
    (h : AddedProcess D y y' op proc) (hinv : ProcessInv y) (hinv' : ProcessInv y') :
    OnProcessList y'.kernel proc := by
  rw [hinv'.onProcessList_iff, mem_live, h.created, h.destroyed]
  refine ⟨List.mem_cons_self, fun hmem => ?_⟩
  rcases hinv.destroyed proc hmem with h0 | hold
  · exact h.new.ne_zero h0
  · exact hinv.ne_newProcess h.new proc hold rfl

/-- A child that got a record and saves the CR3 of its own directory. -/
theorem forkKeepsCr3_of_child {D : List Word} {y y' : ProcessSystem} (hy : Cr3Inv D y)
    (hstep : ProcessStep y .fork y')
    (hall : ∀ p, OnProcessList y'.kernel p → SavesOwnCr3 y'.kernel p) :
    ForkKeepsCr3 y.kernel := by
  by_cases hproc : (kmalloc y.kernel.heapCurrent sizeofProcess).1 = 0
  · exact .inl hproc
  · obtain ⟨proc, hadd⟩ := exists_addedProcess_fork hy.memory hy.inv hstep hproc
    have hlive := hadd.live hy.inv (processInv_step hy.inv hstep)
    exact .inr ((savesOwnCr3_child_iff hy hadd).mp (hall proc hlive))

/-- In a run every process on the list saves the CR3 of its own directory in every state exactly
when no `fork` of the run gives a child that was created a directory, or the CR3 of a parent
that has one. -/
theorem savesOwnCr3_iff {tr : List (ProcessSystem × ProcessOp)} {y : ProcessSystem}
    (hrun : Run KernelStart ProcessStep tr y) :
    (∀ z ∈ Run.states tr y, ∀ p, OnProcessList z.kernel p → SavesOwnCr3 z.kernel p) ↔
      ∀ q ∈ tr, q.2 = .fork → ForkKeepsCr3 q.1.kernel := by
  constructor
  · rintro hall ⟨x, op⟩ hq hop
    obtain ⟨pre, z, hz, hmem⟩ := hrun.exists_after hq
    obtain ⟨D, hx⟩ := cr3Inv_run hz.tail
    have hlast := hz.last
    simp only at hop hlast
    rw [hop] at hlast
    exact forkKeepsCr3_of_child hx hlast (hall z hmem)
  · intro hguard z hz p hp
    have hinv := hrun.inv_states_of_guard
      (fun x => ∃ D, Cr3Inv D x ∧ ∀ p ∈ x.created, SavesOwnCr3 x.kernel p)
      (fun x op => op = .fork → ForkKeepsCr3 x.kernel) (fun _ h => ⟨_, cr3Inv_of_start h⟩)
      (fun _ _ _ ⟨_, hx, hall⟩ hg hstep =>
        ⟨_, hx.step hstep, savesOwnCr3_step hx hall hg hstep⟩) hguard
    obtain ⟨D, hx, hall⟩ := hinv z hz
    exact hall p (ProcessInv.live_subset ((hx.inv.onProcessList_iff p).mp hp))

/-! ## Short runs -/

theorem exists_firstKernelStart : ∃ s, AfterProcessInit s ∧ KernelStart (firstSystem s) := by
  have hboot : AtKernelBoot { bootKernel with toPagingState := bootState } :=
    ⟨atBoot_bootState, rfl, rfl, rfl, rfl⟩
  have hs := processInit_spec hboot.beforeProcessInit
  refine ⟨_, hs, _, hboot, ?_⟩
  rw [hs.currentProcess]
  rfl

/-- Right after `process_init` the heap has room for the record and the directory of a child. -/
theorem not_forkKeepsCr3_of_afterProcessInit {s : KernelState} (hs : AfterProcessInit s) :
    ¬ ForkKeepsCr3 s := by
  have hproc : (kmalloc s.heapCurrent sizeofProcess).1 ≠ 0 := by
    rw [hs.heapCurrent]
    decide
  rintro (h0 | ⟨hdir, -⟩)
  · exact hproc h0
  · unfold userDirectory afterStack at hdir
    rw [if_neg hproc, createPageDirectory_fst, hs.heapCurrent] at hdir
    simp only at hdir
    exact absurd hdir (by decide)

/-- The first process forks; its child saves the CR3 of the kernel directory. -/
theorem not_forall_savesOwnCr3 : ¬ ∀ (tr : List (ProcessSystem × ProcessOp))
    (y : ProcessSystem), Run KernelStart ProcessStep tr y →
    ∀ p, OnProcessList y.kernel p → SavesOwnCr3 y.kernel p := by
  intro hall
  obtain ⟨s, hs, hstart⟩ := exists_firstKernelStart
  have hrun : Run KernelStart ProcessStep [(firstSystem s, .fork)]
      ⟨(fork s).2, addCreated (forkChild s) [0x306000], []⟩ :=
    .snoc (.start hstart) .fork
  have hinv := (cr3Inv_of_start hstart).1
  have hkeeps := forkKeepsCr3_of_child hinv hrun.last (hall _ _ hrun)
  exact not_forkKeepsCr3_of_afterProcessInit hs hkeeps

/-- As long as nobody forks every process saves its own CR3. -/
theorem savesOwnCr3_iff_pairSystem :
    ∃ s, Run KernelStart ProcessStep [(firstSystem s, .createProcess kernelName 0 true)]
        (pairSystem s) ∧
      ∀ p, OnProcessList (pairSystem s).kernel p → SavesOwnCr3 (pairSystem s).kernel p := by
  obtain ⟨s, hs, hstart⟩ := exists_firstKernelStart
  have hrun : Run KernelStart ProcessStep [(firstSystem s, .createProcess kernelName 0 true)]
      (pairSystem s) := .snoc (.start hstart) (run_pairSystem hs hstart.boot).last
  refine ⟨s, hrun, (savesOwnCr3_iff hrun).mpr ?_ _ List.mem_cons_self⟩
  intro q hq
  obtain rfl := List.mem_singleton.mp hq
  exact nofun

end KyroKernel
