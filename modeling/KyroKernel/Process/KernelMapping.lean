import KyroKernel.Paging.AddressSpaces
import KyroKernel.Process.Directories
import KyroKernel.Process.Fairness

/-!
# The kernel in the address spaces that `schedule` switches to

`paging_init` maps the first 8 MB to themselves in the kernel directory. The directory of a user
process starts empty and at most a stack page is added to it, so the first switch to such a process
leaves the kernel without its image, its stacks and its heap.
-/

namespace KyroKernel

open Foundations

/-- `get_physical_address` maps every address of the first 8 MB to itself. -/
def KernelMapped (s : PagingState) : Prop :=
  ∀ v : Word, v.toNat < 0x800000 → getPhysicalAddress s v = v

/-- The kernel is mapped where the entries of the first 8 MB are those of `paging_init`. -/
theorem kernelMapped_of_identity {s : PagingState}
    (h : ∀ v : Word, (v >>> 12).toNat < 2048 →
      pte s.mem s.currentDirectory v = frameOf v ||| (pagePresent ||| pageWritable)) :
    KernelMapped s := by
  intro v hv
  have hentry := h v (by rw [BitVec.toNat_ushiftRight, Nat.shiftRight_eq_div_pow]; omega)
  have hmatches : EntryMatches (pte s.mem s.currentDirectory v) (some v) := by
    rw [hentry]
    exact entryMatches_entry (by decide) (by decide)
  exact (translation_of_entryMatches (s := s) hmatches).trans (frameOf_or_pageOffset_self v)

/-- Without an entry for page 1 the kernel is not mapped. -/
theorem not_kernelMapped_of_pte {s : PagingState} (h : pte s.mem s.currentDirectory 0x1000 = 0) :
    ¬ KernelMapped s := by
  intro hmapped
  have heq := hmapped 0x1000 (by decide)
  rw [getPhysicalAddress_eq, h, if_pos (by decide)] at heq
  exact absurd heq (by decide)

/-! ## The invariant -/

/-- The directory `dir` of a process does not map page 1: it is one of `D`, or the cleared
NULL. -/
def LacksKernel (D : List Word) (m : Mem) (dir : Word) : Prop :=
  (dir ∈ D ∧ pte m dir 0x1000 = 0) ∨ (dir = 0 ∧ NullDirectory m)

theorem LacksKernel.pte_eq {D : List Word} {m : Mem} {dir : Word} (h : LacksKernel D m dir) :
    pte m dir 0x1000 = 0 := by
  rcases h with ⟨-, hpte⟩ | ⟨rfl, hnull⟩
  · exact hpte
  · unfold pte
    exact if_pos hnull.table

/-- The kernel directory maps the kernel, and every process has the kernel directory or one that
does not map it. -/
structure KernelMappingInv (D : List Word) (y : ProcessSystem) : Prop where
  inv : ProcessInv y
  memory : MemoryInv y.kernel y.created D
  identity : ∀ v : Word, (v >>> 12).toNat < 2048 →
    pte y.kernel.mem y.kernel.kernelDirectory v = frameOf v ||| (pagePresent ||| pageWritable)
  directory : ∀ p ∈ y.created,
    (y.kernel.procs p).pageDirectory = y.kernel.kernelDirectory ∨
      LacksKernel D y.kernel.mem (y.kernel.procs p).pageDirectory

theorem kernelMappingInv_of_boot {y : ProcessSystem} (h : ProcessBoot y) :
    KernelMappingInv [0x301000] y := by
  have hinv := processInv_of_boot h
  obtain ⟨s, hs, rfl⟩ := h
  have hm := memoryInv_processInit hs
  obtain ⟨hmem, hkd, hdir, -⟩ := processInit_directory hs
  have hid := hs.paging.identity
  rw [← hmem, ← hkd] at hid
  generalize processInit s = s' at hinv hm hkd hdir hid ⊢
  refine ⟨hinv, hm, hid, fun p hp => .inl ?_⟩
  rw [List.mem_singleton.mp hp, hdir, hkd]

theorem shiftRight_ne_stackPage {v : Word} (h : (v >>> 12).toNat < 2048) :
    v >>> 12 ≠ stackPage >>> 12 := by
  intro heq
  rw [heq] at h
  exact absurd h (by decide)

theorem LacksKernel.step {D : List Word} {y y' : ProcessSystem} {op : ProcessOp} {dir : Word}
    (h : LacksKernel D y.kernel.mem dir) (hs : StepDirectories D y y' op) :
    LacksKernel (addDirectory (newDirectory y.kernel op) D) y'.kernel.mem dir := by
  rcases h with ⟨hmem, hpte⟩ | ⟨h0, hnull⟩
  · refine .inl ⟨mem_addDirectory hmem, ?_⟩
    rw [hs.entries hmem (by decide)]
    exact hpte
  · exact .inr ⟨h0, hs.null hnull⟩

/-- The directory of a new user process does not map page 1. -/
theorem UserDirectories.lacksKernel {D : List Word} {m m' : Mem} {dir : Word}
    (h : UserDirectories D m dir m') : LacksKernel (addDirectory dir D) m' dir := by
  rcases h.new with ⟨hne, -, hempty, -⟩ | ⟨h0, hnull⟩
  · refine .inl ⟨?_, hempty _ (by decide)⟩
    rw [addDirectory, if_neg hne]
    exact List.mem_cons_self
  · exact .inr ⟨h0, hnull⟩

theorem KernelMappingInv.step {D : List Word} {y y' : ProcessSystem} {op : ProcessOp}
    (h : KernelMappingInv D y) (hstep : ProcessStep y op y') :
    KernelMappingInv (addDirectory (newDirectory y.kernel op) D) y' := by
  have hs := stepDirectories_step h.memory h.inv hstep
  -- The processes that were there before.
  have hold : ∀ p ∈ y.created,
      (y'.kernel.procs p).pageDirectory = y'.kernel.kernelDirectory ∨
        LacksKernel (addDirectory (newDirectory y.kernel op) D) y'.kernel.mem
          (y'.kernel.procs p).pageDirectory := by
    intro p hp
    rw [(hs.records p hp).1, hs.kernelDirectory]
    exact (h.directory p hp).imp id fun hlacks => hlacks.step hs
  refine ⟨processInv_step h.inv hstep, h.memory.of_process h.inv hstep, fun v hv => ?_, ?_⟩
  · rw [hs.kernelDirectory, hs.entries h.memory.kernelDirectory (shiftRight_ne_stackPage hv)]
    exact h.identity v hv
  · rcases hs.effect with ⟨hcreated, -⟩ | ⟨proc, hadd⟩
    · rw [hcreated]
      exact hold
    · rw [hadd.created]
      refine List.forall_mem_cons.mpr ⟨?_, hold⟩
      rcases hadd.directory with ⟨-, hdir, -⟩ | ⟨hdir, huser⟩
      · rw [hdir, hs.kernelDirectory]
        exact .inl rfl
      · rw [hdir]
        exact .inr huser.lacksKernel

/-! ## Switches -/

/-- After a switch the kernel is mapped when the process has the kernel directory, and only
then. -/
theorem KernelMappingInv.kernelMapped_of_switched {D : List Word} {s s' : KernelState}
    {c d : List Word} {next : Word} (h : KernelMappingInv D ⟨s, c, d⟩) (hsw : Switched s s' next)
    (hnext : next ∈ c) :
    KernelMapped s'.toPagingState ↔ (s.procs next).pageDirectory = s.kernelDirectory := by
  have hmem : s'.mem = s.mem := hsw.links.mem
  have hcur : s'.currentDirectory = (s.procs next).pageDirectory := hsw.currentDirectory
  constructor
  · intro hmapped
    refine (h.directory next hnext).resolve_right fun hlacks => ?_
    refine not_kernelMapped_of_pte ?_ hmapped
    rw [hmem, hcur]
    exact hlacks.pte_eq
  · intro hdir
    apply kernelMapped_of_identity
    rw [hmem, hcur, hdir]
    exact h.identity

/-- The next process around the list has the kernel directory, unless it is the current one, to
which there is no switch. -/
def NextInKernelDirectory (s : KernelState) : Prop :=
  s.nextOrHead s.currentProcess = s.currentProcess ∨
    (s.procs (s.nextOrHead s.currentProcess)).pageDirectory = s.kernelDirectory

/-- One `schedule` in a fair run. -/
theorem kernelMapped_schedule_iff {D : List Word} {y y' : ProcessSystem} {esp : Word}
    (h : KernelMappingInv D y) (hfair : FairInv y) (hstep : ProcessStep y (.schedule esp) y') :
    (y'.kernel.switches ≠ y.kernel.switches → KernelMapped y'.kernel.toPagingState) ↔
      NextInKernelDirectory y.kernel := by
  cases hstep with
  | @schedule s s' c d esp fuel hret =>
    rcases hfair.schedule_cases hret with hsw | ⟨rfl, hself⟩
    · have hnext : s.nextOrHead s.currentProcess ∈ c :=
        (h.inv.nextOrHead_mem h.inv.current).resolve_left hsw.ne_zero
      have hlogged : s'.switches ≠ s.switches := by
        rw [hsw.switches]
        exact List.cons_ne_self _ _
      have hiff := h.kernelMapped_of_switched hsw hnext
      exact ⟨fun himp => .inr (hiff.mp (himp hlogged)),
        fun hor _ => hiff.mpr (hor.resolve_left hsw.ne_current)⟩
    · exact ⟨fun _ => .inl hself, fun _ hne => absurd rfl hne⟩

/-- In a fair run only `schedule` switches. -/
theorem schedule_of_switches_ne {y y' : ProcessSystem} {op : ProcessOp} (h : ProcessInv y)
    (hstep : ProcessStep y op y') (hop : op.IsFair)
    (hne : y'.kernel.switches ≠ y.kernel.switches) : ∃ esp, op = .schedule esp := by
  cases h.effect hstep with
  | failed => exact absurd rfl hne
  | added _ hnew => exact absurd hnew.switches hne
  | schedule => exact ⟨_, rfl⟩
  | exit => exact hop.elim
  | destroyProcess => exact hop.elim

theorem kernelMappingInv_run {tr : List (ProcessSystem × ProcessOp)} {y : ProcessSystem}
    (hrun : Run ProcessBoot ProcessStep tr y) (hops : ∀ q ∈ tr, q.2.IsFair) :
    ∀ z ∈ Run.states tr y, FairInv z ∧ ∃ D, KernelMappingInv D z :=
  hrun.inv_states_of_guard (fun z => FairInv z ∧ ∃ D, KernelMappingInv D z)
    (fun _ op => op.IsFair) (fun _ h => ⟨fairInv_of_boot h, _, kernelMappingInv_of_boot h⟩)
    (fun _ _ _ ⟨hfair, _, h⟩ hop hstep => ⟨(hfair.step_cases hstep hop).1, _, h.step hstep⟩) hops

/-- In a run of `create_process`, `fork` and `schedule` every switch leads to a directory that maps
the kernel exactly when every switch is to a process with the kernel directory. -/
theorem kernelMapped_iff {tr : List (ProcessSystem × ProcessOp)} {y : ProcessSystem}
    (hrun : Run ProcessBoot ProcessStep tr y) (hops : ∀ q ∈ tr, q.2.IsFair) :
    (∀ q ∈ tr, ∀ y', ProcessStep q.1 q.2 y' → y'.kernel.switches ≠ q.1.kernel.switches →
        KernelMapped y'.kernel.toPagingState) ↔
      ∀ q ∈ tr, ∀ esp, q.2 = .schedule esp → NextInKernelDirectory q.1.kernel := by
  have hinv : ∀ q ∈ tr, FairInv q.1 ∧ ∃ D, KernelMappingInv D q.1 := fun q hq =>
    kernelMappingInv_run hrun hops q.1 (Run.fst_mem_states hq)
  constructor
  · rintro hall ⟨x, op⟩ hq esp rfl
    obtain ⟨hfair, D, hx⟩ := hinv _ hq
    obtain ⟨pre, z, hz, -⟩ := hrun.exists_after hq
    exact (kernelMapped_schedule_iff hx hfair hz.last).mp (hall _ hq z hz.last)
  · rintro hall ⟨x, op⟩ hq y' hstep hne
    obtain ⟨hfair, D, hx⟩ := hinv _ hq
    obtain ⟨esp, rfl⟩ := schedule_of_switches_ne hx.inv hstep (hops _ hq) hne
    exact (kernelMapped_schedule_iff hx hfair hstep).mpr (hall _ hq esp rfl) hne

/-! ## Short runs -/

/-- After the first process forked, its child is next and has a directory of its own. -/
theorem not_nextInKernelDirectory_of_fork {s s' : KernelState} {c d : List Word}
    (hs : AfterProcessInit s) (h : KernelMappingInv [0x301000] (firstSystem s))
    (hstep : ProcessStep (firstSystem s) .fork ⟨s', c, d⟩) : ¬ NextInKernelDirectory s' := by
  have hproc : (kmalloc s.heapCurrent sizeofProcess).1 ≠ 0 := by
    rw [hs.heapCurrent]
    decide
  obtain ⟨proc, hadd⟩ := exists_addedProcess_fork h.memory h.inv hstep hproc
  have hnew : NewProcess s s' proc := hadd.new
  have hmem : s.currentProcess ∈ (firstSystem s).created := h.inv.current
  have hother := h.inv.ne_newProcess hadd.new _ hmem
  -- The walk wraps from the only old process to the new one.
  have hnext : s'.nextOrHead s'.currentProcess = proc := by
    have hlast : s'.next s.currentProcess = 0 := by
      unfold KernelState.next
      rw [hnew.others _ hother, hs.currentProcess]
      exact hs.next
    unfold KernelState.nextOrHead
    rw [hnew.currentProcess, hlast, if_pos rfl, hnew.processList]
  unfold NextInKernelDirectory
  rw [hnext, hnew.currentProcess]
  rintro (hself | hdir)
  · exact hother hself.symm
  · obtain ⟨hdirectory, huser⟩ := hadd.directory.resolve_left fun hh => hh.1 rfl
    have hlacks := huser.lacksKernel.pte_eq
    rw [← hdirectory] at hlacks
    have hid := (h.step hstep).identity 0x1000 (by decide)
    exact absurd ((hdir ▸ hid).symm.trans hlacks) (by decide)

/-- The first process forks and the scheduler switches to the child. -/
theorem not_forall_kernelMapped : ¬ ∀ (tr : List (ProcessSystem × ProcessOp)) (y : ProcessSystem),
    Run ProcessBoot ProcessStep tr y → (∀ q ∈ tr, q.2.IsFair) →
    ∀ q ∈ tr, ∀ y', ProcessStep q.1 q.2 y' → y'.kernel.switches ≠ q.1.kernel.switches →
      KernelMapped y'.kernel.toPagingState := by
  intro hall
  obtain ⟨s, hs, hboot⟩ := exists_firstSystem
  have hfork : ProcessStep (firstSystem s) .fork
      ⟨(fork s).2, addCreated (forkChild s) [0x306000], []⟩ := .fork
  have hinv : KernelMappingInv [0x301000] (firstSystem s) := kernelMappingInv_of_boot hboot
  have hfair := ((fairInv_of_boot hboot).step_cases hfork trivial).1
  obtain ⟨fuel, s', hret⟩ := hfair.schedule_returns 0
  have hschedule := ProcessStep.schedule
    (c := addCreated (forkChild s) [0x306000]) (d := []) hret
  have hrun := ((Run.start hboot).snoc hfork).snoc hschedule
  have hops : ∀ q ∈ [((⟨(fork s).2, addCreated (forkChild s) [0x306000], []⟩ : ProcessSystem),
      ProcessOp.schedule 0), (firstSystem s, .fork)], q.2.IsFair := by
    simp [ProcessOp.IsFair]
  have hmapped := hall _ _ hrun hops _ List.mem_cons_self _ hschedule
  have hnext := (kernelMapped_schedule_iff (hinv.step hfork) hfair hschedule).mp hmapped
  exact not_nextInKernelDirectory_of_fork hs hinv hfork hnext

/-- A second process that is created as a kernel process is next. -/
theorem nextInKernelDirectory_pairKernel {s : KernelState} (hs : AfterProcessInit s)
    (hkeeps : (pairKernel s).kernelDirectory = s.kernelDirectory) :
    NextInKernelDirectory (pairKernel s) := by
  obtain ⟨hcur, hlist, -, hlast, -⟩ := pairKernel_links hs
  have hproc : (kmalloc s.heapCurrent sizeofProcess).1 ≠ 0 := by
    rw [hs.heapCurrent]
    decide
  have hdir := (createProcess_pageDirectory kernelName 0 true hproc).1
  rw [if_pos rfl, createProcess_pair hs] at hdir
  unfold NextInKernelDirectory KernelState.nextOrHead
  rw [hcur, hlast, if_pos rfl, hlist, hkeeps]
  unfold pairKernel
  exact .inr hdir

/-- A second kernel process is created and switched to. -/
theorem kernelMapped_iff_pairSystem : ∃ s y, Run ProcessBoot ProcessStep
    [(pairSystem s, .schedule 0), (firstSystem s, .createProcess kernelName 0 true)] y ∧
    (y.kernel.switches ≠ (pairKernel s).switches → KernelMapped y.kernel.toPagingState) := by
  obtain ⟨s, hs, hboot⟩ := exists_firstSystem
  have hpair := run_pairSystem hs hboot
  have hfair : FairInv (pairSystem s) := fairInv_run hpair (by simp [ProcessOp.IsFair])
  obtain ⟨fuel, s', hret⟩ := hfair.schedule_returns 0
  have hschedule : ProcessStep (pairSystem s) (.schedule 0) ⟨s', [0x308088, 0x306000], []⟩ :=
    .schedule hret
  have hrun := hpair.snoc hschedule
  have hinv := kernelMappingInv_of_boot hboot
  have hkeeps := (stepDirectories_step hinv.memory hinv.inv hpair.last).kernelDirectory
  have hnext := nextInKernelDirectory_pairKernel hs hkeeps
  have hiff := kernelMapped_iff hrun (by simp [ProcessOp.IsFair])
  have hguard : ∀ q ∈ [(pairSystem s, ProcessOp.schedule 0),
      (firstSystem s, .createProcess kernelName 0 true)], ∀ esp, q.2 = .schedule esp →
        NextInKernelDirectory q.1.kernel :=
    List.forall_mem_cons.mpr ⟨fun _ _ => hnext, by simp⟩
  exact ⟨s, _, hrun, hiff.mpr hguard _ List.mem_cons_self _ hschedule⟩

end KyroKernel
