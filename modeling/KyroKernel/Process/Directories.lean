import KyroKernel.Process.UserStack

/-!
# Which directory a process gets

What a call of the process functions does to the page directories and to the two fields of the
process records that lead to one, `page_directory` and `cpu_state.cr3`. A kernel process shares
the kernel directory. A user process gets a new one: its address is in `physical_addr`, and it maps
nothing but, at most, the stack page. When the heap has no room for it the new directory is NULL,
and the zeroed start of memory takes its place.
-/

namespace KyroKernel

open Foundations

variable {lo : Nat} {D : List Word}

/-! ## NULL as a directory -/

/-- What the start of memory holds after it was cleared in place of a directory: no first table,
and NULL as its address. -/
structure NullDirectory (m : Mem) : Prop where
  table : tables m 0 0 = 0
  physicalAddr : physicalAddr m 0 = 0

theorem NullDirectory.congr {m m' : Mem} (h : NullDirectory m)
    (htable : m.read32 0 = 0 → m'.read32 0 = 0) (hphys : m'.read32 0x2000 = m.read32 0x2000) :
    NullDirectory m' :=
  ⟨htable h.table, hphys.trans h.physicalAddr⟩

/-- Making a directory keeps a cleared start of memory; with no room it clears it. -/
theorem nullDirectory_createPageDirectory {s : PagingState} (h : Layout lo s.mem s.heapCurrent D) :
    (NullDirectory s.mem → NullDirectory (createPageDirectory s).2.mem) ∧
      ((createPageDirectory s).1 = 0 → NullDirectory (createPageDirectory s).2.mem) := by
  obtain ⟨a, ha, hk⟩ := kmallocA_cases pageDirectory_size h.heap_le
  have hlow := h.low
  have hlo := h.lo_le
  have hle := h.heap_le
  have hnull : (0 : Word).toNat = 0 := rfl
  have hphys : (0x2000 : Word).toNat = 8192 := rfl
  rw [createPageDirectory_fst]
  rcases hk with ⟨hk, hadd, hlt⟩ | ⟨hk, hge⟩
  · -- The block lies above.
    obtain ⟨hread, -, -⟩ := createPageDirectory_read32 hk (by omega)
    refine ⟨fun hn => hn.congr (fun h0 => ?_) ?_, fun h0 => ?_⟩
    · rw [hread 0 (by omega) (.inl (by omega)), h0]
    · rw [hread 0x2000 (by omega) (.inl (by omega))]
    · rw [hk] at h0
      rw [show a = 0 from h0] at ha
      omega
  · obtain ⟨-, hzero, hself⟩ := createPageDirectory_read32 hk (by decide)
    have hn : NullDirectory (createPageDirectory s).2.mem := ⟨hzero 0 (by decide), hself⟩
    exact ⟨fun _ => hn, fun _ => hn⟩

/-! ## A user process is created -/

/-- What the creation of a user process does to the directories `D`, from `m` to `m'`: old
directories keep their `physical_addr` and all entries but those of the stack page, and the new
one is `dir`. -/
structure UserDirectories (D : List Word) (m : Mem) (dir : Word) (m' : Mem) : Prop where
  entries : ∀ d ∈ D, ∀ a : Word, a >>> 12 ≠ stackPage >>> 12 → pte m' d a = pte m d a
  physicalAddr : ∀ d ∈ D, physicalAddr m' d = physicalAddr m d
  null : NullDirectory m → NullDirectory m'
  new : (dir ≠ 0 ∧ dir ∉ D ∧ (∀ a : Word, a >>> 12 ≠ stackPage >>> 12 → pte m' dir a = 0) ∧
    KyroKernel.physicalAddr m' dir = dir) ∨ (dir = 0 ∧ NullDirectory m')

/-- The directory that `create_process` makes, before the stack page is mapped. -/
theorem stackRequest_directories {s : KernelState} (h : Layout lo s.mem s.heapCurrent D)
    (hproc : (kmalloc s.heapCurrent sizeofProcess).1 ≠ 0) :
    UserDirectories D s.mem (userDirectory s) (stackRequest s).mem := by
  obtain ⟨-, hk, hpte⟩ := h.stackRequest hproc
  obtain ⟨-, -, hout⟩ := createPageDirectory_spec h.afterStack
  obtain ⟨hkeep, hnull⟩ := nullDirectory_createPageDirectory h.afterStack
  have hcases := userDirectory_cases h hproc
  have hreq : (createPageDirectory (afterStack s)).2 = stackRequest s := by
    rw [stackRequest]
  have hdir : (createPageDirectory (afterStack s)).1 = userDirectory s := by
    rw [userDirectory, if_neg hproc]
  rw [afterStack_mem] at hkeep
  rw [hreq] at hkeep hnull hout
  rw [hdir] at hnull hout
  refine ⟨fun d hd a _ => hpte d hd a, hk.physicalAddr, hkeep, ?_⟩
  rcases hcases with ⟨hne, hfresh, -, hempty⟩ | ⟨h0, -⟩
  · rcases hout with ⟨-, -, -, hself, -⟩ | ⟨h0, -⟩
    · exact .inl ⟨hne, hfresh, fun a _ => hempty a, hself⟩
    · exact absurd h0 hne
  · exact .inr ⟨h0, hnull h0⟩

/-- Mapping the stack page in the directory of the caller changes neither the old directories nor
the new one elsewhere. -/
theorem userDirectories_allocFrame {s : KernelState} (hb : FrameBitmap s.toPagingState)
    (hl : Layout 0x300200 s.mem s.heapCurrent D)
    (hcur : DirOrNull D s.heapCurrent s.currentDirectory)
    (hproc : (kmalloc s.heapCurrent sizeofProcess).1 ≠ 0) :
    UserDirectories D s.mem (userDirectory s)
      (allocFrame (stackRequest s) stackPage false true).mem := by
  obtain ⟨hl', hk, -⟩ := hl.stackRequest hproc
  have hb' := hk.frameBitmap hb
  obtain ⟨hentries, hphys, hnull, hnew⟩ := stackRequest_directories hl hproc
  obtain ⟨hi, hj⟩ := toNat_stackPage
  have h0 : (0 : Word).toNat = 0 := rfl
  have h8192 : (0x2000 : Word).toNat = 8192 := rfl
  -- What mapping the page leaves alone, under a real directory and under NULL.
  obtain ⟨hpte, hpa, hlow, hhigh⟩ :
      (∀ d ∈ addDirectory (userDirectory s) D, ∀ a : Word, a >>> 12 ≠ stackPage >>> 12 →
        pte (allocFrame (stackRequest s) stackPage false true).mem d a =
          pte (stackRequest s).mem d a) ∧
      (∀ d ∈ addDirectory (userDirectory s) D,
        physicalAddr (allocFrame (stackRequest s) stackPage false true).mem d =
          physicalAddr (stackRequest s).mem d) ∧
      ((stackRequest s).mem.read32 0 = 0 →
        (allocFrame (stackRequest s) stackPage false true).mem.read32 0 = 0) ∧
      (allocFrame (stackRequest s) stackPage false true).mem.read32 0x2000 =
        (stackRequest s).mem.read32 0x2000 := by
    rcases hcur with hmem | ⟨hcur0, hfull⟩
    · obtain ⟨hpte, hpa, hbetween, hlow⟩ := allocFrame_mem stackPage false true hb' hl'
        (by rw [hk.currentDirectory]; exact mem_addDirectory hmem)
      exact ⟨hpte, hpa, hlow 0 (by omega), hbetween _ (by omega) (by omega)⟩
    · obtain ⟨-, ⟨hc', hka⟩, hzero⟩ := stackRequest_null hl hfull hproc
      obtain ⟨hlow, hhigh⟩ := allocFrame_null stackPage false true hb'
        (hk.currentDirectory.trans hcur0) (hzero _ (by omega)) hka
      have hend := hl'.heap_le
      have hread : ∀ x : Word, 0x300200 ≤ x.toNat →
          x.toNat + 4 ≤ (stackRequest s).heapCurrent.toNat →
          (allocFrame (stackRequest s) stackPage false true).mem.read32 x =
            (stackRequest s).mem.read32 x := fun x hx hx' =>
        hhigh x (by omega) (by omega) (.inr hx)
      exact ⟨fun d hd a _ => (hl'.sameEntries hread).pte hd a, hl'.physicalAddr_eq hread,
        fun _ => hlow 0 (by omega), hhigh _ (by omega) (by omega) (.inl (by omega))⟩
  refine ⟨fun d hd a ha => ?_, fun d hd => ?_, fun hn => (hnull hn).congr hlow hhigh, ?_⟩
  · rw [hpte d (mem_addDirectory hd) a ha, hentries d hd a ha]
  · rw [hpa d (mem_addDirectory hd), hphys d hd]
  · rcases hnew with ⟨hne, hfresh, hempty, hself⟩ | ⟨hdir, hn⟩
    · have hmem : userDirectory s ∈ addDirectory (userDirectory s) D := by
        rw [addDirectory, if_neg hne]
        exact List.mem_cons_self
      refine .inl ⟨hne, hfresh, fun a ha => ?_, ?_⟩
      · rw [hpte _ hmem a ha, hempty a ha]
      · rw [hpa _ hmem, hself]
    · exact .inr ⟨hdir, hn.congr hlow hhigh⟩

/-! ## The records -/

/-- What `process_init` leaves: memory as it was, and a first process with the kernel
directory. -/
theorem processInit_directory {s : KernelState} (hb : BeforeProcessInit s) :
    let s' := processInit s
    s'.mem = s.mem ∧ s'.kernelDirectory = 0x301000 ∧
      (s'.procs s'.currentProcess).pageDirectory = 0x301000 ∧
      (s'.procs s'.currentProcess).cpuState.cr3 = physicalAddr s.mem 0x301000 := by
  have hheap : s.heapCurrent = 0x306000 := hb.paging.heapCurrent
  have hkd : s.kernelDirectory = 0x301000 := hb.paging.kernelDirectory
  have hproc : (kmalloc s.heapCurrent sizeofProcess).1 ≠ 0 := by
    rw [hheap]
    decide
  have hpaging := createProcess_paging kernelName 0 true hproc
  have hdir := (createProcess_pageDirectory kernelName 0 true hproc).1
  have hcr3 := (createProcess_filled kernelName 0 true hproc).cr3
  rw [if_pos rfl] at hpaging hdir
  have hmem := congrArg PagingState.mem hpaging
  have hkd' := congrArg PagingState.kernelDirectory hpaging
  rw [afterStack_mem] at hmem
  rw [hdir, hkd, hmem] at hcr3
  have hkeeps := (afterStack_keeps (s := s) 0x300200 []
    (by rw [hheap]; decide)).kernelDirectory
  unfold processInit
  generalize createProcess s kernelName 0 true = r at hmem hkd' hdir hcr3 ⊢
  obtain ⟨proc, t⟩ := r
  simp only at hmem hkd' hdir hcr3 ⊢
  refine ⟨hmem, hkd'.trans (hkeeps.trans hkd), ?_, ?_⟩
  · simp only [KernelState.modify, Function.update_self]
    exact hdir.trans hkd
  · simp only [KernelState.modify, Function.update_self]
    exact hcr3

/-- Two processes agree on the fields that lead to a directory. -/
def SameSpace (p q : Process) : Prop :=
  p.pageDirectory = q.pageDirectory ∧ p.cpuState.cr3 = q.cpuState.cr3

/-- `schedule` changes neither memory nor the fields of a process that lead to a directory. -/
theorem schedule_sameSpace {s s' : KernelState} {esp : Word} {fuel : Nat}
    (h : schedule s esp fuel = some s') :
    s'.mem = s.mem ∧ s'.kernelDirectory = s.kernelDirectory ∧
      ∀ q, SameSpace (s'.procs q) (s.procs q) := by
  unfold schedule at h
  by_cases hcur : s.currentProcess = 0
  · rw [if_pos hcur] at h
    obtain rfl := Option.some.inj h
    exact ⟨rfl, rfl, fun _ => ⟨rfl, rfl⟩⟩
  · rw [if_neg hcur] at h
    obtain ⟨next, -, rfl⟩ := Option.map_eq_some_iff.mp h
    by_cases hgo : next ≠ 0 ∧ next ≠ s.currentProcess ∧ (s.procs next).state = .ready
    · rw [if_pos hgo]
      have hlinks := (switchTask_spec esp hgo.1 hgo.2.1 hgo.2.2).links
      refine ⟨hlinks.mem, hlinks.kernelDirectory, fun q => ⟨hlinks.pageDirectory q, ?_⟩⟩
      -- A switch saves ESP, in another field of the CPU state.
      rw [switchTask_procs esp hgo.1 hgo.2.1]
      split_ifs with h1 h2
      · rw [h1]
        rfl
      · rw [h2]
        rfl
      · rfl
    · rw [if_neg hgo]
      exact ⟨rfl, rfl, fun _ => ⟨rfl, rfl⟩⟩

/-! ## One step -/

/-- The process `proc` that a call added, and the directory it got. -/
structure AddedProcess (D : List Word) (y y' : ProcessSystem) (op : ProcessOp) (proc : Word) :
    Prop where
  created : y'.created = proc :: y.created
  destroyed : y'.destroyed = y.destroyed
  new : NewProcess y.kernel y'.kernel proc
  directory : (op ≠ .fork ∧ (y'.kernel.procs proc).pageDirectory = y.kernel.kernelDirectory ∧
      y'.kernel.mem = y.kernel.mem) ∨
    ((y'.kernel.procs proc).pageDirectory = newDirectory y.kernel op ∧
      UserDirectories D y.kernel.mem (newDirectory y.kernel op) y'.kernel.mem)
  cr3 : (op ≠ .fork ∧ (y'.kernel.procs proc).cpuState.cr3 =
      physicalAddr y'.kernel.mem (y'.kernel.procs proc).pageDirectory) ∨
    (op = .fork ∧ (y'.kernel.procs proc).cpuState.cr3 =
      (y.kernel.procs y.kernel.currentProcess).cpuState.cr3)

/-- What a call does to the directories `D` and to the fields of the processes that lead to
one. -/
structure StepDirectories (D : List Word) (y y' : ProcessSystem) (op : ProcessOp) : Prop where
  kernelDirectory : y'.kernel.kernelDirectory = y.kernel.kernelDirectory
  records : ∀ p ∈ y.created, SameSpace (y'.kernel.procs p) (y.kernel.procs p)
  effect : (y'.created = y.created ∧ y'.kernel.mem = y.kernel.mem) ∨
    ∃ proc, AddedProcess D y y' op proc

namespace StepDirectories

variable {y y' : ProcessSystem} {op : ProcessOp}

theorem entries (h : StepDirectories D y y' op) {d : Word} (hd : d ∈ D) {a : Word}
    (ha : a >>> 12 ≠ stackPage >>> 12) : pte y'.kernel.mem d a = pte y.kernel.mem d a := by
  rcases h.effect with ⟨-, hmem⟩ | ⟨proc, hadd⟩
  · rw [hmem]
  · rcases hadd.directory with ⟨-, -, hmem⟩ | ⟨-, huser⟩
    · rw [hmem]
    · exact huser.entries d hd a ha

theorem physicalAddr (h : StepDirectories D y y' op) {d : Word} (hd : d ∈ D) :
    KyroKernel.physicalAddr y'.kernel.mem d = KyroKernel.physicalAddr y.kernel.mem d := by
  rcases h.effect with ⟨-, hmem⟩ | ⟨proc, hadd⟩
  · rw [hmem]
  · rcases hadd.directory with ⟨-, -, hmem⟩ | ⟨-, huser⟩
    · rw [hmem]
    · exact huser.physicalAddr d hd

theorem null (h : StepDirectories D y y' op) (hn : NullDirectory y.kernel.mem) :
    NullDirectory y'.kernel.mem := by
  rcases h.effect with ⟨-, hmem⟩ | ⟨proc, hadd⟩
  · rw [hmem]
    exact hn
  · rcases hadd.directory with ⟨-, -, hmem⟩ | ⟨-, huser⟩
    · rw [hmem]
      exact hn
    · exact huser.null hn

end StepDirectories

/-- A call that creates no process. -/
theorem stepDirectories_same {y y' : ProcessSystem} {op : ProcessOp}
    (hcreated : y'.created = y.created) (hmem : y'.kernel.mem = y.kernel.mem)
    (hkd : y'.kernel.kernelDirectory = y.kernel.kernelDirectory)
    (hsame : ∀ q, SameSpace (y'.kernel.procs q) (y.kernel.procs q)) :
    StepDirectories D y y' op :=
  ⟨hkd, fun p _ => hsame p, .inl ⟨hcreated, hmem⟩⟩

/-- A call that created a process changes the fields of no other one. -/
theorem AddedProcess.step {y y' : ProcessSystem} {op : ProcessOp} {proc : Word}
    (h : AddedProcess D y y' op proc) (hinv : ProcessInv y)
    (hkd : y'.kernel.kernelDirectory = y.kernel.kernelDirectory) :
    StepDirectories D y y' op := by
  refine ⟨hkd, fun p hp => ?_, .inr ⟨proc, h⟩⟩
  rw [h.new.others p (hinv.ne_newProcess h.new p hp)]
  exact ⟨rfl, rfl⟩

theorem stepDirectories_createProcess {s : KernelState} {c d : List Word} (h : MemoryInv s c D)
    (hinv : ProcessInv ⟨s, c, d⟩) (name : List Byte) (entryPoint : Word) (kernelMode : Bool) :
    StepDirectories D ⟨s, c, d⟩
      ⟨(createProcess s name entryPoint kernelMode).2,
        addCreated (createProcess s name entryPoint kernelMode).1 c, d⟩
      (.createProcess name entryPoint kernelMode) := by
  have hfst := createProcess_fst s name entryPoint kernelMode
  have hspec := createProcess_spec name entryPoint kernelMode hinv.heap_ne_zero hinv.heap_le
  by_cases hproc : (kmalloc s.heapCurrent sizeofProcess).1 = 0
  · rw [hproc] at hfst
    rw [(hspec.resolve_right fun hnew => hnew.1.ne_zero hfst).2, hfst]
    exact stepDirectories_same rfl rfl rfl fun _ => ⟨rfl, rfl⟩
  · have hnew := (hspec.resolve_left fun hnull => hproc (hfst ▸ hnull.1)).1
    have hpaging := createProcess_paging name entryPoint kernelMode hproc
    have hdir := (createProcess_pageDirectory name entryPoint kernelMode hproc).1
    have hcr3 := (createProcess_filled name entryPoint kernelMode hproc).cr3
    have hcreated : addCreated (createProcess s name entryPoint kernelMode).1 c =
        (createProcess s name entryPoint kernelMode).1 :: c := if_neg hnew.ne_zero
    rw [hcreated]
    generalize createProcess s name entryPoint kernelMode = r at hnew hpaging hdir hcr3 ⊢
    have hmem := congrArg PagingState.mem hpaging
    have hkd := congrArg PagingState.kernelDirectory hpaging
    refine AddedProcess.step ⟨rfl, rfl, hnew, ?_, .inl ⟨nofun, hcr3⟩⟩ hinv ?_
    · cases kernelMode with
      | true =>
        rw [if_pos rfl] at hdir hmem
        rw [afterStack_mem] at hmem
        exact .inl ⟨nofun, hdir, hmem⟩
      | false =>
        rw [if_neg Bool.false_ne_true] at hdir hmem
        refine .inr ⟨hdir, ?_⟩
        dsimp only
        rw [hmem]
        exact userDirectories_allocFrame h.bitmap h.layout h.current hproc
    · cases kernelMode with
      | true =>
        rw [if_pos rfl] at hkd
        exact hkd.trans (afterStack_keeps 0x300200 D hinv.heap_le).kernelDirectory
      | false =>
        rw [if_neg Bool.false_ne_true] at hkd
        obtain ⟨hl, hk, -⟩ := h.layout.stackRequest hproc
        have hgrow := allocFrame_heapGrows stackPage false true hl.heap_le
        exact hkd.trans (hgrow.kernelDirectory.trans hk.kernelDirectory)

/-- What `fork` adds to the user process that it creates: the CPU state of the parent. -/
theorem fork_record {s : KernelState} (hcur : s.currentProcess ≠ 0)
    (hproc : (kmalloc s.heapCurrent sizeofProcess).1 ≠ 0) :
    (fork s).2.toPagingState =
        (createProcess s (s.procs s.currentProcess).name 0 false).2.toPagingState ∧
      ((fork s).2.procs (forkChild s)).pageDirectory =
        ((createProcess s (s.procs s.currentProcess).name 0 false).2.procs
          (createProcess s (s.procs s.currentProcess).name 0 false).1).pageDirectory ∧
      ((fork s).2.procs (forkChild s)).cpuState =
        ((createProcess s (s.procs s.currentProcess).name 0 false).2.procs
          s.currentProcess).cpuState := by
  have hfst := createProcess_fst s (s.procs s.currentProcess).name 0 false
  obtain ⟨hchild, hfork⟩ := fork_eq hcur
  rw [hchild, hfork]
  generalize createProcess s (s.procs s.currentProcess).name 0 false = r at hfst ⊢
  rw [hfst, if_neg hproc, modify_procs_self]
  exact ⟨rfl, rfl, rfl⟩

theorem stepDirectories_fork {s : KernelState} {c d : List Word} (h : MemoryInv s c D)
    (hinv : ProcessInv ⟨s, c, d⟩) :
    StepDirectories D ⟨s, c, d⟩ ⟨(fork s).2, addCreated (forkChild s) c, d⟩ .fork := by
  have hcur : s.currentProcess ≠ 0 := hinv.ne_zero _ hinv.current
  have hchild : forkChild s = (kmalloc s.heapCurrent sizeofProcess).1 := by
    unfold forkChild
    rw [if_neg hcur, createProcess_fst]
  have hspec := fork_spec hinv.heap_ne_zero hinv.heap_le
  by_cases hproc : (kmalloc s.heapCurrent sizeofProcess).1 = 0
  · rw [hproc] at hchild
    rw [(hspec.resolve_right fun hnew => hnew.ne_zero hchild).2, hchild]
    exact stepDirectories_same rfl rfl rfl fun _ => ⟨rfl, rfl⟩
  · have hnew := hspec.resolve_left fun hnull => hproc (hchild ▸ hnull.1)
    have hspec' := createProcess_spec (s.procs s.currentProcess).name 0 false hinv.heap_ne_zero
      hinv.heap_le
    have hfst := createProcess_fst s (s.procs s.currentProcess).name 0 false
    have hnew' := (hspec'.resolve_left fun hnull => hproc (hfst ▸ hnull.1)).1
    have hpaging := createProcess_paging (s.procs s.currentProcess).name 0 false hproc
    have hdir := (createProcess_pageDirectory (s.procs s.currentProcess).name 0 false hproc).1
    obtain ⟨hforkPaging, hforkDir, hforkCpu⟩ := fork_record hcur hproc
    rw [hdir, if_neg Bool.false_ne_true] at hforkDir
    rw [hpaging, if_neg Bool.false_ne_true] at hforkPaging
    -- The parent is not the child, so its CPU state is the one before the call.
    rw [hnew'.others _ (hinv.ne_newProcess hnew' _ hinv.current)] at hforkCpu
    have hmem := congrArg PagingState.mem hforkPaging
    have hkd := congrArg PagingState.kernelDirectory hforkPaging
    have hcreated : addCreated (forkChild s) c = forkChild s :: c := if_neg hnew.ne_zero
    have huser : newDirectory s .fork = userDirectory s := if_neg hcur
    rw [hcreated]
    refine AddedProcess.step ⟨rfl, rfl, hnew, .inr ⟨?_, ?_⟩, .inr ⟨rfl, ?_⟩⟩ hinv ?_
    · rw [huser]
      exact hforkDir
    · dsimp only
      rw [huser, hmem]
      exact userDirectories_allocFrame h.bitmap h.layout h.current hproc
    · exact congrArg CpuState.cr3 hforkCpu
    · obtain ⟨hl, hk, -⟩ := h.layout.stackRequest hproc
      have hgrow := allocFrame_heapGrows stackPage false true hl.heap_le
      exact hkd.trans (hgrow.kernelDirectory.trans hk.kernelDirectory)

/-- `fork` adds a process when the heap has room for its record. -/
theorem exists_addedProcess_fork {y y' : ProcessSystem} (h : MemoryInv y.kernel y.created D)
    (hinv : ProcessInv y) (hstep : ProcessStep y .fork y')
    (hproc : (kmalloc y.kernel.heapCurrent sizeofProcess).1 ≠ 0) :
    ∃ proc, AddedProcess D y y' .fork proc := by
  cases hstep with
  | @fork s c d =>
    refine (stepDirectories_fork h hinv).effect.resolve_left fun hsame => ?_
    have hchild : forkChild s ≠ 0 := by
      unfold forkChild
      rwa [if_neg (hinv.ne_zero _ hinv.current), createProcess_fst]
    have hcons : addCreated (forkChild s) c = c := hsame.1
    rw [addCreated, if_neg hchild] at hcons
    exact List.cons_ne_self _ c hcons

/-- One call of a process function, in a state that meets the invariants. -/
theorem stepDirectories_step {y y' : ProcessSystem} {op : ProcessOp}
    (h : MemoryInv y.kernel y.created D) (hinv : ProcessInv y) (hstep : ProcessStep y op y') :
    StepDirectories D y y' op := by
  cases hstep with
  | createProcess => exact stepDirectories_createProcess h hinv _ _ _
  | fork => exact stepDirectories_fork h hinv
  | schedule hret =>
    obtain ⟨hmem, hkd, hsame⟩ := schedule_sameSpace hret
    exact stepDirectories_same rfl hmem hkd hsame
  | @exit s s' c d esp fuel hret =>
    rw [hinv.exit_eq, hinv.exitCurrent_eq] at hret
    obtain ⟨hmem, hkd, hsame⟩ := schedule_sameSpace hret
    refine stepDirectories_same rfl hmem hkd fun q => ?_
    -- Only the state of the current process changed before.
    have hcpu : SameSpace ((s.modify s.currentProcess (·.setState .terminated)).procs q)
        (s.procs q) := by
      by_cases hq : q = s.currentProcess
      · rw [hq, modify_procs_self]
        exact ⟨rfl, rfl⟩
      · rw [modify_procs_of_ne hq]
        exact ⟨rfl, rfl⟩
    exact ⟨(hsame q).1.trans hcpu.1, (hsame q).2.trans hcpu.2⟩
  | destroyProcess _ hret =>
    have hu := destroyProcess_unlinked hret
    refine stepDirectories_same rfl (congrArg PagingState.mem hu.paging)
      (congrArg PagingState.kernelDirectory hu.paging) fun q => ?_
    simp only [hu.data q]
    exact ⟨rfl, rfl⟩

end KyroKernel
