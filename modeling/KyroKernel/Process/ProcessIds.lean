import KyroKernel.Foundations.Counter
import KyroKernel.Process.ProcessList

/-!
# Process identifiers

`create_process` takes the next value of a 32-bit counter as the pid. The counter has no guard, but
every new pid takes at least the 136 bytes of a process record from a heap of 5 MB that `kfree`
never gives back, so it does not wrap, however long the kernel runs.
-/

namespace KyroKernel

open Foundations

/-! ## Calls -/

/-- The paging functions. -/
inductive PagingCall where
  | pagingInit
  | createPageDirectory
  | switchPageDirectory (dir : Word)
  | mapPage (virtualAddr physicalAddr flags : Word)
  | unmapPage (virtualAddr : Word)
  | allocFrame (virtualAddr : Word) (isKernel isWritable : Bool)

/-- Carry out a paging call. -/
def PagingCall.exec (s : PagingState) : PagingCall → PagingState
  | .pagingInit => KyroKernel.pagingInit s
  | .createPageDirectory => (KyroKernel.createPageDirectory s).2
  | .switchPageDirectory dir => KyroKernel.switchPageDirectory s dir
  | .mapPage v p f => KyroKernel.mapPage s v p f
  | .unmapPage v => KyroKernel.unmapPage s v
  | .allocFrame v k w => KyroKernel.allocFrame s v k w

/-- The calls of a run from boot. -/
inductive KernelCall where
  | paging (call : PagingCall)
  | processInit
  | process (op : ProcessOp)

/-- One call, in any state. -/
inductive KernelCallStep : ProcessSystem → KernelCall → ProcessSystem → Prop where
  | paging {s : KernelState} {c d : List Word} {call : PagingCall} :
      KernelCallStep ⟨s, c, d⟩ (.paging call)
        ⟨{ s with toPagingState := call.exec s.toPagingState }, c, d⟩
  | processInit {s : KernelState} {c d : List Word} :
      KernelCallStep ⟨s, c, d⟩ .processInit
        ⟨processInit s, addCreated (createProcess s kernelName 0 true).1 c, d⟩
  | process {y y' : ProcessSystem} {op : ProcessOp} (hstep : ProcessStep y op y') :
      KernelCallStep y (.process op) y'

/-- The start of a run from boot: no process was created yet. -/
structure KernelCallBoot (y : ProcessSystem) : Prop where
  kernel : AtKernelBoot y.kernel
  created : y.created = []

/-! ## The heap -/

/-- `heap_current` moved up, and not past the end of the heap. -/
structure HeapUp (hc hc' : Word) : Prop where
  ge : hc.toNat ≤ hc'.toNat
  le : hc'.toNat ≤ 0x800000

theorem HeapUp.refl {hc : Word} (h : hc.toNat ≤ 0x800000) : HeapUp hc hc := ⟨Nat.le_refl _, h⟩

theorem HeapUp.trans {a b c : Word} (h : HeapUp a b) (h' : HeapUp b c) : HeapUp a c :=
  ⟨Nat.le_trans h.ge h'.ge, h'.le⟩

theorem HeapGrows.heapUp {s s' : PagingState} (h : HeapGrows s s') :
    HeapUp s.heapCurrent s'.heapCurrent :=
  ⟨h.ge, h.le⟩

theorem identityMap_heapUp {s : PagingState} (h : s.heapCurrent.toNat ≤ 0x800000) (n : Nat) :
    HeapUp s.heapCurrent (identityMap s n).heapCurrent := by
  induction n with
  | zero => exact .refl h
  | succ k ih => exact ih.trans (mapPage_heapGrows _ _ _ ih.le).heapUp

theorem pagingInitBitmap_heapUp {s : PagingState} (h : s.heapCurrent.toNat ≤ 0x800000) :
    HeapUp s.heapCurrent (pagingInitBitmap s).heapCurrent := by
  have hsize : RequestSize 512 512 := ⟨by decide, by decide, by decide⟩
  obtain ⟨hge, hle⟩ := kmalloc_grows hsize h
  unfold pagingInitBitmap
  simp only [bitmap_bytes]
  exact ⟨hge, hle⟩

theorem pagingInitKernelDirectory_heapUp {s : PagingState} (h : s.heapCurrent.toNat ≤ 0x800000) :
    HeapUp s.heapCurrent (pagingInitKernelDirectory s).heapCurrent := by
  obtain ⟨hge, hle⟩ := kmallocA_grows pageDirectory_size h
  unfold pagingInitKernelDirectory
  simp only
  exact ⟨hge, hle⟩

/-- `paging_init` with any number of rounds of its loop. -/
theorem pagingInit_heapUp {s : PagingState} (h : s.heapCurrent.toNat ≤ 0x800000) (n : Nat) :
    HeapUp s.heapCurrent
      (enablePaging (identityMap (pagingInitKernelDirectory (pagingInitBitmap s)) n)).heapCurrent := by
  have hbitmap := pagingInitBitmap_heapUp h
  have hdir := pagingInitKernelDirectory_heapUp hbitmap.le
  exact hbitmap.trans (hdir.trans (identityMap_heapUp hdir.le n))

theorem PagingCall.exec_heapUp {s : PagingState} (h : s.heapCurrent.toNat ≤ 0x800000)
    (call : PagingCall) : HeapUp s.heapCurrent (call.exec s).heapCurrent := by
  cases call with
  | pagingInit =>
    rw [exec, KyroKernel.pagingInit]
    exact pagingInit_heapUp h _
  | createPageDirectory =>
    rw [exec]
    exact (createPageDirectory_heapGrows h).heapUp
  | switchPageDirectory dir => exact .refl h
  | mapPage v p f =>
    rw [exec]
    exact (mapPage_heapGrows v p f h).heapUp
  | unmapPage v =>
    have hsame : (KyroKernel.unmapPage s v).heapCurrent = s.heapCurrent := by
      unfold KyroKernel.unmapPage
      simp only [apply_ite PagingState.heapCurrent]
      exact ite_self _
    rw [exec, hsame]
    exact .refl h
  | allocFrame v k w =>
    rw [exec]
    exact (allocFrame_heapGrows v k w h).heapUp

/-! ## What a call does to the pids -/

/-- A call that creates no process keeps the counter and all pids. -/
structure KeepsPids (s s' : KernelState) : Prop where
  heap : HeapUp s.heapCurrent s'.heapCurrent
  nextPid : s'.nextPid = s.nextPid
  pid : ∀ q, (s'.procs q).pid = (s.procs q).pid

/-- A call that creates the process `proc` gives it the next pid. -/
structure AddsPid (s s' : KernelState) (proc : Word) : Prop where
  fresh : proc = s.heapCurrent
  room : proc.toNat + 136 ≤ s'.heapCurrent.toNat
  heap_le : s'.heapCurrent.toNat ≤ 0x800000
  nextPid : s'.nextPid = s.nextPid + 1
  pid : (s'.procs proc).pid = s.nextPid
  others : ∀ q, q ≠ proc → (s'.procs q).pid = (s.procs q).pid

theorem KeepsPids.refl {s : KernelState} (h : s.heapCurrent.toNat ≤ 0x800000) : KeepsPids s s :=
  ⟨.refl h, rfl, fun _ => rfl⟩

theorem KeepsPids.trans {s s' s'' : KernelState} (h : KeepsPids s s') (h' : KeepsPids s' s'') :
    KeepsPids s s'' :=
  ⟨h.heap.trans h'.heap, h'.nextPid.trans h.nextPid, fun q => (h'.pid q).trans (h.pid q)⟩

theorem AddsPid.trans {s s' s'' : KernelState} {proc : Word} (h : AddsPid s s' proc)
    (h' : KeepsPids s' s'') : AddsPid s s'' proc :=
  ⟨h.fresh, Nat.le_trans h.room h'.heap.ge, h'.heap.le, h'.nextPid.trans h.nextPid,
    (h'.pid proc).trans h.pid, fun q hq => (h'.pid q).trans (h.others q hq)⟩

theorem paging_keepsPids {s : KernelState} (h : s.heapCurrent.toNat ≤ 0x800000)
    (call : PagingCall) : KeepsPids s { s with toPagingState := call.exec s.toPagingState } :=
  ⟨PagingCall.exec_heapUp h call, rfl, fun _ => rfl⟩

theorem keepsPids_modify {s : KernelState} (h : s.heapCurrent.toNat ≤ 0x800000) (proc : Word)
    {f : Process → Process} (hf : (f (s.procs proc)).pid = (s.procs proc).pid) :
    KeepsPids s (s.modify proc f) := by
  refine ⟨.refl h, rfl, fun q => ?_⟩
  by_cases hq : q = proc
  · rw [hq, modify_procs_self]
    exact hf
  · rw [modify_procs_of_ne hq]

theorem createProcess_addsPid {s : KernelState} (name : List Byte) (entryPoint : Word)
    (kernelMode : Bool) (hpos : s.heapCurrent ≠ 0) (h : s.heapCurrent.toNat ≤ 0x800000) :
    ((createProcess s name entryPoint kernelMode).1 = 0 ∧
      (createProcess s name entryPoint kernelMode).2 = s) ∨
    ((createProcess s name entryPoint kernelMode).1 ≠ 0 ∧
      AddsPid s (createProcess s name entryPoint kernelMode).2
        (createProcess s name entryPoint kernelMode).1) := by
  refine (createProcess_spec name entryPoint kernelMode hpos h).imp id fun ⟨hnew, _⟩ => ?_
  refine ⟨hnew.ne_zero, hnew.fresh, hnew.room, hnew.heap_le, ?_, ?_, fun q hq => ?_⟩
  · have hproc := hnew.ne_zero
    rw [createProcess_fst] at hproc
    rw [createProcess]
    generalize kmalloc s.heapCurrent sizeofProcess = r at hproc ⊢
    simp only [if_neg hproc]
  · have hproc := hnew.ne_zero
    rw [createProcess_fst] at hproc
    exact (createProcess_filled name entryPoint kernelMode hproc).pid
  · rw [hnew.others q hq]

theorem fork_addsPid {s : KernelState} (hpos : s.heapCurrent ≠ 0)
    (h : s.heapCurrent.toNat ≤ 0x800000) :
    (forkChild s = 0 ∧ (fork s).2 = s) ∨
      (forkChild s ≠ 0 ∧ AddsPid s (fork s).2 (forkChild s)) := by
  by_cases hcur : s.currentProcess = 0
  · unfold forkChild fork
    rw [if_pos hcur, if_pos hcur]
    exact .inl ⟨rfl, rfl⟩
  · have hspec := createProcess_addsPid (s.procs s.currentProcess).name 0 false hpos h
    obtain ⟨hchild, hfork⟩ := fork_eq hcur
    rw [hchild, hfork]
    generalize createProcess s (s.procs s.currentProcess).name 0 false = r at hspec ⊢
    rcases hspec with ⟨h0, hs⟩ | ⟨hne, hadds⟩
    · rw [if_pos h0]
      exact .inl ⟨h0, hs⟩
    · rw [if_neg hne]
      exact .inr ⟨hne, hadds.trans (keepsPids_modify hadds.heap_le _ rfl)⟩

/-- Without memory for the first process `process_init` writes a state through NULL. -/
theorem processInit_addsPid {s : KernelState} (hpos : s.heapCurrent ≠ 0)
    (h : s.heapCurrent.toNat ≤ 0x800000) :
    ((createProcess s kernelName 0 true).1 = 0 ∧ KeepsPids s (processInit s)) ∨
      ((createProcess s kernelName 0 true).1 ≠ 0 ∧
        AddsPid s (processInit s) (createProcess s kernelName 0 true).1) := by
  have hspec := createProcess_addsPid kernelName 0 true hpos h
  unfold processInit
  generalize createProcess s kernelName 0 true = r at hspec ⊢
  obtain ⟨proc, t⟩ := r
  simp only at hspec ⊢
  have hrest : t.heapCurrent.toNat ≤ 0x800000 → KeepsPids t
      { ({ t with currentProcess := proc } : KernelState).modify proc (·.setState .running) with
        processList := proc } := fun ht =>
    have hmodify := keepsPids_modify (s := { t with currentProcess := proc }) ht proc
      (f := (·.setState .running)) rfl
    ⟨hmodify.heap, hmodify.nextPid, hmodify.pid⟩
  rcases hspec with ⟨h0, rfl⟩ | ⟨hne, hadds⟩
  · exact .inl ⟨h0, hrest h⟩
  · exact .inr ⟨hne, hadds.trans (hrest hadds.heap_le)⟩

theorem schedule_keepsPids {s s' : KernelState} {esp : Word} {fuel : Nat}
    (h : s.heapCurrent.toNat ≤ 0x800000) (hret : schedule s esp fuel = some s') :
    KeepsPids s s' := by
  unfold schedule at hret
  by_cases hcur : s.currentProcess = 0
  · rw [if_pos hcur] at hret
    obtain rfl := Option.some.inj hret
    exact .refl h
  · rw [if_neg hcur] at hret
    obtain ⟨next, -, rfl⟩ := Option.map_eq_some_iff.mp hret
    by_cases hgo : next ≠ 0 ∧ next ≠ s.currentProcess ∧ (s.procs next).state = .ready
    · rw [if_pos hgo]
      have hcond : ¬ (next = 0 ∨ next =
          (s.modify s.currentProcess (·.setState .ready)).currentProcess) :=
        not_or.mpr ⟨hgo.1, hgo.2.1⟩
      refine ⟨?_, ?_, fun q => ?_⟩
      · rw [(switchTask_spec esp hgo.1 hgo.2.1 hgo.2.2).links.heapCurrent]
        exact .refl h
      · unfold switchTask
        rw [if_neg hcond]
        rfl
      · rw [switchTask_procs esp hgo.1 hgo.2.1]
        split_ifs with h1 h2
        · rw [h1]
          rfl
        · rw [h2]
          rfl
        · rfl
    · rw [if_neg hgo]
      exact .refl h

theorem exitCurrent_keepsPids {s : KernelState} (h : s.heapCurrent.toNat ≤ 0x800000) :
    KeepsPids s (exitCurrent s) := by
  have hmodify := keepsPids_modify h s.currentProcess (f := (·.setState .terminated)) rfl
  unfold exitCurrent
  simp only
  split_ifs with hparent
  · exact hmodify.trans (keepsPids_modify hmodify.heap.le _ rfl)
  · exact hmodify

theorem exit_keepsPids {s s' : KernelState} {esp : Word} {fuel : Nat}
    (h : s.heapCurrent.toNat ≤ 0x800000) (hret : exit s esp fuel = some s') :
    KeepsPids s s' := by
  unfold exit at hret
  split_ifs at hret with hcur
  · obtain rfl := Option.some.inj hret
    exact .refl h
  · have hexit := exitCurrent_keepsPids h
    exact hexit.trans (schedule_keepsPids hexit.heap.le hret)

theorem destroyProcess_keepsPids {s s' : KernelState} {proc : Word} {fuel : Nat}
    (h : s.heapCurrent.toNat ≤ 0x800000) (hret : destroyProcess s proc fuel = some s') :
    KeepsPids s s' := by
  have hu := destroyProcess_unlinked hret
  refine ⟨?_, ?_, fun q => by rw [hu.data q]⟩
  · rw [show s'.heapCurrent = s.heapCurrent from congrArg PagingState.heapCurrent hu.paging]
    exact .refl h
  · rw [destroyProcess_eq] at hret
    split_ifs at hret with h0 hhead
    · rw [Option.some.inj hret]
    · rw [← Option.some.inj hret]
    · obtain ⟨current, -, rfl⟩ := Option.map_eq_some_iff.mp hret
      split_ifs <;> rfl

/-! ## Runs -/

/-- The invariant: the pids of the processes created so far are the first ones of the counter, and
each process took at least a record from the heap. -/
structure PidInv (y : ProcessSystem) : Prop where
  heap_le : y.kernel.heapCurrent.toNat ≤ 0x800000
  used : 0x300000 + 136 * y.created.length ≤ y.kernel.heapCurrent.toNat
  below : ∀ p ∈ y.created, p.toNat + 136 ≤ y.kernel.heapCurrent.toNat
  nextPid : y.kernel.nextPid = issued 1 y.created.length
  pids : y.created.map (fun p => (y.kernel.procs p).pid) =
    (List.range y.created.length).reverse.map (issued 1)

theorem pidInv_of_boot {y : ProcessSystem} (h : KernelCallBoot y) : PidInv y := by
  obtain ⟨hk, hcreated⟩ := h
  have hheap : y.kernel.heapCurrent = heapStart := hk.paging.heapCurrent
  refine ⟨?_, ?_, ?_, ?_, ?_⟩
  · rw [hheap]
    decide
  · rw [hheap, hcreated]
    decide
  · simp [hcreated]
  · rw [hcreated, hk.nextPid]
    exact (issued_zero 1).symm
  · simp [hcreated]

/-- A call that creates no process. -/
theorem PidInv.of_keepsPids {y y' : ProcessSystem} (h : PidInv y)
    (hcreated : y'.created = y.created) (hk : KeepsPids y.kernel y'.kernel) : PidInv y' := by
  have hge := hk.heap.ge
  refine ⟨hk.heap.le, ?_, fun p hp => ?_, ?_, ?_⟩
  · rw [hcreated]
    exact Nat.le_trans h.used hge
  · rw [hcreated] at hp
    exact Nat.le_trans (h.below p hp) hge
  · rw [hk.nextPid, hcreated]
    exact h.nextPid
  · simp only [hk.pid, hcreated]
    exact h.pids

/-- A call that creates the process `proc`, which lies above all earlier ones. -/
theorem PidInv.of_addsPid {y y' : ProcessSystem} {proc : Word} (h : PidInv y)
    (hcreated : y'.created = proc :: y.created) (ha : AddsPid y.kernel y'.kernel proc) :
    PidInv y' := by
  have hroom := ha.room
  have hused := h.used
  have hfresh := ha.fresh
  -- Every record lies below the end of the heap, where the new one starts.
  have hold : ∀ p ∈ y.created, p ≠ proc := by
    rintro p hp rfl
    have := h.below p hp
    rw [hfresh] at this
    omega
  refine ⟨ha.heap_le, ?_, ?_, ?_, ?_⟩
  · rw [hcreated, List.length_cons]
    rw [hfresh] at hroom
    omega
  · rw [hcreated]
    refine List.forall_mem_cons.mpr ⟨hroom, fun p hp => ?_⟩
    have := h.below p hp
    rw [hfresh] at hroom
    omega
  · rw [ha.nextPid, h.nextPid, hcreated]
    exact (issued_succ 1 _).symm
  · rw [hcreated, List.map_cons, ha.pid, h.nextPid, List.length_cons, List.range_succ,
      List.reverse_append, List.reverse_singleton, List.singleton_append, List.map_cons, ← h.pids]
    exact congrArg _ (List.map_congr_left fun p hp => ha.others p (hold p hp))

/-- A call that may create a process and returns NULL when it does not. -/
theorem PidInv.of_addCreated {s s' : KernelState} {c d : List Word} {proc : Word}
    (h : PidInv ⟨s, c, d⟩) (hs : (proc = 0 ∧ KeepsPids s s') ∨ (proc ≠ 0 ∧ AddsPid s s' proc)) :
    PidInv ⟨s', addCreated proc c, d⟩ := by
  unfold addCreated
  rcases hs with ⟨h0, hkeeps⟩ | ⟨hne, hadds⟩
  · rw [if_pos h0]
    exact h.of_keepsPids rfl hkeeps
  · rw [if_neg hne]
    exact h.of_addsPid rfl hadds

theorem PidInv.step {y y' : ProcessSystem} {call : KernelCall} (h : PidInv y)
    (hstep : KernelCallStep y call y') : PidInv y' := by
  have hpos : y.kernel.heapCurrent ≠ 0 := by
    intro h0
    have hused := h.used
    rw [h0] at hused
    exact absurd hused (by simp)
  cases hstep with
  | paging => exact h.of_keepsPids rfl (paging_keepsPids h.heap_le _)
  | processInit => exact h.of_addCreated (processInit_addsPid hpos h.heap_le)
  | process hstep =>
    cases hstep with
    | createProcess =>
      refine h.of_addCreated ((createProcess_addsPid _ _ _ hpos h.heap_le).imp ?_ id)
      rintro ⟨h0, hs⟩
      rw [hs]
      exact ⟨h0, .refl h.heap_le⟩
    | fork =>
      refine h.of_addCreated ((fork_addsPid hpos h.heap_le).imp ?_ id)
      rintro ⟨h0, hs⟩
      rw [hs]
      exact ⟨h0, .refl h.heap_le⟩
    | schedule hret => exact h.of_keepsPids rfl (schedule_keepsPids h.heap_le hret)
    | exit hret => exact h.of_keepsPids rfl (exit_keepsPids h.heap_le hret)
    | destroyProcess _ hret => exact h.of_keepsPids rfl (destroyProcess_keepsPids h.heap_le hret)

theorem pidInv_run {tr : List (ProcessSystem × KernelCall)} {y : ProcessSystem}
    (hrun : Run KernelCallBoot KernelCallStep tr y) : PidInv y :=
  hrun.inv PidInv (fun _ => pidInv_of_boot) fun _ _ _ h hstep => h.step hstep

/-- The heap bounds the number of processes ever created. -/
theorem PidInv.length_le {y : ProcessSystem} (h : PidInv y) : y.created.length ≤ 38550 := by
  have hused := h.used
  have hle := h.heap_le
  omega

/-- No two processes ever created share a pid, no pid is 0, and the counter has not wrapped. -/
theorem pids_unique {tr : List (ProcessSystem × KernelCall)} {y : ProcessSystem}
    (hrun : Run KernelCallBoot KernelCallStep tr y) :
    (y.created.map fun p => (y.kernel.procs p).pid).Nodup ∧
      (∀ p ∈ y.created, (y.kernel.procs p).pid ≠ 0) ∧
      y.kernel.nextPid.toNat = 1 + y.created.length := by
  have h := pidInv_run hrun
  have hlen := h.length_le
  have hcount : ∀ n ≤ y.created.length, (issued (1 : Word) n).toNat = 1 + n := fun n hn =>
    toNat_issued (by simp; omega)
  refine ⟨?_, ?_, ?_⟩
  · rw [h.pids]
    apply nodup_issued_of_lt (List.nodup_reverse.mpr List.nodup_range)
    intro n hn
    have hlt : n < y.created.length := by simpa using hn
    omega
  · intro p hp h0
    have hmem := List.mem_map_of_mem (f := fun p => (y.kernel.procs p).pid) hp
    rw [h.pids, List.mem_map] at hmem
    obtain ⟨n, hn, heq⟩ := hmem
    have hlt : n < y.created.length := by simpa using hn
    have hpos := hcount n (Nat.le_of_lt hlt)
    rw [heq, h0] at hpos
    have : (0 : Word).toNat = 0 := rfl
    omega
  · rw [h.nextPid]
    exact hcount _ (Nat.le_refl _)

/-- `paging_init` and `process_init` after boot. -/
theorem exists_run_startedSystem :
    ∃ tr, Run KernelCallBoot KernelCallStep tr (startedSystem bootKernel) := by
  have hb := beforeProcessInit_bootKernel
  have hboot : KernelCallBoot ⟨{ bootKernel with toPagingState := bootState }, [], []⟩ :=
    ⟨⟨atBoot_bootState, rfl, rfl, rfl, rfl⟩, rfl⟩
  have hpaging : KernelCallStep ⟨{ bootKernel with toPagingState := bootState }, [], []⟩
      (.paging .pagingInit) ⟨bootKernel, [], []⟩ := by
    have hstep := @KernelCallStep.paging { bootKernel with toPagingState := bootState } [] []
      .pagingInit
    rw [PagingCall.exec] at hstep
    exact hstep
  have hprocess : KernelCallStep ⟨bootKernel, [], []⟩ .processInit (startedSystem bootKernel) := by
    have hstep := @KernelCallStep.processInit bootKernel [] []
    rw [createProcess_first hb] at hstep
    rw [startedSystem_eq hb]
    exact hstep
  exact ⟨_, ((Run.start hboot).snoc hpaging).snoc hprocess⟩

/-- After boot three processes are created, the second one is destroyed, and another one is
created, which does not get its pid. -/
theorem pids_unique_destroyed : ∃ tr y, Run KernelCallBoot KernelCallStep tr y ∧
    (y.created = [0x30C198, 0x30A110, 0x308088, 0x306000] ∧ y.destroyed = [0x308088]) ∧
    (y.created.map fun p => (y.kernel.procs p).pid).Nodup ∧
      (∀ p ∈ y.created, (y.kernel.procs p).pid ≠ 0) ∧
      y.kernel.nextPid.toNat = 1 + y.created.length := by
  obtain ⟨_, y, hfollowed, hlists⟩ := exists_processRun (· = startedSystem bootKernel) rfl
    [.createProcess kernelName 0 true, .createProcess kernelName 0 true, .destroyProcess 0x308088,
      .createProcess kernelName 0 true]
    (fun _ y => y.created = [0x30C198, 0x30A110, 0x308088, 0x306000] ∧ y.destroyed = [0x308088])
    (by decide +kernel)
  -- The calls after `process_init` are calls of a run that begins at boot.
  obtain ⟨tr, hrun⟩ : ∃ tr, Run KernelCallBoot KernelCallStep tr y := by
    refine hfollowed.inv (fun y => ∃ tr, Run KernelCallBoot KernelCallStep tr y) ?_ ?_
    · rintro _ rfl
      exact exists_run_startedSystem
    · exact fun _ _ _ ⟨_, hrun⟩ hstep => ⟨_, hrun.snoc (.process hstep)⟩
  exact ⟨tr, y, hrun, hlists, pids_unique hrun⟩

end KyroKernel
