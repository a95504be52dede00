import KyroKernel.Foundations.Run
import KyroKernel.Paging.Init
import KyroKernel.Process.Operations

/-!
# Runs of the process functions

A run starts after `paging_init` and `process_init` and calls `create_process`, `fork`,
`schedule`, `exit` and `destroy_process` in any order, with the heap exhausted or not. The
system state carries which processes were created and destroyed so far, which the C code
does not keep. The list that `process_list` heads is exactly the created processes that
were not destroyed.
-/

namespace KyroKernel

open Foundations

/-- The kernel state with the processes created and destroyed so far, latest first. -/
structure ProcessSystem where
  kernel : KernelState
  created : List Word
  destroyed : List Word

/-- The processes created and not yet destroyed, latest first. -/
def ProcessSystem.live (y : ProcessSystem) : List Word :=
  y.created.filter (· ∉ y.destroyed)

/-- The calls a process run is made of; `esp` is the value of ESP that a switch of the call
saves. -/
inductive ProcessOp where
  | createProcess (name : List Byte) (entryPoint : Word) (kernelMode : Bool)
  | fork
  | schedule (esp : Word)
  | exit (esp : Word)
  | destroyProcess (proc : Word)

/-- A creation that returned NULL created nothing. -/
def addCreated (proc : Word) (created : List Word) : List Word :=
  if proc = 0 then created else proc :: created

/-- One call. The calls with a loop are steps when the loop ends. `destroy_process` gets
NULL or any process created so far. -/
inductive ProcessStep : ProcessSystem → ProcessOp → ProcessSystem → Prop where
  | createProcess {s : KernelState} {c d : List Word} {name : List Byte} {entryPoint : Word}
      {kernelMode : Bool} :
      ProcessStep ⟨s, c, d⟩ (.createProcess name entryPoint kernelMode)
        ⟨(createProcess s name entryPoint kernelMode).2,
          addCreated (createProcess s name entryPoint kernelMode).1 c, d⟩
  | fork {s : KernelState} {c d : List Word} :
      ProcessStep ⟨s, c, d⟩ .fork ⟨(fork s).2, addCreated (forkChild s) c, d⟩
  | schedule {s s' : KernelState} {c d : List Word} {esp : Word} {fuel : Nat}
      (hret : schedule s esp fuel = some s') :
      ProcessStep ⟨s, c, d⟩ (.schedule esp) ⟨s', c, d⟩
  | exit {s s' : KernelState} {c d : List Word} {esp : Word} {fuel : Nat}
      (hret : exit s esp fuel = some s') : ProcessStep ⟨s, c, d⟩ (.exit esp) ⟨s', c, d⟩
  | destroyProcess {s s' : KernelState} {c d : List Word} {proc : Word} {fuel : Nat}
      (hproc : proc = 0 ∨ proc ∈ c) (hret : destroyProcess s proc fuel = some s') :
      ProcessStep ⟨s, c, d⟩ (.destroyProcess proc) ⟨s', c, proc :: d⟩

/-- The kernel before `paging_init`; memory is arbitrary. -/
structure AtKernelBoot (s : KernelState) : Prop where
  paging : AtBoot s.toPagingState
  processList : s.processList = 0
  currentProcess : s.currentProcess = 0
  nextPid : s.nextPid = 1
  switches : s.switches = []

/-- The state in which the kernel calls `process_init`. -/
structure BeforeProcessInit (s : KernelState) : Prop where
  paging : AfterPagingInit s.toPagingState
  processList : s.processList = 0
  currentProcess : s.currentProcess = 0
  nextPid : s.nextPid = 1
  switches : s.switches = []

/-- The start of a process run: `process_init` has returned. -/
def ProcessBoot (y : ProcessSystem) : Prop :=
  ∃ s, BeforeProcessInit s ∧ y = ⟨processInit s, [(processInit s).currentProcess], []⟩

/-! ## The invariant -/

/-- The invariant of process runs. Processes lie below `heap_current`, each above all that
were created before it; the list is the live processes; every pointer to a process is NULL
or points to a created one; no process is ever blocked. -/
structure ProcessInv (y : ProcessSystem) : Prop where
  heap_ne_zero : y.kernel.heapCurrent ≠ 0
  heap_le : y.kernel.heapCurrent.toNat ≤ 0x800000
  below : ∀ p ∈ y.created, p.toNat + 136 ≤ y.kernel.heapCurrent.toNat
  apart : y.created.Pairwise fun p q => q.toNat + 136 ≤ p.toNat
  ne_zero : ∀ p ∈ y.created, p ≠ 0
  chain : Chain 0 y.kernel.next y.kernel.processList y.live
  current : y.kernel.currentProcess ∈ y.created
  next : ∀ p ∈ y.created, y.kernel.next p = 0 ∨ y.kernel.next p ∈ y.created
  parent : ∀ p ∈ y.created,
    (y.kernel.procs p).parent = 0 ∨ (y.kernel.procs p).parent ∈ y.created
  not_blocked : ∀ p ∈ y.created, (y.kernel.procs p).state ≠ .blocked
  destroyed : ∀ p ∈ y.destroyed, p = 0 ∨ p ∈ y.created

namespace ProcessInv

variable {s s' : KernelState} {c d : List Word}

theorem live_subset {y : ProcessSystem} {p : Word} (hp : p ∈ y.live) : p ∈ y.created :=
  (List.mem_filter.mp hp).1

/-- The head of the list is NULL or a created process. -/
theorem processList_mem (h : ProcessInv ⟨s, c, d⟩) : s.processList = 0 ∨ s.processList ∈ c := by
  have hstart : s.processList = (ProcessSystem.live ⟨s, c, d⟩).headD 0 := h.chain.start_eq
  cases hl : ProcessSystem.live ⟨s, c, d⟩ with
  | nil =>
    rw [hl] at hstart
    exact .inl hstart
  | cons a l =>
    rw [hl] at hstart
    have ha : a ∈ ProcessSystem.live ⟨s, c, d⟩ := by simp [hl]
    rw [hstart]
    exact .inr (live_subset ha)

/-- Every `next`, wrapped or not, is NULL or a created process. -/
theorem nextOrHead_mem (h : ProcessInv ⟨s, c, d⟩) {p : Word} (hp : p ∈ c) :
    s.nextOrHead p = 0 ∨ s.nextOrHead p ∈ c := by
  unfold KernelState.nextOrHead
  by_cases h0 : s.next p = 0
  · rw [if_pos h0]
    exact h.processList_mem
  · rw [if_neg h0]
    exact h.next p hp

/-- A process that `schedule` stops at is NULL or a created process. -/
theorem passes_mem (h : ProcessInv ⟨s, c, d⟩) {vs : List Word} {r : Word}
    (hpath : Passes s.nextOrHead (s.nextOrHead s.currentProcess) vs r)
    (hall : ∀ v ∈ vs, PassedOver s v) : r = 0 ∨ r ∈ c :=
  hpath.inv (fun q => q = 0 ∨ q ∈ c) (h.nextOrHead_mem h.current) fun v hv hor =>
    h.nextOrHead_mem (hor.resolve_left (hall v hv).1)

/-- A call that keeps the list keeps the invariant when it leaves the current process among
the created ones and blocks nobody. -/
theorem of_sameLinks (h : ProcessInv ⟨s, c, d⟩) (hlinks : SameLinks s s')
    (hcur : s'.currentProcess ∈ c) (hblocked : ∀ p ∈ c, (s'.procs p).state ≠ .blocked) :
    ProcessInv ⟨s', c, d⟩ := by
  obtain ⟨hne, hle, hbelow, hapart, hnz, hchain, -, hnext, hparent, -, hdestroyed⟩ := h
  simp only at hne hle hbelow hchain hnext hparent
  rw [← hlinks.heapCurrent] at hne hle
  rw [← hlinks.processList] at hchain
  refine ⟨hne, hle, fun p hp => ?_, hapart, hnz, hchain.congr fun q _ => hlinks.next q, hcur,
    fun p hp => ?_, fun p hp => ?_, hblocked, hdestroyed⟩
  · simp only [hlinks.heapCurrent]
    exact hbelow p hp
  · simp only [hlinks.next p]
    exact hnext p hp
  · simp only [hlinks.parent p]
    exact hparent p hp

theorem of_switched (h : ProcessInv ⟨s, c, d⟩) {next : Word} (hsw : Switched s s' next)
    (hnext : next ∈ c) : ProcessInv ⟨s', c, d⟩ := by
  refine h.of_sameLinks hsw.links (by rw [hsw.currentProcess]; exact hnext) fun p hp => ?_
  by_cases hpn : p = next
  · rw [hpn, hsw.state_next]
    exact nofun
  · by_cases hpc : p = s.currentProcess
    · rw [hpc, hsw.state_prev]
      exact nofun
    · rw [hsw.state p hpn hpc]
      exact h.not_blocked p hp

theorem of_schedule (h : ProcessInv ⟨s, c, d⟩) {esp : Word} {fuel : Nat}
    (hret : schedule s esp fuel = some s') : ProcessInv ⟨s', c, d⟩ := by
  obtain ⟨vs, r, hpath, hall, hsw | ⟨rfl, -⟩⟩ := schedule_spec (h.ne_zero _ h.current) hret
  · exact h.of_switched hsw ((h.passes_mem hpath hall).resolve_left hsw.ne_zero)
  · exact h

/-- `exit` before `schedule` terminates the current process and changes nothing else. -/
theorem exitCurrent_eq (h : ProcessInv ⟨s, c, d⟩) :
    exitCurrent s = s.modify s.currentProcess (·.setState .terminated) := by
  apply KyroKernel.exitCurrent_eq
  exact (h.parent _ h.current).imp id fun hmem => h.not_blocked _ hmem

theorem of_exitCurrent (h : ProcessInv ⟨s, c, d⟩) : ProcessInv ⟨exitCurrent s, c, d⟩ := by
  rw [h.exitCurrent_eq]
  refine h.of_sameLinks (modify_sameLinks s _ rfl rfl rfl) h.current fun p hp => ?_
  by_cases hpc : p = s.currentProcess
  · rw [hpc, modify_procs_self]
    exact nofun
  · rw [modify_procs_of_ne hpc]
    exact h.not_blocked p hp

/-- `exit` never finds `current_process` NULL, so it always calls `schedule`. -/
theorem exit_eq (h : ProcessInv ⟨s, c, d⟩) (esp : Word) (fuel : Nat) :
    exit s esp fuel = schedule (exitCurrent s) esp fuel :=
  if_neg (h.ne_zero _ h.current)

/-- A new process is none of the processes created before. -/
theorem ne_newProcess (h : ProcessInv ⟨s, c, d⟩) {proc : Word} (hnew : NewProcess s s' proc) :
    ∀ p ∈ c, p ≠ proc := by
  rintro p hp rfl
  have hb := h.below p hp
  have hfresh := hnew.fresh
  simp only [← hfresh] at hb
  omega

theorem of_newProcess (h : ProcessInv ⟨s, c, d⟩) {proc : Word} (hnew : NewProcess s s' proc) :
    ProcessInv ⟨s', proc :: c, d⟩ := by
  have hold := h.ne_newProcess hnew
  have hge : s.heapCurrent.toNat ≤ s'.heapCurrent.toNat := by
    have hroom := hnew.room
    rw [hnew.fresh] at hroom
    omega
  -- A fresh process was never destroyed: `destroyed` holds NULL and created processes only.
  have hlive : ProcessSystem.live ⟨s', proc :: c, d⟩ =
      proc :: ProcessSystem.live ⟨s, c, d⟩ := by
    have hfresh : proc ∉ d := fun hmem =>
      (h.destroyed proc hmem).elim hnew.ne_zero fun hc => hold proc hc rfl
    simp [ProcessSystem.live, hfresh]
  have hnextOld : ∀ p ∈ c, s'.next p = s.next p := fun p hp => by
    unfold KernelState.next
    rw [hnew.others p (hold p hp)]
  refine ⟨?_, hnew.heap_le, ?_, ?_, ?_, ?_, ?_, ?_, ?_, ?_, fun p hp => ?_⟩
  · intro h0
    have hroom := hnew.room
    simp only at h0
    rw [h0] at hroom
    simp at hroom
  · refine List.forall_mem_cons.mpr ⟨hnew.room, fun p hp => ?_⟩
    exact Nat.le_trans (h.below p hp) hge
  · -- The record starts at the old end of the heap, above all others.
    refine List.pairwise_cons.mpr ⟨fun q hq => ?_, h.apart⟩
    rw [hnew.fresh]
    exact h.below q hq
  · exact List.forall_mem_cons.mpr ⟨hnew.ne_zero, h.ne_zero⟩
  · rw [hlive, hnew.processList]
    refine h.chain.insert hnew.ne_zero hnew.next fun p hp => ?_
    exact hnextOld p (live_subset hp)
  · rw [hnew.currentProcess]
    exact List.mem_cons_of_mem _ h.current
  · refine List.forall_mem_cons.mpr ⟨?_, fun p hp => ?_⟩
    · -- The new process is followed by the old head of the list.
      rw [hnew.next]
      exact h.processList_mem.imp id (List.mem_cons_of_mem _)
    · rw [hnextOld p hp]
      exact (h.next p hp).imp id (List.mem_cons_of_mem _)
  · -- `create_process` sets no parent, `fork` the current process.
    refine List.forall_mem_cons.mpr ⟨?_, fun p hp => ?_⟩
    · refine hnew.parent.imp id fun heq => ?_
      rw [heq]
      exact List.mem_cons_of_mem _ h.current
    · rw [hnew.others p (hold p hp)]
      exact (h.parent p hp).imp id (List.mem_cons_of_mem _)
  · refine List.forall_mem_cons.mpr ⟨?_, fun p hp => ?_⟩
    · rw [hnew.state]
      exact nofun
    · rw [hnew.others p (hold p hp)]
      exact h.not_blocked p hp
  · exact (h.destroyed p hp).imp id (List.mem_cons_of_mem _)

/-- Destroying `proc` takes it off the live processes. -/
theorem live_destroy (s s' : KernelState) (c d : List Word) (proc : Word) :
    ProcessSystem.live ⟨s', c, proc :: d⟩ =
      (ProcessSystem.live ⟨s, c, d⟩).filter (· ≠ proc) := by
  simp only [ProcessSystem.live, List.filter_filter, List.mem_cons, not_or]
  congr 1
  funext p
  simp

theorem of_destroyProcess (h : ProcessInv ⟨s, c, d⟩) {proc : Word} {fuel : Nat}
    (hproc : proc = 0 ∨ proc ∈ c) (hret : destroyProcess s proc fuel = some s') :
    ProcessInv ⟨s', c, proc :: d⟩ := by
  have hu := destroyProcess_unlinked hret
  have hheap : s'.heapCurrent = s.heapCurrent := congrArg PagingState.heapCurrent hu.paging
  have hchain : Chain 0 s'.next s'.processList (ProcessSystem.live ⟨s', c, proc :: d⟩) := by
    rw [live_destroy s s' c d]
    by_cases h0 : proc = 0
    · -- NULL: nothing happens, and NULL was not live.
      subst h0
      rw [destroyProcess_eq, if_pos rfl] at hret
      obtain rfl := Option.some.inj hret
      rw [filter_ne_of_not_mem fun hmem => h.ne_zero 0 (live_subset hmem) rfl]
      exact h.chain
    · exact destroyProcess_spec h.chain h0 hret
  have hnext : ∀ p ∈ c, s'.next p = 0 ∨ s'.next p ∈ c := by
    intro p hp
    rcases hproc with rfl | hmem
    · rw [destroyProcess_eq, if_pos rfl] at hret
      obtain rfl := Option.some.inj hret
      exact h.next p hp
    · -- The predecessor of `proc` gets its `next`; every other process keeps its own.
      rcases hu.next p with heq | heq
      · rw [heq]
        exact h.next p hp
      · rw [heq]
        exact h.next proc hmem
  refine ⟨?_, ?_, fun p hp => ?_, h.apart, h.ne_zero, hchain, ?_, hnext, fun p hp => ?_,
    fun p hp => ?_, ?_⟩
  · rw [hheap]
    exact h.heap_ne_zero
  · rw [hheap]
    exact h.heap_le
  · rw [hheap]
    exact h.below p hp
  · rw [hu.currentProcess]
    exact h.current
  · rw [hu.data p]
    exact h.parent p hp
  · rw [hu.data p]
    exact h.not_blocked p hp
  · exact List.forall_mem_cons.mpr ⟨hproc, h.destroyed⟩

end ProcessInv

/-- `process_init` at boot makes the first process at the start of the heap. -/
structure AfterProcessInit (s : KernelState) : Prop where
  heapCurrent : s.heapCurrent = 0x308088
  currentProcess : s.currentProcess = 0x306000
  processList : s.processList = 0x306000
  next : s.next 0x306000 = 0
  parent : (s.procs 0x306000).parent = 0
  state : (s.procs 0x306000).state = .running
  switches : s.switches = []

/-- The first process gets the first address that `paging_init` has left on the heap. -/
theorem createProcess_first {s : KernelState} (hb : BeforeProcessInit s) :
    (createProcess s kernelName 0 true).1 = 0x306000 := by
  have hheap : s.heapCurrent = 0x306000 := hb.paging.heapCurrent
  rw [createProcess_fst, hheap]
  decide

theorem processInit_spec {s : KernelState} (hb : BeforeProcessInit s) :
    AfterProcessInit (processInit s) := by
  have hheap : s.heapCurrent = 0x306000 := hb.paging.heapCurrent
  have hfst := createProcess_first hb
  have hnewHeap : (createProcess s kernelName 0 true).2.heapCurrent = 0x308088 := by
    rw [createProcess_kernel_heapCurrent kernelName 0 (by rw [hheap]; decide), hheap]
    decide
  have hspec := createProcess_spec (s := s) kernelName 0 true (by rw [hheap]; decide)
    (by rw [hheap]; decide)
  unfold processInit
  generalize createProcess s kernelName 0 true = r at hfst hnewHeap hspec ⊢
  obtain ⟨proc, t⟩ := r
  obtain rfl : proc = 0x306000 := hfst
  rcases hspec with ⟨h0, -⟩ | ⟨hnew, hrecord⟩
  · have hne : (0x306000 : Word) ≠ 0 := by decide
    exact absurd h0 hne
  · simp only at hnew hrecord ⊢
    refine ⟨hnewHeap, rfl, rfl, ?_, ?_, ?_, hnew.switches.trans hb.switches⟩
    · -- The list was empty before.
      have hnext : (((t.procs 0x306000).setState .running).next = 0) :=
        hnew.next.trans hb.processList
      simpa [KernelState.next, KernelState.modify] using hnext
    · have hparent : (((t.procs 0x306000).setState .running).parent = 0) := hrecord.parent
      simpa [KernelState.modify] using hparent
    · simp [KernelState.modify, Process.setState]

theorem processInv_of_boot {y : ProcessSystem} (h : ProcessBoot y) : ProcessInv y := by
  obtain ⟨s, hb, rfl⟩ := h
  have hs := processInit_spec hb
  generalize processInit s = t at hs ⊢
  rw [hs.currentProcess]
  have hlive : ProcessSystem.live ⟨t, [0x306000], []⟩ = [0x306000] := rfl
  refine ⟨?_, ?_, ?_, by simp, by simp, ?_, ?_, ?_, ?_, ?_, by simp⟩
  · simp [hs.heapCurrent]
  · simp [hs.heapCurrent]
  · simp [hs.heapCurrent]
  · rw [hlive]
    exact ⟨hs.processList, by decide, hs.next⟩
  · simp [hs.currentProcess]
  · simpa using Or.inl hs.next
  · simpa using Or.inl hs.parent
  · rintro p hp
    obtain rfl := List.mem_singleton.mp hp
    simp only [hs.state]
    exact nofun

/-- `create_process` and `fork` keep the invariant, whether they succeed or not. -/
theorem ProcessInv.of_added {s s' : KernelState} {c d : List Word} {proc : Word}
    (h : ProcessInv ⟨s, c, d⟩) (hadd : (proc = 0 ∧ s' = s) ∨ NewProcess s s' proc) :
    ProcessInv ⟨s', addCreated proc c, d⟩ := by
  unfold addCreated
  rcases hadd with ⟨rfl, rfl⟩ | hnew
  · rw [if_pos rfl]
    exact h
  · rw [if_neg hnew.ne_zero]
    exact h.of_newProcess hnew

/-- The calls that create a process. -/
def ProcessOp.Creates : ProcessOp → Prop
  | .createProcess .. => True
  | .fork => True
  | _ => False

/-- What a step does in a state that meets the invariant. The two calls that create a process
share the case in which they fail and the case in which they succeed. -/
inductive StepEffect (y : ProcessSystem) : ProcessOp → ProcessSystem → Prop where
  | failed {op : ProcessOp} (hop : op.Creates) : StepEffect y op y
  | added {op : ProcessOp} {y' : ProcessSystem} {proc : Word} (hop : op.Creates)
      (hnew : NewProcess y.kernel y'.kernel proc) (hcreated : y'.created = proc :: y.created)
      (hdestroyed : y'.destroyed = y.destroyed) : StepEffect y op y'
  | schedule {s' : KernelState} {esp : Word} {fuel : Nat}
      (hret : schedule y.kernel esp fuel = some s') :
      StepEffect y (.schedule esp) ⟨s', y.created, y.destroyed⟩
  | exit {s' : KernelState} {esp : Word} {fuel : Nat}
      (hret : KyroKernel.schedule (exitCurrent y.kernel) esp fuel = some s') :
      StepEffect y (.exit esp) ⟨s', y.created, y.destroyed⟩
  | destroyProcess {s' : KernelState} {proc : Word} (hu : Unlinked y.kernel s' proc) :
      StepEffect y (.destroyProcess proc) ⟨s', y.created, proc :: y.destroyed⟩

theorem StepEffect.of_added {s s' : KernelState} {c d : List Word} {proc : Word} {op : ProcessOp}
    (hop : op.Creates) (hadd : (proc = 0 ∧ s' = s) ∨ NewProcess s s' proc) :
    StepEffect ⟨s, c, d⟩ op ⟨s', addCreated proc c, d⟩ := by
  rcases hadd with ⟨rfl, rfl⟩ | hnew
  · exact .failed hop
  · exact .added hop hnew (if_neg hnew.ne_zero) rfl

theorem ProcessInv.effect {y y' : ProcessSystem} {op : ProcessOp} (h : ProcessInv y)
    (hstep : ProcessStep y op y') : StepEffect y op y' := by
  cases hstep with
  | createProcess =>
    exact .of_added trivial
      ((createProcess_spec _ _ _ h.heap_ne_zero h.heap_le).imp id And.left)
  | fork => exact .of_added trivial (fork_spec h.heap_ne_zero h.heap_le)
  | schedule hret => exact .schedule hret
  | exit hret =>
    rw [h.exit_eq] at hret
    exact .exit hret
  | destroyProcess _ hret => exact .destroyProcess (destroyProcess_unlinked hret)

theorem processInv_step {y y' : ProcessSystem} {op : ProcessOp} (h : ProcessInv y)
    (hstep : ProcessStep y op y') : ProcessInv y' := by
  cases hstep with
  | createProcess =>
    exact h.of_added ((createProcess_spec _ _ _ h.heap_ne_zero h.heap_le).imp id And.left)
  | fork => exact h.of_added (fork_spec h.heap_ne_zero h.heap_le)
  | schedule hret => exact h.of_schedule hret
  | exit hret =>
    rw [h.exit_eq] at hret
    exact h.of_exitCurrent.of_schedule hret
  | destroyProcess hproc hret => exact h.of_destroyProcess hproc hret

theorem processInv_run {tr : List (ProcessSystem × ProcessOp)} {y : ProcessSystem}
    (h : Run ProcessBoot ProcessStep tr y) : ProcessInv y :=
  h.inv ProcessInv (fun _ => processInv_of_boot) fun _ _ _ => processInv_step

end KyroKernel
