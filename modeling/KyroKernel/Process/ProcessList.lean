import KyroKernel.Paging.Runs
import KyroKernel.Process.Runs

/-!
# The process list and who is on it

After every run `process_list` heads exactly the processes created and not destroyed, most
recent first. The scheduler deals with live processes as long as nobody destroys the
current one: `destroy_process` does not look at `current_process`, and a destroyed process
that is still current keeps its stale `next` pointer.
-/

namespace KyroKernel

open Foundations

/-- The process list is well formed and complete: following `next` from `process_list`
meets exactly the processes created and not yet destroyed, most recently created first,
none of them twice, and then ends. -/
theorem processList_complete {tr : List (ProcessSystem × ProcessOp)} {y : ProcessSystem}
    (hrun : Run ProcessBoot ProcessStep tr y) :
    Chain 0 y.kernel.next y.kernel.processList
      (y.created.filter (· ∉ y.destroyed)) ∧
    (y.created.filter (· ∉ y.destroyed)).Nodup := by
  have hchain := (processInv_run hrun).chain
  exact ⟨hchain, hchain.nodup⟩

/-! ## Short runs

Runs that are computed, and the two shortest ones: right after `process_init`, the first process is
destroyed, or a second one is created. The lemmas are about any state that `process_init` can
leave. -/

/-- The state in which the kernel calls `process_init` when memory was zeroed at boot. -/
def bootKernel : KernelState where
  toPagingState := pagingInit bootState
  procs := fun _ => {}
  processList := 0
  currentProcess := 0
  nextPid := 1
  switches := []

theorem beforeProcessInit_bootKernel : BeforeProcessInit bootKernel :=
  ⟨afterPagingInit_of_atBoot atBoot_bootState, rfl, rfl, rfl, rfl⟩

/-- The system after `process_init`, with `s` as its kernel state. -/
def firstSystem (s : KernelState) : ProcessSystem := ⟨s, [0x306000], []⟩

theorem exists_firstSystem : ∃ s, AfterProcessInit s ∧ ProcessBoot (firstSystem s) := by
  have hs := processInit_spec beforeProcessInit_bootKernel
  refine ⟨processInit bootKernel, hs, bootKernel, beforeProcessInit_bootKernel, ?_⟩
  rw [hs.currentProcess]
  rfl

/-- One call with this fuel for its loop, if it can be made and returns. -/
def ProcessSystem.exec (fuel : Nat) : ProcessSystem → ProcessOp → Option ProcessSystem
  | ⟨s, c, d⟩, .createProcess name entryPoint kernelMode =>
    some ⟨(createProcess s name entryPoint kernelMode).2,
      addCreated (createProcess s name entryPoint kernelMode).1 c, d⟩
  | ⟨s, c, d⟩, .fork => some ⟨(fork s).2, addCreated (forkChild s) c, d⟩
  | ⟨s, c, d⟩, .schedule esp => (schedule s esp fuel).map fun s' => ⟨s', c, d⟩
  | ⟨s, c, d⟩, .exit esp => (exit s esp fuel).map fun s' => ⟨s', c, d⟩
  | ⟨s, c, d⟩, .destroyProcess proc =>
    if proc = 0 || c.contains proc then (destroyProcess s proc fuel).map fun s' => ⟨s', c, proc :: d⟩
    else none

theorem ProcessSystem.exec_step {fuel : Nat} {y y' : ProcessSystem} {op : ProcessOp}
    (h : y.exec fuel op = some y') : ProcessStep y op y' := by
  obtain ⟨s, c, d⟩ := y
  cases op with
  | createProcess name entryPoint kernelMode =>
    obtain rfl := Option.some.inj h
    exact .createProcess
  | fork =>
    obtain rfl := Option.some.inj h
    exact .fork
  | schedule esp =>
    obtain ⟨s, hret, rfl⟩ := Option.map_eq_some_iff.mp h
    exact .schedule hret
  | exit esp =>
    obtain ⟨s, hret, rfl⟩ := Option.map_eq_some_iff.mp h
    exact .exit hret
  | destroyProcess proc =>
    rw [exec] at h
    split at h
    · rename_i hproc
      have hmem : proc = 0 ∨ proc ∈ c := by simpa using hproc
      obtain ⟨s, hret, rfl⟩ := Option.map_eq_some_iff.mp h
      exact .destroyProcess hmem hret
    · cases h

/-- The calls `ops` with fuel for lists of up to eight processes. -/
abbrev ProcessSystem.follow (y : ProcessSystem) (ops : List ProcessOp) :
    Option (List (ProcessSystem × ProcessOp) × ProcessSystem) :=
  Run.follow (ProcessSystem.exec 9) [] y ops

/-- After `process_init`, with what `paging_init` has left in the two globals that are looked at. -/
def startedSystem (s : KernelState) : ProcessSystem where
  kernel := processInit { s with heapCurrent := 0x306000, kernelDirectory := 0x301000 }
  created := [0x306000]
  destroyed := []

theorem startedSystem_eq {s : KernelState} (hb : BeforeProcessInit s) :
    startedSystem s = ⟨processInit s, [0x306000], []⟩ := by
  rw [startedSystem, ← hb.paging.heapCurrent, ← hb.paging.kernelDirectory]

theorem processBoot_started {s : KernelState} (hb : BeforeProcessInit s) :
    ProcessBoot (startedSystem s) := by
  refine ⟨s, hb, ?_⟩
  rw [startedSystem_eq hb, (processInit_spec hb).currentProcess]

/-- The run of these calls, and what is computed of it. -/
theorem exists_processRun (init : ProcessSystem → Prop) (hinit : init (startedSystem bootKernel))
    (ops : List ProcessOp) (P : List (ProcessSystem × ProcessOp) → ProcessSystem → Prop)
    [∀ tr y, Decidable (P tr y)]
    (h : ((startedSystem bootKernel).follow ops).any (fun r => P r.1 r.2) = true) :
    ∃ tr y, Run init ProcessStep tr y ∧ P tr y := by
  have hrun : Run init ProcessStep [] (startedSystem bootKernel) := .start hinit
  exact hrun.exists_of_follow (fun _ => ProcessSystem.exec_step) P h

section ShortRuns

variable {s : KernelState}

/-- The first process is destroyed; the list has lost its only member. -/
def orphanSystem (s : KernelState) : ProcessSystem :=
  ⟨{ s with processList := s.next 0x306000 }, [0x306000], [0x306000]⟩

theorem run_orphanSystem (hs : AfterProcessInit s) (hboot : ProcessBoot (firstSystem s)) :
    Run ProcessBoot ProcessStep [(firstSystem s, .destroyProcess 0x306000)] (orphanSystem s) := by
  have hret : destroyProcess s 0x306000 0 = some (orphanSystem s).kernel := by
    rw [destroyProcess_eq, if_neg (by decide), if_pos hs.processList]
    rfl
  exact .snoc (.start hboot) (.destroyProcess (.inr List.mem_cons_self) hret)

/-- The kernel after a second process was created. -/
def pairKernel (s : KernelState) : KernelState := (createProcess s kernelName 0 true).2

/-- Two processes, the second one at the head of the list and ready. -/
def pairSystem (s : KernelState) : ProcessSystem := ⟨pairKernel s, [0x308088, 0x306000], []⟩

theorem createProcess_pair (hs : AfterProcessInit s) :
    (createProcess s kernelName 0 true).1 = 0x308088 := by
  rw [createProcess_fst, hs.heapCurrent]
  decide

theorem newProcess_pairKernel (hs : AfterProcessInit s) :
    NewProcess s (pairKernel s) 0x308088 := by
  have hfst := createProcess_pair hs
  rcases createProcess_spec (s := s) kernelName 0 true (by rw [hs.heapCurrent]; decide)
    (by rw [hs.heapCurrent]; decide) with ⟨h0, -⟩ | ⟨hnew, -⟩
  · rw [hfst] at h0
    exact absurd h0 (by decide)
  · rwa [hfst] at hnew

theorem run_pairSystem (hs : AfterProcessInit s) (hboot : ProcessBoot (firstSystem s)) :
    Run ProcessBoot ProcessStep [(firstSystem s, .createProcess kernelName 0 true)]
      (pairSystem s) := by
  have hstep : ProcessStep (firstSystem s) (.createProcess kernelName 0 true)
      ⟨pairKernel s, addCreated (createProcess s kernelName 0 true).1 [0x306000], []⟩ :=
    .createProcess
  rw [createProcess_pair hs] at hstep
  exact .snoc (.start hboot) hstep

/-- The list of the pair, from the head. -/
theorem pairKernel_links (hs : AfterProcessInit s) :
    (pairKernel s).currentProcess = 0x306000 ∧ (pairKernel s).processList = 0x308088 ∧
      (pairKernel s).next 0x308088 = 0x306000 ∧ (pairKernel s).next 0x306000 = 0 ∧
      ((pairKernel s).procs 0x308088).state = .ready := by
  have hnew := newProcess_pairKernel hs
  refine ⟨hnew.currentProcess.trans hs.currentProcess, hnew.processList,
    hnew.next.trans hs.processList, ?_, hnew.state⟩
  unfold KernelState.next
  rw [hnew.others _ (by decide)]
  exact hs.next

end ShortRuns

/-- Five processes. One in the middle of the list is destroyed, and then once more, the tail after
`schedule` has left it, and the head. -/
theorem processList_complete_three : ∃ tr y, Run ProcessBoot ProcessStep tr y ∧
    (y.created = [0x30E220, 0x30C198, 0x30A110, 0x308088, 0x306000] ∧
      y.destroyed = [0x30E220, 0x306000, 0x30A110, 0x30A110] ∧
      y.created.filter (· ∉ y.destroyed) = [0x30C198, 0x308088]) ∧
    Chain 0 y.kernel.next y.kernel.processList (y.created.filter (· ∉ y.destroyed)) ∧
    (y.created.filter (· ∉ y.destroyed)).Nodup := by
  obtain ⟨tr, y, hrun, hlists⟩ := exists_processRun ProcessBoot
    (processBoot_started beforeProcessInit_bootKernel)
    [.createProcess kernelName 0 true, .createProcess kernelName 0 true,
      .createProcess kernelName 0 true, .destroyProcess 0x30A110, .destroyProcess 0x30A110,
      .schedule 0, .destroyProcess 0x306000, .createProcess kernelName 0 true,
      .destroyProcess 0x30E220]
    (fun _ y => y.created = [0x30E220, 0x30C198, 0x30A110, 0x308088, 0x306000] ∧
      y.destroyed = [0x30E220, 0x306000, 0x30A110, 0x30A110] ∧
      y.created.filter (· ∉ y.destroyed) = [0x30C198, 0x308088]) (by decide +kernel)
  exact ⟨tr, y, hrun, hlists, processList_complete hrun⟩

/-! ## Live processes -/

/-- `proc` is a member of the list that `process_list` heads. -/
def OnProcessList (s : KernelState) (proc : Word) : Prop :=
  ∃ l, Chain 0 s.next s.processList l ∧ proc ∈ l

/-- The processes that a call from `s` to `s'` switched to. -/
def switchedTo (s s' : KernelState) : List Word :=
  (s'.switches.take (s'.switches.length - s.switches.length)).map Prod.snd

/-- The current process is on the list, and no call that may come next switches to a
destroyed process. -/
structure DealsWithLive (y : ProcessSystem) : Prop where
  current : OnProcessList y.kernel y.kernel.currentProcess
  switches : ∀ op y', ProcessStep y op y' → ∀ q ∈ switchedTo y.kernel y'.kernel, q ∉ y.destroyed

theorem switchedTo_same {s s' : KernelState} (h : s'.switches = s.switches) :
    switchedTo s s' = [] := by
  simp [switchedTo, h]

theorem switchedTo_cons {s s' : KernelState} {sw : Word × Word}
    (h : s'.switches = sw :: s.switches) : switchedTo s s' = [sw.2] := by
  simp [switchedTo, h]

@[simp] theorem mem_live (y : ProcessSystem) (p : Word) :
    p ∈ y.live ↔ p ∈ y.created ∧ p ∉ y.destroyed := by
  simp [ProcessSystem.live]

namespace ProcessInv

variable {s s' : KernelState} {c d : List Word}

/-- The list is the only one that `process_list` heads. -/
theorem onProcessList_iff {y : ProcessSystem} (h : ProcessInv y) (p : Word) :
    OnProcessList y.kernel p ↔ p ∈ y.live := by
  constructor
  · rintro ⟨l, hl, hp⟩
    rwa [hl.unique h.chain] at hp
  · exact fun hp => ⟨y.live, h.chain, hp⟩

/-- From a live process the scheduler's walk goes to live processes only. -/
theorem nextOrHead_live (h : ProcessInv ⟨s, c, d⟩) {p : Word}
    (hp : p ∈ ProcessSystem.live ⟨s, c, d⟩) :
    s.nextOrHead p ∈ ProcessSystem.live ⟨s, c, d⟩ := by
  have hchain : Chain 0 s.next s.processList (ProcessSystem.live ⟨s, c, d⟩) := h.chain
  obtain ⟨X, R, hl⟩ := List.append_of_mem hp
  rw [hl] at hchain ⊢
  unfold KernelState.nextOrHead
  cases R with
  | nil =>
    -- The last member: the walk wraps to the head.
    have hlast : s.next p = 0 := hchain.next_eq
    rw [if_pos hlast, hchain.start_eq]
    cases X <;> simp
  | cons q R =>
    have hnext : s.next p = q := hchain.next_eq
    have hq : q ≠ 0 := hchain.ne_null q (by simp)
    rw [hnext, if_neg hq]
    simp

/-- A process that `schedule` switches to is live when the current one is. -/
theorem switched_live (h : ProcessInv ⟨s, c, d⟩)
    (hcur : s.currentProcess ∈ ProcessSystem.live ⟨s, c, d⟩) {esp : Word} {fuel : Nat}
    (hret : schedule s esp fuel = some s') :
    s'.currentProcess ∈ ProcessSystem.live ⟨s, c, d⟩ ∧
      ∀ q ∈ switchedTo s s', q ∈ ProcessSystem.live ⟨s, c, d⟩ := by
  obtain ⟨vs, r, hpath, -, hout⟩ := schedule_spec (h.ne_zero _ h.current) hret
  have hr : r ∈ ProcessSystem.live ⟨s, c, d⟩ :=
    hpath.inv (· ∈ ProcessSystem.live ⟨s, c, d⟩) (h.nextOrHead_live hcur)
      fun _ _ hv => h.nextOrHead_live hv
  rcases hout with hsw | ⟨rfl, -⟩
  · rw [hsw.currentProcess, switchedTo_cons hsw.switches]
    exact ⟨hr, by simpa using hr⟩
  · rw [switchedTo_same rfl]
    exact ⟨hcur, by simp⟩

end ProcessInv

/-- The invariant of runs that never destroy the current process. -/
structure CurrentLive (y : ProcessSystem) : Prop where
  inv : ProcessInv y
  current : y.kernel.currentProcess ∈ y.live

theorem currentLive_of_boot {y : ProcessSystem} (h : ProcessBoot y) : CurrentLive y := by
  have hinv := processInv_of_boot h
  refine ⟨hinv, ?_⟩
  obtain ⟨s, -, rfl⟩ := h
  simp

/-- A step keeps the current process live, unless it destroys it, and switches to live
processes only. -/
theorem CurrentLive.step {y y' : ProcessSystem} {op : ProcessOp} (h : CurrentLive y)
    (hstep : ProcessStep y op y') :
    (op ≠ .destroyProcess y.kernel.currentProcess → CurrentLive y') ∧
      ∀ q ∈ switchedTo y.kernel y'.kernel, q ∉ y.destroyed := by
  have hinv' := processInv_step h.inv hstep
  have hcur := h.current
  cases h.inv.effect hstep with
  | failed => exact ⟨fun _ => h, by simp [switchedTo_same]⟩
  | added _ hnew hcreated hdestroyed =>
    refine ⟨fun _ => ⟨hinv', ?_⟩, by simp [switchedTo_same hnew.switches]⟩
    rw [mem_live] at hcur ⊢
    rw [hcreated, hdestroyed, hnew.currentProcess]
    exact ⟨List.mem_cons_of_mem _ hcur.1, hcur.2⟩
  | schedule hret =>
    obtain ⟨hmem, hsw⟩ := h.inv.switched_live hcur hret
    exact ⟨fun _ => ⟨hinv', hmem⟩, fun q hq => ((mem_live _ _).mp (hsw q hq)).2⟩
  | @exit s' esp fuel hret =>
    -- `exit` is `schedule` after the state of the current process changed.
    have hlinks := h.inv.exitCurrent_eq
    have hcur' : (exitCurrent y.kernel).currentProcess ∈
        ProcessSystem.live ⟨exitCurrent y.kernel, y.created, y.destroyed⟩ := by
      rw [hlinks]
      exact hcur
    obtain ⟨hmem, hsw⟩ := h.inv.of_exitCurrent.switched_live hcur' hret
    have hsame : switchedTo y.kernel s' = switchedTo (exitCurrent y.kernel) s' := by
      rw [hlinks]
      rfl
    refine ⟨fun _ => ⟨hinv', hmem⟩, fun q hq => ?_⟩
    rw [hsame] at hq
    exact ((mem_live _ _).mp (hsw q hq)).2
  | @destroyProcess s' proc hu =>
    refine ⟨fun hne => ⟨hinv', ?_⟩, by simp [switchedTo_same hu.switches]⟩
    rw [mem_live] at hcur ⊢
    rw [hu.currentProcess]
    refine ⟨hcur.1, fun hmem => ?_⟩
    rcases List.mem_cons.mp hmem with heq | hold
    · exact hne (by rw [heq])
    · exact hcur.2 hold

theorem CurrentLive.dealsWithLive {y : ProcessSystem} (h : CurrentLive y) : DealsWithLive y where
  current := (h.inv.onProcessList_iff _).mpr h.current
  switches _ _ hstep := (h.step hstep).2

/-- Right after the current process was destroyed it is current and off the list. -/
theorem not_onProcessList_of_destroy {y y' : ProcessSystem} (h : ProcessInv y)
    (hstep : ProcessStep y (.destroyProcess y.kernel.currentProcess) y') :
    ¬ OnProcessList y'.kernel y'.kernel.currentProcess := by
  have hinv' := processInv_step h hstep
  rw [hinv'.onProcessList_iff]
  cases h.effect hstep with
  | failed hop => exact hop.elim
  | added hop => exact hop.elim
  | destroyProcess hu =>
    rw [mem_live, hu.currentProcess]
    simp

/-- In a run the scheduler deals with live processes in every state exactly when no step
destroys the process that is current. -/
theorem dealsWithLive_iff {tr : List (ProcessSystem × ProcessOp)} {y : ProcessSystem}
    (hrun : Run ProcessBoot ProcessStep tr y) :
    (∀ z ∈ Run.states tr y, DealsWithLive z) ↔
      ∀ p ∈ tr, p.2 ≠ .destroyProcess p.1.kernel.currentProcess := by
  constructor
  · intro hall p hp heq
    obtain ⟨pre, z, hz, hmem⟩ := hrun.exists_after hp
    have hlast := hz.last
    rw [heq] at hlast
    exact not_onProcessList_of_destroy (processInv_run hz.tail) hlast (hall z hmem).current
  · intro hguard z hz
    have hlive := hrun.inv_states_of_guard CurrentLive
      (fun x op => op ≠ .destroyProcess x.kernel.currentProcess) (fun _ => currentLive_of_boot)
      (fun _ _ _ hx hg hstep => (hx.step hstep).1 hg) hguard
    exact (hlive z hz).dealsWithLive

/-- Destroying the first process while it is current leaves it current and off the list. -/
theorem not_forall_dealsWithLive : ¬ ∀ (tr : List (ProcessSystem × ProcessOp))
    (y : ProcessSystem), Run ProcessBoot ProcessStep tr y → DealsWithLive y := by
  intro h
  obtain ⟨s, hs, hboot⟩ := exists_firstSystem
  have hrun := run_orphanSystem hs hboot
  have hlast := hrun.last
  have hcur : (firstSystem s).kernel.currentProcess = 0x306000 := hs.currentProcess
  rw [← hcur] at hlast
  exact not_onProcessList_of_destroy (processInv_run hrun.tail) hlast (h _ _ hrun).current

/-- Whether the step destroys the process that is current before it. -/
def destroysCurrent : ProcessSystem × ProcessOp → Bool
  | (x, .destroyProcess proc) => proc = x.kernel.currentProcess
  | _ => false

theorem ne_destroyProcess_current {x : ProcessSystem} {op : ProcessOp}
    (h : destroysCurrent (x, op) = false) : op ≠ .destroyProcess x.kernel.currentProcess := by
  rintro rfl
  simp [destroysCurrent] at h

/-- Two processes are created, `schedule` goes from one to the next and twice one that is not
current is destroyed, so the scheduler deals with live processes all along. -/
theorem dealsWithLive_iff_switched : ∃ tr y, Run ProcessBoot ProcessStep tr y ∧
    (y.created = [0x30A110, 0x308088, 0x306000] ∧ y.destroyed = [0x306000, 0x308088] ∧
      y.kernel.currentProcess = 0x30A110 ∧ y.kernel.switches = [(0x306000, 0x30A110)]) ∧
    ∀ z ∈ Run.states tr y, DealsWithLive z := by
  obtain ⟨tr, y, hrun, hlists, hcalls⟩ := exists_processRun ProcessBoot
    (processBoot_started beforeProcessInit_bootKernel)
    [.createProcess kernelName 0 true, .createProcess kernelName 0 true, .destroyProcess 0x308088,
      .schedule 0, .destroyProcess 0x306000]
    (fun tr y => (y.created = [0x30A110, 0x308088, 0x306000] ∧
      y.destroyed = [0x306000, 0x308088] ∧ y.kernel.currentProcess = 0x30A110 ∧
      y.kernel.switches = [(0x306000, 0x30A110)]) ∧ ∀ p ∈ tr, destroysCurrent p = false)
    (by decide +kernel)
  exact ⟨tr, y, hrun, hlists, (dealsWithLive_iff hrun).mpr
    fun p hp => ne_destroyProcess_current (hcalls p hp)⟩

end KyroKernel
