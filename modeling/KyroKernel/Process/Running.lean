import KyroKernel.Process.Termination

/-!
# The running process

`process_init` marks the first process as running. From then on the mark is handed over by
`schedule`, which takes it from the current process, and `switch_task`, which gives it to the next
one; `exit` takes it away, and nothing else touches it.
-/

namespace KyroKernel

open Foundations

/-- Nobody but the current process runs, among all processes ever created. -/
structure OnlyCurrentRuns (y : ProcessSystem) : Prop where
  inv : ProcessInv y
  current : ∀ p ∈ y.created, (y.kernel.procs p).state = .running → p = y.kernel.currentProcess

theorem onlyCurrentRuns_of_boot {y : ProcessSystem} (h : ProcessBoot y) : OnlyCurrentRuns y := by
  have hinv := processInv_of_boot h
  obtain ⟨s, -, rfl⟩ := h
  refine ⟨hinv, fun p hp _ => ?_⟩
  exact List.mem_singleton.mp hp

/-- `schedule` hands the mark over, or leaves it where it is. -/
theorem running_of_schedule {s s' : KernelState} {esp : Word} {fuel : Nat}
    (hcur : s.currentProcess ≠ 0) (hret : schedule s esp fuel = some s') {p : Word}
    (hrun : (s'.procs p).state = .running) :
    p = s'.currentProcess ∨ ((s.procs p).state = .running ∧ p ≠ s.currentProcess) ∨ s' = s := by
  rcases schedule_cases hcur hret with ⟨-, next, hsw⟩ | ⟨-, rfl⟩
  · by_cases hpn : p = next
    · exact .inl (hpn.trans hsw.currentProcess.symm)
    · -- Not the new process: not the old one either, which is ready now.
      have hpc : p ≠ s.currentProcess := by
        rintro rfl
        rw [hsw.state_prev] at hrun
        cases hrun
      rw [hsw.state p hpn hpc] at hrun
      exact .inr (.inl ⟨hrun, hpc⟩)
  · exact .inr (.inr rfl)

theorem OnlyCurrentRuns.step {y y' : ProcessSystem} {op : ProcessOp} (h : OnlyCurrentRuns y)
    (hstep : ProcessStep y op y') : OnlyCurrentRuns y' := by
  have hinv' := processInv_step h.inv hstep
  refine ⟨hinv', fun p hp hrun => ?_⟩
  cases h.inv.effect hstep with
  | failed => exact h.current p hp hrun
  | @added _ _ proc _ hnew hcreated _ =>
    -- The new process is ready.
    have hne : p ≠ proc := by
      rintro rfl
      rw [hnew.state] at hrun
      cases hrun
    rw [hcreated] at hp
    rw [hnew.others p hne] at hrun
    rw [hnew.currentProcess]
    exact h.current p ((List.mem_cons.mp hp).resolve_left hne) hrun
  | schedule hret =>
    rcases running_of_schedule (h.inv.ne_zero _ h.inv.current) hret hrun with
      hcur | ⟨hold, hne⟩ | rfl
    · exact hcur
    · exact absurd (h.current p hp hold) hne
    · exact h.current p hp hrun
  | @exit s' esp fuel hret =>
    -- Before `schedule` is called the current process has lost its mark.
    obtain ⟨hcur, -, hterm, hother, -⟩ := h.inv.exitCurrent_state
    have hnone : ((exitCurrent y.kernel).procs p).state ≠ .running := by
      intro hold
      by_cases hpc : p = y.kernel.currentProcess
      · rw [hpc, hterm] at hold
        cases hold
      · rw [hother p hpc] at hold
        exact hpc (h.current p hp hold)
    rcases running_of_schedule (by rw [hcur]; exact h.inv.ne_zero _ h.inv.current) hret hrun with
      hcur' | ⟨hold, -⟩ | rfl
    · exact hcur'
    · exact absurd hold hnone
    · exact absurd hrun hnone
  | destroyProcess hu =>
    simp only [hu.data p] at hrun
    rw [hu.currentProcess]
    exact h.current p hp hrun

/-- At most one process runs, and it is the current one. -/
structure SoleRunning (y : ProcessSystem) : Prop where
  current : ∀ p ∈ y.created, (y.kernel.procs p).state = .running → p = y.kernel.currentProcess
  unique : ∀ p ∈ y.created, ∀ q ∈ y.created, (y.kernel.procs p).state = .running →
    (y.kernel.procs q).state = .running → p = q

theorem OnlyCurrentRuns.soleRunning {y : ProcessSystem} (h : OnlyCurrentRuns y) :
    SoleRunning y where
  current := h.current
  unique p hp q hq hrp hrq := (h.current p hp hrp).trans (h.current q hq hrq).symm

/-- After every run at most one of all the processes ever created is running, and if there is
one it is the current process. -/
theorem running_is_current {tr : List (ProcessSystem × ProcessOp)} {y : ProcessSystem}
    (hrun : Run ProcessBoot ProcessStep tr y) : SoleRunning y := by
  have hinv := hrun.inv OnlyCurrentRuns (fun _ => onlyCurrentRuns_of_boot)
    fun _ _ _ h hstep => h.step hstep
  exact hinv.soleRunning

/-- After two switches among three processes the last one switched to runs. -/
theorem running_is_current_switched : ∃ tr y, Run ProcessBoot ProcessStep tr y ∧
    (y.created = [0x30A110, 0x308088, 0x306000] ∧ y.kernel.currentProcess = 0x308088 ∧
      (y.kernel.procs 0x308088).state = .running) ∧ SoleRunning y := by
  obtain ⟨tr, y, hrun, hstates⟩ := exists_processRun ProcessBoot
    (processBoot_started beforeProcessInit_bootKernel)
    [.createProcess kernelName 0 true, .createProcess kernelName 0 true, .schedule 0, .schedule 0]
    (fun _ y => y.created = [0x30A110, 0x308088, 0x306000] ∧
      y.kernel.currentProcess = 0x308088 ∧ (y.kernel.procs 0x308088).state = .running)
    (by decide +kernel)
  exact ⟨tr, y, hrun, hstates, running_is_current hrun⟩

end KyroKernel
