import KyroKernel.Process.ProcessList

/-!
# Terminated processes

`exit` sets the state of the current process to `PROCESS_TERMINATED` and calls `schedule`,
which sets it to `PROCESS_READY` when it switches away. So a terminated process stays
terminated exactly as long as `schedule` finds nobody to switch to.
-/

namespace KyroKernel

open Foundations

/-! ## What the scheduler sees -/

/-- Going around the list from the current process one meets a ready process before one
comes back to the current process or finds the list empty. -/
def ReadyAhead (s : KernelState) : Prop :=
  ∃ vs q, Passes s.nextOrHead (s.nextOrHead s.currentProcess) vs q ∧
    (∀ v ∈ vs, v ≠ 0 ∧ v ≠ s.currentProcess) ∧
    q ≠ 0 ∧ q ≠ s.currentProcess ∧ (s.procs q).state = .ready

/-- `schedule` switches exactly when a ready process is ahead. -/
theorem schedule_cases {s s' : KernelState} {esp : Word} {fuel : Nat}
    (hcur : s.currentProcess ≠ 0) (hret : schedule s esp fuel = some s') :
    (ReadyAhead s ∧ ∃ r, Switched s s' r) ∨ (¬ ReadyAhead s ∧ s' = s) := by
  obtain ⟨vs, r, hpath, hall, hsw | ⟨rfl, hr⟩⟩ := schedule_spec hcur hret
  · left
    refine ⟨⟨vs, r, hpath, fun v hv => ?_, hsw.ne_zero, hsw.ne_current, hsw.ready⟩, r, hsw⟩
    exact ⟨(hall v hv).1, (hall v hv).2.2⟩
  · refine .inr ⟨?_, rfl⟩
    rintro ⟨ws, q, hq, hws, hq0, hqc, hready⟩
    -- Both walks start at the same place, so one is the start of the other.
    rcases Nat.le_total vs.length ws.length with hle | hle
    · obtain ⟨us, rfl, hus⟩ := hpath.rest_of_le hq hle
      have hrne : r ≠ 0 ∧ r ≠ s'.currentProcess := by
        rcases hus.eq_or_mem with rfl | hmem
        · exact ⟨hq0, hqc⟩
        · exact hws r (List.mem_append_right _ hmem)
      exact hr.elim hrne.1 hrne.2
    · obtain ⟨us, rfl, hus⟩ := hq.rest_of_le hpath hle
      rcases hus.eq_or_mem with rfl | hmem
      · exact hr.elim hq0 hqc
      · exact (hall q (List.mem_append_right _ hmem)).2.1 hready

/-- Who is ahead does not depend on the state of the current process. -/
theorem readyAhead_congr {s t : KernelState} (hlinks : SameLinks s t)
    (hcur : t.currentProcess = s.currentProcess)
    (hstate : ∀ q, q ≠ s.currentProcess → (t.procs q).state = (s.procs q).state) :
    ReadyAhead t ↔ ReadyAhead s := by
  have hnext : t.nextOrHead = s.nextOrHead := by
    funext q
    unfold KernelState.nextOrHead
    rw [hlinks.next, hlinks.processList]
  unfold ReadyAhead
  rw [hnext, hcur]
  constructor
  · rintro ⟨vs, q, hpath, hall, hq0, hqc, hready⟩
    exact ⟨vs, q, hpath, hall, hq0, hqc, (hstate q hqc).symm.trans hready⟩
  · rintro ⟨vs, q, hpath, hall, hq0, hqc, hready⟩
    exact ⟨vs, q, hpath, hall, hq0, hqc, (hstate q hqc).trans hready⟩

/-! ## The claim about a run -/

/-- The call is `exit`. -/
def ProcessOp.IsExit (op : ProcessOp) : Prop := ∃ esp, op = .exit esp

/-- From every call of `exit` on, the process that made it is neither ready nor running in
any state of the run, and nothing switches to it. -/
def StaysTerminated (tr : List (ProcessSystem × ProcessOp)) (y : ProcessSystem) : Prop :=
  ∀ post p pre, tr = post ++ p :: pre → p.2.IsExit →
    (∀ z ∈ Run.states post y, (z.kernel.procs p.1.kernel.currentProcess).state ≠ .ready ∧
      (z.kernel.procs p.1.kernel.currentProcess).state ≠ .running) ∧
    ∀ q ∈ switchedTo p.1.kernel y.kernel, q ≠ p.1.kernel.currentProcess

/-- The call gives a terminated process back to the scheduler: `exit`, or `schedule` with a
terminated current process, while a ready process is ahead. -/
def Revives (s : KernelState) (op : ProcessOp) : Prop :=
  ReadyAhead s ∧
    (op.IsExit ∨ (∃ esp, op = .schedule esp) ∧ (s.procs s.currentProcess).state = .terminated)

/-- The process `proc` is current and terminated. -/
structure StuckOn (proc : Word) (y : ProcessSystem) : Prop where
  inv : ProcessInv y
  current : y.kernel.currentProcess = proc
  state : (y.kernel.procs proc).state = .terminated

/-- The state of `exit` when it calls `schedule`. -/
theorem ProcessInv.exitCurrent_state {s : KernelState} {c d : List Word}
    (h : ProcessInv ⟨s, c, d⟩) :
    (exitCurrent s).currentProcess = s.currentProcess ∧
      (exitCurrent s).switches = s.switches ∧
      ((exitCurrent s).procs s.currentProcess).state = .terminated ∧
      (∀ q, q ≠ s.currentProcess → ((exitCurrent s).procs q).state = (s.procs q).state) ∧
      (ReadyAhead (exitCurrent s) ↔ ReadyAhead s) := by
  rw [h.exitCurrent_eq]
  have hother : ∀ q, q ≠ s.currentProcess →
      ((s.modify s.currentProcess (·.setState .terminated)).procs q).state =
        (s.procs q).state := by
    intro q hq
    rw [modify_procs_of_ne hq]
  refine ⟨rfl, rfl, ?_, hother, readyAhead_congr (modify_sameLinks s _ rfl rfl rfl) rfl hother⟩
  rw [modify_procs_self]
  rfl

/-- `exit` with nobody ahead leaves the caller current and terminated. -/
theorem stuckOn_of_exit {y y' : ProcessSystem} {op : ProcessOp} (h : ProcessInv y)
    (hstep : ProcessStep y op y') (hop : op.IsExit) (hnot : ¬ ReadyAhead y.kernel) :
    StuckOn y.kernel.currentProcess y' ∧ y'.kernel.switches = y.kernel.switches := by
  have hinv' := processInv_step h hstep
  obtain ⟨esp, rfl⟩ := hop
  cases hstep with
  | @exit s s' c d _ fuel hret =>
    rw [h.exit_eq] at hret
    obtain ⟨hcur, hsw, hstate, -, hahead⟩ := h.exitCurrent_state
    have hne : (exitCurrent s).currentProcess ≠ 0 := by
      rw [hcur]
      exact h.ne_zero _ h.current
    rcases schedule_cases hne hret with ⟨hyes, -⟩ | ⟨-, rfl⟩
    · exact absurd (hahead.mp hyes) hnot
    · exact ⟨⟨hinv', hcur, hstate⟩, hsw⟩

/-- `exit` with a ready process ahead makes the caller ready again. -/
theorem ready_of_exit {y y' : ProcessSystem} {op : ProcessOp} (h : ProcessInv y)
    (hstep : ProcessStep y op y') (hop : op.IsExit) (hahead : ReadyAhead y.kernel) :
    (y'.kernel.procs y.kernel.currentProcess).state = .ready := by
  obtain ⟨esp, rfl⟩ := hop
  cases hstep with
  | @exit s s' c d _ fuel hret =>
    rw [h.exit_eq] at hret
    obtain ⟨hcur, -, -, -, hiff⟩ := h.exitCurrent_state
    have hne : (exitCurrent s).currentProcess ≠ 0 := by
      rw [hcur]
      exact h.ne_zero _ h.current
    rcases schedule_cases hne hret with ⟨-, r, hsw⟩ | ⟨hno, -⟩
    · have hprev := hsw.state_prev
      rw [hcur] at hprev
      exact hprev
    · exact absurd (hiff.mpr hahead) hno

/-- A step that revives nobody leaves a terminated current process where it is. -/
theorem StuckOn.step {proc : Word} {y y' : ProcessSystem} {op : ProcessOp} (h : StuckOn proc y)
    (hstep : ProcessStep y op y') (hnot : ¬ Revives y.kernel op) :
    StuckOn proc y' ∧ y'.kernel.switches = y.kernel.switches := by
  have hinv' := processInv_step h.inv hstep
  obtain ⟨hinv, hcur, hstate⟩ := h
  cases hinv.effect hstep with
  | failed => exact ⟨⟨hinv, hcur, hstate⟩, rfl⟩
  | added _ hnew =>
    -- A new process is another one than the current process.
    have hne := hinv.ne_newProcess hnew proc (hcur ▸ hinv.current)
    refine ⟨⟨hinv', hnew.currentProcess.trans hcur, ?_⟩, hnew.switches⟩
    rw [hnew.others proc hne]
    exact hstate
  | @schedule s' esp fuel hret =>
    rcases schedule_cases (hinv.ne_zero _ hinv.current) hret with ⟨hyes, -⟩ | ⟨-, rfl⟩
    · refine absurd ⟨hyes, .inr ⟨⟨esp, rfl⟩, ?_⟩⟩ hnot
      rw [hcur]
      exact hstate
    · exact ⟨⟨hinv, hcur, hstate⟩, rfl⟩
  | @exit s' esp fuel hret =>
    have hahead : ¬ ReadyAhead y.kernel := fun hyes => hnot ⟨hyes, .inl ⟨esp, rfl⟩⟩
    obtain ⟨hstuck, hsw⟩ := stuckOn_of_exit hinv hstep ⟨esp, rfl⟩ hahead
    rw [hcur] at hstuck
    exact ⟨hstuck, hsw⟩
  | destroyProcess hu =>
    refine ⟨⟨hinv', hu.currentProcess.trans hcur, ?_⟩, hu.switches⟩
    simp only [hu.data proc]
    exact hstate

/-- From a call of `exit` on, when no step revives anybody, the caller is stuck. -/
theorem stuckOn_states {post pre : List (ProcessSystem × ProcessOp)}
    {p : ProcessSystem × ProcessOp} {y : ProcessSystem}
    (hrun : Run ProcessBoot ProcessStep (post ++ p :: pre) y) (hop : p.2.IsExit)
    (hguard : ∀ q ∈ post ++ p :: pre, ¬ Revives q.1.kernel q.2) :
    (∀ z ∈ Run.states post y, StuckOn p.1.kernel.currentProcess z) ∧
      y.kernel.switches = p.1.kernel.switches := by
  induction post generalizing y with
  | nil =>
    have hnot : ¬ ReadyAhead p.1.kernel := fun hyes => hguard p (by simp) ⟨hyes, .inl hop⟩
    obtain ⟨hstuck, hsw⟩ := stuckOn_of_exit (processInv_run hrun.tail) hrun.last hop hnot
    exact ⟨by simpa [Run.states] using hstuck, hsw⟩
  | cons q post ih =>
    obtain ⟨hhd, htl⟩ := List.forall_mem_cons.mp hguard
    obtain ⟨hall, hsw⟩ := ih hrun.tail htl
    obtain ⟨hstuck, hsw'⟩ := (hall q.1 List.mem_cons_self).step hrun.last hhd
    exact ⟨List.forall_mem_cons.mpr ⟨hstuck, hall⟩, hsw'.trans hsw⟩

/-! ## Who is terminated -/

/-- `schedule` terminates nobody. -/
theorem terminated_of_schedule {s s' : KernelState} {esp : Word} {fuel : Nat}
    (hcur : s.currentProcess ≠ 0) (hret : schedule s esp fuel = some s') {q : Word}
    (hterm : (s'.procs q).state = .terminated) : (s.procs q).state = .terminated := by
  rcases schedule_cases hcur hret with ⟨-, r, hsw⟩ | ⟨-, rfl⟩
  · have hqr : q ≠ r := by
      rintro rfl
      rw [hsw.state_next] at hterm
      cases hterm
    have hqc : q ≠ s.currentProcess := by
      rintro rfl
      rw [hsw.state_prev] at hterm
      cases hterm
    rwa [hsw.state q hqr hqc] at hterm
  · exact hterm

/-- Only `exit` terminates a process, and only the current one. -/
theorem terminated_of_step {y y' : ProcessSystem} {op : ProcessOp} (h : ProcessInv y)
    (hstep : ProcessStep y op y') {q : Word} (hq : q ∈ y'.created)
    (hterm : (y'.kernel.procs q).state = .terminated) :
    (q ∈ y.created ∧ (y.kernel.procs q).state = .terminated) ∨
      (op.IsExit ∧ q = y.kernel.currentProcess) := by
  cases h.effect hstep with
  | failed => exact .inl ⟨hq, hterm⟩
  | @added _ _ proc _ hnew hcreated _ =>
    -- The new process is ready, and the others keep their states.
    have hne : q ≠ proc := by
      rintro rfl
      rw [hnew.state] at hterm
      cases hterm
    rw [hcreated] at hq
    rw [hnew.others q hne] at hterm
    exact .inl ⟨(List.mem_cons.mp hq).resolve_left hne, hterm⟩
  | schedule hret => exact .inl ⟨hq, terminated_of_schedule (h.ne_zero _ h.current) hret hterm⟩
  | @exit s' esp fuel hret =>
    obtain ⟨hcur, -, -, hother, -⟩ := h.exitCurrent_state
    have hst := terminated_of_schedule (by rw [hcur]; exact h.ne_zero _ h.current) hret hterm
    by_cases hqc : q = y.kernel.currentProcess
    · exact .inr ⟨⟨esp, rfl⟩, hqc⟩
    · rw [hother q hqc] at hst
      exact .inl ⟨hq, hst⟩
  | destroyProcess hu =>
    simp only [hu.data q] at hterm
    exact .inl ⟨hq, hterm⟩

/-- Every terminated process has called `exit`. -/
theorem exists_exit {tr : List (ProcessSystem × ProcessOp)} {y : ProcessSystem}
    (hrun : Run ProcessBoot ProcessStep tr y) {q : Word} (hq : q ∈ y.created)
    (hterm : (y.kernel.procs q).state = .terminated) :
    ∃ p ∈ tr, p.2.IsExit ∧ p.1.kernel.currentProcess = q := by
  induction hrun with
  | start hinit =>
    -- The first process is running.
    obtain ⟨s, hb, rfl⟩ := hinit
    have hs := processInit_spec hb
    simp only [hs.currentProcess] at hq hterm
    obtain rfl := List.mem_singleton.mp hq
    rw [hs.state] at hterm
    cases hterm
  | snoc hrun hstep ih =>
    rcases terminated_of_step (processInv_run hrun) hstep hq hterm with ⟨hold, hst⟩ | ⟨hop, rfl⟩
    · obtain ⟨p, hp, hexit⟩ := ih hold hst
      exact ⟨p, List.mem_cons_of_mem _ hp, hexit⟩
    · exact ⟨_, List.mem_cons_self, hop, rfl⟩

/-- A step that revives the current process leaves it ready. -/
theorem ready_of_revives {y y' : ProcessSystem} {op : ProcessOp} (h : ProcessInv y)
    (hstep : ProcessStep y op y') (hrev : Revives y.kernel op) :
    (y'.kernel.procs y.kernel.currentProcess).state = .ready := by
  obtain ⟨hahead, hexit | ⟨⟨esp, rfl⟩, -⟩⟩ := hrev
  · exact ready_of_exit h hstep hexit hahead
  · cases hstep with
    | schedule hret =>
      rcases schedule_cases (h.ne_zero _ h.current) hret with ⟨-, r, hsw⟩ | ⟨hno, -⟩
      · exact hsw.state_prev
      · exact absurd hahead hno

/-- A process that called `exit` never becomes ready or running again, and is never
switched to, exactly in the runs in which no step gives a terminated process back to the
scheduler. -/
theorem staysTerminated_iff {tr : List (ProcessSystem × ProcessOp)} {y : ProcessSystem}
    (hrun : Run ProcessBoot ProcessStep tr y) :
    StaysTerminated tr y ↔ ∀ p ∈ tr, ¬ Revives p.1.kernel p.2 := by
  constructor
  · intro hstays p hp hrev
    obtain ⟨post, pre, rfl⟩ := List.append_of_mem hp
    obtain ⟨z, hz, hafter⟩ := hrun.after_split
    have hinv := processInv_run hafter.tail
    have hready := ready_of_revives hinv hafter.last hrev
    obtain ⟨-, hexit | ⟨-, hterm⟩⟩ := id hrev
    · exact ((hstays post p pre rfl hexit).1 z hz).1 hready
    · -- The terminated process called `exit` before this step.
      obtain ⟨e, he, hexit, hwho⟩ := exists_exit hafter.tail hinv.current hterm
      obtain ⟨mid, pre, rfl⟩ := List.append_of_mem he
      have hsplit := hstays (post ++ p :: mid) e pre (by simp) hexit
      rw [hwho] at hsplit
      refine (hsplit.1 z ?_).1 hready
      unfold Run.states at hz ⊢
      simp only [List.map_append, List.mem_cons, List.mem_append] at hz ⊢
      tauto
  · rintro hguard post p pre rfl hexit
    obtain ⟨hall, hsw⟩ := stuckOn_states hrun hexit hguard
    refine ⟨fun z hz => ?_, fun q hq => ?_⟩
    · rw [(hall z hz).state]
      exact ⟨nofun, nofun⟩
    · rw [switchedTo_same hsw] at hq
      exact absurd hq List.not_mem_nil

/-- `schedule` called by `exit` returns when the walk from the current process ends at `r`
at once. -/
theorem ProcessInv.exit_returns {s : KernelState} {c d : List Word} (h : ProcessInv ⟨s, c, d⟩)
    (esp : Word) (hnot : ¬ PassedOver (exitCurrent s) (s.nextOrHead s.currentProcess)) :
    ∃ fuel s', exit s esp fuel = some s' := by
  have hcur := h.exitCurrent_state.1
  have hlinks : SameLinks s (exitCurrent s) := by
    rw [h.exitCurrent_eq]
    exact modify_sameLinks s _ rfl rfl rfl
  have hnext : (exitCurrent s).nextOrHead (exitCurrent s).currentProcess =
      s.nextOrHead s.currentProcess := by
    unfold KernelState.nextOrHead
    rw [hcur, hlinks.next, hlinks.processList]
  obtain ⟨fuel, s', hret⟩ := schedule_returns (s := exitCurrent s) esp (.here _)
    (by simp) (by rw [hnext]; exact hnot)
  refine ⟨fuel, s', ?_⟩
  rw [h.exit_eq]
  exact hret

/-- When the first of two processes exits, the other one is ready, and the first becomes
ready again at once. -/
theorem not_forall_staysTerminated : ¬ ∀ (tr : List (ProcessSystem × ProcessOp))
    (y : ProcessSystem), Run ProcessBoot ProcessStep tr y → StaysTerminated tr y := by
  intro hall
  obtain ⟨s, hs, hboot⟩ := exists_firstSystem
  have hrun := run_pairSystem hs hboot
  obtain ⟨hcur, hlist, -, hlast, hready⟩ := pairKernel_links hs
  have hinv : ProcessInv ⟨pairKernel s, [0x308088, 0x306000], []⟩ := processInv_run hrun
  have hwalk : (pairKernel s).nextOrHead (pairKernel s).currentProcess = 0x308088 := by
    unfold KernelState.nextOrHead
    rw [hcur, hlast, if_pos rfl, hlist]
  have hahead : ReadyAhead (pairKernel s) := by
    refine ⟨[], 0x308088, ?_, by simp, by decide, by rw [hcur]; decide, hready⟩
    rw [hwalk]
    exact .here _
  -- The walk of `exit` ends at the second process at once, because it is ready.
  obtain ⟨fuel, s', hret⟩ := hinv.exit_returns 0 (by
    rw [hwalk]
    rintro ⟨-, hnot, -⟩
    rw [hinv.exitCurrent_state.2.2.2.1 _ (by rw [hcur]; decide)] at hnot
    exact hnot hready)
  have hrun' := hrun.snoc (ProcessStep.exit hret)
  have hstay := hall _ _ hrun' [] _ _ rfl ⟨0, rfl⟩
  exact (hstay.1 _ List.mem_cons_self).1 (ready_of_exit hinv hrun'.last ⟨0, rfl⟩ hahead)

/-- A process that exits alone stays terminated. -/
theorem staysTerminated_iff_firstSystem :
    ∃ s y, Run ProcessBoot ProcessStep [(firstSystem s, .exit 0)] y ∧
      StaysTerminated [(firstSystem s, .exit 0)] y := by
  obtain ⟨s, hs, hboot⟩ := exists_firstSystem
  have hinv : ProcessInv ⟨s, [0x306000], []⟩ := processInv_of_boot hboot
  have hwalk : s.nextOrHead s.currentProcess = s.currentProcess := by
    unfold KernelState.nextOrHead
    rw [hs.currentProcess, hs.next, if_pos rfl, hs.processList]
  obtain ⟨fuel, s', hret⟩ := hinv.exit_returns 0 (by
    rw [hwalk]
    rintro ⟨-, -, hne⟩
    exact hne hinv.exitCurrent_state.1.symm)
  have hrun : Run ProcessBoot ProcessStep [(firstSystem s, .exit 0)] ⟨s', [0x306000], []⟩ :=
    .snoc (.start hboot) (.exit hret)
  refine ⟨s, _, hrun, (staysTerminated_iff hrun).mpr ?_⟩
  intro p hp
  obtain rfl := List.mem_singleton.mp hp
  rintro ⟨⟨vs, q, hpath, hvs, -, hqc, -⟩, -⟩
  -- The walk starts at the current process itself.
  have hpath' : Passes s.nextOrHead s.currentProcess vs q := hwalk ▸ hpath
  rcases hpath'.eq_or_mem with heq | hmem
  · exact hqc heq.symm
  · exact (hvs _ hmem).2 rfl

end KyroKernel
