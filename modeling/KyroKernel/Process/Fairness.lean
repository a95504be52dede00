import KyroKernel.Process.ProcessList
import KyroKernel.Process.Scheduling

/-!
# Round robin

In runs of `schedule`, `create_process` and `fork` every process but the current one is
ready, so `schedule` always switches to the next process around the list. New processes
enter the list at its head. Between two turns of a process every other process that was in
the list at the start of the first turn has exactly one turn.
-/

namespace KyroKernel

open Foundations

/-- The calls of a fair run. -/
def ProcessOp.IsFair : ProcessOp → Prop
  | .createProcess .. => True
  | .fork => True
  | .schedule _ => True
  | .exit _ => False
  | .destroyProcess _ => False

/-- The invariant of fair runs: nobody was destroyed, and everybody but the current process
is ready. -/
structure FairInv (y : ProcessSystem) : Prop where
  inv : ProcessInv y
  destroyed : y.destroyed = []
  ready : ∀ p ∈ y.created, p ≠ y.kernel.currentProcess → (y.kernel.procs p).state = .ready

theorem FairInv.live_eq {y : ProcessSystem} (h : FairInv y) : y.live = y.created := by
  unfold ProcessSystem.live
  rw [h.destroyed]
  simp

theorem FairInv.current_mem {y : ProcessSystem} (h : FairInv y) :
    y.kernel.currentProcess ∈ y.live := by
  rw [h.live_eq]
  exact h.inv.current

theorem FairInv.nodup {y : ProcessSystem} (h : FairInv y) : y.live.Nodup :=
  h.inv.chain.nodup

/-- The scheduler's next process is the next one around the list. -/
theorem FairInv.ringNext_eq {y : ProcessSystem} (h : FairInv y) :
    ringNext y.live y.kernel.currentProcess =
      some (y.kernel.nextOrHead y.kernel.currentProcess) :=
  ringNext_nextOrHead h.inv.chain h.current_mem

/-- `schedule` stops at once, at the next process around the list. -/
theorem FairInv.not_passedOver {s : KernelState} {c d : List Word} (h : FairInv ⟨s, c, d⟩) :
    ¬ PassedOver s (s.nextOrHead s.currentProcess) := by
  rintro ⟨hne, hstate, hcur⟩
  have hmem := (h.inv.nextOrHead_mem h.inv.current).resolve_left hne
  exact hstate (h.ready _ hmem hcur)

theorem FairInv.schedule_cases {s s' : KernelState} {c d : List Word} {esp : Word} {fuel : Nat}
    (h : FairInv ⟨s, c, d⟩) (hret : schedule s esp fuel = some s') :
    Switched s s' (s.nextOrHead s.currentProcess) ∨
      (s' = s ∧ s.nextOrHead s.currentProcess = s.currentProcess) := by
  obtain ⟨vs, r, hpath, hall, hout⟩ := schedule_spec (h.inv.ne_zero _ h.inv.current) hret
  have hr : s.nextOrHead s.currentProcess = r :=
    hpath.eq_or_mem.resolve_right fun hmem => h.not_passedOver (hall _ hmem)
  have hlive : r ∈ c := hr ▸ ProcessInv.live_subset (h.inv.nextOrHead_live h.current_mem)
  rw [hr]
  exact hout.imp id fun ⟨hsame, hor⟩ => ⟨hsame, hor.resolve_left (h.inv.ne_zero r hlive)⟩

/-- `schedule` returns in every state of a fair run. -/
theorem FairInv.schedule_returns {s : KernelState} {c d : List Word} (h : FairInv ⟨s, c, d⟩)
    (esp : Word) : ∃ fuel s', schedule s esp fuel = some s' :=
  KyroKernel.schedule_returns esp (.here _) (by simp) h.not_passedOver

theorem fairInv_of_boot {y : ProcessSystem} (h : ProcessBoot y) : FairInv y := by
  have hinv := processInv_of_boot h
  obtain ⟨s, -, rfl⟩ := h
  refine ⟨hinv, rfl, fun p hp hne => ?_⟩
  exact absurd (List.mem_singleton.mp hp) hne

theorem FairInv.of_newProcess {y y' : ProcessSystem} {proc : Word} (h : FairInv y)
    (hinv' : ProcessInv y') (hnew : NewProcess y.kernel y'.kernel proc)
    (hcreated : y'.created = proc :: y.created) (hdestroyed : y'.destroyed = y.destroyed) :
    FairInv y' := by
  refine ⟨hinv', hdestroyed.trans h.destroyed, fun p hp hne => ?_⟩
  rw [hcreated] at hp
  rw [hnew.currentProcess] at hne
  rcases List.mem_cons.mp hp with rfl | hold
  · exact hnew.state
  · rw [hnew.others p (h.inv.ne_newProcess hnew p hold)]
    exact h.ready p hold hne

theorem FairInv.of_switched {s s' : KernelState} {c d : List Word} {next : Word}
    (h : FairInv ⟨s, c, d⟩) (hsw : Switched s s' next) (hnext : next ∈ c) :
    FairInv ⟨s', c, d⟩ := by
  refine ⟨h.inv.of_switched hsw hnext, h.destroyed, fun p hp hne => ?_⟩
  simp only [hsw.currentProcess] at hne
  by_cases hpc : p = s.currentProcess
  · rw [hpc]
    exact hsw.state_prev
  · rw [hsw.state p hne hpc]
    exact h.ready p hp hpc

/-- What a fair step does: it adds a process, or gives the turn to the next process around
the list, or changes nothing. -/
theorem FairInv.step_cases {y y' : ProcessSystem} {op : ProcessOp} (h : FairInv y)
    (hstep : ProcessStep y op y') (hop : op.IsFair) :
    FairInv y' ∧
      ((∃ p, p ∉ y.created ∧ y'.live = p :: y.live ∧ y'.created = p :: y.created ∧
          y'.kernel.currentProcess = y.kernel.currentProcess ∧
          y'.kernel.switches = y.kernel.switches) ∨
        (∃ next, ringNext y.live y.kernel.currentProcess = some next ∧ y'.live = y.live ∧
          y'.created = y.created ∧ y'.kernel.currentProcess = next ∧
          y'.kernel.switches = (y.kernel.currentProcess, next) :: y.kernel.switches) ∨
        y' = y) := by
  cases h.inv.effect hstep with
  | failed => exact ⟨h, .inr (.inr rfl)⟩
  | @added _ _ proc _ hnew hcreated hdestroyed =>
    have hfair := h.of_newProcess (processInv_step h.inv hstep) hnew hcreated hdestroyed
    have hfresh : proc ∉ y.created := fun hmem => h.inv.ne_newProcess hnew proc hmem rfl
    refine ⟨hfair, .inl ⟨proc, hfresh, ?_, hcreated, hnew.currentProcess, hnew.switches⟩⟩
    rw [hfair.live_eq, h.live_eq, hcreated]
  | schedule hret =>
    rcases h.schedule_cases hret with hsw | ⟨rfl, -⟩
    · have hmem := (h.inv.nextOrHead_mem h.inv.current).resolve_left hsw.ne_zero
      exact ⟨h.of_switched hsw hmem, .inr (.inl ⟨_, h.ringNext_eq, rfl, rfl, hsw.currentProcess,
        hsw.switches⟩)⟩
    · exact ⟨h, .inr (.inr rfl)⟩
  | exit => exact hop.elim
  | destroyProcess => exact hop.elim

/-! ## Between two turns -/

/-- The processes switched to, latest first. -/
def targets (switches : List (Word × Word)) : List Word := switches.map Prod.snd

/-- How far a run from `y₁` on has come when `p` was current in `y₁`: as long as nothing
switched back to `p`, every other process that was live has had its turn or is ahead, and
not both; when something has, every other process has had its turn. -/
structure TurnOf (p : Word) (y₁ y : ProcessSystem) : Prop where
  fair : FairInv y
  created : ∀ q ∈ y₁.live, q ∈ y.created
  since : ∃ new, y.kernel.switches = new ++ y₁.kernel.switches
  away : ∀ new, y.kernel.switches = new ++ y₁.kernel.switches → p ∉ targets new →
    ∃ ahead, Ahead p y.live y.kernel.currentProcess ahead ∧
      ∀ q ∈ y₁.live, q ≠ p → (targets new).count q + ahead.count q = 1
  back : ∀ sw new, y.kernel.switches = (sw :: new) ++ y₁.kernel.switches → sw.2 = p →
    p ∉ targets new → ∀ q ∈ y₁.live, q ≠ p → (targets new).count q = 1

theorem turnOf_start {y₁ : ProcessSystem} (h : FairInv y₁) :
    TurnOf y₁.kernel.currentProcess y₁ y₁ := by
  refine ⟨h, fun q hq => ?_, ⟨[], rfl⟩, fun new hnew _ => ?_, fun sw new hnew => ?_⟩
  · rw [← h.live_eq]
    exact hq
  · obtain rfl : new = [] := List.self_eq_append_left.mp hnew
    obtain ⟨ahead, hahead, hcount⟩ := Ahead.start h.current_mem h.nodup
    exact ⟨ahead, hahead, fun q hq hne => by simpa [targets] using hcount q hq hne⟩
  · exact absurd (List.self_eq_append_left.mp hnew) (by simp)

theorem TurnOf.step {p : Word} {y₁ y y' : ProcessSystem} {op : ProcessOp} (h : TurnOf p y₁ y)
    (hstep : ProcessStep y op y') (hop : op.IsFair) : TurnOf p y₁ y' := by
  obtain ⟨hfair, ⟨x, hx, hlive, hcreated, hcur, hsw⟩ |
    ⟨next, hnext, hlive, hcreated, hcur, hsw⟩ | rfl⟩ := h.fair.step_cases hstep hop
  · -- A new process: it is at most put ahead.
    have hother : ∀ q ∈ y₁.live, q ≠ x := by
      rintro q hq rfl
      exact hx (h.created q hq)
    refine ⟨hfair, fun q hq => ?_, ?_, fun new hnew hp => ?_, ?_⟩
    · rw [hcreated]
      exact List.mem_cons_of_mem _ (h.created q hq)
    · rw [hsw]
      exact h.since
    · rw [hsw] at hnew
      obtain ⟨ahead, hahead, hcount⟩ := h.away new hnew hp
      obtain ⟨ahead', hahead', hsame⟩ := hahead.insert x
      rw [hlive, hcur]
      refine ⟨ahead', hahead', fun q hq hne => ?_⟩
      rw [hsame q (hother q hq)]
      exact hcount q hq hne
    · rw [hsw]
      exact h.back
  · -- A switch: it goes to the first process ahead, or back to `p` when none is left.
    obtain ⟨old, hold⟩ := h.since
    have hcancel : ∀ sw new, y'.kernel.switches = (sw :: new) ++ y₁.kernel.switches →
        sw = (y.kernel.currentProcess, next) ∧ new = old := by
      intro sw new hnew
      rw [hsw, hold, List.cons_append] at hnew
      obtain ⟨h1, h2⟩ := List.cons.inj hnew
      exact ⟨h1.symm, (List.append_cancel_right h2).symm⟩
    refine ⟨hfair, fun q hq => ?_, ⟨(y.kernel.currentProcess, next) :: old, ?_⟩,
      fun new hnew hp => ?_, fun sw new hnew hback hp => ?_⟩
    · rw [hcreated]
      exact h.created q hq
    · rw [hsw, hold, List.cons_append]
    · cases new with
      | nil =>
        -- The list of switches has grown.
        rw [hsw, hold] at hnew
        have hlen := congrArg List.length hnew
        simp only [List.nil_append, List.length_cons, List.length_append] at hlen
        omega
      | cons sw new =>
        obtain ⟨rfl, rfl⟩ := hcancel sw new hnew
        obtain ⟨hpn, hp'⟩ := not_or.mp (fun hor => hp (List.mem_cons.mpr hor))
        obtain ⟨ahead, hahead, hcount⟩ := h.away new hold hp'
        have hring := hahead.next_eq h.fair.nodup
        rw [hnext] at hring
        cases ahead with
        | nil => exact absurd (Option.some.inj hring).symm hpn
        | cons a ahead =>
          obtain rfl : next = a := Option.some.inj hring
          rw [hlive, hcur]
          refine ⟨ahead, hahead.step, fun q hq hne => ?_⟩
          have hq1 := hcount q hq hne
          -- The head of what is ahead moves over to what is done.
          simp only [targets, List.map_cons, List.count_cons] at hq1 ⊢
          omega
    · obtain ⟨rfl, rfl⟩ := hcancel sw new hnew
      obtain ⟨ahead, hahead, hcount⟩ := h.away new hold hp
      have hring := hahead.next_eq h.fair.nodup
      have hnot := hahead.not_mem h.fair.nodup
      rw [hnext] at hring
      cases ahead with
      | nil => exact fun q hq hne => by simpa using hcount q hq hne
      | cons a ahead =>
        -- `p` is not ahead, so the switch did not go to it.
        obtain rfl : next = a := Option.some.inj hring
        obtain rfl : next = p := hback
        exact absurd List.mem_cons_self hnot
  · exact h

theorem fairInv_run {tr : List (ProcessSystem × ProcessOp)} {y : ProcessSystem}
    (hrun : Run ProcessBoot ProcessStep tr y) (hops : ∀ p ∈ tr, p.2.IsFair) : FairInv y :=
  hrun.inv_of_guard FairInv (fun _ op => op.IsFair) (fun _ => fairInv_of_boot)
    (fun _ _ _ h hop hstep => (h.step_cases hstep hop).1) hops

theorem turnOf_run {y₁ y : ProcessSystem} {post : List (ProcessSystem × ProcessOp)}
    (h : FairInv y₁) (hrun : Run (· = y₁) ProcessStep post y)
    (hops : ∀ p ∈ post, p.2.IsFair) : TurnOf y₁.kernel.currentProcess y₁ y := by
  apply hrun.inv_of_guard (TurnOf y₁.kernel.currentProcess y₁) (fun _ op => op.IsFair) _ _ hops
  · rintro _ rfl
    exact turnOf_start h
  · exact fun _ _ _ hturn hop hstep => hturn.step hstep hop

/-- Round robin starves nobody, also while processes are created. Take two moments of a run
of `schedule`, `create_process` and `fork` at which the same process is switched to, with
no switch to it in between: every other process that was on the list at the first moment is
switched to exactly once in between. -/
theorem roundRobin_fair {pre post : List (ProcessSystem × ProcessOp)} {y₁ y : ProcessSystem}
    (hpre : Run ProcessBoot ProcessStep pre y₁) (hpost : Run (· = y₁) ProcessStep post y)
    (hops : ∀ p ∈ post ++ pre, p.2.IsFair) {sw : Word × Word} {between : List (Word × Word)}
    (hswitches : y.kernel.switches = (sw :: between) ++ y₁.kernel.switches)
    (hback : sw.2 = y₁.kernel.currentProcess)
    (hfirst : y₁.kernel.currentProcess ∉ targets between) :
    ∀ q, OnProcessList y₁.kernel q → q ≠ y₁.kernel.currentProcess →
      (targets between).count q = 1 := by
  have hfair₁ := fairInv_run hpre fun p hp => hops p (List.mem_append_right _ hp)
  have hturn := turnOf_run hfair₁ hpost fun p hp => hops p (List.mem_append_left _ hp)
  intro q hq hne
  have hlive := (hfair₁.inv.onProcessList_iff q).mp hq
  exact hturn.back sw between hswitches hback hfirst q hlive hne

/-- In a list of two the second process has its turn between two turns of the first. -/
theorem roundRobin_fair_pairSystem : ∃ (y₁ y : ProcessSystem)
    (post : List (ProcessSystem × ProcessOp)) (between : List (Word × Word)),
    Run (· = y₁) ProcessStep post y ∧
      y.kernel.switches = ((0x308088, 0x306000) :: between) ++ y₁.kernel.switches ∧
      (targets between).count 0x308088 = 1 := by
  obtain ⟨s, hs, hboot⟩ := exists_firstSystem
  have hpre := run_pairSystem hs hboot
  obtain ⟨hcur, hlist, hhead, hlast, -⟩ := pairKernel_links hs
  have hfair : FairInv (pairSystem s) := fairInv_run hpre (by simp [ProcessOp.IsFair])
  have hnext : (pairKernel s).nextOrHead (pairKernel s).currentProcess = 0x308088 := by
    unfold KernelState.nextOrHead
    rw [hcur, hlast, if_pos rfl, hlist]
  -- The first `schedule` switches to the second process.
  obtain ⟨fuel₁, s₁, hret₁⟩ := hfair.schedule_returns 0
  have hsw₁ : Switched (pairKernel s) s₁ 0x308088 := by
    rw [← hnext]
    refine (hfair.schedule_cases hret₁).resolve_right fun hsame => ?_
    rw [hnext, hcur] at hsame
    exact absurd hsame.2 (by decide)
  have hfair₁ := hfair.of_switched hsw₁ (by simp)
  have hback : s₁.nextOrHead s₁.currentProcess = 0x306000 := by
    unfold KernelState.nextOrHead
    rw [hsw₁.currentProcess, hsw₁.links.next, hhead, if_neg (by decide)]
  -- The second one switches back.
  obtain ⟨fuel₂, s₂, hret₂⟩ := hfair₁.schedule_returns 0
  have hsw₂ : Switched s₁ s₂ 0x306000 := by
    rw [← hback]
    refine (hfair₁.schedule_cases hret₂).resolve_right fun hsame => ?_
    rw [hback, hsw₁.currentProcess] at hsame
    exact absurd hsame.2 (by decide)
  have hpost : Run (· = pairSystem s) ProcessStep
      [(⟨s₁, [0x308088, 0x306000], []⟩, .schedule 0), (pairSystem s, .schedule 0)]
      ⟨s₂, [0x308088, 0x306000], []⟩ :=
    .snoc (.snoc (.start rfl) (.schedule hret₁)) (.schedule hret₂)
  have hswitches : s₂.switches =
      ((0x308088, 0x306000) :: [(0x306000, 0x308088)]) ++ (pairKernel s).switches := by
    rw [hsw₂.switches, hsw₁.switches, hsw₁.currentProcess, hcur]
    rfl
  have hon : OnProcessList (pairKernel s) 0x308088 :=
    (hfair.inv.onProcessList_iff _).mpr (by simp [pairSystem])
  refine ⟨pairSystem s, _, _, _, hpost, hswitches,
    roundRobin_fair hpre hpost ?_ hswitches hcur.symm ?_ _ hon ?_⟩
  · simp [ProcessOp.IsFair]
  · simp only [pairSystem, hcur]
    decide
  · simp only [pairSystem, hcur]
    decide

end KyroKernel
