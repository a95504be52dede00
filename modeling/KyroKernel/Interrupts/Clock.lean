import KyroKernel.Drivers.TimerRate
import KyroKernel.Interrupts.Guarantees

/-!
# The machine and its timer

The machine of interrupts, with the interval timer as the only thing that moves line 0. `kernel_init`
asks for 100 ticks a second; the output of the timer then goes up every 11931 pulses of its clock, and
`tick_count` counts that, but for the times when it goes down again with its interrupt still waiting.
-/

namespace KyroKernel

open Foundations

/-- The frequency that `kernel_init` sets. -/
def kernelTimerFrequency : Word := 100

/-- The machine, the counter of its timer, how many pulses the clock has made since `timer_init`, and
whether the output went up then. -/
structure TimedMachine where
  machine : Machine
  counter : PitCounter
  pulses : Nat
  rose : Bool

/-- A pulse of the clock, or any other step but a turn of the timer's output. -/
inductive TimedStep where
  | pulse
  | other (i : MachineStep)

/-- Line 0 follows the output of the counter. -/
def TimedMachine.pulse (y : TimedMachine) : TimedMachine :=
  { y with
    machine := if y.counter.pulse.out = y.counter.out then y.machine else y.machine.timer
    counter := y.counter.pulse
    pulses := y.pulses + 1 }

def TimedMachine.step (image : KernelImage) (y : TimedMachine) : TimedStep → Option TimedMachine
  | .pulse => some y.pulse
  | .other .timer => none
  | .other i => (y.machine.step image i).map fun m => { y with machine := m }

/-- After `kernel_init`, whatever the timer did before. -/
structure TimedMachine.Initial (leds : Byte) (y : TimedMachine) : Prop where
  machine : y.machine.Initial leds
  counter : ∃ t t', afterTimerInit t kernelTimerFrequency = some t' ∧ y.counter = t'.counter0 ∧
    y.rose = !t.counter0.out
  edges : y.machine.timerEdges = y.rose.toNat
  pulses : y.pulses = 0

abbrev TimedRun (image : KernelImage) (leds : Byte) (tr : List (TimedMachine × TimedStep))
    (y : TimedMachine) : Prop :=
  Run (TimedMachine.Initial leds) (fun y i y' => y.step image i = some y') tr y

variable {image : KernelImage} {leds : Byte} {m m' : Machine} {y y' : TimedMachine}
  {tr : List (TimedMachine × TimedStep)} {i : MachineStep} {n k : Nat}

theorem TimedMachine.step_other (image : KernelImage) (y : TimedMachine) (hi : i ≠ .timer) :
    y.step image (.other i) = (y.machine.step image i).map fun m => { y with machine := m } := by
  rw [TimedMachine.step]
  exact fun htimer => hi htimer

/-! ## §1 Edges of the timer -/

theorem timer_edges (m : Machine) :
    m.timer.timerHigh = !m.timerHigh ∧
      m.timer.timerEdges = m.timerEdges + (!m.timerHigh).toNat := by
  unfold Machine.timer
  cases hhigh : m.timerHigh <;> exact ⟨rfl, rfl⟩

/-- Nothing else moves the line. -/
theorem timerEdges_step (hi : i ≠ .timer) (h : m.step image i = some m') :
    m'.timerHigh = m.timerHigh ∧ m'.timerEdges = m.timerEdges := by
  cases i with
  | timer => exact absurd rfl hi
  | sti =>
    simp only [Machine.step, Machine.stepWith, Machine.sti] at h
    split at h
    · cases h
      exact ⟨rfl, rfl⟩
    · cases h
  | press value =>
    cases h
    exact ⟨rfl, rfl⟩
  | forward =>
    obtain ⟨c, -, rfl⟩ := Option.map_eq_some_iff.mp h
    exact ⟨rfl, rfl⟩
  | pass =>
    obtain ⟨c, -, rfl⟩ := Option.map_eq_some_iff.mp h
    exact ⟨rfl, rfl⟩
  | otherLine line up =>
    simp only [Machine.step, Machine.stepWith, Machine.otherLine] at h
    split at h
    · cases h
      exact ⟨rfl, rfl⟩
    · cases h
  | accept =>
    -- Whichever vector comes, only the controllers and the processor change.
    simp only [Machine.step, Machine.stepWith] at h
    split at h
    · cases h
      simp only [Machine.accept]
      split
      · split <;> exact ⟨rfl, rfl⟩
      · exact ⟨rfl, rfl⟩
    · cases h
  | operation =>
    simp only [Machine.step, Machine.stepWith, Machine.operation] at h
    split at h
    · cases h
      exact ⟨rfl, rfl⟩
    · obtain ⟨s, -, rfl⟩ := Option.map_eq_some_iff.mp h
      exact ⟨rfl, rfl⟩
    · cases h
  | getCall =>
    simp only [Machine.step, Machine.stepWith, Machine.getStep] at h
    split at h
    · obtain ⟨ring, -, rfl⟩ := Option.map_eq_some_iff.mp h
      exact ⟨rfl, rfl⟩
    · cases h
  | getStatement =>
    simp only [Machine.step, Machine.stepWith, Machine.getStep] at h
    split at h
    · obtain ⟨ring, -, rfl⟩ := Option.map_eq_some_iff.mp h
      exact ⟨rfl, rfl⟩
    · cases h

/-! ## §2 Runs with a timer -/

/-- The machine makes a run of its own, its timer has made all the pulses, and line 0 has followed the
output from the beginning. -/
structure TimedInv (image : KernelImage) (leds : Byte) (y : TimedMachine) : Prop where
  run : ∃ steps, MachineRun image leds steps y.machine
  counter : y.counter = PitCounter.pulse^[y.pulses] (timerCounter (pitFrequency / kernelTimerFrequency))
  line : y.machine.timerHigh = y.counter.out
  edges : y.machine.timerEdges =
    y.rose.toNat + (timerCounter (pitFrequency / kernelTimerFrequency)).edges y.pulses

theorem TimedMachine.Initial.inv (h : y.Initial leds) : TimedInv image leds y := by
  obtain ⟨t, t', hinit, hcounter, -⟩ := h.counter
  rw [afterTimerInit_eq t (by decide)] at hinit
  obtain rfl := Option.some.inj hinit
  refine ⟨⟨[], .start h.machine⟩, ?_, ?_, ?_⟩
  · rw [h.pulses, hcounter]
    rfl
  · rw [hcounter, h.machine.1.timerHigh]
    rfl
  · rw [h.pulses, h.edges]
    rfl

/-- A pulse turns the line over, or leaves it. -/
theorem TimedInv.pulse (h : TimedInv image leds y) : TimedInv image leds y.pulse := by
  obtain ⟨steps, hrun⟩ := h.run
  have hcounter : y.counter.pulse = PitCounter.pulse^[y.pulses + 1]
      (timerCounter (pitFrequency / kernelTimerFrequency)) := by
    rw [Function.iterate_succ_apply', ← h.counter]
  have hedges : (timerCounter (pitFrequency / kernelTimerFrequency)).edges y.pulse.pulses =
      (timerCounter (pitFrequency / kernelTimerFrequency)).edges y.pulses +
        (!y.counter.out && y.counter.pulse.out).toNat := by
    rw [TimedMachine.pulse, PitCounter.edges, ← h.counter]
    rfl
  -- The machine makes a step only when the output turns over.
  by_cases hstill : y.counter.pulse.out = y.counter.out
  · have hmachine : y.pulse.machine = y.machine := if_pos hstill
    refine ⟨⟨steps, hmachine ▸ hrun⟩, hcounter, ?_, ?_⟩
    · exact hmachine ▸ h.line.trans hstill.symm
    · rw [hmachine, hedges, hstill, Bool.not_and_self, h.edges]
      rfl
  · have hmachine : y.pulse.machine = y.machine.timer := if_neg hstill
    obtain ⟨hhigh, hmore⟩ := timer_edges y.machine
    have hturned : y.counter.pulse.out = !y.counter.out := Bool.eq_not_of_ne hstill
    have hstep : y.machine.step image .timer = some y.machine.timer := rfl
    refine ⟨⟨_, hmachine ▸ hrun.snoc hstep⟩, hcounter, ?_, ?_⟩
    · exact (hmachine ▸ hhigh).trans (by rw [h.line]; exact hturned.symm)
    · rw [hmachine, hmore, h.line, h.edges, hedges, hturned, Bool.and_self, Nat.add_assoc]
      rfl

theorem TimedInv.other (h : TimedInv image leds y) (hstep : y.step image (.other i) = some y') :
    TimedInv image leds y' := by
  obtain ⟨steps, hrun⟩ := h.run
  -- Only the timer moves line 0.
  have hi : i ≠ .timer := by
    rintro rfl
    cases hstep
  rw [y.step_other image hi] at hstep
  obtain ⟨m, hm, rfl⟩ := Option.map_eq_some_iff.mp hstep
  obtain ⟨hhigh, hedges⟩ := timerEdges_step hi hm
  exact ⟨⟨_, hrun.snoc hm⟩, h.counter, hhigh.trans h.line, hedges.trans h.edges⟩

theorem timedInv_of_run (h : TimedRun image leds tr y) : TimedInv image leds y := by
  refine h.inv (TimedInv image leds) (fun y hinit => hinit.inv) fun y i y' hinv hstep => ?_
  cases i with
  | pulse =>
    cases hstep
    exact hinv.pulse
  | other i => exact hinv.other hstep

/-! ## §3 What `tick_count` says about time -/

/-- One tick for every 11931 pulses, and one if the output went up in `timer_init`, but for those that
were lost, one that is waiting, and one that is being handled. -/
structure TicksKeepTime (y : TimedMachine) : Prop where
  counted : ∃ ticks busy : Nat, y.machine.data.tickCount = BitVec.ofNat 32 ticks ∧
    (y.pulses - 1) / 11931 + y.rose.toNat =
      ticks + (y.machine.pics.master.irr.getLsbD 0).toNat + y.machine.timerLost + busy ∧
    busy ≤ 1 ∧ (y.machine.cpu = .main → busy = 0)
  /-- What waits does so for less than a period: it is lost when the output goes down. -/
  waits : y.machine.pics.master.irr.getLsbD 0 = true → y.counter.out = true

/-- The edges of the timer with the divisor of `kernel_init`. -/
theorem edges_kernelTimer (k : Nat) :
    (timerCounter (pitFrequency / kernelTimerFrequency)).edges k = (k - 1) / 11931 := by
  have hdivisor : (pitFrequency / kernelTimerFrequency).toNat = 11931 := by decide
  rw [(edges_timerCounter_iff _).mpr (by rw [hdivisor]; decide), hdivisor]

/-- In every state of every run. -/
theorem ticksKeepTime (h : TimedRun image leds tr y) : TicksKeepTime y := by
  have hinv := timedInv_of_run h
  obtain ⟨steps, hrun⟩ := hinv.run
  obtain ⟨_, _, ticks, _, hmachine⟩ :=
    machineInv_of_run (P := fun _ => True) hrun fun _ _ => trivial
  obtain ⟨busy, hbusy, hone, hmain⟩ := hmachine.edges
  refine ⟨⟨ticks, busy, hmachine.tickCount, ?_, hone, hmain⟩, fun hwaits => ?_⟩
  · rw [← edges_kernelTimer, Nat.add_comm, ← hinv.edges, hbusy]
  · obtain ⟨_, _, -, hsees⟩ := hmachine.cpu.sees
    rw [← hinv.line]
    exact hmachine.timer (hsees.timer.symm.trans hwaits)

/-- In a period the line goes down once, and up once at the end. -/
theorem pulses_period (h : y.counter.AtPhase n 0) (hk : k ≤ n) :
    TimedMachine.pulse^[k] y =
      { y with
        machine :=
          if k < (n + 1) / 2 then y.machine else if k < n then y.machine.timer
          else y.machine.timer.timer
        counter := PitCounter.pulse^[k] y.counter
        pulses := y.pulses + k } := by
  have hn := PitCounter.two_le_period h.period
  -- The output is high in the first half, low in the second, and high again at the end.
  have hout (j : Nat) (hj : j ≤ n) :
      (PitCounter.pulse^[j] y.counter).out = decide (j < (n + 1) / 2 ∨ j = n) := by
    have hphase := h.pulses j
    rcases Nat.lt_or_eq_of_le hj with hlt | rfl
    · rw [Nat.mod_eq_of_lt hlt] at hphase
      rcases Nat.lt_or_ge j ((n + 1) / 2) with hhigh | hlow
      · rw [(hphase.high hhigh).2, decide_eq_true (.inl hhigh)]
      · rw [(hphase.low hlow).2, decide_eq_false (by omega)]
    · rw [Nat.mod_self] at hphase
      rw [(hphase.high (by omega)).2, decide_eq_true (.inr rfl)]
  induction k with
  | zero =>
    rw [if_pos (by omega)]
    rfl
  | succ k ih =>
    have hlast := hout k (by omega)
    have hnext := hout (k + 1) hk
    rw [Function.iterate_succ_apply'] at hnext
    rw [Function.iterate_succ_apply', ih (by omega), Function.iterate_succ_apply',
      TimedMachine.pulse]
    simp only [hnext, hlast, decide_eq_decide]
    congr 1
    -- The output turns over in the middle and at the end of the period.
    rcases Nat.lt_trichotomy (k + 1) ((n + 1) / 2) with hhigh | hmiddle | hlow
    · rw [if_pos (by omega), if_pos (by omega), if_pos hhigh]
    · rw [if_neg (by omega), if_pos (by omega), if_neg (by omega), if_pos (by omega)]
    · rcases Nat.lt_or_eq_of_le hk with hlt | hend
      · rw [if_pos (by omega), if_neg (by omega), if_pos (by omega), if_neg (by omega), if_pos hlt]
      · rw [if_neg (by omega), if_neg (by omega), if_pos (by omega), if_neg (by omega),
          if_neg (by omega)]

theorem run_pulses (h : TimedRun image leds tr y) (k : Nat) :
    ∃ tr', TimedRun image leds tr' (TimedMachine.pulse^[k] y) := by
  induction k with
  | zero => exact ⟨tr, h⟩
  | succ k ih =>
    obtain ⟨tr', hrun⟩ := ih
    rw [Function.iterate_succ_apply']
    exact ⟨_, hrun.snoc (i := .pulse) rfl⟩

/-- Between two pulses the machine can follow steps of its own. -/
theorem TimedRun.follow {is : List MachineStep} {steps steps' : List (Machine × MachineStep)}
    (h : TimedRun image leds tr y) (hmachine : y.machine = m)
    (hfollow : m.follow steps is = some (steps', m')) (hpulse : ∀ i ∈ is, i ≠ .timer) :
    ∃ tr', TimedRun image leds tr' { y with machine := m' } := by
  induction is generalizing tr y m steps with
  | nil =>
    obtain ⟨-, rfl⟩ := Prod.mk.inj (Option.some.inj hfollow)
    subst hmachine
    exact ⟨tr, h⟩
  | cons i is ih =>
    subst hmachine
    obtain ⟨hfirst, hrest⟩ := List.forall_mem_cons.mp hpulse
    obtain ⟨m₁, hstep, hnext⟩ := Option.bind_eq_some_iff.mp hfollow
    -- The steps were made with the handlers of the lines, so without the addresses of the code.
    obtain ⟨_, hrun⟩ := (timedInv_of_run h).run
    rw [← step_eq_takeLine hrun] at hstep
    have hother : y.step image (.other i) = some { y with machine := m₁ } := by
      rw [y.step_other image hfirst, hstep]
      rfl
    exact ih (y := { y with machine := m₁ }) (h.snoc hother) rfl hnext hrest

/-- A timer that was doing something else when `timer_init` was called. -/
def strayPit : Pit :=
  ⟨{ timerCounter 1 with lowByte := some 0x12 }, timerCounter 18, timerCounter 1331⟩

/-- The machine after `kernel_init`. -/
def bootedMachine : TimedMachine where
  machine := initialMachine none
  counter := timerCounter (pitFrequency / kernelTimerFrequency)
  pulses := 0
  rose := false

theorem bootedMachine_initial : bootedMachine.Initial 0 where
  machine := ⟨initialMachine_afterInit none, rfl⟩
  counter := ⟨strayPit, _, afterTimerInit_eq strayPit (by decide), rfl, rfl⟩
  edges := rfl
  pulses := rfl

/-- The pulse that loads the count, and the period after it. -/
theorem bootedMachine_period :
    TimedMachine.pulse^[11931] bootedMachine.pulse =
      { bootedMachine with
        machine := (initialMachine none).timer.timer
        counter := PitCounter.pulse^[11931] bootedMachine.counter.pulse
        pulses := 11932 } := by
  have hphase : bootedMachine.counter.pulse.AtPhase 11931 0 := by
    refine ⟨?_, fun _ => ?_, fun hle => absurd hle (by decide)⟩
    · decide
    · decide
  have hfirst : bootedMachine.pulse =
      { bootedMachine with counter := bootedMachine.counter.pulse, pulses := 1 } := by
    rw [TimedMachine.pulse, if_pos (by decide)]
    rfl
  rw [hfirst]
  exact pulses_period hphase (Nat.le_refl _)

/-- The first period is over, and its tick is counted. -/
theorem ticksKeepTime_firstPeriod :
    ∃ tr y, TimedRun spacedImage 0 tr y ∧
      (y.pulses = 11932 ∧ y.machine.data.tickCount = 1 ∧ y.machine.cpu = .main) ∧
      TicksKeepTime y := by
  obtain ⟨tr, hrun⟩ := run_pulses
    ((Run.start bootedMachine_initial : TimedRun spacedImage 0 [] _).snoc (i := .pulse) rfl) 11931
  rw [bootedMachine_period] at hrun
  have htick : ((initialMachine none).timer.timer.follow []
      [.sti, .accept, .operation, .operation, .operation]).any
      (fun r => r.2.data.tickCount = 1 ∧ r.2.cpu = .main) = true := by
    decide +kernel
  obtain ⟨⟨steps, m⟩, hfollow, hcounted⟩ := (Option.any_eq_true _ _).mp htick
  obtain ⟨tr', hrun'⟩ := hrun.follow rfl hfollow (by simp)
  exact ⟨tr', _, hrun', ⟨rfl, of_decide_eq_true hcounted⟩, ticksKeepTime hrun'⟩

end KyroKernel
