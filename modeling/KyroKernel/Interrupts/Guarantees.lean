import KyroKernel.Interrupts.System
import Mathlib.Logic.Relation

/-!
# What interrupts guarantee

What holds in every state of every run of the machine: interrupts are served one at a time, no byte
and no key is lost on the way to the program that reads it, the LEDs follow the locks, every tick is
counted, and handlers always come to their end. One thing must hold before all this begins: nothing
may be in the output buffer of the keyboard controller when `pic_init` resets the requests.
-/

namespace KyroKernel

open Foundations

/-! ## §1 Interrupts are served one at a time -/

/-- What holds of interrupts in a state of the machine. -/
structure InterruptsServed (image : KernelImage) (m : Machine) : Prop where
  /-- The processor always has code to run. -/
  known : m.cpu ≠ .lost
  /-- Handlers are not interrupted, and return to where interrupts are enabled. -/
  disabled : ∀ flag program, m.cpu = .handler flag program →
    m.interruptsEnabled = false ∧ flag = true
  /-- Between handlers nothing is in service: no end of interrupt is missing, and the second one that
  a handler sends has ended nothing else. -/
  ended : m.cpu = .main → m.pics.master.isr = 0
  /-- An interrupt that the processor can take is one of the two that are enabled, and the next thing
  it does is the handler of that line, with the line in service. -/
  taken : ∀ line, m.interruptsEnabled = true → m.pics.cascaded.request = some line →
    (line = 0 ∨ line = 1) ∧ (m.accept image).cpu = .handler true (lineProgram line m.data) ∧
      (m.accept image).interruptsEnabled = false ∧
      (m.accept image).pics.master.isr = 1#8 <<< line

variable {image : KernelImage} {leds : Byte} {m : Machine} {steps : List (Machine × MachineStep)}

/-- In every state of every run interrupts are served one at a time, by their own handlers. -/
theorem interruptsServed (h : MachineRun image leds steps m) : InterruptsServed image m := by
  obtain ⟨tr, ring, ticks, timerWaits, hinv⟩ :=
    machineInv_of_run (P := fun _ => True) h fun _ _ => trivial
  cases hinv.cpu with
  | main hcpu hsees hedges =>
    refine ⟨by rw [hcpu]; exact CpuMode.noConfusion, fun flag program hhandler => ?_,
      fun _ => hsees.pics.service, fun line henabled hline => ?_⟩
    · rw [hcpu] at hhandler
      cases hhandler
    · rw [Machine.accept_eq hsees.pics hline hcpu, henabled]
      exact ⟨(hsees.pics.request hline).2.1, rfl, rfl, (hsees.pics.acknowledge hline).2.1.service⟩
  | handler hcpu hdisabled =>
    refine ⟨by rw [hcpu]; exact CpuMode.noConfusion, fun flag program hhandler => ?_,
      fun hmain => ?_, fun line henabled => ?_⟩
    · rw [hcpu] at hhandler
      exact ⟨hdisabled, (CpuMode.handler.inj hhandler).1.symm⟩
    · rw [hcpu] at hmain
      cases hmain
    · rw [hdisabled] at henabled
      cases henabled

/-- The entries sixteen bytes apart, from 0x10000 on. -/
def spacedAddr : GateTarget → Word
  | .stub .divideErrorHandlerAsm => 0x10000
  | .stub .debugHandlerAsm => 0x10010
  | .stub .nmiHandlerAsm => 0x10020
  | .stub .breakpointHandlerAsm => 0x10030
  | .stub .generalProtectionFaultHandlerAsm => 0x10040
  | .stub .pageFaultHandlerAsm => 0x10050
  | .stub .timerHandlerAsm => 0x10060
  | .stub .keyboardHandlerAsm => 0x10070
  | .syscallHandlerAsm => 0x10080

def gateTargets : List GateTarget :=
  [.stub .divideErrorHandlerAsm, .stub .debugHandlerAsm, .stub .nmiHandlerAsm,
    .stub .breakpointHandlerAsm, .stub .generalProtectionFaultHandlerAsm, .stub .pageFaultHandlerAsm,
    .stub .timerHandlerAsm, .stub .keyboardHandlerAsm, .syscallHandlerAsm]

def spacedImage : KernelImage where
  addr := spacedAddr
  code a := gateTargets.find? fun target => spacedAddr target = a
  code_addr target := by rcases target with (_ | _ | _ | _ | _ | _ | _ | _) | _ <;> decide
  idt := 0x20000
  before := fun _ => 0

def powerOnPic : I8259 :=
  { irr := 0, isr := 0, imr := 0, base := 0, cascade := 0, waitsFor := none, single := false
    needsIcw4 := false, autoEoi := false, readsIsr := false }

/-- The machine after `kernel_init`, with this byte in the output buffer. -/
def initialMachine (output : Option Byte) : Machine where
  pics := picsAfterInit ⟨powerOnPic, powerOnPic⟩ false
  controller :=
    { output := output, lastOutput := 0, input := none, keyboard := ⟨[], 0, false⟩
      sent := output.toList, readOut := [], written := [], taken := [], typed := output.toList }
  timerHigh := true
  interruptsEnabled := false
  cpu := .main
  data := ⟨keyboardInit powerOnKeyboard, 0⟩
  get := .idle
  returned := []
  timerEdges := 0
  timerLost := 0

theorem initialMachine_afterInit (output : Option Byte) :
    (initialMachine output).AfterInit 0 where
  timer := ⟨_, false, rfl, rfl⟩
  timerHigh := rfl
  controller := ⟨rfl, rfl, rfl, rfl, rfl, rfl, rfl⟩
  disabled := rfl
  cpu := rfl
  keyboard := ⟨_, rfl⟩
  tickCount := rfl
  get := rfl
  returned := rfl
  timerLost := rfl

instance (m : Machine) : Decidable (m.cpu = .main) :=
  match m.cpu with
  | .main => isTrue rfl
  | .handler _ _ => isFalse CpuMode.noConfusion
  | .lost => isFalse CpuMode.noConfusion

/-- The run of these steps, if they can be done one after the other, and what is computed of it. -/
theorem exists_run (is : List MachineStep) (P : List (Machine × MachineStep) → Machine → Prop)
    [∀ tr m, Decidable (P tr m)]
    (h : ((initialMachine none).follow [] is).any (fun r => P r.1 r.2) = true) :
    ∃ steps m, MachineRun spacedImage 0 steps m ∧ P steps m := by
  have hstart : MachineRun spacedImage 0 [] (initialMachine none) :=
    .start ⟨initialMachine_afterInit none, rfl⟩
  exact hstart.exists_of_follow (fun hrun hstep => (step_eq_takeLine hrun _).trans hstep) P h

/-- All that happens to an ordinary key, up to the `iret` of the handler. -/
def keyHandled (data : Byte) : List MachineStep :=
  [.press data, .forward, .accept, .operation, .operation, .operation, .operation]

/-- The timer asks for an interrupt while the handler of the keyboard is running, and is still
waiting when that handler is over. -/
theorem interruptsServed_tickWaits :
    (∃ steps m, MachineRun spacedImage 0 steps m ∧
      (m.cpu ≠ .main ∧ m.controller.readOut = [0x1E] ∧ m.pics.master.irr.getLsbD 0 = true) ∧
      InterruptsServed spacedImage m) ∧
    ∃ steps m, MachineRun spacedImage 0 steps m ∧
      (m.cpu = .main ∧ m.interruptsEnabled = true ∧ m.controller.readOut = [0x1E] ∧
        m.pics.cascaded.request = some 0) ∧ InterruptsServed spacedImage m := by
  constructor
  · obtain ⟨steps, m, hrun, hwaits⟩ := exists_run
      [.sti, .press 0x1E, .forward, .accept, .operation, .timer, .timer]
      (fun _ m => m.cpu ≠ .main ∧ m.controller.readOut = [0x1E] ∧
        m.pics.master.irr.getLsbD 0 = true) (by decide +kernel)
    exact ⟨steps, m, hrun, hwaits, interruptsServed hrun⟩
  · obtain ⟨steps, m, hrun, hwaits⟩ := exists_run
      [.sti, .press 0x1E, .forward, .accept, .operation, .timer, .timer, .operation, .operation,
        .operation]
      (fun _ m => m.cpu = .main ∧ m.interruptsEnabled = true ∧ m.controller.readOut = [0x1E] ∧
        m.pics.cascaded.request = some 0) (by decide +kernel)
    exact ⟨steps, m, hrun, hwaits, interruptsServed hrun⟩

/-! ## §2 Bytes from the keyboard -/

/-- The bytes of the keyboard and the ring. The ring does what it does in a run in which interrupts
are atomic and come with the bytes that the handlers have read. -/
structure BytesHandled (m : Machine) (tr : List (RingSystem × RingStep)) (ring : RingSystem) :
    Prop where
  run : RingRun tr ring
  state : ring.state = m.data.keyboard ∧ ring.pc = m.get ∧ ring.returned = m.returned
  /-- Every byte is read once, in order; one at most was read and not handled yet. -/
  handled : ∃ atHand : List Byte, atHand.length ≤ 1 ∧ (m.cpu = .main → atHand = []) ∧
    m.controller.readOut = interruptBytes tr ++ atHand ∧
    m.controller.sent = m.controller.readOut ++ m.controller.output.toList
  /-- What came from the keyboard or will come is what was typed, and acknowledgements. -/
  typed : (m.controller.sent ++ m.controller.keyboard.toSend).filter (· ≠ PcKeyboard.ack) =
    m.controller.typed.filter (· ≠ PcKeyboard.ack)
  fifo : RingFifo ring

/-- After every run. -/
theorem bytesHandled (h : MachineRun image leds steps m) : ∃ tr ring, BytesHandled m tr ring := by
  obtain ⟨tr, ring, ticks, timerWaits, hinv⟩ :=
    machineInv_of_run (P := fun _ => True) h fun _ _ => trivial
  obtain ⟨q, hring⟩ := exists_ringInv hinv.run
  refine ⟨tr, ring, hinv.run, ⟨hinv.keyboard, hinv.get, hinv.returned⟩, ?_, hinv.obeyed.keys,
    hring.ringFifo⟩
  cases hinv.cpu with
  -- Between handlers no byte is at hand; in one it is the byte that it has read, if any.
  | main hcpu hsees hedges =>
    exact ⟨[], Nat.zero_le _, fun _ => rfl, hsees.readOut, hsees.ordered.toProcessor⟩
  | @handler line t program hcpu hdisabled hline hsees =>
    refine ⟨t.received, Nat.le_trans (Nat.le_add_right _ _) hsees.once, fun hmain => ?_, hsees.readOut,
      hsees.ordered.toProcessor⟩
    rw [hcpu] at hmain
    cases hmain

/-- One key while a get has looked at the count, and the handler of the next one has only read its
byte. -/
theorem bytesHandled_duringGet :
    ∃ steps m, MachineRun spacedImage 0 steps m ∧
      (m.get = .load ∧ m.cpu ≠ .main ∧ m.controller.readOut = [0x1E, 0x30, 0x2E]) ∧
      ∃ tr ring, BytesHandled m tr ring := by
  obtain ⟨steps, m, hrun, hkeys⟩ := exists_run
    ([.sti] ++ keyHandled 0x1E ++ [.getCall, .getStatement] ++ keyHandled 0x30 ++
      [.press 0x2E, .forward, .accept, .operation])
    (fun _ m => m.get = .load ∧ m.cpu ≠ .main ∧ m.controller.readOut = [0x1E, 0x30, 0x2E])
    (by decide +kernel)
  exact ⟨steps, m, hrun, hkeys, bytesHandled hrun⟩

/-- Acknowledgements press no key. -/
theorem pressedKeys_filter (bytes : List Byte) :
    pressedKeys (bytes.filter (· ≠ PcKeyboard.ack)) = pressedKeys bytes := by
  unfold pressedKeys
  rw [List.filterMap_filter]
  congr 1
  funext data
  by_cases hack : data = PcKeyboard.ack
  · rw [hack]
    rfl
  · rw [decide_eq_true hack, if_pos rfl]

/-- A ring that was never full has accepted every key of its interrupts. -/
theorem RingRun.accepted_eq {tr : List (RingSystem × RingStep)} {ring : RingSystem}
    (h : RingRun tr ring) (hroom : ∀ p ∈ tr, p.1.state.bufferCount < keyboardBufferSize) :
    ring.accepted = pressedKeys (interruptBytes tr) := by
  induction h with
  | start hinit =>
    obtain ⟨state, rfl⟩ := hinit
    rfl
  | @snoc tr s s' i hrun hstep ih =>
    obtain ⟨hlast, hrest⟩ := List.forall_mem_cons.mp hroom
    have hold := ih hrest
    cases i with
    | call =>
      simp only [RingSystem.step] at hstep
      split at hstep
      · cases hstep
        exact hold
      · cases hstep
    | statement =>
      simp only [RingSystem.step] at hstep
      split at hstep
      · cases hstep
      · cases hstep
        have hsame : s.statement.accepted = s.accepted := by
          unfold RingSystem.statement
          split <;> rfl
        rw [hsame]
        exact hold
    | interrupt data =>
      cases hstep
      change s.accepted ++ acceptedScancodes s.state data =
        pressedKeys (interruptBytes tr ++ [data])
      -- There was room, so a key that was pressed has not been dropped.
      have hnew : acceptedScancodes s.state data = pressedKeys [data] := by
        rw [acceptedScancodes, pressedKeys]
        cases hkey : pressedKey data with
        | none => rw [List.filterMap_cons_none hkey, List.filterMap_nil]
        | some scancode =>
          rw [List.filterMap_cons_some hkey, List.filterMap_nil]
          exact if_pos hlast
      rw [hold, hnew]
      exact (List.filterMap_append ..).symm

/-- While the ring is never full every key typed is returned by a get, is taken by a get, is in the
ring, or is on its way, in the order of typing. -/
structure KeysDelivered (m : Machine) : Prop where
  keys : m.cpu = .main → pressedKeys m.controller.typed =
    m.returned ++ m.get.taken ++
      (⟨m.data.keyboard, m.get, [], m.returned⟩ : RingSystem).pending ++
      pressedKeys (m.controller.output.toList ++ m.controller.keyboard.toSend)

theorem keysDelivered (h : MachineRun image leds steps m)
    (hroom : ∀ p ∈ steps, p.1.data.keyboard.bufferCount < keyboardBufferSize) :
    KeysDelivered m := by
  obtain ⟨tr, ring, ticks, timerWaits, hinv⟩ :=
    machineInv_of_run (P := fun s => s.bufferCount < keyboardBufferSize) h hroom
  refine ⟨fun hmain => ?_⟩
  cases hinv.cpu with
  | handler hcpu =>
    rw [hmain] at hcpu
    cases hcpu
  | main hcpu hsees hedges =>
    have haccepted := hinv.run.accepted_eq hinv.states
    obtain ⟨q, hring⟩ := exists_ringInv hinv.run
    have horder := hring.ringFifo.order
    have hpending : ring.pending =
        (⟨m.data.keyboard, m.get, [], m.returned⟩ : RingSystem).pending := by
      rw [← hinv.keyboard, ← hinv.get]
      rfl
    -- The acknowledgements among what was sent press no key.
    have htyped : pressedKeys m.controller.typed =
        pressedKeys (m.controller.sent ++ m.controller.keyboard.toSend) := by
      rw [← pressedKeys_filter, ← hinv.obeyed.keys, pressedKeys_filter]
    rw [htyped, hsees.ordered.toProcessor, hsees.readOut, ← hpending, ← hinv.returned, ← hinv.get,
      ← horder, haccepted]
    simp only [pressedKeys, HandlerKnows.idle, List.append_nil, List.append_assoc,
      List.filterMap_append]

/-- One key was returned, the next one is taken, the third is in the ring and the last on its way. -/
theorem keysDelivered_everywhere :
    ∃ steps m, MachineRun spacedImage 0 steps m ∧
      (m.cpu = .main ∧ m.controller.typed = [0x1E, 0x30, 0x2E, 0x20] ∧ m.returned = [0x1E] ∧
        m.get = .done 0x30 ∧ m.data.keyboard.bufferCount = 1 ∧
        m.controller.keyboard.toSend = [0x20]) ∧ KeysDelivered m := by
  obtain ⟨steps, m, hrun, hroom, hkeys⟩ := exists_run
    ([.sti] ++ keyHandled 0x1E ++ .getCall :: List.replicate 5 .getStatement ++ keyHandled 0x30 ++
      keyHandled 0x2E ++ .getCall :: List.replicate 4 .getStatement ++ [.press 0x20])
    (fun steps m => (∀ p ∈ steps, p.1.data.keyboard.bufferCount < keyboardBufferSize) ∧
      m.cpu = .main ∧ m.controller.typed = [0x1E, 0x30, 0x2E, 0x20] ∧ m.returned = [0x1E] ∧
      m.get = .done 0x30 ∧ m.data.keyboard.bufferCount = 1 ∧
      m.controller.keyboard.toSend = [0x20]) (by decide +kernel)
  exact ⟨steps, m, hrun, hkeys, keysDelivered hrun hroom⟩

/-! ## §3 LEDs -/

/-- Only the make code of a lock changes the LEDs. -/
theorem ledState_keyboardHandler {data : Byte} (h : ¬ IsLockKey data) (s : KeyboardState) :
    (keyboardHandler s data).ledState = s.ledState := by
  unfold keyboardHandler
  split
  · rfl
  · change (handleKey s (data &&& 0x80 ≠ 0) (data &&& 0x7F)).ledState = _
    by_cases hlock : ∃ l : Lock, data &&& 0x7F = l.scancode
    · obtain ⟨l, hl⟩ := hlock
      have hbreak : data &&& 0x80 ≠ 0 := fun hmake =>
        h (isLockKey_iff.mpr ⟨l, (eq_scancode_iff l data).mpr ⟨hmake, hl⟩⟩)
      rw [hl, handleKey_lock, decide_eq_true hbreak, toggleFlag_released]
    · exact (handleKey_not_lock (fun l hl => hlock ⟨l, hl⟩) _).1

/-- The locks follow the bytes of a run of the ring, and the LEDs that were set follow the locks. -/
structure LocksFollow (tr : List (RingSystem × RingStep)) (s : KeyboardState) : Prop where
  shown : LedsShowLocks s
  locks : ∀ l : Lock, l.FlagSet s ↔ (interruptBytes tr).count l.scancode % 2 = 1
  last : ∀ before, I8042.lastLeds (interruptLeds tr) before =
    if ∃ data ∈ interruptBytes tr, IsLockKey data then s.ledState else before

theorem lastLeds_append (leds : List Byte) (l before : Byte) :
    I8042.lastLeds (leds ++ [l]) before = l &&& 7 := by
  rw [I8042.lastLeds, List.getLast?_concat]
  rfl

theorem RingRun.locks {tr : List (RingSystem × RingStep)} {ring : RingSystem}
    (h : RingRun tr ring) : LocksFollow tr ring.state := by
  induction h with
  | start hinit =>
    obtain ⟨state, rfl⟩ := hinit
    obtain ⟨hshown, hlocks, -, -⟩ := lockInv_keyboardInit state
    exact ⟨hshown, hlocks, fun before => by simp [interruptBytes, interruptLeds, I8042.lastLeds]⟩
  | @snoc tr s s' i hrun hstep ih =>
    cases i with
    | call =>
      simp only [RingSystem.step] at hstep
      split at hstep
      · cases hstep
        exact ⟨ih.shown, ih.locks, ih.last⟩
      · cases hstep
    | statement =>
      simp only [RingSystem.step] at hstep
      split at hstep
      · cases hstep
      · cases hstep
        have hsame : s.statement.state.flags = s.state.flags ∧
            s.statement.state.ledState = s.state.ledState := by
          unfold RingSystem.statement
          split <;> exact ⟨rfl, rfl⟩
        have hflag (l : Lock) : l.FlagSet s.statement.state ↔ l.FlagSet s.state := by
          unfold Lock.FlagSet
          rw [hsame.1]
        exact ⟨ih.shown.congr hsame.2 hflag, fun l => (hflag l).trans (ih.locks l),
          fun before => by rw [hsame.2]; exact ih.last before⟩
    -- Gets change neither the flags nor the LEDs, so the handler is the only case with work in it.
    | interrupt data =>
      cases hstep
      refine ⟨ih.shown.handler data, fun l => ?_, fun before => ?_⟩
      · have hcount : (interruptBytes ((s, .interrupt data) :: tr)).count l.scancode =
            (interruptBytes tr).count l.scancode + if data = l.scancode then 1 else 0 := by
          rw [interruptBytes, List.count_append, List.count_singleton]
          simp only [beq_iff_eq]
        rw [hcount]
        refine (flagSet_keyboardHandler_lock l s.state data).trans ?_
        rw [ih.locks l]
        -- One make code more, and the lock is turned over.
        split_ifs <;> omega
      · by_cases hlock : IsLockKey data
        · have hset : interruptLeds ((s, .interrupt data) :: tr) =
              interruptLeds tr ++ [(keyboardHandler s.state data).ledState] := by
            rw [interruptLeds, ledsSet, if_pos hlock]
          have hthree : (keyboardHandler s.state data).ledState &&& 7 =
              (keyboardHandler s.state data).ledState :=
            ledsSet_and_seven (show (keyboardHandler s.state data).ledState ∈ ledsSet s.state data by
              rw [ledsSet, if_pos hlock]
              exact List.mem_singleton_self _)
          rw [hset, lastLeds_append, hthree, if_pos]
          exact ⟨data, List.mem_append_right _ (List.mem_singleton_self _), hlock⟩
        · have hset : interruptLeds ((s, .interrupt data) :: tr) = interruptLeds tr := by
            rw [interruptLeds, ledsSet, if_neg hlock, List.append_nil]
          have hiff : (∃ d ∈ interruptBytes ((s, .interrupt data) :: tr), IsLockKey d) ↔
              ∃ d ∈ interruptBytes tr, IsLockKey d := by
            simp only [interruptBytes, List.mem_append, List.mem_singleton]
            constructor
            · rintro ⟨d, hold | rfl, hd⟩
              · exact ⟨d, hold, hd⟩
              · exact absurd hd hlock
            · rintro ⟨d, hold, hd⟩
              exact ⟨d, .inl hold, hd⟩
          rw [hset, ih.last before]
          refine if_congr hiff.symm ?_ rfl
          exact (ledState_keyboardHandler hlock s.state).symm

/-- Between handlers, when the keyboard has taken all that it was told: its LEDs are lit for the
locks that were pressed an odd number of times, and as they were until a lock is pressed. -/
structure LedsFollow (leds : Byte) (m : Machine) : Prop where
  lit : m.cpu = .main → m.controller.input = none →
    (∃ data ∈ m.controller.readOut, IsLockKey data) →
    ∀ i, m.controller.keyboard.leds.getLsbD i = true ↔
      ∃ l : Lock, l.led = i ∧ m.controller.readOut.count l.scancode % 2 = 1
  untouched : m.cpu = .main → m.controller.input = none →
    (¬ ∃ data ∈ m.controller.readOut, IsLockKey data) → m.controller.keyboard.leds = leds
  /-- The keyboard is never told anything while it has not taken the byte before. -/
  told : m.controller.written = m.controller.taken ++ m.controller.input.toList

theorem ledsFollow (h : MachineRun image leds steps m) : LedsFollow leds m := by
  obtain ⟨tr, ring, ticks, timerWaits, hinv⟩ :=
    machineInv_of_run (P := fun _ => True) h fun _ _ => trivial
  have hlocks := RingRun.locks hinv.run
  have hmain (hcpu : m.cpu = .main) (hinput : m.controller.input = none) :
      m.controller.readOut = interruptBytes tr ∧ m.controller.keyboard.leds =
        if ∃ data ∈ interruptBytes tr, IsLockKey data then ring.state.ledState else leds := by
    cases hinv.cpu with
    | handler hhandler =>
      rw [hhandler] at hcpu
      cases hcpu
    | main _ hsees _ =>
      have htaken : m.controller.taken = I8042.ledCommands (interruptLeds tr) := by
        have hkeyboard := hsees.ordered.toKeyboard
        rw [hinput, hsees.written] at hkeyboard
        simpa [HandlerKnows.idle] using hkeyboard.symm
      refine ⟨hsees.readOut.trans (List.append_nil _), ?_⟩
      rw [← hlocks.last]
      exact hinv.obeyed.keyboard_leds (fun l hl => (interruptLeds_spec tr l hl).2) htaken
  refine ⟨fun hcpu hinput hpressed i => ?_, fun hcpu hinput hpressed => ?_, ?_⟩
  · obtain ⟨hread, hleds⟩ := hmain hcpu hinput
    rw [hread] at hpressed ⊢
    rw [hleds, if_pos hpressed, hlocks.shown i]
    exact exists_congr fun l => and_congr_right fun _ => hlocks.locks l
  · obtain ⟨hread, hleds⟩ := hmain hcpu hinput
    rw [hread] at hpressed
    rw [hleds, if_neg hpressed]
  · obtain ⟨_, _, -, hsees⟩ := hinv.cpu.sees
    exact hsees.ordered.toKeyboard

/-- Caps Lock, with both bytes of the command taken. -/
theorem ledsFollow_capsLock :
    ∃ steps m, MachineRun spacedImage 0 steps m ∧
      (m.cpu = .main ∧ m.controller.input = none ∧ m.controller.readOut = [0x3A] ∧
        m.controller.taken = [PcKeyboard.setLeds, 4] ∧ m.controller.keyboard.leds = 4) ∧
      LedsFollow 0 m := by
  obtain ⟨steps, m, hrun, hleds⟩ := exists_run
    ([.sti, .press 0x3A, .forward, .accept, .operation, .operation, .operation, .pass] ++
      List.replicate 5 .operation ++ [.pass])
    (fun _ m => m.cpu = .main ∧ m.controller.input = none ∧ m.controller.readOut = [0x3A] ∧
      m.controller.taken = [PcKeyboard.setLeds, 4] ∧ m.controller.keyboard.leds = 4)
    (by decide +kernel)
  exact ⟨steps, m, hrun, hleds, ledsFollow hrun⟩

/-! ## §4 Ticks -/

/-- The edges of the timer, apart from those that were counted or lost. -/
theorem MachineInv.edges {P : KeyboardState → Prop} {tr : List (RingSystem × RingStep)}
    {ring : RingSystem} {ticks : Nat} {timerWaits : Bool}
    (h : MachineInv P leds m tr ring ticks timerWaits) : ∃ busy,
    m.timerEdges = ticks + (m.pics.master.irr.getLsbD 0).toNat + m.timerLost + busy ∧ busy ≤ 1 ∧
      (m.cpu = .main → busy = 0) := by
  cases h.cpu with
  | main hcpu hsees hedges =>
    refine ⟨0, ?_, Nat.zero_le _, fun _ => rfl⟩
    rw [hedges, ← hsees.timer]
    rfl
  | @handler line t program hcpu hdisabled hline hsees hconforms hwaits hedges =>
    refine ⟨if line = 0 then 1 else 0, ?_, ?_, fun hmain => ?_⟩
    · rw [hedges, ← hsees.timer]
    · split <;> decide
    · rw [hcpu] at hmain
      cases hmain

/-- Every edge of the timer was counted once, is waiting, is being handled, or was lost: the output
went down again before the processor took the interrupt. -/
structure TicksCounted (m : Machine) : Prop where
  counted : ∃ ticks busy : Nat, m.data.tickCount = BitVec.ofNat 32 ticks ∧
    m.timerEdges = ticks + (m.pics.master.irr.getLsbD 0).toNat + m.timerLost + busy ∧ busy ≤ 1 ∧
    (m.cpu = .main → busy = 0)
  /-- What waits does so while the output is up. -/
  waits : m.pics.master.irr.getLsbD 0 = true → m.timerHigh = true

theorem ticksCounted (h : MachineRun image leds steps m) : TicksCounted m := by
  obtain ⟨_, _, ticks, timerWaits, hinv⟩ :=
    machineInv_of_run (P := fun _ => True) h fun _ _ => trivial
  obtain ⟨busy, hbusy⟩ := hinv.edges
  obtain ⟨_, _, -, hsees⟩ := hinv.cpu.sees
  have htimer : m.pics.master.irr.getLsbD 0 = timerWaits := hsees.timer
  exact ⟨⟨ticks, busy, hinv.tickCount, hbusy⟩, fun hwaits => hinv.timer (htimer.symm.trans hwaits)⟩

/-- Four edges: one counted, one lost, one that is being handled, and one that waits for that. -/
theorem ticksCounted_fourEdges :
    ∃ steps m, MachineRun spacedImage 0 steps m ∧
      (m.timerEdges = 4 ∧ m.data.tickCount = 1 ∧ m.timerLost = 1 ∧ m.cpu ≠ .main ∧
        m.pics.master.irr.getLsbD 0 = true) ∧ TicksCounted m := by
  obtain ⟨steps, m, hrun, hedges⟩ := exists_run
    [.sti, .timer, .timer, .accept, .operation, .operation, .operation, .timer, .timer, .timer,
      .timer, .accept, .timer, .timer]
    (fun _ m => m.timerEdges = 4 ∧ m.data.tickCount = 1 ∧ m.timerLost = 1 ∧ m.cpu ≠ .main ∧
      m.pics.master.irr.getLsbD 0 = true) (by decide +kernel)
  exact ⟨steps, m, hrun, hedges, ticksCounted hrun⟩

/-! ## §5 Handlers end -/

/-- Steps of a handler, and of the controller that hands on what it was given. -/
abbrev HandlerSteps (image : KernelImage) : Machine → Machine → Prop :=
  Relation.ReflTransGen fun m m' =>
    m.step image .operation = some m' ∨ m.step image .pass = some m'

theorem machinePorts_status (s : PicPair × I8042) :
    machinePorts.read s keyboardStatusPort = (s.2.status, s) := rfl

/-- A handler that waits only for the controller comes to its end. -/
theorem handler_ends (image : KernelImage) {flag : Bool} {program : PortProgram KernelData}
    (hwaits : WaitsForInput program) {m : Machine} (hcpu : m.cpu = .handler flag program) :
    ∃ m', HandlerSteps image m m' ∧ m'.cpu = .main ∧ m'.interruptsEnabled = flag := by
  induction program generalizing m with
  | done d =>
    refine ⟨{ m with cpu := .main, interruptsEnabled := flag, data := d }, .single (.inl ?_), rfl,
      rfl⟩
    simp only [Machine.step, Machine.stepWith, Machine.operation, hcpu]
  | write port value next ih =>
    obtain ⟨m', hsteps, hend⟩ := ih hwaits
      (m := { m with
        cpu := .handler flag next
        pics := (machinePorts.write (m.pics, m.controller) port value).1
        controller := (machinePorts.write (m.pics, m.controller) port value).2 }) rfl
    refine ⟨m', .head (.inl ?_) hsteps, hend⟩
    simp only [Machine.step, Machine.stepWith, Machine.operation, hcpu]
    rfl
  | read port next ih =>
    obtain ⟨m', hsteps, hend⟩ := ih (machinePorts.read (m.pics, m.controller) port).1 (hwaits _)
      (m := { m with
        cpu := .handler flag (next (machinePorts.read (m.pics, m.controller) port).1)
        pics := (machinePorts.read (m.pics, m.controller) port).2.1
        controller := (machinePorts.read (m.pics, m.controller) port).2.2 }) rfl
    refine ⟨m', .head (.inl ?_) hsteps, hend⟩
    simp only [Machine.step, Machine.stepWith, Machine.operation, hcpu]
    rfl
  | spin port again next ih =>
    obtain ⟨rfl, rfl, hnext⟩ := hwaits
    -- With the input buffer empty the loop ends at its next check.
    have hempty {m : Machine} (hcpu : m.cpu = .handler flag (.spin keyboardStatusPort
          (fun status => status &&& keyboardStatusInputFull ≠ 0) next))
        (hinput : m.controller.input = none) :
        ∃ m', HandlerSteps image m m' ∧ m'.cpu = .main ∧ m'.interruptsEnabled = flag := by
      obtain ⟨m', hsteps, hend⟩ := ih hnext (m := { m with cpu := .handler flag next }) rfl
      refine ⟨m', .head (.inl ?_) hsteps, hend⟩
      have hdone : m.controller.status &&& keyboardStatusInputFull = 0 := by
        rw [← not_not (a := m.controller.status &&& keyboardStatusInputFull = 0)]
        intro hfull
        have hsome := (I8042.status_input m.controller).mp hfull
        rw [hinput] at hsome
        cases hsome
      simp only [Machine.step, Machine.stepWith, Machine.operation, hcpu, PortProgram.step,
        machinePorts_status, hdone, ne_eq, not_true_eq_false, decide_false, Bool.false_eq_true,
        if_false, Option.map_some]
    cases hinput : m.controller.input with
    | none => exact hempty hcpu hinput
    | some value =>
      obtain ⟨m', hsteps, hend⟩ := hempty (m := { m with controller :=
        { m.controller with
          input := none
          keyboard := m.controller.keyboard.receive value
          taken := m.controller.taken ++ [value] } }) hcpu rfl
      refine ⟨m', .head (.inr ?_) hsteps, hend⟩
      simp only [Machine.step, Machine.stepWith, I8042.pass, hinput, Option.map_some]

/-- No state of the machine is a dead end: a handler can always end, and a byte that is there has
asked for an interrupt. -/
structure NeverStuck (image : KernelImage) (m : Machine) : Prop where
  ends : ∀ flag program, m.cpu = .handler flag program →
    ∃ m', HandlerSteps image m m' ∧ m'.cpu = .main ∧ m'.interruptsEnabled = true
  asked : m.cpu = .main → m.controller.output.isSome = true →
    m.pics.cascaded.request.isSome = true

/-- A line that is enabled and requested gets to the processor when nothing is in service. -/
theorem PicsServe.isSome_request {c : PicPair} {j line : Nat} (h : PicsServe c false j)
    (hline : line = 0 ∨ line = 1) (hirr : c.master.irr.getLsbD line = true) :
    c.cascaded.request.isSome = true := by
  have hidle : c.cascaded.request =
      lowestLine (c.master.irr &&& ~~~(1#8 <<< 2) &&& ~~~c.master.imr) := by
    rw [PicPair.cascaded_of_masked h.slave_mask]
    exact I8259.request_idle h.service
  rw [hidle, Option.isSome_iff_ne_none, Ne, lowestLine_eq_none]
  intro hzero
  have hbit : (c.master.irr &&& ~~~(1#8 <<< 2) &&& ~~~c.master.imr).getLsbD line = false := by
    rw [hzero]
    exact BitVec.getLsbD_zero
  rw [BitVec.getLsbD_and, BitVec.getLsbD_and, hirr, h.mask] at hbit
  revert hbit
  rcases hline with rfl | rfl <;> decide

theorem neverStuck (h : MachineRun image leds steps m) : NeverStuck image m := by
  obtain ⟨tr, ring, ticks, timerWaits, hinv⟩ :=
    machineInv_of_run (P := fun _ => True) h fun _ _ => trivial
  cases hinv.cpu with
  | main hcpu hsees hedges =>
    refine ⟨fun flag program hhandler => ?_, fun _ houtput => ?_⟩
    · rw [hcpu] at hhandler
      cases hhandler
    · refine hsees.pics.isSome_request (.inr rfl) ?_
      rw [hsees.keyboard, houtput]
      rfl
  | handler hcpu hdisabled hline hsees hconforms hwaits hedges =>
    refine ⟨fun flag program hhandler => ?_, fun hmain => ?_⟩
    · rw [hcpu] at hhandler
      obtain ⟨rfl, rfl⟩ := CpuMode.handler.inj hhandler
      exact handler_ends image hwaits hcpu
    · rw [hcpu] at hmain
      cases hmain

/-- Inside `keyboard_set_leds`, with the first byte not taken yet; and after the end of that handler,
with the answer of the keyboard in the output buffer. -/
theorem neverStuck_setLeds :
    (∃ steps m, MachineRun spacedImage 0 steps m ∧
      (m.cpu ≠ .main ∧ m.controller.input = some PcKeyboard.setLeds) ∧
      NeverStuck spacedImage m) ∧
    ∃ steps m, MachineRun spacedImage 0 steps m ∧
      (m.cpu = .main ∧ m.controller.output = some PcKeyboard.ack) ∧
      NeverStuck spacedImage m := by
  constructor
  · obtain ⟨steps, m, hrun, hwaits⟩ := exists_run
      [.sti, .press 0x3A, .forward, .accept, .operation, .operation, .operation]
      (fun _ m => m.cpu ≠ .main ∧ m.controller.input = some PcKeyboard.setLeds)
      (by decide +kernel)
    exact ⟨steps, m, hrun, hwaits, neverStuck hrun⟩
  · obtain ⟨steps, m, hrun, hanswer⟩ := exists_run
      ([.sti, .press 0x3A, .forward, .accept, .operation, .operation, .operation, .pass] ++
        List.replicate 5 .operation ++ [.forward])
      (fun _ m => m.cpu = .main ∧ m.controller.output = some PcKeyboard.ack)
      (by decide +kernel)
    exact ⟨steps, m, hrun, hanswer, neverStuck hrun⟩

/-! ## §6 A byte that was there before -/

/-- The devices when a byte has been in the output buffer from the beginning: the keyboard asks for
nothing, and a handler knows of no byte. -/
structure DeafSees (t : HandlerKnows) (s : PicPair × I8042) : Prop where
  pics : PicsServe s.1 t.inService 0
  silent : s.1.master.irr.getLsbD 1 = false
  full : s.2.output.isSome = true
  unread : t.unread = false
  readOut : s.2.readOut = []

/-- The processor takes timer interrupts only. -/
inductive DeafCpu (m : Machine) : Prop
  | main (hcpu : m.cpu = .main) (hsees : DeafSees .idle (m.pics, m.controller))
  | handler {t : HandlerKnows} {program : PortProgram KernelData}
      (hcpu : m.cpu = .handler true program) (hdisabled : m.interruptsEnabled = false)
      (hsees : DeafSees t (m.pics, m.controller))
      (hconforms : program.Conforms handlerContract (LineDone 0 m.data) t)

theorem keeps_deafSees : PortProgram.Keeps handlerContract machinePorts DeafSees where
  write := by
    intro t t' s port value h hwrite
    simp only [handlerContract] at hwrite
    split at hwrite
    · rename_i heoi
      obtain ⟨rfl, rfl⟩ := heoi
      cases hwrite
      obtain ⟨hserve, hirr⟩ := h.pics.eoi (by decide)
      have hpics : PicPair.device.write s.1 pic1Command OnPorts.picEoi =
          { s.1 with master := s.1.master.endOfInterrupt } := by
        rw [← I8259.writeCommand_eoi]
        rfl
      refine ⟨?_, ?_, h.full, h.unread, h.readOut⟩
      · simp only [machinePorts, hpics]
        exact hserve
      · simp only [machinePorts, hpics, hirr]
        exact h.silent
    · split at hwrite
      · rename_i hnot hdata
        obtain ⟨rfl, -, -⟩ := hdata
        cases hwrite
        exact ⟨h.pics, h.silent, h.full, h.unread, h.readOut⟩
      · cases hwrite
  read := by
    intro t t' s port h hread
    simp only [handlerContract] at hread
    split at hread
    · rename_i hdata
      have hunread := h.unread
      rw [hdata.2] at hunread
      cases hunread
    · split at hread
      · rename_i hnot hport
        subst hport
        cases hread
        exact ⟨h.pics, h.silent, h.full, h.unread, h.readOut⟩
      · cases hread

section deaf

variable {m' : Machine}

/-- Steps of the devices: the keyboard cannot send anything. -/
theorem DeafCpu.devices (h : DeafCpu m) {pics : PicPair} {controller : I8042} {high : Bool}
    {edges lost : Nat}
    (hsees : ∀ t, DeafSees t (m.pics, m.controller) → DeafSees t (pics, controller)) :
    DeafCpu { m with
      pics := pics, controller := controller, timerHigh := high, timerEdges := edges
      timerLost := lost } := by
  cases h with
  | main hcpu hold => exact .main hcpu (hsees _ hold)
  | handler hcpu hdisabled hold hconforms => exact .handler hcpu hdisabled (hsees _ hold) hconforms

/-- Lines other than that of the keyboard go up and down. -/
theorem DeafSees.raise {t : HandlerKnows} {s : PicPair × I8042} (h : DeafSees t s) {line : Nat}
    (hline : line ≠ 1) : DeafSees t (s.1.raise line, s.2) := by
  refine ⟨h.pics.raise line, ?_, h.full, h.unread, h.readOut⟩
  exact (s.1.getLsbD_raise (by decide) line).trans
    (by rw [h.silent, Bool.false_or]; exact decide_eq_false (Ne.symm hline))

theorem DeafSees.lower {t : HandlerKnows} {s : PicPair × I8042} (h : DeafSees t s) (line : Nat) :
    DeafSees t (s.1.lower line, s.2) := by
  refine ⟨h.pics.lower line, ?_, h.full, h.unread, h.readOut⟩
  exact (s.1.getLsbD_lower (by decide) line).trans (by rw [h.silent]; exact Bool.false_and _)

theorem DeafCpu.timer (h : DeafCpu m) : DeafCpu m.timer := by
  unfold Machine.timer
  split
  · exact h.devices fun t hsees => hsees.lower 0
  · exact h.devices fun t hsees => hsees.raise (by decide)

theorem DeafCpu.otherLine (h : DeafCpu m) {line : Nat} {up : Bool}
    (hstep : m.otherLine line up = some m') : DeafCpu m' := by
  unfold Machine.otherLine at hstep
  split at hstep
  · rename_i hline
    cases hstep
    cases up with
    | true => exact h.devices fun t hsees => hsees.raise (by omega)
    | false => exact h.devices fun t hsees => hsees.lower line
  · cases hstep

/-- The only interrupt that comes is the timer's. -/
theorem DeafCpu.accept (h : DeafCpu m) (henabled : m.interruptsEnabled = true)
    (hready : m.pics.cascaded.request.isSome = true) : DeafCpu (m.accept image) := by
  obtain ⟨line, hline⟩ := Option.isSome_iff_exists.mp hready
  cases h with
  | handler _ hdisabled =>
    rw [henabled] at hdisabled
    cases hdisabled
  | main hcpu hsees =>
    obtain ⟨-, hsmall, hrequested⟩ := hsees.pics.request hline
    obtain ⟨-, hserve, hirr⟩ := hsees.pics.acknowledge hline
    have hsilent : m.pics.master.irr.getLsbD 1 = false := hsees.silent
    rcases hsmall with rfl | rfl
    · rw [Machine.accept_eq hsees.pics hline hcpu, henabled]
      refine .handler (t := .entered 0) rfl rfl
        ⟨hserve, ?_, hsees.full, rfl, hsees.readOut⟩ (lineProgram_conforms (.inl rfl) m.data).1
      rw [hirr 1 (by decide), hsilent]
      rfl
    · rw [hsilent] at hrequested
      cases hrequested

theorem DeafCpu.operation (h : DeafCpu m) (hstep : m.operation = some m') : DeafCpu m' := by
  unfold Machine.operation at hstep
  cases h with
  | main hcpu =>
    rw [hcpu] at hstep
    cases hstep
  | @handler t program hcpu hdisabled hsees hconforms =>
    rw [hcpu] at hstep
    cases program with
    | done d =>
      cases hstep
      obtain ⟨hservice, -, -, -, -⟩ : TimerDone m.data t d := hconforms
      have hpics := hsees.pics
      rw [hservice] at hpics
      exact .main rfl ⟨hpics, hsees.silent, hsees.full, rfl, hsees.readOut⟩
    | write port value next =>
      cases hstep
      obtain ⟨t', hsees', hconforms'⟩ := hconforms.step keeps_deafSees hsees rfl
      exact .handler rfl hdisabled hsees' hconforms'
    | read port next =>
      cases hstep
      obtain ⟨t', hsees', hconforms'⟩ := hconforms.step keeps_deafSees hsees rfl
      exact .handler rfl hdisabled hsees' hconforms'
    | spin port again next =>
      cases hstep
      obtain ⟨t', hsees', hconforms'⟩ := hconforms.step keeps_deafSees hsees rfl
      exact .handler rfl hdisabled hsees' hconforms'

theorem DeafCpu.full (h : DeafCpu m) :
    m.controller.output.isSome = true ∧ m.controller.readOut = [] := by
  cases h with
  | main _ hsees => exact ⟨hsees.full, hsees.readOut⟩
  | handler _ _ hsees _ => exact ⟨hsees.full, hsees.readOut⟩

theorem DeafCpu.getStep (h : DeafCpu m) {i : RingStep} (hstep : m.getStep i = some m') :
    DeafCpu m' := by
  unfold Machine.getStep at hstep
  split at hstep
  · rename_i hmain
    obtain ⟨next, -, rfl⟩ := Option.map_eq_some_iff.mp hstep
    cases h with
    | main hcpu hsees => exact .main hcpu hsees
    | handler hcpu =>
      rw [hmain] at hcpu
      cases hcpu
  · cases hstep

/-- The keyboard stays unheard. -/
theorem DeafCpu.step (h : DeafCpu m) {i : MachineStep} (hstep : m.step image i = some m') :
    DeafCpu m' := by
  cases i with
  | sti =>
    change m.sti = some m' at hstep
    unfold Machine.sti at hstep
    split at hstep
    · rename_i hmain
      cases hstep
      cases h with
      | main hcpu hsees => exact .main hcpu hsees
      | handler hcpu =>
        rw [hmain] at hcpu
        cases hcpu
    · cases hstep
  | press value =>
    cases hstep
    exact h.devices fun t hsees => ⟨hsees.pics, hsees.silent, hsees.full, hsees.unread, hsees.readOut⟩
  | forward =>
    obtain ⟨controller, hc, rfl⟩ := Option.map_eq_some_iff.mp hstep
    obtain ⟨_, _, hnone, -, -⟩ := I8042.forward_eq_some hc
    have hfull := h.full.1
    rw [hnone] at hfull
    cases hfull
  | pass =>
    obtain ⟨controller, hc, rfl⟩ := Option.map_eq_some_iff.mp hstep
    obtain ⟨value, -, rfl⟩ := Option.map_eq_some_iff.mp hc
    exact h.devices fun t hsees => ⟨hsees.pics, hsees.silent, hsees.full, hsees.unread, hsees.readOut⟩
  | timer =>
    cases hstep
    exact h.timer
  | otherLine line up => exact h.otherLine hstep
  | accept =>
    simp only [Machine.step, Machine.stepWith] at hstep
    split at hstep
    · rename_i hready
      cases hstep
      exact h.accept hready.1 hready.2
    · cases hstep
  | operation => exact h.operation hstep
  | getCall => exact h.getStep hstep
  | getStatement => exact h.getStep hstep

/-- A byte in the output buffer whose request is gone. -/
theorem DeafCpu.afterInit (h : m.AfterInit leds) (hfull : m.controller.output.isSome = true) :
    DeafCpu m := by
  obtain ⟨c, rose, hpics, -⟩ := h.timer
  obtain ⟨hserve, -, hsilent⟩ := picsServe_kernel c rose
  refine .main h.cpu ⟨?_, ?_, hfull, rfl, h.controller.readOut⟩
  · rw [hpics]
    exact hserve
  · rw [hpics]
    exact hsilent

end deaf

/-- Some run gets a byte from the keyboard. -/
def KeyboardHeard (image : KernelImage) (m : Machine) : Prop :=
  ∃ steps m', Run (· = m) (fun m i m' => m.step image i = some m') steps m' ∧
    m'.controller.readOut ≠ []

theorem step_accept (henabled : m.interruptsEnabled = true)
    (hready : m.pics.cascaded.request.isSome = true) :
    m.step image .accept = some (m.accept image) :=
  if_pos ⟨henabled, hready⟩

/-- The keyboard handler reads its byte first. -/
theorem operation_keyboard (hcpu : m.cpu = .handler true (lineProgram 1 m.data)) :
    ∃ m', m.operation = some m' ∧ m'.controller = m.controller.readData.2 := by
  unfold Machine.operation
  rw [hcpu]
  exact ⟨_, rfl, rfl⟩

/-- A key is pressed, and the handler reads its byte. -/
theorem keyboardHeard_of_empty (image : KernelImage) (h : m.Initial leds) :
    KeyboardHeard image m := by
  -- The output of the timer goes down first, so that no timer interrupt waits.
  have hrun₁ : Run (· = m) (fun m i m' => m.step image i = some m') [(m, .timer)] m.timer :=
    .snoc (.start rfl) rfl
  obtain ⟨timerWaits, hinv₀⟩ := MachineInv.initial (fun _ => True) h
  have hinv₁ := hinv₀.timerStep
  rw [h.1.timerHigh] at hinv₁
  have htimer : m.timer = { m with
      pics := m.pics.lower 0
      timerHigh := false
      timerLost := m.timerLost + (m.pics.master.irr.getLsbD 0).toNat } := if_pos h.1.timerHigh
  generalize m.timer = low at hrun₁ hinv₁ htimer
  have hcontroller : low.controller = m.controller := by rw [htimer]
  have hcpu : low.cpu = .main := by rw [htimer]; exact h.1.cpu
  have hrun₂ : Run (· = m) (fun m i m' => m.step image i = some m') _
      { low with controller := low.controller.press 0x1E } := hrun₁.snoc (i := .press 0x1E) rfl
  have hinv₂ := hinv₁.press 0x1E
  obtain ⟨controller, hforward⟩ : ∃ controller, (low.controller.press 0x1E).forward =
      some controller := by
    have hsend : (low.controller.press 0x1E).keyboard.toSend = [0x1E] := by
      simp only [I8042.press, hcontroller, h.1.controller.keyboard, List.nil_append]
    have hnone : (low.controller.press 0x1E).output = none := by
      rw [hcontroller]
      exact h.2
    unfold I8042.forward
    rw [hnone, hsend]
    exact ⟨_, rfl⟩
  have hfull : controller.output.isSome = true := by
    obtain ⟨_, _, -, -, rfl⟩ := I8042.forward_eq_some hforward
    rfl
  have hinv₃ := hinv₂.forward hforward
  let heard : Machine := { low with controller := controller, pics := low.pics.raise 1 }
  let enabled : Machine := { heard with interruptsEnabled := true }
  have hstep₃ : Machine.step image { low with controller := low.controller.press 0x1E } .forward =
      some heard := by
    simp only [Machine.step, Machine.stepWith, hforward]
    rfl
  have hrun₃ := hrun₂.snoc hstep₃
  have hstep₄ : heard.step image .sti = some enabled := by
    simp only [heard, enabled, Machine.step, Machine.stepWith, Machine.sti, hcpu]
  have hrun₄ := hrun₃.snoc hstep₄
  cases hinv₃.cpu with
  | handler hhandler =>
    have hmain := hcpu.symm.trans hhandler
    cases hmain
  | main _ hsees hedges =>
    have hirr : (low.pics.raise 1).master.irr.getLsbD 1 = true := by
      have hkeyboard := hsees.keyboard
      rwa [hfull] at hkeyboard
    obtain ⟨line, hline⟩ := Option.isSome_iff_exists.mp (hsees.pics.isSome_request (.inr rfl) hirr)
    -- The request is that of the keyboard.
    have hone : line = 1 := by
      obtain ⟨-, hsmall, hrequested⟩ := hsees.pics.request hline
      refine hsmall.resolve_left ?_
      rintro rfl
      have htimer := hsees.timer
      rw [hrequested] at htimer
      cases htimer
    subst hone
    have hrun₅ := hrun₄.snoc (step_accept rfl (by rw [hline]; rfl))
    have haccept : enabled.accept image = _ := Machine.accept_eq hsees.pics hline hcpu
    rw [haccept] at hrun₅
    obtain ⟨m', hstep, hread⟩ := operation_keyboard (m := { low with
      controller := controller, pics := (low.pics.raise 1).acknowledge.2
      interruptsEnabled := false, cpu := .handler true (lineProgram 1 low.data) }) rfl
    refine ⟨_, m', hrun₅.snoc (i := MachineStep.operation) hstep, ?_⟩
    rw [hread]
    exact List.append_ne_nil_of_right_ne_nil _ (List.cons_ne_nil _ _)

/-- The keyboard is heard exactly when nothing was in the output buffer: a byte from before stays
there for good, and with it everything that is typed afterwards. -/
theorem keyboardHeard_iff (image : KernelImage) (h : m.AfterInit leds) :
    KeyboardHeard image m ↔ m.controller.output = none := by
  constructor
  · rintro ⟨steps, m', hrun, hread⟩
    by_contra hfull
    have hdeaf : DeafCpu m' := hrun.inv DeafCpu
      (fun m₀ hinit => by rw [hinit]; exact .afterInit h (Option.isSome_iff_ne_none.mpr hfull))
      fun _ _ _ hinv hstep => hinv.step hstep
    exact hread hdeaf.full.2
  · exact fun hempty => keyboardHeard_of_empty image ⟨h, hempty⟩

/-- A key pressed during boot. -/
theorem keyboardHeard_iff_pressed :
    KeyboardHeard spacedImage (initialMachine (some 0x1E)) ↔
      (initialMachine (some 0x1E)).controller.output = none :=
  keyboardHeard_iff spacedImage (initialMachine_afterInit (some 0x1E))

end KyroKernel
