import KyroKernel.Foundations.Run
import KyroKernel.Interrupts.Handlers
import KyroKernel.Interrupts.Idt

/-!
# Hardware interrupts as a system

The two interrupt controllers, the timer's output, the keyboard with its controller, and the
processor, which runs `keyboard_buffer_get` in the kernel and takes interrupts between any two of its
statements. A handler does one port operation as a step, so bytes, keys and timer ticks come in at any
moment between them. The system starts after `kernel_init`, with interrupts still disabled; what the
devices do while `kernel_init` goes on after `pic_init` comes to the same as what they do before `sti`.
-/

namespace KyroKernel

open Foundations

/-! ## §1 The machine -/

/-- Where the linker has put the code and the table, and what memory held before `idt_init`. -/
structure KernelImage where
  addr : GateTarget → Word
  code : Word → Option GateTarget
  code_addr : ∀ target, code (addr target) = some target
  idt : Word
  before : Mem

/-- The memory with the table. -/
def KernelImage.mem (image : KernelImage) : Mem :=
  (afterIdtInit image.idt image.addr image.before).1

/-- The register that points to the table. -/
def KernelImage.idtr (image : KernelImage) : Idtr :=
  (afterIdtInit image.idt image.addr image.before).2

/-- What the processor does: the program that interrupts come to, or a handler, with the interrupt
flag that it restores, or something that the kernel has no code for. -/
inductive CpuMode where
  | main
  | handler (flag : Bool) (program : PortProgram KernelData)
  | lost

/-- The machine, the scancodes that gets have returned, the number of times that the output of the
timer went up, and how often it went down with its interrupt still waiting. -/
structure Machine where
  pics : PicPair
  controller : I8042
  timerHigh : Bool
  interruptsEnabled : Bool
  cpu : CpuMode
  data : KernelData
  get : GetPc
  returned : List Byte
  timerEdges : Nat
  timerLost : Nat

/-- The ports of the controllers. The line of the keyboard falls when its byte is read. -/
def machinePorts : PortDevice (PicPair × I8042) where
  write s port value :=
    (PicPair.device.write s.1 port value, I8042.device.write s.2 port value)
  read s port :=
    if port = keyboardDataPort then
      ((I8042.device.read s.2 port).1, s.1.lower 1, (I8042.device.read s.2 port).2)
    else if port = keyboardStatusPort then
      ((I8042.device.read s.2 port).1, s.1, (I8042.device.read s.2 port).2)
    else ((PicPair.device.read s.1 port).1, (PicPair.device.read s.1 port).2, s.2)

/-- The code that a gate leads to. -/
def handlerProgram : GateTarget → Option (KernelData → PortProgram KernelData)
  | .stub .timerHandlerAsm => some (OnPorts.irqCommonStub OnPorts.timerHandler)
  | .stub .keyboardHandlerAsm => some (OnPorts.irqCommonStub OnPorts.keyboardInterruptHandler)
  | _ => none

/-- What interrupts come to: the kernel in ring 0, which loads no task register. -/
def kernelCode : Interrupted := ⟨0, false⟩

namespace Machine

/-- The processor takes an interrupt; handlers are not made to be interrupted. -/
def accept (image : KernelImage) (m : Machine) : Machine :=
  let vector := m.pics.acknowledge.1
  let pics := m.pics.acknowledge.2
  match m.cpu, deliver image.mem image.idtr kernelCode .external vector with
  | .main, .handler _ gate =>
    match (image.code gate.offset).bind handlerProgram with
    | some program =>
      { m with
        pics := pics
        cpu := .handler m.interruptsEnabled (program m.data)
        interruptsEnabled := m.interruptsEnabled && !gate.masksInterrupts }
    | none => { m with pics := pics, cpu := .lost }
  | _, _ => { m with pics := pics, cpu := .lost }

/-- The next port operation of a handler, or its `iret`. -/
def operation (m : Machine) : Option Machine :=
  match m.cpu with
  | .handler flag (.done d) => some { m with cpu := .main, interruptsEnabled := flag, data := d }
  | .handler flag program =>
    (program.step machinePorts (m.pics, m.controller)).map fun s =>
      { m with cpu := .handler flag s.1, pics := s.2.1, controller := s.2.2 }
  | _ => none

/-- A step of a get, in the program that interrupts come to. -/
def getStep (m : Machine) (i : RingStep) : Option Machine :=
  match m.cpu with
  | .main =>
    ((⟨m.data.keyboard, m.get, [], m.returned⟩ : RingSystem).step i).map fun ring =>
      { m with data := { m.data with keyboard := ring.state }, get := ring.pc
               returned := ring.returned }
  | _ => none

/-- `sti` of `kernel_main`. -/
def sti (m : Machine) : Option Machine :=
  match m.cpu with
  | .main => some { m with interruptsEnabled := true }
  | _ => none

/-- The output of the timer turns over. -/
def timer (m : Machine) : Machine :=
  if m.timerHigh then
    { m with
      pics := m.pics.lower 0
      timerHigh := false
      timerLost := m.timerLost + (m.pics.master.irr.getLsbD 0).toNat }
  else
    { m with pics := m.pics.raise 0, timerHigh := true, timerEdges := m.timerEdges + 1 }

/-- The line of a device that the kernel does not use goes up or down. -/
def otherLine (m : Machine) (line : Nat) (up : Bool) : Option Machine :=
  if 2 < line ∧ line < 16 then
    some { m with pics := if up then m.pics.raise line else m.pics.lower line }
  else none

end Machine

/-- The steps of the processor and of the devices. -/
inductive MachineStep where
  | sti
  | press (value : Byte)
  | forward
  | pass
  | timer
  | otherLine (line : Nat) (up : Bool)
  | accept
  | operation
  | getCall
  | getStatement

/-- One step, with what it means to take an interrupt. A byte that gets into the output buffer makes
an edge on line 1. -/
def Machine.stepWith (take : Machine → Machine) (m : Machine) : MachineStep → Option Machine
  | .sti => m.sti
  | .press value => some { m with controller := m.controller.press value }
  | .forward =>
    m.controller.forward.map fun c => { m with controller := c, pics := m.pics.raise 1 }
  | .pass => m.controller.pass.map fun c => { m with controller := c }
  | .timer => some m.timer
  | .otherLine line up => m.otherLine line up
  | .accept =>
    if m.interruptsEnabled = true ∧ m.pics.cascaded.request.isSome = true then some (take m)
    else none
  | .operation => m.operation
  | .getCall => m.getStep .call
  | .getStatement => m.getStep .statement

/-- One step of the machine, which finds handlers through the table. -/
def Machine.step (image : KernelImage) (m : Machine) (i : MachineStep) : Option Machine :=
  m.stepWith (Machine.accept image) i

/-- The calls of `kernel_init` for the two lines that it uses, latest first. -/
def kernelPicCalls : List PicCall :=
  [{ enable := true, irq := 1, irq_lt := by decide, not_cascade := by decide },
    { enable := true, irq := 0, irq_lt := by decide, not_cascade := by decide }]

/-- The controllers after `kernel_init`. The control word of `timer_init` lifts the output of the
timer, which is an edge if the output was low. -/
def picsAfterInit (c : PicPair) (rose : Bool) : PicPair :=
  if rose then (pairAfterCalls c kernelPicCalls).raise 0 else pairAfterCalls c kernelPicCalls

/-- After `kernel_init`, with some LEDs and the output buffer as they are then. -/
structure Machine.AfterInit (leds : Byte) (m : Machine) : Prop where
  timer : ∃ c rose, m.pics = picsAfterInit c rose ∧ m.timerEdges = rose.toNat
  timerHigh : m.timerHigh = true
  controller : m.controller.Started leds
  disabled : m.interruptsEnabled = false
  cpu : m.cpu = .main
  keyboard : ∃ s, m.data.keyboard = keyboardInit s
  tickCount : m.data.tickCount = 0
  get : m.get = .idle
  returned : m.returned = []
  timerLost : m.timerLost = 0

/-- The output buffer was empty when `pic_init` reset the requests. -/
def Machine.Initial (leds : Byte) (m : Machine) : Prop :=
  m.AfterInit leds ∧ m.controller.output = none

/-- The runs of the machine. -/
abbrev MachineRun (image : KernelImage) (leds : Byte) (tr : List (Machine × MachineStep))
    (m : Machine) : Prop :=
  Run (Machine.Initial leds) (fun m i m' => m.step image i = some m') tr m

/-! ## §2 What a handler keeps -/

/-- The bits of a line that may be in service. -/
def serviceBits (inService : Bool) (line : Nat) : Byte := if inService then 1#8 <<< line else 0

/-- The master is programmed as by `kernel_init`, with this line in service, and the slave lets
nothing through. -/
structure PicsServe (c : PicPair) (inService : Bool) (line : Nat) : Prop where
  ready : c.master.waitsFor = none
  base : c.master.base = 32
  not_auto : c.master.autoEoi = false
  mask : c.master.imr = 0xFC
  slave_mask : c.slave.imr = 0xFF
  service : c.master.isr = serviceBits inService line

/-- The devices are as a handler for `line` knows them, with the bytes that were read and written
before it, and a timer interrupt that waits or not. -/
structure HandlerSees (line : Nat) (timerWaits : Bool) (received commands : List Byte)
    (t : HandlerKnows) (s : PicPair × I8042) : Prop where
  pics : PicsServe s.1 t.inService line
  timer : s.1.master.irr.getLsbD 0 = timerWaits
  /-- The keyboard interrupt waits exactly for the byte in the output buffer. -/
  keyboard : s.1.master.irr.getLsbD 1 = (s.2.output.isSome && !t.unread)
  unread : t.unread = true → s.2.output.isSome = true
  inputEmpty : t.inputEmpty = true → s.2.input = none
  ordered : s.2.Ordered
  readOut : s.2.readOut = received ++ t.received
  once : t.received.length + t.unread.toNat ≤ 1
  written : s.2.written = commands ++ t.commands
  command : t.commands = [] ∨ t.commands = [PcKeyboard.setLeds] ∨
    ∃ l, l ≠ PcKeyboard.setLeds ∧ t.commands = [PcKeyboard.setLeds, l]

section sees

variable {line : Nat} {timerWaits : Bool} {received commands : List Byte} {t : HandlerKnows}
  {s : PicPair × I8042} {value : Byte} {c c' : PicPair} {k : I8042}

theorem NextOfCommand.append (h : NextOfCommand t.commands value) :
    t.commands ++ [value] = [PcKeyboard.setLeds] ∨
      ∃ l, l ≠ PcKeyboard.setLeds ∧ t.commands ++ [value] = [PcKeyboard.setLeds, l] := by
  rcases h with ⟨hnil, rfl⟩ | ⟨hone, hne⟩
  · exact .inl (by rw [hnil]; rfl)
  · exact .inr ⟨value, hne, by rw [hone]; rfl⟩

/-- An end of interrupt at the master ends the line in service, if there is one. -/
theorem PicsServe.eoi (h : PicsServe c t.inService line) (hline : line < 8) :
    PicsServe { c with master := c.master.endOfInterrupt } false line ∧
      c.master.endOfInterrupt.irr = c.master.irr := by
  have hservice := h.service
  unfold serviceBits at hservice
  cases hin : t.inService with
  | true =>
    rw [hin, if_pos rfl] at hservice
    rw [I8259.endOfInterrupt_last hline hservice]
    exact ⟨⟨h.ready, h.base, h.not_auto, h.mask, h.slave_mask, rfl⟩, rfl⟩
  | false =>
    rw [hin, if_neg Bool.false_ne_true] at hservice
    rw [I8259.endOfInterrupt_idle hservice]
    exact ⟨⟨h.ready, h.base, h.not_auto, h.mask, h.slave_mask, hservice⟩, rfl⟩

/-- Lines do not change what is programmed or in service. -/
theorem PicsServe.raise {inService : Bool} (h : PicsServe c inService line) (j : Nat) :
    PicsServe (c.raise j) inService line := by
  unfold PicPair.raise
  split
  · exact ⟨h.ready, h.base, h.not_auto, h.mask, h.slave_mask, h.service⟩
  · exact ⟨h.ready, h.base, h.not_auto, h.mask, h.slave_mask, h.service⟩

theorem PicsServe.lower {inService : Bool} (h : PicsServe c inService line) (j : Nat) :
    PicsServe (c.lower j) inService line := by
  unfold PicPair.lower
  split
  · exact ⟨h.ready, h.base, h.not_auto, h.mask, h.slave_mask, h.service⟩
  · exact ⟨h.ready, h.base, h.not_auto, h.mask, h.slave_mask, h.service⟩

/-- What a handler knows stays true through all that it may do. -/
theorem keeps_handlerSees (hline : line < 8) (timerWaits : Bool) (received commands : List Byte) :
    PortProgram.Keeps handlerContract machinePorts
      (HandlerSees line timerWaits received commands) where
  write := by
    intro t t' s port value h hwrite
    simp only [handlerContract] at hwrite
    split at hwrite
    · rename_i heoi
      obtain ⟨rfl, rfl⟩ := heoi
      cases hwrite
      obtain ⟨hserve, hirr⟩ := h.pics.eoi hline
      have hpics : PicPair.device.write s.1 pic1Command OnPorts.picEoi =
          { s.1 with master := s.1.master.endOfInterrupt } := by
        rw [← I8259.writeCommand_eoi]
        rfl
      have hctrl : I8042.device.write s.2 pic1Command OnPorts.picEoi = s.2 := rfl
      refine ⟨?_, ?_, ?_, h.unread, h.inputEmpty, h.ordered, h.readOut, h.once,
        h.written, h.command⟩
      · simp only [machinePorts, hpics]
        exact hserve
      · simp only [machinePorts, hpics, hirr]
        exact h.timer
      · simp only [machinePorts, hpics, hctrl, hirr]
        exact h.keyboard
    · split at hwrite
      · rename_i hnot hdata
        obtain ⟨rfl, hempty, hnext⟩ := hdata
        cases hwrite
        refine ⟨h.pics, h.timer, h.keyboard, h.unread, fun hfalse => ?_,
          h.ordered.writeData (h.inputEmpty hempty) value, h.readOut, h.once, ?_,
          .inr hnext.append⟩
        · cases hfalse
        · change s.2.written ++ [value] = _
          rw [h.written, List.append_assoc]
      · cases hwrite
  read := by
    intro t t' s port h hread
    simp only [handlerContract] at hread
    split at hread
    · rename_i hdata
      obtain ⟨rfl, hunread⟩ := hdata
      cases hread
      have hkeyboard := h.keyboard
      rw [hunread, Bool.not_true, Bool.and_false] at hkeyboard
      refine ⟨h.pics.lower 1, ?_, ?_, fun hfalse => ?_, h.inputEmpty,
        h.ordered.readData (h.unread hunread), ?_, ?_, h.written, h.command⟩
      · exact (s.1.getLsbD_lower (by decide) 1).trans (by rw [h.timer]; exact Bool.and_true _)
      · exact (s.1.getLsbD_lower (by decide) 1).trans (Bool.and_false _)
      · cases hfalse
      · change s.2.readOut ++ [_] = _
        rw [h.readOut, List.append_assoc]
        rfl
      · have honce := h.once
        rw [hunread, Bool.toNat_true] at honce
        rw [List.length_append, List.length_singleton, Bool.toNat_false]
        omega
    · split at hread
      · rename_i hnot hport
        subst hport
        cases hread
        refine ⟨h.pics, h.timer, h.keyboard, h.unread, fun hempty => ?_, h.ordered, h.readOut,
          h.once, h.written, h.command⟩
        change s.2.input = none
        rcases Bool.or_eq_true _ _ |>.mp hempty with hold | hstatus
        · exact h.inputEmpty hold
        · rw [← Option.not_isSome_iff_eq_none, ← I8042.status_input, not_not]
          exact eq_of_beq hstatus
      · cases hread

/-! ### Devices in between -/

/-- The next byte of the keyboard comes only when the one before was read. -/
theorem HandlerSees.forward (h : HandlerSees line timerWaits received commands t s)
    (hk : s.2.forward = some k) :
    HandlerSees line timerWaits received commands t (s.1.raise 1, k) := by
  have hordered := h.ordered.forward hk
  obtain ⟨value, rest, hout, -, rfl⟩ := I8042.forward_eq_some hk
  have hread : t.unread = false := by
    rw [Bool.eq_false_iff]
    intro hunread
    have hsome := h.unread hunread
    rw [hout] at hsome
    cases hsome
  refine ⟨h.pics.raise 1, ?_, ?_, fun hunread => ?_, h.inputEmpty, hordered, h.readOut, h.once,
    h.written, h.command⟩
  · exact (s.1.getLsbD_raise (by decide) 1).trans (by rw [h.timer]; exact Bool.or_false _)
  · refine (s.1.getLsbD_raise (by decide) 1).trans ?_
    rw [hread]
    exact Bool.or_true _
  · rw [hread] at hunread
    cases hunread

theorem HandlerSees.press (h : HandlerSees line timerWaits received commands t s) (value : Byte) :
    HandlerSees line timerWaits received commands t (s.1, s.2.press value) :=
  ⟨h.pics, h.timer, h.keyboard, h.unread, h.inputEmpty, h.ordered.press value, h.readOut, h.once,
    h.written, h.command⟩

/-- The controller hands a byte on, so it can take the next one. -/
theorem HandlerSees.pass (h : HandlerSees line timerWaits received commands t s)
    (hk : s.2.pass = some k) : HandlerSees line timerWaits received commands t (s.1, k) := by
  obtain ⟨hordered, hempty⟩ := h.ordered.pass hk
  obtain ⟨value, -, rfl⟩ := Option.map_eq_some_iff.mp hk
  exact ⟨h.pics, h.timer, h.keyboard, h.unread, fun _ => hempty, hordered, h.readOut, h.once,
    h.written, h.command⟩

/-- Lines that do not change the request of the keyboard. -/
theorem HandlerSees.lines (h : HandlerSees line timerWaits received commands t s) {w : Bool}
    (hserve : PicsServe c t.inService line) (htimer : c.master.irr.getLsbD 0 = w)
    (hkeyboard : c.master.irr.getLsbD 1 = s.1.master.irr.getLsbD 1) :
    HandlerSees line w received commands t (c, s.2) :=
  ⟨hserve, htimer, hkeyboard.trans h.keyboard, h.unread, h.inputEmpty, h.ordered, h.readOut, h.once,
    h.written, h.command⟩

/-- The timer asks for an interrupt. -/
theorem HandlerSees.timerRises (h : HandlerSees line timerWaits received commands t s) :
    HandlerSees line true received commands t (s.1.raise 0, s.2) :=
  h.lines (h.pics.raise 0) ((s.1.getLsbD_raise (by decide) 0).trans (Bool.or_true _))
    ((s.1.getLsbD_raise (by decide) 0).trans (Bool.or_false _))

/-- The timer asks no more. -/
theorem HandlerSees.timerFalls (h : HandlerSees line timerWaits received commands t s) :
    HandlerSees line false received commands t (s.1.lower 0, s.2) :=
  h.lines (h.pics.lower 0) ((s.1.getLsbD_lower (by decide) 0).trans (Bool.and_false _))
    ((s.1.getLsbD_lower (by decide) 0).trans (Bool.and_true _))

/-- The lines of other devices are not seen. -/
theorem HandlerSees.otherLine (h : HandlerSees line timerWaits received commands t s) {j : Nat}
    (hj : 2 < j) (up : Bool) : HandlerSees line timerWaits received commands t
      (if up then s.1.raise j else s.1.lower j, s.2) := by
  have hne : decide (0 = j) = false ∧ decide (1 = j) = false ∧ decide (0 ≠ j) = true ∧
      decide (1 ≠ j) = true := by
    refine ⟨decide_eq_false ?_, decide_eq_false ?_, decide_eq_true ?_, decide_eq_true ?_⟩
    all_goals omega
  cases up with
  | true =>
    refine h.lines (h.pics.raise j) ?_ ?_
    · rw [if_pos rfl, s.1.getLsbD_raise (by decide), hne.1, Bool.or_false, h.timer]
    · rw [if_pos rfl, s.1.getLsbD_raise (by decide), hne.2.1, Bool.or_false]
  | false =>
    refine h.lines (h.pics.lower j) ?_ ?_
    · rw [if_neg Bool.false_ne_true, s.1.getLsbD_lower (by decide), hne.2.2.1, Bool.and_true, h.timer]
    · rw [if_neg Bool.false_ne_true, s.1.getLsbD_lower (by decide), hne.2.2.2, Bool.and_true]

end sees

/-! ## §3 Taking an interrupt -/

section take

variable {c : PicPair} {line j : Nat}

/-- Of the lines that are enabled the timer goes first. -/
theorem PicsServe.request (h : PicsServe c false j) (hline : c.cascaded.request = some line) :
    c.cascaded = { c.master with irr := c.master.irr &&& ~~~(1#8 <<< 2) } ∧
      (line = 0 ∨ line = 1) ∧ c.master.irr.getLsbD line = true := by
  have hcascaded := PicPair.cascaded_of_masked h.slave_mask
  obtain ⟨hlt, hirr, himr⟩ := I8259.request_spec hline
  rw [hcascaded] at hirr himr
  have hbit : c.master.imr.getLsbD line = false := himr
  rw [h.mask] at hbit
  have hopen : ∀ i < 8, (0xFC : Byte).getLsbD i = false → i = 0 ∨ i = 1 := by decide
  have hsmall := hopen line hlt hbit
  refine ⟨hcascaded, hsmall, ?_⟩
  have hand : (c.master.irr &&& ~~~(1#8 <<< 2)).getLsbD line = true := hirr
  rw [BitVec.getLsbD_and, Bool.and_eq_true] at hand
  exact hand.1

/-- The processor gets the vector of the line, which is in service then and requested no more. -/
theorem PicsServe.acknowledge (h : PicsServe c false j) (hline : c.cascaded.request = some line) :
    c.acknowledge.1 = 32 + BitVec.ofNat 8 line ∧ PicsServe c.acknowledge.2 true line ∧
      ∀ i < 2, c.acknowledge.2.master.irr.getLsbD i =
        (c.master.irr.getLsbD i && decide (i ≠ line)) := by
  obtain ⟨hcascaded, hsmall, -⟩ := h.request hline
  have hne : ¬ (c.cascaded.request = some 2 ∧ c.cascaded.cascade.getLsbD 2 = true) := by
    rintro ⟨htwo, -⟩
    rw [hline, Option.some_inj] at htwo
    omega
  have hack : c.acknowledge =
      (c.cascaded.vector line, { c with master := c.cascaded.serve line }) := by
    rw [PicPair.acknowledge, if_neg hne, I8259.acknowledge, hline]
  rw [hack, hcascaded]
  refine ⟨?_, ⟨h.ready, h.base, h.not_auto, h.mask, h.slave_mask, ?_⟩, fun i hi => ?_⟩
  · change c.master.base + BitVec.ofNat 8 line = _
    rw [h.base]
  · change (if c.master.autoEoi then _ else c.master.isr ||| 1#8 <<< line) = _
    have hservice : c.master.isr = 0 := h.service
    rw [h.not_auto, if_neg Bool.false_ne_true, hservice]
    exact BitVec.zero_or
  · change (c.master.irr &&& ~~~(1#8 <<< 2) &&& ~~~(1#8 <<< line)).getLsbD i = _
    have hbits : ∀ i < 2, (~~~(1#8 <<< 2)).getLsbD i = true ∧
        ∀ line, line = 0 ∨ line = 1 → (~~~(1#8 <<< line)).getLsbD i = decide (i ≠ line) := by
      intro i hi
      have hcases : i = 0 ∨ i = 1 := by omega
      refine ⟨by rcases hcases with rfl | rfl <;> decide, ?_⟩
      rintro line (rfl | rfl) <;> rcases hcases with rfl | rfl <;> decide
    obtain ⟨hcascade, hother⟩ := hbits i hi
    rw [BitVec.getLsbD_and, BitVec.getLsbD_and, hcascade, Bool.and_true, hother line hsmall]

/-- The code of a line. -/
def lineTarget (line : Nat) : GateTarget :=
  if line = 0 then .stub .timerHandlerAsm else .stub .keyboardHandlerAsm

def lineProgram (line : Nat) : KernelData → PortProgram KernelData :=
  OnPorts.irqCommonStub (if line = 0 then OnPorts.timerHandler else OnPorts.keyboardInterruptHandler)

/-- The machine takes an interrupt of an enabled line: its handler starts, with interrupts
disabled. -/
theorem Machine.accept_eq {image : KernelImage} {m : Machine} (h : PicsServe m.pics false j)
    (hline : m.pics.cascaded.request = some line) (hcpu : m.cpu = .main) :
    m.accept image =
      { m with
        pics := m.pics.acknowledge.2
        cpu := .handler m.interruptsEnabled (lineProgram line m.data)
        interruptsEnabled := false } := by
  obtain ⟨hvector, -, -⟩ := h.acknowledge hline
  obtain ⟨-, hsmall, -⟩ := h.request hline
  have htarget : gateTarget (32 + BitVec.ofNat 8 line) = some (lineTarget line) := by
    rcases hsmall with rfl | rfl <;> decide
  have hprogram : handlerProgram (lineTarget line) = some (lineProgram line) := by
    rcases hsmall with rfl | rfl <;> rfl
  have hdeliver : deliver image.mem image.idtr kernelCode .external (32 + BitVec.ofNat 8 line) =
      .handler (32 + BitVec.ofNat 8 line)
        (kernelGate image.addr (32 + BitVec.ofNat 8 line) (lineTarget line)) :=
    deliver_target (.inl rfl) htarget (mayDeliver_of_ne (by decide) _ _)
  have hmasks : (kernelGate image.addr (32 + BitVec.ofNat 8 line)
      (lineTarget line)).masksInterrupts = true := masksInterrupts_kernelGate _ _ _
  have hcode : (image.code (kernelGate image.addr (32 + BitVec.ofNat 8 line)
      (lineTarget line)).offset).bind handlerProgram = some (lineProgram line) := by
    rw [kernelGate, image.code_addr]
    exact hprogram
  simp only [Machine.accept, hvector, hdeliver, hcpu, hcode, hmasks, Bool.not_true, Bool.and_false]

end take

/-! ## §4 The invariant -/

/-- The bytes of the interrupts in a run of the ring, oldest first. -/
def interruptBytes : List (RingSystem × RingStep) → List Byte
  | [] => []
  | (_, .interrupt data) :: tr => interruptBytes tr ++ [data]
  | _ :: tr => interruptBytes tr

/-- The LEDs that these interrupts set. -/
def interruptLeds : List (RingSystem × RingStep) → List Byte
  | [] => []
  | (z, .interrupt data) :: tr => interruptLeds tr ++ ledsSet z.state data
  | _ :: tr => interruptLeds tr

/-- The handler of the line is over. -/
def LineDone (line : Nat) (d : KernelData) : HandlerKnows → KernelData → Prop :=
  if line = 0 then TimerDone d else KeyboardDone d

/-- Between handlers nothing is in service and no byte belongs to a handler. -/
def HandlerKnows.idle : HandlerKnows := ⟨false, false, false, [], []⟩

/-- A handler starts: the byte of a keyboard interrupt is there. -/
def HandlerKnows.entered (line : Nat) : HandlerKnows := ⟨true, decide (1 = line), false, [], []⟩

/-- Where the processor is, after handlers that are over have read and written these bytes and
counted these ticks. -/
inductive CpuFollows (m : Machine) (received leds : List Byte) (ticks : Nat)
    (timerWaits : Bool) : Prop
  | main (hcpu : m.cpu = .main)
      (hsees : HandlerSees 0 timerWaits received (I8042.ledCommands leds) .idle
        (m.pics, m.controller))
      (hedges : m.timerEdges = ticks + timerWaits.toNat + m.timerLost)
  | handler {line : Nat} {t : HandlerKnows} {program : PortProgram KernelData}
      (hcpu : m.cpu = .handler true program) (hdisabled : m.interruptsEnabled = false)
      (hline : line = 0 ∨ line = 1)
      (hsees : HandlerSees line timerWaits received (I8042.ledCommands leds) t
        (m.pics, m.controller))
      (hconforms : program.Conforms handlerContract (LineDone line m.data) t)
      (hwaits : WaitsForInput program)
      (hedges : m.timerEdges =
        ticks + timerWaits.toNat + m.timerLost + if line = 0 then 1 else 0)

/-- The machine does what the ring does in some run, in which every interrupt is atomic; `P` holds of
the keyboard states on the way. -/
structure MachineInv (P : KeyboardState → Prop) (leds : Byte) (m : Machine)
    (tr : List (RingSystem × RingStep)) (ring : RingSystem) (ticks : Nat) (timerWaits : Bool) :
    Prop where
  run : RingRun tr ring
  states : ∀ p ∈ tr, P p.1.state
  keyboard : ring.state = m.data.keyboard
  get : ring.pc = m.get
  returned : ring.returned = m.returned
  obeyed : m.controller.Obeyed leds
  tickCount : m.data.tickCount = BitVec.ofNat 32 ticks
  timer : timerWaits = true → m.timerHigh = true
  cpu : CpuFollows m (interruptBytes tr) (interruptLeds tr) ticks timerWaits

section invariant

variable {P : KeyboardState → Prop} {image : KernelImage} {leds value : Byte} {m m' : Machine}
  {tr : List (RingSystem × RingStep)} {ring : RingSystem} {ticks line : Nat} {timerWaits w : Bool}
  {received cmds : List Byte} {pics : PicPair} {controller : I8042} {edges lost : Nat} {high : Bool}

theorem interruptLeds_spec (tr : List (RingSystem × RingStep)) :
    ∀ l ∈ interruptLeds tr, l &&& 7 = l ∧ l ≠ PcKeyboard.setLeds := by
  have hset {z : RingSystem} {data l : Byte} (hl : l ∈ ledsSet z.state data) :
      l &&& 7 = l ∧ l ≠ PcKeyboard.setLeds := by
    have h7 := ledsSet_and_seven hl
    refine ⟨h7, ?_⟩
    rintro rfl
    revert h7
    decide
  induction tr with
  | nil => exact fun l hl => absurd hl List.not_mem_nil
  | cons p tr ih =>
    obtain ⟨z, i⟩ := p
    cases i with
    | call => exact ih
    | statement => exact ih
    | interrupt data =>
      intro l hl
      rcases List.mem_append.mp hl with hold | hnew
      · exact ih l hold
      · exact hset hnew

/-- What was written so far belongs to commands for LEDs. -/
theorem HandlerSees.exists_written {t : HandlerKnows} {s : PicPair × I8042}
    (h : HandlerSees line timerWaits received (I8042.ledCommands cmds) t s)
    (hcmds : ∀ l ∈ cmds, l ≠ PcKeyboard.setLeds) :
    ∃ ls, (∀ l ∈ ls, l ≠ PcKeyboard.setLeds) ∧ s.2.written <+: I8042.ledCommands ls := by
  rw [h.written]
  -- Of the command that is being written: nothing, its first byte, or both.
  rcases h.command with hnil | hone | ⟨l, hl, htwo⟩
  · exact ⟨cmds, hcmds, [], by rw [List.append_nil, hnil, List.append_nil]⟩
  · refine ⟨cmds ++ [0], fun l hl => ?_, ?_⟩
    · rcases List.mem_append.mp hl with hold | hnew
      · exact hcmds l hold
      · rw [List.mem_singleton.mp hnew]
        decide
    · rw [hone, I8042.ledCommands, I8042.ledCommands, List.flatMap_append]
      exact (List.prefix_append_right_inj _).mpr ⟨[0], rfl⟩
  · refine ⟨cmds ++ [l], fun l' hl' => ?_, ?_⟩
    · rcases List.mem_append.mp hl' with hold | hnew
      · exact hcmds l' hold
      · rwa [List.mem_singleton.mp hnew]
    · rw [htwo, I8042.ledCommands, I8042.ledCommands, List.flatMap_append]
      exact List.prefix_rfl

/-- A step of the devices that leaves what handlers know true. -/
theorem CpuFollows.devices (h : CpuFollows m received cmds ticks timerWaits)
    (hsees : ∀ line t, line = 0 ∨ line = 1 →
      HandlerSees line timerWaits received (I8042.ledCommands cmds) t (m.pics, m.controller) →
      HandlerSees line w received (I8042.ledCommands cmds) t (pics, controller) ∧
        edges + timerWaits.toNat + m.timerLost = m.timerEdges + w.toNat + lost) :
    CpuFollows { m with
      pics := pics, controller := controller, timerHigh := high, timerEdges := edges
      timerLost := lost } received cmds ticks w := by
  cases h with
  | main hcpu hold hedges =>
    obtain ⟨hnew, hcount⟩ := hsees 0 _ (.inl rfl) hold
    exact .main hcpu hnew (by rw [hedges] at hcount; change edges = _ + lost; omega)
  | handler hcpu hdisabled hline hold hconforms hwaits hedges =>
    obtain ⟨hnew, hcount⟩ := hsees _ _ hline hold
    exact .handler hcpu hdisabled hline hnew hconforms hwaits
      (by rw [hedges] at hcount; change edges = _ + lost + _; omega)

/-- The keyboard sends a byte. -/
theorem MachineInv.forward (h : MachineInv P leds m tr ring ticks timerWaits)
    (hc : m.controller.forward = some controller) :
    MachineInv P leds { m with controller := controller, pics := m.pics.raise 1 } tr ring ticks
      timerWaits :=
  ⟨h.run, h.states, h.keyboard, h.get, h.returned, h.obeyed.forward hc, h.tickCount, h.timer,
    h.cpu.devices fun _ _ _ hsees => ⟨hsees.forward hc, rfl⟩⟩

theorem MachineInv.press (h : MachineInv P leds m tr ring ticks timerWaits) (value : Byte) :
    MachineInv P leds { m with controller := m.controller.press value } tr ring ticks timerWaits :=
  ⟨h.run, h.states, h.keyboard, h.get, h.returned, h.obeyed.press value, h.tickCount, h.timer,
    h.cpu.devices fun _ _ _ hsees => ⟨hsees.press value, rfl⟩⟩

theorem CpuFollows.sees (h : CpuFollows m received cmds ticks timerWaits) : ∃ line t,
    (line = 0 ∨ line = 1) ∧
      HandlerSees line timerWaits received (I8042.ledCommands cmds) t (m.pics, m.controller) := by
  cases h with
  | main _ hsees _ => exact ⟨0, _, .inl rfl, hsees⟩
  | handler _ _ hline hsees _ _ _ => exact ⟨_, _, hline, hsees⟩

/-- The keyboard takes a byte. -/
theorem MachineInv.pass (h : MachineInv P leds m tr ring ticks timerWaits)
    (hc : m.controller.pass = some controller) :
    MachineInv P leds { m with controller := controller } tr ring ticks timerWaits := by
  obtain ⟨_, _, -, hsees⟩ := h.cpu.sees
  -- No state of the LEDs is the byte of the command, so the keyboard cannot take one for the other.
  obtain ⟨ls, hls, hwritten⟩ := hsees.exists_written fun l hl => (interruptLeds_spec tr l hl).2
  exact ⟨h.run, h.states, h.keyboard, h.get, h.returned, h.obeyed.pass hsees.ordered hls hwritten hc,
    h.tickCount, h.timer, h.cpu.devices fun _ _ _ hsees => ⟨hsees.pass hc, rfl⟩⟩

/-- The output of the timer turns over. -/
theorem MachineInv.timerStep (h : MachineInv P leds m tr ring ticks timerWaits) :
    MachineInv P leds m.timer tr ring ticks (!m.timerHigh) := by
  obtain ⟨_, _, -, hsees⟩ := h.cpu.sees
  have htimer : m.pics.master.irr.getLsbD 0 = timerWaits := hsees.timer
  unfold Machine.timer
  cases hhigh : m.timerHigh with
  | true =>
    -- A request that waits is lost.
    rw [if_pos rfl, htimer]
    refine ⟨h.run, h.states, h.keyboard, h.get, h.returned, h.obeyed, h.tickCount, fun hfalse => ?_,
      h.cpu.devices fun _ _ _ hsees => ⟨hsees.timerFalls, ?_⟩⟩
    · cases hfalse
    · simp only [Bool.not_true, Bool.toNat_false]
      omega
  | false =>
    -- A low output has no request.
    have hnone : timerWaits = false := by
      rw [Bool.eq_false_iff]
      intro hwaits
      rw [h.timer hwaits] at hhigh
      cases hhigh
    rw [if_neg Bool.false_ne_true]
    refine ⟨h.run, h.states, h.keyboard, h.get, h.returned, h.obeyed, h.tickCount, fun _ => rfl,
      h.cpu.devices fun _ _ _ hsees => ⟨hsees.timerRises, ?_⟩⟩
    simp only [hnone, Bool.not_false, Bool.toNat_true, Bool.toNat_false]

/-- The line of another device. -/
theorem MachineInv.otherLine (h : MachineInv P leds m tr ring ticks timerWaits) {up : Bool}
    (hstep : m.otherLine line up = some m') : MachineInv P leds m' tr ring ticks timerWaits := by
  unfold Machine.otherLine at hstep
  split at hstep
  · rename_i hline
    cases hstep
    exact ⟨h.run, h.states, h.keyboard, h.get, h.returned, h.obeyed, h.tickCount, h.timer,
      h.cpu.devices fun _ _ _ hsees => ⟨hsees.otherLine hline.1 up, rfl⟩⟩
  · cases hstep

/-- `sti` between handlers. -/
theorem MachineInv.sti (h : MachineInv P leds m tr ring ticks timerWaits)
    (hstep : m.sti = some m') : MachineInv P leds m' tr ring ticks timerWaits := by
  unfold Machine.sti at hstep
  split at hstep
  · rename_i hmain
    cases hstep
    refine ⟨h.run, h.states, h.keyboard, h.get, h.returned, h.obeyed, h.tickCount, h.timer, ?_⟩
    cases h.cpu with
    | main hcpu hsees hedges => exact .main hcpu hsees hedges
    | handler hcpu => rw [hmain] at hcpu; cases hcpu
  · cases hstep

/-- Gets do not look at what was accepted. -/
theorem ringStep_accepted (s : KeyboardState) (pc : GetPc) (accepted returned : List Byte)
    {i : RingStep} (hi : i = .call ∨ i = .statement) :
    (⟨s, pc, accepted, returned⟩ : RingSystem).step i =
      ((⟨s, pc, [], returned⟩ : RingSystem).step i).map fun z => { z with accepted := accepted } := by
  rcases hi with rfl | rfl
  · cases pc <;> rfl
  · cases pc <;> rfl

/-- A step of a get. -/
theorem MachineInv.getStep (h : MachineInv P leds m tr ring ticks timerWaits)
    (hP : P m.data.keyboard) {i : RingStep}
    (hi : i = .call ∨ i = .statement) (hstep : m.getStep i = some m') :
    ∃ ring', MachineInv P leds m' ((ring, i) :: tr) ring' ticks timerWaits := by
  unfold Machine.getStep at hstep
  split at hstep
  · rename_i hmain
    obtain ⟨next, hnext, rfl⟩ := Option.map_eq_some_iff.mp hstep
    have hring : ring.step i = some { next with accepted := ring.accepted } := by
      have heq : ring = ⟨m.data.keyboard, m.get, ring.accepted, m.returned⟩ := by
        rw [← h.keyboard, ← h.get, ← h.returned]
      rw [heq, ringStep_accepted _ _ _ _ hi, hnext]
      rfl
    have hbytes : interruptBytes ((ring, i) :: tr) = interruptBytes tr ∧
        interruptLeds ((ring, i) :: tr) = interruptLeds tr := by
      rcases hi with rfl | rfl <;> exact ⟨rfl, rfl⟩
    refine ⟨_, .snoc h.run hring, List.forall_mem_cons.mpr ⟨h.keyboard ▸ hP, h.states⟩, rfl, rfl,
      rfl, h.obeyed, h.tickCount, h.timer, ?_⟩
    rw [hbytes.1, hbytes.2]
    cases h.cpu with
    | main hcpu hsees hedges => exact .main hcpu hsees hedges
    | handler hcpu => rw [hmain] at hcpu; cases hcpu
  · cases hstep

/-- The program of a line conforms and waits only for the controller. -/
theorem lineProgram_conforms (hline : line = 0 ∨ line = 1) (d : KernelData) :
    (lineProgram line d).Conforms handlerContract (LineDone line d) (.entered line) ∧
      WaitsForInput (lineProgram line d) := by
  rcases hline with rfl | rfl
  · exact ⟨conforms_timer d false, waitsForInput_timer d⟩
  · exact ⟨conforms_keyboard d false, waitsForInput_keyboard d⟩

/-- What a handler knows when it starts. -/
theorem HandlerSees.accept (h : HandlerSees 0 timerWaits received (I8042.ledCommands cmds) .idle
      (pics, controller)) (hline : pics.cascaded.request = some line) :
    HandlerSees line (timerWaits && decide (0 ≠ line)) received (I8042.ledCommands cmds)
      (.entered line) (pics.acknowledge.2, controller) ∧
      (line = 0 → timerWaits = true) := by
  obtain ⟨-, hserve, hirr⟩ := h.pics.acknowledge hline
  obtain ⟨-, hsmall, hrequested⟩ := h.pics.request hline
  have hkeyboard : pics.master.irr.getLsbD 1 = controller.output.isSome := by
    have hold := h.keyboard
    rwa [HandlerKnows.idle, Bool.not_false, Bool.and_true] at hold
  refine ⟨⟨hserve, ?_, ?_, fun hunread => ?_, fun hfalse => absurd hfalse Bool.false_ne_true,
    h.ordered, h.readOut, ?_, h.written, .inl rfl⟩, ?_⟩
  · rw [hirr 0 (by decide), ← h.timer]
  · rw [hirr 1 (by decide), hkeyboard]
    change _ = (_ && !decide (1 = line))
    rw [← decide_not]
  · obtain rfl : 1 = line := of_decide_eq_true hunread
    rw [← hkeyboard]
    exact hrequested
  · have hone := Bool.toNat_le (decide (1 = line))
    change 0 + (decide (1 = line)).toNat ≤ 1
    omega
  · rintro rfl
    rw [← h.timer]
    exact hrequested

/-- The processor takes an interrupt. -/
theorem MachineInv.accept (h : MachineInv P leds m tr ring ticks timerWaits)
    (henabled : m.interruptsEnabled = true) (hline : m.pics.cascaded.request = some line) :
    MachineInv P leds (m.accept image) tr ring ticks (timerWaits && decide (0 ≠ line)) := by
  cases h.cpu with
  | handler _ hdisabled =>
    rw [henabled] at hdisabled
    cases hdisabled
  | main hcpu hsees hedges =>
    have hsmall := (hsees.pics.request hline).2.1
    obtain ⟨hnew, hwaiting⟩ := hsees.accept hline
    obtain ⟨hconforms, hwaits⟩ := lineProgram_conforms hsmall m.data
    rw [Machine.accept_eq hsees.pics hline hcpu, henabled]
    -- The tick of line 0 moves from the ones that wait to the one being handled.
    refine ⟨h.run, h.states, h.keyboard, h.get, h.returned, h.obeyed, h.tickCount,
      fun hwaits => h.timer (Bool.and_eq_true _ _ |>.mp hwaits).1,
      .handler rfl rfl hsmall hnew hconforms hwaits ?_⟩
    change m.timerEdges = ticks + _ + m.timerLost + _
    rw [hedges]
    rcases hsmall with rfl | rfl
    · have htaken : (true && decide (0 ≠ 0)).toNat = 0 := rfl
      rw [hwaiting rfl, htaken, Bool.toNat_true, if_pos rfl]
      omega
    · simp

/-- A handler that is over has left nothing in service. -/
theorem HandlerSees.done {t : HandlerKnows} {s : PicPair × I8042} {read : List Byte}
    {written : List Byte} (h : HandlerSees line timerWaits received (I8042.ledCommands cmds) t s)
    (hservice : t.inService = false) (hunread : t.unread = false) (hread : t.received = read)
    (hwritten : t.commands = I8042.ledCommands written) :
    HandlerSees 0 timerWaits (received ++ read) (I8042.ledCommands (cmds ++ written)) .idle s := by
  have hpics := h.pics
  rw [hservice] at hpics
  refine ⟨⟨hpics.ready, hpics.base, hpics.not_auto, hpics.mask, hpics.slave_mask, hpics.service⟩,
    h.timer, ?_, fun hfalse => absurd hfalse Bool.false_ne_true,
    fun hfalse => absurd hfalse Bool.false_ne_true, h.ordered, ?_, Nat.zero_le _, ?_, .inl rfl⟩
  · rw [h.keyboard, hunread]
    rfl
  · rw [h.readOut, hread]
    exact (List.append_nil _).symm
  · rw [h.written, hwritten, I8042.ledCommands, I8042.ledCommands, I8042.ledCommands,
      List.flatMap_append]
    exact (List.append_nil _).symm

/-- The `iret` of a handler. -/
theorem MachineInv.iret (h : MachineInv P leds m tr ring ticks timerWaits)
    (hP : P m.data.keyboard) {flag : Bool} {d : KernelData} (hcpu : m.cpu = .handler flag (.done d)) :
    ∃ tr' ring' ticks', MachineInv P leds
      { m with cpu := .main, interruptsEnabled := flag, data := d } tr' ring' ticks'
      timerWaits := by
  cases h.cpu with
  | main hmain => rw [hmain] at hcpu; cases hcpu
  | @handler line t program hhandler hdisabled hline hsees hconforms hwaits hedges =>
    rw [hhandler] at hcpu
    obtain ⟨rfl, rfl⟩ := CpuMode.handler.inj hcpu
    rcases hline with rfl | rfl
    -- The timer: one more tick has been counted.
    · obtain ⟨hservice, hunread, hreceived, hcommands, rfl⟩ : TimerDone m.data t d := hconforms
      have hnone : t.commands = I8042.ledCommands [] := hcommands
      have hnew := hsees.done hservice hunread hreceived hnone
      rw [List.append_nil, List.append_nil] at hnew
      refine ⟨tr, ring, ticks + 1, h.run, h.states, h.keyboard, h.get, h.returned, h.obeyed, ?_,
        h.timer, .main rfl hnew ?_⟩
      · change m.data.tickCount + 1 = _
        rw [h.tickCount]
        exact (BitVec.ofNat_add ticks 1).symm
      · change m.timerEdges = _
        rw [hedges]
        simp only [if_true]
        omega
    -- The keyboard: its whole handler is one interrupt in the run of the ring.
    · obtain ⟨hservice, hunread, data, hreceived, hcommands, rfl⟩ : KeyboardDone m.data t d :=
        hconforms
      have hnew := hsees.done hservice hunread hreceived hcommands
      refine ⟨(ring, .interrupt data) :: tr, _, ticks, .snoc h.run rfl,
        List.forall_mem_cons.mpr ⟨h.keyboard ▸ hP, h.states⟩, ?_, h.get, h.returned, h.obeyed,
        h.tickCount, h.timer, .main rfl ?_ hedges⟩
      · rw [h.keyboard]
      · change HandlerSees 0 timerWaits (interruptBytes tr ++ [data])
          (I8042.ledCommands (interruptLeds tr ++ ledsSet ring.state data)) .idle
          (m.pics, m.controller)
        rw [h.keyboard]
        exact hnew

theorem machinePorts_read (s : PicPair × I8042) (port : Port) (h : s.2.Obeyed leds) :
    (machinePorts.read s port).2.2.Obeyed leds := by
  simp only [machinePorts]
  split
  · exact h.device_read port
  · split
    · exact h.device_read port
    · exact h

/-- A port operation of a handler. -/
theorem MachineInv.portStep (h : MachineInv P leds m tr ring ticks timerWaits) {flag : Bool}
    {program p : PortProgram KernelData} (hcpu : m.cpu = .handler flag program)
    (hstep : program.step machinePorts (m.pics, m.controller) = some (p, pics, controller)) :
    MachineInv P leds { m with cpu := .handler flag p, pics := pics, controller := controller } tr
      ring ticks timerWaits := by
  cases h.cpu with
  | main hmain => rw [hmain] at hcpu; cases hcpu
  | @handler line t program' hhandler hdisabled hline hsees hconforms hwaits hedges =>
    rw [hhandler] at hcpu
    obtain ⟨rfl, rfl⟩ := CpuMode.handler.inj hcpu
    have hlt : line < 8 := by omega
    obtain ⟨t', hsees', hconforms'⟩ := hconforms.step
      (keeps_handlerSees hlt timerWaits (interruptBytes tr) _) hsees hstep
    -- What the keyboard has taken does not change at the ports.
    have hobeyed : controller.Obeyed leds :=
      PortProgram.step_inv (R := fun s : PicPair × I8042 => s.2.Obeyed leds)
        (fun _ _ _ hs => hs.device_write _ _) machinePorts_read h.obeyed hstep
    exact ⟨h.run, h.states, h.keyboard, h.get, h.returned, hobeyed, h.tickCount, h.timer,
      .handler rfl hdisabled hline hsees' hconforms' (hwaits.step hstep) hedges⟩

/-- The next operation of a handler. -/
theorem MachineInv.operation (h : MachineInv P leds m tr ring ticks timerWaits)
    (hP : P m.data.keyboard) (hstep : m.operation = some m') :
    ∃ tr' ring' ticks', MachineInv P leds m' tr' ring' ticks' timerWaits := by
  unfold Machine.operation at hstep
  split at hstep
  · rename_i flag d hcpu
    cases hstep
    exact h.iret hP hcpu
  · rename_i flag program hcpu
    obtain ⟨⟨p, pics, controller⟩, hport, rfl⟩ := Option.map_eq_some_iff.mp hstep
    exact ⟨tr, ring, ticks, h.portStep hcpu hport⟩
  · cases hstep

/-- Every step of the machine keeps the invariant. -/
theorem MachineInv.step (h : MachineInv P leds m tr ring ticks timerWaits)
    (hP : P m.data.keyboard) {i : MachineStep} (hstep : m.step image i = some m') :
    ∃ tr' ring' ticks' timerWaits', MachineInv P leds m' tr' ring' ticks' timerWaits' := by
  cases i with
  | sti => exact ⟨_, _, _, _, h.sti hstep⟩
  | press value =>
    cases hstep
    exact ⟨_, _, _, _, h.press value⟩
  | forward =>
    obtain ⟨controller, hc, rfl⟩ := Option.map_eq_some_iff.mp hstep
    exact ⟨_, _, _, _, h.forward hc⟩
  | pass =>
    obtain ⟨controller, hc, rfl⟩ := Option.map_eq_some_iff.mp hstep
    exact ⟨_, _, _, _, h.pass hc⟩
  | timer =>
    cases hstep
    exact ⟨_, _, _, _, h.timerStep⟩
  | otherLine line up => exact ⟨_, _, _, _, h.otherLine hstep⟩
  | accept =>
    simp only [Machine.step, Machine.stepWith] at hstep
    split at hstep
    · rename_i hready
      obtain ⟨line, hline⟩ := Option.isSome_iff_exists.mp hready.2
      cases hstep
      exact ⟨_, _, _, _, h.accept hready.1 hline⟩
    · cases hstep
  | operation =>
    obtain ⟨_, _, _, hinv⟩ := h.operation hP hstep
    exact ⟨_, _, _, _, hinv⟩
  | getCall =>
    obtain ⟨_, hinv⟩ := h.getStep hP (.inl rfl) hstep
    exact ⟨_, _, _, _, hinv⟩
  | getStatement =>
    obtain ⟨_, hinv⟩ := h.getStep hP (.inr rfl) hstep
    exact ⟨_, _, _, _, hinv⟩

/-- The masks and vectors that `kernel_init` leaves, and the one request that there may be. -/
theorem picsServe_kernel (c : PicPair) (rose : Bool) :
    PicsServe (picsAfterInit c rose) false 0 ∧
      (picsAfterInit c rose).master.irr.getLsbD 0 = rose ∧
      (picsAfterInit c rose).master.irr.getLsbD 1 = false := by
  have hready := (masksRead_pairAfterCalls c (fun _ => 0) kernelPicCalls).2
  have hmasks : (pairAfterCalls c kernelPicCalls).master.imr = 0xFC ∧
      (pairAfterCalls c kernelPicCalls).slave.imr = 0xFF := by
    simp only [kernelPicCalls, pairAfterCalls, afterProgram_picInit]
    rw [afterProgram_program rfl rfl]
    decide
  have hserve : PicsServe (pairAfterCalls c kernelPicCalls) false 0 :=
    ⟨hready.master.ready, hready.master.base, hready.master.not_auto, hmasks.1, hmasks.2,
      hready.master_unrequested.isr⟩
  have hirr := hready.master_unrequested.irr
  cases rose with
  | false => exact ⟨hserve, by rw [picsAfterInit, if_neg Bool.false_ne_true, hirr]; exact ⟨rfl, rfl⟩⟩
  | true =>
    refine ⟨hserve.raise 0, ?_, ?_⟩
    · exact (PicPair.getLsbD_raise _ (by decide) 0).trans (Bool.or_true _)
    · refine (PicPair.getLsbD_raise _ (by decide) 0).trans ?_
      rw [hirr]
      rfl

/-- The machine after `kernel_init`. -/
theorem MachineInv.initial (P : KeyboardState → Prop) (h : m.Initial leds) :
    ∃ timerWaits, MachineInv P leds m [] ⟨m.data.keyboard, .idle, [], []⟩ 0 timerWaits := by
  obtain ⟨⟨⟨c, rose, hpics, hedges⟩, hhigh, hstarted, hdisabled, hcpu, ⟨s, hkeyboard⟩, htick, hget,
    hreturned, hlost⟩, houtput⟩ := h
  obtain ⟨hserve, htimer, hsilent⟩ := picsServe_kernel c rose
  refine ⟨rose, .start ⟨s, by rw [hkeyboard]⟩, fun p hp => absurd hp List.not_mem_nil, rfl, hget.symm,
    hreturned.symm, .started hstarted, htick, fun _ => hhigh, .main hcpu ?_ ?_⟩
  · rw [hpics]
    refine ⟨hserve, htimer, ?_, fun hfalse => absurd hfalse Bool.false_ne_true,
      fun hfalse => absurd hfalse Bool.false_ne_true, .started hstarted, hstarted.readOut,
      Nat.zero_le _, hstarted.written, .inl rfl⟩
    rw [hsilent, houtput]
    rfl
  · rw [hedges, hlost]
    omega

/-- After every run, in whose states the keyboard had the property `P`. -/
theorem machineInv_of_run {steps : List (Machine × MachineStep)} (h : MachineRun image leds steps m)
    (hP : ∀ p ∈ steps, P p.1.data.keyboard) :
    ∃ tr ring ticks timerWaits, MachineInv P leds m tr ring ticks timerWaits := by
  refine h.inv_of_guard (fun m => ∃ tr ring ticks timerWaits,
    MachineInv P leds m tr ring ticks timerWaits) (fun m _ => P m.data.keyboard)
    (fun m hinit => ⟨_, _, _, MachineInv.initial P hinit⟩) ?_ hP
  rintro m i m' ⟨tr, ring, ticks, timerWaits, hinv⟩ hPm hstep
  exact hinv.step hPm hstep

/-! ## §5 Wherever the code lies -/

/-- Taking an interrupt is starting the handler of its line. -/
def Machine.takeLine (m : Machine) : Machine :=
  match m.pics.cascaded.request with
  | some line =>
    { m with
      pics := m.pics.acknowledge.2
      cpu := .handler m.interruptsEnabled (lineProgram line m.data)
      interruptsEnabled := false }
  | none => m

/-- In every state of every run the table, the code and their addresses come to the same as that. -/
theorem step_eq_takeLine {steps : List (Machine × MachineStep)} (h : MachineRun image leds steps m)
    (i : MachineStep) : m.step image i = m.stepWith Machine.takeLine i := by
  cases i with
  -- Only the acceptance of an interrupt goes through the table.
  | accept =>
    simp only [Machine.step, Machine.stepWith]
    refine if_ctx_congr Iff.rfl (fun hready => ?_) fun _ => rfl
    obtain ⟨henabled, hsome⟩ := hready
    obtain ⟨line, hline⟩ := Option.isSome_iff_exists.mp hsome
    obtain ⟨_, _, _, _, hinv⟩ := machineInv_of_run (P := fun _ => True) h fun _ _ => trivial
    cases hinv.cpu with
    | handler _ hdisabled =>
      rw [henabled] at hdisabled
      cases hdisabled
    | main hcpu hsees _ => rw [Machine.accept_eq hsees.pics hline hcpu, Machine.takeLine, hline]
  | _ => rfl

/-- Steps of the machine, with the handlers of the lines. -/
abbrev Machine.follow (tr : List (Machine × MachineStep)) (m : Machine) (is : List MachineStep) :
    Option (List (Machine × MachineStep) × Machine) :=
  Run.follow (Machine.stepWith Machine.takeLine) tr m is

end invariant

end KyroKernel
