import KyroKernel.Asm.InterruptStubs
import KyroKernel.Drivers.KeyboardLocks
import KyroKernel.Drivers.PicPrograms
import KyroKernel.Foundations.I8042

/-!
# The handlers of hardware interrupts at the ports

`keyboard_interrupt_handler` and `timer_handler` with everything that they and their stubs do at the
ports. Each is a program that reads at most one byte from the keyboard, writes to it only when the
controller can take a byte, and ends its interrupt; what it leaves in memory is what the handlers
without ports leave.
-/

namespace KyroKernel

open Foundations

def keyboardDataPort : Port := 0x60
def keyboardStatusPort : Port := 0x64
def keyboardStatusInputFull : Byte := 0x02
def keyboardCmdSetLeds : Byte := 0xED
def irqKeyboard : Byte := 1

/-- `keyboard_state` and `tick_count`. -/
structure KernelData where
  keyboard : KeyboardState
  tickCount : Word

namespace OnPorts

/-- `keyboard_read_data`. -/
def keyboardReadData : PortProgram Byte := inb keyboardDataPort

/-- `keyboard_wait_input`, with `keyboard_read_status`. -/
def keyboardWaitInput : PortProgram Unit :=
  .spin keyboardStatusPort (fun status => status &&& keyboardStatusInputFull ≠ 0) (.done ())

/-- `keyboard_write_data`. -/
def keyboardWriteData (data : Byte) : PortProgram Unit := do
  keyboardWaitInput
  outb keyboardDataPort data

/-- `keyboard_set_leds`. -/
def keyboardSetLeds (s : KeyboardState) (leds : Byte) : PortProgram KeyboardState := do
  keyboardWriteData keyboardCmdSetLeds
  keyboardWriteData leds
  return { s with ledState := leds }

/-- `keyboard_update_leds`. -/
def keyboardUpdateLeds (s : KeyboardState) : PortProgram KeyboardState :=
  let leds : Byte := 0
  let leds := if s.flags &&& keyboardFlagScrollLock ≠ 0 then leds ||| 0x01 else leds
  let leds := if s.flags &&& keyboardFlagNumLock ≠ 0 then leds ||| 0x02 else leds
  let leds := if s.flags &&& keyboardFlagCapsLock ≠ 0 then leds ||| 0x04 else leds
  keyboardSetLeds s leds

/-- A key that locks. -/
def toggleFlag (s : KeyboardState) (keyReleased : Bool) (flag : Byte) :
    PortProgram KeyboardState :=
  if keyReleased then return s else keyboardUpdateLeds { s with flags := s.flags ^^^ flag }

/-- The `switch` of `keyboard_handler`. -/
def handleKey (s : KeyboardState) (keyReleased : Bool) (scancode : Byte) :
    PortProgram KeyboardState :=
  if scancode = keyShiftL ∨ scancode = keyShiftR then
    return holdFlag s keyReleased keyboardFlagShift
  else if scancode = keyCtrl then return holdFlag s keyReleased keyboardFlagCtrl
  else if scancode = keyAlt then return holdFlag s keyReleased keyboardFlagAlt
  else if scancode = keyCapsLock then toggleFlag s keyReleased keyboardFlagCapsLock
  else if scancode = keyNumLock then toggleFlag s keyReleased keyboardFlagNumLock
  else if scancode = keyScrollLock then toggleFlag s keyReleased keyboardFlagScrollLock
  else if keyReleased then return s
  else return keyboardBufferPut s scancode

/-- `keyboard_handler`. -/
def keyboardHandler (s : KeyboardState) : PortProgram KeyboardState := do
  let data ← keyboardReadData
  if data = 0xE0 then return { s with extendedScancode := true }
  else
    let s ← handleKey s (data &&& 0x80 ≠ 0) (data &&& 0x7F)
    return { s with extendedScancode := false }

/-- `keyboard_interrupt_handler`. -/
def keyboardInterruptHandler (d : KernelData) : PortProgram KernelData := do
  let s ← keyboardHandler d.keyboard
  picSendEoi irqKeyboard
  return { d with keyboard := s }

/-- `timer_handler`. -/
def timerHandler (d : KernelData) : PortProgram KernelData := do
  outb 0x20 0x20
  return { d with tickCount := d.tickCount + 1 }

/-- `irq_common_stub` around the C handler that it calls. -/
def irqCommonStub (call : KernelData → PortProgram KernelData) (d : KernelData) :
    PortProgram KernelData := do
  let d ← call d
  outb 0x20 0x20
  return d

end OnPorts

/-! ## §1 The stub -/

/-- What the events of a stub do at the ports, when each C function does what `call` says. -/
def eventsProgram (call : CHandler → KernelData → PortProgram KernelData) :
    List (Event CHandler) → KernelData → PortProgram KernelData
  | [], d => .done d
  | .call f _ :: events, d => (call f d).andThen (eventsProgram call events)
  | .out port value :: events, d =>
    .write (port.setWidth 16) value (eventsProgram call events d)

/-- A run of the assembly stub of a hardware interrupt does at the ports what `irqCommonStub`
does. -/
theorem eventsProgram_irq (call : CHandler → KernelData → PortProgram KernelData)
    (next : CHandler → Word) (env : CHandler → Cpu → Cpu) (c : Cpu) {e : StubEntry}
    (he : e = .timerHandlerAsm ∨ e = .keyboardHandlerAsm) : ∃ final events,
      runAsm env (textSection next) (some (.entry e)) c = some (final, events) ∧
      eventsProgram call events = OnPorts.irqCommonStub (call (handlerOf e.vector)) := by
  obtain ⟨err, hstack, -, -, -⟩ := enter_spec e c
  obtain ⟨-, -, hvector⟩ := stubSave_spec hstack
  have hirq : e.vector = 32 ∨ e.vector = 33 := by
    rcases he with rfl | rfl
    · exact .inl rfl
    · exact .inr rfl
  have hcommon : e.common next = irqCommonStub next := by
    rcases he with rfl | rfl <;> rfl
  have hhandler : calledHandler e.vector = handlerOf e.vector := by
    rcases he with rfl | rfl <;> rfl
  obtain ⟨c₁, -, hrun⟩ := runAsm_irq env next hvector hirq
  rw [runAsm_entry, hcommon, hrun, hhandler]
  exact ⟨_, _, rfl, rfl⟩

/-! ## §2 What handlers may do -/

/-- What a handler knows: its line is still in service, the byte that the keyboard has sent is still
there, and the controller can take a byte; the bytes that it has read and written. -/
@[ext] structure HandlerKnows where
  inService : Bool
  unread : Bool
  inputEmpty : Bool
  received : List Byte
  commands : List Byte

/-- The next byte of a command for the LEDs. -/
def NextOfCommand (commands : List Byte) (value : Byte) : Prop :=
  commands = [] ∧ value = PcKeyboard.setLeds ∨
    commands = [PcKeyboard.setLeds] ∧ value ≠ PcKeyboard.setLeds

instance (commands : List Byte) (value : Byte) : Decidable (NextOfCommand commands value) :=
  inferInstanceAs (Decidable (_ ∨ _))

/-- A handler ends interrupts at the master only. It writes the next byte of a command when the
input buffer is empty, and reads the byte of the keyboard once. -/
def handlerContract : PortContract HandlerKnows where
  write t port value :=
    if port = pic1Command ∧ value = OnPorts.picEoi then some { t with inService := false }
    else if port = keyboardDataPort ∧ t.inputEmpty = true ∧ NextOfCommand t.commands value then
      some { t with inputEmpty := false, commands := t.commands ++ [value] }
    else none
  read t port value :=
    if port = keyboardDataPort ∧ t.unread = true then
      some { t with unread := false, received := t.received ++ [value] }
    else if port = keyboardStatusPort then
      some { t with inputEmpty := t.inputEmpty || value &&& keyboardStatusInputFull == 0 }
    else none

/-- The key locks something. -/
def IsLockKey (scancode : Byte) : Prop :=
  scancode = keyCapsLock ∨ scancode = keyNumLock ∨ scancode = keyScrollLock

instance (scancode : Byte) : Decidable (IsLockKey scancode) := inferInstanceAs (Decidable (_ ∨ _))

/-- The LEDs that a byte sets, none if it is not the make code of a lock. -/
def ledsSet (s : KeyboardState) (data : Byte) : List Byte :=
  if IsLockKey data then [(keyboardHandler s data).ledState] else []

/-- The keyboard interrupt is over: one byte was read and handled. -/
def KeyboardDone (d : KernelData) (t : HandlerKnows) (d' : KernelData) : Prop :=
  t.inService = false ∧ t.unread = false ∧ ∃ data, t.received = [data] ∧
    t.commands = I8042.ledCommands (ledsSet d.keyboard data) ∧
    d' = { d with keyboard := keyboardHandler d.keyboard data }

/-- The timer interrupt is over. -/
def TimerDone (d : KernelData) (t : HandlerKnows) (d' : KernelData) : Prop :=
  t.inService = false ∧ t.unread = false ∧ t.received = [] ∧ t.commands = [] ∧
    d' = { d with tickCount := d.tickCount + 1 }

/-! ## §3 What handlers do -/

section conforms

variable {t : HandlerKnows} {d : KernelData} {data leds flag scancode : Byte}

/-- `keyboard_write_data` writes the next byte of a command. -/
theorem conforms_keyboardWriteData (h : NextOfCommand t.commands data) :
    PortProgram.Conforms handlerContract
      (fun t' _ => t' = { t with inputEmpty := false, commands := t.commands ++ [data] }) t
      (OnPorts.keyboardWriteData data) := by
  intro status
  refine ⟨_, rfl, fun hagain => ?_, fun hdone => ?_⟩
  · have hfull : (status &&& keyboardStatusInputFull == 0) = false := by
      simpa using hagain
    rw [hfull, Bool.or_false]
  · have hempty : (status &&& keyboardStatusInputFull == 0) = true := by
      simpa using hdone
    rw [hempty, Bool.or_true]
    exact ⟨_, if_pos ⟨rfl, rfl, h⟩, rfl⟩

/-- `keyboard_set_leds` writes one command. -/
theorem conforms_keyboardSetLeds (s : KeyboardState) (h : t.commands = [])
    (hleds : leds ≠ PcKeyboard.setLeds) :
    PortProgram.Conforms handlerContract
      (fun t' s' => t' = { t with inputEmpty := false, commands := I8042.ledCommands [leds] } ∧
        s' = { s with ledState := leds }) t
      (OnPorts.keyboardSetLeds s leds) := by
  refine (conforms_keyboardWriteData (.inl ⟨h, rfl⟩)).andThen ?_
  rintro _ _ rfl
  refine (conforms_keyboardWriteData (.inr ⟨?_, hleds⟩)).andThen ?_
  · simp only [h, List.nil_append]
  · rintro _ _ rfl
    exact ⟨by simp only [h]; rfl, rfl⟩

/-- The LEDs that `keyboard_update_leds` sets are no command. -/
theorem ledState_update_ne (s : KeyboardState) :
    (keyboardUpdateLeds s).ledState ≠ PcKeyboard.setLeds := by
  simp only [keyboardUpdateLeds]
  split_ifs <;> decide

theorem conforms_keyboardUpdateLeds (s : KeyboardState) (h : t.commands = []) :
    PortProgram.Conforms handlerContract
      (fun t' s' => t' = { t with
          inputEmpty := false, commands := I8042.ledCommands [(keyboardUpdateLeds s).ledState] } ∧
        s' = keyboardUpdateLeds s) t
      (OnPorts.keyboardUpdateLeds s) :=
  conforms_keyboardSetLeds s h (ledState_update_ne s)

/-- What `keyboard_handler` may know after the `switch`: as before, with the LEDs of a lock that
was pressed. -/
def AfterKey (t : HandlerKnows) (s : KeyboardState) (leds : List Byte) (t' : HandlerKnows)
    (s' : KeyboardState) : Prop :=
  t'.inService = t.inService ∧ t'.unread = t.unread ∧ t'.received = t.received ∧
    t'.commands = I8042.ledCommands leds ∧ s' = s

theorem isLockKey_iff : IsLockKey scancode ↔ ∃ l : Lock, scancode = l.scancode := by
  constructor
  · rintro (h | h | h)
    · exact ⟨.caps, h⟩
    · exact ⟨.num, h⟩
    · exact ⟨.scroll, h⟩
  · rintro ⟨l, h⟩
    cases l with
    | scroll => exact .inr (.inr h)
    | num => exact .inr (.inl h)
    | caps => exact .inl h

/-- The `switch` at the ports: a lock key sets LEDs, -/
theorem onPorts_handleKey_lock (s : KeyboardState) (released : Bool) (l : Lock) :
    OnPorts.handleKey s released l.scancode = OnPorts.toggleFlag s released l.flag := by
  cases l <;> rfl

/-- and no other key does anything there. -/
theorem onPorts_handleKey_not_lock (h : ¬ IsLockKey scancode) (s : KeyboardState)
    (released : Bool) :
    OnPorts.handleKey s released scancode = .done (handleKey s released scancode) := by
  have hcaps : scancode ≠ keyCapsLock := fun heq => h (.inl heq)
  have hnum : scancode ≠ keyNumLock := fun heq => h (.inr (.inl heq))
  have hscroll : scancode ≠ keyScrollLock := fun heq => h (.inr (.inr heq))
  unfold OnPorts.handleKey handleKey
  simp only [if_neg hcaps, if_neg hnum, if_neg hscroll]
  split_ifs <;> rfl

theorem conforms_return (s : KeyboardState) (h : t.commands = []) :
    PortProgram.Conforms handlerContract (AfterKey t s []) t (.done s) :=
  ⟨rfl, rfl, rfl, h, rfl⟩

theorem conforms_toggleFlag (s : KeyboardState) (released : Bool) (flag : Byte)
    (h : t.commands = []) :
    PortProgram.Conforms handlerContract
      (AfterKey t (toggleFlag s released flag)
        (if released = false then [(toggleFlag s released flag).ledState] else [])) t
      (OnPorts.toggleFlag s released flag) := by
  cases released with
  | true => exact conforms_return s h
  | false =>
    refine (conforms_keyboardUpdateLeds _ h).mono ?_
    rintro _ _ ⟨rfl, rfl⟩
    exact ⟨rfl, rfl, rfl, rfl, rfl⟩

/-- The `switch`. -/
theorem conforms_handleKey (s : KeyboardState) (released : Bool) (scancode : Byte)
    (h : t.commands = []) :
    PortProgram.Conforms handlerContract
      (AfterKey t (handleKey s released scancode)
        (if released = false ∧ IsLockKey scancode then [(handleKey s released scancode).ledState]
          else [])) t
      (OnPorts.handleKey s released scancode) := by
  by_cases hlock : IsLockKey scancode
  · simp only [hlock, and_true]
    obtain ⟨l, rfl⟩ := isLockKey_iff.mp hlock
    rw [onPorts_handleKey_lock, handleKey_lock]
    exact conforms_toggleFlag s released l.flag h
  · rw [onPorts_handleKey_not_lock hlock, if_neg fun hboth => hlock hboth.2]
    exact conforms_return _ h

/-- The LEDs that a byte sets are those that the `switch` sets. -/
theorem ledsSet_eq (s : KeyboardState) (hextended : data ≠ 0xE0) :
    ledsSet s data =
      if decide (data &&& 0x80 ≠ 0) = false ∧ IsLockKey (data &&& 0x7F) then
        [(handleKey s (data &&& 0x80 ≠ 0) (data &&& 0x7F)).ledState]
      else [] := by
  have hiff : IsLockKey data ↔
      decide (data &&& 0x80 ≠ 0) = false ∧ IsLockKey (data &&& 0x7F) := by
    rw [isLockKey_iff, isLockKey_iff, decide_eq_false_iff_not, not_not]
    constructor
    · rintro ⟨l, hl⟩
      obtain ⟨hmake, hkey⟩ := (eq_scancode_iff l data).mp hl
      exact ⟨hmake, l, hkey⟩
    · rintro ⟨hmake, l, hkey⟩
      exact ⟨l, (eq_scancode_iff l data).mpr ⟨hmake, hkey⟩⟩
  have hstate : (keyboardHandler s data).ledState =
      (handleKey s (data &&& 0x80 ≠ 0) (data &&& 0x7F)).ledState := by
    rw [keyboardHandler, if_neg hextended]
  unfold ledsSet
  rw [hstate]
  exact if_congr hiff rfl rfl

/-- `keyboard_handler` reads one byte, handles it as without ports, and sets its LEDs. -/
theorem conforms_keyboardHandler (s : KeyboardState) (hunread : t.unread = true)
    (hreceived : t.received = []) (h : t.commands = []) :
    PortProgram.Conforms handlerContract
      (fun t' s' => t'.inService = t.inService ∧ t'.unread = false ∧ ∃ data, t'.received = [data] ∧
        t'.commands = I8042.ledCommands (ledsSet s data) ∧ s' = keyboardHandler s data) t
      (OnPorts.keyboardHandler s) := by
  intro data
  refine ⟨_, if_pos ⟨rfl, hunread⟩, ?_⟩
  have hdata : t.received ++ [data] = [data] := by rw [hreceived, List.nil_append]
  by_cases hextended : data = 0xE0
  · have hleds : ledsSet s data = [] := by rw [hextended]; rfl
    have hstate : keyboardHandler s data = { s with extendedScancode := true } := if_pos hextended
    change PortProgram.Conforms _ _ _ (if data = 0xE0 then _ else _)
    rw [if_pos hextended]
    exact ⟨rfl, rfl, data, hdata, by rw [hleds]; exact h, hstate.symm⟩
  · change PortProgram.Conforms _ _ _ (if data = 0xE0 then _ else _)
    rw [if_neg hextended]
    refine (conforms_handleKey (t := { t with unread := false, received := _ }) s _ _ h).andThen ?_
    rintro t' _ ⟨hservice, hread, hreceived', hcommands, rfl⟩
    refine ⟨hservice, hread, data, hreceived'.trans hdata, ?_, ?_⟩
    · rw [hcommands, ledsSet_eq s hextended]
    · rw [keyboardHandler, if_neg hextended]

/-- Ending the interrupt. -/
theorem conforms_eoi (d : KernelData) {Q : HandlerKnows → KernelData → Prop}
    (h : Q { t with inService := false } d) :
    PortProgram.Conforms handlerContract Q t (.write 0x20 0x20 (.done d)) := by
  refine ⟨{ t with inService := false }, ?_, h⟩
  simp [handlerContract, pic1Command, OnPorts.picEoi]

/-- The whole keyboard interrupt, with the second end of interrupt of the stub. -/
theorem conforms_keyboard (d : KernelData) (inputEmpty : Bool) :
    PortProgram.Conforms handlerContract (KeyboardDone d) ⟨true, true, inputEmpty, [], []⟩
      (OnPorts.irqCommonStub OnPorts.keyboardInterruptHandler d) := by
  refine PortProgram.Conforms.andThen
    (Q := fun t d' => t.unread = false ∧ ∃ data, t.received = [data] ∧
      t.commands = I8042.ledCommands (ledsSet d.keyboard data) ∧
      d' = { d with keyboard := keyboardHandler d.keyboard data }) ?_ ?_
  · refine (conforms_keyboardHandler d.keyboard rfl rfl rfl).andThen ?_
    rintro t' _ ⟨-, hread, data, hreceived, hcommands, rfl⟩
    exact conforms_eoi _ ⟨hread, data, hreceived, hcommands, rfl⟩
  · rintro t' d' ⟨hread, hdone⟩
    exact conforms_eoi _ ⟨rfl, hread, hdone⟩

/-- The whole timer interrupt. -/
theorem conforms_timer (d : KernelData) (inputEmpty : Bool) :
    PortProgram.Conforms handlerContract (TimerDone d) ⟨true, false, inputEmpty, [], []⟩
      (OnPorts.irqCommonStub OnPorts.timerHandler d) := by
  refine PortProgram.Conforms.andThen
    (Q := fun t d' => t.unread = false ∧ t.received = [] ∧ t.commands = [] ∧
      d' = { d with tickCount := d.tickCount + 1 }) (conforms_eoi _ ⟨rfl, rfl, rfl, rfl⟩) ?_
  rintro t' d' ⟨hread, hreceived, hcommands, hd⟩
  exact conforms_eoi _ ⟨rfl, hread, hreceived, hcommands, hd⟩

/-- The LEDs that a byte sets are three bits. -/
theorem ledsSet_and_seven {s : KeyboardState} (h : leds ∈ ledsSet s data) : leds &&& 7 = leds := by
  unfold ledsSet at h
  split at h
  · rename_i hlock
    obtain ⟨l, rfl⟩ := isLockKey_iff.mp hlock
    obtain rfl := List.mem_singleton.mp h
    have hne : l.scancode ≠ 0xE0 := by cases l <;> decide
    obtain ⟨hmake, hkey⟩ := (eq_scancode_iff l _).mp rfl
    have hstate : (keyboardHandler s l.scancode).ledState =
        (keyboardUpdateLeds { s with flags := s.flags ^^^ l.flag }).ledState := by
      rw [keyboardHandler, if_neg hne, hkey, decide_eq_false (not_not.mpr hmake), handleKey_lock]
      rfl
    rw [hstate]
    simp only [keyboardUpdateLeds]
    split_ifs <;> decide
  · cases h

/-- Handlers wait for nothing but the input buffer of the controller. -/
def WaitsForInput (p : PortProgram KernelData) : Prop :=
  p.WaitsFor keyboardStatusPort fun status => status &&& keyboardStatusInputFull ≠ 0

theorem waitsFor_handleKey (s : KeyboardState) (released : Bool) (scancode : Byte) :
    (OnPorts.handleKey s released scancode).WaitsFor keyboardStatusPort
      fun status => status &&& keyboardStatusInputFull ≠ 0 := by
  by_cases hlock : IsLockKey scancode
  · obtain ⟨l, rfl⟩ := isLockKey_iff.mp hlock
    rw [onPorts_handleKey_lock]
    cases released with
    | true => exact trivial
    | false => exact ⟨rfl, rfl, rfl, rfl, trivial⟩
  · rw [onPorts_handleKey_not_lock hlock]
    exact trivial

theorem waitsForInput_keyboard (d : KernelData) :
    WaitsForInput (OnPorts.irqCommonStub OnPorts.keyboardInterruptHandler d) := by
  refine PortProgram.WaitsFor.andThen (PortProgram.WaitsFor.andThen (fun data => ?_) fun s => trivial)
    fun d' => trivial
  change PortProgram.WaitsFor _ _ (if data = 0xE0 then _ else _)
  by_cases hextended : data = 0xE0
  · rw [if_pos hextended]
    exact trivial
  · rw [if_neg hextended]
    exact (waitsFor_handleKey d.keyboard _ _).andThen fun s => trivial

theorem waitsForInput_timer (d : KernelData) :
    WaitsForInput (OnPorts.irqCommonStub OnPorts.timerHandler d) := trivial

end conforms

end KyroKernel
