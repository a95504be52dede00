import KyroKernel.Foundations.CString
import Mathlib.Tactic.SplitIfs
import Mathlib.Tactic.Tauto

/-!
# The keyboard driver

`drivers/keyboard.h` and `kernel/drivers/keyboard.c`. A scancode read from the data port is an
argument of `keyboardHandler`. Setting the LEDs also sends two bytes to the controller, after
waiting until it takes them; nothing in the driver reads them back.
-/

namespace KyroKernel

open Foundations

def keyShiftL : Byte := 0x2A
def keyShiftR : Byte := 0x36
def keyCtrl : Byte := 0x1D
def keyAlt : Byte := 0x38
def keyCapsLock : Byte := 0x3A
def keyNumLock : Byte := 0x45
def keyScrollLock : Byte := 0x46

def keyboardFlagShift : Byte := 0x01
def keyboardFlagCtrl : Byte := 0x02
def keyboardFlagAlt : Byte := 0x04
def keyboardFlagCapsLock : Byte := 0x08
def keyboardFlagNumLock : Byte := 0x10
def keyboardFlagScrollLock : Byte := 0x20

def keyboardBufferSize : Int := 256

/-- `keyboard_state_t`. `buffer i` is `buffer[i]` of the C array for `i` in [0,256). -/
structure KeyboardState where
  flags : Byte
  ledState : Byte
  extendedScancode : Bool
  buffer : Int → Byte
  bufferHead : Int
  bufferTail : Int
  bufferCount : Int

/-- `scancode_table`; the entries that the initializer does not reach are 0. -/
def scancodeTable : List Byte :=
  chars "\x00\x1b1234567890-=\x08\tqwertyuiop[]\n\x00asdfghjkl;\x27\x60\x00\\zxcvbnm,./\x00*\x00 "

/-- `scancode_table_shift`. -/
def scancodeTableShift : List Byte :=
  chars "\x00\x1b!@#$%^&*()_+\x08\tQWERTYUIOP\x7b\x7d\n\x00ASDFGHJKL:\x22~\x00|ZXCVBNM<>?\x00*\x00 "

/-- `keyboard_init`. -/
def keyboardInit (s : KeyboardState) : KeyboardState :=
  { flags := 0
    ledState := 0
    extendedScancode := false
    bufferHead := 0
    bufferTail := 0
    bufferCount := 0
    buffer := fun i => if 0 ≤ i ∧ i < keyboardBufferSize then 0 else s.buffer i }

/-! ## The ring of scancodes -/

/-- `keyboard_buffer_put`. -/
def keyboardBufferPut (s : KeyboardState) (scancode : Byte) : KeyboardState :=
  if s.bufferCount < keyboardBufferSize then
    { s with
      buffer := Function.update s.buffer s.bufferHead scancode
      bufferHead := (s.bufferHead + 1).tmod keyboardBufferSize
      bufferCount := s.bufferCount + 1 }
  else s

/-- `keyboard_buffer_get`. -/
def keyboardBufferGet (s : KeyboardState) : Byte × KeyboardState :=
  if s.bufferCount > 0 then
    let scancode := s.buffer s.bufferTail
    (scancode,
      { s with
        bufferTail := (s.bufferTail + 1).tmod keyboardBufferSize
        bufferCount := s.bufferCount - 1 })
  else (0, s)

/-- `keyboard_buffer_empty`. -/
def keyboardBufferEmpty (s : KeyboardState) : Bool := s.bufferCount == 0

/-- `keyboard_buffer_full`. -/
def keyboardBufferFull (s : KeyboardState) : Bool := s.bufferCount ≥ keyboardBufferSize

/-! ## The interrupt handler -/

/-- `keyboard_update_leds`, with `keyboard_set_leds`. -/
def keyboardUpdateLeds (s : KeyboardState) : KeyboardState :=
  let leds : Byte := 0
  let leds := if s.flags &&& keyboardFlagScrollLock ≠ 0 then leds ||| 0x01 else leds
  let leds := if s.flags &&& keyboardFlagNumLock ≠ 0 then leds ||| 0x02 else leds
  let leds := if s.flags &&& keyboardFlagCapsLock ≠ 0 then leds ||| 0x04 else leds
  { s with ledState := leds }

/-- A key that is held: Shift, Ctrl and Alt set their flag while they are down. -/
def holdFlag (s : KeyboardState) (keyReleased : Bool) (flag : Byte) : KeyboardState :=
  if keyReleased then { s with flags := s.flags &&& ~~~flag }
  else { s with flags := s.flags ||| flag }

/-- A key that locks: Caps Lock, Num Lock and Scroll Lock turn their flag over when pressed. -/
def toggleFlag (s : KeyboardState) (keyReleased : Bool) (flag : Byte) : KeyboardState :=
  if keyReleased then s else keyboardUpdateLeds { s with flags := s.flags ^^^ flag }

/-- The `switch` of `keyboard_handler`. -/
def handleKey (s : KeyboardState) (keyReleased : Bool) (scancode : Byte) : KeyboardState :=
  if scancode = keyShiftL ∨ scancode = keyShiftR then holdFlag s keyReleased keyboardFlagShift
  else if scancode = keyCtrl then holdFlag s keyReleased keyboardFlagCtrl
  else if scancode = keyAlt then holdFlag s keyReleased keyboardFlagAlt
  else if scancode = keyCapsLock then toggleFlag s keyReleased keyboardFlagCapsLock
  else if scancode = keyNumLock then toggleFlag s keyReleased keyboardFlagNumLock
  else if scancode = keyScrollLock then toggleFlag s keyReleased keyboardFlagScrollLock
  -- A regular key is stored when it is pressed, not when it is released.
  else if keyReleased then s
  else keyboardBufferPut s scancode

/-- `keyboard_handler` with `data` read from the data port. -/
def keyboardHandler (s : KeyboardState) (data : Byte) : KeyboardState :=
  if data = 0xE0 then { s with extendedScancode := true }
  else { handleKey s (data &&& 0x80 ≠ 0) (data &&& 0x7F) with extendedScancode := false }

/-! ## Characters -/

/-- `scancode_to_ascii`. -/
def scancodeToAscii (scancode : Byte) (shift : Bool) : Byte :=
  if scancode ≥ 128 then 0
  else if shift then scancodeTableShift.getD scancode.toNat 0
  else scancodeTable.getD scancode.toNat 0

/-- What `keyboard_get_char` makes of a scancode under the flags it finds. -/
def keyChar (flags scancode : Byte) : Byte :=
  let shiftPressed : Bool := flags &&& keyboardFlagShift ≠ 0
  let capsLock : Bool := flags &&& keyboardFlagCapsLock ≠ 0
  -- For letters, caps lock acts like shift.
  let c := scancodeToAscii scancode shiftPressed
  if c ≥ 97 ∧ c ≤ 122 ∧ capsLock then c - 97 + 65
  else if c ≥ 65 ∧ c ≤ 90 ∧ capsLock ∧ ¬ shiftPressed then c - 65 + 97
  else c

/-- `keyboard_get_char`. -/
def keyboardGetChar (s : KeyboardState) : Byte × KeyboardState :=
  if keyboardBufferEmpty s then (0, s)
  else
    let (scancode, s) := keyboardBufferGet s
    (keyChar s.flags scancode, s)

/-! ## What the handler does -/

/-- The keys the `switch` has a case for. -/
def specialKeys : List Byte :=
  [keyShiftL, keyShiftR, keyCtrl, keyAlt, keyCapsLock, keyNumLock, keyScrollLock]

/-- The scancode a byte from the keyboard puts into the ring: that of a regular key when it
is pressed. -/
def pressedKey (data : Byte) : Option Byte :=
  if data = 0xE0 ∨ data &&& 0x80 ≠ 0 ∨ data &&& 0x7F ∈ specialKeys then none
  else some (data &&& 0x7F)

/-- The ring of a keyboard state: the cells and the three variables. -/
def KeyboardState.ring (s : KeyboardState) : (Int → Byte) × Int × Int × Int :=
  (s.buffer, s.bufferHead, s.bufferTail, s.bufferCount)

variable {s : KeyboardState} {data scancode : Byte}

theorem ring_holdFlag (s : KeyboardState) (released : Bool) (flag : Byte) :
    (holdFlag s released flag).ring = s.ring := by
  unfold holdFlag
  split <;> rfl

theorem ring_toggleFlag (s : KeyboardState) (released : Bool) (flag : Byte) :
    (toggleFlag s released flag).ring = s.ring := by
  unfold toggleFlag
  split <;> rfl

/-- The `switch` leaves the ring alone unless a regular key is pressed. -/
theorem ring_handleKey {released : Bool} (h : released = true ∨ scancode ∈ specialKeys) :
    (handleKey s released scancode).ring = s.ring := by
  unfold handleKey
  split_ifs with hshift hctrl halt hcaps hnum hscroll hreleased
  · exact ring_holdFlag _ _ _
  · exact ring_holdFlag _ _ _
  · exact ring_holdFlag _ _ _
  · exact ring_toggleFlag _ _ _
  · exact ring_toggleFlag _ _ _
  · exact ring_toggleFlag _ _ _
  · rfl
  · -- No case is left for a special key.
    have hspecial := h.resolve_left hreleased
    simp only [specialKeys, List.mem_cons, List.not_mem_nil, or_false] at hspecial
    tauto

/-- The `switch` stores a regular key that is pressed. -/
theorem handleKey_regular (h : scancode ∉ specialKeys) :
    handleKey s false scancode = keyboardBufferPut s scancode := by
  simp only [specialKeys, List.mem_cons, List.not_mem_nil, or_false, not_or] at h
  obtain ⟨hl, hr, hctrl, halt, hcaps, hnum, hscroll⟩ := h
  simp [handleKey, hl, hr, hctrl, halt, hcaps, hnum, hscroll]

/-- A byte that presses no regular key leaves the ring alone. -/
theorem ring_keyboardHandler (h : pressedKey data = none) :
    (keyboardHandler s data).ring = s.ring := by
  unfold pressedKey at h
  unfold keyboardHandler
  split at h
  · rename_i hor
    by_cases hE0 : data = 0xE0
    · rw [if_pos hE0]
      rfl
    · rw [if_neg hE0]
      have hkey : decide (data &&& 0x80 ≠ 0) = true ∨ data &&& 0x7F ∈ specialKeys :=
        (hor.resolve_left hE0).imp_left decide_eq_true
      exact ring_handleKey (s := s) hkey
  · cases h

/-- A byte that presses a regular key puts its scancode. -/
theorem keyboardHandler_of_pressed (h : pressedKey data = some scancode) :
    keyboardHandler s data = { keyboardBufferPut s scancode with extendedScancode := false } := by
  unfold pressedKey at h
  split at h
  · cases h
  · rename_i hnot
    obtain rfl := Option.some.inj h
    obtain ⟨hE0, hdown, hregular⟩ : ¬ data = 0xE0 ∧ ¬ data &&& 0x80 ≠ 0 ∧ _ := by
      simpa only [not_or] using hnot
    unfold keyboardHandler
    rw [if_neg hE0, decide_eq_false hdown, handleKey_regular hregular]

end KyroKernel
