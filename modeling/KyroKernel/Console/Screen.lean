import KyroKernel.Foundations.CString
import KyroKernel.Foundations.Loop

/-!
# The text screen

`clear_screen`, `print_message` and `putchar` of `kernel/kernel.c`. The text buffer is the 4000
bytes from `0xB8000` on; a write outside of it makes the model fail.
-/

namespace KyroKernel

open Foundations

def vgaWidth : Int := 80
def vgaHeight : Int := 25

/-- `video_memory`, indexed from `0xB8000`, and the cursor. -/
structure Console where
  videoMemory : Int → Byte
  cursorX : Int
  cursorY : Int

/-- `video_memory[i] = b`, `none` outside the text buffer. -/
def videoWrite (v : Int → Byte) (i : Int) (b : Byte) : Option (Int → Byte) :=
  if 0 ≤ i ∧ i < vgaWidth * vgaHeight * 2 then some (Function.update v i b) else none

/-- Set the character and the attribute of cell `i` to a blank. -/
def clearCell (v : Int → Byte) (i : Int) : Option (Int → Byte) := do
  let v ← videoWrite v (i * 2) 0x20
  videoWrite v (i * 2 + 1) 0x07

/-- `clear_screen`. -/
def clearScreen (s : Console) : Option Console := do
  let v ← forRange clearCell 0 (80 * 25) s.videoMemory
  some { videoMemory := v, cursorX := 0, cursorY := 0 }

/-- Copy the cell below to cell `i`. -/
def scrollCell (v : Int → Byte) (i : Int) : Option (Int → Byte) := do
  let v ← videoWrite v (i * 2) (v ((i + vgaWidth) * 2))
  videoWrite v (i * 2 + 1) (v ((i + vgaWidth) * 2 + 1))

/-- Scroll the screen up and clear the last line. -/
def scrollUp (v : Int → Byte) : Option (Int → Byte) := do
  let v ← forRange scrollCell 0 ((vgaHeight - 1) * vgaWidth).toNat v
  forRange clearCell ((vgaHeight - 1) * vgaWidth)
    (vgaHeight * vgaWidth - (vgaHeight - 1) * vgaWidth).toNat v

/-- Wrap at the end of the line and scroll at the end of the screen: the last part of the loop
of `print_message`, and of `putchar`. -/
def wrapAndScroll (s : Console) : Option Console := do
  let s :=
    if s.cursorX ≥ vgaWidth then { s with cursorX := 0, cursorY := s.cursorY + 1 } else s
  if s.cursorY ≥ vgaHeight then
    let v ← scrollUp s.videoMemory
    some { s with videoMemory := v, cursorY := vgaHeight - 1 }
  else some s

/-- Write a character at the cursor, with the attribute light grey on black. -/
def storeChar (s : Console) (c : Byte) : Option Console := do
  let v ← videoWrite s.videoMemory ((s.cursorY * vgaWidth + s.cursorX) * 2) c
  let v ← videoWrite v ((s.cursorY * vgaWidth + s.cursorX) * 2 + 1) 0x07
  some { s with videoMemory := v, cursorX := s.cursorX + 1 }

/-- One round of the loop of `print_message`. -/
def printChar (s : Console) (c : Byte) : Option Console := do
  let s ←
    if c = 10 then some { s with cursorX := 0, cursorY := s.cursorY + 1 }
    else if c = 13 then some { s with cursorX := 0 }
    else storeChar s c
  wrapAndScroll s

/-- `print_message`, on the characters before the NUL. -/
def printMessage (s : Console) : List Byte → Option Console
  | [] => some s
  | c :: message => do
    let s ← printChar s c
    printMessage s message

/-- The backspace of `putchar`: it blanks the character and keeps the attribute. -/
def eraseChar (s : Console) : Option Console :=
  if s.cursorX > 0 then do
    let v ← videoWrite s.videoMemory ((s.cursorY * vgaWidth + (s.cursorX - 1)) * 2) 0x20
    some { s with videoMemory := v, cursorX := s.cursorX - 1 }
  else some s

/-- `putchar`. -/
def putchar (s : Console) (c : Byte) : Option Console := do
  let s ←
    if c = 10 then some { s with cursorX := 0, cursorY := s.cursorY + 1 }
    else if c = 13 then some { s with cursorX := 0 }
    else if c = 9 then some { s with cursorX := (BitVec.ofInt 32 (s.cursorX + 8) &&& ~~~7).toInt }
    else if c = 8 then eraseChar s
    else storeChar s c
  wrapAndScroll s

/-- Calls of `putchar` one after the other. -/
def putchars : Console → List Byte → Option Console
  | s, [] => some s
  | s, c :: cs => do
    let s ← putchar s c
    putchars s cs

end KyroKernel
