import KyroKernel.Console.ScreenWindow

/-!
# Calls that clear the screen too

The screen is a window on the terminal through `clear_screen` as well: it starts an empty terminal.
What is written on a terminal goes to the row of the cursor, so the rows below it stay blank.
-/

namespace KyroKernel

open Foundations

/-! ## §1 Calls -/

/-- What the kernel does to the screen. -/
inductive ScreenCall where
  | write (call : ConsoleCall)
  | clearScreen

/-- Carry out a call. -/
def ScreenCall.exec (s : Console) : ScreenCall → Option Console
  | .write call => runCalls s [call]
  | .clearScreen => KyroKernel.clearScreen s

def runScreen (s : Console) : List ScreenCall → Option Console
  | [] => some s
  | call :: calls => do
    let s ← call.exec s
    runScreen s calls

/-- The reference terminal after a call. -/
def ScreenCall.terminal (t : Terminal Byte) : ScreenCall → Terminal Byte
  | .write call => terminalAfter t [call]
  | .clearScreen => Terminal.clear 0x20

/-- The reference terminal after calls. -/
def screenTerminal (t : Terminal Byte) (calls : List ScreenCall) : Terminal Byte :=
  calls.foldl ScreenCall.terminal t

/-- A string literal. -/
def literal (s : String) : CString := ⟨cstr (chars s), nul_notMem_cstr _⟩

/-- `print_message` of a string literal. -/
def message (s : String) : ScreenCall := .write (.printMessage (literal s))

/-- `putchar` of characters one after the other. -/
def putcharCalls (cs : List Byte) : List ScreenCall := cs.map fun c => .write (.putchar c)

variable {s : Console} {t : Terminal Byte}

/-- The screen shows the terminal after all calls. -/
theorem Shows.runScreen (h : Shows s t) (calls : List ScreenCall) :
    ∃ s', runScreen s calls = some s' ∧ Shows s' (screenTerminal t calls) := by
  induction calls generalizing s t with
  | nil => exact ⟨s, rfl, h⟩
  | cons call calls ih =>
    obtain ⟨s₁, hexec, h₁⟩ : ∃ s₁, call.exec s = some s₁ ∧ Shows s₁ (call.terminal t) := by
      cases call with
      | write call => exact h.runCalls [call]
      | clearScreen => exact shows_clearScreen s
    obtain ⟨s', hrun, h'⟩ := ih h₁
    refine ⟨s', ?_, h'⟩
    rw [KyroKernel.runScreen, hexec]
    exact hrun

/-- The screen that `clear_screen` leaves. -/
def blankConsole : Console where
  videoMemory i := if i % 2 = 0 then 0x20 else 0x07
  cursorX := 0
  cursorY := 0

theorem shows_blankConsole : Shows blankConsole (Terminal.clear 0x20) where
  from_top :=
    { x := rfl
      y := rfl
      col_le := Nat.zero_le _
      top_le := Nat.le_refl _
      row_le := Nat.zero_le _
      corner := fun h => absurd h (by decide)
      cells := fun r c _ _ => by
        have heven : ((r : Int) * 80 + c) * 2 % 2 = 0 := Int.mul_emod_left _ _
        have hodd : (((r : Int) * 80 + c) * 2 + 1) % 2 ≠ 0 := by omega
        simp only [cellAt, blankConsole, if_pos heven, if_neg hodd]
        rfl
      blank := .clear _ 0x20 }
  col_lt := by decide

theorem screenTerminal_append (t : Terminal Byte) (calls calls' : List ScreenCall) :
    screenTerminal t (calls ++ calls') = screenTerminal (screenTerminal t calls) calls' :=
  List.foldl_append

theorem screenTerminal_putcharCalls (t : Terminal Byte) (cs : List Byte) :
    screenTerminal t (putcharCalls cs) = cs.foldl Terminal.putchar t := by
  rw [screenTerminal, putcharCalls, List.foldl_map]
  rfl

/-! ## §2 Rows below the cursor -/

/-- The rows below that of the cursor are blank. -/
def BlankBelow (t : Terminal Byte) : Prop := t.BlankFrom (t.row + 1) 0x20

/-- The cursor is at the start of a blank row, with blank rows below. -/
structure FreshRow (t : Terminal Byte) : Prop where
  col : t.col = 0
  blank : t.BlankFrom t.row 0x20

theorem FreshRow.below (h : FreshRow t) : BlankBelow t :=
  fun r hr c => h.blank r (Nat.le_of_succ_le hr) c

theorem freshRow_clear : FreshRow (Terminal.clear 0x20) := ⟨rfl, .clear 0 0x20⟩

theorem BlankBelow.newline (h : BlankBelow t) : FreshRow t.newline := ⟨rfl, h⟩

/-- Moving the cursor within its row. -/
theorem BlankBelow.move (h : BlankBelow t) (col : Nat) : BlankBelow { t with col := col } := h

theorem BlankBelow.store (h : BlankBelow t) (col : Nat) (x : Byte) : BlankBelow (t.store col x) :=
  Terminal.BlankFrom.store h (Nat.lt_succ_self _) col x

theorem BlankBelow.wrap (h : BlankBelow t) : BlankBelow (t.wrap 80) := by
  unfold Terminal.wrap
  split
  · exact h.newline.below
  · exact h

theorem BlankBelow.printChar (h : BlankBelow t) (c : Byte) : BlankBelow (Terminal.printChar t c) := by
  unfold Terminal.printChar
  refine BlankBelow.wrap ?_
  split_ifs
  · exact h.newline.below
  · exact h.move 0
  · exact (h.store t.col c).move _

theorem BlankBelow.putchar (h : BlankBelow t) (c : Byte) : BlankBelow (Terminal.putchar t c) := by
  unfold Terminal.putchar
  refine BlankBelow.wrap ?_
  split_ifs
  · exact h.newline.below
  · exact h.move 0
  · exact h.move _
  · unfold Terminal.erase
    split
    · exact (h.store (t.col - 1) 0x20).move _
    · exact h
  · exact (h.store t.col c).move _

theorem BlankBelow.terminal (h : BlankBelow t) (call : ScreenCall) : BlankBelow (call.terminal t) := by
  cases call with
  | write call =>
    cases call with
    | putchar c => exact h.putchar c
    | printMessage message =>
      change BlankBelow (message.toList.foldl Terminal.printChar t)
      induction message.toList generalizing t with
      | nil => exact h
      | cons c cs ih => exact ih (h.printChar c)
  | clearScreen => exact freshRow_clear.below

theorem BlankBelow.screenTerminal (h : BlankBelow t) (calls : List ScreenCall) :
    BlankBelow (screenTerminal t calls) := by
  induction calls generalizing t with
  | nil => exact h
  | cons call calls ih => exact ih (h.terminal call)

/-- A newline starts a fresh row, however it is printed. -/
theorem BlankBelow.printChar_newline (h : BlankBelow t) : FreshRow (Terminal.printChar t 10) :=
  h.newline

theorem BlankBelow.putchar_newline (h : BlankBelow t) : FreshRow (Terminal.putchar t 10) :=
  h.newline

end KyroKernel
