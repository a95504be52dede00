import KyroKernel.Asm.InterruptStubs
import KyroKernel.Console.LineEcho
import KyroKernel.Console.ScreenText
import KyroKernel.Foundations.Numerals

/-!
# Exceptions on the screen

The exception handlers of `kernel/interrupts/idt.c`. Each prints what happened and halts the
processor; the one for page faults prints the address too, eight digits that it stores in an array
of nine bytes. What was printed can be read off the screen.
-/

namespace KyroKernel

open Foundations

/-! ## §1 The handlers -/

/-- `array[i] = c`, `none` outside of the array. -/
def setChar (array : List Byte) (i : Nat) (c : Byte) : Option (List Byte) :=
  if i < array.length then some (array.set i c) else none

/-- `char hex[]`. -/
def hexChars : List Byte := chars "0123456789ABCDEF" ++ [0]

/-- The loop of `page_fault_handler`, with `i` from here down to 0. -/
def storeHexDigits (faultingAddress : Word) : Nat → List Byte → Option (List Byte)
  | 0, addrStr => some addrStr
  | i + 1, addrStr => do
    let c ← hexChars[((faultingAddress >>> (i * 4)) &&& 0xF).toNat]?
    let addrStr ← setChar addrStr (7 - i) c
    storeHexDigits faultingAddress i addrStr

/-- The last message of every handler, before `cli; hlt`. -/
def systemHalted : ScreenCall := message "System halted.\n"

/-- `divide_error_handler`. -/
def divideErrorHandler : List ScreenCall :=
  [message "EXCEPTION: Divide by zero error\n", systemHalted]

/-- `debug_handler`. -/
def debugHandler : List ScreenCall := [message "EXCEPTION: Debug exception\n", systemHalted]

/-- `nmi_handler`. -/
def nmiHandler : List ScreenCall := [message "EXCEPTION: Non-maskable interrupt\n", systemHalted]

/-- `breakpoint_handler`. -/
def breakpointHandler : List ScreenCall :=
  [message "EXCEPTION: Breakpoint exception\n", systemHalted]

/-- `general_protection_fault_handler`. -/
def generalProtectionFaultHandler : List ScreenCall :=
  [message "EXCEPTION: General Protection Fault\n",
    message "This usually indicates a segmentation violation.\n", systemHalted]

/-- `fault_handler`. -/
def faultHandler : List ScreenCall :=
  [message "FAULT: Unhandled system exception occurred\n", systemHalted]

/-- `page_fault_handler`, with what is in its array before. -/
def pageFaultHandler (cr2 : Word) (addrStr : List Byte) : Option (List ScreenCall) := do
  let addrStr ← storeHexDigits cr2 8 addrStr
  let addrStr ← setChar addrStr 8 0
  some [message "EXCEPTION: Page Fault\n", message "Faulting address: 0x", lineMessage addrStr,
    message "\n", systemHalted]

/-- The handlers of exceptions. -/
def exceptionScreen (cr2 : Word) (addrStr : List Byte) : CHandler → Option (List ScreenCall)
  | .faultHandler => some faultHandler
  | .divideErrorHandler => some divideErrorHandler
  | .debugHandler => some debugHandler
  | .nmiHandler => some nmiHandler
  | .breakpointHandler => some breakpointHandler
  | .generalProtectionFaultHandler => some generalProtectionFaultHandler
  | .pageFaultHandler => pageFaultHandler cr2 addrStr
  | .timerHandler | .keyboardInterruptHandler => none

/-! ## §2 The digits of the address -/

theorem hexChars_digit {d : Nat} (hd : d < 16) : hexChars[d]? = some (digitChar d) := by
  revert hd
  revert d
  decide

/-- A digit of the address. -/
theorem nibble (x : Word) (i : Nat) :
    ((x >>> (i * 4)) &&& 0xF).toNat = x.toNat / 16 ^ i % 16 := by
  have hpow : 2 ^ (i * 4) = 16 ^ i := by rw [Nat.mul_comm, Nat.pow_mul]
  rw [BitVec.toNat_and, BitVec.toNat_ushiftRight, Nat.shiftRight_eq_div_pow, hpow]
  exact Nat.and_two_pow_sub_one_eq_mod _ 4

/-- The loop stores the digits from the first one on, all of them within the array. -/
theorem storeHexDigits_eq (x : Word) {i : Nat} {stored free : List Byte} (last : Byte) (hi : i ≤ 8)
    (hstored : stored.length = 8 - i) (hfree : free.length = i) :
    storeHexDigits x i (stored ++ free ++ [last]) =
      some (stored ++ paddedNumeral 16 i x.toNat ++ [last]) := by
  induction i generalizing stored free with
  | zero =>
    obtain rfl := List.eq_nil_of_length_eq_zero hfree
    rfl
  | succ i ih =>
    -- The next digit goes behind those that are stored, at `7 - i`.
    obtain ⟨y, free, rfl⟩ := List.exists_cons_of_length_eq_add_one hfree
    have hdigit : hexChars[((x >>> (i * 4)) &&& 0xF).toNat]? =
        some (digitChar (x.toNat / 16 ^ i % 16)) := by
      rw [nibble, hexChars_digit (Nat.mod_lt _ (by decide))]
    have hset : setChar (stored ++ y :: free ++ [last]) (7 - i) (digitChar (x.toNat / 16 ^ i % 16)) =
        some ((stored ++ [digitChar (x.toNat / 16 ^ i % 16)]) ++ free ++ [last]) := by
      have hlength : stored.length = 7 - i := by omega
      rw [setChar, if_pos (by simp only [List.length_append, List.length_cons]; omega), ← hlength,
        List.append_assoc, List.append_assoc, List.set_append_right _ _ (Nat.le_refl _), Nat.sub_self]
      simp
    rw [storeHexDigits, hdigit]
    simp only [Option.bind_eq_bind, Option.bind_some, hset]
    rw [ih (by omega) (by simp only [List.length_append, List.length_singleton]; omega)
        (by simpa using hfree), paddedNumeral_succ]
    simp

/-- The digits are printable. -/
theorem lineKey_digitChar {d : Nat} (hd : d < 16) : lineKey (digitChar d) = .text := by
  revert hd
  revert d
  decide

theorem lineKey_paddedNumeral (len n : Nat) : ∀ c ∈ paddedNumeral 16 len n, lineKey c = .text := by
  intro c hc
  obtain ⟨d, hd, rfl⟩ := mem_paddedNumeral (by decide) hc
  exact lineKey_digitChar hd

/-- Printable characters are no NUL. -/
theorem cstr_of_text {text rest : List Byte} (h : ∀ c ∈ text, lineKey c = .text) :
    cstr (text ++ 0 :: rest) = text :=
  cstr_append_nul fun hnul => absurd (h 0 hnul) (by decide)

/-- Whatever was in the array, the handler prints the eight digits. -/
theorem pageFaultHandler_eq (cr2 : Word) {addrStr : List Byte} (hlength : addrStr.length = 9) :
    ∃ addr : CString, addr.toList = paddedNumeral 16 8 cr2.toNat ∧
      pageFaultHandler cr2 addrStr =
        some [message "EXCEPTION: Page Fault\n", message "Faulting address: 0x",
          .write (.printMessage addr), message "\n", systemHalted] := by
  -- The loop fills the first eight bytes, and the ninth becomes the NUL.
  obtain ⟨front, last, rfl, hfront⟩ : ∃ front last, addrStr = front ++ [last] ∧ front.length = 8 := by
    obtain ⟨front, last, rfl⟩ := List.eq_nil_or_concat addrStr |>.resolve_left (by
      rintro rfl
      cases hlength)
    rw [List.concat_eq_append, List.length_append, List.length_singleton] at hlength
    exact ⟨front, last, List.concat_eq_append, by omega⟩
  have hdigits := length_paddedNumeral 16 8 cr2.toNat
  have hloop := @storeHexDigits_eq cr2 8 [] front last (Nat.le_refl 8) rfl hfront
  have hset : setChar (paddedNumeral 16 8 cr2.toNat ++ [last]) 8 0 =
      some (paddedNumeral 16 8 cr2.toNat ++ [0]) := by
    rw [setChar, if_pos (by rw [List.length_append, hdigits, List.length_singleton]; decide),
      List.set_append_right _ _ (by omega), hdigits]
    rfl
  refine ⟨⟨cstr (paddedNumeral 16 8 cr2.toNat ++ [0]), nul_notMem_cstr _⟩,
    cstr_of_text (lineKey_paddedNumeral 8 _), ?_⟩
  simp only [pageFaultHandler, Option.bind_eq_bind]
  simp only [List.nil_append] at hloop
  rw [hloop, Option.bind_some, hset]
  rfl

/-! ## §3 Text on a terminal -/

/-- The characters in some cells of a row. -/
def rowText (t : Terminal Byte) (row col len : Nat) : List Byte :=
  (List.range len).map fun i => t.cells row (col + i)

variable {t : Terminal Byte} {text : List Byte}

/-- Text that fits in the row of the cursor is there afterwards, and the rest is as before. -/
theorem cells_printText (htext : ∀ c ∈ text, lineKey c = .text) (hfits : t.col + text.length < 80) :
    rowText (text.foldl Terminal.printChar t) t.row t.col text.length = text ∧
      ∀ r c, r ≠ t.row ∨ c < t.col →
        (text.foldl Terminal.printChar t).cells r c = t.cells r c := by
  induction text generalizing t with
  | nil => exact ⟨rfl, fun _ _ _ => rfl⟩
  | cons x text ih =>
    obtain ⟨hx, hrest⟩ := List.forall_mem_cons.mp htext
    rw [List.length_cons] at hfits
    have hput := (printChar_text hx (t := t) (by omega)).1
    obtain ⟨hshown, hkept⟩ := ih (t := t.put x) hrest (by change t.col + 1 + _ < _; omega)
    have hfirst : (text.foldl Terminal.printChar (t.put x)).cells t.row t.col = x := by
      rw [hkept t.row t.col (.inr (Nat.lt_succ_self _))]
      exact (Terminal.store_cells t t.col x t.row t.col).trans (if_pos ⟨rfl, rfl⟩)
    rw [List.foldl_cons, hput]
    -- The first character stays, since the rest goes to its right.
    refine ⟨?_, fun r c hother => ?_⟩
    · rw [rowText, List.length_cons, List.range_succ_eq_map, List.map_cons, Nat.add_zero, hfirst,
        List.map_map]
      refine congrArg (x :: ·) (Eq.trans ?_ hshown)
      refine List.map_congr_left fun i _ => ?_
      change _ = (text.foldl Terminal.printChar (t.put x)).cells t.row (t.col + 1 + i)
      rw [Function.comp_apply, Nat.succ_eq_add_one, Nat.add_comm i, Nat.add_assoc]
    · rw [hkept r c (hother.imp_right fun hc => Nat.lt_succ_of_lt hc)]
      refine (Terminal.store_cells t t.col x r c).trans (if_neg ?_)
      rintro ⟨rfl, rfl⟩
      exact hother.elim (fun h => h rfl) (Nat.lt_irrefl _)

/-- A newline starts the next row. -/
theorem printChar_newline (t : Terminal Byte) : Terminal.printChar t 10 = t.newline := rfl

/-- A message with a newline at its end leaves the cursor at the start of a row. -/
theorem col_message {str : CString} (hstr : str.toList.getLast? = some 10) (t : Terminal Byte) :
    (screenTerminal t [.write (.printMessage str)]).col = 0 := by
  obtain ⟨front, hfront⟩ := List.getLast?_eq_some_iff.mp hstr
  rw [screenTerminal_message, hfront, List.foldl_append]
  rfl

/-- A line is in the row of the cursor, which goes to the next one. -/
theorem screenTerminal_line {str : CString} (hstr : str.toList = text ++ [10])
    (htext : ∀ c ∈ text, lineKey c = .text) (hfits : t.col + text.length < 80) :
    (screenTerminal t [.write (.printMessage str)]).row = t.row + 1 ∧
      (screenTerminal t [.write (.printMessage str)]).col = 0 ∧
      rowText (screenTerminal t [.write (.printMessage str)]) t.row t.col text.length = text ∧
      ∀ r c, r ≠ t.row ∨ c < t.col →
        (screenTerminal t [.write (.printMessage str)]).cells r c = t.cells r c := by
  obtain ⟨hrow, -, -⟩ := foldl_printChar_text htext hfits
  obtain ⟨hshown, hkept⟩ := cells_printText htext hfits
  rw [screenTerminal_message, hstr, List.foldl_append, List.foldl_cons, List.foldl_nil,
    printChar_newline]
  exact ⟨congrArg (· + 1) hrow, rfl, hshown, hkept⟩

/-! ## §4 What can be read off the screen -/

/-- The characters in some cells of a row of the screen. -/
def shownText (s : Console) (row : Int) (col len : Nat) : List Byte :=
  (List.range len).map fun i => shownChar s (row * 80 + (col + i : Nat))

/-- After a handler has printed: the row above the cursor says that the system was halted, and after
a page fault the row above that one has the address. -/
structure FaultReported (s : Console) (handler : CHandler) (cr2 : Word) : Prop where
  halted : shownText s (s.cursorY - 1) 0 14 = chars "System halted."
  label : handler = .pageFaultHandler →
    shownText s (s.cursorY - 2) 0 20 = chars "Faulting address: 0x"
  address : handler = .pageFaultHandler →
    readNumber 16 (shownText s (s.cursorY - 2) 20 8) = some cr2.toNat

variable {console : Console} {cr2 : Word} {addrStr : List Byte} {handler : CHandler}
  {screen : List ScreenCall}

/-- A row that is still on the screen. -/
theorem shownText_eq (h : ShowsText console t) (above col len : Nat) (habove : above ≤ t.row)
    (hscreen : above < 25) (hcol : col + len ≤ 80) :
    shownText console (console.cursorY - above) col len = rowText t (t.row - above) col len := by
  obtain ⟨plain, hsame, h⟩ := h
  refine List.map_congr_left fun i hi => ?_
  have hlt := List.mem_range.mp hi
  have hy := h.from_top.y
  have hy' := hsame.cursorY
  have htop : t.top 25 = t.row + 1 - 25 := rfl
  have hcell := h.from_top.cells (t.row - above - t.top 25) (col + i) (by omega) (by omega)
  have hrow : t.top 25 + (t.row - above - t.top 25) = t.row - above := by omega
  have hcursor : console.cursorY - above = ((t.row - above - t.top 25 : Nat) : Int) := by omega
  rw [hrow] at hcell
  rw [hcursor]
  exact (hsame.chars _).trans (congrArg Prod.fst hcell)

/-- The last message of a handler, with the cursor at the start of a row. -/
theorem systemHalted_shown (hcol : t.col = 0) :
    (screenTerminal t [systemHalted]).row = t.row + 1 ∧
      rowText (screenTerminal t [systemHalted]) t.row 0 14 = chars "System halted." ∧
      ∀ r c, r ≠ t.row → (screenTerminal t [systemHalted]).cells r c = t.cells r c := by
  have hstr : (literal "System halted.\n").toList = chars "System halted." ++ [10] := by decide
  obtain ⟨hrow, -, hshown, hkept⟩ := screenTerminal_line hstr (by decide)
    (show t.col + (chars "System halted.").length < 80 by rw [hcol]; decide)
  rw [hcol] at hshown
  exact ⟨hrow, hshown, fun r c hr => hkept r c (.inl hr)⟩

/-- Every handler ends with this message. -/
theorem halted_shown (h : ShowsText console t) {front : List ScreenCall}
    (hcol : (screenTerminal t front).col = 0) : ∃ console',
    runScreen console (front ++ [systemHalted]) = some console' ∧
      ShowsText console' (screenTerminal t (front ++ [systemHalted])) ∧
      shownText console' (console'.cursorY - 1) 0 14 = chars "System halted." := by
  obtain ⟨console', hrun, hshows⟩ := h.runScreen (front ++ [systemHalted])
  obtain ⟨hrow, htext, -⟩ := systemHalted_shown hcol
  refine ⟨console', hrun, hshows, ?_⟩
  rw [screenTerminal_append] at hshows
  have hshown := shownText_eq hshows 1 0 14 (by omega) (by decide) (by decide)
  rw [hrow, Nat.add_sub_cancel, htext] at hshown
  exact hshown

/-- A handler that prints whole lines only. -/
theorem halted_lines (h : ShowsText console t) (str : CString) (hstr : str.toList.getLast? = some 10)
    (front : List ScreenCall) (handler : CHandler) (hne : handler ≠ .pageFaultHandler) (cr2 : Word) :
    ∃ console', runScreen console (front ++ [.write (.printMessage str)] ++ [systemHalted]) =
      some console' ∧ FaultReported console' handler cr2 := by
  have hcol : (screenTerminal t (front ++ [.write (.printMessage str)])).col = 0 := by
    rw [screenTerminal_append]
    exact col_message hstr _
  obtain ⟨console', hrun, -, hhalted⟩ := halted_shown h hcol
  exact ⟨console', hrun, hhalted, fun heq => absurd heq hne, fun heq => absurd heq hne⟩

theorem rowText_congr {t' : Terminal Byte} {row col len : Nat}
    (h : ∀ i < len, t'.cells row (col + i) = t.cells row (col + i)) :
    rowText t' row col len = rowText t row col len :=
  List.map_congr_left fun i hi => h i (List.mem_range.mp hi)

/-- The messages of a page fault before the last one: the row of the address is the one above the
cursor. -/
theorem pageFault_rows (t : Terminal Byte) {addr : CString}
    (haddr : addr.toList = paddedNumeral 16 8 cr2.toNat) :
    let t' := screenTerminal t [message "EXCEPTION: Page Fault\n", message "Faulting address: 0x",
      .write (.printMessage addr), message "\n"]
    0 < t'.row ∧ t'.col = 0 ∧ rowText t' (t'.row - 1) 0 20 = chars "Faulting address: 0x" ∧
      rowText t' (t'.row - 1) 20 8 = addr.toList := by
  have htext : ∀ c ∈ addr.toList, lineKey c = .text := haddr ▸ lineKey_paddedNumeral 8 _
  have hlength : addr.toList.length = 8 := by rw [haddr, length_paddedNumeral]
  have hlabel : (literal "Faulting address: 0x").toList = chars "Faulting address: 0x" ∧
      (∀ c ∈ chars "Faulting address: 0x", lineKey c = .text) ∧
      (chars "Faulting address: 0x").length = 20 := by decide
  have hstart : (screenTerminal t [message "EXCEPTION: Page Fault\n"]).col = 0 :=
    col_message (by decide) t
  dsimp only
  rw [screenTerminal_cons]
  generalize screenTerminal t [message "EXCEPTION: Page Fault\n"] = t₁ at hstart
  -- The label, the digits behind it, and the end of the row.
  have hsecond : screenTerminal t₁ [message "Faulting address: 0x"] =
      (chars "Faulting address: 0x").foldl Terminal.printChar t₁ := by
    rw [message, screenTerminal_message, hlabel.1]
  rw [screenTerminal_cons, screenTerminal_cons _ (.write (.printMessage addr)), hsecond,
    screenTerminal_message]
  obtain ⟨hrow, hcol, -⟩ := foldl_printChar_text (t := t₁) hlabel.2.1 (by omega)
  obtain ⟨hshown, -⟩ := cells_printText (t := t₁) hlabel.2.1 (by omega)
  rw [hlabel.2.2, hstart] at hshown
  rw [hlabel.2.2, hstart] at hcol
  generalize (chars "Faulting address: 0x").foldl Terminal.printChar t₁ = t₂ at *
  obtain ⟨hrow', hcol', -⟩ := foldl_printChar_text (t := t₂) htext (by omega)
  obtain ⟨hshown', hkept⟩ := cells_printText (t := t₂) htext (by omega)
  rw [hlength, hcol, hrow] at hshown'
  generalize addr.toList.foldl Terminal.printChar t₂ = t₃ at *
  have hnewline : screenTerminal t₃ [message "\n"] = t₃.newline := by
    have hstr : (literal "\n").toList = [10] := by decide
    rw [message, screenTerminal_message, hstr]
    rfl
  rw [hnewline]
  have hlast : t₃.newline.row - 1 = t₁.row := by
    rw [← hrow, ← hrow']
    rfl
  rw [hlast]
  refine ⟨Nat.succ_pos _, rfl, ?_, hshown'⟩
  refine Eq.trans (rowText_congr fun i hi => ?_) hshown
  exact hkept t₁.row (0 + i) (.inr (by omega))

/-- Whatever was on the screen, in the array and in CR2: the handler of every exception says that
the system is halted, and the one of page faults shows the address. -/
theorem exceptions_reported (honScreen : OnScreen console) (hexception : handler ≠ .timerHandler ∧
      handler ≠ .keyboardInterruptHandler) (cr2 : Word) (hlength : addrStr.length = 9) :
    ∃ screen console', exceptionScreen cr2 addrStr handler = some screen ∧
      runScreen console screen = some console' ∧ FaultReported console' handler cr2 := by
  have h := honScreen.showsText
  cases handler with
  | timerHandler => exact absurd rfl hexception.1
  | keyboardInterruptHandler => exact absurd rfl hexception.2
  | faultHandler =>
    obtain ⟨console', hrun⟩ := halted_lines h
      (literal "FAULT: Unhandled system exception occurred\n") (by decide) []
      .faultHandler (by decide) cr2
    exact ⟨_, console', rfl, hrun⟩
  | divideErrorHandler =>
    obtain ⟨console', hrun⟩ := halted_lines h
      (literal "EXCEPTION: Divide by zero error\n") (by decide) []
      .divideErrorHandler (by decide) cr2
    exact ⟨_, console', rfl, hrun⟩
  | debugHandler =>
    obtain ⟨console', hrun⟩ := halted_lines h
      (literal "EXCEPTION: Debug exception\n") (by decide) [] .debugHandler (by decide) cr2
    exact ⟨_, console', rfl, hrun⟩
  | nmiHandler =>
    obtain ⟨console', hrun⟩ := halted_lines h
      (literal "EXCEPTION: Non-maskable interrupt\n") (by decide) [] .nmiHandler (by decide) cr2
    exact ⟨_, console', rfl, hrun⟩
  | breakpointHandler =>
    obtain ⟨console', hrun⟩ := halted_lines h
      (literal "EXCEPTION: Breakpoint exception\n") (by decide) []
      .breakpointHandler (by decide) cr2
    exact ⟨_, console', rfl, hrun⟩
  | generalProtectionFaultHandler =>
    obtain ⟨console', hrun⟩ := halted_lines h
      (literal "This usually indicates a segmentation violation.\n") (by decide)
      [message "EXCEPTION: General Protection Fault\n"] .generalProtectionFaultHandler (by decide) cr2
    exact ⟨_, console', rfl, hrun⟩
  | pageFaultHandler =>
    obtain ⟨addr, haddr, hscreen⟩ := pageFaultHandler_eq cr2 hlength
    obtain ⟨hpos, hcol, hlabel, hdigits⟩ := pageFault_rows (screenAsTerminal console) haddr
    obtain ⟨console', hrun, hshows, hhalted⟩ := halted_shown h hcol
    obtain ⟨hrow, -, hkept⟩ := systemHalted_shown hcol
    rw [screenTerminal_append] at hshows
    generalize screenTerminal (screenAsTerminal console)
      [message "EXCEPTION: Page Fault\n", message "Faulting address: 0x",
        .write (.printMessage addr), message "\n"] = t at hpos hcol hlabel hdigits hshows hrow hkept
    -- The last message is in the row below, two above the cursor are the label and the digits.
    have hshown (col len : Nat) (hfits : col + len ≤ 80) :
        shownText console' (console'.cursorY - 2) col len = rowText t (t.row - 1) col len := by
      have heq := shownText_eq hshows 2 col len (by omega) (by decide) hfits
      rw [hrow, Nat.add_sub_add_right _ 1 1, rowText_congr fun i _ => hkept _ _ (by omega)] at heq
      exact heq
    refine ⟨_, console', hscreen, hrun, hhalted, fun _ => ?_, fun _ => ?_⟩
    · rw [hshown 0 20 (by decide), hlabel]
    · have hlt : cr2.toNat < 16 ^ 8 := cr2.isLt
      rw [hshown 20 8 (by decide), hdigits, haddr,
        readNumber_paddedNumeral (by decide) (by decide), Nat.mod_eq_of_lt hlt]

/-- What the loader and `_start` may have left: light text, and other attributes. -/
def bootConsole : Console where
  videoMemory i := if i % 2 = 0 then 0x4B else 0x0F
  cursorX := 3
  cursorY := 24

/-- A page fault when nothing has cleared the screen yet. -/
theorem exceptions_reported_pageFault : ∃ screen console',
    exceptionScreen 0xC0000010 (List.replicate 9 0xCC) .pageFaultHandler = some screen ∧
      runScreen bootConsole screen = some console' ∧
      FaultReported console' .pageFaultHandler 0xC0000010 :=
  exceptions_reported (⟨by decide, by decide⟩ : OnScreen bootConsole) (by decide) _ (by decide)

end KyroKernel
