import KyroKernel.Console.OnScreen

/-!
# Three printers of strings

`print_message` writes to the screen itself; `puts` and `terminal_puts` call `putchar` for every
character. The two ways agree on a character unless it is a backspace or a tab, of which only
`putchar` knows.
-/

namespace KyroKernel

open Foundations

/-! ## Section 1: The printers -/

/-- `puts` of `printf.c`, on the characters before the NUL. -/
def puts (s : Console) (str : List Byte) : Option Console := putchars s str

/-- `terminal_putchar`. -/
def terminalPutchar (s : Console) (c : Byte) : Option Console := putchar s c

/-- `terminal_puts`. -/
def terminalPuts (s : Console) : List Byte → Option Console
  | [] => some s
  | c :: str => do
    let s ← terminalPutchar s c
    terminalPuts s str

/-- The three printers leave the same video memory and the same cursor. -/
def PrintersAgree (s : Console) (str : List Byte) : Prop :=
  ∃ s', printMessage s str = some s' ∧ puts s str = some s' ∧ terminalPuts s str = some s'

/-- The character is no backspace; it may be a tab where the next tab stop is the next column and
the cell of the cursor shows the glyph of the tab already. -/
def PrintsAlike (s : Console) (c : Byte) : Prop :=
  c ≠ 8 ∧ (c = 9 → s.cursorX % 8 = 7 ∧ cellAt s.videoMemory (cursorCell s) = (9, 0x07))

/-- So is every character of the string where `putchar` comes to it. -/
def AlikeAlong (s : Console) : List Byte → Prop
  | [] => True
  | c :: str => PrintsAlike s c ∧ ∀ s', putchar s c = some s' → AlikeAlong s' str

variable {s s' : Console} {c : Byte} {str : List Byte}

/-! ## Section 2: One character -/

theorem putchar_eq_printChar (hback : c ≠ 8) (htab : c ≠ 9) : putchar s c = printChar s c := by
  rw [putchar, printChar, if_neg htab, if_neg hback]

/-- The cursor at the next tab stop. -/
def tabStop (s : Console) : Console := { s with cursorX := (s.cursorX / 8 + 1) * 8 }

/-- A glyph at the cursor, and the cursor behind it. -/
def withGlyph (s : Console) (c : Byte) : Console where
  videoMemory := Function.update (Function.update s.videoMemory (cursorCell s * 2) c)
    (cursorCell s * 2 + 1) 0x07
  cursorX := s.cursorX + 1
  cursorY := s.cursorY

/-- The tab of `putchar` moves the cursor only. -/
theorem putchar_tab (h : OnScreen s) : putchar s 9 = wrapAndScroll (tabStop s) := by
  obtain ⟨hx, -⟩ := h
  obtain ⟨hland, -⟩ := land_tab (x := s.cursorX.toNat) (by omega)
  rw [Int.toNat_of_nonneg hx.1] at hland
  have hstop : (BitVec.ofInt 32 (s.cursorX + 8) &&& ~~~7).toInt = (s.cursorX / 8 + 1) * 8 := by
    rw [hland]
    omega
  have hput : putchar s 9 = wrapAndScroll
    { s with cursorX := (BitVec.ofInt 32 (s.cursorX + 8) &&& ~~~7).toInt } := rfl
  rw [hput, hstop]
  rfl

/-- `print_message` writes the glyph of a tab or a backspace. -/
theorem printChar_glyph (h : OnScreen s) (hnewline : c ≠ 10) (hreturn : c ≠ 13) :
    printChar s c = wrapAndScroll (withGlyph s c) := by
  rw [printChar, if_neg hnewline, if_neg hreturn, storeChar_eq h]
  rfl

/-- A backspace does not move the cursor forward. -/
theorem putchar_back_le (h : OnScreen s) :
    ∃ s', putchar s 8 = some s' ∧ cursorCell s - 1 ≤ cursorCell s' ∧ cursorCell s' ≤ cursorCell s := by
  have hput : putchar s 8 = (eraseChar s).bind wrapAndScroll := rfl
  rw [hput, eraseChar]
  by_cases hfirst : s.cursorX > 0
  · -- One column back, in the same row.
    obtain ⟨hx, hy⟩ := h
    have hwidth : vgaWidth = 80 := rfl
    rw [if_pos hfirst, hwidth, videoWrite_of_range (by omega) (by omega), Option.bind_eq_bind,
      Option.bind_some, Option.bind_some]
    refine ⟨_, wrapAndScroll_of_onScreen ⟨?_, hy⟩, ?_, ?_⟩
    · simp only
      omega
    · simp only [cursorCell]
      omega
    · simp only [cursorCell]
      omega
  · rw [if_neg hfirst, Option.bind_some]
    exact ⟨s, wrapAndScroll_of_onScreen h, by omega, Int.le_refl _⟩

/-- The screen scrolls by one row at the end of the last row, and else by none. -/
theorem exists_wrapAndScroll (hx : 0 ≤ s.cursorX ∧ s.cursorX ≤ 80)
    (hy : 0 ≤ s.cursorY ∧ s.cursorY < 25) :
    ∃ s' rows, wrapAndScroll s = some s' ∧
      (rows = 1 ∧ s.cursorY = 24 ∧ s.cursorX = 80 ∨
        rows = 0 ∧ ¬ (s.cursorY = 24 ∧ s.cursorX = 80)) ∧
      cursorCell s' + 80 * rows = cursorCell s ∧
      ∀ i, 80 * rows ≤ i → i < 2000 →
        cellAt s'.videoMemory (i - 80 * rows) = cellAt s.videoMemory i := by
  by_cases hcorner : s.cursorY = 24 ∧ s.cursorX = 80
  · obtain ⟨s', hwrap, -, hcursor, hcells⟩ := wrapAndScroll_cells hx hy (if_pos hcorner).symm
    exact ⟨s', 1, hwrap, .inl ⟨rfl, hcorner⟩, hcursor, hcells⟩
  · obtain ⟨s', hwrap, -, hcursor, hcells⟩ := wrapAndScroll_cells hx hy (if_neg hcorner).symm
    exact ⟨s', 0, hwrap, .inr ⟨rfl, hcorner⟩, hcursor, hcells⟩

/-- The next cell of the screen, the screen scrolled where there is none. -/
theorem printChar_cursor (h : OnScreen s) (hnewline : c ≠ 10) (hreturn : c ≠ 13)
    (hprint : printChar s c = some s') :
    cursorCell s' = cursorCell s + 1 ∨ cursorCell s = 1999 ∧ cursorCell s' = 1920 := by
  have hx := h.x
  have hy := h.y
  have hx' : 0 ≤ (withGlyph s c).cursorX ∧ (withGlyph s c).cursorX ≤ 80 := by
    simp only [withGlyph]
    omega
  obtain ⟨t, rows, ht, hrows, hcursor, -⟩ := exists_wrapAndScroll hx' hy
  rw [printChar_glyph h hnewline hreturn] at hprint
  obtain rfl := Option.some.inj (ht.symm.trans hprint)
  simp only [withGlyph, cursorCell] at hrows hcursor ⊢
  omega

/-- A tab and its glyph leave the cursor in one place only before a tab stop. -/
theorem tab_cursor (h : OnScreen s) (heq : putchar s 9 = printChar s 9) : s.cursorX % 8 = 7 := by
  have hx := h.x
  have hy := h.y
  have hx' : 0 ≤ (tabStop s).cursorX ∧ (tabStop s).cursorX ≤ 80 := by
    simp only [tabStop]
    omega
  obtain ⟨t, rows, ht, hrows, hcursor, -⟩ := exists_wrapAndScroll hx' hy
  rw [← putchar_tab h, heq] at ht
  have hglyph := printChar_cursor h (by decide) (by decide) ht
  simp only [tabStop, cursorCell] at hrows hcursor hglyph
  omega

/-- Before a tab stop the two differ in the glyph only. -/
theorem tab_cell (h : OnScreen s) (hstop : s.cursorX % 8 = 7)
    (heq : putchar s 9 = printChar s 9) : cellAt s.videoMemory (cursorCell s) = (9, 0x07) := by
  have hx := h.x
  have hy := h.y
  -- The tab stop is the next column.
  have hnext : (tabStop s).cursorX = s.cursorX + 1 := by
    simp only [tabStop]
    omega
  have hx' : 0 ≤ s.cursorX + 1 ∧ s.cursorX + 1 ≤ 80 := by omega
  rw [← hnext] at hx'
  obtain ⟨t, rows, ht, hrows, -, hkept⟩ := exists_wrapAndScroll hx' hy
  rw [hnext] at hx' hrows
  obtain ⟨t', rows', ht', hrows', -, hwritten⟩ := exists_wrapAndScroll (s := withGlyph s 9) hx' hy
  rw [← putchar_tab h, heq, printChar_glyph h (by decide) (by decide)] at ht
  obtain rfl := Option.some.inj (ht.symm.trans ht')
  -- The screen scrolls in both or in none.
  have hcorner : (tabStop s).cursorY = s.cursorY := rfl
  have hcorner' : (withGlyph s 9).cursorY = s.cursorY ∧ (withGlyph s 9).cursorX = s.cursorX + 1 :=
    ⟨rfl, rfl⟩
  have hsame : rows' = rows := by omega
  subst hsame
  have hlo : 80 * rows' ≤ cursorCell s := by
    simp only [cursorCell]
    omega
  have hhi : cursorCell s < 2000 := by
    simp only [cursorCell]
    omega
  calc cellAt s.videoMemory (cursorCell s)
      = cellAt t.videoMemory (cursorCell s - 80 * rows') := (hkept _ hlo hhi).symm
    _ = cellAt (withGlyph s 9).videoMemory (cursorCell s) := hwritten _ hlo hhi
    _ = (9, 0x07) := by
      rw [withGlyph, cellAt_update, if_pos rfl]

/-- Writing a glyph that is shown already. -/
theorem tabStop_eq_withGlyph (hstop : s.cursorX % 8 = 7)
    (hcell : cellAt s.videoMemory (cursorCell s) = (9, 0x07)) : tabStop s = withGlyph s 9 := by
  obtain ⟨hchar, hattr⟩ := Prod.mk.inj hcell
  have hnext : (s.cursorX / 8 + 1) * 8 = s.cursorX + 1 := by omega
  rw [tabStop, withGlyph, hnext, ← hchar, Function.update_eq_self, ← hattr,
    Function.update_eq_self]

/-- On the screen `putchar` and `print_message` agree on these characters and no others. -/
theorem putchar_eq_printChar_iff (h : OnScreen s) (c : Byte) :
    putchar s c = printChar s c ↔ PrintsAlike s c := by
  by_cases hback : c = 8
  · -- The cursor moves forward in `print_message` only.
    subst hback
    refine ⟨fun heq => ?_, fun halike => absurd rfl halike.1⟩
    obtain ⟨t, ht, hlo, hhi⟩ := putchar_back_le h
    rw [heq] at ht
    have hcursor := printChar_cursor h (by decide) (by decide) ht
    omega
  by_cases htab : c = 9
  · subst htab
    constructor
    · intro heq
      have hstop := tab_cursor h heq
      exact ⟨hback, fun _ => ⟨hstop, tab_cell h hstop heq⟩⟩
    · rintro ⟨-, halike⟩
      obtain ⟨hstop, hcell⟩ := halike rfl
      rw [putchar_tab h, printChar_glyph h (by decide) (by decide),
        tabStop_eq_withGlyph hstop hcell]
  · -- All other characters have the same branches in both.
    exact ⟨fun _ => ⟨hback, fun h9 => absurd h9 htab⟩, fun _ => putchar_eq_printChar hback htab⟩

/-! ## Section 3: Strings -/

theorem puts_singleton (s : Console) (c : Byte) : puts s [c] = putchar s c := Option.bind_fun_some _

theorem printMessage_singleton (s : Console) (c : Byte) : printMessage s [c] = printChar s c :=
  Option.bind_fun_some _

theorem printersAgree_cons (hput : putchar s c = some s') (hprint : printChar s c = some s') :
    PrintersAgree s (c :: str) ↔ PrintersAgree s' str := by
  unfold PrintersAgree
  rw [printMessage, puts, putchars, terminalPuts, terminalPutchar, hput, hprint]
  rfl

theorem printersAgree_singleton (hagree : PrintersAgree s [c]) : putchar s c = printChar s c := by
  obtain ⟨t, hprint, hputs, -⟩ := hagree
  rw [puts_singleton] at hputs
  rw [printMessage_singleton] at hprint
  rw [hputs, hprint]

/-- Strings without tabs and backspaces, on any screen. -/
theorem alikeAlong_of_notMem (hback : 8 ∉ str) (htab : 9 ∉ str) (s : Console) :
    AlikeAlong s str := by
  induction str generalizing s with
  | nil => trivial
  | cons c str ih =>
    obtain ⟨hback, hback'⟩ := List.ne_and_not_mem_of_not_mem_cons hback
    obtain ⟨htab, htab'⟩ := List.ne_and_not_mem_of_not_mem_cons htab
    exact ⟨⟨hback.symm, fun h => absurd h htab.symm⟩, fun s' _ => ih hback' htab' s'⟩

/-- The printers agree after every character of the string, and so after all of it, just when no
character is a backspace, or a tab that `print_message` does not print as `putchar` does. -/
theorem printersAgree_iff (h : OnScreen s) (str : List Byte) :
    (∀ t, t <+: str → PrintersAgree s t) ↔ AlikeAlong s str := by
  induction str generalizing s with
  | nil =>
    refine ⟨fun _ => trivial, fun _ t ht => ?_⟩
    rw [List.prefix_nil.mp ht]
    exact ⟨s, rfl, rfl, rfl⟩
  | cons c str ih =>
    obtain ⟨s₁, hput, h₁⟩ := exists_putchar h c
    constructor
    · intro hagree
      -- The first character alone.
      have hsame := printersAgree_singleton (hagree [c] ⟨str, rfl⟩)
      -- After it both printers go on from the same screen.
      refine ⟨(putchar_eq_printChar_iff h c).mp hsame, fun s' hs' => ?_⟩
      obtain rfl := Option.some.inj (hput.symm.trans hs')
      refine (ih h₁).mp fun t ht => ?_
      exact (printersAgree_cons hput (hsame.symm.trans hput)).mp
        (hagree (c :: t) (List.cons_prefix_cons.mpr ⟨rfl, ht⟩))
    · rintro ⟨halike, hrest⟩ t ht
      have hsame := (putchar_eq_printChar_iff h c).mpr halike
      rcases List.prefix_cons_iff.mp ht with rfl | ⟨t, rfl, ht'⟩
      · exact ⟨s, rfl, rfl, rfl⟩
      · rw [printersAgree_cons hput (hsame.symm.trans hput)]
        exact (ih h₁).mpr (hrest s₁ hput) t ht'

/-- A line that scrolls the screen. -/
theorem printersAgree_iff_scrolls :
    PrintersAgree ⟨fun _ => 0, 79, 24⟩ (chars "ready\r\n") :=
  (printersAgree_iff ⟨by decide, by decide⟩ _).mpr
    (alikeAlong_of_notMem (by decide) (by decide) _) _ List.prefix_rfl

/-- A tab at the start of an empty screen: `puts` moves to column 8, `print_message` writes a glyph
and moves to column 1. -/
theorem not_forall_printersAgree :
    ¬ ∀ s, OnScreen s → ∀ str, PrintersAgree s str := by
  intro h
  have hscreen : OnScreen ⟨fun _ => 0, 0, 0⟩ := ⟨by decide, by decide⟩
  have hsame := printersAgree_singleton (h _ hscreen [9])
  obtain ⟨-, htab⟩ := (putchar_eq_printChar_iff hscreen 9).mp hsame
  obtain ⟨hstop, -⟩ := htab rfl
  revert hstop
  decide

end KyroKernel
