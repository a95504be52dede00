import KyroKernel.Console.Screen
import KyroKernel.Foundations.Terminal

/-!
# The screen as a window on an unbounded terminal

The screen shows the last 25 rows of a terminal that never scrolls. Scrolling the screen moves
the window down by one row, and everything else acts on both in the same way.
-/

namespace KyroKernel

open Foundations

/-! ## §1 The reference terminal -/

/-- What a character of a message does. -/
def Terminal.printChar (t : Terminal Byte) (c : Byte) : Terminal Byte :=
  (if c = 10 then t.newline
    else if c = 13 then t.carriageReturn
    else t.put c).wrap 80

/-- What `putchar` does: it also knows the tab and the backspace. -/
def Terminal.putchar (t : Terminal Byte) (c : Byte) : Terminal Byte :=
  (if c = 10 then t.newline
    else if c = 13 then t.carriageReturn
    else if c = 9 then t.tab 8
    else if c = 8 then t.erase 0x20
    else t.put c).wrap 80

/-- The calls that write to the screen. -/
inductive ConsoleCall where
  | putchar (c : Byte)
  | printMessage (message : CString)

/-- The screen after a sequence of calls. -/
def runCalls (s : Console) : List ConsoleCall → Option Console
  | [] => some s
  | .putchar c :: calls => do
    let s ← KyroKernel.putchar s c
    runCalls s calls
  | .printMessage message :: calls => do
    let s ← KyroKernel.printMessage s message.toList
    runCalls s calls

/-- The reference terminal after a sequence of calls. -/
def terminalAfter (t : Terminal Byte) : List ConsoleCall → Terminal Byte
  | [] => t
  | .putchar c :: calls => terminalAfter (Terminal.putchar t c) calls
  | .printMessage message :: calls =>
    terminalAfter (message.toList.foldl Terminal.printChar t) calls

/-- A cell of the screen: its character and its attribute. -/
def cellAt (v : Int → Byte) (i : Int) : Byte × Byte := (v (i * 2), v (i * 2 + 1))

/-- The screen shows the window of the terminal, and the cursor is on the screen where the
terminal has it. -/
structure ShowsWindow (s : Console) (t : Terminal Byte) : Prop where
  cursorX_range : 0 ≤ s.cursorX ∧ s.cursorX < 80
  cursorY_range : 0 ≤ s.cursorY ∧ s.cursorY < 25
  cursorX_eq : s.cursorX = t.col
  cursorY_eq : s.cursorY = t.row - t.top 25
  rows_eq : ∀ r c : Nat, r < 25 → c < 80 →
    cellAt s.videoMemory (r * 80 + c) = (t.cells (t.top 25 + r) c, 0x07)

/-! ## §2 Writes to video memory -/

variable {v : Int → Byte} {s : Console} {t : Terminal Byte} {top : Nat}

theorem videoWrite_of_range {i : Int} (hlo : 0 ≤ i) (hhi : i < 4000) (b : Byte) :
    videoWrite v i b = some (Function.update v i b) := by
  unfold videoWrite
  rw [if_pos ⟨hlo, hhi⟩]

/-- Writing the two bytes of a cell changes that cell only. -/
theorem cellAt_update (v : Int → Byte) (i j : Int) (a b : Byte) :
    cellAt (Function.update (Function.update v (i * 2) a) (i * 2 + 1) b) j =
      if j = i then (a, b) else cellAt v j := by
  -- Characters lie at even offsets and attributes at odd ones.
  have hparity : ∀ k : Int, k * 2 ≠ i * 2 + 1 := fun k => by omega
  by_cases hj : j = i
  · subst hj
    simp [cellAt, hparity]
  · have hne : j * 2 ≠ i * 2 := by omega
    have hne' : j * 2 + 1 ≠ i * 2 + 1 := by omega
    have hodd : j * 2 + 1 ≠ i * 2 := by omega
    simp [cellAt, hj, hparity, hne, hne', hodd]

/-- Writing the character alone keeps the attribute. -/
theorem cellAt_update_char (v : Int → Byte) (i j : Int) (a : Byte) :
    cellAt (Function.update v (i * 2) a) j = if j = i then (a, (cellAt v i).2) else cellAt v j := by
  by_cases hj : j = i
  · subst hj
    have hodd : j * 2 + 1 ≠ j * 2 := by omega
    simp [cellAt, hodd]
  · have hne : j * 2 ≠ i * 2 := by omega
    have hodd : j * 2 + 1 ≠ i * 2 := by omega
    simp [cellAt, hj, hne, hodd]

theorem clearCell_spec {i : Int} (hlo : 0 ≤ i) (hhi : i < 2000) :
    ∃ v', clearCell v i = some v' ∧
      ∀ j, cellAt v' j = if j = i then (0x20, 0x07) else cellAt v j := by
  refine ⟨_, ?_, fun j => cellAt_update v i j 0x20 0x07⟩
  unfold clearCell
  rw [videoWrite_of_range (by omega) (by omega)]
  exact videoWrite_of_range (by omega) (by omega) _

theorem scrollCell_spec {i : Int} (hlo : 0 ≤ i) (hhi : i < 1920) :
    ∃ v', scrollCell v i = some v' ∧
      ∀ j, cellAt v' j = if j = i then cellAt v (i + 80) else cellAt v j := by
  refine ⟨_, ?_, fun j => cellAt_update v i j (v ((i + 80) * 2)) (v ((i + 80) * 2 + 1))⟩
  unfold scrollCell
  rw [videoWrite_of_range (by omega) (by omega)]
  -- The attribute is read after the character was written: another byte.
  have hread : Function.update v (i * 2) (v ((i + vgaWidth) * 2)) ((i + vgaWidth) * 2 + 1) =
      v ((i + 80) * 2 + 1) := by
    rw [vgaWidth, Function.update_of_ne (by omega)]
  rw [Option.bind_eq_bind, Option.bind_some, hread]
  exact videoWrite_of_range (by omega) (by omega) _

/-- Clearing a range of cells. -/
theorem clearCells_spec (v : Int → Byte) (lo : Int) {n : Nat} (hlo : 0 ≤ lo)
    (hhi : lo + n ≤ 2000) :
    ∃ v', forRange clearCell lo n v = some v' ∧
      ∀ j, cellAt v' j = if lo ≤ j ∧ j < lo + n then (0x20, 0x07) else cellAt v j := by
  -- Before round `i` the cells from `lo` to `i` are blank.
  apply forRange_inv fun i v' =>
    ∀ j, cellAt v' j = if lo ≤ j ∧ j < i then (0x20, 0x07) else cellAt v j
  · intro j
    rw [if_neg (by omega)]
  · intro i v₁ hi hin hinv
    obtain ⟨v₂, hv₂, hcells⟩ := clearCell_spec (v := v₁) (by omega) (by omega : i < 2000)
    refine ⟨v₂, hv₂, fun j => ?_⟩
    rw [hcells, hinv]
    by_cases hji : j = i
    · rw [if_pos hji, if_pos (by omega)]
    · rw [if_neg hji]
      by_cases hj : lo ≤ j ∧ j < i
      · rw [if_pos hj, if_pos (by omega)]
      · rw [if_neg hj, if_neg (by omega)]

/-- Scrolling moves every row up by one and blanks the last. -/
theorem scrollUp_spec (v : Int → Byte) :
    ∃ v', scrollUp v = some v' ∧ ∀ j, 0 ≤ j → j < 2000 →
      cellAt v' j = if j < 1920 then cellAt v (j + 80) else (0x20, 0x07) := by
  -- The copies go up through the cells, so a cell is read before it is written.
  obtain ⟨v₁, hv₁, hcopied⟩ : ∃ v₁, forRange scrollCell 0 1920 v = some v₁ ∧
      ∀ j, 0 ≤ j → cellAt v₁ j = if j < 1920 then cellAt v (j + 80) else cellAt v j := by
    apply forRange_inv fun i v' =>
      ∀ j, 0 ≤ j → cellAt v' j = if j < i then cellAt v (j + 80) else cellAt v j
    · intro j hj
      rw [if_neg (by omega)]
    · intro i v₁ hi hin hinv
      obtain ⟨v₂, hv₂, hcells⟩ := scrollCell_spec (v := v₁) hi (by omega : i < 1920)
      refine ⟨v₂, hv₂, fun j hj => ?_⟩
      -- Cell `i + 80` has not been written yet.
      rw [hcells, hinv j hj, hinv (i + 80) (by omega)]
      by_cases hji : j = i
      · subst hji
        rw [if_pos rfl, if_neg (by omega), if_pos (by omega)]
      · rw [if_neg hji]
        by_cases hlt : j < i
        · rw [if_pos hlt, if_pos (by omega)]
        · rw [if_neg hlt, if_neg (by omega)]
  obtain ⟨v₂, hv₂, hcleared⟩ := clearCells_spec v₁ 1920 (n := 80) (by omega) (by omega)
  refine ⟨v₂, ?_, fun j hj hj' => ?_⟩
  · -- The two loops are those of `scroll_up`.
    have hcopies : ((vgaHeight - 1) * vgaWidth).toNat = 1920 := by decide
    have hfirst : (vgaHeight - 1) * vgaWidth = 1920 := by decide
    have hcount : (vgaHeight * vgaWidth - 1920).toNat = 80 := by decide
    unfold scrollUp
    rw [hcopies, hfirst, hcount, hv₁, Option.bind_eq_bind, Option.bind_some]
    exact hv₂
  · rw [hcleared, hcopied j hj]
    by_cases hlt : j < 1920
    · rw [if_neg (by omega), if_pos hlt, if_pos hlt]
    · rw [if_pos (by omega), if_neg hlt]

/-! ## §3 The window -/

/-- The window from row `top` on. The cursor may be past the last column or below the last
row of the window, but not both: it is so until it is wrapped and the screen is scrolled. -/
structure ShowsFrom (top : Nat) (s : Console) (t : Terminal Byte) : Prop where
  x : s.cursorX = t.col
  y : s.cursorY = t.row - top
  col_le : t.col ≤ 80
  top_le : top ≤ t.row
  row_le : t.row ≤ top + 25
  corner : t.col = 80 → t.row < top + 25
  cells : ∀ r c : Nat, r < 25 → c < 80 →
    cellAt s.videoMemory (r * 80 + c) = (t.cells (top + r) c, 0x07)
  blank : t.BlankFrom (top + 25) 0x20

/-- The cursor is in the window, and the window is the one that belongs to it. -/
structure Shows (s : Console) (t : Terminal Byte) : Prop where
  from_top : ShowsFrom (t.top 25) s t
  col_lt : t.col < 80

theorem Shows.row_lt (_ : Shows s t) : t.row < t.top 25 + 25 := by
  simp only [Terminal.top]
  omega

/-- The cell of the cursor is in the text buffer. -/
theorem Shows.cursor_cell (h : Shows s t) :
    s.cursorY * vgaWidth + s.cursorX = ((t.row - t.top 25 : Nat) : Int) * 80 + t.col ∧
      t.row - t.top 25 < 25 := by
  have htop := h.from_top.top_le
  have hrow := h.row_lt
  refine ⟨?_, by omega⟩
  rw [h.from_top.x, h.from_top.y, vgaWidth]
  omega

/-- Writing a cell of the cursor's row on the screen and on the terminal. -/
theorem Shows.store (h : Shows s t) (col : Nat) (hcol : col < 80) {x : Byte} {v' : Int → Byte}
    (hv' : ∀ j, cellAt v' j =
      if j = ((t.row - t.top 25 : Nat) : Int) * 80 + col then (x, 0x07) else
        cellAt s.videoMemory j) (r c : Nat) (hr : r < 25) (hc : c < 80) :
    cellAt v' (r * 80 + c) = ((t.store col x).cells (t.top 25 + r) c, 0x07) := by
  have htop := h.from_top.top_le
  rw [hv', Terminal.store_cells]
  -- The cell written is the same one in both numberings.
  by_cases hcell : t.top 25 + r = t.row ∧ c = col
  · rw [if_pos hcell, if_pos (by omega)]
  · rw [if_neg hcell, if_neg (by omega)]
    exact h.from_top.cells r c hr hc

/-- A character written at the cursor. -/
theorem Shows.put (h : Shows s t) (c : Byte) :
    ∃ s', storeChar s c = some s' ∧ ShowsFrom (t.top 25) s' (t.put c) := by
  obtain ⟨hcell, hlt⟩ := h.cursor_cell
  have hrow := h.row_lt
  have hcol := h.col_lt
  have hfrom := h.from_top
  unfold storeChar
  rw [hcell, videoWrite_of_range (by omega) (by omega)]
  simp only [Option.bind_eq_bind, Option.bind_some]
  rw [videoWrite_of_range (by omega) (by omega)]
  refine ⟨_, rfl, ?_⟩
  have hcells := h.store t.col hcol (x := c) fun j => cellAt_update s.videoMemory _ j c 0x07
  exact
    { x := by simp only [hfrom.x, Terminal.put]; push_cast; rfl
      y := hfrom.y
      col_le := hcol
      top_le := hfrom.top_le
      row_le := Nat.le_of_lt hrow
      corner := fun _ => hrow
      cells := hcells
      blank := hfrom.blank.store hrow t.col c }

/-- Moves of the cursor alone. -/
theorem Shows.move (h : Shows s t) {x y : Int} (t' : Terminal Byte) (hcells : t'.cells = t.cells)
    (hx : x = t'.col) (hy : y = t'.row - t.top 25) (hcol : t'.col ≤ 80) (hrow : t.row ≤ t'.row)
    (hrow' : t'.row ≤ t.top 25 + 25) (hcorner : t'.col = 80 → t'.row < t.top 25 + 25) :
    ShowsFrom (t.top 25) { s with cursorX := x, cursorY := y } t' where
  x := hx
  y := hy
  col_le := hcol
  top_le := Nat.le_trans h.from_top.top_le hrow
  row_le := hrow'
  corner := hcorner
  cells := by
    rw [hcells]
    exact h.from_top.cells
  blank := by
    intro r hr c
    rw [hcells]
    exact h.from_top.blank r hr c

theorem Shows.newline (h : Shows s t) :
    ShowsFrom (t.top 25) { s with cursorX := 0, cursorY := s.cursorY + 1 } t.newline := by
  have hy := h.from_top.y
  have hrow := h.row_lt
  apply h.move t.newline rfl rfl
  · -- The row may now be one below the window.
    rw [hy, Terminal.newline]
    push_cast
    omega
  · exact Nat.zero_le _
  · exact Nat.le_succ _
  · exact hrow
  · intro h0
    cases h0

theorem Shows.carriageReturn (h : Shows s t) :
    ShowsFrom (t.top 25) { s with cursorX := 0 } t.carriageReturn :=
  h.move t.carriageReturn rfl rfl h.from_top.y (Nat.zero_le _) (Nat.le_refl _) h.from_top.row_le
    fun h0 => nomatch h0

/-- `(cursor_x + 8) & ~7` is the next multiple of 8, at most 80. -/
theorem land_tab {x : Nat} (h : x < 80) :
    (BitVec.ofInt 32 ((x : Int) + 8) &&& ~~~7).toInt = ((x / 8 + 1) * 8 : Nat) ∧ (x / 8 + 1) * 8 ≤ 80 := by
  have hall : ∀ n < 80, (BitVec.ofInt 32 ((n : Nat) + 8 : Int) &&& ~~~7).toInt =
      (((n / 8 + 1) * 8 : Nat) : Int) := by decide
  exact ⟨hall x h, by omega⟩

theorem Shows.tab (h : Shows s t) :
    ShowsFrom (t.top 25)
      { s with cursorX := (BitVec.ofInt 32 (s.cursorX + 8) &&& ~~~7).toInt } (t.tab 8) := by
  obtain ⟨hland, hle⟩ := land_tab h.col_lt
  apply h.move (t.tab 8) rfl
  · rw [h.from_top.x, hland]
    rfl
  · exact h.from_top.y
  · exact hle
  · exact Nat.le_refl _
  · exact h.from_top.row_le
  · intro _
    exact h.row_lt

/-- A backspace: nothing in the first column, else the character before the cursor is blanked. -/
theorem Shows.erase (h : Shows s t) :
    ∃ s', eraseChar s = some s' ∧ ShowsFrom (t.top 25) s' (t.erase 0x20) := by
  obtain ⟨hcell, hlt⟩ := h.cursor_cell
  have hrow := h.row_lt
  have hcol := h.col_lt
  have hfrom := h.from_top
  have hx := hfrom.x
  unfold eraseChar Terminal.erase
  by_cases hpos : 0 < t.col
  · have hbefore : s.cursorY * vgaWidth + (s.cursorX - 1) =
        ((t.row - t.top 25 : Nat) : Int) * 80 + (t.col - 1 : Nat) := by omega
    rw [if_pos hpos, if_pos (by omega), hbefore, videoWrite_of_range (by omega) (by omega)]
    refine ⟨_, rfl, ?_⟩
    -- The attribute of a cell of the window is light grey on black already.
    have hattr := hfrom.cells (t.row - t.top 25) (t.col - 1) hlt (by omega)
    have hcells := h.store (t.col - 1) (by omega) (x := 0x20) fun j => by
      rw [cellAt_update_char, hattr]
    exact
      { x := by simp only [hx]; omega
        y := hfrom.y
        col_le := by simp only; omega
        top_le := hfrom.top_le
        row_le := Nat.le_of_lt hrow
        corner := fun _ => hrow
        cells := hcells
        blank := hfrom.blank.store hrow (t.col - 1) 0x20 }
  · -- In the first column nothing happens.
    rw [if_neg hpos, if_neg (by omega)]
    exact ⟨s, rfl, hfrom⟩

/-! ## §4 Wrapping and scrolling -/

/-- The cursor wraps on the screen as it does on the terminal. -/
theorem ShowsFrom.wrap (h : ShowsFrom top s t) :
    ShowsFrom top
      (if s.cursorX ≥ vgaWidth then { s with cursorX := 0, cursorY := s.cursorY + 1 } else s)
      (t.wrap 80) ∧ (t.wrap 80).col < 80 := by
  have hx := h.x
  unfold Terminal.wrap
  by_cases hwrap : 80 ≤ t.col
  · -- Then the row is still in the window, and the next one at most just below it.
    have hrow := h.corner (Nat.le_antisymm h.col_le hwrap)
    rw [if_pos hwrap, if_pos (by rw [vgaWidth]; omega)]
    refine ⟨?_, Nat.zero_lt_succ _⟩
    exact
      { x := rfl
        y := by simp only [h.y]; push_cast; omega
        col_le := Nat.zero_le _
        top_le := Nat.le_succ_of_le h.top_le
        row_le := hrow
        corner := fun h0 => nomatch h0
        cells := h.cells
        blank := h.blank }
  · rw [if_neg hwrap, if_neg (by rw [vgaWidth]; omega)]
    exact ⟨h, by omega⟩

/-- Moving the window down by one row, with a blank row at the bottom. -/
theorem ShowsFrom.scroll (h : ShowsFrom top s t) (hrow : t.row = top + 25) {v' : Int → Byte}
    (hv' : ∀ j, 0 ≤ j → j < 2000 →
      cellAt v' j = if j < 1920 then cellAt s.videoMemory (j + 80) else (0x20, 0x07)) :
    ShowsFrom (top + 1) { s with videoMemory := v', cursorY := vgaHeight - 1 } t where
  x := h.x
  y := by
    rw [hrow, vgaHeight]
    push_cast
    omega
  col_le := h.col_le
  top_le := by omega
  row_le := by omega
  corner := by omega
  cells := by
    intro r c hr hc
    rw [hv' _ (by omega) (by omega)]
    by_cases hlast : r = 24
    · -- The row the cursor has just reached.
      subst hlast
      rw [if_neg (by omega), h.blank _ (by omega)]
    · -- The row that was below it.
      rw [if_pos (by omega)]
      have hbelow := h.cells (r + 1) c (by omega) hc
      have hindex : ((r + 1 : Nat) : Int) * 80 + c = (r : Int) * 80 + c + 80 := by
        push_cast
        omega
      have hwindow : top + (r + 1) = top + 1 + r := by omega
      rw [hindex, hwindow] at hbelow
      exact hbelow
  blank := fun r hr c => h.blank r (by omega) c

/-- After wrapping and scrolling the window is again the one that belongs to the cursor. -/
theorem ShowsFrom.wrapAndScroll (h : ShowsFrom top s t) (htop : top = 0 ∨ top + 24 ≤ t.row) :
    ∃ s', wrapAndScroll s = some s' ∧ Shows s' (t.wrap 80) := by
  obtain ⟨hwrap, hcol⟩ := h.wrap
  have hge : t.row ≤ (t.wrap 80).row := by
    unfold Terminal.wrap
    split
    · exact Nat.le_succ _
    · exact Nat.le_refl _
  have hle := hwrap.row_le
  have hle' := hwrap.top_le
  have hy := hwrap.y
  unfold KyroKernel.wrapAndScroll
  dsimp only
  generalize (if s.cursorX ≥ vgaWidth then
    { s with cursorX := 0, cursorY := s.cursorY + 1 } else s : Console) = s₁ at hwrap hy ⊢
  by_cases hscroll : (t.wrap 80).row = top + 25
  · -- The cursor has left the window at the bottom.
    obtain ⟨v', hv', hcells⟩ := scrollUp_spec s₁.videoMemory
    have hbelow : s₁.cursorY ≥ vgaHeight := by
      rw [hy, hscroll, vgaHeight]
      push_cast
      omega
    rw [if_pos hbelow, hv']
    refine ⟨_, rfl, ?_, hcol⟩
    have hnew : (t.wrap 80).top 25 = top + 1 := by
      simp only [Terminal.top]
      omega
    rw [hnew]
    exact hwrap.scroll hscroll hcells
  · -- The cursor is still in the window.
    have hin : ¬ s₁.cursorY ≥ vgaHeight := by
      rw [hy, vgaHeight]
      omega
    rw [if_neg hin]
    refine ⟨s₁, rfl, ?_, hcol⟩
    have hsame : (t.wrap 80).top 25 = top := by
      simp only [Terminal.top]
      omega
    rw [hsame]
    exact hwrap

/-! ## §5 Characters and calls -/

/-- The window before a character, for `wrapAndScroll`. -/
theorem Shows.top_cases (h : Shows s t) {t' : Terminal Byte} (hrow : t.row ≤ t'.row) :
    t.top 25 = 0 ∨ t.top 25 + 24 ≤ t'.row := by
  have := h.row_lt
  simp only [Terminal.top] at this ⊢
  omega

/-- A character of a message. -/
theorem Shows.printChar (h : Shows s t) (c : Byte) :
    ∃ s', printChar s c = some s' ∧ Shows s' (Terminal.printChar t c) := by
  unfold KyroKernel.printChar Terminal.printChar
  by_cases hnewline : c = 10
  · simp only [if_pos hnewline]
    exact h.newline.wrapAndScroll (h.top_cases (Nat.le_succ _))
  by_cases hreturn : c = 13
  · simp only [if_neg hnewline, if_pos hreturn]
    exact h.carriageReturn.wrapAndScroll (h.top_cases (Nat.le_refl _))
  · simp only [if_neg hnewline, if_neg hreturn]
    obtain ⟨s', hs', hput⟩ := h.put c
    rw [hs']
    exact hput.wrapAndScroll (h.top_cases (Nat.le_refl _))

/-- A character of `putchar`. -/
theorem Shows.putchar (h : Shows s t) (c : Byte) :
    ∃ s', putchar s c = some s' ∧ Shows s' (Terminal.putchar t c) := by
  unfold KyroKernel.putchar Terminal.putchar
  by_cases hnewline : c = 10
  · simp only [if_pos hnewline]
    exact h.newline.wrapAndScroll (h.top_cases (Nat.le_succ _))
  by_cases hreturn : c = 13
  · simp only [if_neg hnewline, if_pos hreturn]
    exact h.carriageReturn.wrapAndScroll (h.top_cases (Nat.le_refl _))
  by_cases htab : c = 9
  · simp only [if_neg hnewline, if_neg hreturn, if_pos htab]
    exact h.tab.wrapAndScroll (h.top_cases (Nat.le_refl _))
  by_cases hback : c = 8
  · simp only [if_neg hnewline, if_neg hreturn, if_neg htab, if_pos hback]
    obtain ⟨s', hs', herase⟩ := h.erase
    rw [hs']
    -- Erasing does not leave the row, so nothing is wrapped or scrolled.
    have hrow : (t.erase 0x20).row = t.row := by
      unfold Terminal.erase
      split <;> rfl
    exact herase.wrapAndScroll (h.top_cases (Nat.le_of_eq hrow.symm))
  · simp only [if_neg hnewline, if_neg hreturn, if_neg htab, if_neg hback]
    obtain ⟨s', hs', hput⟩ := h.put c
    rw [hs']
    exact hput.wrapAndScroll (h.top_cases (Nat.le_refl _))

theorem Shows.printMessage (h : Shows s t) (message : List Byte) :
    ∃ s', printMessage s message = some s' ∧
      Shows s' (message.foldl Terminal.printChar t) := by
  induction message generalizing s t with
  | nil => exact ⟨s, rfl, h⟩
  | cons c message ih =>
    obtain ⟨s₁, hs₁, h₁⟩ := h.printChar c
    rw [KyroKernel.printMessage, hs₁]
    exact ih h₁

/-- Every sequence of calls keeps the window. -/
theorem Shows.runCalls (h : Shows s t) (calls : List ConsoleCall) :
    ∃ s', runCalls s calls = some s' ∧ Shows s' (terminalAfter t calls) := by
  induction calls generalizing s t with
  | nil => exact ⟨s, rfl, h⟩
  | cons call calls ih =>
    cases call with
    | putchar c =>
      obtain ⟨s₁, hs₁, h₁⟩ := h.putchar c
      rw [KyroKernel.runCalls, hs₁]
      exact ih h₁
    | printMessage message =>
      obtain ⟨s₁, hs₁, h₁⟩ := h.printMessage message.toList
      rw [KyroKernel.runCalls, hs₁]
      exact ih h₁

/-- `clear_screen` shows an empty terminal. -/
theorem shows_clearScreen (s : Console) :
    ∃ s', clearScreen s = some s' ∧ Shows s' (Terminal.clear 0x20) := by
  obtain ⟨v', hv', hcells⟩ :=
    clearCells_spec s.videoMemory 0 (n := 80 * 25) (Int.le_refl _) (by decide)
  refine ⟨⟨v', 0, 0⟩, by unfold clearScreen; rw [hv']; rfl, ?_, by decide⟩
  exact
    { x := rfl
      y := rfl
      col_le := by decide
      top_le := by decide
      row_le := by decide
      corner := by decide
      cells := by
        intro r c hr hc
        rw [hcells, if_pos (by omega)]
        rfl
      blank := .clear _ _ }

/-- What the invariant says of the screen. -/
theorem Shows.showsWindow (h : Shows s t) : ShowsWindow s t := by
  have hx := h.from_top.x
  have hy := h.from_top.y
  have hcol := h.col_lt
  have hrow := h.row_lt
  have htop := h.from_top.top_le
  exact ⟨by omega, by omega, hx, hy, h.from_top.cells⟩

/-- `clear_screen` and any calls keep the invariant. -/
theorem exists_shows_calls (s : Console) (calls : List ConsoleCall) :
    ∃ s', (clearScreen s >>= fun s => runCalls s calls) = some s' ∧
      Shows s' (terminalAfter (Terminal.clear 0x20) calls) := by
  obtain ⟨s₀, hs₀, h₀⟩ := shows_clearScreen s
  obtain ⟨s', hs', h⟩ := h₀.runCalls calls
  refine ⟨s', ?_, h⟩
  rw [hs₀]
  exact hs'

/-- After `clear_screen` and any sequence of `putchar` and `print_message` calls, none of which
writes outside the text buffer, the screen shows the last 25 rows of the reference terminal.
A message cut short is a message too, so this is the state after each character. -/
theorem screen_showsWindow (s : Console) (calls : List ConsoleCall) :
    ∃ s', (clearScreen s >>= fun s => runCalls s calls) = some s' ∧
      ShowsWindow s' (terminalAfter (Terminal.clear 0x20) calls) := by
  obtain ⟨s', hs', h⟩ := exists_shows_calls s calls
  exact ⟨s', hs', h.showsWindow⟩

end KyroKernel
