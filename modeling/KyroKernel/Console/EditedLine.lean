import KyroKernel.Console.LineEditors
import KyroKernel.Console.OnScreen

/-!
# The line on the screen while it is typed

Both editors erase a character with a backspace, a blank and a backspace. The backspace of `putchar`
does not go back over the start of a row, so `terminal_get_line` erases nothing there. `gets_simple`
erases twice: `getchar_blocking` has echoed the backspace before.
-/

namespace KyroKernel

open Foundations

/-! ## §1 The screen and the line -/

/-- The character takes the cursor out of the last row: the screen scrolls. -/
def LeavesLastRow (s : Console) (c : Byte) : Prop :=
  s.cursorY = 24 ∧
    (c = 10 ∨ c = 9 ∧ 72 ≤ s.cursorX ∨ (c ≠ 10 ∧ c ≠ 13 ∧ c ≠ 9 ∧ c ≠ 8) ∧ s.cursorX = 79)

instance (s : Console) (c : Byte) : Decidable (LeavesLastRow s c) :=
  inferInstanceAs (Decidable (_ ∧ _))

/-- The rows by which the screen scrolls while the characters are written. -/
def rowsScrolled : Console → List Byte → Int
  | _, [] => 0
  | s, c :: cs =>
    (if LeavesLastRow s c then 1 else 0) +
      match putchar s c with
      | some s => rowsScrolled s cs
      | none => 0

/-- From the cell that the cursor had in `s₀`, which is `rows` rows higher now, up to the cursor of
`s` there is the line, as far as it is on the screen. -/
structure LineShown (s₀ s : Console) (rows : Int) (line : LineState) : Prop where
  onScreen : OnScreen s
  cursor : cursorCell s + 80 * rows = cursorCell s₀ + line.pos
  chars : ∀ i, 0 ≤ i → i < line.pos → 80 * rows ≤ cursorCell s₀ + i →
    shownChar s (cursorCell s₀ + i - 80 * rows) = line.buffer i

/-- The call started at `s₀`, and the screen shows the line that is in the buffer. -/
def ShowsLine (s₀ : Console) (line : LineState) : Prop :=
  ∃ s, putchars s₀ line.output = some s ∧ LineShown s₀ s (rowsScrolled s₀ line.output) line

/-- Whenever a character has been processed, the screen shows the line. -/
def ShowsEveryLine (e : LineEditor) : Prop :=
  ∀ s₀ buffer maxLength tr line, OnScreen s₀ → Typing e buffer maxLength tr line → ShowsLine s₀ line

/-- The key is not a backspace, or what the editor writes erases what it takes off the line. The
column of the cursor is `(x + pos) % 80`. -/
def ErasesSame (e : LineEditor) (x : Int) (line : LineState) (c : Byte) : Prop :=
  c = 8 → match e with
    | .terminalGetLine => line.pos > 0 → (x + line.pos) % 80 ≠ 0
    | .getsSimple => (x + line.pos) % 80 = if line.pos > 0 then 1 else 0

/-! ## §2 Characters on the screen -/

variable {s s' s'' : Console} {cs cs' : List Byte} {c : Byte} {rows move low : Int}

theorem putchars_one (h : putchar s c = some s') : putchars s [c] = some s' := by
  rw [putchars, h]
  rfl

theorem rowsScrolled_one (h : putchar s c = some s') :
    rowsScrolled s [c] = if LeavesLastRow s c then 1 else 0 := by
  rw [rowsScrolled, h]
  exact Int.add_zero _

theorem putchars_append (h : putchars s cs = some s') (cs' : List Byte) :
    putchars s (cs ++ cs') = putchars s' cs' ∧
      rowsScrolled s (cs ++ cs') = rowsScrolled s cs + rowsScrolled s' cs' := by
  induction cs generalizing s with
  | nil =>
    obtain rfl := Option.some.inj h
    exact ⟨rfl, (Int.zero_add _).symm⟩
  | cons c cs ih =>
    obtain ⟨s₁, hput, hrest⟩ := Option.bind_eq_some_iff.mp h
    obtain ⟨hrun, hrows⟩ := ih hrest
    constructor
    · rw [List.cons_append, putchars, hput]
      exact hrun
    · rw [List.cons_append, rowsScrolled, rowsScrolled, hput]
      simp only [hrows]
      exact (Int.add_assoc _ _ _).symm

/-- Writing `cs` scrolls by `rows` rows and moves the cursor by `move` cells, and keeps all cells
that are more than `low` cells before the cursor. -/
structure Writes (s : Console) (cs : List Byte) (s' : Console) (rows move low : Int) : Prop where
  run : putchars s cs = some s'
  rows_eq : rowsScrolled s cs = rows
  rows_nonneg : 0 ≤ rows
  onScreen : OnScreen s'
  cursor : cursorCell s' + 80 * rows = cursorCell s + move
  kept : ∀ i, 80 * rows ≤ i → i < cursorCell s - low → shownChar s' (i - 80 * rows) = shownChar s i

theorem Writes.nil (h : OnScreen s) : Writes s [] s 0 0 0 where
  run := rfl
  rows_eq := rfl
  rows_nonneg := Int.le_refl _
  onScreen := h
  cursor := by omega
  kept i _ _ := by simp

theorem Writes.cons {rows' move' low' l : Int} (h : Writes s [c] s' rows move low)
    (h' : Writes s' cs s'' rows' move' low') (hlow : low ≤ l) (hlow' : low' - move ≤ l) :
    Writes s (c :: cs) s'' (rows + rows') (move + move') l := by
  obtain ⟨s₁, hput, hnil⟩ := Option.bind_eq_some_iff.mp h.run
  obtain rfl := Option.some.inj hnil
  have hrows := h.rows_eq
  have hcursor := h.cursor
  have hcursor' := h'.cursor
  have hpos := h'.rows_nonneg
  refine ⟨?_, ?_, Int.add_nonneg h.rows_nonneg hpos, h'.onScreen, by omega, fun i hi hi' => ?_⟩
  · show (putchar s c).bind (fun s => putchars s cs) = some s''
    rw [hput]
    exact h'.run
  · rw [rowsScrolled, hput] at hrows ⊢
    simp only [rowsScrolled, Int.add_zero] at hrows
    simp only [hrows, h'.rows_eq]
  · rw [← h.kept i (by omega) (by omega), ← h'.kept (i - 80 * rows) (by omega) (by omega)]
    congr 1
    omega

theorem Writes.column (h : Writes s cs s' rows move low) :
    s'.cursorX = (s.cursorX + move) % 80 := by
  have hcursor := h.cursor
  have hx := h.onScreen.x
  unfold cursorCell at hcursor
  omega

/-- A printable character is none of those with a meaning of their own. -/
theorem text_ne {b : Byte} (htext : 32 ≤ c.toInt ∧ c.toInt ≤ 126) (hb : b.toInt < 32) : c ≠ b := by
  rintro rfl
  omega

/-- `putchar` of a printable character. -/
theorem putchar_text (h : OnScreen s) (htext : 32 ≤ c.toInt ∧ c.toInt ≤ 126) :
    ∃ s' rows, Writes s [c] s' rows 1 0 ∧ (s.cursorX < 79 → rows = 0) ∧
      (80 * rows ≤ cursorCell s → shownChar s' (cursorCell s - 80 * rows) = c) := by
  have h10 : c ≠ 10 := text_ne htext (by decide)
  have h13 : c ≠ 13 := text_ne htext (by decide)
  have h9 : c ≠ 9 := text_ne htext (by decide)
  have h8 : c ≠ 8 := text_ne htext (by decide)
  obtain ⟨hx, hy⟩ := h
  obtain ⟨v', hstore, hv'⟩ := storeChar_spec ⟨hx, hy⟩ c
  generalize hrows : (if s.cursorY = 24 ∧ s.cursorX + 1 = 80 then 1 else 0 : Int) = rows
  obtain ⟨s', hwrap, hon, hcursor, hkept⟩ := wrapAndScroll_spec
    (s := { s with videoMemory := v', cursorX := s.cursorX + 1 }) (by simp only; omega) hy
    hrows.symm
  have hput : putchar s c = some s' := by
    unfold putchar
    rw [if_neg h10, if_neg h13, if_neg h9, if_neg h8, hstore]
    exact hwrap
  have hscrolls : rowsScrolled s [c] = rows := by
    have hiff : LeavesLastRow s c ↔ s.cursorY = 24 ∧ s.cursorX + 1 = 80 := by
      constructor
      · rintro ⟨hlast, hnewline | ⟨htab, -⟩ | ⟨-, hcolumn⟩⟩
        · exact absurd hnewline h10
        · exact absurd htab h9
        · exact ⟨hlast, by omega⟩
      · rintro ⟨hlast, hcolumn⟩
        exact ⟨hlast, .inr (.inr ⟨⟨h10, h13, h9, h8⟩, by omega⟩)⟩
    rw [rowsScrolled_one hput, ← hrows]
    simp only [hiff]
  have hnonneg : 0 ≤ rows := by
    rw [← hrows]
    split <;> decide
  have hcell : 0 ≤ cursorCell s ∧ cursorCell s < 2000 := by
    unfold cursorCell
    omega
  have hnext : cursorCell s' + 80 * rows = cursorCell s + 1 := by
    rw [hcursor]
    exact (Int.add_assoc _ _ _).symm
  have hshown : ∀ i, 80 * rows ≤ i → i < 2000 →
      shownChar s' (i - 80 * rows) = if i = cursorCell s then c else shownChar s i :=
    fun i hi hi' => (hkept i hi hi').trans (hv' i)
  refine ⟨s', rows, ⟨?_, hscrolls, hnonneg, hon, hnext, fun i hi hlt => ?_⟩, fun hlt => ?_,
    fun hle => ?_⟩
  · exact putchars_one hput
  · rw [hshown i hi (by omega), if_neg (by omega)]
  · rw [← hrows, if_neg (by omega)]
  · rw [hshown _ hle hcell.2, if_pos rfl]

/-- The cells that a backspace goes back. -/
def backMove (s : Console) : Int := if 0 < s.cursorX then 1 else 0

/-- `putchar` of a backspace. -/
theorem putchar_backspace (h : OnScreen s) :
    ∃ s', Writes s [8] s' 0 (-backMove s) (backMove s) := by
  have hx := h.x
  have hy := h.y
  have hnone : ¬ LeavesLastRow s 8 := by
    rintro ⟨-, hc | ⟨hc, -⟩ | ⟨⟨-, -, -, hc⟩, -⟩⟩
    · cases hc
    · cases hc
    · exact hc rfl
  by_cases hback : 0 < s.cursorX
  · obtain ⟨v', hwrite, hv'⟩ : ∃ v',
        videoWrite s.videoMemory ((s.cursorY * vgaWidth + (s.cursorX - 1)) * 2) 0x20 = some v' ∧
          ∀ i, i < cursorCell s - 1 → v' (i * 2) = shownChar s i := by
      have hwidth : vgaWidth = 80 := rfl
      rw [hwidth, videoWrite_of_range (by omega) (by omega)]
      refine ⟨_, rfl, fun i hi => ?_⟩
      unfold cursorCell at hi
      exact Function.update_of_ne (by omega) _ _
    have hon : OnScreen { s with videoMemory := v', cursorX := s.cursorX - 1 } :=
      ⟨by simp only; omega, hy⟩
    have hput : putchar s 8 = some { s with videoMemory := v', cursorX := s.cursorX - 1 } := by
      rw [← wrapAndScroll_of_onScreen hon]
      show (eraseChar s).bind wrapAndScroll = _
      rw [eraseChar, if_pos hback, hwrite]
      rfl
    refine ⟨_, ?_, ?_, Int.le_refl _, hon, ?_, fun i _ hlt => ?_⟩
    · exact putchars_one hput
    · rw [rowsScrolled_one hput, if_neg hnone]
    · rw [backMove, if_pos hback]
      unfold cursorCell
      simp only
      omega
    · rw [backMove, if_pos hback] at hlt
      rw [Int.mul_zero, Int.sub_zero]
      exact hv' i hlt
  · have hput : putchar s 8 = some s := by
      rw [← wrapAndScroll_of_onScreen h]
      show (eraseChar s).bind wrapAndScroll = _
      rw [eraseChar, if_neg hback]
      rfl
    refine ⟨s, ?_, ?_, Int.le_refl _, h, ?_, fun i _ _ => ?_⟩
    · exact putchars_one hput
    · rw [rowsScrolled_one hput, if_neg hnone]
    · rw [backMove, if_neg hback]
      omega
    · rw [Int.mul_zero, Int.sub_zero]

/-- What both editors write to erase a character goes back as far as one backspace. -/
theorem putchars_erase (h : OnScreen s) :
    ∃ s', Writes s [8, 32, 8] s' 0 (-backMove s) (backMove s) := by
  have hx := h.x
  obtain ⟨s₁, h₁⟩ := putchar_backspace h
  have hx₁ := h₁.column
  obtain ⟨s₂, rows, h₂, hrow, -⟩ := putchar_text h₁.onScreen (c := 32) (by decide)
  have hx₂ := h₂.column
  obtain ⟨s₃, h₃⟩ := putchar_backspace h₂.onScreen
  have hback : backMove s = 0 ∨ backMove s = 1 := by
    unfold backMove
    split
    · exact .inr rfl
    · exact .inl rfl
  -- After the first backspace the cursor is not in the last column, after the blank not in the
  -- first.
  have hback₁ : s₁.cursorX = s.cursorX - backMove s := by
    unfold backMove at hx₁ ⊢
    split at hx₁ <;> omega
  have hrows : rows = 0 := by
    apply hrow
    unfold backMove at hback₁
    split at hback₁ <;> omega
  have hback₂ : backMove s₂ = 1 := by
    apply if_pos
    unfold backMove at hback₁
    split at hback₁ <;> omega
  subst hrows
  rw [hback₂] at h₃
  have h₂₃ := h₂.cons h₃ (l := 0) (Int.le_refl _) (by decide)
  have h₁₂₃ := h₁.cons h₂₃ (l := backMove s) (Int.le_refl _) (by omega)
  refine ⟨s₃, ?_⟩
  simpa using h₁₂₃

/-! ## §3 A key -/

variable {e : LineEditor} {line line' : LineState} {s₀ : Console} {buffer : Int → Byte}
  {maxLength : Int} {tr : List (LineState × Byte)}

theorem LineShown.column (h : LineShown s₀ s rows line) :
    s.cursorX = (s₀.cursorX + line.pos) % 80 := by
  have hcursor := h.cursor
  have hx := h.onScreen.x
  unfold cursorCell at hcursor
  omega

/-- What is shown after a key, by what it writes. -/
theorem showsLine_iff_lineShown {rows' : Int} (hrun : putchars s₀ line.output = some s)
    (hrows : rowsScrolled s₀ line.output = rows) (hw : Writes s cs s' rows' move low)
    (hout : line'.output = line.output ++ cs) :
    ShowsLine s₀ line' ↔ LineShown s₀ s' (rows + rows') line' := by
  obtain ⟨hputs, hscrolls⟩ := putchars_append hrun cs
  unfold ShowsLine
  rw [hout, hputs, hscrolls, hw.run, hrows, hw.rows_eq]
  constructor
  · rintro ⟨z, hz, hshown⟩
    obtain rfl := Option.some.inj hz
    exact hshown
  · exact fun hshown => ⟨s', rfl, hshown⟩

/-- A character that is shown and added to the line. -/
theorem LineShown.text {rows' : Int} (h : LineShown s₀ s rows line)
    (hw : Writes s [c] s' rows' 1 0)
    (hchar : 80 * rows' ≤ cursorCell s → shownChar s' (cursorCell s - 80 * rows') = c)
    (hpos : line'.pos = line.pos + 1)
    (hbuffer : line'.buffer = Function.update line.buffer line.pos c) :
    LineShown s₀ s' (rows + rows') line' := by
  have hcursor := h.cursor
  have hcursor' := hw.cursor
  refine ⟨hw.onScreen, by omega, fun i hi hlt hshown => ?_⟩
  have hcell : cursorCell s₀ + i - 80 * (rows + rows') =
      cursorCell s₀ + i - 80 * rows - 80 * rows' := by omega
  rw [hcell, hbuffer]
  by_cases hnew : i = line.pos
  · have hlast : cursorCell s₀ + i - 80 * rows = cursorCell s := by omega
    rw [hlast, hnew, Function.update_self]
    exact hchar (by omega)
  · have hpos' := hw.rows_nonneg
    rw [Function.update_of_ne hnew, hw.kept _ (by omega) (by omega)]
    exact h.chars i hi (by omega) (by omega)

/-- Where no character is added, the line is shown when the cursor goes back as far as `pos`. -/
theorem showsLine_back {pos : Int} (hrun : putchars s₀ line.output = some s)
    (h : LineShown s₀ s (rowsScrolled s₀ line.output) line) (hw : Writes s cs s' 0 move low)
    (hle : pos ≤ line.pos) (hlow : move = pos - line.pos → low ≤ -move) :
    ShowsLine s₀ ⟨line.buffer, pos, line.output ++ cs⟩ ↔ move = pos - line.pos := by
  have hcursor := h.cursor
  have hcursor' := hw.cursor
  rw [showsLine_iff_lineShown hrun rfl hw rfl]
  constructor
  · intro h'
    have hback := h'.cursor
    simp only at hback
    omega
  · intro hmove
    have hlow' := hlow hmove
    refine ⟨hw.onScreen, by simp only; omega, fun i hi hlt hshown => ?_⟩
    simp only at hlt ⊢
    rw [← h.chars i hi (by omega) (by omega), ← hw.kept _ (by omega) (by omega)]
    congr 1
    omega

theorem LineEditor.step_text (e : LineEditor) (line : LineState)
    (htext : 32 ≤ c.toInt ∧ c.toInt ≤ 126) :
    e.step line c =
      ⟨Function.update line.buffer line.pos c, line.pos + 1, line.output ++ [c]⟩ := by
  have h8 : c ≠ 8 := text_ne htext (by decide)
  have hend : ¬ (c = 10 ∨ c = 13) := by
    rintro (h | h)
    · exact text_ne htext (by decide) h
    · exact text_ne htext (by decide) h
  cases e with
  | terminalGetLine =>
    show lineStep line c = _
    rw [lineStep, if_neg h8, if_pos htext]
  | getsSimple =>
    show getsStep line c = _
    rw [getsStep, getsKey, if_neg h8, if_pos htext, echoChar, if_neg h8, if_neg hend, if_pos htext]

theorem LineEditor.step_ignored (e : LineEditor) (line : LineState) (h8 : c ≠ 8)
    (htext : ¬ (32 ≤ c.toInt ∧ c.toInt ≤ 126)) (hend : ¬ (c = 10 ∨ c = 13)) :
    e.step line c = line := by
  cases e with
  | terminalGetLine =>
    show lineStep line c = _
    rw [lineStep, if_neg h8, if_neg htext]
  | getsSimple =>
    show getsStep line c = _
    rw [getsStep, getsKey, if_neg h8, if_neg htext, echoChar, if_neg h8, if_neg hend,
      if_neg htext, List.append_nil]

/-- The echo of the key, and then what `gets_simple` writes. -/
theorem getsStep_backspace (line : LineState) :
    getsStep line 8 =
      if line.pos > 0 then
        ⟨line.buffer, line.pos - 1, line.output ++ [8, 8, 32, 8]⟩
      else ⟨line.buffer, line.pos, line.output ++ [8]⟩ := by
  simp [getsStep, getsKey, echoChar]

theorem lineStep_backspace (line : LineState) :
    lineStep line 8 =
      if line.pos > 0 then ⟨line.buffer, line.pos - 1, line.output ++ [8, 32, 8]⟩ else line := by
  simp [lineStep]

/-- `terminal_get_line` erases the character when the cursor can go back. -/
theorem showsLine_lineStep_backspace (hrun : putchars s₀ line.output = some s)
    (h : LineShown s₀ s (rowsScrolled s₀ line.output) line) :
    ShowsLine s₀ (lineStep line 8) ↔ ErasesSame .terminalGetLine s₀.cursorX line 8 := by
  have hcolumn := h.column
  rw [lineStep_backspace]
  by_cases hpos : line.pos > 0
  · rw [if_pos hpos]
    obtain ⟨s', hw⟩ := putchars_erase h.onScreen
    rw [showsLine_back hrun h hw (by omega) (fun _ => by omega)]
    have hx := h.onScreen.x
    unfold ErasesSame
    simp only [forall_const, hpos, ← hcolumn]
    unfold backMove
    split <;> omega
  · rw [if_neg hpos]
    exact ⟨fun _ _ hpos' => absurd hpos' hpos, fun _ => ⟨s, hrun, h⟩⟩

/-- `gets_simple` goes back one cell for the echo and one more for a character it erases. -/
theorem showsLine_getsStep_backspace (hrun : putchars s₀ line.output = some s)
    (h : LineShown s₀ s (rowsScrolled s₀ line.output) line) :
    ShowsLine s₀ (getsStep line 8) ↔ ErasesSame .getsSimple s₀.cursorX line 8 := by
  have hcolumn := h.column
  have hx := h.onScreen.x
  obtain ⟨s₁, h₁⟩ := putchar_backspace h.onScreen
  have hx₁ := h₁.column
  rw [getsStep_backspace]
  unfold ErasesSame
  simp only [forall_const, ← hcolumn]
  by_cases hpos : line.pos > 0
  · rw [if_pos hpos, if_pos hpos]
    obtain ⟨s₂, h₂⟩ := putchars_erase h₁.onScreen
    have hw := h₁.cons h₂ (l := backMove s + backMove s₁) (by unfold backMove; split <;> omega)
      (by omega)
    rw [showsLine_back hrun h hw (by omega) (fun _ => by omega)]
    unfold backMove at hx₁ ⊢
    split at hx₁ <;> split <;> omega
  · rw [if_neg hpos, if_neg hpos, showsLine_back hrun h h₁ (Int.le_refl _) (fun _ => by omega)]
    unfold backMove
    split <;> omega

theorem showsLine_step (h : ShowsLine s₀ line) (hstep : EditorRound e maxLength line c line') :
    ShowsLine s₀ line' ↔ ErasesSame e s₀.cursorX line c := by
  obtain ⟨s, hrun, hshown⟩ := h
  rw [hstep.eq]
  by_cases h8 : c = 8
  · subst h8
    cases e with
    | terminalGetLine => exact showsLine_lineStep_backspace hrun hshown
    | getsSimple => exact showsLine_getsStep_backspace hrun hshown
  · have hsame : ErasesSame e s₀.cursorX line c := fun hc => absurd hc h8
    apply iff_of_true _ hsame
    by_cases htext : 32 ≤ c.toInt ∧ c.toInt ≤ 126
    · obtain ⟨s', rows', hw, -, hchar⟩ := putchar_text hshown.onScreen htext
      rw [e.step_text line htext, showsLine_iff_lineShown hrun rfl hw rfl]
      exact hshown.text hw hchar rfl rfl
    · rw [e.step_ignored line h8 htext hstep.not_end]
      exact ⟨s, hrun, hshown⟩

/-! ## §4 The line while it is typed -/

theorem showsLine_start (hon : OnScreen s₀) (buffer : Int → Byte) :
    ShowsLine s₀ ⟨buffer, 0, []⟩ := by
  refine ⟨s₀, rfl, hon, ?_, fun i hi hlt => ?_⟩
  · simp [rowsScrolled]
  · exact absurd hlt (Int.not_lt.mpr hi)

/-- In all states of a call the screen shows what is in the buffer exactly when every backspace
erases as much on the screen as in the buffer. -/
theorem showsLine_iff (hon : OnScreen s₀) (h : Typing e buffer maxLength tr line) :
    (∀ z ∈ Run.states tr line, ShowsLine s₀ z) ↔ ∀ p ∈ tr, ErasesSame e s₀.cursorX p.1 p.2 := by
  apply h.forall_states_iff (ShowsLine s₀) fun line c => ErasesSame e s₀.cursorX line c
  · rintro _ rfl
    exact showsLine_start hon buffer
  · intro line c line' hline hstep
    exact showsLine_step hline hstep

/-- `terminal_get_line` on an empty screen, after the keys `a` and backspace. -/
theorem showsLine_iff_erase :
    ShowsLine ⟨fun _ => 0x20, 0, 0⟩ (lineStep (lineStep ⟨fun _ => 1, 0, []⟩ 0x61) 8) := by
  have hon : OnScreen ⟨fun _ => 0x20, 0, 0⟩ := ⟨by decide, by decide⟩
  have hstart : Typing .terminalGetLine (fun _ => 1) 8 [] ⟨fun _ => 1, 0, []⟩ := .start rfl
  have hkeys := (hstart.snoc (i := 0x61) ⟨by decide, by decide, by decide, rfl⟩).snoc (i := 8)
    ⟨by decide, by decide, by decide, rfl⟩
  apply (showsLine_iff hon hkeys).mpr
  · intro p hp
    rcases List.mem_cons.mp hp with rfl | hp
    · exact fun _ => by decide
    · obtain rfl := List.mem_singleton.mp hp
      exact fun hkey => absurd hkey (by decide)
  · exact List.mem_cons_self

/-- `gets_simple` on an empty screen erases both characters of `ab` for one backspace, and
`terminal_get_line` in the last column does not erase the character that it has shown there. -/
theorem not_forall_showsLine :
    ¬ ShowsEveryLine .terminalGetLine ∧ ¬ ShowsEveryLine .getsSimple := by
  constructor
  · intro hall
    have hon : OnScreen ⟨fun _ => 0x20, 79, 0⟩ := ⟨by decide, by decide⟩
    have hstart : Typing .terminalGetLine (fun _ => 1) 8 [] ⟨fun _ => 1, 0, []⟩ := .start rfl
    have htyped := hstart.snoc (i := 0x61) ⟨by decide, by decide, by decide, rfl⟩
    have herase : EditorRound .terminalGetLine 8 (lineStep ⟨fun _ => 1, 0, []⟩ 0x61) 8 _ :=
      ⟨by decide, by decide, by decide, rfl⟩
    have hsame := (showsLine_step (hall _ _ _ _ _ hon htyped) herase).mp
      (hall _ _ _ _ _ hon (htyped.snoc herase))
    exact hsame rfl (by decide) (by decide)
  · intro hall
    have hon : OnScreen ⟨fun _ => 0x20, 0, 0⟩ := ⟨by decide, by decide⟩
    have hstart : Typing .getsSimple (fun _ => 1) 8 [] ⟨fun _ => 1, 0, []⟩ := .start rfl
    have htyped := (hstart.snoc (i := 0x61) ⟨by decide, by decide, by decide, rfl⟩).snoc
      (i := 0x62) ⟨by decide, by decide, by decide, rfl⟩
    have herase : EditorRound .getsSimple 8
        (getsStep (getsStep ⟨fun _ => 1, 0, []⟩ 0x61) 0x62) 8 _ :=
      ⟨by decide, by decide, by decide, rfl⟩
    have hsame := (showsLine_step (hall _ _ _ _ _ hon htyped) herase).mp
      (hall _ _ _ _ _ hon (htyped.snoc herase))
    exact absurd (hsame rfl) (by decide)

end KyroKernel
