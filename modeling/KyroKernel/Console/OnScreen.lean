import KyroKernel.Console.ScreenWindow

/-!
# The cursor on the screen

`putchar` keeps the cursor on the screen, and so never fails: after the character the cursor wraps
at the last column and the screen scrolls at the last row.
-/

namespace KyroKernel

open Foundations

/-- `cursor_x` and `cursor_y` are on the screen. -/
structure OnScreen (s : Console) : Prop where
  x : 0 ≤ s.cursorX ∧ s.cursorX < 80
  y : 0 ≤ s.cursorY ∧ s.cursorY < 25

/-- The cell of the cursor. -/
def cursorCell (s : Console) : Int := s.cursorY * 80 + s.cursorX

/-- The character in a cell. -/
def shownChar (s : Console) (i : Int) : Byte := s.videoMemory (i * 2)

variable {s : Console} {rows : Int}

/-- The end of `putchar`, for a cursor that has gone at most one cell past the last column. -/
theorem wrapAndScroll_cells (hx : 0 ≤ s.cursorX ∧ s.cursorX ≤ 80)
    (hy : 0 ≤ s.cursorY ∧ s.cursorY < 25)
    (hrows : rows = if s.cursorY = 24 ∧ s.cursorX = 80 then 1 else 0) :
    ∃ s', wrapAndScroll s = some s' ∧ OnScreen s' ∧ cursorCell s' + 80 * rows = cursorCell s ∧
      ∀ i, 80 * rows ≤ i → i < 2000 →
        cellAt s'.videoMemory (i - 80 * rows) = cellAt s.videoMemory i := by
  by_cases hwrap : s.cursorX = 80
  · have hpast : s.cursorX ≥ vgaWidth := Int.le_of_eq hwrap.symm
    simp only [wrapAndScroll, if_pos hpast]
    by_cases hlast : s.cursorY = 24
    · -- The wrap at the end of the last row scrolls.
      rw [if_pos ⟨hlast, hwrap⟩] at hrows
      subst hrows
      have hbelow : s.cursorY + 1 ≥ vgaHeight := by simp [hlast, vgaHeight]
      obtain ⟨v', hv', hcells⟩ := scrollUp_spec s.videoMemory
      simp only [if_pos hbelow, hv', Option.bind_eq_bind, Option.bind_some]
      refine ⟨_, rfl, ⟨by simp, by simp [vgaHeight]⟩, ?_, fun i hi hi' => ?_⟩
      · simp [cursorCell, vgaHeight, hlast, hwrap]
      · rw [Int.mul_one, hcells (i - 80) (by omega) (by omega), if_pos (by omega),
          Int.sub_add_cancel]
    · rw [if_neg fun h => hlast h.1] at hrows
      subst hrows
      have hin : ¬ s.cursorY + 1 ≥ vgaHeight := by
        simp only [vgaHeight]
        omega
      simp only [if_neg hin]
      refine ⟨_, rfl, ⟨by simp, by simp only; omega⟩, ?_, fun i _ _ => ?_⟩
      · simp only [cursorCell]
        omega
      · rw [Int.mul_zero, Int.sub_zero]
  · rw [if_neg fun h => hwrap h.2] at hrows
    subst hrows
    have hin : ¬ s.cursorX ≥ vgaWidth := by
      simp only [vgaWidth]
      omega
    have hin' : ¬ s.cursorY ≥ vgaHeight := by
      simp only [vgaHeight]
      omega
    simp only [wrapAndScroll, if_neg hin, if_neg hin']
    refine ⟨s, rfl, ⟨by omega, hy⟩, by omega, fun i _ _ => ?_⟩
    rw [Int.mul_zero, Int.sub_zero]

/-- The characters in the cells. -/
theorem wrapAndScroll_spec (hx : 0 ≤ s.cursorX ∧ s.cursorX ≤ 80)
    (hy : 0 ≤ s.cursorY ∧ s.cursorY < 25)
    (hrows : rows = if s.cursorY = 24 ∧ s.cursorX = 80 then 1 else 0) :
    ∃ s', wrapAndScroll s = some s' ∧ OnScreen s' ∧ cursorCell s' + 80 * rows = cursorCell s ∧
      ∀ i, 80 * rows ≤ i → i < 2000 → shownChar s' (i - 80 * rows) = shownChar s i := by
  obtain ⟨s', hwrap, hon, hcursor, hcells⟩ := wrapAndScroll_cells hx hy hrows
  exact ⟨s', hwrap, hon, hcursor, fun i hlo hhi => congrArg Prod.fst (hcells i hlo hhi)⟩

theorem wrapAndScroll_of_onScreen (h : OnScreen s) : wrapAndScroll s = some s := by
  have hin : ¬ s.cursorX ≥ vgaWidth := Int.not_le.mpr h.x.2
  have hin' : ¬ s.cursorY ≥ vgaHeight := Int.not_le.mpr h.y.2
  simp only [wrapAndScroll, if_neg hin, if_neg hin']

/-- Storing a character at the cursor, and its attribute. -/
theorem storeChar_eq (h : OnScreen s) (c : Byte) :
    storeChar s c = some
      { s with
        videoMemory := Function.update (Function.update s.videoMemory (cursorCell s * 2) c)
          (cursorCell s * 2 + 1) 0x07
        cursorX := s.cursorX + 1 } := by
  obtain ⟨hx, hy⟩ := h
  have hwidth : vgaWidth = 80 := rfl
  have hwrite : videoWrite s.videoMemory (cursorCell s * 2) c =
      some (Function.update s.videoMemory (cursorCell s * 2) c) := by
    apply videoWrite_of_range <;> (unfold cursorCell; omega)
  unfold storeChar
  rw [hwidth, ← cursorCell, hwrite, Option.bind_eq_bind, Option.bind_some,
    videoWrite_of_range (by unfold cursorCell; omega) (by unfold cursorCell; omega)]
  rfl

theorem storeChar_spec (h : OnScreen s) (c : Byte) :
    ∃ v', storeChar s c = some { s with videoMemory := v', cursorX := s.cursorX + 1 } ∧
      ∀ i, v' (i * 2) = if i = cursorCell s then c else shownChar s i := by
  refine ⟨_, storeChar_eq h c, fun i => ?_⟩
  have hcell := congrArg Prod.fst (cellAt_update s.videoMemory (cursorCell s) i c 0x07)
  rw [apply_ite Prod.fst] at hcell
  exact hcell

/-- The end of `putchar`, where it may also have gone one row past the last. -/
theorem wrapAndScroll_onScreen (hx : 0 ≤ s.cursorX ∧ s.cursorX ≤ 80)
    (hy : 0 ≤ s.cursorY ∧ s.cursorY ≤ 25) (hcorner : s.cursorX = 80 → s.cursorY < 25) :
    ∃ s', wrapAndScroll s = some s' ∧ OnScreen s' := by
  by_cases hbelow : s.cursorY = 25
  · have hin : ¬ s.cursorX ≥ vgaWidth := by
      simp only [vgaWidth]
      omega
    have hbelow' : s.cursorY ≥ vgaHeight := Int.le_of_eq hbelow.symm
    obtain ⟨v', hv', -⟩ := scrollUp_spec s.videoMemory
    simp only [wrapAndScroll, if_neg hin, if_pos hbelow', hv', Option.bind_eq_bind,
      Option.bind_some]
    exact ⟨_, rfl, ⟨by simp only; omega, by simp [vgaHeight]⟩⟩
  · obtain ⟨s', hwrap, hon, -⟩ := wrapAndScroll_spec hx (by omega) rfl
    exact ⟨s', hwrap, hon⟩

/-- `putchar` of any character. -/
theorem exists_putchar (h : OnScreen s) (c : Byte) : ∃ s', putchar s c = some s' ∧ OnScreen s' := by
  obtain ⟨hx, hy⟩ := h
  unfold putchar
  by_cases hnewline : c = 10
  · rw [if_pos hnewline]
    exact wrapAndScroll_onScreen (by simp) (by simp only; omega) (by simp)
  rw [if_neg hnewline]
  by_cases hreturn : c = 13
  · rw [if_pos hreturn]
    exact wrapAndScroll_onScreen (by simp) (by simp only; omega) (by simp)
  rw [if_neg hreturn]
  by_cases htab : c = 9
  · rw [if_pos htab]
    obtain ⟨hland, hle⟩ := land_tab (x := s.cursorX.toNat) (by omega)
    rw [Int.toNat_of_nonneg hx.1] at hland
    apply wrapAndScroll_onScreen
    · simp only [hland]
      omega
    · simp only
      omega
    · exact fun _ => hy.2
  rw [if_neg htab]
  by_cases hback : c = 8
  · rw [if_pos hback, eraseChar]
    by_cases hfirst : s.cursorX > 0
    · have hwidth : vgaWidth = 80 := rfl
      rw [if_pos hfirst, hwidth, videoWrite_of_range (by omega) (by omega)]
      exact wrapAndScroll_onScreen (by simp only; omega) (by simp only; omega) (fun _ => hy.2)
    · rw [if_neg hfirst]
      exact wrapAndScroll_onScreen (by omega) (by omega) (fun _ => hy.2)
  · obtain ⟨v', hstore, -⟩ := storeChar_spec ⟨hx, hy⟩ c
    rw [if_neg hback, hstore]
    exact wrapAndScroll_onScreen (by simp only; omega) (by simp only; omega) (fun _ => hy.2)

theorem onScreen_putchar {s' : Console} {c : Byte} (h : OnScreen s) (hput : putchar s c = some s') :
    OnScreen s' := by
  obtain ⟨t, ht, hon⟩ := exists_putchar h c
  obtain rfl := Option.some.inj (ht.symm.trans hput)
  exact hon

theorem putchar_ne_none (h : OnScreen s) (c : Byte) : putchar s c ≠ none := by
  obtain ⟨t, ht, -⟩ := exists_putchar h c
  rw [ht]
  exact Option.some_ne_none t

/-- The cursor is on the screen after `clear_screen` and any calls of `putchar` and
`print_message`. -/
theorem exists_onScreen_calls (s : Console) (calls : List ConsoleCall) :
    ∃ s', (clearScreen s >>= fun s => runCalls s calls) = some s' ∧ OnScreen s' := by
  obtain ⟨s', hs', h⟩ := exists_shows_calls s calls
  exact ⟨s', hs', h.showsWindow.cursorX_range, h.showsWindow.cursorY_range⟩

end KyroKernel
