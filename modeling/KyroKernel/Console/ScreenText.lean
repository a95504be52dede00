import KyroKernel.Console.OnScreen
import KyroKernel.Console.ScreenCalls

/-!
# The text on the screen

What the kernel prints does not depend on attributes: two screens with the same characters and the
same cursor have them after any calls. So whatever is in video memory, as long as the cursor is on
the screen, the screen shows the text of a terminal.
-/

namespace KyroKernel

open Foundations

/-! ## §1 Screens with the same text -/

/-- The same characters, also outside of the text buffer. -/
def SameChars (v v' : Int → Byte) : Prop := ∀ i, v (i * 2) = v' (i * 2)

/-- The same characters and the same cursor. -/
structure SameText (s s' : Console) : Prop where
  chars : SameChars s.videoMemory s'.videoMemory
  cursorX : s.cursorX = s'.cursorX
  cursorY : s.cursorY = s'.cursorY

variable {v v' : Int → Byte} {s s' : Console} {t : Terminal Byte}

theorem videoWrite_char (h : SameChars v v') (i : Int) (b : Byte) :
    Option.Rel SameChars (videoWrite v i b) (videoWrite v' i b) := by
  unfold videoWrite
  split
  · refine .some fun j => ?_
    rw [Function.update_apply, Function.update_apply, h j]
  · exact .none

/-- An attribute is no character. -/
theorem videoWrite_attribute (h : SameChars v v') (i : Int) (b b' : Byte) :
    Option.Rel SameChars (videoWrite v (i * 2 + 1) b) (videoWrite v' (i * 2 + 1) b') := by
  unfold videoWrite
  split
  · refine .some fun j => ?_
    rw [Function.update_of_ne (by omega), Function.update_of_ne (by omega), h j]
  · exact .none

theorem clearCell_sameChars (i : Int) (v v' : Int → Byte) (h : SameChars v v') :
    Option.Rel SameChars (clearCell v i) (clearCell v' i) :=
  rel_bind (videoWrite_char h _ _) fun _ _ h => videoWrite_attribute h i _ _

theorem scrollCell_sameChars (i : Int) (v v' : Int → Byte) (h : SameChars v v') :
    Option.Rel SameChars (scrollCell v i) (scrollCell v' i) := by
  unfold scrollCell
  rw [h (i + vgaWidth)]
  exact rel_bind (videoWrite_char h _ _) fun _ _ h => videoWrite_attribute h i _ _

theorem scrollUp_sameChars (h : SameChars v v') :
    Option.Rel SameChars (scrollUp v) (scrollUp v') :=
  rel_bind (rel_forRange scrollCell_sameChars _ _ h) fun _ _ h =>
    rel_forRange clearCell_sameChars _ _ h

/-! ## §2 Calls -/

theorem SameText.wrapAndScroll (h : SameText s s') :
    Option.Rel SameText (wrapAndScroll s) (wrapAndScroll s') := by
  -- The cursor wraps alike.
  have hwrap : SameText
      (if s.cursorX ≥ vgaWidth then { s with cursorX := 0, cursorY := s.cursorY + 1 } else s)
      (if s'.cursorX ≥ vgaWidth then { s' with cursorX := 0, cursorY := s'.cursorY + 1 } else s') := by
    rw [h.cursorX]
    split
    · exact ⟨h.chars, rfl, congrArg (· + 1) h.cursorY⟩
    · exact h
  -- Both screens scroll or neither does.
  unfold KyroKernel.wrapAndScroll
  dsimp only
  generalize (if s.cursorX ≥ vgaWidth then { s with cursorX := 0, cursorY := s.cursorY + 1 } else s) =
    w at hwrap ⊢
  generalize (if s'.cursorX ≥ vgaWidth then { s' with cursorX := 0, cursorY := s'.cursorY + 1 }
    else s') = w' at hwrap ⊢
  rw [hwrap.cursorY]
  split
  · exact rel_bind (scrollUp_sameChars hwrap.chars) fun _ _ hv => .some ⟨hv, hwrap.cursorX, rfl⟩
  · exact .some hwrap

theorem SameText.storeChar (h : SameText s s') (c : Byte) :
    Option.Rel SameText (storeChar s c) (storeChar s' c) := by
  unfold KyroKernel.storeChar
  rw [h.cursorX, h.cursorY]
  exact rel_bind (videoWrite_char h.chars _ _) fun _ _ hv =>
    rel_bind (videoWrite_attribute hv _ _ _) fun _ _ hv => .some ⟨hv, rfl, rfl⟩

theorem SameText.eraseChar (h : SameText s s') :
    Option.Rel SameText (eraseChar s) (eraseChar s') := by
  unfold KyroKernel.eraseChar
  rw [h.cursorX, h.cursorY]
  split
  · exact rel_bind (videoWrite_char h.chars _ _) fun _ _ hv => .some ⟨hv, rfl, rfl⟩
  · exact .some h

theorem SameText.printChar (h : SameText s s') (c : Byte) :
    Option.Rel SameText (printChar s c) (printChar s' c) := by
  unfold KyroKernel.printChar
  by_cases hnewline : c = 10
  · simp only [if_pos hnewline]
    exact SameText.wrapAndScroll ⟨h.chars, rfl, congrArg (· + 1) h.cursorY⟩
  by_cases hreturn : c = 13
  · simp only [if_neg hnewline, if_pos hreturn]
    exact SameText.wrapAndScroll ⟨h.chars, rfl, h.cursorY⟩
  · simp only [if_neg hnewline, if_neg hreturn]
    exact rel_bind (h.storeChar c) fun _ _ h => h.wrapAndScroll

theorem SameText.putchar (h : SameText s s') (c : Byte) :
    Option.Rel SameText (putchar s c) (putchar s' c) := by
  unfold KyroKernel.putchar
  by_cases hnewline : c = 10
  · simp only [if_pos hnewline]
    exact SameText.wrapAndScroll ⟨h.chars, rfl, congrArg (· + 1) h.cursorY⟩
  by_cases hreturn : c = 13
  · simp only [if_neg hnewline, if_pos hreturn]
    exact SameText.wrapAndScroll ⟨h.chars, rfl, h.cursorY⟩
  by_cases htab : c = 9
  · simp only [if_neg hnewline, if_neg hreturn, if_pos htab]
    exact SameText.wrapAndScroll ⟨h.chars, by rw [h.cursorX], h.cursorY⟩
  by_cases hback : c = 8
  · simp only [if_neg hnewline, if_neg hreturn, if_neg htab, if_pos hback]
    exact rel_bind h.eraseChar fun _ _ h => h.wrapAndScroll
  · simp only [if_neg hnewline, if_neg hreturn, if_neg htab, if_neg hback]
    exact rel_bind (h.storeChar c) fun _ _ h => h.wrapAndScroll

theorem SameText.printMessage (h : SameText s s') (message : List Byte) :
    Option.Rel SameText (printMessage s message) (printMessage s' message) := by
  induction message generalizing s s' with
  | nil => exact .some h
  | cons c message ih => exact rel_bind (h.printChar c) fun _ _ h => ih h

theorem SameText.clearScreen (h : SameText s s') :
    Option.Rel SameText (clearScreen s) (clearScreen s') :=
  rel_bind (rel_forRange clearCell_sameChars _ _ h.chars) fun _ _ hv => .some ⟨hv, rfl, rfl⟩

theorem SameText.exec (h : SameText s s') (call : ScreenCall) :
    Option.Rel SameText (call.exec s) (call.exec s') := by
  cases call with
  | clearScreen => exact h.clearScreen
  | write call =>
    cases call with
    | putchar c => exact rel_bind (h.putchar c) fun _ _ h => .some h
    | printMessage message => exact rel_bind (h.printMessage _) fun _ _ h => .some h

/-- Whatever the calls, the text stays the same. -/
theorem SameText.runScreen (h : SameText s s') (calls : List ScreenCall) :
    Option.Rel SameText (runScreen s calls) (runScreen s' calls) := by
  induction calls generalizing s s' with
  | nil => exact .some h
  | cons call calls ih => exact rel_bind (h.exec call) fun _ _ h => ih h

/-! ## §3 Any video memory -/

/-- The screen shows the text of the terminal, whatever its attributes are. -/
def ShowsText (s : Console) (t : Terminal Byte) : Prop := ∃ s', SameText s s' ∧ Shows s' t

/-- The screen with the attribute of the kernel everywhere. -/
def Console.plain (s : Console) : Console :=
  { s with videoMemory := fun i => if i % 2 = 0 then s.videoMemory i else 0x07 }

/-- The terminal that has been on the screen from its first row on. -/
def screenAsTerminal (s : Console) : Terminal Byte where
  cells r c := if r < 25 then shownChar s (r * 80 + c) else 0x20
  row := s.cursorY.toNat
  col := s.cursorX.toNat

theorem sameText_plain (s : Console) : SameText s s.plain := by
  refine ⟨fun i => ?_, rfl, rfl⟩
  exact (if_pos (by omega)).symm

theorem shows_plain (h : OnScreen s) : Shows s.plain (screenAsTerminal s) := by
  have hx := h.x
  have hy := h.y
  have hrow : (screenAsTerminal s).row = s.cursorY.toNat := rfl
  have hcol : (screenAsTerminal s).col = s.cursorX.toNat := rfl
  have htop : (screenAsTerminal s).top 25 = 0 := by
    unfold Terminal.top
    omega
  -- With no row above the screen, the rows of the terminal are those of video memory.
  refine ⟨?_, by omega⟩
  rw [htop]
  refine ⟨?_, ?_, by omega, Nat.zero_le _, by omega, by omega, fun r c hr hc => ?_, fun r hr c => ?_⟩
  · exact (Int.toNat_of_nonneg hx.1).symm
  · rw [hrow, Int.toNat_of_nonneg hy.1]
    exact (Int.sub_zero _).symm
  · refine Prod.ext ?_ (if_neg (by omega))
    rw [Nat.zero_add]
    change (if _ then _ else _) = (if _ then _ else _)
    rw [if_pos (by omega), if_pos hr]
    rfl
  · exact if_neg (by omega)

/-- Every screen with its cursor on it shows a text. -/
theorem OnScreen.showsText (h : OnScreen s) : ShowsText s (screenAsTerminal s) :=
  ⟨s.plain, sameText_plain s, shows_plain h⟩

/-- The text is shown after all calls. -/
theorem ShowsText.runScreen (h : ShowsText s t) (calls : List ScreenCall) :
    ∃ s', runScreen s calls = some s' ∧ ShowsText s' (screenTerminal t calls) := by
  obtain ⟨s₀, hsame, hshows⟩ := h
  obtain ⟨s₀', hrun, hshows'⟩ := hshows.runScreen calls
  have hrel := hsame.runScreen calls
  rw [hrun] at hrel
  obtain ⟨s', hrun', hsame'⟩ := exists_of_rel hrel
  exact ⟨s', hrun', s₀', hsame', hshows'⟩

end KyroKernel
