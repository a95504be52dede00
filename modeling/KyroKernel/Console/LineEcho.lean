import KyroKernel.Console.LineEditors
import KyroKernel.Console.ScreenCalls
import KyroKernel.Foundations.LineSessions

/-!
# The echo of a line

`terminal_get_line` echoes the characters of a line and erases those that are taken off it. When the
line has been typed, the terminal is as if it had been printed as it is after editing, unless the
line came to the end of the row while it was typed: from there backspaces do not find back.
-/

namespace KyroKernel

open Foundations

/-! ## §1 What is echoed -/

/-- The echo of a key. -/
def echoKey (kept : List Byte) (c : Byte) : List Byte :=
  match lineKey c with
  | .text => [c]
  | .erases => if kept = [] then [] else [8, 32, 8]
  | .ends | .ignored => []

/-- The echo of the keys of a line, from what it holds at first. -/
def echoLine : List Byte → List Byte → List Byte
  | _, [] => []
  | kept, c :: typed => echoKey kept c ++ echoLine (editKey lineKey kept c) typed

variable {s : LineState} {kept typed input : List Byte} {maxLength : Int} {c : Byte}
  {r : LineResult} {t : Terminal Byte}

theorem lineStep_output (h : Holds s kept) (hc : lineKey c ≠ .ends) :
    (lineStep s c).output = s.output ++ echoKey kept c := by
  have hend : ¬ (c = 10 ∨ c = 13) := fun heq => hc (if_pos heq)
  unfold lineStep echoKey lineKey
  rw [if_neg hend]
  by_cases herase : c = 8
  · rw [if_pos herase, if_pos herase, apply_ite LineState.output]
    -- The code looks at `pos`, the echo at the line.
    have hpos : s.pos > 0 ↔ kept ≠ [] := by
      rw [h.pos_eq, ← List.length_pos_iff]
      omega
    by_cases hkept : kept = []
    · rw [if_neg (mt hpos.mp (not_not.mpr hkept)), if_pos hkept, List.append_nil]
    · rw [if_pos (hpos.mpr hkept), if_neg hkept]
  · rw [if_neg herase, if_neg herase]
    by_cases htext : 32 ≤ c.toInt ∧ c.toInt ≤ 126
    · rw [if_pos htext, if_pos htext]
    · rw [if_neg htext, if_neg htext]
      exact (List.append_nil _).symm

/-- The echo of a line, and of the newline if there is one that ends it. -/
def lineEcho (typed ended : List Byte) : List Byte := echoLine [] typed ++ ended.map fun _ => 10

/-- What a call that returns has taken and echoed: a line, and the newline that ends it. -/
theorem getLineLoop_stops (h : Holds s kept) (hr : getLineLoop maxLength s input = some r) :
    ∃ typed ended, input = typed ++ ended ++ r.rest ∧
      Stops lineKey (maxLength - 1).toNat kept typed ended ∧
      r.output = s.output ++ (echoLine kept typed ++ ended.map fun _ => 10) := by
  have hpos := h.pos_eq
  have hnone (earlier : List Byte) (hearlier : earlier <+: []) (hne : earlier ≠ []) :
      (editFrom lineKey kept earlier).length < (maxLength - 1).toNat :=
    absurd (List.prefix_nil.mp hearlier) hne
  have hempty : ∀ c ∈ ([] : List Byte), lineKey c ≠ .ends := fun c hc => absurd hc List.not_mem_nil
  -- On the keys, for every state of the loop that holds the line `kept`.
  induction input generalizing s kept with
  | nil =>
    unfold getLineLoop at hr
    split at hr
    · cases hr
    · rename_i hfull
      cases hr
      have hlimit : (maxLength - 1).toNat ≤ kept.length := by omega
      exact ⟨[], [], rfl, ⟨hempty, hnone, .inl ⟨rfl, hlimit⟩⟩, (List.append_nil _).symm⟩
  | cons c input ih =>
    unfold getLineLoop at hr
    split at hr
    · rename_i hroom
      have hlimit : kept.length < (maxLength - 1).toNat := by omega
      by_cases hnul : c = 0
      · -- A 0 is no character, and as a key it is ignored.
        rw [if_pos hnul] at hr
        obtain ⟨typed, ended, rfl, hstops, hout⟩ := ih h hr hpos fun earlier hearlier hne =>
          absurd (List.prefix_nil.mp hearlier) hne
        have hkey : lineKey c = .ignored := by
          rw [hnul]
          decide
        have hkept : editKey lineKey kept c = kept := by rw [editKey, hkey]
        refine ⟨c :: typed, ended, rfl, .cons (by rw [hkey]; decide) hlimit (hkept.symm ▸ hstops), ?_⟩
        rw [hout, hnul]
        rfl
      · rw [if_neg hnul] at hr
        by_cases hend : c = 10 ∨ c = 13
        · -- The key that ends the line; a newline is echoed for both of them.
          rw [if_pos hend] at hr
          cases hr
          exact ⟨[], [c], rfl, ⟨hempty, hnone, .inr ⟨c, rfl, if_pos hend, hlimit⟩⟩, rfl⟩
        · rw [if_neg hend] at hr
          have hc : lineKey c ≠ .ends := by
            unfold lineKey
            rw [if_neg hend]
            split_ifs <;> decide
          have hstep := h.step hc
          obtain ⟨typed, ended, rfl, hstops, hout⟩ := ih hstep hr hstep.pos_eq
            fun earlier hearlier hne => absurd (List.prefix_nil.mp hearlier) hne
          refine ⟨c :: typed, ended, rfl, hstops.cons hc hlimit, ?_⟩
          rw [hout, lineStep_output h hc, echoLine]
          simp only [List.append_assoc]
    · -- The line is full: the loop ends without taking the key.
      rename_i hfull
      cases hr
      have hlimit : (maxLength - 1).toNat ≤ kept.length := by omega
      exact ⟨[], [], rfl, ⟨hempty, hnone, .inl ⟨rfl, hlimit⟩⟩, (List.append_nil _).symm⟩

/-- A call that waits has echoed the keys it was given. -/
theorem waitingLine_output (h : Holds s kept) (hends : ∀ c ∈ input, lineKey c ≠ .ends) :
    (waitingLine s input).output = s.output ++ echoLine kept input := by
  induction input generalizing s kept with
  | nil => exact (List.append_nil _).symm
  | cons c input ih =>
    obtain ⟨hc, hrest⟩ := List.forall_mem_cons.mp hends
    rw [waitingLine, List.foldl_cons]
    by_cases hnul : c = 0
    · rw [if_pos hnul, hnul]
      exact ih h hrest
    · rw [if_neg hnul, echoLine, ← List.append_assoc, ← lineStep_output h hc]
      exact ih (h.step hc) hrest

/-- What a call that returns has taken, echoed and left in its buffer. -/
theorem terminalGetLine_stops {buffer : Int → Byte} (hmax : 1 ≤ maxLength)
    (hr : terminalGetLine buffer maxLength input = some r) :
    ∃ typed ended, input = typed ++ ended ++ r.rest ∧
      Stops lineKey (maxLength - 1).toNat [] typed ended ∧ r.output = lineEcho typed ended ∧
      bufferString r.buffer maxLength = edit lineKey typed := by
  have hread := terminalGetLine_eq buffer hmax input
  obtain ⟨typed, ended, hinput, hstops, hout⟩ := getLineLoop_stops ⟨rfl, rfl, List.not_mem_nil⟩ hr
  have hline := readLine_of_stops hstops r.rest
  rw [hr, hinput, hline] at hread
  exact ⟨typed, ended, hinput, hstops, hout, (Prod.mk.inj (Option.some.inj hread)).1⟩

/-- What a call that waits has taken and echoed: all there is. -/
theorem terminalGetLine_waits {buffer : Int → Byte} (hmax : 1 ≤ maxLength)
    (hnone : terminalGetLine buffer maxLength input = none) :
    (∀ c ∈ input, lineKey c ≠ .ends) ∧
      (∀ typed, typed <+: input → (edit lineKey typed).length < (maxLength - 1).toNat) ∧
      (waitingLine ⟨buffer, 0, []⟩ input).output = echoLine [] input := by
  have hread := terminalGetLine_eq buffer hmax input
  rw [hnone] at hread
  obtain ⟨hends, hroom⟩ := room_of_readLine_eq_none hread.symm
  exact ⟨hends, hroom, waitingLine_output ⟨rfl, rfl, List.not_mem_nil⟩ hends⟩

/-- A call that gets its line to the end. -/
theorem terminalGetLine_short {line rest : List Byte} (buffer : Int → Byte) (hmax : 1 ≤ maxLength)
    (hsplit : splitLine lineKey input = some (line, rest))
    (hshort : ∀ typed, typed <+: line → (edit lineKey typed).length < (maxLength - 1).toNat) :
    ∃ r, terminalGetLine buffer maxLength input = some r ∧ r.rest = rest ∧
      bufferString r.buffer maxLength = edit lineKey line ∧ r.output = echoLine [] line ++ [10] := by
  obtain ⟨c, hinput, hstops⟩ := stops_of_splitLine hsplit hshort
  have hread := terminalGetLine_eq buffer hmax input
  rw [hinput, readLine_of_stops hstops, ← hinput] at hread
  obtain ⟨r, hr, hpair⟩ := Option.map_eq_some_iff.mp hread
  obtain ⟨hbuffer, rfl⟩ := Prod.mk.inj hpair
  -- There is one way to stop in this input.
  obtain ⟨typed, ended, hinput', hstops', hout, -⟩ := terminalGetLine_stops hmax hr
  obtain ⟨rfl, rfl, -⟩ := hstops'.unique hstops (hinput'.symm.trans hinput)
  exact ⟨r, hr, rfl, hbuffer, hout⟩

/-! ## §2 On the terminal -/

/-- The row of the cursor is blank from the cursor on. -/
def BlankAhead (t : Terminal Byte) : Prop := ∀ col, t.col ≤ col → t.cells t.row col = 0x20

theorem FreshRow.ahead (h : FreshRow t) : BlankAhead t :=
  fun col _ => h.blank t.row (Nat.le_refl _) col

/-- A printable character is none of those with a meaning of their own. -/
theorem ne_of_lineKey_text (hc : lineKey c = .text) : c ≠ 8 ∧ c ≠ 9 ∧ c ≠ 10 ∧ c ≠ 13 := by
  refine ⟨?_, ?_, ?_, ?_⟩ <;>
    · rintro rfl
      revert hc
      decide

/-- Printable characters within the row. -/
theorem printChar_text (hc : lineKey c = .text) (hcol : t.col + 1 < 80) :
    Terminal.printChar t c = t.put c ∧ Terminal.putchar t c = t.put c := by
  obtain ⟨hback, htab, hnewline, hreturn⟩ := ne_of_lineKey_text hc
  have hwrap : (t.put c).wrap 80 = t.put c := if_neg (Nat.not_le_of_lt hcol)
  constructor
  · rw [Terminal.printChar, if_neg hnewline, if_neg hreturn, hwrap]
  · rw [Terminal.putchar, if_neg hnewline, if_neg hreturn, if_neg htab, if_neg hback, hwrap]

/-- Text printed within the row leaves the rest of the row as it was. -/
theorem foldl_printChar_text (hkept : ∀ c ∈ kept, lineKey c = .text)
    (hfits : t.col + kept.length < 80) :
    (kept.foldl Terminal.printChar t).row = t.row ∧
      (kept.foldl Terminal.printChar t).col = t.col + kept.length ∧
      ∀ col, t.col + kept.length ≤ col →
        (kept.foldl Terminal.printChar t).cells t.row col = t.cells t.row col := by
  induction kept generalizing t with
  | nil => exact ⟨rfl, rfl, fun _ _ => rfl⟩
  | cons c kept ih =>
    obtain ⟨hc, hrest⟩ := List.forall_mem_cons.mp hkept
    rw [List.length_cons] at hfits
    have hput := (printChar_text hc (t := t) (by omega)).1
    obtain ⟨hrow, hcol, hcells⟩ := ih (t := t.put c) hrest (by change t.col + 1 + _ < _; omega)
    have hcols : (t.put c).col + kept.length = t.col + (kept.length + 1) := by
      change t.col + 1 + _ = _
      omega
    rw [List.foldl_cons, hput, List.length_cons]
    refine ⟨hrow, hcol.trans hcols, fun col hle => ?_⟩
    refine (hcells col (by omega)).trans ?_
    change (t.store t.col c).cells t.row col = _
    rw [Terminal.store_cells, if_neg fun hcell => by omega]

/-- A key has the same effect on the terminal as on the line. -/
theorem echoKey_shown (hblank : BlankAhead t) (hkept : ∀ c ∈ kept, lineKey c = .text)
    (hc : lineKey c ≠ .ends) (hfits : t.col + kept.length < 80)
    (hfits' : t.col + (editKey lineKey kept c).length < 80) :
    (echoKey kept c).foldl Terminal.putchar (kept.foldl Terminal.printChar t) =
      (editKey lineKey kept c).foldl Terminal.printChar t := by
  obtain ⟨-, hcol, -⟩ := foldl_printChar_text hkept hfits
  cases hkey : lineKey c with
  | ends => exact absurd hkey hc
  | ignored => simp only [echoKey, editKey, hkey, List.foldl_nil]
  | text =>
    simp only [echoKey, editKey, hkey, List.foldl_append, List.foldl_cons, List.foldl_nil] at hfits' ⊢
    rw [List.length_append, List.length_singleton] at hfits'
    obtain ⟨hprint, hput⟩ := printChar_text hkey (t := kept.foldl Terminal.printChar t)
      (by omega)
    rw [hprint, hput]
  | erases =>
    simp only [echoKey, editKey, hkey]
    by_cases hnil : kept = []
    · subst hnil
      rfl
    · rw [if_neg hnil]
      -- The last character, and the cell that was blank before it.
      obtain ⟨front, x, rfl⟩ : ∃ front x, kept = front ++ [x] :=
        ⟨_, _, (List.dropLast_append_getLast hnil).symm⟩
      obtain ⟨hfront, hx⟩ := List.forall_mem_append.mp hkept
      rw [List.length_append, List.length_singleton] at hfits
      obtain ⟨hrow, hcolumn, hcells⟩ := foldl_printChar_text (t := t) hfront (by omega)
      have hcell : (front.foldl Terminal.printChar t).cells (front.foldl Terminal.printChar t).row
          (front.foldl Terminal.printChar t).col = 0x20 := by
        rw [hrow, hcolumn, hcells _ (Nat.le_refl _)]
        exact hblank _ (Nat.le_add_right _ _)
      have hput := (printChar_text (hx x (List.mem_singleton_self x))
        (t := front.foldl Terminal.printChar t) (by omega)).1
      have hspace := (printChar_text (c := 32) (by decide)
        (t := front.foldl Terminal.printChar t) (by omega)).2
      -- A backspace over either character leads to the terminal of `front`.
      have hback (y : Byte) : Terminal.putchar ((front.foldl Terminal.printChar t).put y) 8 =
          front.foldl Terminal.printChar t := by
        have herase := Terminal.erase_put hcell y
        change (((front.foldl Terminal.printChar t).put y).erase 0x20).wrap 80 = _
        rw [herase]
        exact if_neg (by omega)
      simp only [List.dropLast_concat, List.foldl_append, List.foldl_cons, List.foldl_nil, hput,
        hback, hspace]

theorem editKey_text (hkept : ∀ c ∈ kept, lineKey c = .text) (c : Byte) :
    ∀ d ∈ editKey lineKey kept c, lineKey d = .text := by
  unfold editKey
  cases hkey : lineKey c with
  | text =>
    exact List.forall_mem_append.mpr ⟨hkept, fun d hd => List.mem_singleton.mp hd ▸ hkey⟩
  | erases => exact fun d hd => hkept d (List.mem_of_mem_dropLast hd)
  | ends | ignored => exact hkept

theorem editFrom_text (hkept : ∀ c ∈ kept, lineKey c = .text) (typed : List Byte) :
    ∀ d ∈ editFrom lineKey kept typed, lineKey d = .text := by
  induction typed generalizing kept with
  | nil => exact hkept
  | cons c typed ih => exact ih (editKey_text hkept c)

/-- There is no NUL in a line. -/
theorem nul_notMem_edit (typed : List Byte) : (0 : Byte) ∉ edit lineKey typed := fun hmem =>
  absurd (editFrom_text (fun _ hc => absurd hc List.not_mem_nil) typed 0 hmem) (by decide)

/-- When the keys of a line have been echoed, the terminal is as if the line had been printed as it
is then. -/
theorem echoLine_shown (hblank : BlankAhead t) (hkept : ∀ c ∈ kept, lineKey c = .text)
    (htyped : ∀ c ∈ typed, lineKey c ≠ .ends)
    (hfits : ∀ earlier, earlier <+: typed → t.col + (editFrom lineKey kept earlier).length < 80) :
    (echoLine kept typed).foldl Terminal.putchar (kept.foldl Terminal.printChar t) =
      (editFrom lineKey kept typed).foldl Terminal.printChar t := by
  -- Key after key: the row has room before and after each of them.
  induction typed generalizing kept with
  | nil => rfl
  | cons c typed ih =>
    obtain ⟨hc, hrest⟩ := List.forall_mem_cons.mp htyped
    have hfits₀ := hfits [] List.nil_prefix
    have hfits₁ := hfits [c] (by simp)
    rw [echoLine, List.foldl_append, echoKey_shown hblank hkept hc hfits₀ hfits₁]
    exact ih (editKey_text hkept c) hrest fun earlier hearlier =>
      hfits (c :: earlier) (List.cons_prefix_cons.mpr ⟨rfl, hearlier⟩)

/-! ## §3 Prompts -/

/-- `print_message` of a line. -/
def lineMessage (line : List Byte) : ScreenCall :=
  .write (.printMessage ⟨cstr line, nul_notMem_cstr _⟩)

theorem screenTerminal_message (t : Terminal Byte) (str : CString) :
    screenTerminal t [.write (.printMessage str)] = str.toList.foldl Terminal.printChar t := rfl

theorem screenTerminal_cons (t : Terminal Byte) (call : ScreenCall) (calls : List ScreenCall) :
    screenTerminal t (call :: calls) = screenTerminal (screenTerminal t [call]) calls := rfl

/-- A message that ends with a newline. -/
theorem freshRow_message (h : BlankBelow t) {str : CString} (hstr : str.toList.getLast? = some 10) :
    FreshRow (screenTerminal t [.write (.printMessage str)]) := by
  obtain ⟨front, hfront⟩ := List.getLast?_eq_some_iff.mp hstr
  have hbelow := h.screenTerminal [.write (.printMessage ⟨front, fun hnul =>
    str.nul_free (hfront ▸ List.mem_append_left _ hnul)⟩)]
  rw [screenTerminal_message, hfront, List.foldl_append]
  exact hbelow.printChar_newline

/-- Characters of which the last one is a newline. -/
theorem freshRow_putcharCalls (h : BlankBelow t) {cs : List Byte} (hcs : cs.getLast? = some 10) :
    FreshRow (screenTerminal t (putcharCalls cs)) := by
  obtain ⟨front, rfl⟩ := List.getLast?_eq_some_iff.mp hcs
  have hbelow := h.screenTerminal (putcharCalls front)
  rw [screenTerminal_putcharCalls] at hbelow
  rw [screenTerminal_putcharCalls, List.foldl_append]
  exact hbelow.putchar_newline

/-- A prompt at the start of a blank row leaves the rest of the row blank. -/
theorem FreshRow.prompt (h : FreshRow t) {prompt : CString}
    (hprompt : ∀ c ∈ prompt.toList, lineKey c = .text) (hfits : prompt.toList.length < 80) :
    (screenTerminal t [.write (.printMessage prompt)]).col = prompt.toList.length ∧
      BlankAhead (screenTerminal t [.write (.printMessage prompt)]) := by
  obtain ⟨hrow, hcol, hcells⟩ := foldl_printChar_text (t := t) hprompt (by rw [h.col]; omega)
  rw [screenTerminal_message]
  refine ⟨by rw [hcol, h.col, Nat.zero_add], fun col hle => ?_⟩
  rw [hcol] at hle
  rw [hrow, hcells col hle]
  exact h.blank t.row (Nat.le_refl _) col

/-- On the terminal the echo of a line is the line. -/
theorem screenTerminal_echo {limit : Nat} {line : List Byte} (hahead : BlankAhead t)
    (hfits : t.col + limit ≤ 80) (hkinds : ∀ c ∈ line, lineKey c ≠ .ends)
    (hshort : ∀ typed, typed <+: line → (edit lineKey typed).length < limit) :
    screenTerminal t (putcharCalls (echoLine [] line)) =
      screenTerminal t [lineMessage (edit lineKey line)] := by
  have hempty : ∀ c ∈ ([] : List Byte), lineKey c = .text := fun c hc => absurd hc List.not_mem_nil
  have hshown := echoLine_shown hahead hempty hkinds fun earlier hearlier =>
    Nat.lt_of_lt_of_le (Nat.add_lt_add_left (hshort earlier hearlier) t.col) hfits
  have hline : (⟨cstr (edit lineKey line), nul_notMem_cstr _⟩ : CString).toList =
      edit lineKey line := cstr_of_nul_free (nul_notMem_edit line)
  rw [screenTerminal_putcharCalls, lineMessage, screenTerminal_message, hline]
  exact hshown

/-- A prompt and the keys of a line that fits in the row behind it: on the terminal there is the line
as it is then. -/
theorem FreshRow.promptEcho (h : FreshRow t) {prompt : CString} {limit : Nat} {line : List Byte}
    (hprompt : ∀ c ∈ prompt.toList, lineKey c = .text) (hfits : prompt.toList.length + limit ≤ 80)
    (hkinds : ∀ c ∈ line, lineKey c ≠ .ends)
    (hshort : ∀ typed, typed <+: line → (edit lineKey typed).length < limit) :
    screenTerminal t (.write (.printMessage prompt) :: putcharCalls (echoLine [] line)) =
      screenTerminal t [.write (.printMessage prompt), lineMessage (edit lineKey line)] := by
  have hpositive : 0 < limit := Nat.lt_of_le_of_lt (Nat.zero_le _) (hshort [] List.nil_prefix)
  obtain ⟨hcol, hahead⟩ := h.prompt hprompt (by omega)
  rw [screenTerminal_cons, screenTerminal_cons _ _ [_]]
  exact screenTerminal_echo hahead (by rw [hcol]; exact hfits) hkinds hshort

/-- A prompt and a line that fits in the row behind it: on the terminal there is the line as it is in
the end, and a fresh row. -/
theorem FreshRow.promptLine (h : FreshRow t) {prompt : CString} {limit : Nat} {line : List Byte}
    (hprompt : ∀ c ∈ prompt.toList, lineKey c = .text) (hfits : prompt.toList.length + limit ≤ 80)
    (hkinds : ∀ c ∈ line, lineKey c ≠ .ends)
    (hshort : ∀ typed, typed <+: line → (edit lineKey typed).length < limit) :
    screenTerminal t (.write (.printMessage prompt) :: putcharCalls (echoLine [] line ++ [10])) =
      screenTerminal t [.write (.printMessage prompt), lineMessage (edit lineKey line),
        message "\n"] ∧
    FreshRow (screenTerminal t [.write (.printMessage prompt), lineMessage (edit lineKey line),
      message "\n"]) := by
  have hbelow := h.below.screenTerminal [.write (.printMessage prompt)]
  have hnewline : (literal "\n").toList = [10] := by decide
  have hsplit : [.write (.printMessage prompt), lineMessage (edit lineKey line), message "\n"] =
      [.write (.printMessage prompt), lineMessage (edit lineKey line)] ++ [message "\n"] := rfl
  have hshown : screenTerminal t
        (.write (.printMessage prompt) :: putcharCalls (echoLine [] line ++ [10])) =
      screenTerminal t [.write (.printMessage prompt), lineMessage (edit lineKey line),
        message "\n"] := by
    have hcalls : ScreenCall.write (.printMessage prompt) :: putcharCalls (echoLine [] line ++ [10]) =
        (.write (.printMessage prompt) :: putcharCalls (echoLine [] line)) ++ putcharCalls [10] :=
      congrArg _ (List.map_append ..)
    rw [hcalls, hsplit, screenTerminal_append, screenTerminal_append,
      h.promptEcho hprompt hfits hkinds hshort, screenTerminal_putcharCalls, message,
      screenTerminal_message, hnewline]
    rfl
  refine ⟨hshown, ?_⟩
  rw [screenTerminal_cons, screenTerminal_cons _ (lineMessage _)]
  exact freshRow_message (hbelow.screenTerminal [lineMessage _]) (by decide)

end KyroKernel
