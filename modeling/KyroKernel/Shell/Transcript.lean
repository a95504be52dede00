import KyroKernel.Shell.RunShell

/-!
# What the user of the shell sees

As long as no line comes near the end of its row while it is typed, the screen shows the transcript of
the session: for every line the prompt, the line as it was in the end, and the answer; and while the
shell waits, the prompt and the line as it is then.
-/

namespace KyroKernel

open Foundations

/-- The lines up to the first `exit`. -/
def upToExit : List (List Byte) → List (List Byte)
  | [] => []
  | line :: lines => if line = exitLine then [line] else line :: upToExit lines

/-- The lines that the shell answers to. -/
def commandLines (input : List Byte) : List (List Byte) :=
  upToExit ((endedLines lineKey input).map (edit lineKey))

/-- The transcript of a line. -/
def roundTranscript (files : FileSystem) (users : UserSystem) (line : List Byte) :
    List ScreenCall :=
  message "kyro> " :: lineMessage line :: message "\n" :: replyTo files users line

/-- The prompt of the line that has not ended, unless there was an `exit`. -/
def pendingTranscript (input : List Byte) : List ScreenCall :=
  if exitLine ∈ commandLines input then []
  else [message "kyro> ", lineMessage (edit lineKey (pendingLine lineKey input))]

/-- The transcript of a session. -/
def transcript (files : FileSystem) (users : UserSystem) (input : List Byte) : List ScreenCall :=
  (commandLines input).flatMap (roundTranscript files users) ++ pendingTranscript input

variable {files : FileSystem} {users : UserSystem} {s : ShellState} {input line rest : List Byte}
  {t : Terminal Byte}

/-! ## §1 Fresh rows -/

/-- A listing ends with a newline. -/
theorem getLast?_listing {header : List Byte} (hheader : header.getLast? = some 10)
    (lines : List (List Byte)) :
    (header ++ joinLines (ascii '\n') lines).getLast? = some 10 := by
  rcases List.eq_nil_or_concat' lines with rfl | ⟨front, line, rfl⟩
  · rw [joinLines, List.flatMap_nil, List.append_nil]
    exact hheader
  · rw [joinLines, List.flatMap_append, List.flatMap_singleton, ← List.append_assoc,
      ← List.append_assoc]
    exact List.getLast?_concat

/-- After the answer the cursor is at the start of a blank row. -/
theorem freshRow_replyTo (h : FreshRow t) (files : FileSystem) (users : UserSystem)
    (line : List Byte) : FreshRow (screenTerminal t (replyTo files users line)) := by
  have hbelow := h.below
  have hlast (calls : List ScreenCall) (str : CString) (hstr : str.toList.getLast? = some 10) :
      FreshRow (screenTerminal t (calls ++ [.write (.printMessage str)])) := by
    rw [screenTerminal_append]
    exact freshRow_message (hbelow.screenTerminal calls) hstr
  -- Every answer ends with a newline, but for `clear` and the empty line.
  unfold replyTo
  split_ifs
  · exact hlast (helpMessages.take 5) (literal "  users   - List users\n") (by decide)
  · exact freshRow_clear
  · exact hlast [] (literal "Exiting shell...\n") (by decide)
  · rw [listFiles_output]
    exact freshRow_putcharCalls hbelow (getLast?_listing (by decide) _)
  · rw [listUsers_output]
    exact freshRow_putcharCalls hbelow (getLast?_listing (by decide) _)
  · exact h
  · exact hlast [message "Unknown command: ", lineMessage line] (literal "\n") (by decide)

/-! ## §2 The session -/

/-- Without a line that has ended there is the prompt, and what has been typed. -/
theorem transcript_of_splitLine_none (files : FileSystem) (users : UserSystem)
    (h : splitLine lineKey input = none) :
    commandLines input = [] ∧
      transcript files users input = [message "kyro> ", lineMessage (edit lineKey input)] := by
  obtain ⟨hended, hpending⟩ := endedLines_of_splitLine_none h
  have hlines : commandLines input = [] := by
    rw [commandLines, hended]
    rfl
  refine ⟨hlines, ?_⟩
  rw [transcript, pendingTranscript, hlines, if_neg List.not_mem_nil, hpending]
  rfl

/-- The transcript goes on after a line that is not `exit`. -/
theorem transcript_of_splitLine (files : FileSystem) (users : UserSystem)
    (h : splitLine lineKey input = some (line, rest)) :
    (exitLine ∈ commandLines input ↔
        edit lineKey line = exitLine ∨ exitLine ∈ commandLines rest) ∧
      transcript files users input = roundTranscript files users (edit lineKey line) ++
        if edit lineKey line = exitLine then [] else transcript files users rest := by
  obtain ⟨hended, hpending⟩ := endedLines_of_splitLine h
  have hlines : commandLines input = if edit lineKey line = exitLine then [edit lineKey line]
      else edit lineKey line :: commandLines rest := by
    rw [commandLines, hended, List.map_cons, upToExit]
    rfl
  have hmem : exitLine ∈ commandLines input ↔
      edit lineKey line = exitLine ∨ exitLine ∈ commandLines rest := by
    rw [hlines]
    split
    · rename_i hexit
      exact iff_of_true (List.mem_singleton.mpr hexit.symm) (.inl hexit)
    · exact List.mem_cons.trans (or_congr_left eq_comm)
  refine ⟨hmem, ?_⟩
  -- After `exit` there is no further prompt; else it is the one of the rest.
  have hprompt : pendingTranscript input =
      if edit lineKey line = exitLine then [] else pendingTranscript rest := by
    simp only [pendingTranscript, hmem, hpending, ite_or]
  rw [transcript, hprompt, hlines]
  by_cases hexit : edit lineKey line = exitLine
  · simp only [if_pos hexit, List.flatMap_singleton]
  · simp only [if_neg hexit, List.flatMap_cons, List.append_assoc, transcript]

theorem prompt_text : ∀ c ∈ (literal "kyro> ").toList, lineKey c = .text := by decide

/-- The transcript of a line, and a fresh row after it. -/
theorem FreshRow.round (h : FreshRow t) (files : FileSystem) (users : UserSystem)
    (hkinds : ∀ c ∈ line, lineKey c ≠ .ends)
    (hshort : ∀ typed, typed <+: line → (edit lineKey typed).length < 74) (c : Byte) :
    screenTerminal t (roundCalls files users line [c]) =
      screenTerminal t (roundTranscript files users (edit lineKey line)) ∧
    FreshRow (screenTerminal t (roundTranscript files users (edit lineKey line))) := by
  have hround : roundTranscript files users (edit lineKey line) =
      [message "kyro> ", lineMessage (edit lineKey line), message "\n"] ++
        replyTo files users (edit lineKey line) := rfl
  have hcalls : roundCalls files users line [c] =
      (message "kyro> " :: putcharCalls (echoLine [] line ++ [10])) ++
        replyTo files users (edit lineKey line) := rfl
  obtain ⟨hline, hfresh⟩ := h.promptLine prompt_text (by decide) hkinds hshort
  rw [hround, hcalls, screenTerminal_append, screenTerminal_append, message, hline]
  exact ⟨rfl, freshRow_replyTo hfresh files users _⟩

/-- The loop from a fresh row on. -/
theorem shellLoop_shows (files : FileSystem) (users : UserSystem) (n : Nat) (s : ShellState)
    (hn : s.input.length ≤ n) (hshort : NeverFills lineKey 74 [] s.input)
    (hfresh : FreshRow (screenTerminal t s.screen)) :
    ∃ r, (∀ fuel > n, shellLoop files users fuel s = some r) ∧
      screenTerminal t r.state.screen =
        screenTerminal t (s.screen ++ transcript files users s.input) ∧
      (r.exited = true ↔ exitLine ∈ commandLines s.input) := by
  induction n using Nat.strong_induction_on generalizing s with
  | h n ih =>
    rcases shellRound_cases files users s with ⟨buffer, hround, hends, -⟩ |
      ⟨typed, ended, rest, buffer, hinput, hstops, hround⟩
    · -- It waits, and the echo is that of the line as it is now.
      have hsplit := splitLine_eq_none_iff.mpr hends
      obtain ⟨hlines, htranscript⟩ := transcript_of_splitLine_none files users hsplit
      have hecho := hfresh.promptEcho prompt_text (by decide) hends fun typed htyped =>
        hshort.of_splitLine_none hsplit htyped
      refine ⟨⟨_, false⟩, forall_fuel fun fuel _ => by rw [shellLoop, hround], ?_, ?_⟩
      · rw [htranscript, screenTerminal_append, screenTerminal_append]
        exact hecho
      · rw [hlines]
        exact ⟨fun h => absurd h Bool.false_ne_true, fun h => absurd h List.not_mem_nil⟩
    · -- The reader has stopped at the end of the first line, because that does not fill it.
      have hread := readLine_of_stops hstops rest
      rw [← hinput] at hread
      have hless := length_lt_of_readLine (by decide) hread
      obtain ⟨c, rfl, hsplit⟩ := hshort.splitLine_of_stops (by decide : 74 ≤ 255) hinput hstops
      obtain ⟨hline, hrest⟩ := hshort.of_splitLine hsplit
      obtain ⟨hmem, htranscript⟩ := transcript_of_splitLine files users hsplit
      obtain ⟨hterminal, hnext⟩ := hfresh.round files users hstops.no_ends hline c
      rw [← hterminal, ← screenTerminal_append] at hnext
      rw [hmem, htranscript]
      by_cases hexit : edit lineKey typed = exitLine
      · rw [decide_eq_false (not_not.mpr hexit)] at hround
        refine ⟨⟨_, true⟩, forall_fuel fun fuel _ => by rw [shellLoop, hround], ?_,
          iff_of_true rfl (.inl hexit)⟩
        rw [if_pos hexit, List.append_nil, screenTerminal_append, screenTerminal_append, hterminal]
      · rw [decide_eq_true hexit] at hround
        obtain ⟨r, hloop, hscreen, hexited⟩ := ih rest.length (Nat.lt_of_lt_of_le hless hn)
          ⟨buffer, s.screen ++ roundCalls files users typed [c], rest⟩ (Nat.le_refl _) hrest hnext
        refine ⟨r, forall_fuel fun fuel hfuel => ?_, ?_, ?_⟩
        · rw [shellLoop, hround]
          exact hloop fuel (Nat.lt_of_lt_of_le hless (Nat.le_trans hn hfuel))
        · rw [hscreen, if_neg hexit, ← List.append_assoc, screenTerminal_append,
            screenTerminal_append, screenTerminal_append, screenTerminal_append, hterminal]
        · rw [hexited, or_iff_right hexit]

/-- While no line comes to 74 characters, whatever is typed: the screen shows the transcript of the
session, and the shell has ended exactly if one of the lines is `exit`. -/
theorem runShell_shows (files : FileSystem) (users : UserSystem) (command : Int → Byte)
    {console : Console} (hshows : Shows console t) (hbelow : BlankBelow t)
    (hshort : NeverFills lineKey 74 [] input) :
    ∃ r console', (∀ fuel > input.length, runShell files users fuel command input = some r) ∧
      runScreen console r.state.screen = some console' ∧
      Shows console' (screenTerminal t (shellBanner ++ transcript files users input)) ∧
      (r.exited = true ↔ exitLine ∈ commandLines input) := by
  -- The banner ends with a newline, so the first prompt is in a row of its own.
  have hfresh : FreshRow (screenTerminal t shellBanner) := by
    rw [shellBanner, screenTerminal_cons]
    exact freshRow_message (hbelow.screenTerminal [message "\n=== Kyro OS Shell ===\n"]) (by decide)
  obtain ⟨r, hloop, hscreen, hexited⟩ := shellLoop_shows files users input.length
    ⟨command, shellBanner, input⟩ (Nat.le_refl _) hshort hfresh
  obtain ⟨console', hrun, hshows'⟩ := hshows.runScreen r.state.screen
  exact ⟨r, console', hloop, hrun, hscreen ▸ hshows', hexited⟩

/-- A command with a typing error, and the beginning of the next one. -/
def typedKeys : List Byte := chars "lx\x08s\nex"

theorem runShell_shows_typed :
    ∃ r console', (∀ fuel > typedKeys.length,
        runShell emptyFileSystem bootUsers fuel (fun _ => 0xFF) typedKeys = some r) ∧
      runScreen blankConsole r.state.screen = some console' ∧
      Shows console' (screenTerminal (Terminal.clear 0x20)
        (shellBanner ++ transcript emptyFileSystem bootUsers typedKeys)) ∧
      (r.exited = true ↔ exitLine ∈ commandLines typedKeys) :=
  runShell_shows emptyFileSystem bootUsers (fun _ => 0xFF) shows_blankConsole freshRow_clear.below
    (by decide)

end KyroKernel
