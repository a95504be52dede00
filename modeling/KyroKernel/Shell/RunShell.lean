import KyroKernel.Console.LineEcho
import KyroKernel.Foundations.Loop
import KyroKernel.Fs.Listing
import KyroKernel.Users.Listing

/-!
# The shell

`run_shell` of `kernel/run_shell.c`. It reads one line after the other into the same buffer and
compares it with its commands. What it does depends on the lines that were typed alone: not on what
the buffer held before, and not on how the lines were edited.
-/

namespace KyroKernel

open Foundations

/-! ## §1 The loop -/

/-- `command`, what was done to the screen, and the input not read. -/
structure ShellState where
  command : Int → Byte
  screen : List ScreenCall
  input : List Byte

/-- `strcmp(command, word) == 0`. -/
def commandIs (command : Int → Byte) (word : String) : Bool :=
  strcmp (tableList command 256) (chars word) == 0

/-- `print_message` of a buffer. -/
def bufferMessage (buffer : Int → Byte) (size : Nat) : ScreenCall :=
  .write (.printMessage ⟨cstr (tableList buffer size), nul_notMem_cstr _⟩)

/-- What `help` prints. -/
def helpMessages : List ScreenCall :=
  [message "Available commands:\n",
    message "  help    - Show this help\n",
    message "  clear   - Clear screen\n",
    message "  exit    - Exit shell\n",
    message "  ls      - List files\n",
    message "  users   - List users\n"]

/-- The comparisons of the loop: what a command does to the screen, and whether the loop goes on. -/
def shellCommand (files : FileSystem) (users : UserSystem) (command : Int → Byte) :
    List ScreenCall × Bool :=
  if commandIs command "help" then (helpMessages, true)
  else if commandIs command "clear" then ([.clearScreen], true)
  else if commandIs command "exit" then ([message "Exiting shell...\n"], false)
  else if commandIs command "ls" then (putcharCalls (listFiles files).output, true)
  else if commandIs command "users" then (putcharCalls (listUsers users).output, true)
  else if strlen (tableList command 256) > 0 then
    ([message "Unknown command: ", bufferMessage command 256, message "\n"], true)
  else ([], true)

/-- A round of the loop: it waits for the rest of a line, or it has answered and the loop goes on or
not. -/
inductive ShellRound where
  | waits (s : ShellState)
  | answered (s : ShellState) (goesOn : Bool)

def shellRound (files : FileSystem) (users : UserSystem) (s : ShellState) : ShellRound :=
  match terminalGetLine s.command 256 s.input with
  | none =>
    let line := waitingLine ⟨s.command, 0, []⟩ s.input
    .waits ⟨line.buffer, s.screen ++ message "kyro> " :: putcharCalls line.output, []⟩
  | some r =>
    let (calls, goesOn) := shellCommand files users r.buffer
    .answered ⟨r.buffer, s.screen ++ message "kyro> " :: (putcharCalls r.output ++ calls), r.rest⟩
      goesOn

/-- The loop waits for the rest of a line, or it has ended. -/
structure ShellResult where
  state : ShellState
  exited : Bool

/-- The loop, `none` when the fuel runs out. -/
def shellLoop (files : FileSystem) (users : UserSystem) : Nat → ShellState → Option ShellResult
  | 0, _ => none
  | fuel + 1, s =>
    match shellRound files users s with
    | .waits s => some ⟨s, false⟩
    | .answered s false => some ⟨s, true⟩
    | .answered s true => shellLoop files users fuel s

/-- What is printed before the loop. -/
def shellBanner : List ScreenCall :=
  [message "\n=== Kyro OS Shell ===\n", message "Type 'help' for available commands\n"]

/-- `run_shell`, with a buffer that holds anything. -/
def runShell (files : FileSystem) (users : UserSystem) (fuel : Nat) (command : Int → Byte)
    (input : List Byte) : Option ShellResult :=
  shellLoop files users fuel ⟨command, shellBanner, input⟩

/-! ## §2 Commands -/

def exitLine : List Byte := chars "exit"

/-- What the shell answers to a line. -/
def replyTo (files : FileSystem) (users : UserSystem) (line : List Byte) : List ScreenCall :=
  if line = chars "help" then helpMessages
  else if line = chars "clear" then [.clearScreen]
  else if line = exitLine then [message "Exiting shell...\n"]
  else if line = chars "ls" then putcharCalls (listFiles files).output
  else if line = chars "users" then putcharCalls (listUsers users).output
  else if line = [] then []
  else [message "Unknown command: ", lineMessage line, message "\n"]

variable {files : FileSystem} {users : UserSystem} {command : Int → Byte} {s : ShellState}
  {fuel : Nat} {input line : List Byte}

/-- The comparison is of the string in the buffer. -/
theorem commandIs_iff (command : Int → Byte) {word : String} (hword : (0 : Byte) ∉ chars word) :
    commandIs command word = true ↔ bufferString command 256 = chars word := by
  rw [commandIs, beq_iff_eq, strcmp_eq_zero_iff, cstr_of_nul_free hword]
  rfl

/-- The comparisons find the string that is in the buffer, whatever is behind it. -/
theorem shellCommand_eq (files : FileSystem) (users : UserSystem) (command : Int → Byte) :
    shellCommand files users command =
      (replyTo files users (bufferString command 256),
        decide (bufferString command 256 ≠ exitLine)) := by
  have hhelp := commandIs_iff command (by decide : (0 : Byte) ∉ chars "help")
  have hclear := commandIs_iff command (by decide : (0 : Byte) ∉ chars "clear")
  have hexit := commandIs_iff command (by decide : (0 : Byte) ∉ chars "exit")
  have hls := commandIs_iff command (by decide : (0 : Byte) ∉ chars "ls")
  have husers := commandIs_iff command (by decide : (0 : Byte) ∉ chars "users")
  have hlength : strlen (tableList command 256) > 0 ↔ bufferString command 256 ≠ [] := by
    rw [strlen_eq, gt_iff_lt, List.length_pos_iff]
    rfl
  have hsame : cstr (bufferString command 256) = bufferString command 256 :=
    cstr_of_nul_free (nul_notMem_cstr _)
  have hmessage : bufferMessage command 256 = lineMessage (bufferString command 256) := by
    simp only [bufferMessage, lineMessage, hsame]
    rfl
  -- From here on both sides are comparisons of one string, in the same order.
  unfold shellCommand replyTo
  rw [hmessage]
  generalize bufferString command 256 = line at *
  have hne : chars "help" ≠ exitLine ∧ chars "clear" ≠ exitLine ∧ chars "ls" ≠ exitLine ∧
    chars "users" ≠ exitLine ∧ [] ≠ exitLine := by decide
  by_cases h₁ : line = chars "help"
  · rw [if_pos (hhelp.mpr h₁), if_pos h₁, h₁, decide_eq_true hne.1]
  rw [if_neg (mt hhelp.mp h₁), if_neg h₁]
  by_cases h₂ : line = chars "clear"
  · rw [if_pos (hclear.mpr h₂), if_pos h₂, h₂, decide_eq_true hne.2.1]
  rw [if_neg (mt hclear.mp h₂), if_neg h₂]
  by_cases h₃ : line = exitLine
  · rw [if_pos (hexit.mpr h₃), if_pos h₃, decide_eq_false (not_not.mpr h₃)]
  rw [if_neg (mt hexit.mp h₃), if_neg h₃, decide_eq_true h₃]
  by_cases h₄ : line = chars "ls"
  · rw [if_pos (hls.mpr h₄), if_pos h₄]
  rw [if_neg (mt hls.mp h₄), if_neg h₄]
  by_cases h₅ : line = chars "users"
  · rw [if_pos (husers.mpr h₅), if_pos h₅]
  rw [if_neg (mt husers.mp h₅), if_neg h₅]
  by_cases h₆ : line = []
  · rw [if_neg (fun h => hlength.mp h h₆), if_pos h₆]
  · rw [if_pos (hlength.mpr h₆), if_neg h₆]

/-! ## §3 Any input -/

/-- What is on the screen for a line: the prompt, the echo of its keys and the answer. -/
def roundCalls (files : FileSystem) (users : UserSystem) (typed ended : List Byte) :
    List ScreenCall :=
  message "kyro> " :: (putcharCalls (lineEcho typed ended) ++ replyTo files users (edit lineKey typed))

/-- A round waits as a line reader does, with the prompt and the echo of what has been typed, or
answers to the line that the reader gets. -/
theorem shellRound_cases (files : FileSystem) (users : UserSystem) (s : ShellState) :
    (∃ buffer, shellRound files users s = .waits
          ⟨buffer, s.screen ++ message "kyro> " :: putcharCalls (echoLine [] s.input), []⟩ ∧
        (∀ c ∈ s.input, lineKey c ≠ .ends) ∧
        ∀ typed, typed <+: s.input → (edit lineKey typed).length < 255) ∨
    ∃ typed ended rest buffer, s.input = typed ++ ended ++ rest ∧ Stops lineKey 255 [] typed ended ∧
      shellRound files users s = .answered
        ⟨buffer, s.screen ++ roundCalls files users typed ended, rest⟩
        (decide (edit lineKey typed ≠ exitLine)) := by
  unfold shellRound
  cases hline : terminalGetLine s.command 256 s.input with
  | none =>
    obtain ⟨hends, hroom, hout⟩ := terminalGetLine_waits (by decide : (1 : Int) ≤ 256) hline
    refine .inl ⟨(waitingLine ⟨s.command, 0, []⟩ s.input).buffer, ?_, hends, hroom⟩
    rw [← hout]
  | some r =>
    obtain ⟨typed, ended, hinput, hstops, hout, hbuffer⟩ :=
      terminalGetLine_stops (by decide : (1 : Int) ≤ 256) hline
    refine .inr ⟨typed, ended, r.rest, r.buffer, hinput, hstops, ?_⟩
    simp only [shellCommand_eq, hbuffer, hout]
    rfl

/-- The shell has read the keys of these lines, each with the key that ended it, and then, if it
waits, those of a line that has not ended. -/
structure ShellSession (files : FileSystem) (users : UserSystem) (s : ShellState)
    (rounds : List (List Byte × List Byte)) (pending : Option (List Byte)) (r : ShellResult) :
    Prop where
  keys : s.input = (rounds.flatMap fun p => p.1 ++ p.2) ++ (pending.getD [] ++ r.state.input)
  /-- A reader of 255 characters returns after the keys of each line, and not before. -/
  stops : ∀ p ∈ rounds, Stops lineKey 255 [] p.1 p.2
  screen : r.state.screen = s.screen ++ (rounds.flatMap fun p => roundCalls files users p.1 p.2) ++
    pending.elim [] fun typed => message "kyro> " :: putcharCalls (echoLine [] typed)
  /-- It ends with the first line that is `exit`. -/
  exited : r.exited = true → pending = none ∧
    ∃ before, (rounds.map fun p => edit lineKey p.1) = before ++ [exitLine] ∧ exitLine ∉ before
  /-- Else there is no such line, and a reader has not returned from all that is left. -/
  waits : r.exited = false → exitLine ∉ (rounds.map fun p => edit lineKey p.1) ∧
    r.state.input = [] ∧ ∃ typed, pending = some typed ∧ (∀ c ∈ typed, lineKey c ≠ .ends) ∧
      ∀ earlier, earlier <+: typed → (edit lineKey earlier).length < 255

/-- The lines are those that readers get one after the other. -/
theorem ShellSession.reads {rounds : List (List Byte × List Byte)} {pending : Option (List Byte)}
    {r : ShellResult} (h : ShellSession files users s rounds pending r) :
    Reads lineKey 255 (rounds.map fun p => edit lineKey p.1) s.input
      (pending.getD [] ++ r.state.input) := by
  have hstops := h.stops
  -- What is left behind the rounds plays no part.
  rw [h.keys]
  generalize pending.getD [] ++ r.state.input = left
  clear h
  induction rounds with
  | nil => exact .nil _
  | cons p rounds ih =>
    obtain ⟨hp, hrest⟩ := List.forall_mem_cons.mp hstops
    rw [List.flatMap_cons, List.append_assoc]
    exact .cons (readLine_of_stops hp _) (ih hrest)

/-- The loop comes to its end or waits, for all that is left of the input. -/
theorem exists_shellSession (files : FileSystem) (users : UserSystem) (n : Nat) (s : ShellState)
    (hn : s.input.length ≤ n) :
    ∃ r rounds pending, (∀ fuel > n, shellLoop files users fuel s = some r) ∧
      ShellSession files users s rounds pending r := by
  -- On the length of the input: a line that is read takes at least one key.
  induction n using Nat.strong_induction_on generalizing s with
  | h n ih =>
    rcases shellRound_cases files users s with ⟨buffer, hround, hends, hroom⟩ |
      ⟨typed, ended, rest, buffer, hinput, hstops, hround⟩
    · -- It waits, and all that is left belongs to the line that has not ended.
      refine ⟨⟨_, false⟩, [], some s.input, forall_fuel fun fuel _ => by rw [shellLoop, hround],
        (List.append_nil _).symm, fun p hp => absurd hp List.not_mem_nil, ?_,
        fun h => absurd h Bool.false_ne_true,
        fun _ => ⟨List.not_mem_nil, rfl, s.input, rfl, hends, hroom⟩⟩
      rw [List.flatMap_nil, List.append_nil]
      rfl
    · by_cases hexit : edit lineKey typed = exitLine
      · -- The last round; the keys behind `exit` stay where they are.
        rw [decide_eq_false (not_not.mpr hexit)] at hround
        refine ⟨⟨_, true⟩, [(typed, ended)], none,
          forall_fuel fun fuel _ => by rw [shellLoop, hround], ?_, List.forall_mem_singleton.mpr hstops,
          ?_, fun _ => ⟨rfl, [], by rw [List.map_singleton, hexit]; rfl, List.not_mem_nil⟩,
          fun h => absurd h.symm Bool.false_ne_true⟩
        · rw [List.flatMap_singleton]
          exact hinput
        · rw [List.flatMap_singleton]
          exact (List.append_nil _).symm
      · -- One more round in front of the session for the rest of the input.
        rw [decide_eq_true hexit] at hround
        have hread := readLine_of_stops hstops rest
        rw [← hinput] at hread
        have hless := length_lt_of_readLine (by decide) hread
        obtain ⟨r, rounds, pending, hloop, hsession⟩ := ih rest.length (Nat.lt_of_lt_of_le hless hn)
          ⟨buffer, s.screen ++ roundCalls files users typed ended, rest⟩ (Nat.le_refl _)
        refine ⟨r, (typed, ended) :: rounds, pending, forall_fuel fun fuel hfuel => ?_, ?_,
          List.forall_mem_cons.mpr ⟨hstops, hsession.stops⟩, ?_, fun h => ?_, fun h => ?_⟩
        · rw [shellLoop, hround]
          exact hloop fuel (Nat.lt_of_lt_of_le hless (Nat.le_trans hn hfuel))
        · rw [hinput, List.flatMap_cons, List.append_assoc (typed ++ ended)]
          exact congrArg _ hsession.keys
        · rw [hsession.screen, List.flatMap_cons, List.append_assoc s.screen]
        · obtain ⟨hnone, before, hrounds, hbefore⟩ := hsession.exited h
          refine ⟨hnone, edit lineKey typed :: before, by rw [List.map_cons, hrounds]; rfl,
            fun hmem => ?_⟩
          exact (List.mem_cons.mp hmem).elim (Ne.symm hexit) hbefore
        · obtain ⟨hrounds, hrest⟩ := hsession.waits h
          exact ⟨fun hmem => (List.mem_cons.mp hmem).elim (Ne.symm hexit) hrounds, hrest⟩

/-- For every input the shell reads lines as line readers of 255 characters do, one after the other,
prints the prompt, the echo and the answer for each of them, and ends with the first `exit` or waits
for the rest of the next line, with its prompt and the echo of what there is of it. -/
theorem runShell_session (files : FileSystem) (users : UserSystem) (command : Int → Byte)
    (input : List Byte) :
    ∃ r rounds pending, (∀ fuel > input.length, runShell files users fuel command input = some r) ∧
      ShellSession files users ⟨command, shellBanner, input⟩ rounds pending r :=
  exists_shellSession files users input.length ⟨command, shellBanner, input⟩ (Nat.le_refl _)

end KyroKernel
