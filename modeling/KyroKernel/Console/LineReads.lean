import KyroKernel.Console.TerminalLine

/-!
# One line after the other

`login_prompt` reads the name and then the password, `run_shell` one command after the other. When
`terminal_get_line` fills its buffer it returns without reading on to the end of the line, so the
rest of the line, or only its end, is what the next call reads. Calls get their own lines exactly
as long as no line before was long enough for that.
-/

namespace KyroKernel

open Foundations

/-- A call of `terminal_get_line`: what is in its buffer, and the size. -/
structure GetLineCall where
  buffer : Int → Byte
  maxLength : Int
  two_le : 2 ≤ maxLength

/-- The characters that fit. -/
def GetLineCall.limit (call : GetLineCall) : Nat := (call.maxLength - 1).toNat

/-- The input that calls one after the other leave. -/
def inputAfter : List GetLineCall → List Byte → Option (List Byte)
  | [], input => some input
  | call :: calls, input =>
    (terminalGetLine call.buffer call.maxLength input).bind fun r => inputAfter calls r.rest

/-- The call after `calls` starts where the line of its number starts, and returns that line after
editing, cut to the buffer. -/
def ReadsItsLine (calls : List GetLineCall) (call : GetLineCall) (input line : List Byte) : Prop :=
  ∃ left r, inputAfter calls input = some left ∧
    afterLines lineKey calls.length input = some left ∧
    terminalGetLine call.buffer call.maxLength left = some r ∧
    bufferString r.buffer call.maxLength = (edit lineKey line).take call.limit

variable {calls : List GetLineCall} {call : GetLineCall} {input line : List Byte}

theorem terminalGetLine_eq_readLine (call : GetLineCall) (input : List Byte) :
    (terminalGetLine call.buffer call.maxLength input).map
        (fun r => (bufferString r.buffer call.maxLength, r.rest)) =
      readLine lineKey call.limit [] input :=
  terminalGetLine_eq call.buffer (Int.le_trans (by decide) call.two_le) input

/-- The calls are line readers one after the other. -/
theorem inputAfter_eq (calls : List GetLineCall) (input : List Byte) :
    inputAfter calls input = leftAfter lineKey (calls.map GetLineCall.limit) input := by
  induction calls generalizing input with
  | nil => rfl
  | cons call calls ih =>
    rw [inputAfter, List.map_cons, leftAfter, ← terminalGetLine_eq_readLine, Option.bind_map]
    congr 1
    funext r
    exact ih r.rest

/-- A call at the start of the line. -/
theorem terminalGetLine_take_iff {left rest : List Byte}
    (hsplit : splitLine lineKey left = some (line, rest)) :
    (∃ r, terminalGetLine call.buffer call.maxLength left = some r ∧
        bufferString r.buffer call.maxLength = (edit lineKey line).take call.limit) ↔
      KeepsFirst lineKey call.limit line := by
  rw [← readLine_eq_take_iff hsplit, ← terminalGetLine_eq_readLine]
  constructor
  · rintro ⟨r, hr, hstring⟩
    exact ⟨r.rest, by rw [hr, Option.map_some, hstring]⟩
  · rintro ⟨left', hmap⟩
    obtain ⟨r, hr, hpair⟩ := Option.map_eq_some_iff.mp hmap
    exact ⟨r, hr, (Prod.mk.inj hpair).1⟩

/-- A call reads its own line if and only if no earlier line filled the buffer of its call, and
the characters that first fill its own buffer, if any do, are the first of its line. -/
theorem readsItsLine_iff (hline : lineAt lineKey calls.length input = some line) :
    ReadsItsLine calls call input line ↔
      (∀ (j : Nat) (earlier : GetLineCall) (line' : List Byte), calls[j]? = some earlier →
        lineAt lineKey j input = some line' → ¬ Fills lineKey earlier.limit line') ∧
      KeepsFirst lineKey call.limit line := by
  obtain ⟨left, hafter, hmap⟩ := Option.bind_eq_some_iff.mp hline
  obtain ⟨⟨_, rest⟩, hsplit, rfl⟩ := Option.map_eq_some_iff.mp hmap
  have hafter' : afterLines lineKey (calls.map GetLineCall.limit).length input = some left := by
    rw [List.length_map]
    exact hafter
  -- Being at the start of the line is the first condition.
  have hstart : inputAfter calls input = some left ↔
      ∀ (j : Nat) (earlier : GetLineCall) (line' : List Byte), calls[j]? = some earlier →
        lineAt lineKey j input = some line' → ¬ Fills lineKey earlier.limit line' := by
    rw [inputAfter_eq, leftAfter_eq_iff hafter']
    constructor
    · intro hall j earlier line' hearlier hline'
      apply hall j earlier.limit line' ?_ hline'
      rw [List.getElem?_map, hearlier]
      rfl
    · intro hall j limit line' hlimit hline'
      rw [List.getElem?_map] at hlimit
      obtain ⟨earlier, hearlier, rfl⟩ := Option.map_eq_some_iff.mp hlimit
      exact hall j earlier line' hearlier hline'
  rw [← hstart, ← terminalGetLine_take_iff hsplit]
  constructor
  · rintro ⟨left', r, hleft, hafter'', hr, hstring⟩
    obtain rfl := Option.some.inj (hafter.symm.trans hafter'')
    exact ⟨hleft, r, hr, hstring⟩
  · rintro ⟨hleft, r, hr, hstring⟩
    exact ⟨left, r, hleft, hafter, hr, hstring⟩

/-- A call with a buffer of 64 bytes, as in `login_prompt`. -/
def loginCall : GetLineCall := ⟨fun _ => 0, 64, by decide⟩

/-- The second line of two short ones. -/
theorem readsItsLine_iff_short :
    ReadsItsLine [loginCall] loginCall (chars "ann\nsecret\n") (chars "secret") ↔
      (∀ (j : Nat) (earlier : GetLineCall) (line' : List Byte),
        [loginCall][j]? = some earlier → lineAt lineKey j (chars "ann\nsecret\n") = some line' →
          ¬ Fills lineKey earlier.limit line') ∧
      KeepsFirst lineKey loginCall.limit (chars "secret") :=
  readsItsLine_iff (by decide)

/-- A name of 63 characters: the end of its line is what the second call reads. -/
theorem not_forall_readsItsLine : ¬ ∀ calls call input line,
    lineAt lineKey calls.length input = some line → ReadsItsLine calls call input line := by
  intro hall
  -- The first call stops before the newline.
  obtain ⟨left, r, hleft, hafter, -⟩ := hall [loginCall] loginCall
    (List.replicate 63 97 ++ [10] ++ chars "secret\n") (chars "secret") (by decide +kernel)
  have hdiffer : inputAfter [loginCall] (List.replicate 63 97 ++ [10] ++ chars "secret\n") ≠
      afterLines lineKey 1 (List.replicate 63 97 ++ [10] ++ chars "secret\n") := by
    decide +kernel
  exact hdiffer (hleft.trans hafter.symm)

end KyroKernel
