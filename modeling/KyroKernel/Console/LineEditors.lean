import KyroKernel.Console.TerminalLine
import KyroKernel.Foundations.Run

/-!
# The two line editors

`gets_simple` of `kernel/printf.c` gets its characters from `getchar_blocking`, which echoes them;
`terminal_get_line` echoes what it keeps itself. The line they leave in the buffer is the same.
-/

namespace KyroKernel

open Foundations

/-! ## `gets_simple` -/

/-- The echo of `getchar_blocking`. -/
def echoChar (c : Byte) : List Byte :=
  if c = 8 then [8]
  else if c = 10 ∨ c = 13 then [10]
  else if 32 ≤ c.toInt ∧ c.toInt ≤ 126 then [c]
  else []

/-- `getchar_blocking`: the character, the calls of `putchar` and the input not read; `none` while it
waits. The input holds 0 where the keyboard has nothing. -/
def getcharBlocking : List Byte → Option (Byte × List Byte × List Byte)
  | [] => none
  | c :: input => if c = 0 then getcharBlocking input else some (c, echoChar c, input)

/-- What `gets_simple` does with a character that does not end the line. -/
def getsKey (s : LineState) (c : Byte) : LineState :=
  if c = 8 then
    if s.pos > 0 then { s with pos := s.pos - 1, output := s.output ++ [8, 32, 8] } else s
  else if 32 ≤ c.toInt ∧ c.toInt ≤ 126 then
    { s with buffer := Function.update s.buffer s.pos c, pos := s.pos + 1 }
  else s

/-- A character that does not end the line, with its echo. -/
def getsStep (s : LineState) (c : Byte) : LineState :=
  getsKey { s with output := s.output ++ echoChar c } c

/-- The loop of `gets_simple`, with that of `getchar_blocking` inside; `none` while it waits. -/
def getsSimpleLoop (maxLen : Int) : LineState → List Byte → Option LineResult
  | s, [] =>
    if s.pos < maxLen - 1 then none
    else some ⟨Function.update s.buffer s.pos 0, s.output, []⟩
  | s, c :: input =>
    if s.pos < maxLen - 1 then
      if c = 0 then getsSimpleLoop maxLen s input
      else if c = 10 ∨ c = 13 then
        some ⟨Function.update s.buffer s.pos 0, s.output ++ echoChar c, input⟩
      else getsSimpleLoop maxLen (getsStep s c) input
    else some ⟨Function.update s.buffer s.pos 0, s.output, c :: input⟩

/-- `gets_simple(buffer, max_len)`. -/
def getsSimple (buffer : Int → Byte) (maxLen : Int) (input : List Byte) : Option LineResult :=
  getsSimpleLoop maxLen ⟨buffer, 0, []⟩ input

/-- One round of the loop: a call of `getchar_blocking` and what is done with its character. -/
theorem getsSimpleLoop_eq (maxLen : Int) (s : LineState) (input : List Byte) :
    getsSimpleLoop maxLen s input =
      if s.pos < maxLen - 1 then
        (getcharBlocking input).bind fun (c, echo, input) =>
          if c = 10 ∨ c = 13 then
            some ⟨Function.update s.buffer s.pos 0, s.output ++ echo, input⟩
          else getsSimpleLoop maxLen (getsKey { s with output := s.output ++ echo } c) input
      else some ⟨Function.update s.buffer s.pos 0, s.output, input⟩ := by
  by_cases hroom : s.pos < maxLen - 1
  · rw [if_pos hroom]
    induction input with
    | nil =>
      rw [getsSimpleLoop, if_pos hroom]
      rfl
    | cons c input ih =>
      rw [getsSimpleLoop, if_pos hroom, getcharBlocking]
      by_cases hc : c = 0
      · rw [if_pos hc, if_pos hc]
        exact ih
      · rw [if_neg hc, if_neg hc]
        rfl
  · rw [if_neg hroom]
    cases input with
    | nil => rw [getsSimpleLoop, if_neg hroom]
    | cons c input => rw [getsSimpleLoop, if_neg hroom]

/-! ## The editors -/

inductive LineEditor where
  | terminalGetLine
  | getsSimple

/-- A character that does not end the line. -/
def LineEditor.step : LineEditor → LineState → Byte → LineState
  | .terminalGetLine => lineStep
  | .getsSimple => getsStep

/-- A call with a buffer of `maxLength` bytes. -/
def LineEditor.read : LineEditor → (Int → Byte) → Int → List Byte → Option LineResult
  | .terminalGetLine => KyroKernel.terminalGetLine
  | .getsSimple => KyroKernel.getsSimple

/-- The rest of a call, from a state of its loop on. -/
def LineEditor.loop : LineEditor → Int → LineState → List Byte → Option LineResult
  | .terminalGetLine => getLineLoop
  | .getsSimple => getsSimpleLoop

/-- A round of the loop that takes the character `c` and goes on. -/
structure EditorRound (e : LineEditor) (maxLength : Int) (s : LineState) (c : Byte) (s' : LineState) :
    Prop where
  room : s.pos < maxLength - 1
  not_nul : c ≠ 0
  not_end : ¬ (c = 10 ∨ c = 13)
  eq : s' = e.step s c

/-- The typing of a call: from its start, the characters that it takes and goes on with. -/
abbrev Typing (e : LineEditor) (buffer : Int → Byte) (maxLength : Int)
    (tr : List (LineState × Byte)) (s : LineState) : Prop :=
  Run (· = ⟨buffer, 0, []⟩) (EditorRound e maxLength) tr s

/-- The characters of a run, first one first. -/
def typedChars (tr : List (LineState × Byte)) : List Byte := (tr.map Prod.snd).reverse

/-- A call returns when the characters it took stop it, with the line they make in the buffer, and
waits when nothing has stopped it. -/
def ReadsLine (maxLength : Int) (input : List Byte) : Option LineResult → Prop
  | some r => ∃ typed ended, input = typed ++ ended ++ r.rest ∧
      Stops lineKey (maxLength - 1).toNat [] typed ended ∧
      bufferString r.buffer maxLength = edit lineKey typed
  | none => (∀ c ∈ input, lineKey c ≠ .ends) ∧
      ∀ typed, typed <+: input → (edit lineKey typed).length < (maxLength - 1).toNat

/-- No byte outside of `buffer[0..maxLength)` is written, before the call returns and when it does. -/
structure StaysInBuffer (e : LineEditor) (buffer : Int → Byte) (maxLength : Int) : Prop where
  typing : ∀ tr s, Typing e buffer maxLength tr s →
    ∀ i, i < 0 ∨ maxLength ≤ i → s.buffer i = buffer i
  returned : ∀ input r, e.read buffer maxLength input = some r →
    ∀ i, i < 0 ∨ maxLength ≤ i → r.buffer i = buffer i

variable {e : LineEditor} {s s' : LineState} {buffer : Int → Byte} {maxLength : Int} {c : Byte}
  {input : List Byte} {tr : List (LineState × Byte)}

theorem LineEditor.read_eq (e : LineEditor) (buffer : Int → Byte) (maxLength : Int)
    (input : List Byte) :
    e.read buffer maxLength input = e.loop maxLength ⟨buffer, 0, []⟩ input := by
  cases e <;> rfl

/-- A round of the loop. -/
theorem LineEditor.loop_of_step (h : EditorRound e maxLength s c s') (input : List Byte) :
    e.loop maxLength s (c :: input) = e.loop maxLength s' input := by
  rw [h.eq]
  cases e with
  | terminalGetLine =>
    show getLineLoop maxLength s (c :: input) = _
    rw [getLineLoop, if_pos h.room, if_neg h.not_nul, if_neg h.not_end]
    rfl
  | getsSimple =>
    show getsSimpleLoop maxLength s (c :: input) = _
    rw [getsSimpleLoop, if_pos h.room, if_neg h.not_nul, if_neg h.not_end]
    rfl

/-- A typing is the first part of every call that is given its characters. -/
theorem read_of_typing (h : Typing e buffer maxLength tr s) (input : List Byte) :
    e.read buffer maxLength (typedChars tr ++ input) = e.loop maxLength s input := by
  induction h generalizing input with
  | start hinit =>
    rw [hinit]
    exact e.read_eq buffer maxLength input
  | @snoc tr s s' c _ hstep ih =>
    rw [← LineEditor.loop_of_step hstep, ← ih]
    unfold typedChars
    simp

/-! ## The same line -/

/-- The two editors do the same to the buffer and to `pos`. -/
theorem getsStep_eq (s : LineState) (c : Byte) :
    (getsStep s c).buffer = (lineStep s c).buffer ∧ (getsStep s c).pos = (lineStep s c).pos := by
  unfold getsStep getsKey lineStep
  by_cases herase : c = 8
  · simp only [if_pos herase]
    split <;> exact ⟨rfl, rfl⟩
  · simp only [if_neg herase]
    split <;> exact ⟨rfl, rfl⟩

/-- Neither looks at the echo. -/
theorem lineStep_congr {t : LineState} (hbuffer : s.buffer = t.buffer) (hpos : s.pos = t.pos)
    (c : Byte) :
    (lineStep s c).buffer = (lineStep t c).buffer ∧ (lineStep s c).pos = (lineStep t c).pos := by
  unfold lineStep
  rw [hbuffer, hpos]
  by_cases herase : c = 8
  · simp only [if_pos herase]
    split
    · exact ⟨rfl, rfl⟩
    · exact ⟨hbuffer, hpos⟩
  · simp only [if_neg herase]
    split
    · exact ⟨rfl, rfl⟩
    · exact ⟨hbuffer, hpos⟩

/-- What they return differs in the echo only. -/
theorem getsSimpleLoop_same {t : LineState} (hbuffer : s.buffer = t.buffer) (hpos : s.pos = t.pos)
    (input : List Byte) :
    (getsSimpleLoop maxLength s input).map (fun r => (r.buffer, r.rest)) =
      (getLineLoop maxLength t input).map (fun r => (r.buffer, r.rest)) := by
  induction input generalizing s t with
  | nil =>
    rw [getsSimpleLoop, getLineLoop, hbuffer, hpos]
    split <;> rfl
  | cons c input ih =>
    rw [getsSimpleLoop, getLineLoop, ← hpos]
    by_cases hroom : s.pos < maxLength - 1
    · rw [if_pos hroom, if_pos hroom]
      by_cases hnul : c = 0
      · rw [if_pos hnul, if_pos hnul]
        exact ih hbuffer hpos
      · rw [if_neg hnul, if_neg hnul]
        by_cases hends : c = 10 ∨ c = 13
        · rw [if_pos hends, if_pos hends, hbuffer]
          rfl
        · rw [if_neg hends, if_neg hends]
          obtain ⟨hbuffer', hpos'⟩ := getsStep_eq s c
          obtain ⟨hbuffer'', hpos''⟩ := lineStep_congr hbuffer hpos c
          exact ih (hbuffer'.trans hbuffer'') (hpos'.trans hpos'')
    · rw [if_neg hroom, if_neg hroom, hbuffer]
      rfl

theorem getsSimple_same (buffer : Int → Byte) (maxLength : Int) (input : List Byte) :
    (getsSimple buffer maxLength input).map (fun r => (r.buffer, r.rest)) =
      (terminalGetLine buffer maxLength input).map (fun r => (r.buffer, r.rest)) :=
  getsSimpleLoop_same rfl rfl input

/-- Both calls are the line reader. -/
theorem LineEditor.read_eq_readLine (e : LineEditor) (buffer : Int → Byte) (hmax : 1 ≤ maxLength)
    (input : List Byte) :
    (e.read buffer maxLength input).map (fun r => (bufferString r.buffer maxLength, r.rest)) =
      readLine lineKey (maxLength - 1).toNat [] input := by
  rw [← terminalGetLine_eq buffer hmax input]
  cases e with
  | terminalGetLine => rfl
  | getsSimple =>
    have hstring := congrArg (Option.map fun p => (bufferString p.1 maxLength, p.2))
      (getsSimple_same buffer maxLength input)
    rw [Option.map_map, Option.map_map] at hstring
    exact hstring

theorem readsLine_read (e : LineEditor) (buffer : Int → Byte) (hmax : 1 ≤ maxLength)
    (input : List Byte) : ReadsLine maxLength input (e.read buffer maxLength input) := by
  have hread := e.read_eq_readLine buffer hmax input
  cases hr : e.read buffer maxLength input with
  | none =>
    rw [hr] at hread
    exact room_of_readLine_eq_none hread.symm
  | some r =>
    rw [hr] at hread
    obtain ⟨typed, ended, hinput, hline, hstops⟩ := exists_stops_of_readLine hread.symm
    exact ⟨typed, ended, hinput, hstops, hline⟩

/-! ## Inside the buffer -/

/-- Where `pos` is, and what has not been written. -/
structure InBuffer (buffer : Int → Byte) (maxLength : Int) (s : LineState) : Prop where
  pos_range : 0 ≤ s.pos ∧ s.pos ≤ maxLength - 1
  outside : ∀ i, i < 0 ∨ maxLength ≤ i → s.buffer i = buffer i

/-- A write at `pos` is inside. -/
theorem InBuffer.update (h : InBuffer buffer maxLength s) (b : Byte) {i : Int}
    (hi : i < 0 ∨ maxLength ≤ i) : Function.update s.buffer s.pos b i = buffer i := by
  obtain ⟨⟨hlo, hhi⟩, hout⟩ := h
  rw [Function.update_of_ne (by omega)]
  exact hout i hi

theorem InBuffer.lineStep (h : InBuffer buffer maxLength s) (hroom : s.pos < maxLength - 1)
    (c : Byte) : InBuffer buffer maxLength (lineStep s c) := by
  have hrange := h.pos_range
  unfold KyroKernel.lineStep
  by_cases herase : c = 8
  · rw [if_pos herase]
    split
    · exact ⟨by simp only; omega, h.outside⟩
    · exact h
  · rw [if_neg herase]
    split
    · exact ⟨by simp only; omega, fun i hi => h.update c hi⟩
    · exact h

theorem InBuffer.step (h : InBuffer buffer maxLength s) (hroom : s.pos < maxLength - 1)
    (e : LineEditor) (c : Byte) : InBuffer buffer maxLength (e.step s c) := by
  obtain ⟨hrange, hout⟩ := h.lineStep hroom c
  cases e with
  | terminalGetLine => exact ⟨hrange, hout⟩
  | getsSimple =>
    obtain ⟨hbuffer, hpos⟩ := getsStep_eq s c
    show InBuffer buffer maxLength (getsStep s c)
    exact ⟨by rw [hpos]; exact hrange, by rw [hbuffer]; exact hout⟩

theorem inBuffer_typing (hmax : 1 ≤ maxLength) (h : Typing e buffer maxLength tr s) :
    InBuffer buffer maxLength s := by
  apply h.inv (InBuffer buffer maxLength)
  · rintro _ rfl
    exact ⟨⟨Int.le_refl _, by simp only; omega⟩, fun _ _ => rfl⟩
  · rintro s c s' hin hstep
    rw [hstep.eq]
    exact hin.step hstep.room e c

theorem getLineLoop_outside {r : LineResult} (h : InBuffer buffer maxLength s)
    (hr : getLineLoop maxLength s input = some r) :
    ∀ i, i < 0 ∨ maxLength ≤ i → r.buffer i = buffer i := by
  induction input generalizing s with
  | nil =>
    rw [getLineLoop] at hr
    by_cases hroom : s.pos < maxLength - 1
    · rw [if_pos hroom] at hr
      cases hr
    · rw [if_neg hroom] at hr
      obtain rfl := Option.some.inj hr
      exact fun i hi => h.update 0 hi
  | cons c input ih =>
    rw [getLineLoop] at hr
    by_cases hroom : s.pos < maxLength - 1
    · rw [if_pos hroom] at hr
      by_cases hnul : c = 0
      · rw [if_pos hnul] at hr
        exact ih h hr
      · rw [if_neg hnul] at hr
        by_cases hends : c = 10 ∨ c = 13
        · rw [if_pos hends] at hr
          obtain rfl := Option.some.inj hr
          exact fun i hi => h.update 0 hi
        · rw [if_neg hends] at hr
          exact ih (h.lineStep hroom c) hr
    · rw [if_neg hroom] at hr
      obtain rfl := Option.some.inj hr
      exact fun i hi => h.update 0 hi

theorem staysInBuffer (e : LineEditor) (buffer : Int → Byte) (hmax : 1 ≤ maxLength) :
    StaysInBuffer e buffer maxLength := by
  have hstart : InBuffer buffer maxLength ⟨buffer, 0, []⟩ :=
    ⟨⟨Int.le_refl _, by simp only; omega⟩, fun _ _ => rfl⟩
  refine ⟨fun tr s htyping => (inBuffer_typing hmax htyping).outside, fun input r hr => ?_⟩
  cases e with
  | terminalGetLine => exact getLineLoop_outside hstart hr
  | getsSimple =>
    have hsame := getsSimple_same buffer maxLength input
    have hgets : getsSimple buffer maxLength input = some r := hr
    rw [hgets] at hsame
    obtain ⟨r', hr', hpair⟩ := Option.map_eq_some_iff.mp hsame.symm
    rw [← (Prod.mk.inj hpair).1]
    exact getLineLoop_outside hstart hr'

/-! ## The two calls -/

/-- On the same input the two editors leave the same string and the same rest of the input, the line
that the input makes, and write inside their buffers only. -/
theorem lineEditors_same (hmax : 1 ≤ maxLength) (buffer buffer' : Int → Byte) (input : List Byte) :
    (getsSimple buffer maxLength input).map (fun r => (bufferString r.buffer maxLength, r.rest)) =
        (terminalGetLine buffer' maxLength input).map
          (fun r => (bufferString r.buffer maxLength, r.rest)) ∧
      ReadsLine maxLength input (getsSimple buffer maxLength input) ∧
      ReadsLine maxLength input (terminalGetLine buffer' maxLength input) ∧
      StaysInBuffer .getsSimple buffer maxLength ∧
      StaysInBuffer .terminalGetLine buffer' maxLength := by
  refine ⟨?_, readsLine_read .getsSimple buffer hmax input,
    readsLine_read .terminalGetLine buffer' hmax input, staysInBuffer .getsSimple buffer hmax,
    staysInBuffer .terminalGetLine buffer' hmax⟩
  exact (LineEditor.read_eq_readLine .getsSimple buffer hmax input).trans
    (LineEditor.read_eq_readLine .terminalGetLine buffer' hmax input).symm

/-- A line with a character erased. -/
theorem lineEditors_same_erase :
    (getsSimple (fun _ => 1) 4 (chars "ab\x08c\n")).map
        (fun r => (bufferString r.buffer 4, r.rest)) =
      (terminalGetLine (fun _ => 2) 4 (chars "ab\x08c\n")).map
        (fun r => (bufferString r.buffer 4, r.rest)) :=
  (lineEditors_same (by decide) (fun _ => 1) (fun _ => 2) (chars "ab\x08c\n")).1

end KyroKernel
