import KyroKernel.Foundations.ArrayTable
import KyroKernel.Foundations.CString
import KyroKernel.Foundations.LineReader

/-!
# The line editor of the terminal

`terminal_get_line` of `kernel/terminal.c`. The input is the list of what the next calls of
`terminal_getchar` return, 0 where the keyboard has nothing; at its end the function waits.
-/

namespace KyroKernel

open Foundations

/-- The buffer, `pos`, and the calls of `terminal_putchar`. -/
structure LineState where
  buffer : Int → Byte
  pos : Int
  output : List Byte

/-- What a call of `terminal_get_line` leaves: its buffer, its echo, and the input not read. -/
structure LineResult where
  buffer : Int → Byte
  output : List Byte
  rest : List Byte

/-- A character that does not end the line. -/
def lineStep (s : LineState) (c : Byte) : LineState :=
  if c = 8 then
    if s.pos > 0 then { s with pos := s.pos - 1, output := s.output ++ [8, 32, 8] } else s
  -- `char` is signed.
  else if 32 ≤ c.toInt ∧ c.toInt ≤ 126 then
    { buffer := Function.update s.buffer s.pos c, pos := s.pos + 1, output := s.output ++ [c] }
  else s

/-- The loops of `terminal_get_line`; `none` while it waits. -/
def getLineLoop (maxLength : Int) : LineState → List Byte → Option LineResult
  | s, [] =>
    if s.pos < maxLength - 1 then none
    else some ⟨Function.update s.buffer s.pos 0, s.output, []⟩
  | s, c :: input =>
    if s.pos < maxLength - 1 then
      -- `while ((c = terminal_getchar()) == 0) hlt`: nothing has changed, so ask again.
      if c = 0 then getLineLoop maxLength s input
      else if c = 10 ∨ c = 13 then
        some ⟨Function.update s.buffer s.pos 0, s.output ++ [10], input⟩
      else getLineLoop maxLength (lineStep s c) input
    else some ⟨Function.update s.buffer s.pos 0, s.output, c :: input⟩

/-- `terminal_get_line(buffer, max_length)`. -/
def terminalGetLine (buffer : Int → Byte) (maxLength : Int) (input : List Byte) :
    Option LineResult :=
  getLineLoop maxLength ⟨buffer, 0, []⟩ input

/-- Where the loops are when they have had these characters and wait. -/
def waitingLine (s : LineState) (input : List Byte) : LineState :=
  input.foldl (fun s c => if c = 0 then s else lineStep s c) s

/-- The string in a buffer of this size. -/
def bufferString (buffer : Int → Byte) (maxLength : Int) : List Byte :=
  cstr (tableList buffer maxLength.toNat)

/-! ## The line reader behind it -/

/-- What the characters do. A 0 is no character. -/
def lineKey (c : Byte) : KeyKind :=
  if c = 10 ∨ c = 13 then .ends
  else if c = 8 then .erases
  else if 32 ≤ c.toInt ∧ c.toInt ≤ 126 then .text
  else .ignored

/-- The buffer up to `pos` holds the line. -/
structure Holds (s : LineState) (kept : List Byte) : Prop where
  pos_eq : s.pos = kept.length
  buffer_eq : tableList s.buffer kept.length = kept
  nul_free : (0 : Byte) ∉ kept

variable {s : LineState} {kept input : List Byte} {maxLength : Int} {c : Byte}

/-- A step of the loop is an editing step on the line. -/
theorem Holds.step (h : Holds s kept) (hc : lineKey c ≠ .ends) :
    Holds (lineStep s c) (editKey lineKey kept c) := by
  have hne : ¬ (c = 10 ∨ c = 13) := fun heq => hc (if_pos heq)
  obtain ⟨hpos, hbuffer, hfree⟩ := h
  unfold lineStep editKey lineKey
  rw [if_neg hne]
  by_cases herase : c = 8
  · rw [if_pos herase, if_pos herase]
    simp only
    cases hkept : kept.length with
    | zero =>
      -- Nothing to erase.
      obtain rfl := List.length_eq_zero_iff.mp hkept
      rw [if_neg (by rw [hpos, hkept]; decide)]
      exact ⟨hpos, hbuffer, hfree⟩
    | succ n =>
      rw [if_pos (by rw [hpos, hkept]; omega)]
      have hlength : kept.dropLast.length = n := by
        rw [List.length_dropLast, hkept]
        rfl
      refine ⟨by simp only [hlength]; omega, ?_, fun hmem => hfree (List.mem_of_mem_dropLast hmem)⟩
      -- The character erased stays in the buffer, past `pos`.
      rw [hkept, tableList, rowsFrom_append] at hbuffer
      have hdrop : (rowsFrom s.buffer 0 n ++ rowsFrom s.buffer (0 + n) 1).dropLast =
          rowsFrom s.buffer 0 n := List.dropLast_concat
      rw [hbuffer] at hdrop
      rw [hlength, hdrop]
      rfl
  · rw [if_neg herase, if_neg herase]
    by_cases htext : 32 ≤ c.toInt ∧ c.toInt ≤ 126
    · rw [if_pos htext, if_pos htext]
      have happend := tableList_append s.buffer kept.length c
      rw [hbuffer, ← hpos] at happend
      refine ⟨by simp only [List.length_append, List.length_singleton]; omega, ?_, ?_⟩
      · rw [List.length_append]
        exact happend
      · -- A NUL is not printable.
        intro hmem
        rcases List.mem_append.mp hmem with hold | hnew
        · exact hfree hold
        · obtain rfl := List.mem_singleton.mp hnew
          exact absurd htext (by decide)
    · -- Any other character is ignored.
      rw [if_neg htext, if_neg htext]
      exact ⟨hpos, hbuffer, hfree⟩

/-- The string in the buffer after the final NUL is stored at `pos`. -/
theorem Holds.string (h : Holds s kept) (hlt : (kept.length : Int) < maxLength) :
    bufferString (Function.update s.buffer s.pos 0) maxLength = kept := by
  obtain ⟨k, hk⟩ : ∃ k, maxLength.toNat = kept.length + 1 + k :=
    ⟨maxLength.toNat - (kept.length + 1), by omega⟩
  have happend := tableList_append s.buffer kept.length 0
  rw [h.buffer_eq, ← h.pos_eq] at happend
  rw [bufferString, hk, tableList, rowsFrom_append, ← tableList, happend, List.append_assoc]
  exact cstr_append_nul h.nul_free

/-- The loop is the line reader with the limit `max_length - 1`. -/
theorem getLineLoop_spec (h : Holds s kept) (hle : (kept.length : Int) ≤ maxLength - 1) :
    (getLineLoop maxLength s input).map (fun r => (bufferString r.buffer maxLength, r.rest)) =
      readLine lineKey (maxLength - 1).toNat kept input := by
  -- Over the input, with the line in the buffer.
  induction input generalizing s kept with
  | nil =>
    rw [getLineLoop, readLine]
    by_cases hroom : s.pos < maxLength - 1
    · rw [if_pos hroom, if_pos (by have := h.pos_eq; omega)]
      rfl
    · rw [if_neg hroom, if_neg (by have := h.pos_eq; omega)]
      rw [Option.map_some, h.string (by omega)]
  | cons c input ih =>
    rw [getLineLoop, readLine]
    by_cases hroom : s.pos < maxLength - 1
    · have hpos := h.pos_eq
      have hlt : kept.length < (maxLength - 1).toNat := by omega
      rw [if_pos hroom, if_pos hlt]
      by_cases hends : c = 10 ∨ c = 13
      · have hnul : c ≠ 0 := by
          rintro rfl
          exact absurd hends (by decide)
        have hkey : lineKey c = .ends := if_pos hends
        rw [if_neg hnul, if_pos hends, if_pos hkey, Option.map_some, h.string (by omega)]
      · have hkey : lineKey c ≠ .ends := by
          rw [lineKey, if_neg hends]
          split
          · decide
          · split <;> decide
        have hlen := editKey_length lineKey kept c
        rw [if_neg hkey]
        by_cases hnul : c = 0
        · -- No key: the line stays.
          have hsame : editKey lineKey kept c = kept := by
            rw [hnul]
            rfl
          rw [if_pos hnul, hsame]
          exact ih h hle
        · rw [if_neg hnul, if_neg hends]
          exact ih (h.step hkey) (by omega)
    · -- The buffer is full: the character stays in the input.
      rw [if_neg hroom, if_neg (by have := h.pos_eq; omega)]
      rw [Option.map_some, h.string (by omega)]

/-- A call that waits goes on from there when there is more. -/
theorem getLineLoop_append (h : getLineLoop maxLength s input = none) (more : List Byte) :
    getLineLoop maxLength s (input ++ more) = getLineLoop maxLength (waitingLine s input) more := by
  induction input generalizing s with
  | nil => rfl
  | cons c input ih =>
    rw [getLineLoop] at h
    rw [List.cons_append, getLineLoop, waitingLine, List.foldl_cons]
    by_cases hroom : s.pos < maxLength - 1
    · rw [if_pos hroom] at h ⊢
      by_cases hnul : c = 0
      · rw [if_pos hnul] at h
        rw [if_pos hnul, if_pos hnul]
        exact ih h
      · rw [if_neg hnul] at h
        rw [if_neg hnul, if_neg hnul]
        by_cases hends : c = 10 ∨ c = 13
        · rw [if_pos hends] at h
          cases h
        · rw [if_neg hends] at h ⊢
          exact ih h
    · rw [if_neg hroom] at h
      cases h

/-- `terminal_get_line` is the line reader. -/
theorem terminalGetLine_eq (buffer : Int → Byte) (hmax : 1 ≤ maxLength) (input : List Byte) :
    (terminalGetLine buffer maxLength input).map
        (fun r => (bufferString r.buffer maxLength, r.rest)) =
      readLine lineKey (maxLength - 1).toNat [] input := by
  apply getLineLoop_spec
  · exact ⟨rfl, rfl, List.not_mem_nil⟩
  · simp only [List.length_nil]
    omega

end KyroKernel
