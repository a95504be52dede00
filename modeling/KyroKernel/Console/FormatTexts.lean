import KyroKernel.Console.Formatters

/-!
# The text of a format

What `printf` prints for a format and its arguments, put together from its characters and the texts
of its conversions.
-/

namespace KyroKernel

open Foundations

/-- `Formats format args text`: the format stands for the text. -/
inductive Formats : List Byte → List VaArg → List Byte → Prop where
  | nil (args : List VaArg) : Formats [] args []
  | char {c : Byte} {format text : List Byte} {args : List VaArg} (hc : c ≠ ascii '%')
      (h : Formats format args text) : Formats (c :: format) args (c :: text)
  | conversion {c : Byte} {format converted text : List Byte} {args args' : List VaArg} {k : Int}
      (hconv : Converts c args args' converted k) (h : Formats format args' text) :
      Formats (ascii '%' :: c :: format) args (converted ++ text)

variable {format text s : List Byte} {args : List VaArg}

/-- The loop of `printf` prints the text. -/
theorem Formats.loop (h : Formats format args text) (p : PrintState) (hargs : p.args = args) :
    ∃ p', printfLoop format p = some p' ∧ p'.out = p.out ++ text := by
  induction h generalizing p with
  | nil => exact ⟨p, rfl, (List.append_nil _).symm⟩
  | @char c format text args hc _ ih =>
    obtain ⟨p', hloop, hout⟩ := ih ((p.putchar c).add 1) hargs
    refine ⟨p', by rw [printfLoop_char hc, hloop], ?_⟩
    rw [hout]
    exact List.append_assoc _ [c] _
  | @conversion c format converted text args args' k hconv _ ih =>
    subst hargs
    obtain ⟨p', hloop, hout⟩ := ih (({ p with args := args' }.puts converted).add k)
      (args_puts _ converted)
    refine ⟨p', ?_, ?_⟩
    · rw [printfLoop_percent, hconv.printf p, Option.bind_some, hloop]
    · rw [hout, ← List.append_assoc]
      exact congrArg (· ++ text) (out_puts _ converted)

theorem Formats.printed_eq (h : Formats format args text) : printed format args = text := by
  obtain ⟨p, hloop, hout⟩ := h.loop ⟨[], args, 0⟩ rfl
  rw [printed, printf, hloop]
  exact hout

/-- Characters between conversions. -/
theorem Formats.chars (hs : ascii '%' ∉ s) (h : Formats format args text) :
    Formats (s ++ format) args (s ++ text) := by
  induction s with
  | nil => exact h
  | cons c s ih =>
    obtain ⟨hc, hrest⟩ := not_or.mp (mt List.mem_cons.mpr hs)
    exact .char (Ne.symm hc) (ih hrest)

/-- A format without conversions. -/
theorem printed_of_plain (hs : ascii '%' ∉ s) (args : List VaArg) : printed s args = s := by
  have h := (Formats.nil args).chars hs
  rw [List.append_nil] at h
  exact h.printed_eq

end KyroKernel
