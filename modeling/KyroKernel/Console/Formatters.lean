import KyroKernel.Console.Conversions

/-!
# One formatter, written twice

`vsprintf` stores what `printf` passes to `putchar`. The two are followed step by step: what
is in the buffer so far is what was printed so far.
-/

namespace KyroKernel

open Foundations

/-- The buffer holds what was printed, and both have the same arguments left and the same
count. -/
structure Agree (p : PrintState) (v : SprintState) : Prop where
  buffer : v.buffer = p.out.length
  stored : ∀ i, (h : i < p.out.length) → v.str i = p.out[i]
  args : v.args = p.args
  count : v.count = p.count

variable {p : PrintState} {v : SprintState} {c : Byte} {args args' : List VaArg}

namespace Agree

/-- One character. -/
theorem put (h : Agree p v) (c : Byte) : Agree (p.putchar c) (v.store c) where
  buffer := by simp [PrintState.putchar, SprintState.store, h.buffer]
  stored := by
    intro i hi
    simp only [PrintState.putchar, List.length_append, List.length_singleton] at hi
    simp only [PrintState.putchar, SprintState.store, h.buffer]
    by_cases hlast : i = p.out.length
    · -- The character just stored.
      subst hlast
      simp
    · have hlt : i < p.out.length := by omega
      rw [Function.update_of_ne hlast, List.getElem_append_left hlt]
      exact h.stored i hlt
  args := h.args
  count := h.count

/-- A string. -/
theorem puts (h : Agree p v) (str : List Byte) : Agree (p.puts str) (v.copy str) := by
  induction str generalizing p v with
  | nil => exact h
  | cons c str ih => exact ih (h.put c)

theorem add (h : Agree p v) (n : Int) : Agree (p.add n) (v.add n) :=
  ⟨h.buffer, h.stored, h.args, congrArg (· + n) h.count⟩

/-- Taking the same arguments. -/
theorem setArgs (h : Agree p v) (args : List VaArg) :
    Agree { p with args := args } { v with args := args } :=
  ⟨h.buffer, h.stored, rfl, h.count⟩

end Agree

theorem args_puts (p : PrintState) (str : List Byte) : (p.puts str).args = p.args := by
  induction str generalizing p with
  | nil => rfl
  | cons c str ih => exact ih (p.putchar c)

theorem out_puts (p : PrintState) (str : List Byte) : (p.puts str).out = p.out ++ str := by
  induction str generalizing p with
  | nil => exact (List.append_nil _).symm
  | cons c str ih =>
    have h := ih (p.putchar c)
    rw [PrintState.putchar, List.append_assoc] at h
    exact h

theorem count_puts (p : PrintState) (str : List Byte) : (p.puts str).count = p.count := by
  induction str generalizing p with
  | nil => rfl
  | cons c str ih => exact ih (p.putchar c)

/-- `printf("%s\n", str)` prints the string and a newline. -/
theorem printf_line (str : CString) :
    ∃ p, printf (chars "%s\n") [.string (some str)] = some p ∧ p.out = str.toList ++ chars "\n" := by
  have hformat : chars "%s\n" = [ascii '%', ascii 's', ascii '\n'] := rfl
  have hnewline : ascii '\n' ≠ ascii '%' := by decide
  rw [printf, hformat, printfLoop_percent]
  refine ⟨_, rfl, ?_⟩
  have hout := out_puts ⟨[], [], 0⟩ str.toList
  rw [List.nil_append] at hout
  exact congrArg (· ++ [ascii '\n']) hout

/-! ## Conversions -/

/-- Every conversion has the same effect in both. -/
theorem Agree.conversion (h : Agree p v) (hargs : ConversionArgs c p.args args') :
    ∃ p' v', printfConversion p c = some p' ∧ vsprintfConversion v c = some v' ∧ Agree p' v' ∧
      p'.args = args' := by
  obtain ⟨text, k, hconv⟩ := exists_converts hargs
  have hv : v = { v with args := p.args } := by rw [← h.args]
  rw [hv]
  exact ⟨_, _, hconv.printf p, hconv.vsprintf v, ((h.setArgs args').puts text).add k,
    args_puts _ text⟩

/-- The loops agree on every format whose arguments match. -/
theorem Agree.loop {format : List Byte} (hformat : FormatArgs format args) (h : Agree p v)
    (hargs : p.args = args) :
    ∃ p' v', printfLoop format p = some p' ∧ vsprintfLoop format v = some v' ∧ Agree p' v' := by
  -- Over the format as it is divided into characters and conversions.
  induction hformat generalizing p v with
  | nil _ => exact ⟨p, v, rfl, rfl, h⟩
  | char hc _ ih =>
    rw [printfLoop_char hc, vsprintfLoop_char hc]
    exact ih ((h.put _).add 1) hargs
  | conversion hconv _ ih =>
    rw [← hargs] at hconv
    obtain ⟨p₁, v₁, hp₁, hv₁, h₁, hargs₁⟩ := h.conversion hconv
    rw [printfLoop_percent, vsprintfLoop_percent, hp₁, hv₁]
    exact ih h₁ hargs₁

/-- The loops from the start of the two calls. -/
theorem loops_agree {format : List Byte} (hformat : FormatArgs format args) (str : Nat → Byte) :
    ∃ p v, printfLoop format ⟨[], args, 0⟩ = some p ∧
      vsprintfLoop format ⟨str, 0, args, 0⟩ = some v ∧ Agree p v := by
  have hstart : Agree ⟨[], args, 0⟩ ⟨str, 0, args, 0⟩ :=
    ⟨rfl, fun _ h => absurd h (Nat.not_lt_zero _), rfl, rfl⟩
  exact hstart.loop hformat rfl

/-- The final NUL comes after the characters. -/
theorem Agree.terminated (h : Agree p v) :
    (∀ i, (hi : i < p.out.length) → Function.update v.str v.buffer 0 i = p.out[i]) ∧
      Function.update v.str v.buffer 0 v.buffer = 0 := by
  refine ⟨fun i hi => ?_, Function.update_self _ _ _⟩
  have hne : i ≠ v.buffer := by
    rw [h.buffer]
    exact Nat.ne_of_lt hi
  rw [Function.update_of_ne hne]
  exact h.stored i hi

/-- `vsprintf` stores the characters `printf` prints and a final NUL after them; both leave the
same arguments and return the same count. -/
theorem printf_eq_vsprintf {format : List Byte} (hformat : FormatArgs format args)
    (str : Nat → Byte) :
    ∃ p v, printf format args = some p ∧ vsprintf str format args = some v ∧
      v.buffer = p.out.length ∧ (∀ i, (h : i < p.out.length) → v.str i = p.out[i]) ∧
      v.str v.buffer = 0 ∧ v.args = p.args ∧ v.count = p.count := by
  obtain ⟨p, v, hp, hv, h⟩ := loops_agree hformat str
  obtain ⟨hstored, hnul⟩ := h.terminated
  refine ⟨p, { v with str := Function.update v.str v.buffer 0 }, hp, ?_, h.buffer, hstored, hnul,
    h.args, h.count⟩
  rw [vsprintf, hv]
  rfl

/-- The most negative number and a NULL string. -/
theorem printf_eq_vsprintf_example :
    ∃ p v, printf (chars "%d%s") [.word 0x80000000, .string none] = some p ∧
      vsprintf (fun _ => 0) (chars "%d%s") [.word 0x80000000, .string none] = some v ∧
      v.buffer = p.out.length ∧ (∀ i, (h : i < p.out.length) → v.str i = p.out[i]) ∧
      v.str v.buffer = 0 ∧ v.args = p.args ∧ v.count = p.count :=
  printf_eq_vsprintf
    (.conversion (c := ascii 'd') ⟨0x80000000, rfl⟩
      (.conversion (c := ascii 's') ⟨none, rfl⟩ (.nil [])))
    fun _ => 0

end KyroKernel
