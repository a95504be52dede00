import KyroKernel.Console.Conversions

/-!
# Printed numbers

What `vsprintf` stores for a number reads back as the number, for signed numbers the most negative
one included.
-/

namespace KyroKernel

open Foundations

/-! ## The text in the buffer -/

/-- From `s` to `s'` the text was stored at `buffer`. -/
structure Stored (s : SprintState) (text : List Byte) (s' : SprintState) : Prop where
  buffer : s'.buffer = s.buffer + text.length
  stored : ∀ i, (h : i < text.length) → s'.str (s.buffer + i) = text[i]
  kept : ∀ i, i < s.buffer ∨ s.buffer + text.length ≤ i → s'.str i = s.str i

/-- The text reads back as the number, and its digits fit in the array of the digit loop. -/
structure NumberText (base n : Nat) (text : List Byte) : Prop extends IsNumeral base text n where
  length_le : text.length ≤ 32

theorem stored_copy (s : SprintState) (text : List Byte) : Stored s text (s.copy text) := by
  induction text generalizing s with
  | nil => exact ⟨rfl, fun i h => absurd h (Nat.not_lt_zero i), fun _ _ => rfl⟩
  | cons c text ih =>
    obtain ⟨hbuffer, hstored, hkept⟩ := ih (s.store c)
    have hnext : (s.store c).buffer = s.buffer + 1 := rfl
    rw [hnext] at hbuffer hkept
    refine ⟨?_, fun i h => ?_, fun i hi => ?_⟩
    · show ((s.store c).copy text).buffer = _
      rw [hbuffer, List.length_cons]
      omega
    · show ((s.store c).copy text).str _ = _
      cases i with
      | zero =>
        -- The first character is not overwritten by the rest.
        rw [Nat.add_zero, hkept _ (.inl (Nat.lt_succ_self _))]
        exact Function.update_self ..
      | succ i =>
        have hi := hstored i (Nat.lt_of_succ_lt_succ h)
        rw [hnext, Nat.add_assoc, Nat.add_comm 1] at hi
        exact hi
    · show ((s.store c).copy text).str i = _
      rw [List.length_cons] at hi
      rw [hkept i (by omega)]
      exact Function.update_of_ne (by omega) ..

theorem Stored.add {s s' : SprintState} {text : List Byte} (h : Stored s text s') (n : Int) :
    Stored s text (s'.add n) := ⟨h.buffer, h.stored, h.kept⟩

/-- Taking an argument first. -/
theorem Stored.of_setArgs {s s' : SprintState} {text : List Byte} {args : List VaArg}
    (h : Stored { s with args := args } text s') : Stored s text s' :=
  ⟨h.buffer, h.stored, h.kept⟩

theorem numberText_numeral {base : Nat} (hlo : 2 ≤ base) (hhi : base ≤ 16) (n : Word) :
    NumberText base n.toNat (numeral base n.toNat) := by
  refine ⟨isNumeral_numeral hlo hhi n.toNat, ?_⟩
  rw [length_numeral hlo]
  apply Nat.succ_le_of_lt
  by_cases hn : n.toNat = 0
  · rw [hn, Nat.log_zero_right]
    decide
  · exact Nat.log_lt_of_lt_pow hn (Nat.lt_of_lt_of_le n.isLt (Nat.pow_le_pow_left hlo 32))

/-- The text of a signed number reads back as it. -/
theorem readInteger_signedText (n : Word) : readInteger 10 (signedText n) = some n.toInt := by
  rw [signedText, toInt_eq_ite]
  by_cases hneg : n.slt 0
  · rw [if_pos hneg, if_pos hneg]
    exact readInteger_minus (by decide) (by decide) _
  · rw [if_neg hneg, if_neg hneg]
    exact readInteger_numeral (by decide) (by decide) _

/-- The loop of `vsprintf` goes on behind the text that a conversion stored. -/
theorem Converts.stored {c : Byte} {args args' : List VaArg} {text : List Byte} {k : Int}
    (h : Converts c args args' text k) (s : SprintState) :
    ∃ s', (∀ format, vsprintfLoop (ascii '%' :: c :: format) { s with args := args } =
      vsprintfLoop format s') ∧ Stored s text s' := by
  refine ⟨_, fun format => ?_, ((stored_copy { s with args := args' } text).add k).of_setArgs⟩
  rw [vsprintfLoop_percent, h.vsprintf]
  rfl

/-- `%u`, `%x` and `%X` store a numeral that reads back as the number, `%d` and `%i` a text that
reads back as the signed number, at any place of any format. -/
theorem numbers_readBack (s : SprintState) (n : Word) (args : List VaArg) :
    (∀ c base, (c, base) ∈ unsignedConversions →
      ∃ s' text, (∀ format, vsprintfLoop (ascii '%' :: c :: format)
          { s with args := .word n :: args } = vsprintfLoop format s') ∧
        Stored s text s' ∧ NumberText base.toNat n.toNat text) ∧
    ∀ c ∈ signedConversions,
      ∃ s' text, (∀ format, vsprintfLoop (ascii '%' :: c :: format)
          { s with args := .word n :: args } = vsprintfLoop format s') ∧
        Stored s text s' ∧ readInteger 10 text = some n.toInt := by
  constructor
  · intro c base hc
    obtain ⟨s', hloop, hstored⟩ := (Converts.unsigned hc n args).stored s
    obtain ⟨hlo, hhi⟩ := base_of_unsigned hc
    exact ⟨s', _, hloop, hstored, numberText_numeral hlo hhi n⟩
  · intro c hc
    obtain ⟨s', hloop, hstored⟩ := (Converts.signed hc n args).stored s
    exact ⟨s', _, hloop, hstored, readInteger_signedText n⟩

end KyroKernel
