import KyroKernel.Console.Formatters

/-!
# Returned counts

`printf` and `vsprintf` add up a count by hand and return it. A conversion counts one character for
a number or a string of any length, so the count is less than the length of the output where there
are longer ones, and greater where there are empty ones.
-/

namespace KyroKernel

open Foundations

/-! ## Section 1: The formatters -/

/-- `sprintf`, which passes its arguments on as a `va_list`. -/
def sprintf (str : Nat → Byte) (format : List Byte) (args : List VaArg) : Option SprintState :=
  vsprintf str format args

/-- A `FILE`: the memory that `buffer` points to. -/
structure FILE where
  buffer : Nat → Byte

/-- `fprintf`, which stores at `fp->buffer`. -/
def fprintf (fp : FILE) (format : List Byte) (args : List VaArg) : Option SprintState :=
  vsprintf fp.buffer format args

/-- The result is the number of characters stored before the final NUL. -/
def CountsStored (v : SprintState) : Prop := v.str v.buffer = 0 ∧ v.count = v.buffer

/-- Every formatter returns the length of its output. -/
structure ReturnsLength (format : List Byte) (args : List VaArg) : Prop where
  printed : ∃ p, printf format args = some p ∧ p.count = p.out.length
  stored : ∀ str, ∃ v, vsprintf str format args = some v ∧ CountsStored v
  string : ∀ str, ∃ v, sprintf str format args = some v ∧ CountsStored v
  file : ∀ fp, ∃ v, fprintf fp format args = some v ∧ CountsStored v

/-! ## Section 2: What is not counted -/

/-- The characters of a number after the first; a minus sign is counted, the `0x` of a pointer is
not. -/
def extraDigits (c : Byte) (n : Word) : Nat :=
  if c ∈ signedConversions then Nat.log 10 n.toInt.natAbs
  else if c = ascii 'u' then Nat.log 10 n.toNat
  else if c = ascii 'x' ∨ c = ascii 'X' then Nat.log 16 n.toNat
  else if c = ascii 'p' then Nat.log 16 n.toNat + 2
  else 0

/-- The characters that the conversion `c` of the first argument does not count. -/
def extraChars (c : Byte) : List VaArg → Nat
  | .word n :: _ => extraDigits c n
  | .string (some s) :: _ => if c = ascii 's' then s.toList.length - 1 else 0
  | .string none :: _ => if c = ascii 's' then 5 else 0
  | [] => 0

/-- An empty string is counted as one character. -/
def emptyStrings (c : Byte) : List VaArg → Nat
  | .string (some s) :: _ => if c = ascii 's' ∧ s.toList = [] then 1 else 0
  | _ => 0

/-- The arguments that the conversion `c` leaves. -/
def argsAfter (c : Byte) (args : List VaArg) : List VaArg :=
  if takesWord c ∨ c = ascii 's' then args.tail else args

/-- The sum of `f` over the conversions of the format. -/
def sumConversions (f : Byte → List VaArg → Nat) : List Byte → List VaArg → Nat
  | [], _ => 0
  | c :: format, args =>
    if c = ascii '%' then
      match format with
      | [] => 0
      | d :: format => f d args + sumConversions f format (argsAfter d args)
    else sumConversions f format args

variable {f : Byte → List VaArg → Nat} {c : Byte} {format text : List Byte} {args args' : List VaArg}
  {k : Int} {p p' : PrintState}

theorem sumConversions_char (hc : c ≠ ascii '%') :
    sumConversions f (c :: format) args = sumConversions f format args := by
  rw [sumConversions.eq_def]
  exact if_neg hc

theorem sumConversions_percent :
    sumConversions f (ascii '%' :: c :: format) args =
      f c args + sumConversions f format (argsAfter c args) := by
  rw [sumConversions.eq_def]
  exact if_pos rfl

theorem argsAfter_eq (hargs : ConversionArgs c args args') : argsAfter c args = args' := by
  unfold ConversionArgs at hargs
  unfold argsAfter
  by_cases hword : takesWord c
  · rw [if_pos hword] at hargs
    obtain ⟨n, rfl⟩ := hargs
    rw [if_pos (.inl hword)]
    rfl
  rw [if_neg hword] at hargs
  by_cases hs : c = ascii 's'
  · rw [if_pos hs] at hargs
    obtain ⟨s, rfl⟩ := hargs
    rw [if_pos (.inr hs)]
    rfl
  · rw [if_neg hs] at hargs
    rw [if_neg (not_or.mpr ⟨hword, hs⟩)]
    exact hargs

/-- A character that is no conversion of an argument. -/
theorem extra_of_noArgument (hsigned : c ∉ signedConversions)
    (hunsigned : c ∉ unsignedConversions.map Prod.fst) (hp : c ≠ ascii 'p') (hs : c ≠ ascii 's')
    (args : List VaArg) : extraChars c args = 0 ∧ emptyStrings c args = 0 := by
  simp only [unsignedConversions, List.map_cons, List.map_nil, List.mem_cons, List.not_mem_nil,
    or_false, not_or] at hunsigned
  rcases args with _ | ⟨n | s | s, args⟩ <;>
    simp [extraChars, emptyStrings, extraDigits, hsigned, hunsigned, hp, hs]

/-- The text of a signed number, of which the sign and one digit are counted. -/
theorem length_signedText (n : Word) :
    ((signedText n).length : Int) =
      (if n.slt 0 then 2 else 1) + (Nat.log 10 n.toInt.natAbs : Nat) := by
  have hbase : 2 ≤ 10 := by decide
  rw [signedText, toInt_eq_ite]
  by_cases hneg : n.slt 0
  · rw [if_pos hneg, if_pos hneg, if_pos hneg, List.length_cons, length_numeral hbase,
      Int.natAbs_neg, Int.natAbs_natCast]
    omega
  · rw [if_neg hneg, if_neg hneg, if_neg hneg, length_numeral hbase, Int.natAbs_natCast]
    omega

/-- The text of a conversion against what the conversion counts. -/
theorem Converts.length (h : Converts c args args' text k) :
    (text.length : Int) + emptyStrings c args = k + extraChars c args := by
  cases h with
  | signed hc n =>
    -- No string is taken.
    rw [length_signedText, extraChars, extraDigits, if_pos hc]
    exact Int.add_zero _
  | unsigned hc n =>
    simp only [unsignedConversions, List.mem_cons, List.not_mem_nil, or_false,
      Prod.mk.injEq] at hc
    rcases hc with ⟨rfl, rfl⟩ | ⟨rfl, rfl⟩ | ⟨rfl, rfl⟩ <;>
    · rw [length_numeral (by decide)]
      simp [extraChars, extraDigits, emptyStrings, signedConversions, ascii]
      omega
  | pointer n =>
    -- The `0x` and all digits but one.
    rw [List.length_cons, List.length_cons, length_numeral (by decide)]
    simp [extraChars, extraDigits, emptyStrings, signedConversions, ascii]
    omega
  | char n => rfl
  | string s =>
    rw [extraChars, emptyStrings, if_pos rfl]
    by_cases hempty : s.toList = []
    · -- Nothing is written, and one character is counted.
      rw [if_pos ⟨rfl, hempty⟩, hempty]
      rfl
    · have hpos := List.length_pos_iff.mpr hempty
      rw [if_neg fun h => hempty h.2]
      omega
  | null => rfl
  | percent =>
    obtain ⟨hextra, hempty⟩ := extra_of_noArgument (c := ascii '%') (by decide) (by decide)
      (by decide) (by decide) args
    rw [hextra, hempty]
    rfl
  | unknown hsigned hunsigned hother =>
    have hp : c ≠ ascii 'p' := fun h => hother (by rw [h]; decide)
    have hs : c ≠ ascii 's' := fun h => hother (by rw [h]; decide)
    obtain ⟨hextra, hempty⟩ := extra_of_noArgument hsigned hunsigned hp hs args
    rw [hextra, hempty]
    rfl

/-! ## Section 3: The counts of whole formats -/

/-- A conversion is at least two characters of the format, and counts at most two. -/
theorem Converts.count_le (h : Converts c args args' text k) : 0 ≤ k ∧ k ≤ 2 := by
  cases h with
  | signed hc n => split <;> decide
  | _ => decide

/-- The loop of `printf`: the length of its output and the count together, and how far the count
goes. -/
theorem printfLoop_counts (hformat : FormatArgs format args) (hargs : p.args = args)
    (h : printfLoop format p = some p') :
    (p'.out.length : Int) + sumConversions emptyStrings format args + p.count =
        p'.count + sumConversions extraChars format args + p.out.length ∧
      p.count ≤ p'.count ∧ p'.count ≤ p.count + format.length := by
  -- Over the format as it is divided into characters and conversions.
  induction hformat generalizing p with
  | nil _ =>
    obtain rfl := Option.some.inj h
    simp only [sumConversions, List.length_nil]
    omega
  | char hc _ ih =>
    rw [printfLoop_char hc] at h
    have hloop := ih (p := (p.putchar _).add 1) hargs h
    simp only [PrintState.putchar, PrintState.add, List.length_append, List.length_singleton]
      at hloop
    rw [sumConversions_char hc, sumConversions_char hc, List.length_cons]
    omega
  | @conversion c format args args' hconv _ ih =>
    obtain ⟨text, k, hconverts⟩ := exists_converts hconv
    have hp : p = { p with args := args } := by rw [← hargs]
    rw [hp, printfLoop_percent, hconverts.printf, Option.bind_some] at h
    have hloop := ih (args_puts _ text) h
    -- What this conversion leaves out, and what the rest of the format does.
    have hlength := hconverts.length
    have hk := hconverts.count_le
    simp only [PrintState.add, out_puts, count_puts, List.length_append] at hloop
    rw [sumConversions_percent, sumConversions_percent, argsAfter_eq hconv, List.length_cons,
      List.length_cons]
    omega

/-- The output of `printf` and its result. -/
theorem printf_length (hformat : FormatArgs format args) :
    ∃ p, printf format args = some p ∧
      (p.out.length : Int) + sumConversions emptyStrings format args =
        p.count + sumConversions extraChars format args := by
  obtain ⟨p, -, hp, -, -⟩ := loops_agree hformat fun _ => 0
  obtain ⟨hlength, -⟩ := printfLoop_counts (p := ⟨[], args, 0⟩) hformat rfl hp
  refine ⟨p, hp, ?_⟩
  simp only [List.length_nil] at hlength
  omega

/-- The count is at most the length of the format, and so an `int` for every format of less than
2^31 characters. -/
theorem printf_count_le (hformat : FormatArgs format args) :
    ∃ p, printf format args = some p ∧ 0 ≤ p.count ∧ p.count ≤ format.length := by
  obtain ⟨p, -, hp, -, -⟩ := loops_agree hformat fun _ => 0
  obtain ⟨-, hcount⟩ := printfLoop_counts (p := ⟨[], args, 0⟩) hformat rfl hp
  simp only [Int.zero_add] at hcount
  exact ⟨p, hp, hcount⟩

/-- What `vsprintf` returns when `printf` returns the length. -/
theorem countsStored_of_printf (hformat : FormatArgs format args) (hp : printf format args = some p)
    (hcount : p.count = p.out.length) (str : Nat → Byte) :
    ∃ v, vsprintf str format args = some v ∧ CountsStored v := by
  obtain ⟨p', v, hp', hv, h⟩ := loops_agree hformat str
  obtain rfl := Option.some.inj (hp.symm.trans hp')
  obtain ⟨-, hnul⟩ := h.terminated
  refine ⟨{ v with str := Function.update v.str v.buffer 0 }, ?_, hnul, ?_⟩
  · rw [vsprintf, hv]
    rfl
  · rw [h.count, hcount, h.buffer]

/-- The formatters return the length of their output just when the characters that are not counted
are as many as the empty strings, each of which is counted as a character. -/
theorem returnsLength_iff (hformat : FormatArgs format args) :
    ReturnsLength format args ↔
      sumConversions extraChars format args = sumConversions emptyStrings format args := by
  obtain ⟨p, hp, hlength⟩ := printf_length hformat
  constructor
  · rintro ⟨⟨p', hp', hcount⟩, -, -, -⟩
    obtain rfl := Option.some.inj (hp.symm.trans hp')
    omega
  · intro hextra
    have hcount : p.count = p.out.length := by omega
    have hstored := countsStored_of_printf hformat hp hcount
    exact ⟨⟨p, hp, hcount⟩, hstored, hstored, fun fp => hstored fp.buffer⟩

/-- Two digits and an empty string: the digit not counted makes up for the string. -/
theorem returnsLength_iff_makesUp :
    ReturnsLength (chars "%d%s") [.word 42, .string (some ⟨[], List.not_mem_nil⟩)] :=
  (returnsLength_iff (.conversion (c := ascii 'd') ⟨42, rfl⟩
    (.conversion (c := ascii 's') ⟨_, rfl⟩ (.nil [])))).mpr (by decide)

/-- `printf("%u", 10)` prints two characters and returns 1. -/
theorem not_forall_returnsLength :
    ¬ ∀ format args, FormatArgs format args → ReturnsLength format args := by
  intro h
  have hformat : FormatArgs (chars "%u") [.word 10] :=
    .conversion (c := ascii 'u') ⟨10, rfl⟩ (.nil [])
  have hprintf : printf (chars "%u") [.word 10] = some ⟨chars "10", [], 1⟩ := rfl
  obtain ⟨p, hp, hcount⟩ := (h _ _ hformat).printed
  obtain rfl := Option.some.inj (hprintf.symm.trans hp)
  revert hcount
  decide

end KyroKernel
