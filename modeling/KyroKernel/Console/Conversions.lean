import KyroKernel.Console.Printf
import KyroKernel.Foundations.Numerals

/-!
# Conversions

What a conversion writes, what it adds to the count and which arguments it leaves, said once for
`printf` and `vsprintf`. Numbers are written by two digit loops, as numerals.
-/

namespace KyroKernel

open Foundations

/-! ## The digit loop -/

/-- The loop stores the digits, and 32 bytes are enough for those of a 32-bit number. -/
theorem storeDigits_eq {base : Word} (hbase : 2 ≤ base.toNat) {room : Nat} {num : Word}
    (hnum : num.toNat < base.toNat ^ room) (temp : List Byte) :
    storeDigits base room num temp =
      some (((Nat.digits base.toNat num.toNat).map digitChar).reverse ++ temp) := by
  -- One byte of room for every digit.
  induction room generalizing num temp with
  | zero =>
    rw [Nat.pow_zero, Nat.lt_one_iff] at hnum
    have hzero : ¬ num > 0 := Nat.not_lt.mpr (Nat.le_of_eq hnum)
    rw [storeDigits, if_neg hzero, hnum, Nat.digits_zero]
    rfl
  | succ room ih =>
    rw [storeDigits]
    by_cases hpos : num > 0
    · have hpos' : 0 < num.toNat := hpos
      -- Dividing by the base drops one digit.
      have hdiv : (num / base).toNat < base.toNat ^ room := by
        rw [BitVec.toNat_udiv]
        apply Nat.div_lt_of_lt_mul
        rw [← Nat.pow_succ']
        exact hnum
      rw [if_pos hpos, ih hdiv, Nat.digits_def' hbase hpos', BitVec.toNat_udiv, BitVec.toNat_umod,
        List.map_cons, List.reverse_cons, List.append_assoc]
      rfl
    · have hzero : num.toNat = 0 := Nat.eq_zero_of_not_pos hpos
      rw [if_neg hpos, hzero, Nat.digits_zero]
      rfl

/-- A 32-bit number has at most 32 digits in any base. -/
theorem toNat_lt_pow {base : Word} (hbase : 2 ≤ base.toNat) (num : Word) :
    num.toNat < base.toNat ^ 32 :=
  Nat.lt_of_lt_of_le num.isLt (Nat.pow_le_pow_left hbase 32)

/-- `print_number` prints the numeral, -/
theorem printNumber_eq (s : PrintState) (num : Word) {base : Word} (hbase : 2 ≤ base.toNat) :
    printNumber s num base = some (s.puts (numeral base.toNat num.toNat)) := by
  unfold printNumber numeral
  by_cases hzero : num = 0
  · -- The digit loop would print nothing for 0.
    rw [if_pos hzero, hzero]
    rfl
  · have hne : num.toNat ≠ 0 := fun h => hzero (BitVec.eq_of_toNat_eq h)
    rw [if_neg hzero, if_neg hne, storeDigits_eq hbase (toNat_lt_pow hbase num), List.append_nil]
    rfl

/-- and `print_number_to_buffer` stores it. -/
theorem printNumberToBuffer_eq (s : SprintState) (num : Word) {base : Word}
    (hbase : 2 ≤ base.toNat) :
    printNumberToBuffer s num base = some (s.copy (numeral base.toNat num.toNat)) := by
  unfold printNumberToBuffer numeral
  by_cases hzero : num = 0
  · rw [if_pos hzero, hzero]
    rfl
  · have hne : num.toNat ≠ 0 := fun h => hzero (BitVec.eq_of_toNat_eq h)
    rw [if_neg hzero, if_neg hne, storeDigits_eq hbase (toNat_lt_pow hbase num), List.append_nil]
    rfl

/-! ## The switch -/

/-- The conversions of signed numbers. -/
def signedConversions : List Byte := [ascii 'd', ascii 'i']

/-- The conversions of unsigned numbers, each with its base. -/
def unsignedConversions : List (Byte × Word) := [(ascii 'u', 10), (ascii 'x', 16), (ascii 'X', 16)]

/-- The other characters that the `switch` has a case for. -/
def otherConversions : List Byte := [ascii 'p', ascii 'c', ascii 's', ascii '%']

/-- A signed number: of a negative one the sign and the number negated. -/
def signedText (n : Word) : List Byte :=
  if n.slt 0 then ascii '-' :: numeral 10 (-n).toNat else numeral 10 n.toNat

/-- The number that is printed after the sign. -/
theorem toInt_eq_ite (n : Word) :
    n.toInt = if n.slt 0 then -((-n).toNat : Int) else (n.toNat : Int) := by
  have hzero : (0 : Word).toInt = 0 := rfl
  have hcond := BitVec.toInt_eq_toNat_cond n
  have hlt := n.isLt
  simp only [BitVec.slt, hzero, decide_eq_true_eq, BitVec.toNat_neg]
  omega

/-- `Converts c args args' text k`: the conversion `c` takes the arguments up to `args'`, writes
`text` and counts `k` characters. -/
inductive Converts : Byte → List VaArg → List VaArg → List Byte → Int → Prop where
  | signed {c : Byte} (hc : c ∈ signedConversions) (n : Word) (args : List VaArg) :
      Converts c (.word n :: args) args (signedText n) (if n.slt 0 then 2 else 1)
  | unsigned {c : Byte} {base : Word} (hc : (c, base) ∈ unsignedConversions) (n : Word)
      (args : List VaArg) : Converts c (.word n :: args) args (numeral base.toNat n.toNat) 1
  | pointer (n : Word) (args : List VaArg) :
      Converts (ascii 'p') (.word n :: args) args
        (ascii '0' :: ascii 'x' :: numeral 16 n.toNat) 1
  | char (n : Word) (args : List VaArg) :
      Converts (ascii 'c') (.word n :: args) args [n.setWidth 8] 1
  | string (s : CString) (args : List VaArg) :
      Converts (ascii 's') (.string (some s) :: args) args s.toList 1
  | null (args : List VaArg) :
      Converts (ascii 's') (.string none :: args) args (chars "(null)") 1
  | percent (args : List VaArg) : Converts (ascii '%') args args [ascii '%'] 1
  | unknown {c : Byte} (hsigned : c ∉ signedConversions)
      (hunsigned : c ∉ unsignedConversions.map Prod.fst) (hother : c ∉ otherConversions)
      (args : List VaArg) : Converts c args args [ascii '%', c] 2

variable {c : Byte} {args args' : List VaArg} {text : List Byte} {k : Int}

/-- A conversion that takes a number finds one. -/
theorem exists_word (hargs : ConversionArgs c args args') (hc : takesWord c = true) :
    ∃ num, args = .word num :: args' := by
  rw [ConversionArgs, if_pos hc] at hargs
  exact hargs

/-- Matching arguments are converted. -/
theorem exists_converts (hargs : ConversionArgs c args args') :
    ∃ text k, Converts c args args' text k := by
  -- The cases of the `switch`, those that take a number first.
  by_cases hsigned : c ∈ signedConversions
  · have hall : ∀ c ∈ signedConversions, takesWord c = true := by decide
    obtain ⟨n, rfl⟩ := exists_word hargs (hall c hsigned)
    exact ⟨_, _, .signed hsigned n args'⟩
  by_cases hunsigned : c ∈ unsignedConversions.map Prod.fst
  · have hall : ∀ c ∈ unsignedConversions.map Prod.fst, takesWord c = true := by decide
    obtain ⟨n, rfl⟩ := exists_word hargs (hall c hunsigned)
    obtain ⟨⟨c, base⟩, hc, rfl⟩ := List.mem_map.mp hunsigned
    exact ⟨_, _, .unsigned hc n args'⟩
  by_cases hp : c = ascii 'p'
  · subst hp
    obtain ⟨n, rfl⟩ := exists_word hargs rfl
    exact ⟨_, _, .pointer n args'⟩
  by_cases hch : c = ascii 'c'
  · subst hch
    obtain ⟨n, rfl⟩ := exists_word hargs rfl
    exact ⟨_, _, .char n args'⟩
  -- No conversion that takes a number is left.
  have hword : takesWord c = false := by
    simp only [signedConversions, unsignedConversions, List.map_cons, List.map_nil, List.mem_cons,
      List.not_mem_nil, or_false, not_or] at hsigned hunsigned
    simp [takesWord, hsigned, hunsigned, hp, hch]
  rw [ConversionArgs, hword, if_neg Bool.false_ne_true] at hargs
  by_cases hs : c = ascii 's'
  · subst hs
    obtain ⟨s, rfl⟩ : ∃ s, args = .string s :: args' := hargs
    cases s with
    | none => exact ⟨_, _, .null args'⟩
    | some s => exact ⟨_, _, .string s args'⟩
  rw [if_neg hs] at hargs
  subst hargs
  by_cases hpercent : c = ascii '%'
  · subst hpercent
    exact ⟨_, _, .percent args⟩
  · refine ⟨_, _, .unknown hsigned hunsigned ?_ args⟩
    simp [otherConversions, hp, hch, hs, hpercent]

/-- The base of a conversion is one that numerals have. -/
theorem base_of_unsigned {base : Word} (hc : (c, base) ∈ unsignedConversions) :
    2 ≤ base.toNat ∧ base.toNat ≤ 16 := by
  simp only [unsignedConversions, List.mem_cons, List.not_mem_nil, or_false, Prod.mk.injEq] at hc
  rcases hc with ⟨-, rfl⟩ | ⟨-, rfl⟩ | ⟨-, rfl⟩ <;> decide

theorem PrintState.puts_add (s : PrintState) (n : Int) (text : List Byte) :
    (s.add n).puts text = (s.puts text).add n := by
  induction text generalizing s with
  | nil => rfl
  | cons c text ih => exact ih (s.putchar c)

theorem SprintState.copy_add (s : SprintState) (n : Int) (text : List Byte) :
    (s.add n).copy text = (s.copy text).add n := by
  induction text generalizing s with
  | nil => rfl
  | cons c text ih => exact ih (s.store c)

theorem PrintState.add_add (s : PrintState) (m n : Int) : (s.add m).add n = s.add (m + n) := by
  simp [PrintState.add, Int.add_assoc]

theorem SprintState.add_add (s : SprintState) (m n : Int) : (s.add m).add n = s.add (m + n) := by
  simp [SprintState.add, Int.add_assoc]

/-- `printf` prints the text and adds to the count. -/
theorem Converts.printf (h : Converts c args args' text k) (p : PrintState) :
    printfConversion { p with args := args } c =
      some (({ p with args := args' }.puts text).add k) := by
  cases h with
  | signed hc n =>
    -- The number without its sign, after the sign.
    have hswitch : printfConversion { p with args := .word n :: args' } c =
        (printNumber
          (if n.slt 0 then (-n, ({ p with args := args' }.putchar (ascii '-')).add 1)
            else (n, { p with args := args' })).2
          (if n.slt 0 then (-n, ({ p with args := args' }.putchar (ascii '-')).add 1)
            else (n, { p with args := args' })).1 10).bind fun s => some (s.add 1) := by
      simp only [signedConversions, List.mem_cons, List.not_mem_nil, or_false] at hc
      rcases hc with rfl | rfl <;> rfl
    rw [hswitch, printNumber_eq _ _ (by decide), Option.bind_some, signedText]
    by_cases hneg : n.slt 0
    · -- `count++` for the sign comes before the digits.
      rw [if_pos hneg, if_pos hneg, if_pos hneg, PrintState.puts_add, PrintState.add_add]
      rfl
    · rw [if_neg hneg, if_neg hneg, if_neg hneg]
      rfl
  | @unsigned c base hc n =>
    have hswitch : printfConversion { p with args := .word n :: args' } c =
        (printNumber { p with args := args' } n base).bind fun s => some (s.add 1) := by
      simp only [unsignedConversions, List.mem_cons, List.not_mem_nil, or_false,
        Prod.mk.injEq] at hc
      rcases hc with ⟨rfl, rfl⟩ | ⟨rfl, rfl⟩ | ⟨rfl, rfl⟩ <;> rfl
    rw [hswitch, printNumber_eq _ _ (base_of_unsigned hc).1]
    rfl
  | pointer n =>
    -- The prefix is printed before the argument is taken.
    have hswitch : printfConversion { p with args := .word n :: args' } (ascii 'p') =
        (printNumber (({ p with args := args' }.putchar (ascii '0')).putchar (ascii 'x')) n 16).bind
          fun s => some (s.add 1) := rfl
    rw [hswitch, printNumber_eq _ _ (by decide)]
    rfl
  | char n => rfl
  | string s => rfl
  | null => rfl
  | percent => rfl
  | unknown hsigned hunsigned hother =>
    -- `default`: no case of the `switch` is for this character.
    simp only [signedConversions, unsignedConversions, otherConversions, List.map_cons,
      List.map_nil, List.mem_cons, List.not_mem_nil, or_false, not_or] at hsigned hunsigned hother
    simp [printfConversion, hsigned, hunsigned, hother, PrintState.puts]

/-- `vsprintf` stores the text and adds to the count. -/
theorem Converts.vsprintf (h : Converts c args args' text k) (v : SprintState) :
    vsprintfConversion { v with args := args } c =
      some (({ v with args := args' }.copy text).add k) := by
  cases h with
  | signed hc n =>
    have hswitch : vsprintfConversion { v with args := .word n :: args' } c =
        (printNumberToBuffer
          (if n.slt 0 then (-n, ({ v with args := args' }.store (ascii '-')).add 1)
            else (n, { v with args := args' })).2
          (if n.slt 0 then (-n, ({ v with args := args' }.store (ascii '-')).add 1)
            else (n, { v with args := args' })).1 10).bind fun s => some (s.add 1) := by
      simp only [signedConversions, List.mem_cons, List.not_mem_nil, or_false] at hc
      rcases hc with rfl | rfl <;> rfl
    rw [hswitch, printNumberToBuffer_eq _ _ (by decide), Option.bind_some, signedText]
    by_cases hneg : n.slt 0
    · rw [if_pos hneg, if_pos hneg, if_pos hneg, SprintState.copy_add, SprintState.add_add]
      rfl
    · rw [if_neg hneg, if_neg hneg, if_neg hneg]
      rfl
  | @unsigned c base hc n =>
    have hswitch : vsprintfConversion { v with args := .word n :: args' } c =
        (printNumberToBuffer { v with args := args' } n base).bind fun s => some (s.add 1) := by
      simp only [unsignedConversions, List.mem_cons, List.not_mem_nil, or_false,
        Prod.mk.injEq] at hc
      rcases hc with ⟨rfl, rfl⟩ | ⟨rfl, rfl⟩ | ⟨rfl, rfl⟩ <;> rfl
    rw [hswitch, printNumberToBuffer_eq _ _ (base_of_unsigned hc).1]
    rfl
  | pointer n =>
    have hswitch : vsprintfConversion { v with args := .word n :: args' } (ascii 'p') =
        (printNumberToBuffer (({ v with args := args' }.store (ascii '0')).store (ascii 'x'))
          n 16).bind fun s => some (s.add 1) := rfl
    rw [hswitch, printNumberToBuffer_eq _ _ (by decide)]
    rfl
  | char n => rfl
  | string s => rfl
  | null => rfl
  | percent => rfl
  | unknown hsigned hunsigned hother =>
    simp only [signedConversions, unsignedConversions, otherConversions, List.map_cons,
      List.map_nil, List.mem_cons, List.not_mem_nil, or_false, not_or] at hsigned hunsigned hother
    simp [vsprintfConversion, hsigned, hunsigned, hother, SprintState.copy]

end KyroKernel
