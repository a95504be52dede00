import KyroKernel.Foundations.CString
import Mathlib.Data.Nat.Digits.Lemmas

/-!
# Numerals

Numbers as text in a base of at most 16, the most significant digit first, and the reader that
takes such a text back to its number. A numeral has only digits of its base and no superfluous
zero in front, and its length is the logarithm of the number.
-/

namespace KyroKernel.Foundations

/-! ## Writing and reading -/

/-- The character of a digit. -/
def digitChar (d : Nat) : Byte := (chars "0123456789ABCDEF").getD d 0

/-- The numeral of `n`. -/
def numeral (base n : Nat) : List Byte :=
  if n = 0 then [digitChar 0] else ((Nat.digits base n).map digitChar).reverse

/-- The value of a digit, `0` to `9` and `A` to `F`. -/
def digitValue (c : Byte) : Option Nat :=
  if 48 ≤ c.toNat ∧ c.toNat ≤ 57 then some (c.toNat - 48)
  else if 65 ≤ c.toNat ∧ c.toNat ≤ 70 then some (c.toNat - 55)
  else none

/-- Read one more digit of the base. -/
def readDigit (base v : Nat) (c : Byte) : Option Nat :=
  (digitValue c).bind fun d => if d < base then some (v * base + d) else none

/-- The number a text stands for, `none` if it has a character that is no digit of the base. -/
def readNumber (base : Nat) (text : List Byte) : Option Nat := text.foldlM (readDigit base) 0

/-- The same with a sign in front of negative numbers. -/
def readInteger (base : Nat) (text : List Byte) : Option Int :=
  if text.head? = some (ascii '-') then (readNumber base text.tail).map fun n => -(n : Int)
  else (readNumber base text).map fun n => (n : Int)

/-- `text` stands for `n`, with no superfluous zero in front. -/
structure IsNumeral (base : Nat) (text : List Byte) (n : Nat) : Prop where
  read : readNumber base text = some n
  ne_nil : text ≠ []
  no_leading_zero : text.head? = some (ascii '0') → text = [ascii '0']

variable {base n : Nat}

/-! ## Digits -/

theorem digitValue_digitChar {d : Nat} (hd : d < 16) : digitValue (digitChar d) = some d := by
  revert d
  decide

theorem readDigit_digitChar {d : Nat} (hbase : base ≤ 16) (hd : d < base) (v : Nat) :
    readDigit base v (digitChar d) = some (v * base + d) := by
  rw [readDigit, digitValue_digitChar (Nat.lt_of_lt_of_le hd hbase), Option.bind_some, if_pos hd]

theorem foldlM_digitChar (hbase : base ≤ 16) {ds : List Nat} (hds : ∀ d ∈ ds, d < base) (v : Nat) :
    (ds.map digitChar).foldlM (readDigit base) v = some (ds.foldl (fun v d => v * base + d) v) := by
  induction ds generalizing v with
  | nil => rfl
  | cons d ds ih =>
    obtain ⟨hd, hds⟩ := List.forall_mem_cons.mp hds
    rw [List.map_cons, List.foldlM_cons, readDigit_digitChar hbase hd, Option.bind_eq_bind,
      Option.bind_some, ih hds]
    rfl

/-- The digits of a number, most significant first, add up to it. -/
theorem foldl_digits (base n : Nat) :
    (Nat.digits base n).reverse.foldl (fun v d => v * base + d) 0 = n := by
  rw [List.foldl_reverse]
  calc (Nat.digits base n).foldr (fun d v => v * base + d) 0
      = (Nat.digits base n).foldr (fun d v => d + base * v) 0 := by
        simp only [Nat.mul_comm, Nat.add_comm]
    _ = Nat.ofDigits base (Nat.digits base n) := (Nat.ofDigits_eq_foldr base _).symm
    _ = n := Nat.ofDigits_digits base n

/-! ## Numerals -/

/-- A numeral reads back as its number. -/
theorem readNumber_numeral (hlo : 2 ≤ base) (hhi : base ≤ 16) (n : Nat) :
    readNumber base (numeral base n) = some n := by
  unfold readNumber numeral
  by_cases hn : n = 0
  · rw [if_pos hn, hn, List.foldlM_cons, readDigit_digitChar hhi (by omega)]
    simp
  · -- Each character is read as the digit that it was written for.
    have hds : ∀ d ∈ (Nat.digits base n).reverse, d < base := fun d hd =>
      Nat.digits_lt_base hlo (List.mem_reverse.mp hd)
    rw [if_neg hn, ← List.map_reverse, foldlM_digitChar hhi hds, foldl_digits]

theorem digitChar_eq_zero_iff {d : Nat} (hd : d < 16) : digitChar d = ascii '0' ↔ d = 0 := by
  revert d
  decide

theorem isNumeral_numeral (hlo : 2 ≤ base) (hhi : base ≤ 16) (n : Nat) :
    IsNumeral base (numeral base n) n := by
  refine ⟨readNumber_numeral hlo hhi n, ?_, fun hhead => ?_⟩
  · unfold numeral
    split
    · exact List.cons_ne_nil _ _
    · next hn => simpa using Nat.digits_ne_nil_iff_ne_zero.mpr hn
  · unfold numeral at hhead ⊢
    by_cases hn : n = 0
    · rw [if_pos hn]
      rfl
    · -- The first digit is not 0.
      have hlast := Nat.getLast_digit_ne_zero base hn
      have hlt := Nat.digits_lt_base hlo (List.getLast_mem (Nat.digits_ne_nil_iff_ne_zero.mpr hn))
      rw [if_neg hn, List.head?_reverse, List.getLast?_map,
        List.getLast?_eq_some_getLast (Nat.digits_ne_nil_iff_ne_zero.mpr hn),
        Option.map_some] at hhead
      have hzero := (digitChar_eq_zero_iff (Nat.lt_of_lt_of_le hlt hhi)).mp (Option.some.inj hhead)
      exact absurd hzero hlast

theorem length_numeral (hlo : 2 ≤ base) (n : Nat) :
    (numeral base n).length = Nat.log base n + 1 := by
  unfold numeral
  by_cases hn : n = 0
  · rw [if_pos hn, hn, Nat.log_zero_right]
    rfl
  · rw [if_neg hn, List.length_reverse, List.length_map, Nat.length_digits base n hlo hn]

/-- What reads as a number does not start with a minus sign. -/
theorem head?_ne_minus {text : List Byte} (h : readNumber base text = some n) :
    text.head? ≠ some (ascii '-') := by
  intro hhead
  obtain ⟨text', rfl⟩ := List.head?_eq_some_iff.mp hhead
  rw [readNumber, List.foldlM_cons, readDigit] at h
  cases h

theorem readInteger_numeral (hlo : 2 ≤ base) (hhi : base ≤ 16) (n : Nat) :
    readInteger base (numeral base n) = some (n : Int) := by
  have hread := readNumber_numeral hlo hhi n
  rw [readInteger, if_neg (head?_ne_minus hread), hread]
  rfl

theorem readInteger_minus (hlo : 2 ≤ base) (hhi : base ≤ 16) (n : Nat) :
    readInteger base (ascii '-' :: numeral base n) = some (-(n : Int)) := by
  rw [readInteger, List.head?_cons, if_pos rfl, List.tail_cons, readNumber_numeral hlo hhi]
  rfl

/-! ## Numerals of a fixed length -/

/-- The last `len` digits of `n`, with zeros in front. -/
def paddedNumeral (base : Nat) : Nat → Nat → List Byte
  | 0, _ => []
  | len + 1, n => paddedNumeral base len (n / base) ++ [digitChar (n % base)]

theorem length_paddedNumeral (base len n : Nat) : (paddedNumeral base len n).length = len := by
  induction len generalizing n with
  | zero => rfl
  | succ len ih => rw [paddedNumeral, List.length_append, ih, List.length_singleton]

/-- The first digit. -/
theorem paddedNumeral_succ (base len n : Nat) :
    paddedNumeral base (len + 1) n =
      digitChar (n / base ^ len % base) :: paddedNumeral base len n := by
  induction len generalizing n with
  | zero => rw [Nat.pow_zero, Nat.div_one]; rfl
  | succ len ih =>
    rw [paddedNumeral, ih, Nat.div_div_eq_div_mul, ← Nat.pow_succ', List.cons_append]
    rfl

/-- It reads back as what is left of the number. -/
theorem readNumber_paddedNumeral (hlo : 0 < base) (hhi : base ≤ 16) (len n : Nat) :
    readNumber base (paddedNumeral base len n) = some (n % base ^ len) := by
  induction len generalizing n with
  | zero => rw [Nat.pow_zero, Nat.mod_one]; rfl
  | succ len ih =>
    have hfront : (paddedNumeral base len (n / base)).foldlM (readDigit base) 0 =
        some (n / base % base ^ len) := ih (n / base)
    rw [readNumber, paddedNumeral, List.foldlM_append, hfront, Nat.pow_succ', Nat.mod_mul,
      Nat.add_comm, Nat.mul_comm base]
    simp only [List.foldlM_cons, List.foldlM_nil, Option.bind_eq_bind, Option.bind_some,
      readDigit_digitChar hhi (Nat.mod_lt n hlo)]
    rfl

/-- The digits are those of the base. -/
theorem mem_paddedNumeral {c : Byte} (hlo : 0 < base) {len : Nat} (h : c ∈ paddedNumeral base len n) :
    ∃ d < base, c = digitChar d := by
  induction len generalizing n with
  | zero => exact absurd h List.not_mem_nil
  | succ len ih =>
    rcases List.mem_append.mp h with hfront | hlast
    · exact ih hfront
    · exact ⟨n % base, Nat.mod_lt n hlo, List.mem_singleton.mp hlast⟩

end KyroKernel.Foundations
