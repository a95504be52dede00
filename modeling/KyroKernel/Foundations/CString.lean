import KyroKernel.Foundations.Memory

/-!
# C strings

A buffer is the list of its bytes; the string in it ends before the first NUL. A string
argument is a list of bytes without a NUL, the terminating one left out.
-/

namespace KyroKernel.Foundations

/-- The byte of a character literal. -/
def ascii (c : Char) : Byte := BitVec.ofNat 8 c.toNat

/-- The bytes of a string literal, without the terminating NUL. -/
def chars (s : String) : List Byte := s.toList.map ascii

/-- The string in a buffer: what comes before the first NUL. -/
def cstr : List Byte → List Byte
  | [] => []
  | c :: buf => if c = 0 then [] else c :: cstr buf

/-- A string: no NUL among its characters. -/
@[ext] structure CString where
  toList : List Byte
  nul_free : (0 : Byte) ∉ toList

/-- A buffer with a NUL in it holds a string that ends inside the buffer. -/
def Terminated (buf : List Byte) : Prop := (0 : Byte) ∈ buf

variable {s rest : List Byte} {c : Byte}

/-- A buffer that starts with a NUL holds the empty string. -/
theorem cstr_nul (rest : List Byte) : cstr (0 :: rest) = [] := if_pos rfl

theorem cstr_cons (hc : c ≠ 0) (rest : List Byte) : cstr (c :: rest) = c :: cstr rest := if_neg hc

/-- A string and its NUL at the start of a buffer. -/
theorem cstr_append_nul (hs : (0 : Byte) ∉ s) : cstr (s ++ 0 :: rest) = s := by
  induction s with
  | nil => exact cstr_nul rest
  | cons c s ih =>
    obtain ⟨hc, hs⟩ := List.ne_and_not_mem_of_not_mem_cons hs
    rw [List.cons_append, cstr_cons (Ne.symm hc), ih hs]

/-- A buffer without a NUL is its own string. -/
theorem cstr_of_nul_free (hs : (0 : Byte) ∉ s) : cstr s = s := by
  induction s with
  | nil => rfl
  | cons c s ih =>
    obtain ⟨hc, hs⟩ := List.ne_and_not_mem_of_not_mem_cons hs
    rw [cstr_cons (Ne.symm hc), ih hs]

/-- A string holds no NUL. -/
theorem nul_notMem_cstr (buf : List Byte) : (0 : Byte) ∉ cstr buf := by
  induction buf with
  | nil => exact List.not_mem_nil
  | cons c buf ih =>
    by_cases hc : c = 0
    · rw [hc, cstr_nul]
      exact List.not_mem_nil
    · rw [cstr_cons hc]
      exact mt List.mem_cons.mp (not_or.mpr ⟨Ne.symm hc, ih⟩)

end KyroKernel.Foundations
