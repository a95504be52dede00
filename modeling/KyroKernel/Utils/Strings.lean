import KyroKernel.Foundations.CString

/-!
# String functions

`kernel/utils/string.c` on buffers. A copy into a field returns the bytes from the start of the
field on: more bytes than the field has mean that the copy ran past its end.
-/

namespace KyroKernel

open Foundations

/-- `strlen`. -/
def strlen : List Byte → Nat
  | [] => 0
  | c :: s => if c = 0 then 0 else strlen s + 1

/-- `strcpy(dest, src)`, with the NUL that ends `src`. -/
def strcpy : List Byte → List Byte → List Byte
  | dest, [] => 0 :: dest.drop 1
  | dest, c :: src => if c = 0 then 0 :: dest.drop 1 else c :: strcpy (dest.drop 1) src

/-- `strncpy(dest, src, n)` of `utils/string.c`. When `src` ends early the first loop has
stored a NUL that `n` does not count, so one byte more than `n` is written. -/
def strncpy : List Byte → List Byte → Nat → List Byte
  | _ :: dest, c :: src, n + 1 =>
    if c = 0 then 0 :: (List.replicate (n + 1) 0 ++ dest.drop (n + 1))
    else c :: strncpy dest src n
  | _ :: dest, [], n + 1 => 0 :: (List.replicate (n + 1) 0 ++ dest.drop (n + 1))
  | dest, _, _ => dest

/-- `strcmp`; the byte after the end of a list is the NUL. -/
def strcmp : List Byte → List Byte → Int
  | [], s2 => 0 - (s2.headD 0).toNat
  | c :: s1, s2 =>
    if c ≠ 0 ∧ c = s2.headD 0 then strcmp s1 s2.tail else c.toNat - (s2.headD 0).toNat

/-! ## What they compute -/

variable {s dest : List Byte}

theorem strlen_eq (s : List Byte) : strlen s = (cstr s).length := by
  induction s with
  | nil => rfl
  | cons c s ih =>
    by_cases hc : c = 0
    · rw [strlen, if_pos hc, hc, cstr_nul]
      rfl
    · rw [strlen, if_neg hc, cstr_cons hc, List.length_cons, ih]

theorem strlen_string (s : CString) : strlen s.toList = s.toList.length := by
  rw [strlen_eq, cstr_of_nul_free s.nul_free]

/-- `strcpy` writes the string and its NUL over the start of the field. -/
theorem strcpy_eq (hs : (0 : Byte) ∉ s) (dest : List Byte) :
    strcpy dest s = s ++ 0 :: dest.drop (s.length + 1) := by
  -- Byte by byte, with the rest of the field.
  induction s generalizing dest with
  | nil => rfl
  | cons c s ih =>
    obtain ⟨hc, hs⟩ := List.ne_and_not_mem_of_not_mem_cons hs
    rw [strcpy, if_neg (Ne.symm hc), ih hs, List.drop_drop]
    simp [Nat.add_comm]

/-- A string shorter than the field stays in the field. -/
theorem strcpy_length (hs : (0 : Byte) ∉ s) (hlen : s.length < dest.length) :
    (strcpy dest s).length = dest.length := by
  rw [strcpy_eq hs, List.length_append, List.length_cons, List.length_drop]
  omega

/-- The field then holds the string. -/
theorem cstr_strcpy (hs : (0 : Byte) ∉ s) (dest : List Byte) : cstr (strcpy dest s) = s := by
  rw [strcpy_eq hs]
  exact cstr_append_nul hs

/-- And it is terminated. -/
theorem terminated_strcpy (hs : (0 : Byte) ∉ s) (dest : List Byte) :
    Terminated (strcpy dest s) := by
  rw [strcpy_eq hs]
  exact List.mem_append_right _ List.mem_cons_self

/-- `strncpy` cuts a string that is not shorter than `n`. -/
theorem strncpy_of_le {n : Nat} (hs : (0 : Byte) ∉ s) (hlen : n ≤ s.length)
    (hdest : n ≤ dest.length) : strncpy dest s n = s.take n ++ dest.drop n := by
  induction n generalizing s dest with
  | zero => cases dest <;> simp [strncpy]
  | succ n ih =>
    cases s with
    | nil => exact absurd hlen (Nat.not_succ_le_zero _)
    | cons c s =>
      cases dest with
      | nil => exact absurd hdest (Nat.not_succ_le_zero _)
      | cons d dest =>
        obtain ⟨hc, hs⟩ := List.ne_and_not_mem_of_not_mem_cons hs
        rw [strncpy, if_neg (Ne.symm hc),
          ih hs (Nat.le_of_succ_le_succ hlen) (Nat.le_of_succ_le_succ hdest)]
        rfl

/-- `strncpy` pads a shorter string with NULs, one more than fills up `n`. -/
theorem strncpy_of_lt {n : Nat} (hs : (0 : Byte) ∉ s) (hlen : s.length < n)
    (hdest : n ≤ dest.length) :
    strncpy dest s n = s ++ List.replicate (n - s.length + 1) 0 ++ dest.drop (n + 1) := by
  induction n generalizing s dest with
  | zero => exact absurd hlen (Nat.not_lt_zero _)
  | succ n ih =>
    cases dest with
    | nil => exact absurd hdest (Nat.not_succ_le_zero _)
    | cons d dest =>
      cases s with
      | nil => rfl
      | cons c s =>
        obtain ⟨hc, hs⟩ := List.ne_and_not_mem_of_not_mem_cons hs
        rw [strncpy, if_neg (Ne.symm hc),
          ih hs (Nat.lt_of_succ_lt_succ hlen) (Nat.le_of_succ_le_succ hdest)]
        simp

theorem byte_toNat_ne_zero {c : Byte} (hc : c ≠ 0) : c.toNat ≠ 0 :=
  fun h => hc (BitVec.eq_of_toNat_eq h)

/-- `strcmp` gives 0 exactly for equal strings. -/
theorem strcmp_eq_zero_iff (s1 s2 : List Byte) : strcmp s1 s2 = 0 ↔ cstr s1 = cstr s2 := by
  induction s1 generalizing s2 with
  | nil =>
    -- The first string has ended: has the second?
    cases s2 with
    | nil => simp [strcmp]
    | cons d s2 =>
      by_cases hd : d = 0
      · rw [hd, cstr_nul]
        simp [strcmp, cstr]
      · have := byte_toNat_ne_zero hd
        rw [cstr_cons hd]
        simp [strcmp, cstr, this]
  | cons c s1 ih =>
    by_cases hc : c = 0
    · -- The first string ends here too.
      rw [strcmp, if_neg fun h => h.1 hc, hc, cstr_nul]
      cases s2 with
      | nil => simp [cstr]
      | cons d s2 =>
        by_cases hd : d = 0
        · rw [hd, cstr_nul]
          simp
        · have := byte_toNat_ne_zero hd
          rw [cstr_cons hd]
          simp [this]
    · rw [strcmp, cstr_cons hc]
      cases s2 with
      | nil =>
        have := byte_toNat_ne_zero hc
        rw [if_neg fun h => hc h.2]
        simp [cstr, this]
      | cons d s2 =>
        by_cases hd : d = 0
        · have := byte_toNat_ne_zero hc
          rw [if_neg fun h => hc (h.2.trans hd), hd, cstr_nul]
          simp [this]
        · rw [cstr_cons hd]
          -- Equal characters: on to the next ones.
          by_cases heq : c = d
          · subst heq
            rw [if_pos ⟨hc, rfl⟩, List.tail_cons, ih]
            simp
          · -- The difference of the first characters that differ is not 0.
            have hne : c.toNat ≠ d.toNat := fun h => heq (BitVec.eq_of_toNat_eq h)
            rw [if_neg fun h => heq h.2]
            constructor
            · intro h
              simp only [List.headD_cons] at h
              omega
            · intro h
              exact absurd (List.cons.inj h).1 heq

/-- A field compared with a string, as the search loops do. -/
theorem strcmp_string (field : List Byte) (s : CString) :
    (strcmp field s.toList == 0) = true ↔ cstr field = s.toList := by
  rw [beq_iff_eq, strcmp_eq_zero_iff, cstr_of_nul_free s.nul_free]

end KyroKernel
