import KyroKernel.Foundations.Loads
import KyroKernel.Utils.Strings

/-!
# The order of strings

`strcmp` and `strncmp` of `kernel/utils/string.c` with their pointers. The loops compare signed
characters, but only for equality; the difference at the end is that of unsigned ones. So the result
has the sign of the lexicographic order, in which a string comes after those that it starts with.
-/

namespace KyroKernel

open Foundations

namespace InMemory

/-- `*s1 && *s1 == *s2`. -/
def equalChars (m : PartialMem) : Word × Word → Option Bool
  | (s1, s2) => do
    if (← m s1) = 0 then return false
    return (← m s1) = (← m s2)

/-- Both pointers go on: `s1++; s2++;`. -/
def nextChars : Word × Word → Word × Word
  | (s1, s2) => (s1 + 1, s2 + 1)

/-- `(unsigned char)*s1 - (unsigned char)*s2`. -/
def charDifference (m : PartialMem) (s1 s2 : Word) : Option Int := do
  let c1 ← m s1
  let c2 ← m s2
  return c1.toNat - c2.toNat

/-- `strcmp`. -/
def strcmp (m : PartialMem) (fuel : Nat) (s1 s2 : Word) : Option Int := do
  let (s1, s2) ← whileLoads (equalChars m) nextChars fuel (s1, s2)
  charDifference m s1 s2

/-- The loop of `strncmp`: `s1`, `s2` and `n` after it. -/
def strncmpLoop (m : PartialMem) : Nat → Word → Word → Option (Word × Word × Nat)
  | 0, s1, s2 => some (s1, s2, 0)
  | n + 1, s1, s2 => do
    if ← equalChars m (s1, s2) then strncmpLoop m n (s1 + 1) (s2 + 1) else return (s1, s2, n + 1)

/-- `strncmp`. -/
def strncmp (m : PartialMem) (s1 s2 n : Word) : Option Int := do
  let (s1, s2, n) ← strncmpLoop m n.toNat s1 s2
  if n = 0 then return 0
  charDifference m s1 s2

end InMemory

/-- The sign of `r` says how `s` stands to `t` in the lexicographic order of unsigned bytes. -/
structure SignOfOrder (r : Int) (s t : List Byte) : Prop where
  neg_iff : r < 0 ↔ s < t
  zero_iff : r = 0 ↔ s = t
  pos_iff : 0 < r ↔ t < s

variable {m : PartialMem} {p q s1 s2 : Word} {s t u : List Byte} {a b : Byte} {fuel n : Nat}

/-! ## What is computed from memory -/

theorem equalChars_eq (ha : m s1 = some a) (hb : m s2 = some b) :
    InMemory.equalChars m (s1, s2) = some (decide (a ≠ 0 ∧ a = b)) := by
  have hcond : InMemory.equalChars m (s1, s2) =
      if a = 0 then some false else some (decide (a = b)) := by
    rw [InMemory.equalChars, ha, hb]
    rfl
  rw [hcond]
  split
  · next ha0 => rw [decide_eq_false fun hne => hne.1 ha0]
  · next ha0 =>
    refine congrArg some (decide_eq_decide.mpr ?_)
    exact ⟨fun hab => ⟨ha0, hab⟩, fun hne => hne.2⟩

theorem charDifference_eq (ha : m s1 = some a) (hb : m s2 = some b) :
    InMemory.charDifference m s1 s2 = some ((a.toNat : Int) - b.toNat) := by
  rw [InMemory.charDifference, ha, hb]
  rfl

/-- `strcmp` loads the two strings up to the first difference, at most up to their NULs. -/
theorem inMemory_strcmp_eq (hs : m.HasString p s) (ht : m.HasString q t) :
    ∀ fuel > s.length, InMemory.strcmp m fuel p q = some (strcmp s t) := by
  have hcond := equalChars_eq hs.load ht.load
  induction s generalizing p q t with
  | nil =>
    refine forall_fuel fun fuel _ => ?_
    rw [decide_eq_false fun hne => hne.1 rfl] at hcond
    rw [InMemory.strcmp, whileLoads_stop hcond]
    exact charDifference_eq hs ht.load
  | cons c s ih =>
    refine forall_fuel fun fuel hfuel => ?_
    rw [List.headD_cons] at hcond
    by_cases hsame : c ≠ 0 ∧ c = t.headD 0
    · have ht' := ht.tail (hsame.2 ▸ hsame.1)
      rw [decide_eq_true hsame] at hcond
      rw [strcmp, if_pos hsame, ← ih hs.2 ht' (equalChars_eq hs.2.load ht'.load) fuel hfuel,
        InMemory.strcmp, whileLoads_next hcond]
      rfl
    · rw [decide_eq_false hsame] at hcond
      rw [strcmp, if_neg hsame, InMemory.strcmp, whileLoads_stop hcond]
      exact charDifference_eq hs.1 ht.load

/-- `strncmp` compares the strings cut to `n` characters, and loads no more of them. -/
theorem strncmpLoop_eq (hs : m.HasChars p s n) (ht : m.HasChars q t n) :
    (do
      let (s1, s2, n) ← InMemory.strncmpLoop m n p q
      if n = 0 then return 0
      InMemory.charDifference m s1 s2) = some (strcmp (s.take n) (t.take n)) := by
  induction n generalizing p q s t with
  | zero => rfl
  | succ n ih =>
    have hcond := equalChars_eq hs.load ht.load
    have hhead : (t.take (n + 1)).headD 0 = t.headD 0 := by cases t <;> rfl
    have htail : (t.take (n + 1)).tail = t.tail.take n := by cases t <;> simp
    cases s with
    | nil =>
      rw [decide_eq_false fun hne => hne.1 rfl] at hcond
      rw [InMemory.strncmpLoop, hcond, List.take_nil, strcmp, hhead]
      exact charDifference_eq hs ht.load
    | cons c s =>
      rw [List.headD_cons] at hcond
      rw [List.take_succ_cons, strcmp, hhead, htail]
      by_cases hsame : c ≠ 0 ∧ c = t.headD 0
      · have ht' := ht.tail (hsame.2 ▸ hsame.1)
        rw [decide_eq_true hsame] at hcond
        rw [if_pos hsame, ← ih hs.2 ht', InMemory.strncmpLoop, hcond]
        rfl
      · rw [decide_eq_false hsame] at hcond
        rw [if_neg hsame, InMemory.strncmpLoop, hcond]
        exact charDifference_eq hs.1 ht.load

/-! ## The order -/

/-- The result has the opposite sign when the strings are exchanged. -/
theorem strcmp_swap (hs : (0 : Byte) ∉ s) (ht : (0 : Byte) ∉ t) : strcmp t s = -strcmp s t := by
  induction s generalizing t with
  | nil =>
    cases t with
    | nil => rfl
    | cons d t =>
      have hd := (List.ne_and_not_mem_of_not_mem_cons ht).1
      rw [strcmp, strcmp, if_neg fun hsame => hd hsame.2.symm]
      simp
  | cons c s ih =>
    obtain ⟨hc, hs'⟩ := List.ne_and_not_mem_of_not_mem_cons hs
    cases t with
    | nil =>
      rw [strcmp, strcmp, if_neg fun hsame => hc hsame.2.symm]
      simp
    | cons d t =>
      obtain ⟨hd, ht'⟩ := List.ne_and_not_mem_of_not_mem_cons ht
      rw [strcmp, strcmp, List.headD_cons, List.headD_cons, List.tail_cons, List.tail_cons]
      by_cases hcd : c = d
      · rw [if_pos ⟨hd.symm, hcd.symm⟩, if_pos ⟨hc.symm, hcd⟩, ih hs' ht']
      · rw [if_neg fun hsame => hcd hsame.2.symm, if_neg fun hsame => hcd hsame.2]
        omega

/-- It is negative when the first string comes first. -/
theorem strcmp_neg_iff (hs : (0 : Byte) ∉ s) (ht : (0 : Byte) ∉ t) : strcmp s t < 0 ↔ s < t := by
  induction s generalizing t with
  | nil =>
    cases t with
    | nil => exact iff_of_false (Int.lt_irrefl 0) (List.not_lt_nil [])
    | cons d t =>
      have hd := byte_toNat_ne_zero (List.ne_and_not_mem_of_not_mem_cons ht).1.symm
      refine iff_of_true ?_ (List.nil_lt_cons d t)
      rw [strcmp, List.headD_cons]
      omega
  | cons c s ih =>
    obtain ⟨hc, hs'⟩ := List.ne_and_not_mem_of_not_mem_cons hs
    cases t with
    | nil =>
      have hnul : (0 : Byte).toNat = 0 := rfl
      refine iff_of_false ?_ (List.not_lt_nil _)
      rw [strcmp, if_neg fun hsame => hc hsame.2.symm, List.headD_nil, hnul]
      omega
    | cons d t =>
      rw [strcmp, List.cons_lt_cons_iff, List.headD_cons, List.tail_cons]
      by_cases hcd : c = d
      · -- Equal characters: on to the next ones.
        obtain ⟨-, ht'⟩ := List.ne_and_not_mem_of_not_mem_cons ht
        rw [if_pos ⟨hc.symm, hcd⟩, ih hs' ht', hcd]
        simp [BitVec.lt_irrefl]
      · rw [if_neg fun hsame => hcd hsame.2, BitVec.lt_def]
        simp only [hcd, false_and, or_false]
        omega

theorem strcmp_signOfOrder (s t : CString) :
    SignOfOrder (strcmp s.toList t.toList) s.toList t.toList := by
  have hneg := strcmp_neg_iff s.nul_free t.nul_free
  have hzero := strcmp_eq_zero_iff s.toList t.toList
  have hpos := strcmp_neg_iff t.nul_free s.nul_free
  rw [cstr_of_nul_free s.nul_free, cstr_of_nul_free t.nul_free] at hzero
  rw [strcmp_swap s.nul_free t.nul_free, Int.neg_neg_iff_pos] at hpos
  exact ⟨hneg, hzero, hpos⟩

/-- It is not positive when the first string does not come last. -/
theorem strcmp_nonpos_iff (s t : CString) :
    strcmp s.toList t.toList ≤ 0 ↔ s.toList < t.toList ∨ s.toList = t.toList := by
  have hsign := strcmp_signOfOrder s t
  rw [← hsign.neg_iff, ← hsign.zero_iff]
  exact Int.le_iff_lt_or_eq

theorem strcmp_trans (s t u : CString) (hst : strcmp s.toList t.toList ≤ 0)
    (htu : strcmp t.toList u.toList ≤ 0) : strcmp s.toList u.toList ≤ 0 := by
  rw [strcmp_nonpos_iff] at hst htu ⊢
  rcases hst with hlt | heq
  · rcases htu with hlt' | heq'
    · exact .inl (List.lt_trans hlt hlt')
    · exact .inl (heq' ▸ hlt)
  · rw [heq]
    exact htu

/-- `strcmp` has the sign of the lexicographic order, and `strncmp` is `strcmp` on the strings cut
to `n` characters. `m` need hold nothing but the strings, `m'` nothing but their first `n` bytes. -/
theorem strcmp_strncmp_order {m' : PartialMem} {p' q' n : Word} (s t u : CString)
    (hs : m.HasString p s.toList) (ht : m.HasString q t.toList)
    (hs' : m'.HasChars p' s.toList n.toNat) (ht' : m'.HasChars q' t.toList n.toNat) :
    (∀ fuel > s.toList.length,
      InMemory.strcmp m fuel p q = some (strcmp s.toList t.toList)) ∧
    InMemory.strncmp m' p' q' n =
      some (strcmp (s.toList.take n.toNat) (t.toList.take n.toNat)) ∧
    SignOfOrder (strcmp s.toList t.toList) s.toList t.toList ∧
    strcmp t.toList s.toList = -strcmp s.toList t.toList ∧
    (strcmp s.toList t.toList ≤ 0 → strcmp t.toList u.toList ≤ 0 →
      strcmp s.toList u.toList ≤ 0) :=
  ⟨inMemory_strcmp_eq hs ht, strncmpLoop_eq hs' ht', strcmp_signOfOrder s t,
    strcmp_swap s.nul_free t.nul_free, strcmp_trans s t u⟩

/-- The strings `a` at `0x1000` and the byte `0xC8` at `0x2000`, and nothing else. -/
def twoStrings : PartialMem := fun a =>
  if a = 0x1000 then some (ascii 'a') else if a = 0x1001 then some 0
  else if a = 0x2000 then some 0xC8 else if a = 0x2001 then some 0 else none

theorem hasString_twoStrings_a : twoStrings.HasString 0x1000 (chars "a") := ⟨rfl, rfl⟩

theorem hasString_twoStrings_high : twoStrings.HasString 0x2000 [0xC8] := ⟨rfl, rfl⟩

/-- They and the empty string; `strncmp` on one character. -/
theorem strcmp_strncmp_order_one :
    (∀ fuel > (chars "a").length,
      InMemory.strcmp twoStrings fuel 0x1000 0x2000 = some (strcmp (chars "a") [0xC8])) ∧
    InMemory.strncmp twoStrings 0x1000 0x2000 1 =
      some (strcmp ((chars "a").take 1) ([0xC8].take 1)) ∧
    SignOfOrder (strcmp (chars "a") [0xC8]) (chars "a") [0xC8] ∧
    strcmp [0xC8] (chars "a") = -strcmp (chars "a") [0xC8] ∧
    (strcmp (chars "a") [0xC8] ≤ 0 → strcmp [0xC8] [] ≤ 0 → strcmp (chars "a") [] ≤ 0) :=
  strcmp_strncmp_order ⟨chars "a", by decide⟩ ⟨[0xC8], by decide⟩ ⟨[], by decide⟩
    hasString_twoStrings_a hasString_twoStrings_high (hasString_twoStrings_a.hasChars _)
    (hasString_twoStrings_high.hasChars _)

end KyroKernel
