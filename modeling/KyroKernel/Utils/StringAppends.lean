import KyroKernel.Foundations.Loop
import KyroKernel.Utils.StringCopies

/-!
# Appending strings in memory

`strncat` of `kernel/utils/string.c`. The NUL at the end is copied when it is among the first `n`
bytes of the source; when `n` has come down to 0, it has not been copied, and it is stored.
-/

namespace KyroKernel

open Foundations Foundations.Mem

namespace InMemory

/-- `strncat`: the memory it leaves and the pointer it returns. -/
def strncat (m : Mem) (fuel : Nat) (dest src n : Word) : Option (Mem × Word) := do
  let origDest := dest
  let dest ← whileLoop (fun p => m p ≠ 0) (· + 1) fuel dest
  let (m, dest, n) := copyChars m dest src n.toNat
  return (if n = 0 then m.write8 dest 0 else m, origDest)

end InMemory

/-- The two strings have no byte in common, the NULs included. -/
def StringsApart (dest : Word) (d : List Byte) (src : Word) (s : List Byte) : Prop :=
  ∀ i ≤ d.length, ∀ j ≤ s.length, dest + BitVec.ofNat 32 i ≠ src + BitVec.ofNat 32 j

instance (dest : Word) (d : List Byte) (src : Word) (s : List Byte) :
    Decidable (StringsApart dest d src s) :=
  inferInstanceAs (Decidable (∀ i ≤ d.length, ∀ j ≤ s.length,
    dest + BitVec.ofNat 32 i ≠ src + BitVec.ofNat 32 j))

variable {m : Mem} {dest src : Word} {d s : List Byte} {fuel n : Nat}

/-- The first loop comes to the end of the old string. -/
theorem endLoop_eq (hd : m.HasString dest d) (hnul : (0 : Byte) ∉ d) :
    ∀ fuel > d.length, whileLoop (fun p => m p ≠ 0) (· + 1) fuel dest =
      some (dest + BitVec.ofNat 32 d.length) := by
  induction d generalizing dest with
  | nil =>
    refine forall_fuel fun fuel _ => ?_
    have hend : decide (m dest ≠ 0) = false := decide_eq_false (not_not.mpr hd)
    rw [whileLoop, hend, if_neg Bool.false_ne_true, List.length_nil, addr_zero]
  | cons c d ih =>
    refine forall_fuel fun fuel hfuel => ?_
    obtain ⟨hc, hnul'⟩ := List.ne_and_not_mem_of_not_mem_cons hnul
    have hgo : decide (m dest ≠ 0) = true := decide_eq_true (hd.1 ▸ hc.symm)
    rw [whileLoop, hgo, if_pos rfl, List.length_cons, addr_succ]
    exact ih hd.2 hnul' fuel hfuel

/-- Two strings that are apart fit into the memory. -/
theorem StringsApart.length_lt (h : StringsApart dest d src s) :
    d.length + s.length + 1 < 2 ^ 32 := by
  -- The distance from one to the other, and back.
  have hgap : dest + BitVec.ofNat 32 (src - dest).toNat = src + BitVec.ofNat 32 0 := by
    rw [BitVec.ofNat_toNat, BitVec.setWidth_eq, addr_zero, BitVec.add_comm, BitVec.sub_add_cancel]
  have hback : dest + BitVec.ofNat 32 0 = src + BitVec.ofNat 32 (dest - src).toNat := by
    rw [BitVec.ofNat_toNat, BitVec.setWidth_eq, addr_zero, BitVec.add_comm, BitVec.sub_add_cancel]
  have hd : d.length < (src - dest).toNat := by
    by_contra hle
    exact h _ (Nat.not_lt.mp hle) 0 (Nat.zero_le _) hgap
  have hs : s.length < (dest - src).toNat := by
    by_contra hle
    exact h 0 (Nat.zero_le _) _ (Nat.not_lt.mp hle) hback
  rw [BitVec.toNat_sub] at hd hs
  omega

/-- What is appended does not overwrite what has not been copied yet. -/
theorem StringsApart.undisturbed (h : StringsApart dest d src s) (n : Nat) :
    Undisturbed src s (dest + BitVec.ofNat 32 d.length) n := by
  intro i _ hlen j hj heq
  -- Otherwise the end of the old string would be in the other one.
  have hmeet : dest + BitVec.ofNat 32 d.length = src + BitVec.ofNat 32 (i - j) := by
    have hsplit : BitVec.ofNat 32 i = BitVec.ofNat 32 (i - j) + BitVec.ofNat 32 j := by
      rw [← BitVec.ofNat_add, Nat.sub_add_cancel (Nat.le_of_lt hj)]
    rw [hsplit, ← BitVec.add_assoc] at heq
    exact (BitVec.add_left_inj _).mp heq
  exact absurd hmeet (h _ (Nat.le_refl _) _ (by omega))

/-- In both cases the characters are stored with one NUL behind them. -/
theorem strncat_eq {n : Word} (hd : m.HasString dest d) (hs : m.HasString src s)
    (hdnul : (0 : Byte) ∉ d) (hsnul : (0 : Byte) ∉ s) (hapart : StringsApart dest d src s)
    (hfuel : d.length < fuel) :
    InMemory.strncat m fuel dest src n =
      some (m.store (dest + BitVec.ofNat 32 d.length) (s.take n.toNat ++ [0]), dest) := by
  have hholds : ReadsString m src s n.toNat := fun i _ hlen => hs.apply hlen
  have hfree := hapart.undisturbed n.toNat
  rw [InMemory.strncat, endLoop_eq hd hdnul fuel hfuel]
  by_cases hlen : n.toNat ≤ s.length
  · -- The loop ends with `n`, and the NUL is stored behind it.
    rw [Option.bind_eq_bind, Option.bind_some, copyChars_of_le hsnul hholds hfree hlen,
      store_append, List.length_take, Nat.min_eq_left hlen]
    rfl
  · -- The loop ends with the NUL.
    have hlt := Nat.not_le.mp hlen
    have hleft : n.toNat - s.length ≠ 0 := by omega
    rw [Option.bind_eq_bind, Option.bind_some, copyChars_of_lt hsnul hholds hfree hlt,
      List.take_of_length_le (Nat.le_of_lt hlt)]
    simp only
    rw [if_neg hleft]
    rfl

/-- `strncat` leaves the old string with the first `n` characters of the source behind it, and a
NUL; no other byte changes. -/
theorem strncat_hasString {n : Word} (d s : CString) (hd : m.HasString dest d.toList)
    (hs : m.HasString src s.toList) (hapart : StringsApart dest d.toList src s.toList) :
    ∃ m', (∀ fuel > d.toList.length, InMemory.strncat m fuel dest src n = some (m', dest)) ∧
      m'.HasString dest (d.toList ++ s.toList.take n.toNat) ∧
      ∀ a, Outside a (dest + BitVec.ofNat 32 d.toList.length)
        (min n.toNat s.toList.length + 1) → m' a = m a := by
  refine ⟨_, fun fuel hfuel => strncat_eq hd hs d.nul_free s.nul_free hapart hfuel, ?_, ?_⟩
  · -- The old string is as good as stored once more.
    have hlen := hapart.length_lt
    have hstore : m.store (dest + BitVec.ofNat 32 d.toList.length) (s.toList.take n.toNat ++ [0]) =
        m.store dest ((d.toList ++ s.toList.take n.toNat) ++ [0]) := by
      rw [List.append_assoc, store_append m dest d.toList, hd.store_self]
    rw [hstore]
    apply hasString_store
    rw [List.length_append, List.length_take]
    omega
  · intro a hout
    apply store_of_outside
    rw [List.length_append, List.length_take]
    exact hout

/-- The string `a` at `0x1000` and `a` again behind its NUL, in a memory that is `0xFF` elsewhere. -/
def adjacentStrings : Mem := fun a =>
  if a = 0x1000 then ascii 'a' else if a = 0x1001 then 0
  else if a = 0x1002 then ascii 'a' else if a = 0x1003 then 0 else 0xFF

/-- `strncat` of at most three characters. -/
theorem strncat_hasString_adjacent :
    ∃ m', (∀ fuel > (chars "a").length,
        InMemory.strncat adjacentStrings fuel 0x1000 0x1002 3 = some (m', 0x1000)) ∧
      m'.HasString 0x1000 (chars "a" ++ (chars "a").take (3 : Word).toNat) ∧
      ∀ a, Outside a (0x1000 + BitVec.ofNat 32 (chars "a").length)
        (min (3 : Word).toNat (chars "a").length + 1) → m' a = adjacentStrings a :=
  strncat_hasString ⟨chars "a", by decide⟩ ⟨chars "a", by decide⟩ ⟨rfl, rfl⟩ ⟨rfl, rfl⟩ (by decide)

end KyroKernel
