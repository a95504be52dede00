import Mathlib.Algebra.Group.Nat.Defs
import Mathlib.Logic.Function.Basic
import Mathlib.Tactic.Common

/-!
# Byte-addressed memory with 32-bit little-endian words

A memory is a total map from 32-bit addresses to bytes, and all address arithmetic is
modulo 2^32. Two kinds of store are enough for most programs: a word store and a fill of
a block. For both, this module says what a later word load returns, with one notion of
disjointness: `Apart a n b k`, the blocks `[a, a+n)` and `[b, b+k)` do not meet.
-/

namespace KyroKernel.Foundations

/-- A 32-bit machine word, also used as an address. -/
abbrev Word := BitVec 32

/-- A byte. -/
abbrev Byte := BitVec 8

/-- Membership in a list of bytes is decided with this one proof everywhere. -/
instance : LawfulBEq Byte := inferInstance

/-- A byte-addressed memory. -/
abbrev Mem := Word → Byte

namespace Mem

/-- Store one byte. -/
def write8 (m : Mem) (a : Word) (b : Byte) : Mem := Function.update m a b

/-- Load the little-endian word at `a`. -/
def read32 (m : Mem) (a : Word) : Word :=
  m (a + 3) ++ m (a + 2) ++ m (a + 1) ++ m a

/-- Store the little-endian word `v` at `a`. -/
def write32 (m : Mem) (a v : Word) : Mem :=
  (((m.write8 a (v.extractLsb' 0 8)).write8 (a + 1) (v.extractLsb' 8 8)).write8
    (a + 2) (v.extractLsb' 16 8)).write8 (a + 3) (v.extractLsb' 24 8)

/-- Fill the `n` bytes from `a` on with `c`, in ascending order. -/
def fill (m : Mem) (a : Word) (c : Byte) : Nat → Mem
  | 0 => m
  | n + 1 => (fill m a c n).write8 (a + BitVec.ofNat 32 n) c

/-! ## Disjoint blocks -/

/-- The blocks `[a, a+n)` and `[b, b+k)`, taken modulo 2^32, do not meet:
neither start lies in the other block. -/
def Apart (a : Word) (n : Nat) (b : Word) (k : Nat) : Prop :=
  n ≤ (b - a).toNat ∧ k ≤ (a - b).toNat

theorem Apart.symm {a b : Word} {n k : Nat} (h : Apart a n b k) : Apart b k a n :=
  ⟨h.2, h.1⟩

/-- Blocks that do not wrap and lie one after the other are apart. -/
theorem Apart.of_le {a b : Word} {n k : Nat} (hn : 0 < n) (h : a.toNat + n ≤ b.toNat)
    (hk : b.toNat + k ≤ 2 ^ 32) : Apart a n b k := by
  constructor <;> rw [BitVec.toNat_sub] <;> omega

/-- Blocks that do not wrap are apart when one ends before the other starts. -/
theorem Apart.of_clear {a b : Word} {n k : Nat} (hn : 0 < n) (hk : 0 < k)
    (h : a.toNat + n ≤ b.toNat ∨ b.toNat + k ≤ a.toNat)
    (ha : a.toNat + n ≤ 2 ^ 32) (hb : b.toNat + k ≤ 2 ^ 32) : Apart a n b k := by
  rcases h with h | h
  · exact .of_le hn h hb
  · exact (Apart.of_le hk h ha).symm

/-- Parts of blocks that are apart are apart. -/
theorem Apart.mono {a b x y : Word} {n k i j : Nat} (h : Apart a n b k) (hi : 0 < i) (hj : 0 < j)
    (hx : (x - a).toNat + i ≤ n) (hy : (y - b).toNat + j ≤ k) : Apart x i y j := by
  obtain ⟨hn, hk⟩ := h
  rw [BitVec.toNat_sub] at hn hk hx hy
  constructor <;> rw [BitVec.toNat_sub] <;> omega

/-- An address inside the first of two blocks that are apart is outside the second. -/
theorem Apart.not_mem {a b x : Word} {n k : Nat} (h : Apart a n b k)
    (hx : (x - a).toNat < n) : ¬ (x - b).toNat < k := by
  obtain ⟨hn, hk⟩ := h
  rw [BitVec.toNat_sub] at hn hk hx ⊢
  omega

theorem offset_add (a i : Word) : a + i - a = i := by
  rw [BitVec.add_comm, BitVec.add_sub_cancel]

/-! ## Words at disjoint addresses -/

theorem write8_of_ne {m : Mem} {a x : Word} {b : Byte} (h : x ≠ a) : m.write8 a b x = m x :=
  Function.update_of_ne h ..

@[simp] theorem write8_self (m : Mem) (a : Word) (b : Byte) : m.write8 a b a = b :=
  Function.update_self ..

/-- A load depends only on the four bytes it reads. -/
theorem read32_congr {m m' : Mem} {a : Word} (h : ∀ x, (x - a).toNat < 4 → m x = m' x) :
    m.read32 a = m'.read32 a := by
  have h0 := h a (by simp)
  have h1 := h (a + 1) (by rw [offset_add]; decide)
  have h2 := h (a + 2) (by rw [offset_add]; decide)
  have h3 := h (a + 3) (by rw [offset_add]; decide)
  simp only [read32, h0, h1, h2, h3]

/-- A word store leaves the bytes outside its four alone. -/
theorem write32_of_not_mem {m : Mem} {a v x : Word} (h : ¬ (x - a).toNat < 4) :
    m.write32 a v x = m x := by
  -- The store writes to `a`, `a + 1`, `a + 2` and `a + 3`, all of them below the bound.
  have hne : ∀ i : Word, i.toNat < 4 → x ≠ a + i := by
    intro i hi hx
    subst hx
    exact h (by rwa [offset_add])
  have h0 : x ≠ a := by simpa using hne 0 (by decide)
  unfold write32
  rw [write8_of_ne (hne 3 (by decide)), write8_of_ne (hne 2 (by decide)),
    write8_of_ne (hne 1 (by decide)), write8_of_ne h0]

theorem read32_write32_apart {m : Mem} {a b v : Word} (h : Apart a 4 b 4) :
    (m.write32 b v).read32 a = m.read32 a :=
  read32_congr fun _ hx => write32_of_not_mem (h.not_mem hx)

@[simp] theorem read32_write32_self (m : Mem) (a v : Word) :
    (m.write32 a v).read32 a = v := by
  have hne : ∀ i j : Word, i ≠ j → a + i ≠ a + j := by
    intro i j hij h
    exact hij (by simpa using h)
  have h01 : a ≠ a + 1 := by simp
  have h02 : a ≠ a + 2 := by simp
  have h03 : a ≠ a + 3 := by simp
  unfold read32 write32
  -- Each byte read is the one written last at its address.
  simp only [write8_self, write8_of_ne (hne 2 3 (by decide)), write8_of_ne (hne 1 3 (by decide)),
    write8_of_ne (hne 1 2 (by decide)), write8_of_ne h01, write8_of_ne h02, write8_of_ne h03]
  ext i hi
  simp only [BitVec.getElem_append, BitVec.getElem_extractLsb']
  split_ifs <;> simp only [← BitVec.getLsbD_eq_getElem] <;> congr 1 <;> omega

/-! ## Filled blocks -/

theorem fill_apply (m : Mem) (a : Word) (c : Byte) {n : Nat} (hn : n ≤ 2 ^ 32) (x : Word) :
    m.fill a c n x = if (x - a).toNat < n then c else m x := by
  induction n with
  | zero => simp [fill]
  | succ n ih =>
    rw [fill]
    by_cases hx : x = a + BitVec.ofNat 32 n
    · -- The byte written last.
      subst hx
      have hmem : (a + BitVec.ofNat 32 n - a).toNat < n + 1 := by
        simp only [BitVec.toNat_sub, BitVec.toNat_add, BitVec.toNat_ofNat]
        omega
      rw [write8_self, if_pos hmem]
    · have hne : (x - a).toNat ≠ n := by
        intro h
        apply hx
        apply BitVec.eq_of_toNat_eq
        rw [BitVec.toNat_sub] at h
        simp only [BitVec.toNat_add, BitVec.toNat_ofNat]
        omega
      rw [write8_of_ne hx, ih (by omega)]
      have hiff : (x - a).toNat < n + 1 ↔ (x - a).toNat < n := by omega
      simp only [hiff]

theorem read32_fill_apart {m : Mem} {a b : Word} {c : Byte} {n : Nat} (hn : n ≤ 2 ^ 32)
    (h : Apart a 4 b n) : (m.fill b c n).read32 a = m.read32 a :=
  read32_congr fun x hx => by rw [fill_apply m b c hn, if_neg (h.not_mem hx)]

/-- A word that lies wholly inside a zeroed block reads zero. -/
theorem read32_fill_zero {m : Mem} {a b : Word} {n : Nat} (hn : n ≤ 2 ^ 32)
    (h : (a - b).toNat + 4 ≤ n) : (m.fill b 0 n).read32 a = 0 := by
  have hin : ∀ i : Word, i.toNat < 4 → m.fill b 0 n (a + i) = 0 := by
    intro i hi
    have hmem : (a + i - b).toNat < n := by
      rw [BitVec.toNat_sub] at h ⊢
      rw [BitVec.toNat_add]
      omega
    rw [fill_apply m b 0 hn, if_pos hmem]
  have h0 : m.fill b 0 n a = 0 := by simpa using hin 0 (by decide)
  unfold read32
  rw [hin 3 (by decide), hin 2 (by decide), hin 1 (by decide), h0]
  rfl

/-! ## Consecutive words -/

/-- The words `l` lie one after the other from `p` on. -/
def Words (m : Mem) (p : Word) : List Word → Prop
  | [] => True
  | v :: l => m.read32 p = v ∧ Words m (p + 4) l

/-- `Words` depends only on the bytes that the words occupy. -/
theorem Words.congr {m m' : Mem} {p : Word} {l : List Word} (h : m.Words p l)
    (hl : 4 * l.length ≤ 2 ^ 32) (heq : ∀ a, (a - p).toNat < 4 * l.length → m' a = m a) :
    m'.Words p l := by
  induction l generalizing p with
  | nil => trivial
  | cons v l ih =>
    obtain ⟨hv, htail⟩ := h
    rw [List.length_cons] at hl heq
    refine ⟨?_, ih htail (by omega) fun a ha => heq a ?_⟩
    · rw [read32_congr fun x hx => heq x (by omega)]
      exact hv
    · -- An offset into the tail is four more from the start.
      have hoff : a - p = a - (p + 4) + 4 := by
        rw [← BitVec.sub_sub, BitVec.sub_add_cancel]
      rw [hoff, BitVec.toNat_add, show (4 : Word).toNat = 4 from rfl, Nat.mod_eq_of_lt (by omega)]
      omega

/-- A word store outside the words leaves them alone. -/
theorem Words.write32 {m : Mem} {p a : Word} {l : List Word} (h : m.Words p l) (v : Word)
    (hapart : Apart p (4 * l.length) a 4) : (m.write32 a v).Words p l := by
  have hlt := (a - p).isLt
  refine h.congr (Nat.le_trans hapart.1 (Nat.le_of_lt hlt)) fun x hx => ?_
  exact write32_of_not_mem (hapart.not_mem hx)

/-- A word store into the words replaces one of them. -/
theorem Words.set {m : Mem} {p : Word} {l : List Word} (h : m.Words p l) {k : Nat} (v : Word)
    (hl : 4 * l.length ≤ 2 ^ 32) (hk : k < l.length) :
    (m.write32 (p + 4 * BitVec.ofNat 32 k) v).Words p (l.set k v) := by
  induction l generalizing p k with
  | nil => exact absurd hk (Nat.not_lt_zero _)
  | cons a l ih =>
    obtain ⟨ha, htail⟩ := h
    rw [List.length_cons] at hl hk
    cases k with
    | zero =>
      -- The first word is replaced, the others lie behind the store.
      have h0 : p + 4 * BitVec.ofNat 32 0 = p := by simp
      rw [h0]
      refine ⟨read32_write32_self .., ?_⟩
      by_cases hnil : l.length = 0
      · rw [List.eq_nil_of_length_eq_zero hnil]
        trivial
      · exact htail.write32 v ⟨by bv_omega, by bv_omega⟩
    | succ k =>
      have hslot : p + 4 * BitVec.ofNat 32 (k + 1) = p + 4 + 4 * BitVec.ofNat 32 k := by
        rw [BitVec.ofNat_add, BitVec.mul_add, BitVec.add_comm (4 * _), ← BitVec.add_assoc]
        rfl
      have hoff : (4 * BitVec.ofNat 32 k : Word).toNat = 4 * k := by
        rw [BitVec.toNat_mul, BitVec.toNat_ofNat, show (4 : Word).toNat = 4 from rfl]
        omega
      -- The store is behind the first word, in the rest.
      rw [hslot]
      refine ⟨?_, ih htail (by omega) (by omega)⟩
      rw [read32_write32_apart ⟨by bv_omega, by bv_omega⟩]
      exact ha

/-- Storing a word right below the words puts it in front. -/
theorem Words.push {m : Mem} {p : Word} {l : List Word} (h : m.Words p l) (v : Word)
    (hl : 4 * (l.length + 1) ≤ 2 ^ 32) : (m.write32 (p - 4) v).Words (p - 4) (v :: l) := by
  refine ⟨read32_write32_self .., ?_⟩
  rw [BitVec.sub_add_cancel]
  refine h.write32 v ⟨?_, ?_⟩
  · bv_omega
  · bv_omega

/-- The first ones of the words. -/
theorem Words.append_left {m : Mem} {p : Word} {l l' : List Word} (h : m.Words p (l ++ l')) :
    m.Words p l := by
  induction l generalizing p with
  | nil => trivial
  | cons v l ih => exact ⟨h.1, ih h.2⟩

/-- The words behind the first ones. -/
theorem Words.drop {m : Mem} {p : Word} {l : List Word} (l₁ : List Word)
    (h : m.Words p (l₁ ++ l)) : m.Words (p + 4 * BitVec.ofNat 32 l₁.length) l := by
  induction l₁ generalizing p with
  | nil => simpa using h
  | cons v l₁ ih =>
    have htail := ih h.2
    rw [List.length_cons, BitVec.ofNat_add, BitVec.mul_add, BitVec.add_comm (4 * _), ← BitVec.add_assoc]
    exact htail

end Mem

end KyroKernel.Foundations
