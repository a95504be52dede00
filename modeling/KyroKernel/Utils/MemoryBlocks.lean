import KyroKernel.Utils.MemoryMoves
import KyroKernel.Utils.StringOrder

/-!
# Copying, comparing and searching memory

`memcpy`, `memcmp` and `memchr` of `kernel/utils/memory.c`. `memcpy` always copies upwards. To a
destination that starts inside the source it repeats the bytes in front of the destination, and this is
the only case in which it is not `memmove`.
-/

namespace KyroKernel

open Foundations Foundations.Mem

/-- `memcpy`: the memory it leaves and the pointer it returns. -/
def memcpy (m : Mem) (dest src n : Word) : Mem × Word := (copyUp dest src m n.toNat, dest)

namespace InMemory

/-- The loop of `memcmp`, `n` rounds from the index `i` on. -/
def memcmpLoop (m : PartialMem) (p1 p2 : Word) : Nat → Nat → Option Int
  | 0, _ => some 0
  | n + 1, i => do
    let a ← m (p1 + BitVec.ofNat 32 i)
    let b ← m (p2 + BitVec.ofNat 32 i)
    if a < b then return -1
    if b < a then return 1
    memcmpLoop m p1 p2 n (i + 1)

/-- `memcmp`. -/
def memcmp (m : PartialMem) (s1 s2 n : Word) : Option Int := memcmpLoop m s1 s2 n.toNat 0

/-- The loop of `memchr`, `n` rounds from the index `i` on. -/
def memchrLoop (m : PartialMem) (p : Word) (c : Byte) : Nat → Nat → Option (Option Word)
  | 0, _ => some none
  | n + 1, i => do
    if (← m (p + BitVec.ofNat 32 i)) = c then return some (p + BitVec.ofNat 32 i)
    memchrLoop m p c n (i + 1)

/-- `memchr`: the pointer it returns, NULL as `none`. -/
def memchr (m : PartialMem) (s c n : Word) : Option (Option Word) :=
  memchrLoop m s (c.setWidth 8) n.toNat 0

end InMemory

variable {m : Mem} {d s a : Word} {n : Nat}

/-! ## §1 Copying upwards -/

/-- Byte `i` of the destination comes from the source, or from what was copied before when the
destination starts inside the source: the first `d - s` bytes come again and again. -/
structure CopiedUp (m m' : Mem) (d s : Word) (n : Nat) : Prop where
  copied : ∀ i < n, m' (d + BitVec.ofNat 32 i) =
    m (s + BitVec.ofNat 32 (i % (d.toNat - s.toNat)))
  kept : ∀ a, Outside a d n → m' a = m a

/-- An address that is not in the destination. -/
theorem outside_of_toNat (hd : d.toNat + n ≤ 2 ^ 32) (h : a.toNat < d.toNat ∨ d.toNat + n ≤ a.toNat) :
    Outside a d n := by
  intro i hi heq
  have heq' := congrArg BitVec.toNat heq
  rw [toNat_add_of_lt (by omega)] at heq'
  omega

theorem copiedUp_copyUp (hd : d.toNat + n ≤ 2 ^ 32) (hs : s.toNat + n ≤ 2 ^ 32) :
    CopiedUp m (copyUp d s m n) d s n := by
  induction n with
  | zero => exact ⟨fun i hi => absurd hi (Nat.not_lt_zero i), fun _ _ => rfl⟩
  | succ n ih =>
    have h := ih (by omega) (by omega)
    -- The next byte to be read was copied before, or it is still that of the source.
    have hread : copyUp d s m n (s + BitVec.ofNat 32 n) =
        m (s + BitVec.ofNat 32 (n % (d.toNat - s.toNat))) := by
      by_cases hinside : s.toNat < d.toNat ∧ d.toNat - s.toNat ≤ n
      · obtain ⟨hlt, hle⟩ := hinside
        have haddr : s + BitVec.ofNat 32 n = d + BitVec.ofNat 32 (n - (d.toNat - s.toNat)) := by
          apply BitVec.eq_of_toNat_eq
          rw [toNat_add_of_lt (by omega), toNat_add_of_lt (by omega)]
          omega
        rw [haddr, h.copied _ (by omega), ← Nat.mod_eq_sub_mod hle]
      · have hmod : n % (d.toNat - s.toNat) = n := by
          by_cases hzero : d.toNat - s.toNat = 0
          · rw [hzero, Nat.mod_zero]
          · exact Nat.mod_eq_of_lt (by omega)
        rw [hmod]
        refine h.kept _ (outside_of_toNat (by omega) ?_)
        rw [toNat_add_of_lt (by omega)]
        omega
    constructor
    · intro i hi
      rw [copyUp]
      by_cases heq : i = n
      · rw [heq, write8_self, hread]
      · have hne : d + BitVec.ofNat 32 i ≠ d + BitVec.ofNat 32 n := fun h' =>
          heq (eq_of_add_eq (by omega) (by omega) h')
        rw [write8_of_ne hne]
        exact h.copied i (by omega)
    · intro a ha
      rw [copyUp, write8_of_ne (ha n (Nat.lt_succ_self n))]
      exact h.kept a (ha.mono (Nat.le_succ n))

/-- What `memcpy` leaves, for every overlap. -/
theorem memcpy_copiedUp {dest src n : Word} (m : Mem) (hdest : dest.toNat + n.toNat ≤ 2 ^ 32)
    (hsrc : src.toNat + n.toNat ≤ 2 ^ 32) : CopiedUp m (memcpy m dest src n).1 dest src n.toNat :=
  copiedUp_copyUp hdest hsrc

/-- An address is one of the destination, or it is outside. -/
theorem exists_offset (n : Nat) (a d : Word) :
    (∃ i < n, a = d + BitVec.ofNat 32 i) ∨ Outside a d n := by
  by_cases h : ∃ i < n, a = d + BitVec.ofNat 32 i
  · exact .inl h
  · exact .inr fun i hi heq => h ⟨i, hi, heq⟩

/-- `memcpy` moves like `memmove`, whatever the memory holds, if and only if the destination does not
start inside the source, behind its first byte. -/
theorem memcpy_eq_memmove_iff {dest src n : Word} (hdest : dest.toNat + n.toNat ≤ 2 ^ 32)
    (hsrc : src.toNat + n.toNat ≤ 2 ^ 32) :
    (∀ m : Mem, memcpy m dest src n = memmove m dest src n) ↔
      dest.toNat ≤ src.toNat ∨ src.toNat + n.toNat ≤ dest.toNat := by
  constructor
  · intro h
    by_contra hinside
    rw [not_or, Nat.not_le, Nat.not_le] at hinside
    obtain ⟨hlt, hin⟩ := hinside
    -- A memory in which the first byte of the source differs from the first one of the destination.
    let m : Mem := fun a => if a = src then 1 else 0
    have hcopied := (memcpy_copiedUp m hdest hsrc).copied (dest.toNat - src.toNat) (by omega)
    have hmoved := (copied_memmove m hdest hsrc).1.copied (dest.toNat - src.toNat) (Nat.zero_le _)
      (by omega)
    rw [h m, hmoved, Nat.mod_self, addr_zero] at hcopied
    have hne : src + BitVec.ofNat 32 (dest.toNat - src.toNat) ≠ src := by
      intro heq
      have heq' := congrArg BitVec.toNat heq
      rw [toNat_add_of_lt (by omega)] at heq'
      omega
    have hzero : m (src + BitVec.ofNat 32 (dest.toNat - src.toNat)) = 0 := if_neg hne
    have hone : m src = 1 := if_pos rfl
    rw [hzero, hone] at hcopied
    cases hcopied
  · intro hclear m
    have hcopied := memcpy_copiedUp m hdest hsrc
    obtain ⟨hmoved, hret⟩ := copied_memmove m hdest hsrc
    refine Prod.ext (funext fun a => ?_) hret.symm
    rcases exists_offset n.toNat a dest with ⟨i, hi, rfl⟩ | hout
    · have hmod : i % (dest.toNat - src.toNat) = i := by
        by_cases hzero : dest.toNat - src.toNat = 0
        · rw [hzero, Nat.mod_zero]
        · exact Nat.mod_eq_of_lt (by omega)
      rw [hcopied.copied i hi, hmod, hmoved.copied i (Nat.zero_le _) hi]
    · rw [hcopied.kept a hout, hmoved.kept a fun i _ hi => hout i hi]

/-- Three bytes copied up by one. -/
theorem memcpy_eq_memmove_iff_overlap :
    (∀ m : Mem, memcpy m 0x1001 0x1000 3 = memmove m 0x1001 0x1000 3) ↔
      (0x1001 : Word).toNat ≤ (0x1000 : Word).toNat ∨
        (0x1000 : Word).toNat + (3 : Word).toNat ≤ (0x1001 : Word).toNat :=
  memcpy_eq_memmove_iff (by decide) (by decide)

/-! ## §2 Comparing -/

section compare

variable {m : PartialMem} {p q : Word} {l l' : List Byte} {c : Byte} {i k : Nat}

/-- One of the three results, with the sign of the order of the bytes. -/
structure ComparesAs (r : Option Int) (l l' : List Byte) : Prop where
  values : r = some (-1) ∨ r = some 0 ∨ r = some 1
  order : ∀ v, r = some v → SignOfOrder v l l'

theorem comparesAs_less (h : l < l') : ComparesAs (some (-1)) l l' := by
  refine ⟨.inl rfl, ?_⟩
  rintro v ⟨⟩
  refine ⟨iff_of_true (by decide) h, iff_of_false (by decide) fun heq => ?_,
    iff_of_false (by decide) fun hgt => ?_⟩
  · exact List.lt_irrefl l (heq ▸ h)
  · exact List.lt_asymm h hgt

theorem comparesAs_greater (h : l' < l) : ComparesAs (some 1) l l' := by
  refine ⟨.inr (.inr rfl), ?_⟩
  rintro v ⟨⟩
  refine ⟨iff_of_false (by decide) fun hlt => ?_, iff_of_false (by decide) fun heq => ?_,
    iff_of_true (by decide) h⟩
  · exact List.lt_asymm h hlt
  · exact List.lt_irrefl l (heq ▸ h)

/-- Behind a byte that is the same in both. -/
theorem ComparesAs.cons {r : Option Int} (h : ComparesAs r l l') (c : Byte) :
    ComparesAs r (c :: l) (c :: l') := by
  refine ⟨h.values, fun v hv => ?_⟩
  obtain ⟨hneg, hzero, hpos⟩ := h.order v hv
  refine ⟨hneg.trans ?_, hzero.trans ?_, hpos.trans ?_⟩
  · exact (List.cons_lt_cons_self ..).symm
  · exact (List.cons_inj_right c).symm
  · exact (List.cons_lt_cons_self ..).symm

/-- The loop needs the bytes up to the first difference. -/
theorem memcmpLoop_comparesAs (hlength : l.length = l'.length)
    (hp : m.HasBytes (p + BitVec.ofNat 32 i) (l.take k))
    (hq : m.HasBytes (q + BitVec.ofNat 32 i) (l'.take k))
    (hk : l.length ≤ k ∨ l.take k ≠ l'.take k) :
    ComparesAs (InMemory.memcmpLoop m p q l.length i) l l' := by
  induction l generalizing l' i k with
  | nil =>
    obtain rfl : l' = [] := List.length_eq_zero_iff.mp hlength.symm
    refine ⟨.inr (.inl rfl), ?_⟩
    rintro v ⟨⟩
    exact ⟨by decide, by decide, by decide⟩
  | cons a l ih =>
    obtain ⟨b, l', rfl⟩ := List.exists_cons_of_length_eq_add_one hlength.symm
    cases k with
    | zero =>
      -- Nothing would be there to compare.
      rcases hk with hk | hk
      · exact absurd hk (Nat.not_succ_le_zero _)
      · exact absurd rfl hk
    | succ k =>
      rw [List.take_succ_cons] at hp hq
      obtain ⟨ha, hp⟩ := hp
      obtain ⟨hb, hq⟩ := hq
      rw [List.length_cons, InMemory.memcmpLoop, ha, hb]
      change ComparesAs (if a < b then some (-1) else if b < a then some 1
        else InMemory.memcmpLoop m p q l.length (i + 1)) (a :: l) (b :: l')
      split_ifs with hlt hgt
      · exact comparesAs_less (List.cons_lt_cons_iff.mpr (.inl hlt))
      · exact comparesAs_greater (List.cons_lt_cons_iff.mpr (.inl hgt))
      · obtain rfl : a = b := BitVec.le_antisymm (BitVec.not_lt.mp hgt) (BitVec.not_lt.mp hlt)
        rw [← addr_add_one] at hp hq
        refine (ih (Nat.succ.inj hlength) hp hq ?_).cons a
        rw [List.take_succ_cons, List.take_succ_cons, ne_eq, List.cons_inj_right] at hk
        exact hk.imp Nat.le_of_succ_le_succ id

/-- `memcmp` returns -1, 0 or 1 as the bytes at `p` come before, equal or come after those at `q` in
the lexicographic order of unsigned bytes. It loads nothing behind the first difference. -/
theorem memcmp_comparesAs {n : Word} (hl : l.length = n.toNat) (hl' : l'.length = n.toNat)
    (hp : m.HasBytes p (l.take k)) (hq : m.HasBytes q (l'.take k))
    (hk : n.toNat ≤ k ∨ l.take k ≠ l'.take k) : ComparesAs (InMemory.memcmp m p q n) l l' := by
  rw [← addr_zero p] at hp
  rw [← addr_zero q] at hq
  rw [← hl] at hk
  rw [InMemory.memcmp, ← hl]
  exact memcmpLoop_comparesAs (hl.trans hl'.symm) hp hq hk

/-- The byte 1 at `0x1000` and the byte 2 at `0x2000`, and nothing else. -/
def twoBytes : PartialMem := fun a =>
  if a = 0x1000 then some 1 else if a = 0x2000 then some 2 else none

/-- Blocks of two bytes that differ in the first one. -/
theorem memcmp_comparesAs_two :
    ComparesAs (InMemory.memcmp twoBytes 0x1000 0x2000 2) [1, 9] [2, 9] :=
  memcmp_comparesAs (k := 1) rfl rfl ⟨rfl, trivial⟩ ⟨rfl, trivial⟩ (.inr (by decide))

end compare

/-! ## §3 Searching -/

section search

variable {m : PartialMem} {p : Word} {l : List Byte} {c : Byte} {i k : Nat}

/-- The loop needs the bytes up to the first hit. -/
theorem memchrLoop_eq (hp : m.HasBytes (p + BitVec.ofNat 32 i) (l.take k))
    (hk : l.length ≤ k ∨ c ∈ l.take k) :
    InMemory.memchrLoop m p c l.length i =
      some ((l.findIdx? (· == c)).map fun j => p + BitVec.ofNat 32 (i + j)) := by
  induction l generalizing i k with
  | nil => rfl
  | cons a l ih =>
    cases k with
    | zero =>
      rcases hk with hk | hk
      · exact absurd hk (Nat.not_succ_le_zero _)
      · exact absurd hk List.not_mem_nil
    | succ k =>
      rw [List.take_succ_cons] at hp hk
      obtain ⟨ha, hp⟩ := hp
      rw [List.length_cons, InMemory.memchrLoop, ha, List.findIdx?_cons]
      change (if a = c then some (some (p + BitVec.ofNat 32 i))
        else InMemory.memchrLoop m p c l.length (i + 1)) = _
      by_cases hac : a = c
      · rw [if_pos hac, if_pos (beq_iff_eq.mpr hac)]
        rfl
      · rw [← addr_add_one] at hp
        rw [if_neg hac, if_neg (mt beq_iff_eq.mp hac), ih hp, Option.map_map]
        · refine congrArg some (congrArg (Option.map · _) (funext fun j => ?_))
          rw [Function.comp_apply, Nat.add_assoc, Nat.add_comm 1 j]
        · refine hk.imp Nat.le_of_succ_le_succ fun hmem => ?_
          exact (List.mem_cons.mp hmem).resolve_left (Ne.symm hac)

/-- `memchr` points to the first of the bytes that is `c` converted to a byte. It loads nothing
behind it. -/
theorem memchr_pointsToFirst {n c : Word} (hl : l.length = n.toNat) (hp : m.HasBytes p (l.take k))
    (hk : n.toNat ≤ k ∨ c.setWidth 8 ∈ l.take k) :
    ∃ r, InMemory.memchr m p c n = some r ∧ PointsToFirst p {i : Nat | l[i]? = some (c.setWidth 8)} r := by
  rw [← addr_zero p] at hp
  rw [← hl] at hk
  refine ⟨_, by rw [InMemory.memchr, ← hl]; exact memchrLoop_eq hp hk, ?_⟩
  cases hfind : l.findIdx? (· == c.setWidth 8) with
  | none =>
    rw [List.findIdx?_eq_none_iff] at hfind
    have hempty : {i : Nat | l[i]? = some (c.setWidth 8)} = ∅ := by
      refine Set.eq_empty_of_forall_notMem fun i hi => ?_
      have hmiss := hfind _ (List.mem_of_getElem? hi)
      rw [beq_self_eq_true] at hmiss
      cases hmiss
    rw [hempty]
    exact pointsToFirst_empty p
  | some j =>
    obtain ⟨hj, hhit, hbefore⟩ := List.findIdx?_eq_some_iff_getElem.mp hfind
    rw [Option.map_some, Nat.zero_add]
    refine pointsToFirst_of_isLeast ⟨?_, fun i hi => ?_⟩
    · exact (List.getElem?_eq_getElem hj).trans (congrArg some (beq_iff_eq.mp hhit))
    · by_contra hlt
      refine hbefore i (Nat.not_le.mp hlt) (beq_iff_eq.mpr ?_)
      obtain ⟨hi', heq⟩ := List.getElem?_eq_some_iff.mp hi
      exact heq

/-- A search for the byte 2 that stops at once; the int has other bits set. -/
theorem memchr_pointsToFirst_two :
    ∃ r, InMemory.memchr twoBytes 0x2000 0x102 2 = some r ∧
      PointsToFirst 0x2000 {i : Nat | [(2 : Byte), 9][i]? = some ((0x102 : Word).setWidth 8)} r :=
  memchr_pointsToFirst (k := 1) rfl ⟨rfl, trivial⟩ (.inr (by decide))

end search

end KyroKernel
