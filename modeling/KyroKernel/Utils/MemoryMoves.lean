import KyroKernel.Foundations.Bytes

/-!
# Moving memory

`memmove` of `kernel/utils/memory.c`. It copies upwards when the destination starts below the
source and downwards otherwise, so that no byte is overwritten before it is read: what is left to
read lies on the far side of what was written.
-/

namespace KyroKernel

open Foundations Foundations.Mem

/-- `for (size_t i = 0; i < n; i++) d[i] = s[i];` -/
def copyUp (d s : Word) (m : Mem) : Nat → Mem
  | 0 => m
  | n + 1 =>
    let m := copyUp d s m n
    m.write8 (d + BitVec.ofNat 32 n) (m (s + BitVec.ofNat 32 n))

/-- `for (size_t i = n; i > 0; i--) d[i-1] = s[i-1];` -/
def copyDown (d s : Word) (m : Mem) : Nat → Mem
  | 0 => m
  | i + 1 => copyDown d s (m.write8 (d + BitVec.ofNat 32 i) (m (s + BitVec.ofNat 32 i))) i

/-- `memmove`: the memory it leaves and the pointer it returns. -/
def memmove (m : Mem) (dest src n : Word) : Mem × Word :=
  let d := dest
  let s := src
  if d < s then (copyUp d s m n.toNat, dest) else (copyDown d s m n.toNat, dest)

/-! ## What has been copied -/

/-- The bytes `[lo, hi)` of the destination are those of the source in `m₀`, and nothing else has
changed. -/
structure Copied (m₀ m : Mem) (d s : Word) (lo hi : Nat) : Prop where
  copied : ∀ i, lo ≤ i → i < hi → m (d + BitVec.ofNat 32 i) = m₀ (s + BitVec.ofNat 32 i)
  kept : ∀ a, (∀ i, lo ≤ i → i < hi → a ≠ d + BitVec.ofNat 32 i) → m a = m₀ a

variable {m₀ m : Mem} {d s : Word} {lo hi lo' hi' k n : Nat}

theorem Copied.refl (m : Mem) (d s : Word) (k : Nat) : Copied m m d s k k :=
  ⟨fun _ hlo hhi => absurd hlo (Nat.not_le.mpr hhi), fun _ _ => rfl⟩

/-- One more byte, which is still as it was. -/
theorem Copied.copyByte (h : Copied m₀ m d s lo hi)
    (hunread : m (s + BitVec.ofNat 32 k) = m₀ (s + BitVec.ofNat 32 k)) (hhi : hi' ≤ 2 ^ 32)
    (hjoin : ∀ i, lo' ≤ i ∧ i < hi' ↔ (lo ≤ i ∧ i < hi) ∨ i = k) :
    Copied m₀ (m.write8 (d + BitVec.ofNat 32 k) (m (s + BitVec.ofNat 32 k))) d s lo' hi' := by
  have hk : k < hi' := ((hjoin k).mpr (.inr rfl)).2
  constructor
  · intro i hlo hi
    rcases (hjoin i).mp ⟨hlo, hi⟩ with hold | rfl
    · by_cases heq : i = k
      · subst heq
        rw [write8_self, hunread]
      · have hne : d + BitVec.ofNat 32 i ≠ d + BitVec.ofNat 32 k := fun h' =>
          heq (eq_of_add_eq (by omega) (by omega) h')
        rw [write8_of_ne hne]
        exact h.copied i hold.1 hold.2
    · rw [write8_self, hunread]
  · intro a ha
    have hk' := (hjoin k).mpr (.inr rfl)
    rw [write8_of_ne (ha k hk'.1 hk'.2)]
    apply h.kept
    intro i hlo hi
    have hi' := (hjoin i).mpr (.inl ⟨hlo, hi⟩)
    exact ha i hi'.1 hi'.2

/-- Upwards, to a destination below the source. -/
theorem copied_copyUp (hlt : d.toNat < s.toNat) (hs : s.toNat + n ≤ 2 ^ 32) :
    Copied m (copyUp d s m n) d s 0 n := by
  induction n with
  | zero => exact .refl m d s 0
  | succ n ih =>
    have h := ih (by omega)
    -- The bytes written so far lie below the one to be read.
    have hunread : copyUp d s m n (s + BitVec.ofNat 32 n) = m (s + BitVec.ofNat 32 n) := by
      apply h.kept
      intro i _ hi heq
      have heq' := congrArg BitVec.toNat heq
      rw [toNat_add_of_lt (by omega), toNat_add_of_lt (by omega)] at heq'
      omega
    exact h.copyByte hunread (by omega) fun i => by omega

/-- Downwards, to a destination that is not below the source, with the bytes from `n` on done. -/
theorem copied_copyDown (hle : s.toNat ≤ d.toNat) (hd : d.toNat + k ≤ 2 ^ 32) (hn : n ≤ k)
    (h : Copied m₀ m d s n k) : Copied m₀ (copyDown d s m n) d s 0 k := by
  induction n generalizing m with
  | zero => exact h
  | succ n ih =>
    -- The bytes written so far lie above the one to be read.
    have hunread : m (s + BitVec.ofNat 32 n) = m₀ (s + BitVec.ofNat 32 n) := by
      apply h.kept
      intro i hlo hi heq
      have heq' := congrArg BitVec.toNat heq
      rw [toNat_add_of_lt (by omega), toNat_add_of_lt (by omega)] at heq'
      omega
    exact ih (by omega) (h.copyByte hunread (by omega) fun i => by omega)

/-- Either direction copies the bytes before it overwrites them. -/
theorem copied_memmove (m : Mem) {dest src n : Word} (hdest : dest.toNat + n.toNat ≤ 2 ^ 32)
    (hsrc : src.toNat + n.toNat ≤ 2 ^ 32) :
    Copied m (memmove m dest src n).1 dest src 0 n.toNat ∧ (memmove m dest src n).2 = dest := by
  unfold memmove
  by_cases hlt : dest < src
  · simp only [if_pos hlt]
    exact ⟨copied_copyUp (BitVec.lt_def.mp hlt) hsrc, trivial⟩
  · have hle : src.toNat ≤ dest.toNat := Nat.not_lt.mp hlt
    simp only [if_neg hlt]
    exact ⟨copied_copyDown hle hdest (Nat.le_refl _) (.refl m dest src n.toNat), trivial⟩

/-- After `memmove` the destination holds what the source held before, and every other byte is as
it was. -/
theorem memmove_copied {m : Mem} {dest src n : Word} (hdest : dest.toNat + n.toNat ≤ 2 ^ 32)
    (hsrc : src.toNat + n.toNat ≤ 2 ^ 32) :
    (∀ i < n.toNat, (memmove m dest src n).1 (dest + BitVec.ofNat 32 i) =
      m (src + BitVec.ofNat 32 i)) ∧
    (∀ a, Outside a dest n.toNat → (memmove m dest src n).1 a = m a) ∧
    (memmove m dest src n).2 = dest := by
  obtain ⟨h, hret⟩ := copied_memmove m hdest hsrc
  exact ⟨fun i hi => h.copied i (Nat.zero_le _) hi, fun a ha => h.kept a fun i _ hi => ha i hi,
    hret⟩

/-- Three bytes moved up by one, in a memory that holds the low byte of each address. -/
theorem memmove_copied_overlap :
    (∀ i < (3 : Word).toNat,
      (memmove (fun a => a.setWidth 8) 0x1001 0x1000 3).1 (0x1001 + BitVec.ofNat 32 i) =
        (0x1000 + BitVec.ofNat 32 i : Word).setWidth 8) ∧
    (∀ a, Outside a 0x1001 (3 : Word).toNat →
      (memmove (fun a => a.setWidth 8) 0x1001 0x1000 3).1 a = a.setWidth 8) ∧
    (memmove (fun a => a.setWidth 8) 0x1001 0x1000 3).2 = 0x1001 :=
  memmove_copied (by decide) (by decide)

end KyroKernel
