import Mathlib.Data.Nat.ModEq
import Mathlib.Data.List.Nodup

/-!
# Identifiers from a counter that wraps

A counter of `w` bits hands out its value as the next identifier and is then incremented. Two
identifiers agree exactly when the numbers of identifiers handed out before them agree modulo
`2 ^ w`.
-/

namespace KyroKernel.Foundations

variable {w : Nat} {first : BitVec w}

/-- The identifier that a counter with the initial value `first` hands out after `n` others. -/
def issued (first : BitVec w) (n : Nat) : BitVec w := first + BitVec.ofNat w n

theorem issued_zero (first : BitVec w) : issued first 0 = first := BitVec.add_zero first

theorem issued_succ (first : BitVec w) (n : Nat) : issued first (n + 1) = issued first n + 1 := by
  unfold issued
  rw [BitVec.ofNat_add, BitVec.add_assoc]
  rfl

theorem issued_eq_iff {m n : Nat} : issued first m = issued first n ↔ m ≡ n [MOD 2 ^ w] := by
  unfold issued
  rw [BitVec.add_right_inj, ← BitVec.toNat_inj, BitVec.toNat_ofNat, BitVec.toNat_ofNat]
  rfl

/-- As long as the counter has not wrapped it counts. -/
theorem toNat_issued {n : Nat} (h : first.toNat + n < 2 ^ w) :
    (issued first n).toNat = first.toNat + n := by
  unfold issued
  rw [BitVec.toNat_add, BitVec.toNat_ofNat, Nat.add_mod_mod, Nat.mod_eq_of_lt h]

/-- The identifiers with the ordinals `l` differ when no two ordinals are a multiple of `2 ^ w`
apart. -/
theorem nodup_issued_iff {l : List Nat} :
    (l.map (issued first)).Nodup ↔ l.Pairwise fun m n => ¬ m ≡ n [MOD 2 ^ w] := by
  rw [List.Nodup, List.pairwise_map]
  exact List.Pairwise.iff fun _ _ => not_congr issued_eq_iff

theorem nodup_issued_of_lt {l : List Nat} (h : l.Nodup) (hlt : ∀ n ∈ l, n < 2 ^ w) :
    (l.map (issued first)).Nodup := by
  rw [nodup_issued_iff]
  refine h.imp_of_mem fun hm hn hne hmod => hne ?_
  exact Nat.ModEq.eq_of_lt_of_lt hmod (hlt _ hm) (hlt _ hn)

end KyroKernel.Foundations
