import KyroKernel.Foundations.Memory
import KyroKernel.Foundations.Newton
import Mathlib.Algebra.GCDMonoid.Nat
import Mathlib.Data.BitVec

/-!
# Integer functions

`sqrt`, `gcd`, `lcm` and `pow` of `kernel/utils/math.c` on 32-bit numbers, `none` where the code
divides by zero. A guess of `sqrt` gets smaller in every round but the last, and so does the second
number of `gcd`; the exponent of `pow` is halved.
-/

namespace KyroKernel

open Foundations

/-! ## `sqrt` -/

/-- The `do` loop of `sqrt`, from the guess `result` on. -/
def sqrtLoop (x result : Word) : Option Word :=
  if result = 0 then none
  else
    let prev := result
    let result := (result + x / result) / 2
    if result < prev then sqrtLoop x result else some prev
termination_by result.toNat
decreasing_by exact BitVec.lt_def.mp ‹_›

/-- `sqrt`. -/
def sqrt (x : Word) : Option Word := if x = 0 then some 0 else sqrtLoop x x

variable {x result : Word}

/-- A round in which the sum does not overflow is a step of Newton's iteration. -/
theorem toNat_next (hr : 0 < result.toNat) (hle : result.toNat ≤ x.toNat)
    (hx : x.toNat + 1 < 2 ^ 32) :
    ((result + x / result) / 2).toNat = newton x.toNat result.toNat := by
  have hsum := add_div_le hr hle
  rw [BitVec.toNat_udiv, BitVec.toNat_add, BitVec.toNat_udiv, Nat.mod_eq_of_lt (by omega)]
  rfl

/-- From a guess between the root and `x` the loop comes to the root. -/
theorem sqrtLoop_eq (hroot : x.toNat.sqrt ≤ result.toNat) (hle : result.toNat ≤ x.toNat)
    (hpos : 0 < x.toNat) (hx : x.toNat + 1 < 2 ^ 32) :
    ∃ r, sqrtLoop x result = some r ∧ r.toNat = x.toNat.sqrt := by
  have hsqrt : 0 < x.toNat.sqrt := Nat.sqrt_pos.mpr hpos
  -- Every round but the last goes on from a smaller guess.
  induction result using sqrtLoop.induct x with
  | case1 =>
    -- A guess of 0 is below the root.
    exact absurd hroot (Nat.not_le.mpr hsqrt)
  | case2 result hne prev next hlt ih =>
    have hnext : next.toNat = newton x.toNat result.toNat := toNat_next (by omega) hle hx
    have hroot' : x.toNat.sqrt ≤ next.toNat := by
      rw [hnext]
      exact sqrt_le_newton (by omega)
    have hlt' : next.toNat < result.toNat := hlt
    rw [sqrtLoop, if_neg hne]
    simp only
    rw [if_pos hlt]
    exact ih hroot' (by omega)
  | case3 result hne prev next hge =>
    -- The guess did not get smaller: it was the root.
    have hnext : next.toNat = newton x.toNat result.toNat := toNat_next (by omega) hle hx
    have hstop : result.toNat ≤ newton x.toNat result.toNat := by
      rw [← hnext]
      exact Nat.not_lt.mp hge
    refine ⟨result, ?_, eq_sqrt_of_newton (by omega) hroot hstop⟩
    rw [sqrtLoop, if_neg hne]
    simp only
    rw [if_neg hge]

/-- At the largest number the sum of the first round overflows to 0, and the second round divides
by it. -/
theorem sqrt_largest : sqrt 0xFFFFFFFF = none := by
  have hfirst : sqrtLoop 0xFFFFFFFF 0xFFFFFFFF = sqrtLoop 0xFFFFFFFF 0 := by
    rw [sqrtLoop]
    rfl
  rw [sqrt, if_neg (by decide), hfirst, sqrtLoop]
  rfl

/-- `sqrt` returns the integer square root. -/
def SqrtRight (x : Word) : Prop :=
  ∃ r, sqrt x = some r ∧ r.toNat * r.toNat ≤ x.toNat ∧
    x.toNat < (r.toNat + 1) * (r.toNat + 1)

/-- `sqrt` is right for all numbers but the largest. -/
theorem sqrtRight_iff (x : Word) : SqrtRight x ↔ x ≠ 0xFFFFFFFF := by
  constructor
  · rintro ⟨r, hr, -⟩ rfl
    rw [sqrt_largest] at hr
    cases hr
  · intro hne
    by_cases hzero : x = 0
    · subst hzero
      exact ⟨0, rfl, by decide, by decide⟩
    · have hpos : 0 < x.toNat := Nat.pos_of_ne_zero fun h0 => hzero (BitVec.eq_of_toNat_eq h0)
      have hx : x.toNat + 1 < 2 ^ 32 := by
        have : x.toNat ≠ 0xFFFFFFFF := fun h => hne (BitVec.eq_of_toNat_eq h)
        omega
      obtain ⟨r, hr, hroot⟩ := sqrtLoop_eq (Nat.sqrt_le_self _) (Nat.le_refl _) hpos hx
      refine ⟨r, ?_, ?_, ?_⟩
      · rw [sqrt, if_neg hzero, hr]
      · rw [hroot]
        exact Nat.sqrt_le _
      · rw [hroot]
        exact Nat.lt_succ_sqrt _

/-- The largest number has no root. -/
theorem not_forall_sqrtRight : ¬ ∀ x, SqrtRight x := by
  intro hall
  obtain ⟨r, hr, -⟩ := hall 0xFFFFFFFF
  rw [sqrt_largest] at hr
  cases hr

/-! ## `gcd` and `lcm` -/

/-- `gcd`: Euclid's loop. -/
def gcd (a b : Word) : Word :=
  if b ≠ 0 then
    let temp := b
    gcd temp (a % b)
  else a
termination_by b.toNat
decreasing_by
  rw [BitVec.toNat_umod]
  exact Nat.mod_lt _ (Nat.pos_of_ne_zero fun h0 => ‹b ≠ 0› (BitVec.eq_of_toNat_eq h0))

/-- `lcm`. -/
def lcm (a b : Word) : Option Word := if gcd a b = 0 then none else some (a * b / gcd a b)

/-- The loop computes the greatest common divisor. -/
theorem toNat_gcd (a b : Word) : (gcd a b).toNat = a.toNat.gcd b.toNat := by
  induction a, b using gcd.induct with
  | case1 a b hb _ ih =>
    -- One round keeps the greatest common divisor.
    rw [gcd, if_pos hb]
    simp only
    rw [ih, BitVec.toNat_umod, Nat.gcd_comm, ← Nat.gcd_rec, Nat.gcd_comm]
  | case2 a b hb =>
    obtain rfl := not_not.mp hb
    rw [gcd, if_neg hb]
    simp

/-- `gcd` is the greatest common divisor, and `lcm` divides by it, which is not 0, and returns the
least common multiple if that is a 32-bit number. -/
structure LcmRight (a b : Word) : Prop where
  gcd_eq : (gcd a b).toNat = a.toNat.gcd b.toNat
  lcm_eq : ∃ r, lcm a b = some r ∧
    (a.toNat.lcm b.toNat < 2 ^ 32 → r.toNat = a.toNat.lcm b.toNat)

variable {a b : Word}

theorem gcd_eq_zero_iff : gcd a b = 0 ↔ a = 0 ∧ b = 0 := by
  have hzero : ∀ w : Word, w = 0 ↔ w.toNat = 0 := fun w => BitVec.toNat_eq
  rw [hzero, toNat_gcd, Nat.gcd_eq_zero_iff, ← hzero, ← hzero]

/-- The quotient that `lcm` returns. -/
theorem toNat_lcm (a b : Word) :
    (a * b / gcd a b).toNat = a.toNat * b.toNat % 2 ^ 32 / a.toNat.gcd b.toNat := by
  rw [BitVec.toNat_udiv, BitVec.toNat_mul, toNat_gcd]

/-- A product that overflows loses a multiple of the divisor. -/
theorem mod_div_lt {p d : Nat} (hdvd : d ∣ p) (hp : 2 ^ 32 ≤ p) :
    p % 2 ^ 32 / d < p / d := by
  have hlt : p % 2 ^ 32 < p := Nat.lt_of_lt_of_le (Nat.mod_lt p (by decide)) hp
  exact Nat.div_lt_div_of_lt_of_dvd hdvd hlt

/-- Where `lcm` is right, it does not divide by 0, -/
theorem LcmRight.gcd_ne_zero (h : LcmRight a b) : gcd a b ≠ 0 := by
  obtain ⟨-, r, hr, -⟩ := h
  intro h0
  rw [lcm, if_pos h0] at hr
  cases hr

/-- and the product fits where the least common multiple does. -/
theorem LcmRight.product_lt (h : LcmRight a b) (hlcm : a.toNat.lcm b.toNat < 2 ^ 32) :
    a.toNat * b.toNat < 2 ^ 32 := by
  have hgcd := h.gcd_ne_zero
  obtain ⟨-, r, hr, hfits⟩ := h
  rw [lcm, if_neg hgcd] at hr
  obtain rfl := Option.some.inj hr
  -- Otherwise the quotient is too small.
  by_contra hover
  have hdvd : a.toNat.gcd b.toNat ∣ a.toNat * b.toNat := Dvd.dvd.mul_right (Nat.gcd_dvd_left _ _) _
  have hless := mod_div_lt hdvd (Nat.not_lt.mp hover)
  rw [← toNat_lcm, hfits hlcm, Nat.lcm_eq_mul_div] at hless
  exact absurd hless (Nat.lt_irrefl _)

/-- `lcm` is right unless both numbers are 0 or the product overflows although the least common
multiple does not. -/
theorem lcmRight_iff (a b : Word) :
    LcmRight a b ↔ ¬ (a = 0 ∧ b = 0) ∧
      (a.toNat.lcm b.toNat < 2 ^ 32 → a.toNat * b.toNat < 2 ^ 32) := by
  constructor
  · intro h
    exact ⟨mt gcd_eq_zero_iff.mpr h.gcd_ne_zero, h.product_lt⟩
  · rintro ⟨hne, hprod⟩
    refine ⟨toNat_gcd a b, a * b / gcd a b, if_neg (mt gcd_eq_zero_iff.mp hne), fun hlcm => ?_⟩
    rw [toNat_lcm, Nat.mod_eq_of_lt (hprod hlcm), Nat.lcm_eq_mul_div]

/-- The product of 2^16 with itself overflows to 0. -/
theorem not_forall_lcmRight : ¬ ∀ a b, LcmRight a b := by
  intro hall
  have hprod := (hall 0x10000 0x10000).product_lt (by decide)
  exact absurd hprod (by decide)

/-! ## `pow` -/

/-- The loop of `pow`. -/
def powLoop (base exp result : Word) : Word :=
  if exp > 0 then
    let result := if exp &&& 1 ≠ 0 then result * base else result
    powLoop (base * base) (exp >>> 1) result
  else result
termination_by exp.toNat
decreasing_by
  rw [BitVec.toNat_ushiftRight, Nat.shiftRight_eq_div_pow]
  exact Nat.div_lt_self (BitVec.lt_def.mp ‹exp > 0›) (by decide)

/-- `pow`. -/
def pow (base exp : Word) : Word := powLoop base exp 1

/-- The test of the lowest bit. -/
theorem and_one_ne_zero_iff (exp : Word) : exp &&& 1 ≠ 0 ↔ exp.toNat % 2 = 1 := by
  have hbit : (exp &&& 1).toNat = exp.toNat % 2 := by
    rw [BitVec.toNat_and]
    exact Nat.and_one_is_mod _
  rw [Ne, BitVec.toNat_eq, hbit]
  exact Nat.mod_two_not_eq_zero

/-- `result * base ^ exp` stays the same, up to a multiple of 2^32. -/
theorem powLoop_eq (base exp result : Word) :
    powLoop base exp result = result * base ^ exp.toNat := by
  induction base, exp, result using powLoop.induct with
  | case1 base exp result hpos result' ih =>
    have hhalf : (exp >>> 1).toNat = exp.toNat / 2 := by
      rw [BitVec.toNat_ushiftRight, Nat.shiftRight_eq_div_pow, Nat.pow_one]
    have hsquare : (base * base) ^ (exp >>> 1).toNat = base ^ (2 * (exp.toNat / 2)) := by
      rw [hhalf, pow_mul, pow_two]
    have hexp := Nat.div_add_mod exp.toNat 2
    rw [powLoop, if_pos hpos]
    by_cases hbit : exp &&& 1 ≠ 0
    · -- The factor that the halved exponent loses.
      have hfactor : result' = result * base := dif_pos hbit
      rw [(and_one_ne_zero_iff exp).mp hbit] at hexp
      rw [hfactor] at ih
      rw [if_pos hbit]
      simp only
      rw [ih, hsquare, mul_assoc, ← pow_succ', hexp]
    · have hfactor : result' = result := dif_neg hbit
      have heven : exp.toNat % 2 = 0 :=
        Nat.mod_two_ne_one.mp (mt (and_one_ne_zero_iff exp).mpr hbit)
      rw [heven, Nat.add_zero] at hexp
      rw [hfactor] at ih
      rw [if_neg hbit]
      simp only
      rw [ih, hsquare, hexp]
  | case2 base exp result hzero =>
    have h0 : exp.toNat = 0 := Nat.eq_zero_of_not_pos fun hpos => hzero (BitVec.lt_def.mpr hpos)
    rw [powLoop, if_neg hzero, h0, pow_zero, mul_one]

theorem toNat_word_pow (base : Word) (k : Nat) : (base ^ k).toNat = base.toNat ^ k % 2 ^ 32 := by
  induction k with
  | zero => rfl
  | succ k ih => rw [pow_succ, BitVec.toNat_mul, ih, Nat.mod_mul_mod, pow_succ base.toNat]

/-- `pow` is exponentiation modulo 2^32. -/
theorem toNat_pow (base exp : Word) :
    (pow base exp).toNat = base.toNat ^ exp.toNat % 2 ^ 32 := by
  rw [pow, powLoop_eq, one_mul, toNat_word_pow]

end KyroKernel
