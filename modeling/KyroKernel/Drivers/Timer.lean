import KyroKernel.Drivers.Ports
import KyroKernel.Foundations.Loop
import Mathlib.Data.Nat.Find

/-!
# Sleeping

`timer_handler` and `sleep` of `kernel/timer.c`. The counter of timer interrupts wraps around at
2^32, and `sleep` compares it with its target as numbers: right as long as the two have made the
same number of turns. How many interrupts come between two checks is arbitrary.
-/

namespace KyroKernel

open Foundations

/-! ## §1 The timer -/

/-- `tick_count`, and the ports. -/
structure Timer where
  tickCount : Word
  ports : Ports

/-- `timer_handler`: it counts, and acknowledges the interrupt. -/
def timerHandler (t : Timer) : Timer :=
  { tickCount := t.tickCount + 1, ports := outb t.ports 0x20 0x20 }

/-- `sleep` at a check of its loop: how many were made before, and the timer. -/
structure Sleeping where
  checks : Nat
  timer : Timer

/-- `hlt` up to the next check, with `interrupts k` timer interrupts before check `k`. -/
def Sleeping.hlt (interrupts : Nat → Nat) (w : Sleeping) : Sleeping :=
  { checks := w.checks + 1, timer := timerHandler^[interrupts (w.checks + 1)] w.timer }

/-- `sleep(milliseconds)`: the check at which it returns, `none` when the fuel runs out first. The
interrupts before check 0 come after `tick_count` was read. -/
def sleep (interrupts : Nat → Nat) (t : Timer) (milliseconds : Word) (fuel : Nat) :
    Option Sleeping :=
  let startTicks := t.tickCount
  let targetTicks := startTicks + milliseconds / 10
  whileLoop (fun w => w.timer.tickCount < targetTicks) (Sleeping.hlt interrupts) fuel
    ⟨0, timerHandler^[interrupts 0] t⟩

/-! ## §2 What a sleep is for -/

/-- The timer interrupts from the call up to check `k`. -/
def elapsed (interrupts : Nat → Nat) : Nat → Nat
  | 0 => interrupts 0
  | k + 1 => elapsed interrupts k + interrupts (k + 1)

/-- The interrupts to wait for: one every 10 ms. -/
def ticksOf (milliseconds : Word) : Nat := milliseconds.toNat / 10

/-- Check `k` is the first one with enough interrupts since the call. -/
def DueAt (interrupts : Nat → Nat) (milliseconds : Word) (k : Nat) : Prop :=
  ticksOf milliseconds ≤ elapsed interrupts k ∧
    ∀ j < k, elapsed interrupts j < ticksOf milliseconds

/-- `sleep` returns at check `k`. -/
def ReturnsAt (interrupts : Nat → Nat) (t : Timer) (milliseconds : Word) (k : Nat) : Prop :=
  ∃ fuel w, sleep interrupts t milliseconds fuel = some w ∧ w.checks = k

/-- `sleep` returns when it is due, and not before. -/
def SleepsRight (interrupts : Nat → Nat) (t : Timer) (milliseconds : Word) : Prop :=
  ∀ k, ReturnsAt interrupts t milliseconds k ↔ DueAt interrupts milliseconds k

/-- The counter does not wrap around between a check and the target: not from a first check that
comes too early up to the target, and not from the target up to the check that is due. -/
structure NoWrap (interrupts : Nat → Nat) (t : Timer) (milliseconds : Word) : Prop where
  early : elapsed interrupts 0 < ticksOf milliseconds →
    (t.tickCount.toNat + elapsed interrupts 0) / 2 ^ 32 =
      (t.tickCount.toNat + ticksOf milliseconds) / 2 ^ 32
  due : ∀ k, DueAt interrupts milliseconds k →
    (t.tickCount.toNat + ticksOf milliseconds) % 2 ^ 32 +
      (elapsed interrupts k - ticksOf milliseconds) % 2 ^ 32 < 2 ^ 32

variable {interrupts : Nat → Nat} {t : Timer} {milliseconds : Word} {n k : Nat}

/-! ## §3 The counter -/

theorem toNat_tickCount (t : Timer) (n : Nat) :
    (timerHandler^[n] t).tickCount.toNat = (t.tickCount.toNat + n) % 2 ^ 32 := by
  induction n with
  | zero => exact (Nat.mod_eq_of_lt t.tickCount.isLt).symm
  | succ n ih =>
    have hstep : (timerHandler^[n + 1] t).tickCount = (timerHandler^[n] t).tickCount + 1 := by
      rw [Function.iterate_succ_apply']
      rfl
    rw [hstep, BitVec.toNat_add, ih, Nat.mod_add_mod]
    rfl

/-- The timer at check `k`. -/
theorem hlt_iterate (interrupts : Nat → Nat) (t : Timer) (k : Nat) :
    (Sleeping.hlt interrupts)^[k] ⟨0, timerHandler^[interrupts 0] t⟩ =
      ⟨k, timerHandler^[elapsed interrupts k] t⟩ := by
  induction k with
  | zero => rfl
  | succ k ih =>
    rw [Function.iterate_succ_apply', ih]
    simp only [Sleeping.hlt, elapsed]
    rw [Nat.add_comm (elapsed interrupts k), Function.iterate_add_apply]

/-- `sleep` compares the counter with its target, both modulo 2^32. -/
def PastTarget (interrupts : Nat → Nat) (t : Timer) (milliseconds : Word) (k : Nat) : Prop :=
  (t.tickCount.toNat + ticksOf milliseconds) % 2 ^ 32 ≤
    (t.tickCount.toNat + elapsed interrupts k) % 2 ^ 32

theorem tickCount_lt_target_iff : (timerHandler^[elapsed interrupts k] t).tickCount <
      t.tickCount + milliseconds / 10 ↔ ¬ PastTarget interrupts t milliseconds k := by
  rw [BitVec.lt_def, toNat_tickCount, BitVec.toNat_add, BitVec.toNat_udiv, PastTarget, Nat.not_le]
  rfl

/-- `sleep` returns at the first check at which the counter is not below the target. -/
theorem returnsAt_iff : ReturnsAt interrupts t milliseconds k ↔
    PastTarget interrupts t milliseconds k ∧
      ∀ j < k, ¬ PastTarget interrupts t milliseconds j := by
  have hcond : ∀ j, decide ((timerHandler^[elapsed interrupts j] t).tickCount <
      t.tickCount + milliseconds / 10) = true ↔ ¬ PastTarget interrupts t milliseconds j :=
    fun j => decide_eq_true_iff.trans tickCount_lt_target_iff
  constructor
  · rintro ⟨fuel, w, hsleep, rfl⟩
    obtain ⟨k, rfl, hstop, hgo⟩ := exists_whileLoop_iff.mp ⟨fuel, hsleep⟩
    simp only [hlt_iterate] at hstop hgo ⊢
    refine ⟨?_, fun j hj => (hcond j).mp (hgo j hj)⟩
    by_contra hpast
    rw [(hcond k).mpr hpast] at hstop
    cases hstop
  · rintro ⟨hpast, hgo⟩
    -- Enough fuel for `k` rounds.
    have hstop : decide ((timerHandler^[elapsed interrupts k] t).tickCount <
        t.tickCount + milliseconds / 10) = false :=
      Bool.eq_false_iff.mpr fun h => (hcond k).mp h hpast
    have hbelow : ∀ j < k, decide
        (((Sleeping.hlt interrupts)^[j] ⟨0, timerHandler^[interrupts 0] t⟩).timer.tickCount <
          t.tickCount + milliseconds / 10) = true := by
      intro j hj
      rw [hlt_iterate]
      exact (hcond j).mpr (hgo j hj)
    have hsleep : ∃ fuel, sleep interrupts t milliseconds fuel =
        some ⟨k, timerHandler^[elapsed interrupts k] t⟩ :=
      exists_whileLoop_iff.mpr ⟨k, hlt_iterate interrupts t k, hstop, hbelow⟩
    obtain ⟨fuel, hsleep⟩ := hsleep
    exact ⟨fuel, _, hsleep, rfl⟩

theorem elapsed_mono {j : Nat} (h : j ≤ k) : elapsed interrupts j ≤ elapsed interrupts k := by
  induction h with
  | refl => exact Nat.le_refl _
  | step _ ih => exact Nat.le_trans ih (Nat.le_add_right _ _)

/-! ## §4 Turns of the counter -/

/-- Two numbers in the same turn of the counter. -/
theorem mod_lt_mod_of_div_eq {x y : Nat} (hdiv : x / 2 ^ 32 = y / 2 ^ 32) (hlt : x < y) :
    x % 2 ^ 32 < y % 2 ^ 32 := by
  omega

/-- `y` is `o` past `x`: it is not below `x` modulo 2^32 exactly when `o` does not carry over. -/
theorem mod_le_mod_add_iff (x o : Nat) :
    x % 2 ^ 32 ≤ (x + o) % 2 ^ 32 ↔ x % 2 ^ 32 + o % 2 ^ 32 < 2 ^ 32 := by
  omega

/-- At the check that is due the counter is past the target exactly when it did not carry over. -/
theorem DueAt.pastTarget_iff (h : DueAt interrupts milliseconds k) :
    PastTarget interrupts t milliseconds k ↔
      (t.tickCount.toNat + ticksOf milliseconds) % 2 ^ 32 +
        (elapsed interrupts k - ticksOf milliseconds) % 2 ^ 32 < 2 ^ 32 := by
  have hpast := mod_le_mod_add_iff (t.tickCount.toNat + ticksOf milliseconds)
    (elapsed interrupts k - ticksOf milliseconds)
  rw [Nat.add_assoc, Nat.add_sub_cancel' h.1] at hpast
  exact hpast

/-- When the first check is in the turn of the target, all checks before the due one are below
it. -/
theorem NoWrap.not_pastTarget (h : NoWrap interrupts t milliseconds)
    (hk : elapsed interrupts k < ticksOf milliseconds) :
    ¬ PastTarget interrupts t milliseconds k := by
  have hmono : elapsed interrupts 0 ≤ elapsed interrupts k := elapsed_mono (Nat.zero_le k)
  have hturn := h.early (Nat.lt_of_le_of_lt hmono hk)
  -- The check lies between the first one and the target.
  have hdiv : (t.tickCount.toNat + elapsed interrupts k) / 2 ^ 32 =
      (t.tickCount.toNat + ticksOf milliseconds) / 2 ^ 32 := by
    have hlo : (t.tickCount.toNat + elapsed interrupts 0) / 2 ^ 32 ≤
        (t.tickCount.toNat + elapsed interrupts k) / 2 ^ 32 :=
      Nat.div_le_div_right (by omega)
    have hhi : (t.tickCount.toNat + elapsed interrupts k) / 2 ^ 32 ≤
        (t.tickCount.toNat + ticksOf milliseconds) / 2 ^ 32 :=
      Nat.div_le_div_right (by omega)
    omega
  exact Nat.not_le.mpr (mod_lt_mod_of_div_eq hdiv (by omega))

/-- A check that has enough interrupts is or comes after one that is due. -/
theorem exists_dueAt (h : ticksOf milliseconds ≤ elapsed interrupts k) :
    ∃ j ≤ k, DueAt interrupts milliseconds j := by
  classical
  have hex : ∃ j, ticksOf milliseconds ≤ elapsed interrupts j := ⟨k, h⟩
  exact ⟨Nat.find hex, Nat.find_le h, Nat.find_spec hex,
    fun j hj => Nat.not_le.mp (Nat.find_min hex hj)⟩

/-- A sleep that starts too early a return has a target in the next turn. -/
theorem early_of_not_pastTarget (hearly : elapsed interrupts 0 < ticksOf milliseconds)
    (hpast : ¬ PastTarget interrupts t milliseconds 0) :
    (t.tickCount.toNat + elapsed interrupts 0) / 2 ^ 32 =
      (t.tickCount.toNat + ticksOf milliseconds) / 2 ^ 32 := by
  have htick := t.tickCount.isLt
  have hms : ticksOf milliseconds ≤ milliseconds.toNat := Nat.div_le_self _ _
  have hms' := milliseconds.isLt
  unfold PastTarget at hpast
  omega

/-- `sleep` returns at the check that is due, and at no other, exactly when the counter does not
wrap around between a check and the target. -/
theorem sleepsRight_iff (interrupts : Nat → Nat) (t : Timer) (milliseconds : Word) :
    SleepsRight interrupts t milliseconds ↔ NoWrap interrupts t milliseconds := by
  constructor
  · intro h
    refine ⟨fun hearly => early_of_not_pastTarget hearly fun hpast => ?_, fun k hdue => ?_⟩
    · -- A return at the first check, which is not due.
      have hreturns : ReturnsAt interrupts t milliseconds 0 :=
        returnsAt_iff.mpr ⟨hpast, fun j hj => absurd hj (Nat.not_lt_zero j)⟩
      exact absurd ((h 0).mp hreturns).1 (Nat.not_le.mpr hearly)
    · exact hdue.pastTarget_iff.mp (returnsAt_iff.mp ((h k).mpr hdue)).1
  · intro h k
    -- Checks before the due one are below the target, and the due one is not.
    rw [returnsAt_iff]
    constructor
    · rintro ⟨hpast, hgo⟩
      have hk : ticksOf milliseconds ≤ elapsed interrupts k :=
        Nat.not_lt.mp fun hlt => h.not_pastTarget hlt hpast
      refine ⟨hk, fun j hj => Nat.not_le.mp fun hle => ?_⟩
      -- An earlier check that is due would have been the last.
      obtain ⟨i, hij, hdue⟩ := exists_dueAt hle
      exact hgo i (Nat.lt_of_le_of_lt hij hj) (hdue.pastTarget_iff.mpr (h.due i hdue))
    · intro hdue
      exact ⟨hdue.pastTarget_iff.mpr (h.due k hdue), fun j hj => h.not_pastTarget (hdue.2 j hj)⟩

/-- 10 ms right before the counter wraps around: `sleep` returns at once. -/
theorem not_forall_sleepsRight :
    ¬ ∀ interrupts t milliseconds, SleepsRight interrupts t milliseconds := by
  intro hall
  have hreturns : ReturnsAt (fun k => k) ⟨0xFFFFFFFF, fun _ => 0⟩ 10 0 := ⟨1, _, rfl, rfl⟩
  have hdue := (hall _ _ _ 0).mp hreturns
  exact absurd hdue.1 (by decide)

end KyroKernel
