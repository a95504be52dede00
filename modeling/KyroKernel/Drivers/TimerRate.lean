import KyroKernel.Drivers.PicPrograms
import KyroKernel.Foundations.I8254

/-!
# The rate of the timer

`timer_init` of `kernel/timer.c` on the interval timer. It divides the frequency of the timer by the
one that is wanted and keeps sixteen bits of the quotient, where zero counts as 2^16 and one is not
allowed; so there are frequencies that it cannot set.
-/

namespace KyroKernel

open Foundations

/-- `PIT_FREQUENCY`. -/
def pitFrequency : Word := 1193180

/-- `timer_init`; `none` for the exception of a division by zero. -/
def OnPorts.timerInit (frequency : Word) : Option (PortProgram Unit) :=
  if frequency = 0 then none
  else
    let divisor := pitFrequency / frequency
    let low := (divisor &&& 0xFF).setWidth 8
    let high := ((divisor >>> 8) &&& 0xFF).setWidth 8
    some do
      outb 0x43 0x36
      outb 0x40 low
      outb 0x40 high

/-- The timer after `timer_init`. -/
def afterTimerInit (t : Pit) (frequency : Word) : Option Pit :=
  (OnPorts.timerInit frequency).bind fun p => (p.run Pit.device t).map Prod.snd

/-- Counter 0 makes an edge every ⌊`PIT_FREQUENCY` / `frequency`⌋ pulses, after one that loads the
count. -/
def KeepsRate (c : PitCounter) (frequency : Word) : Prop :=
  ∀ pulses, c.edges pulses = (pulses - 1) / (pitFrequency.toNat / frequency.toNat)

/-- `timer_init` returns, has set the rate, and has left the other counters alone. -/
def SetsRate (t : Pit) (frequency : Word) : Prop :=
  ∃ t', afterTimerInit t frequency = some t' ∧ KeepsRate t'.counter0 frequency ∧
    t'.counter1 = t.counter1 ∧ t'.counter2 = t.counter2

/-- Counter 0 with this divisor, not started yet. -/
def timerCounter (divisor : Word) : PitCounter where
  mode := 3
  bcd := false
  access := 3
  lowByte := none
  count := some (divisor.setWidth 16)
  element := none
  out := true

variable {divisor frequency : Word} {n k : Nat}

/-- The two bytes of a divisor, put together again. -/
theorem divisor_bytes (divisor : Word) :
    (((divisor >>> 8) &&& 0xFF).setWidth 8 : Byte) ++ ((divisor &&& 0xFF).setWidth 8 : Byte) =
      (divisor.setWidth 16 : BitVec (8 + 8)) := by
  have hmask (i : Nat) (hi : i < 8) : (0xFF : Word).getLsbD i = true := by
    revert hi
    revert i
    decide
  ext i hi
  simp only [BitVec.getElem_append, BitVec.getElem_setWidth, BitVec.getLsbD_and,
    BitVec.getLsbD_ushiftRight]
  split_ifs with hlow
  · rw [hmask i hlow, Bool.and_true]
  · rw [hmask (i - 8) (by omega), Bool.and_true, Nat.add_sub_cancel' (by omega)]

/-- From any state of the timer `timer_init` programs counter 0. -/
theorem afterTimerInit_eq (t : Pit) (h : frequency ≠ 0) :
    afterTimerInit t frequency =
      some { t with counter0 := timerCounter (pitFrequency / frequency) } := by
  have hbytes := divisor_bytes (pitFrequency / frequency)
  rw [afterTimerInit, OnPorts.timerInit, if_neg h, timerCounter, ← hbytes]
  rfl

/-- The low sixteen bits of the divisor as a count. -/
theorem countValue_divisor (divisor : Word) :
    PitCounter.countValue false (divisor.setWidth 16) =
      if divisor.toNat % 2 ^ 16 = 0 then 65536 else divisor.toNat % 2 ^ 16 := by
  have hzero : divisor.setWidth 16 = 0 ↔ divisor.toNat % 2 ^ 16 = 0 := by
    rw [BitVec.toNat_eq, BitVec.toNat_setWidth]
    rfl
  unfold PitCounter.countValue
  by_cases h : divisor.toNat % 2 ^ 16 = 0
  · rw [if_pos (hzero.mpr h), if_pos h]
    rfl
  · rw [if_neg (mt hzero.mp h), if_neg h, BitVec.toNat_setWidth]
    rfl

/-- The period that a divisor sets. -/
theorem period_timerCounter (divisor : Word) :
    (timerCounter divisor).period =
      (some (PitCounter.countValue false (divisor.setWidth 16))).filter (2 ≤ ·) := by
  have hmode : (timerCounter divisor).mode = 3 := rfl
  rw [PitCounter.period, hmode, if_pos (by decide)]
  rfl

/-- Two square waves with the same edges have the same period. -/
theorem eq_of_edges_eq {d : Nat} (hn : 2 ≤ n) (h : ∀ k, (k - 1) / n = (k - 1) / d) : n = d := by
  -- The first edge of each wave is one of the other, so neither period is longer.
  have hfirst := h (n + 1)
  rw [Nat.add_sub_cancel, Nat.div_self (by omega)] at hfirst
  have hd : 0 < d := by
    by_contra hzero
    rw [Nat.eq_zero_of_not_pos hzero, Nat.div_zero] at hfirst
    omega
  have hle : d ≤ n := Nat.le_of_not_lt fun hlt => by
    rw [Nat.div_eq_of_lt hlt] at hfirst
    omega
  have hother := h (d + 1)
  rw [Nat.add_sub_cancel, Nat.div_self hd] at hother
  refine Nat.le_antisymm (Nat.le_of_not_lt fun hlt => ?_) hle
  rw [Nat.div_eq_of_lt hlt] at hother
  omega

/-- A divisor gives edges every so many pulses exactly when it fits and is not one. -/
theorem edges_timerCounter_iff (divisor : Word) :
    (∀ k, (timerCounter divisor).edges k = (k - 1) / divisor.toNat) ↔
      2 ≤ divisor.toNat ∧ divisor.toNat ≤ 65536 := by
  have hperiod := period_timerCounter divisor
  rw [countValue_divisor] at hperiod
  have hfits : divisor.toNat % 2 ^ 16 ≤ divisor.toNat := Nat.mod_le _ _
  have hbelow : divisor.toNat % 2 ^ 16 < 2 ^ 16 := Nat.mod_lt _ (by decide)
  generalize hvalue : (if divisor.toNat % 2 ^ 16 = 0 then 65536 else divisor.toNat % 2 ^ 16) = value
    at hperiod
  by_cases htwo : 2 ≤ value
  · -- The count makes a square wave; the divisor is the count if it has fit.
    rw [Option.filter_some_pos (by simpa using htwo)] at hperiod
    simp only [PitCounter.edges_start hperiod rfl rfl]
    constructor
    · intro h
      have heq := eq_of_edges_eq htwo h
      split at hvalue <;> omega
    · rintro ⟨hmin, hmax⟩ k
      have heq : value = divisor.toNat := by
        split at hvalue <;> omega
      rw [heq]
  · -- A count of one makes no edges at all.
    have hone : divisor.toNat % 2 ^ 16 = 1 := by
      split at hvalue <;> omega
    rw [Option.filter_some_neg (by simpa using htwo)] at hperiod
    simp only [PitCounter.edges_still hperiod]
    constructor
    · intro h
      have hfirst := h (divisor.toNat + 1)
      rw [Nat.add_sub_cancel, Nat.div_self (by omega)] at hfirst
      omega
    · omega

/-- `timer_init` sets the rate exactly for these frequencies, whatever the timer did before. A lower
one has a divisor of more than sixteen bits, and a higher one has the divisor one or zero. -/
theorem setsRate_iff (t : Pit) (frequency : Word) :
    SetsRate t frequency ↔ 19 ≤ frequency.toNat ∧ frequency.toNat ≤ 596590 := by
  by_cases hzero : frequency = 0
  · -- The division faults.
    rw [hzero]
    refine iff_of_false ?_ (by decide)
    rintro ⟨t', hinit, -⟩
    cases hinit
  · have hpos : 0 < frequency.toNat := Nat.pos_of_ne_zero fun h => hzero (BitVec.eq_of_toNat_eq h)
    have hdivisor : (pitFrequency / frequency).toNat = 1193180 / frequency.toNat :=
      BitVec.toNat_udiv
    have hedges := edges_timerCounter_iff (pitFrequency / frequency)
    rw [hdivisor] at hedges
    have hrange : 2 ≤ 1193180 / frequency.toNat ∧ 1193180 / frequency.toNat ≤ 65536 ↔
        19 ≤ frequency.toNat ∧ frequency.toNat ≤ 596590 := by
      rw [Nat.le_div_iff_mul_le hpos, Nat.div_le_iff_le_mul_add_pred hpos]
      omega
    rw [← hrange, ← hedges]
    constructor
    · rintro ⟨t', hinit, hrate, -⟩
      rw [afterTimerInit_eq t hzero] at hinit
      obtain rfl := Option.some.inj hinit
      exact hrate
    · intro hrate
      exact ⟨_, afterTimerInit_eq t hzero, hrate, rfl, rfl⟩

end KyroKernel
