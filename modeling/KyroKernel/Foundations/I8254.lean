import KyroKernel.Foundations.PortPrograms
import Mathlib.Algebra.Order.Group.Nat
import Mathlib.Logic.Function.Iterate

/-!
# The 8254 interval timer

Three counters behind ports 0x40 to 0x43. A control word says what a counter does and which bytes of
its count come next, and pulses of the clock make it count. Counting is modelled for square waves,
mode 3: the counter goes down by two with each pulse and turns its output over when it has run out,
high for one pulse longer if the count is odd. In other modes counters keep still, and nothing is
read back.
-/

namespace KyroKernel.Foundations

/-- One counter: what its control word says, the low byte of a count whose high byte comes next, the
count, what is left of it, and the output. The last counts are `none` until they are there. -/
structure PitCounter where
  mode : BitVec 3
  bcd : Bool
  access : BitVec 2
  lowByte : Option Byte
  count : Option (BitVec 16)
  element : Option Nat
  out : Bool

namespace PitCounter

/-- A control word: the counter stops and waits for a count. Only mode 0 starts low. -/
def program (value : Byte) : PitCounter where
  mode := value.extractLsb' 1 3
  bcd := value.getLsbD 0
  access := value.extractLsb' 4 2
  lowByte := none
  count := none
  element := none
  out := value.extractLsb' 1 3 != 0

/-- A byte of the count. A counter that is counting goes on until its output turns over. -/
def writeCount (c : PitCounter) (value : Byte) : PitCounter :=
  if c.access = 1 then { c with count := some (value.setWidth 16) }
  else if c.access = 2 then { c with count := some (value.setWidth 16 <<< 8) }
  else
    match c.lowByte with
    | none => { c with lowByte := some value }
    | some low => { c with lowByte := none, count := some (value ++ low) }

/-- The number that a count stands for; zero is the largest one. -/
def countValue (bcd : Bool) (x : BitVec 16) : Nat :=
  if x = 0 then if bcd then 10000 else 65536
  else if bcd then
    1000 * (x.extractLsb' 12 4).toNat + 100 * (x.extractLsb' 8 4).toNat +
      10 * (x.extractLsb' 4 4).toNat + (x.extractLsb' 0 4).toNat
  else x.toNat

/-- The pulses of a period, if the counter makes a square wave. A count of one is not allowed. -/
def period (c : PitCounter) : Option Nat :=
  if c.mode &&& 3 = 3 then (c.count.map (countValue c.bcd)).filter (2 ≤ ·) else none

/-- A pulse of the clock: the first one loads the count. -/
def pulse (c : PitCounter) : PitCounter :=
  match c.period, c.element with
  | none, _ => c
  | some n, none => { c with element := some (n - n % 2) }
  | some n, some left =>
    if left = 0 ∨ left = 2 ∧ (n % 2 = 0 ∨ c.out = false) then
      { c with element := some (n - n % 2), out := !c.out }
    else { c with element := some (left - 2) }

/-- The output goes up with the next pulse. -/
def rises (c : PitCounter) : Bool := !c.out && c.pulse.out

/-- The number of times that the output goes up. -/
def edges (c : PitCounter) : Nat → Nat
  | 0 => 0
  | k + 1 => c.edges k + (pulse^[k] c).rises.toNat

end PitCounter

/-- The three counters. -/
structure Pit where
  counter0 : PitCounter
  counter1 : PitCounter
  counter2 : PitCounter

namespace Pit

/-- A control word for one counter; the others are commands for reading. -/
def writeControl (t : Pit) (value : Byte) : Pit :=
  if value.extractLsb' 4 2 = 0 then t
  else if value.extractLsb' 6 2 = 0 then { t with counter0 := PitCounter.program value }
  else if value.extractLsb' 6 2 = 1 then { t with counter1 := PitCounter.program value }
  else if value.extractLsb' 6 2 = 2 then { t with counter2 := PitCounter.program value }
  else t

def device : PortDevice Pit where
  write t port value :=
    if port = 0x40 then { t with counter0 := t.counter0.writeCount value }
    else if port = 0x41 then { t with counter1 := t.counter1.writeCount value }
    else if port = 0x42 then { t with counter2 := t.counter2.writeCount value }
    else if port = 0x43 then t.writeControl value
    else t
  read t _ := (0xFF, t)

end Pit

/-! ## The square wave -/

namespace PitCounter

variable {c : PitCounter} {n j : Nat}

/-- The counter is this many pulses into its period of `n`: first high, then low. -/
structure AtPhase (n j : Nat) (c : PitCounter) : Prop where
  period : c.period = some n
  high : j < (n + 1) / 2 → c.element = some (n - n % 2 - 2 * j) ∧ c.out = true
  low : (n + 1) / 2 ≤ j → c.element = some (n - n % 2 - 2 * (j - (n + 1) / 2)) ∧ c.out = false

theorem two_le_period (h : c.period = some n) : 2 ≤ n := by
  unfold period at h
  split at h
  · simpa using (Option.filter_eq_some_iff.mp h).2
  · cases h

theorem pulse_load (hperiod : c.period = some n) (helement : c.element = none) :
    c.pulse = { c with element := some (n - n % 2) } := by
  simp only [pulse, hperiod, helement]

theorem pulse_count {left : Nat} (hperiod : c.period = some n) (helement : c.element = some left) :
    c.pulse =
      if left = 0 ∨ left = 2 ∧ (n % 2 = 0 ∨ c.out = false) then
        { c with element := some (n - n % 2), out := !c.out }
      else { c with element := some (left - 2) } := by
  simp only [pulse, hperiod, helement]

theorem pulse_still (h : c.period = none) : c.pulse = c := by
  simp only [pulse, h]

/-- The next pulse, also from the end of a period to the beginning of the next. -/
theorem AtPhase.pulse (h : AtPhase n j c) (hj : j < n) : AtPhase n ((j + 1) % n) c.pulse := by
  have hn := two_le_period h.period
  rcases Nat.lt_or_ge j ((n + 1) / 2) with hhigh | hlow
  · -- High, down to 2 for an even count and to 0 for an odd one.
    obtain ⟨helement, hout⟩ := h.high hhigh
    have hnext : (j + 1) % n = j + 1 := Nat.mod_eq_of_lt (by omega)
    rw [pulse_count h.period helement, hnext, hout]
    simp only [Bool.true_eq_false, or_false]
    by_cases hlast : j + 1 = (n + 1) / 2
    · rw [if_pos (by omega)]
      refine ⟨h.period, fun _ => by omega, fun _ => ⟨?_, rfl⟩⟩
      rw [hlast, Nat.sub_self, Nat.mul_zero, Nat.sub_zero]
    · rw [if_neg (by omega)]
      refine ⟨h.period, fun _ => ⟨?_, rfl⟩, fun _ => by omega⟩
      exact congrArg some (by omega)
  · -- Low, down to 2 for any count, so an odd one is low for one pulse less.
    obtain ⟨helement, hout⟩ := h.low hlow
    rw [pulse_count h.period helement, hout]
    simp only [or_true, and_true]
    by_cases hlast : j + 1 = n
    · rw [if_pos (by omega), hlast, Nat.mod_self]
      exact ⟨h.period, fun _ => ⟨rfl, rfl⟩, fun hle => by omega⟩
    · have hnext : (j + 1) % n = j + 1 := Nat.mod_eq_of_lt (by omega)
      rw [if_neg (by omega), hnext]
      refine ⟨h.period, fun _ => by omega, fun _ => ⟨?_, rfl⟩⟩
      exact congrArg some (by omega)

/-- The output goes up at the end of a period, and at no other time. -/
theorem AtPhase.rises_iff (h : AtPhase n j c) (hj : j < n) : c.rises = true ↔ j + 1 = n := by
  have hn := two_le_period h.period
  have hnext := h.pulse hj
  unfold rises
  rcases Nat.lt_or_ge j ((n + 1) / 2) with hhigh | hlow
  · rw [(h.high hhigh).2]
    exact iff_of_false Bool.false_ne_true (by omega)
  · rw [(h.low hlow).2]
    by_cases hlast : j + 1 = n
    · rw [hlast, Nat.mod_self] at hnext
      rw [(hnext.high (by omega)).2]
      exact iff_of_true rfl hlast
    · rw [Nat.mod_eq_of_lt (by omega)] at hnext
      rw [(hnext.low (by omega)).2]
      exact iff_of_false Bool.false_ne_true hlast

theorem AtPhase.pulses (h : AtPhase n 0 c) (k : Nat) : AtPhase n (k % n) (PitCounter.pulse^[k] c) := by
  have hn := two_le_period h.period
  induction k with
  | zero => exact (Nat.zero_mod n).symm ▸ h
  | succ k ih =>
    rw [Function.iterate_succ_apply', ← Nat.mod_add_mod]
    exact ih.pulse (Nat.mod_lt k (by omega))

/-- One edge for every full period. -/
theorem AtPhase.edges (h : AtPhase n 0 c) (k : Nat) : c.edges k = k / n := by
  have hn := two_le_period h.period
  induction k with
  | zero => exact (Nat.zero_div n).symm
  | succ k ih =>
    -- The pulse after `k` others makes an edge exactly when `k + 1` is a multiple of the period.
    have hlast := (h.pulses k).rises_iff (Nat.mod_lt k (by omega))
    rw [PitCounter.edges, ih, Nat.succ_div]
    by_cases hdvd : n ∣ k + 1
    · have hend : k % n + 1 = n := by
        have hmod := Nat.mod_eq_zero_of_dvd hdvd
        have hlt := Nat.mod_lt k (show n > 0 by omega)
        rw [← Nat.mod_add_mod] at hmod
        by_contra hne
        rw [Nat.mod_eq_of_lt (by omega)] at hmod
        omega
      rw [if_pos hdvd, hlast.mpr hend]
      rfl
    · have hend : ¬ k % n + 1 = n := by
        intro hend
        refine hdvd (Nat.dvd_of_mod_eq_zero ?_)
        rw [← Nat.mod_add_mod, hend, Nat.mod_self]
      rw [if_neg hdvd, Bool.eq_false_iff.mpr (mt hlast.mp hend)]
      rfl

/-- A counter that was programmed: one pulse loads the count. -/
theorem edges_start (hperiod : c.period = some n) (helement : c.element = none)
    (hout : c.out = true) (k : Nat) : c.edges k = (k - 1) / n := by
  have hn := two_le_period hperiod
  have hphase : AtPhase n 0 c.pulse := by
    rw [pulse_load hperiod helement]
    exact ⟨hperiod, fun _ => ⟨rfl, hout⟩, fun hle => by omega⟩
  have hfirst : c.rises = false := by
    unfold rises
    rw [hout]
    rfl
  -- The first pulse makes no edge, and the others are those of the counter after it.
  have hshift (k : Nat) : c.edges (k + 1) = c.pulse.edges k := by
    induction k with
    | zero =>
      change 0 + c.rises.toNat = 0
      rw [hfirst]
      rfl
    | succ k ih =>
      rw [PitCounter.edges, ih, PitCounter.edges, Function.iterate_succ_apply]
  cases k with
  | zero => exact (Nat.zero_div n).symm
  | succ k => exact (hshift k).trans (hphase.edges k)

/-- A counter without a period makes no edges. -/
theorem edges_still (h : c.period = none) (k : Nat) : c.edges k = 0 := by
  have hstill (k : Nat) : pulse^[k] c = c := Function.iterate_fixed (pulse_still h) k
  have hrises : c.rises = false := by
    unfold rises
    rw [pulse_still h, Bool.not_and_self]
  induction k with
  | zero => rfl
  | succ k ih => rw [PitCounter.edges, ih, hstill, hrises]; rfl

end PitCounter

end KyroKernel.Foundations
