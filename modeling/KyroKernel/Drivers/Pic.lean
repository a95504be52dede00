import KyroKernel.Drivers.Ports
import KyroKernel.Foundations.BitSet

/-!
# Interrupt lines

`pic_init`, `pic_enable_irq` and `pic_disable_irq` of `kernel/pic.c`. Two mask registers stand for
sixteen lines, a set bit for a line that is masked; the lines of the slave come through line 2 of
the master.
-/

namespace KyroKernel

open Foundations

def pic1Command : BitVec 16 := 0x20
def pic1Data : BitVec 16 := 0x21
def pic2Command : BitVec 16 := 0xA0
def pic2Data : BitVec 16 := 0xA1

def irqCascade : Byte := 2

/-- `ICW1_INIT | ICW1_ICW4`. -/
def icw1 : Byte := 0x10 ||| 0x01

/-- `ICW4_8086`. -/
def icw4 : Byte := 0x01

/-- `pic_init`: the initialization words, and all lines masked. -/
def picInit (p : Ports) : Ports :=
  let p := ioWait (outb p pic1Command icw1)
  let p := ioWait (outb p pic2Command icw1)
  -- The vector offsets.
  let p := ioWait (outb p pic1Data 32)
  let p := ioWait (outb p pic2Data 40)
  -- The cascade: the slave is at line 2 of the master.
  let p := ioWait (outb p pic1Data 4)
  let p := ioWait (outb p pic2Data 2)
  let p := ioWait (outb p pic1Data icw4)
  let p := ioWait (outb p pic2Data icw4)
  outb (outb p pic1Data 0xFF) pic2Data 0xFF

/-- The data port of a line, and its number there. -/
def irqPort (irq : Byte) : BitVec 16 × Byte :=
  if irq < 8 then (pic1Data, irq) else (pic2Data, irq - 8)

/-- `pic_enable_irq`; `1 << irq` is an `int`. -/
def picEnableIrq (p : Ports) (irq : Byte) : Ports :=
  let (port, irq) := irqPort irq
  let value : Byte := ((inb p port).setWidth 32 &&& ~~~(1#32 <<< irq.toNat)).setWidth 8
  outb p port value

/-- `pic_disable_irq`. -/
def picDisableIrq (p : Ports) (irq : Byte) : Ports :=
  let (port, irq) := irqPort irq
  let value : Byte := ((inb p port).setWidth 32 ||| 1#32 <<< irq.toNat).setWidth 8
  outb p port value

/-! ## Section 1: Calls -/

/-- A call that enables or disables a line other than the cascade. -/
structure PicCall where
  enable : Bool
  irq : Byte
  irq_lt : irq.toNat < 16
  not_cascade : irq ≠ irqCascade

def PicCall.run (call : PicCall) (p : Ports) : Ports :=
  if call.enable then picEnableIrq p call.irq else picDisableIrq p call.irq

/-- After `pic_init` and the calls, latest first. -/
def afterPicCalls (p : Ports) : List PicCall → Ports
  | [] => picInit p
  | call :: calls => call.run (afterPicCalls p calls)

/-- The latest call for the line enables it. -/
def LatestEnables (calls : List PicCall) (irq : Byte) : Prop :=
  ∃ call, calls.find? (·.irq = irq) = some call ∧ call.enable = true

/-- The mask bit of the line is set. -/
def IrqMasked (p : Ports) (irq : Byte) : Prop :=
  (inb p (irqPort irq).1).getLsbD (irqPort irq).2.toNat = true

/-- An interrupt on the line gets to the CPU, for a line of the slave through the cascade. -/
def IrqDeliverable (p : Ports) (irq : Byte) : Prop :=
  ¬ IrqMasked p irq ∧ (8 ≤ irq.toNat → ¬ IrqMasked p irqCascade)

/-- Lines that were enabled are deliverable, all others are masked. -/
def LinesRight (p : Ports) (calls : List PicCall) : Prop :=
  ∀ irq : Byte, irq.toNat < 16 → irq ≠ irqCascade →
    (LatestEnables calls irq → IrqDeliverable (afterPicCalls p calls) irq) ∧
    (¬ LatestEnables calls irq → IrqMasked (afterPicCalls p calls) irq)

variable {p : Ports} {irq irq' : Byte} {calls : List PicCall} {call : PicCall}

/-! ## Section 2: The masks as a set of lines -/

/-- The mask registers, master first. -/
def maskWords (p : Ports) (k : Nat) : Byte :=
  if k = 0 then inb p pic1Data else if k = 1 then inb p pic2Data else 0

theorem irqPort_eq (h : irq.toNat < 16) :
    (irqPort irq).1 = (if irq.toNat / 8 = 0 then pic1Data else pic2Data) ∧
      (irqPort irq).2.toNat = irq.toNat % 8 := by
  unfold irqPort
  by_cases hlt : irq < 8
  · have hlt' : irq.toNat < 8 := hlt
    rw [if_pos hlt, if_pos (by omega)]
    exact ⟨rfl, by simp only; omega⟩
  · have hge : 8 ≤ irq.toNat := Nat.not_lt.mp hlt
    rw [if_neg hlt, if_neg (by omega)]
    refine ⟨rfl, ?_⟩
    simp only
    rw [BitVec.toNat_sub, show (8 : Byte).toNat = 8 from rfl]
    omega

/-- The register of a line. -/
theorem maskWords_irq (h : irq.toNat < 16) :
    maskWords p (irq.toNat / 8) = inb p (irqPort irq).1 := by
  obtain ⟨hport, -⟩ := irqPort_eq h
  rw [hport, maskWords]
  split
  · rfl
  · rw [if_pos (by omega)]

theorem irqMasked_iff (h : irq.toNat < 16) :
    IrqMasked p irq ↔ BitSet.Contains (maskWords p) irq.toNat := by
  obtain ⟨-, hbit⟩ := irqPort_eq h
  rw [IrqMasked, BitSet.Contains, maskWords_irq h, hbit]

/-- Writing the register of a line. -/
theorem maskWords_outb (h : irq.toNat < 16) (value : Byte) :
    maskWords (outb p (irqPort irq).1 value) =
      Function.update (maskWords p) (irq.toNat / 8) value := by
  have hne : pic1Data ≠ pic2Data := by decide
  obtain ⟨hport, -⟩ := irqPort_eq h
  funext k
  rw [hport]
  by_cases hmaster : irq.toNat / 8 = 0
  · rw [if_pos hmaster, hmaster]
    by_cases hk : k = 0
    · subst hk
      rw [Function.update_self, maskWords, if_pos rfl, inb_outb]
    · rw [Function.update_of_ne hk, maskWords, maskWords, if_neg hk, if_neg hk,
        inb_outb_of_ne hne.symm]
  · have hslave : irq.toNat / 8 = 1 := by omega
    rw [if_neg hmaster, hslave]
    by_cases hk : k = 1
    · subst hk
      rw [Function.update_self, maskWords, if_neg (by decide), if_pos rfl, inb_outb]
    · rw [Function.update_of_ne hk, maskWords, maskWords, if_neg hk, if_neg hk,
        inb_outb_of_ne hne]

/-- A bit of a byte, masked out or set in an `int`. -/
theorem setWidth_bit {x : Byte} {n : Nat} (hn : n < 8) :
    (x.setWidth 32 &&& ~~~(1#32 <<< n)).setWidth 8 = x &&& ~~~(1#8 <<< n) ∧
      (x.setWidth 32 ||| 1#32 <<< n).setWidth 8 = x ||| 1#8 <<< n := by
  have hn' : n < 32 := by omega
  constructor <;>
  · apply BitVec.eq_of_getLsbD_eq
    intro i hi
    have hi' : i < 32 := by omega
    simp only [BitVec.getLsbD_setWidth, BitVec.getLsbD_and, BitVec.getLsbD_or,
      BitVec.getLsbD_not, BitSet.getLsbD_bit hn, BitSet.getLsbD_bit hn', hi, hi', decide_true,
      Bool.true_and]

/-- Enabling a line takes it out of the masked ones, disabling puts it in. -/
theorem irqMasked_run (call : PicCall) (h : irq.toNat < 16) :
    IrqMasked (call.run p) irq ↔ if irq = call.irq then call.enable = false else IrqMasked p irq := by
  have hlt := call.irq_lt
  have hbit := (irqPort_eq hlt).2
  have hmod : call.irq.toNat % 8 < 8 := Nat.mod_lt _ (by decide)
  rw [irqMasked_iff h, irqMasked_iff h, PicCall.run]
  cases henable : call.enable with
  | true =>
    -- The bit is masked out of the register of the line.
    rw [if_pos rfl, picEnableIrq]
    simp only
    rw [maskWords_outb hlt, hbit, (setWidth_bit hmod).1, ← maskWords_irq hlt,
      BitSet.contains_erase (by decide), BitVec.toNat_ne_iff_ne]
    by_cases heq : irq = call.irq <;> simp [heq]
  | false =>
    rw [if_neg (by decide), picDisableIrq]
    simp only
    rw [maskWords_outb hlt, hbit, (setWidth_bit hmod).2, ← maskWords_irq hlt,
      BitSet.contains_insert (by decide), BitVec.toNat_inj]
    by_cases heq : irq = call.irq <;> simp [heq]

/-! ## Section 3: Histories -/

/-- `pic_init` leaves all lines masked. -/
theorem irqMasked_picInit (p : Ports) (h : irq.toNat < 16) : IrqMasked (picInit p) irq := by
  have h1 : inb (picInit p) pic1Data = 0xFF := rfl
  have h2 : inb (picInit p) pic2Data = 0xFF := rfl
  obtain ⟨hport, hbit⟩ := irqPort_eq h
  have hones : ∀ i < 8, (0xFF : Byte).getLsbD i = true := by decide
  have hmod : irq.toNat % 8 < 8 := Nat.mod_lt _ (by decide)
  rw [IrqMasked, hport, hbit]
  split
  · rw [h1]
    exact hones _ hmod
  · rw [h2]
    exact hones _ hmod

theorem latestEnables_cons : LatestEnables (call :: calls) irq ↔
    if irq = call.irq then call.enable = true else LatestEnables calls irq := by
  unfold LatestEnables
  rw [List.find?_cons]
  by_cases heq : irq = call.irq
  · simp [heq]
  · simp [heq, Ne.symm heq]

/-- A line is masked unless its latest call enables it. -/
theorem irqMasked_afterPicCalls (p : Ports) (calls : List PicCall) (h : irq.toNat < 16) :
    IrqMasked (afterPicCalls p calls) irq ↔ ¬ LatestEnables calls irq := by
  induction calls with
  | nil =>
    -- After `pic_init` no line has a call.
    refine iff_of_true (irqMasked_picInit p h) ?_
    rintro ⟨call, hfind, -⟩
    cases hfind
  | cons call calls ih =>
    rw [afterPicCalls, irqMasked_run call h, latestEnables_cons, ih]
    split
    · simp
    · rfl

/-- The cascade is never enabled. -/
theorem not_latestEnables_cascade (calls : List PicCall) : ¬ LatestEnables calls irqCascade := by
  rintro ⟨call, hfind, -⟩
  have hirq := List.find?_some hfind
  exact call.not_cascade (of_decide_eq_true hirq)

/-- A line of the slave that is enabled stays behind the masked cascade. -/
theorem not_irqDeliverable (p : Ports) (calls : List PicCall) (h : 8 ≤ irq.toNat) :
    ¬ IrqDeliverable (afterPicCalls p calls) irq := by
  rintro ⟨-, hcascade⟩
  apply hcascade h
  exact (irqMasked_afterPicCalls p calls (by decide)).mpr (not_latestEnables_cascade calls)

/-- Each line is as its latest call says exactly when no line of the slave is enabled. -/
theorem linesRight_iff (p : Ports) (calls : List PicCall) :
    LinesRight p calls ↔
      ∀ irq : Byte, 8 ≤ irq.toNat → irq.toNat < 16 → ¬ LatestEnables calls irq := by
  constructor
  · intro h irq hslave hlt henabled
    have hne : irq ≠ irqCascade := by
      rintro rfl
      exact absurd hslave (by decide)
    exact not_irqDeliverable p calls hslave ((h irq hlt hne).1 henabled)
  · intro h irq hlt _
    refine ⟨fun henabled => ⟨?_, fun hslave => absurd henabled (h irq hslave hlt)⟩, fun hnot => ?_⟩
    · exact fun hmasked => (irqMasked_afterPicCalls p calls hlt).mp hmasked henabled
    · exact (irqMasked_afterPicCalls p calls hlt).mpr hnot

/-- Line 14 is enabled and cannot reach the CPU. -/
theorem not_forall_linesRight : ¬ ∀ p calls, LinesRight p calls := by
  intro hall
  have h := hall (fun _ => 0) [⟨true, 14, by decide, by decide⟩] 14 (by decide) (by decide)
  exact not_irqDeliverable _ _ (by decide) (h.1 ⟨_, rfl, rfl⟩)

end KyroKernel
