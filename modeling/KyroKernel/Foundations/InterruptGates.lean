import KyroKernel.Foundations.Memory

/-!
# Interrupt gates and how the processor delivers interrupts

The interrupt descriptor table of a 32-bit x86 processor in memory, and the way from a vector to a
handler: a gate that the processor cannot use makes another fault, which goes to the handler of its
own vector, and in the end to the double fault and to a shutdown. The checks of the code segment that
a gate names are left out.
-/

namespace KyroKernel.Foundations

/-- Store a little-endian half word. -/
def Mem.write16 (m : Mem) (a : Word) (v : BitVec 16) : Mem :=
  (m.write8 a (v.extractLsb' 0 8)).write8 (a + 1) (v.extractLsb' 8 8)

/-- A gate, as far as the processor looks at it. -/
@[ext] structure Gate where
  offset : Word
  selector : BitVec 16
  typeAttr : Byte
  deriving DecidableEq

/-- The register that points to the table. -/
structure Idtr where
  limit : BitVec 16
  base : Word

namespace Gate

def present (g : Gate) : Bool := g.typeAttr.getLsbD 7

/-- The least privileged ring that may use the gate with `int`. -/
def dpl (g : Gate) : Nat := (g.typeAttr.extractLsb' 5 2).toNat

/-- The descriptor is a task, an interrupt or a trap gate. -/
def isGate (g : Gate) : Bool := [0x5, 0x6, 0x7, 0xE, 0xF].contains (g.typeAttr &&& 0x1F)

/-- Interrupt gates disable interrupts, trap gates do not. -/
def masksInterrupts (g : Gate) : Bool := [0x6, 0xE].contains (g.typeAttr &&& 0x1F)

end Gate

/-- Where the gate of a vector is. -/
def gateAddr (base : Word) (vector : Byte) : Word := base + 8 * vector.setWidth 32

/-- The gate of a vector. -/
def fetchGate (m : Mem) (base : Word) (vector : Byte) : Gate :=
  let byte (k : Nat) := m (gateAddr base vector + BitVec.ofNat 32 k)
  { offset := byte 7 ++ byte 6 ++ byte 1 ++ byte 0
    selector := byte 3 ++ byte 2
    typeAttr := byte 5 }

/-- What is interrupted: its ring, and whether the task register holds a task state segment with a
stack for ring 0. -/
structure Interrupted where
  cpl : Fin 4
  ringZeroStack : Bool
  deriving DecidableEq

/-- The handler has a stack: that of the code in ring 0, or the one of the segment. -/
def Interrupted.HasStack (i : Interrupted) : Prop := i.cpl.val = 0 ∨ i.ringZeroStack = true

instance (i : Interrupted) : Decidable i.HasStack := inferInstanceAs (Decidable (_ ∨ _))

/-- Why a vector is delivered; `software` is the instruction `int`. -/
inductive Cause where
  | external
  | software
  | exception
  deriving DecidableEq

/-- The instruction `int` may not be used from this ring. -/
def Cause.refusedBy (dpl : Nat) (cpl : Fin 4) (cause : Cause) : Bool :=
  cause = .software && decide (dpl < cpl.val)

/-- The vectors of faults in deliveries. -/
def doubleFault : Byte := 8
def invalidTss : Byte := 10
def segmentNotPresent : Byte := 11
def generalProtection : Byte := 13

/-- The fault that the gate of a vector makes, or the change to the stack of ring 0; `none` when
there is none. -/
def gateFault (m : Mem) (idtr : Idtr) (i : Interrupted) (cause : Cause) (vector : Byte) :
    Option Byte :=
  let g := fetchGate m idtr.base vector
  if idtr.limit.toNat < 8 * vector.toNat + 7 ∨ g.isGate = false then some generalProtection
  else if cause.refusedBy g.dpl i.cpl then some generalProtection
  else if g.present = false then some segmentNotPresent
  else if i.HasStack then none
  else some invalidTss

/-- How a delivery counts when it makes a fault. -/
inductive FaultClass where
  | benign
  | contributory
  | pageFault
  | doubleFault
  deriving DecidableEq

/-- Exceptions 0, 10, 11, 12 and 13 are contributory. -/
def Cause.faultClass (cause : Cause) (vector : Byte) : FaultClass :=
  if cause ≠ .exception then .benign
  else if vector = KyroKernel.Foundations.doubleFault then .doubleFault
  else if vector = 14 then .pageFault
  else if [0, invalidTss, segmentNotPresent, 12, generalProtection].contains vector then
    .contributory
  else .benign

/-- The end of a delivery. -/
inductive Delivery where
  | handler (vector : Byte) (gate : Gate)
  | shutdown
  deriving DecidableEq

/-- The delivery of a double fault. -/
def deliverDoubleFault (m : Mem) (idtr : Idtr) (i : Interrupted) : Delivery :=
  match gateFault m idtr i .exception doubleFault with
  | none => .handler doubleFault (fetchGate m idtr.base doubleFault)
  | some _ => .shutdown

/-- The delivery of a contributory fault: another fault on the way makes a double fault. -/
def deliverContributory (m : Mem) (idtr : Idtr) (i : Interrupted) (vector : Byte) : Delivery :=
  match gateFault m idtr i .exception vector with
  | none => .handler vector (fetchGate m idtr.base vector)
  | some _ => deliverDoubleFault m idtr i

/-- The delivery of a vector. The faults on the way are contributory. -/
def deliver (m : Mem) (idtr : Idtr) (i : Interrupted) (cause : Cause) (vector : Byte) : Delivery :=
  match gateFault m idtr i cause vector with
  | none => .handler vector (fetchGate m idtr.base vector)
  | some fault =>
    match cause.faultClass vector with
    | .benign => deliverContributory m idtr i fault
    | .contributory | .pageFault => deliverDoubleFault m idtr i
    | .doubleFault => .shutdown

/-! ## Bytes of gates -/

variable {m m' : Mem} {base : Word} {idtr : Idtr} {i : Interrupted} {cause : Cause}
  {vector other : Byte}

/-- A gate depends only on its eight bytes. -/
theorem fetchGate_congr (h : ∀ k : Nat, k < 8 →
      m (gateAddr base vector + BitVec.ofNat 32 k) = m' (gateAddr base vector + BitVec.ofNat 32 k)) :
    fetchGate m base vector = fetchGate m' base vector := by
  simp only [fetchGate, h 0 (by decide), h 1 (by decide), h 2 (by decide), h 3 (by decide),
    h 5 (by decide), h 6 (by decide), h 7 (by decide)]

/-- Gates of different vectors lie apart. -/
theorem gateAddr_apart (h : other ≠ vector) {k : Nat} (hk : k < 8) :
    ¬ (gateAddr base other + BitVec.ofNat 32 k - gateAddr base vector).toNat < 8 := by
  have hne : other.toNat ≠ vector.toNat := fun heq => h (BitVec.eq_of_toNat_eq heq)
  -- 8 * 255 + 7 is below 2 ^ 32: the difference of two gates does not wrap back into the second.
  have hother := other.isLt
  have hvector := vector.isLt
  unfold gateAddr
  have hoffset : base + 8 * other.setWidth 32 + BitVec.ofNat 32 k - (base + 8 * vector.setWidth 32) =
      8 * other.setWidth 32 + BitVec.ofNat 32 k - 8 * vector.setWidth 32 := by
    bv_omega
  rw [hoffset]
  bv_omega

/-- The bytes of a gate are among those of the table. -/
theorem gateAddr_mem (base : Word) (vector : Byte) {k : Nat} (hk : k < 8) :
    (gateAddr base vector + BitVec.ofNat 32 k - base).toNat = 8 * vector.toNat + k := by
  have hvector := vector.isLt
  unfold gateAddr
  bv_omega

/-! ## Deliveries -/

theorem deliver_of_gate (h : gateFault m idtr i cause vector = none) :
    deliver m idtr i cause vector = .handler vector (fetchGate m idtr.base vector) := by
  rw [deliver, h]

/-- A fault on the way, by the class of what is delivered. -/
theorem deliver_of_fault {fault : Byte} (h : gateFault m idtr i cause vector = some fault) :
    deliver m idtr i cause vector =
      match cause.faultClass vector with
      | .benign => deliverContributory m idtr i fault
      | .contributory | .pageFault => deliverDoubleFault m idtr i
      | .doubleFault => .shutdown := by
  rw [deliver, h]

/-- A fault that no gate before it has made is delivered like any other. -/
theorem deliver_of_benign {fault : Byte} (h : gateFault m idtr i cause vector = some fault)
    (hclass : cause.faultClass vector = .benign)
    (hfault : gateFault m idtr i .exception fault = none) :
    deliver m idtr i cause vector = .handler fault (fetchGate m idtr.base fault) := by
  rw [deliver_of_fault h, hclass]
  change deliverContributory m idtr i fault = _
  rw [deliverContributory, hfault]

/-- Without a gate for the double fault, a fault in the delivery of a serious exception is the
end. -/
theorem deliver_of_not_benign {fault fault' : Byte}
    (h : gateFault m idtr i cause vector = some fault) (hclass : cause.faultClass vector ≠ .benign)
    (hdouble : gateFault m idtr i .exception doubleFault = some fault') :
    deliver m idtr i cause vector = .shutdown := by
  have hshutdown : deliverDoubleFault m idtr i = .shutdown := by
    rw [deliverDoubleFault, hdouble]
  rw [deliver_of_fault h]
  cases hc : cause.faultClass vector with
  | benign => exact absurd hc hclass
  | contributory => exact hshutdown
  | pageFault => exact hshutdown
  | doubleFault => rfl

/-- Without a stack there is no delivery. -/
theorem gateFault_of_not_hasStack (m : Mem) (idtr : Idtr) (h : ¬ i.HasStack) (cause : Cause)
    (vector : Byte) :
    ∃ fault, gateFault m idtr i cause vector = some fault := by
  unfold gateFault
  simp only [if_neg h]
  split_ifs
  all_goals exact ⟨_, rfl⟩

/-- Whatever is delivered without a stack ends in a shutdown: the faults on the way are not delivered
either. -/
theorem deliver_of_not_hasStack (m : Mem) (idtr : Idtr) (h : ¬ i.HasStack) (cause : Cause)
    (vector : Byte) :
    deliver m idtr i cause vector = .shutdown := by
  obtain ⟨fault, hfault⟩ := gateFault_of_not_hasStack m idtr h cause vector
  obtain ⟨double, hdouble⟩ :=
    gateFault_of_not_hasStack m idtr h .exception doubleFault
  have hshutdown : deliverDoubleFault m idtr i = .shutdown := by
    rw [deliverDoubleFault, hdouble]
  by_cases hclass : cause.faultClass vector = .benign
  -- The fault is delivered as any other; it has no stack either, nor has the double fault after it.
  · obtain ⟨second, hsecond⟩ :=
      gateFault_of_not_hasStack m idtr h .exception fault
    rw [deliver_of_fault hfault, hclass]
    change deliverContributory m idtr i fault = _
    rw [deliverContributory, hsecond]
    exact hshutdown
  · exact deliver_of_not_benign hfault hclass hdouble

end KyroKernel.Foundations
