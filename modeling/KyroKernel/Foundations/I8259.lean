import KyroKernel.Foundations.BitSet
import KyroKernel.Foundations.PortPrograms

/-!
# The 8259A interrupt controller

One controller with its three registers and its initialization sequence, and the pair of a PC: the
slave drives line 2 of the master. Requests are edge-triggered and wait until the processor takes
them, unless their line falls before; a line in service keeps back itself and all lines of lower
priority until its end of interrupt. A line that falls in the middle of an acknowledge cycle, polling,
rotation and the special mask mode are left out.
-/

namespace KyroKernel.Foundations

/-- The word that a controller waits for after ICW1. -/
inductive InitWord where
  | icw2
  | icw3
  | icw4
  deriving DecidableEq, Repr

/-- Requests, lines in service and masked lines; what was programmed; and the place in the
initialization sequence, `none` when it is over. -/
@[ext] structure I8259 where
  irr : Byte
  isr : Byte
  imr : Byte
  base : Byte
  cascade : Byte
  waitsFor : Option InitWord
  single : Bool
  needsIcw4 : Bool
  autoEoi : Bool
  readsIsr : Bool

/-- The line of the highest priority in a register. -/
def lowestLine (x : Byte) : Option Nat := (List.range 8).find? fun i => x.getLsbD i

namespace I8259

/-- An end of interrupt that names no line ends the one of the highest priority. -/
def endOfInterrupt (c : I8259) : I8259 :=
  match lowestLine c.isr with
  | some i => { c with isr := c.isr &&& ~~~(1#8 <<< i) }
  | none => c

/-- A byte written to the command port: ICW1, OCW3 or OCW2. -/
def writeCommand (c : I8259) (value : Byte) : I8259 :=
  if value.getLsbD 4 then
    { c with
      irr := 0, isr := 0, imr := 0, waitsFor := some .icw2, single := value.getLsbD 1
      needsIcw4 := value.getLsbD 0, autoEoi := false, readsIsr := false }
  else if value.getLsbD 3 then
    if value.getLsbD 1 then { c with readsIsr := value.getLsbD 0 } else c
  else if value &&& 0xE0 = 0x20 then c.endOfInterrupt
  else if value &&& 0xE0 = 0x60 then { c with isr := c.isr &&& ~~~(1#8 <<< (value &&& 7).toNat) }
  else c

/-- A byte written to the data port: the next initialization word, or the mask. -/
def writeData (c : I8259) (value : Byte) : I8259 :=
  match c.waitsFor with
  | some .icw2 =>
    { c with
      base := value &&& 0xF8
      waitsFor :=
        if c.single then if c.needsIcw4 then some .icw4 else none
        else some .icw3 }
  | some .icw3 =>
    { c with cascade := value, waitsFor := if c.needsIcw4 then some .icw4 else none }
  | some .icw4 => { c with autoEoi := value.getLsbD 1, waitsFor := none }
  | none => { c with imr := value }

/-- A read of the command port. -/
def readCommand (c : I8259) : Byte := if c.readsIsr then c.isr else c.irr

/-- An edge on a line. -/
def raise (c : I8259) (line : Nat) : I8259 := { c with irr := c.irr ||| 1#8 <<< line }

/-- A line falls, and with it a request that waits. -/
def lower (c : I8259) (line : Nat) : I8259 := { c with irr := c.irr &&& ~~~(1#8 <<< line) }

/-- The request that goes to the processor: the first line that is requested and not masked, unless
a line of the same or of higher priority is in service. -/
def request (c : I8259) : Option Nat :=
  (lowestLine (c.irr &&& ~~~c.imr)).filter fun i =>
    (lowestLine c.isr).all fun j => i < j

/-- The processor takes the request of a line. -/
def serve (c : I8259) (line : Nat) : I8259 :=
  { c with
    irr := c.irr &&& ~~~(1#8 <<< line)
    isr := if c.autoEoi then c.isr else c.isr ||| 1#8 <<< line }

/-- The vector of a line. -/
def vector (c : I8259) (line : Nat) : Byte := c.base + BitVec.ofNat 8 line

/-- The acknowledge cycle; a request that is gone by then counts as line 7. -/
def acknowledge (c : I8259) : Byte × I8259 :=
  match c.request with
  | some line => (c.vector line, c.serve line)
  | none => (c.vector 7, c)

end I8259

/-! ## Two controllers -/

/-- The two controllers of a PC. -/
structure PicPair where
  master : I8259
  slave : I8259

namespace PicPair

/-- The master with its line 2 as the slave drives it. -/
def cascaded (c : PicPair) : I8259 :=
  { c.master with
    irr := if c.slave.request.isSome then c.master.irr ||| 1#8 <<< 2
      else c.master.irr &&& ~~~(1#8 <<< 2) }

/-- An edge on one of the sixteen lines. -/
def raise (c : PicPair) (line : Nat) : PicPair :=
  if line < 8 then { c with master := c.master.raise line }
  else { c with slave := c.slave.raise (line - 8) }

/-- One of the sixteen lines falls. -/
def lower (c : PicPair) (line : Nat) : PicPair :=
  if line < 8 then { c with master := c.master.lower line }
  else { c with slave := c.slave.lower (line - 8) }

/-- The acknowledge cycle: for a line of the slave the slave gives the vector. -/
def acknowledge (c : PicPair) : Byte × PicPair :=
  if c.cascaded.request = some 2 ∧ c.cascaded.cascade.getLsbD 2 = true then
    ((c.slave.acknowledge).1, ⟨c.cascaded.serve 2, (c.slave.acknowledge).2⟩)
  else ((c.cascaded.acknowledge).1, { c with master := (c.cascaded.acknowledge).2 })

/-- The ports of the pair; a write to another port does nothing to it. -/
def device : PortDevice PicPair where
  write c port value :=
    if port = 0x20 then { c with master := c.master.writeCommand value }
    else if port = 0x21 then { c with master := c.master.writeData value }
    else if port = 0xA0 then { c with slave := c.slave.writeCommand value }
    else if port = 0xA1 then { c with slave := c.slave.writeData value }
    else c
  read c port :=
    if port = 0x20 then (c.cascaded.readCommand, c)
    else if port = 0x21 then (c.master.imr, c)
    else if port = 0xA0 then (c.slave.readCommand, c)
    else if port = 0xA1 then (c.slave.imr, c)
    else (0xFF, c)

end PicPair

/-! ## Registers -/

section registers

variable {x y : Byte} {i : Nat}

theorem lowestLine_eq_none : lowestLine x = none ↔ x = 0 := by
  revert x
  decide +kernel

theorem lowestLine_lt (h : lowestLine x = some i) : i < 8 :=
  List.mem_range.mp (List.mem_of_find?_eq_some h)

/-- The lowest line is in the register, -/
theorem lowestLine_set (h : lowestLine x = some i) : x.getLsbD i = true := List.find?_some h

/-- and no line before it is. -/
theorem lowestLine_before (h : lowestLine x = some i) {j : Nat} (hj : j < i) :
    x.getLsbD j = false := by
  have hi := lowestLine_lt h
  revert x i j
  decide +kernel

theorem lowestLine_eq_some : lowestLine x = some i ↔
    i < 8 ∧ x.getLsbD i = true ∧ ∀ j < i, x.getLsbD j = false := by
  constructor
  · intro h
    exact ⟨lowestLine_lt h, lowestLine_set h, fun j hj => lowestLine_before h hj⟩
  · rintro ⟨hi, hset, hbefore⟩
    cases hlow : lowestLine x with
    | none =>
      rw [lowestLine_eq_none.mp hlow] at hset
      simp at hset
    | some j =>
      rcases Nat.lt_trichotomy i j with hlt | rfl | hlt
      · rw [lowestLine_before hlow hlt] at hset
        cases hset
      · rfl
      · have hj := lowestLine_set hlow
        rw [hbefore j hlt] at hj
        cases hj

theorem lowestLine_bit (hi : i < 8) : lowestLine (1#8 <<< i) = some i := by
  revert i
  decide

/-- Ending the only line in service. -/
theorem bit_and_not_bit (hi : i < 8) : (1#8 <<< i) &&& ~~~(1#8 <<< i) = 0 := by
  revert i
  decide

end registers

namespace I8259

variable {c : I8259} {value : Byte} {i j : Nat}

/-- The last line in service ends. -/
theorem endOfInterrupt_last (hi : i < 8) (h : c.isr = 1#8 <<< i) :
    c.endOfInterrupt = { c with isr := 0 } := by
  rw [endOfInterrupt, h, lowestLine_bit hi]
  change { c with isr := 1#8 <<< i &&& ~~~(1#8 <<< i) } = _
  rw [bit_and_not_bit hi]

/-- With nothing in service an end of interrupt does nothing. -/
theorem endOfInterrupt_idle (h : c.isr = 0) : c.endOfInterrupt = c := by
  rw [endOfInterrupt, h]
  rfl

/-- The command byte 0x20 is the end of interrupt. -/
theorem writeCommand_eoi (c : I8259) : c.writeCommand 0x20 = c.endOfInterrupt := rfl

/-- After the initialization sequence a byte at the data port is the mask. -/
theorem writeData_mask (h : c.waitsFor = none) (value : Byte) :
    c.writeData value = { c with imr := value } := by
  rw [writeData, h]

/-- With nothing in service the first line requested and not masked goes to the processor. -/
theorem request_idle (h : c.isr = 0) : c.request = lowestLine (c.irr &&& ~~~c.imr) := by
  have hnone : lowestLine (0 : Byte) = none := rfl
  rw [request, h, hnone]
  cases lowestLine (c.irr &&& ~~~c.imr) <;> rfl

/-- A request is an unmasked one that was made. -/
theorem request_spec (h : c.request = some i) :
    i < 8 ∧ c.irr.getLsbD i = true ∧ c.imr.getLsbD i = false := by
  obtain ⟨hlow, -⟩ := Option.filter_eq_some_iff.mp h
  have hset := lowestLine_set hlow
  have hi := lowestLine_lt hlow
  rw [BitVec.getLsbD_and, Bool.and_eq_true, BitVec.getLsbD_not, Bool.and_eq_true] at hset
  refine ⟨hi, hset.1, ?_⟩
  simpa using hset.2.2

/-- A controller with all lines masked asks for nothing. -/
theorem request_of_masked (h : c.imr = 0xFF) : c.request = none := by
  have hzero : c.irr &&& ~~~(0xFF : Byte) = 0 := by
    generalize c.irr = x
    revert x
    decide
  rw [request, h, hzero]
  rfl

/-- The initialization sequence of a controller in a cascade, from any state, and its mask. -/
theorem initialized (c : I8259) (base cascade mask : Byte) :
    (((((c.writeCommand 0x11).writeData base).writeData cascade).writeData 1).writeData mask) =
      { irr := 0, isr := 0, imr := mask, base := base &&& 0xF8, cascade := cascade
        waitsFor := none, single := false, needsIcw4 := true, autoEoi := false
        readsIsr := false } := rfl

end I8259

namespace PicPair

variable {c : PicPair} {i j : Nat}

/-- The requests of the master after an edge on one of the sixteen lines. -/
theorem getLsbD_raise (c : PicPair) (hi : i < 8) (j : Nat) :
    (c.raise j).master.irr.getLsbD i = (c.master.irr.getLsbD i || decide (i = j)) := by
  unfold PicPair.raise
  split
  · rename_i hj
    have hset : (c.master.raise j).irr.getLsbD i = true ↔ i = j ∨ c.master.irr.getLsbD i = true :=
      BitSet.getLsbD_or_bit hj i
    rw [Bool.eq_iff_iff, hset, Bool.or_eq_true, decide_eq_true_eq]
    exact or_comm
  · rw [decide_eq_false (by omega), Bool.or_false]

/-- The requests of the master after one of the sixteen lines has fallen. -/
theorem getLsbD_lower (c : PicPair) (hi : i < 8) (j : Nat) :
    (c.lower j).master.irr.getLsbD i = (c.master.irr.getLsbD i && decide (i ≠ j)) := by
  unfold PicPair.lower
  split
  · rename_i hj
    have hreset : (c.master.lower j).irr.getLsbD i = true ↔ i ≠ j ∧ c.master.irr.getLsbD i = true :=
      BitSet.getLsbD_and_not_bit hj hi
    rw [Bool.eq_iff_iff, hreset, Bool.and_eq_true, decide_eq_true_eq]
    exact and_comm
  · rw [decide_eq_true (by omega), Bool.and_true]

/-- With the slave masked the master is as if alone. -/
theorem cascaded_of_masked (h : c.slave.imr = 0xFF) :
    c.cascaded = { c.master with irr := c.master.irr &&& ~~~(1#8 <<< 2) } := by
  rw [cascaded, I8259.request_of_masked h]
  rfl

end PicPair

end KyroKernel.Foundations
