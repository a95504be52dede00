import KyroKernel.Drivers.Pic
import KyroKernel.Foundations.I8259

/-!
# The interrupt controllers behind the ports

All of `kernel/pic.c` as programs on the two controllers. Ports that read back what was written to
them are enough for the masks: after `pic_init` the data ports of the controllers are such ports.
What the masks say is then what gets to the processor, with the vectors that `pic_init` has set.
-/

namespace KyroKernel

open Foundations

namespace OnPorts

/-- `outb`. -/
def outb (port : Port) (value : Byte) : PortProgram Unit := .write port value (.done ())

/-- `inb`. -/
def inb (port : Port) : PortProgram Byte := .read port .done

/-- `io_wait`. -/
def ioWait : PortProgram Unit := outb 0x80 0

/-- `pic_init`. -/
def picInit : PortProgram Unit := do
  outb pic1Command icw1
  ioWait
  outb pic2Command icw1
  ioWait
  outb pic1Data 32
  ioWait
  outb pic2Data 40
  ioWait
  outb pic1Data 4
  ioWait
  outb pic2Data 2
  ioWait
  outb pic1Data icw4
  ioWait
  outb pic2Data icw4
  ioWait
  outb pic1Data 0xFF
  outb pic2Data 0xFF

/-- `pic_enable_irq`. -/
def picEnableIrq (irq : Byte) : PortProgram Unit := do
  let value ← inb (irqPort irq).1
  outb (irqPort irq).1 ((value.setWidth 32 &&& ~~~(1#32 <<< (irqPort irq).2.toNat)).setWidth 8)

/-- `pic_disable_irq`. -/
def picDisableIrq (irq : Byte) : PortProgram Unit := do
  let value ← inb (irqPort irq).1
  outb (irqPort irq).1 ((value.setWidth 32 ||| 1#32 <<< (irqPort irq).2.toNat).setWidth 8)

/-- `PIC_EOI`. -/
def picEoi : Byte := 0x20

/-- `pic_send_eoi`. -/
def picSendEoi (irq : Byte) : PortProgram Unit := do
  if irq ≥ 8 then outb pic2Command picEoi
  outb pic1Command picEoi

/-- `pic_mask_all`. -/
def picMaskAll : PortProgram Unit := do
  outb pic1Data 0xFF
  outb pic2Data 0xFF

/-- `pic_unmask_all`. -/
def picUnmaskAll : PortProgram Unit := do
  outb pic1Data 0x00
  outb pic2Data 0x00

/-- `(inb(PIC2_COMMAND) << 8) | inb(PIC1_COMMAND)`. -/
def picReadBoth : PortProgram (BitVec 16) := do
  let slave ← inb pic2Command
  let master ← inb pic1Command
  return (slave.setWidth 32 <<< 8 ||| master.setWidth 32).setWidth 16

/-- `pic_get_irr`. -/
def picGetIrr : PortProgram (BitVec 16) := do
  outb pic1Command 0x0A
  outb pic2Command 0x0A
  picReadBoth

/-- `pic_get_isr`. -/
def picGetIsr : PortProgram (BitVec 16) := do
  outb pic1Command 0x0B
  outb pic2Command 0x0B
  picReadBoth

end OnPorts

/-- A call that enables or disables a line. -/
def PicCall.program (call : PicCall) : PortProgram Unit :=
  if call.enable then OnPorts.picEnableIrq call.irq else OnPorts.picDisableIrq call.irq

/-- The controllers after a program that does not wait. -/
def afterProgram (c : PicPair) (p : PortProgram Unit) : PicPair :=
  ((p.run PicPair.device c).map Prod.snd).getD c

/-- The controllers after `pic_init` and the calls, latest first. -/
def pairAfterCalls (c : PicPair) : List PicCall → PicPair
  | [] => afterProgram c OnPorts.picInit
  | call :: calls => afterProgram (pairAfterCalls c calls) call.program

/-! ## Section 1: The ports of the model before -/

/-- The ports that read back the byte last written to them. -/
def Ports.device : PortDevice Ports where
  write := outb
  read p port := (inb p port, p)

variable {c : PicPair} {p : Ports} {calls : List PicCall} {irq : Byte}

theorem run_picInit (p : Ports) : OnPorts.picInit.run Ports.device p = some ((), picInit p) := rfl

theorem run_program (call : PicCall) (p : Ports) :
    call.program.run Ports.device p = some ((), call.run p) := by
  unfold PicCall.program PicCall.run
  split <;> rfl

/-! ## Section 2: The masks -/

/-- The controllers take masks at their data ports, and the masks are those of the ports. -/
structure MasksRead (c : PicPair) (p : Ports) : Prop where
  master_ready : c.master.waitsFor = none
  slave_ready : c.slave.waitsFor = none
  master : c.master.imr = inb p pic1Data
  slave : c.slave.imr = inb p pic2Data

/-- What `pic_init` leaves behind in a controller, apart from its mask and its registers. -/
structure Programmed (c : I8259) (base cascade : Byte) : Prop where
  ready : c.waitsFor = none
  base : c.base = base
  cascade : c.cascade = cascade
  not_auto : c.autoEoi = false

/-- A controller that nothing was asked of. -/
structure Unrequested (c : I8259) : Prop where
  irr : c.irr = 0
  isr : c.isr = 0

/-- Both controllers after `pic_init` and any calls: the interrupts of the processor start at vector
32 and nothing has come in meanwhile. -/
structure PicsReady (c : PicPair) : Prop where
  master : Programmed c.master 32 4
  slave : Programmed c.slave 40 2
  master_unrequested : Unrequested c.master
  slave_unrequested : Unrequested c.slave

/-- From any state `pic_init` programs both controllers and masks all lines. -/
theorem afterProgram_picInit (c : PicPair) :
    afterProgram c OnPorts.picInit =
      ⟨{ irr := 0, isr := 0, imr := 0xFF, base := 32, cascade := 4, waitsFor := none
         single := false, needsIcw4 := true, autoEoi := false, readsIsr := false },
        { irr := 0, isr := 0, imr := 0xFF, base := 40, cascade := 2, waitsFor := none
          single := false, needsIcw4 := true, autoEoi := false, readsIsr := false }⟩ := rfl

theorem picsReady_picInit (c : PicPair) : PicsReady (afterProgram c OnPorts.picInit) := by
  rw [afterProgram_picInit]
  exact ⟨⟨rfl, rfl, rfl, rfl⟩, ⟨rfl, rfl, rfl, rfl⟩, ⟨rfl, rfl⟩, ⟨rfl, rfl⟩⟩

theorem masksRead_picInit (c : PicPair) (p : Ports) :
    MasksRead (afterProgram c OnPorts.picInit) (picInit p) := by
  rw [afterProgram_picInit]
  exact ⟨rfl, rfl, rfl, rfl⟩

/-- The new mask of a call, from the old one. -/
def PicCall.mask (call : PicCall) (mask : Byte) : Byte :=
  if call.enable then (mask.setWidth 32 &&& ~~~(1#32 <<< (irqPort call.irq).2.toNat)).setWidth 8
  else (mask.setWidth 32 ||| 1#32 <<< (irqPort call.irq).2.toNat).setWidth 8

/-- A call changes the mask of the controller of its line. -/
theorem afterProgram_program (hmaster : c.master.waitsFor = none) (hslave : c.slave.waitsFor = none)
    (call : PicCall) :
    afterProgram c call.program =
      if call.irq < 8 then { c with master := { c.master with imr := call.mask c.master.imr } }
      else { c with slave := { c.slave with imr := call.mask c.slave.imr } } := by
  have hm (mask : Byte) := I8259.writeData_mask hmaster mask
  have hs (mask : Byte) := I8259.writeData_mask hslave mask
  unfold PicCall.program PicCall.mask
  by_cases hline : call.irq < 8
  · have hport : irqPort call.irq = (pic1Data, call.irq) := if_pos hline
    rw [if_pos hline]
    split
    · rw [← hm, OnPorts.picEnableIrq, hport]
      rfl
    · rw [← hm, OnPorts.picDisableIrq, hport]
      rfl
  · have hport : irqPort call.irq = (pic2Data, call.irq - 8) := if_neg hline
    rw [if_neg hline]
    split
    · rw [← hs, OnPorts.picEnableIrq, hport]
      rfl
    · rw [← hs, OnPorts.picDisableIrq, hport]
      rfl

/-- The same call on the ports. -/
theorem inb_run (call : PicCall) (p : Ports) :
    inb (call.run p) pic1Data =
        (if call.irq < 8 then call.mask (inb p pic1Data) else inb p pic1Data) ∧
      inb (call.run p) pic2Data =
        (if call.irq < 8 then inb p pic2Data else call.mask (inb p pic2Data)) := by
  have hne : pic2Data ≠ pic1Data := by decide
  have hrun : call.run p = outb p (irqPort call.irq).1 (call.mask (inb p (irqPort call.irq).1)) := by
    unfold PicCall.run PicCall.mask
    split <;> rfl
  rw [hrun]
  by_cases hline : call.irq < 8
  · have hport : irqPort call.irq = (pic1Data, call.irq) := if_pos hline
    rw [hport, if_pos hline, if_pos hline]
    exact ⟨inb_outb _ _ _, inb_outb_of_ne hne _⟩
  · have hport : irqPort call.irq = (pic2Data, call.irq - 8) := if_neg hline
    rw [hport, if_neg hline, if_neg hline]
    exact ⟨inb_outb_of_ne hne.symm _, inb_outb _ _ _⟩

/-- A call keeps the controllers programmed, and their masks those of the ports. -/
theorem MasksRead.program (h : MasksRead c p) (hready : PicsReady c) (call : PicCall) :
    MasksRead (afterProgram c call.program) (call.run p) ∧ PicsReady (afterProgram c call.program) := by
  obtain ⟨hmaster, hslave⟩ := inb_run call p
  rw [afterProgram_program h.master_ready h.slave_ready]
  by_cases hline : call.irq < 8
  · rw [if_pos hline] at hmaster hslave ⊢
    refine ⟨⟨h.master_ready, h.slave_ready, ?_, ?_⟩, ?_⟩
    · rw [hmaster, ← h.master]
    · rw [hslave, ← h.slave]
    · exact ⟨⟨h.master_ready, hready.master.base, hready.master.cascade, hready.master.not_auto⟩,
        hready.slave, ⟨hready.master_unrequested.irr, hready.master_unrequested.isr⟩,
        hready.slave_unrequested⟩
  · rw [if_neg hline] at hmaster hslave ⊢
    refine ⟨⟨h.master_ready, h.slave_ready, ?_, ?_⟩, ?_⟩
    · rw [hmaster, ← h.master]
    · rw [hslave, ← h.slave]
    · exact ⟨hready.master,
        ⟨h.slave_ready, hready.slave.base, hready.slave.cascade, hready.slave.not_auto⟩,
        hready.master_unrequested,
        ⟨hready.slave_unrequested.irr, hready.slave_unrequested.isr⟩⟩

/-- After any calls the ports read back the masks of the controllers. -/
theorem masksRead_pairAfterCalls (c : PicPair) (p : Ports) (calls : List PicCall) :
    MasksRead (pairAfterCalls c calls) (afterPicCalls p calls) ∧ PicsReady (pairAfterCalls c calls) := by
  induction calls with
  | nil => exact ⟨masksRead_picInit c p, picsReady_picInit c⟩
  | cons call calls ih => exact ih.1.program ih.2 call

/-! ## Section 3: Requests -/

/-- Lines that come in one after the other. -/
def raiseLines (c : PicPair) (lines : List Nat) : PicPair := lines.foldl PicPair.raise c

/-- The line has come in, and its latest call enables it. -/
def Wanted (calls : List PicCall) (lines : List Nat) (line : Nat) : Prop :=
  line ∈ lines ∧ LatestEnables calls (BitVec.ofNat 8 line)

/-- The processor gets the enabled lines of the master that have come in, in their order, each
with its own vector, and no others. -/
structure DeliversWanted (c : PicPair) (calls : List PicCall) (lines : List Nat) : Prop where
  request : ∀ line, c.cascaded.request = some line ↔
    line < 8 ∧ Wanted calls lines line ∧ ∀ earlier < line, ¬ Wanted calls lines earlier
  acknowledge : ∀ line, c.cascaded.request = some line →
    c.acknowledge = (32 + BitVec.ofNat 8 line, ⟨c.cascaded.serve line, c.slave⟩)

variable {lines : List Nat}

/-- Lines change the requests only. -/
theorem raiseLines_spec (c : PicPair) (lines : List Nat) :
    (raiseLines c lines).master = { c.master with irr := (raiseLines c lines).master.irr } ∧
      (raiseLines c lines).slave = { c.slave with irr := (raiseLines c lines).slave.irr } ∧
      ∀ i < 8, ((raiseLines c lines).master.irr.getLsbD i = true ↔
        c.master.irr.getLsbD i = true ∨ i ∈ lines) := by
  induction lines generalizing c with
  | nil => exact ⟨rfl, rfl, fun i _ => by simp [raiseLines]⟩
  | cons line lines ih =>
    obtain ⟨hmaster, hslave, hirr⟩ := ih (c.raise line)
    have hcons : raiseLines c (line :: lines) = raiseLines (c.raise line) lines := rfl
    rw [hcons]
    by_cases hline : line < 8
    · have hraise : c.raise line = { c with master := c.master.raise line } := if_pos hline
      rw [hraise] at hmaster hslave hirr ⊢
      refine ⟨hmaster, hslave, fun i hi => ?_⟩
      rw [hirr i hi, I8259.raise, BitSet.getLsbD_or_bit hline, List.mem_cons]
      tauto
    · have hraise : c.raise line = { c with slave := c.slave.raise (line - 8) } := if_neg hline
      rw [hraise] at hmaster hslave hirr ⊢
      refine ⟨hmaster, hslave, fun i hi => ?_⟩
      have hne : i ≠ line := by omega
      rw [hirr i hi, List.mem_cons]
      tauto

/-- The mask bit of a line of the master, after any calls. -/
theorem imr_pairAfterCalls (c : PicPair) (calls : List PicCall) {i : Nat} (hi : i < 8) :
    (pairAfterCalls c calls).master.imr.getLsbD i = false ↔
      LatestEnables calls (BitVec.ofNat 8 i) := by
  obtain ⟨hmasks, -⟩ := masksRead_pairAfterCalls c (fun _ => 0) calls
  have htoNat : (BitVec.ofNat 8 i).toNat = i := by
    rw [BitVec.toNat_ofNat]
    omega
  have hirq : (BitVec.ofNat 8 i).toNat < 16 := by omega
  have hlow : BitVec.ofNat 8 i < 8 := by
    rw [BitVec.lt_def, htoNat]
    exact hi
  have hport : irqPort (BitVec.ofNat 8 i) = (pic1Data, BitVec.ofNat 8 i) := if_pos hlow
  have hmasked := irqMasked_afterPicCalls (fun _ => 0) calls hirq
  rw [IrqMasked, hport, htoNat, ← hmasks.master] at hmasked
  rw [← Bool.not_eq_true, hmasked, Classical.not_not]

/-- After any calls and any lines the processor gets what is enabled and has come in. -/
theorem deliversWanted (c : PicPair) (calls : List PicCall) (lines : List Nat) :
    DeliversWanted (raiseLines (pairAfterCalls c calls) lines) calls lines := by
  obtain ⟨hmasks, hready⟩ := masksRead_pairAfterCalls c (fun _ => 0) calls
  obtain ⟨hmaster, hslave, hirr⟩ := raiseLines_spec (pairAfterCalls c calls) lines
  generalize hc : raiseLines (pairAfterCalls c calls) lines = c' at hmaster hslave hirr ⊢
  have himr : c'.master.imr = (pairAfterCalls c calls).master.imr := by rw [hmaster]
  have hisr : c'.cascaded.isr = 0 := by
    change c'.master.isr = 0
    rw [hmaster]
    exact hready.master_unrequested.isr
  have hcascade : ¬ LatestEnables calls (BitVec.ofNat 8 2) := not_latestEnables_cascade calls
  -- The line of the cascade is masked, so what the slave does to it does not matter.
  have hbit (i : Nat) (hi : i < 8) :
      (c'.cascaded.irr &&& ~~~c'.cascaded.imr).getLsbD i = true ↔ Wanted calls lines i := by
    have hmask := imr_pairAfterCalls c calls hi
    rw [← himr] at hmask
    have hcasc : c'.cascaded.imr = c'.master.imr := rfl
    rw [BitVec.getLsbD_and, BitVec.getLsbD_not, hcasc, Bool.and_eq_true, Bool.and_eq_true,
      Bool.not_eq_true', hmask, Wanted]
    by_cases htwo : i = 2
    · subst htwo
      simp [hcascade]
    · have hsame : c'.cascaded.irr.getLsbD i = c'.master.irr.getLsbD i := by
        unfold PicPair.cascaded
        split
        · have hor := BitSet.getLsbD_or_bit (x := c'.master.irr) (by decide : 2 < 8) i
          rw [Bool.eq_iff_iff, hor]
          simp [htwo]
        · have hand := BitSet.getLsbD_and_not_bit (x := c'.master.irr) (by decide : 2 < 8) hi
          rw [Bool.eq_iff_iff, hand]
          simp [htwo]
      rw [hsame, hirr i hi, hready.master_unrequested.irr]
      simp [hi]
  have hrequest (line : Nat) : c'.cascaded.request = some line ↔
      line < 8 ∧ Wanted calls lines line ∧ ∀ earlier < line, ¬ Wanted calls lines earlier := by
    rw [I8259.request_idle hisr, lowestLine_eq_some]
    refine and_congr_right fun hline => and_congr (hbit line hline) ?_
    refine forall₂_congr fun j hj => ?_
    rw [← hbit j (by omega), Bool.not_eq_true]
  refine ⟨hrequest, fun line hline => ?_⟩
  have hne : ¬ (c'.cascaded.request = some 2 ∧ c'.cascaded.cascade.getLsbD 2 = true) := by
    rintro ⟨htwo, -⟩
    exact hcascade ((hrequest 2).mp htwo).2.1.2
  have hbase : c'.cascaded.base = 32 := by
    change c'.master.base = 32
    rw [hmaster]
    exact hready.master.base
  rw [PicPair.acknowledge, if_neg hne, I8259.acknowledge, hline]
  change (c'.cascaded.base + BitVec.ofNat 8 line, _) = _
  rw [hbase]

/-! ## Section 4: All lines at once -/

/-- The masks of both controllers. -/
theorem run_masks (hready : PicsReady c) (value : Byte) :
    (do OnPorts.outb pic1Data value
        OnPorts.outb pic2Data value : PortProgram Unit).run PicPair.device c =
      some ((), ⟨{ c.master with imr := value }, { c.slave with imr := value }⟩) := by
  rw [← I8259.writeData_mask hready.master.ready, ← I8259.writeData_mask hready.slave.ready]
  rfl

/-- After `pic_mask_all` no line gets to the processor, whatever comes in. -/
theorem run_picMaskAll (hready : PicsReady c) (lines : List Nat) : ∃ c',
    OnPorts.picMaskAll.run PicPair.device c = some ((), c') ∧
      (raiseLines c' lines).cascaded.request = none := by
  refine ⟨_, run_masks hready 0xFF, ?_⟩
  obtain ⟨hmaster, -, -⟩ := raiseLines_spec
    ⟨{ c.master with imr := 0xFF }, { c.slave with imr := 0xFF }⟩ lines
  apply I8259.request_of_masked
  change (raiseLines _ lines).master.imr = 0xFF
  rw [hmaster]

/-- After `pic_unmask_all` the processor gets the first line of the master that has come in. -/
theorem run_picUnmaskAll (hready : PicsReady c) (lines : List Nat) : ∃ c',
    OnPorts.picUnmaskAll.run PicPair.device c = some ((), c') ∧
      (raiseLines c' lines).cascaded.request = lowestLine (raiseLines c' lines).cascaded.irr := by
  refine ⟨_, run_masks hready 0x00, ?_⟩
  obtain ⟨hmaster, -, -⟩ := raiseLines_spec
    ⟨{ c.master with imr := 0x00 }, { c.slave with imr := 0x00 }⟩ lines
  generalize raiseLines _ lines = c' at hmaster ⊢
  have hisr : c'.cascaded.isr = 0 := by
    change c'.master.isr = 0
    rw [hmaster]
    exact hready.master_unrequested.isr
  have himr : c'.cascaded.imr = 0 := by
    change c'.master.imr = 0
    rw [hmaster]
  rw [I8259.request_idle hisr, himr]
  exact congrArg lowestLine BitVec.and_allOnes

/-! ## Section 5: Reading the registers -/

/-- `pic_get_irr` returns the requests of both controllers and changes none of them. -/
theorem run_picGetIrr (c : PicPair) : ∃ c', OnPorts.picGetIrr.run PicPair.device c =
      some ((c.slave.irr.setWidth 32 <<< 8 ||| c.cascaded.irr.setWidth 32).setWidth 16, c') ∧
    c'.master = { c.master with readsIsr := false } ∧
    c'.slave = { c.slave with readsIsr := false } :=
  ⟨_, rfl, rfl, rfl⟩

/-- `pic_get_isr` returns the lines in service. -/
theorem run_picGetIsr (c : PicPair) : ∃ c', OnPorts.picGetIsr.run PicPair.device c =
      some ((c.slave.isr.setWidth 32 <<< 8 ||| c.master.isr.setWidth 32).setWidth 16, c') ∧
    c'.master = { c.master with readsIsr := true } ∧
    c'.slave = { c.slave with readsIsr := true } :=
  ⟨_, rfl, rfl, rfl⟩

end KyroKernel
