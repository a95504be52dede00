import KyroKernel.Foundations.InterruptGates
import KyroKernel.Asm.InterruptStubs

/-!
# The interrupt descriptor table

`idt_set_gate` and `idt_init` of `kernel/interrupts/idt.c`, and `syscall_init` of `kernel/syscall.c`:
packed entries of eight bytes in memory, six of which get a handler. Every vector that the processor
can deliver ends in the handler of its own gate, in the handler of general protection faults, or in
a shutdown; from user mode always in a shutdown as long as no task state segment has a stack for
ring 0.
-/

namespace KyroKernel

open Foundations

def idtFlagPresent : Byte := 0x80
def idtFlagRing3 : Byte := 0x60
def idtGateInt32 : Byte := 0xE

/-- `sizeof(idt_entry_t) * IDT_ENTRIES`. -/
def sizeofIdt : Nat := 8 * 256

/-- `idt_set_gate`, with the array `idt` at this address. -/
def idtSetGate (idt : Word) (m : Mem) (num : Byte) (base : Word) (selector : BitVec 16)
    (flags : Byte) : Mem :=
  let entry := idt + 8 * num.setWidth 32
  let m := m.write16 entry ((base &&& 0xFFFF).setWidth 16)
  let m := m.write16 (entry + 6) (((base >>> 16) &&& 0xFFFF).setWidth 16)
  let m := m.write16 (entry + 2) selector
  let m := m.write8 (entry + 4) 0
  m.write8 (entry + 5) flags

/-- The code that gates point to. -/
inductive GateTarget where
  | stub (e : StubEntry)
  | syscallHandlerAsm
  deriving DecidableEq, Repr

/-- `idt_init`: the table and what `lidt` loads. `addr` is where the linker has put the code. -/
def idtInit (idt : Word) (addr : GateTarget → Word) (m : Mem) : Mem × Idtr :=
  let m := m.fill idt 0 sizeofIdt
  let flags := idtFlagPresent ||| idtGateInt32
  let m := idtSetGate idt m 0 (addr (.stub .divideErrorHandlerAsm)) 0x08 flags
  let m := idtSetGate idt m 13 (addr (.stub .generalProtectionFaultHandlerAsm)) 0x08 flags
  let m := idtSetGate idt m 14 (addr (.stub .pageFaultHandlerAsm)) 0x08 flags
  let m := idtSetGate idt m 32 (addr (.stub .timerHandlerAsm)) 0x08 flags
  let m := idtSetGate idt m 33 (addr (.stub .keyboardHandlerAsm)) 0x08 flags
  (m, { limit := BitVec.ofNat 16 (sizeofIdt - 1), base := idt })

/-- `syscall_init`. -/
def syscallInit (idt : Word) (addr : GateTarget → Word) (m : Mem) : Mem :=
  idtSetGate idt m 0x80 (addr .syscallHandlerAsm) 0x08
    (idtFlagPresent ||| idtFlagRing3 ||| idtGateInt32)

/-! ## §1 The table as a map from vectors to gates -/

/-- A call of `idt_set_gate`. -/
structure IdtCall where
  num : Byte
  base : Word
  selector : BitVec 16
  flags : Byte

/-- The table after it was cleared and after the calls, latest first. -/
def afterIdtCalls (idt : Word) (m : Mem) : List IdtCall → Mem
  | [] => m.fill idt 0 sizeofIdt
  | call :: calls =>
    idtSetGate idt (afterIdtCalls idt m calls) call.num call.base call.selector call.flags

/-- The gate that the latest call for the vector has set, all zero if there is none. -/
def latestGate (calls : List IdtCall) (vector : Byte) : Gate :=
  match calls.find? (·.num = vector) with
  | some call => ⟨call.base, call.selector, call.flags⟩
  | none => ⟨0, 0, 0⟩

/-- The table in memory is the map of the latest calls, and nothing outside of it was written. -/
structure IdtHolds (idt : Word) (before after : Mem) (calls : List IdtCall) : Prop where
  gates : ∀ vector, fetchGate after idt vector = latestGate calls vector
  outside : ∀ x, sizeofIdt ≤ (x - idt).toNat → after x = before x

variable {idt base x : Word} {m : Mem} {num vector : Byte} {selector : BitVec 16} {flags : Byte}
  {calls : List IdtCall} {addr : GateTarget → Word} {i : Interrupted} {cause : Cause}

theorem setWidth_mask16 (v : Word) : (v &&& 0xFFFF).setWidth 16 = v.setWidth 16 := by
  ext i hi
  have hmask : (0xFFFF : Word).getLsbD i = true := by
    revert hi
    revert i
    decide
  rw [BitVec.getElem_setWidth, BitVec.getElem_setWidth, BitVec.getLsbD_and, hmask, Bool.and_true]

/-- The four bytes of the offset, put together again. -/
theorem offset_bytes (v : Word) :
    ((v >>> 16).setWidth 16).extractLsb' 8 8 ++ ((v >>> 16).setWidth 16).extractLsb' 0 8 ++
      (v.setWidth 16).extractLsb' 8 8 ++ (v.setWidth 16).extractLsb' 0 8 = v := by
  ext i hi
  simp only [BitVec.getElem_append, BitVec.getElem_extractLsb', BitVec.getLsbD_setWidth,
    BitVec.getLsbD_ushiftRight]
  split_ifs <;> simp only [← BitVec.getLsbD_eq_getElem] <;> grind

theorem selector_bytes (v : BitVec 16) : v.extractLsb' 8 8 ++ v.extractLsb' 0 8 = v := by
  ext i hi
  simp only [BitVec.getElem_append, BitVec.getElem_extractLsb']
  split_ifs <;> simp only [← BitVec.getLsbD_eq_getElem] <;> congr 1 <;> omega

/-- The processor reads back the gate that was set. -/
theorem fetchGate_idtSetGate_self (idt : Word) (m : Mem) (num : Byte) (base : Word)
    (selector : BitVec 16) (flags : Byte) :
    fetchGate (idtSetGate idt m num base selector flags) idt num = ⟨base, selector, flags⟩ := by
  unfold fetchGate idtSetGate gateAddr
  generalize idt + 8 * num.setWidth 32 = entry
  rw [setWidth_mask16, setWidth_mask16]
  simp only [Mem.write16, Mem.write8, Function.update_apply, BitVec.ofNat_eq_ofNat,
    BitVec.add_assoc, BitVec.add_right_inj]
  ext : 1
  · simpa using offset_bytes base
  · simpa using selector_bytes selector
  · simp

/-- Setting a gate writes its eight bytes only. -/
theorem idtSetGate_outside (h : ¬ (x - gateAddr idt num).toNat < 8) (base : Word)
    (selector : BitVec 16) (flags : Byte) : idtSetGate idt m num base selector flags x = m x := by
  unfold gateAddr at h
  unfold idtSetGate
  generalize idt + 8 * num.setWidth 32 = entry at h ⊢
  have hne (k : Word) (hk : k.toNat < 8) : x ≠ entry + k := by
    rintro rfl
    exact h (by rw [Mem.offset_add]; exact hk)
  have hne0 : x ≠ entry := by
    rintro rfl
    exact h (by rw [BitVec.sub_self]; decide)
  simp only [Mem.write16]
  rw [Mem.write8_of_ne (hne 5 (by decide)), Mem.write8_of_ne (hne 4 (by decide)),
    BitVec.add_assoc, BitVec.add_assoc]
  rw [Mem.write8_of_ne (hne (2 + 1) (by decide)), Mem.write8_of_ne (hne 2 (by decide)),
    Mem.write8_of_ne (hne (6 + 1) (by decide)), Mem.write8_of_ne (hne 6 (by decide)),
    Mem.write8_of_ne (hne 1 (by decide)), Mem.write8_of_ne hne0]

/-- The other gates stay. -/
theorem fetchGate_idtSetGate_of_ne (h : vector ≠ num) (base : Word) (selector : BitVec 16)
    (flags : Byte) :
    fetchGate (idtSetGate idt m num base selector flags) idt vector = fetchGate m idt vector :=
  fetchGate_congr fun _ hk => idtSetGate_outside (gateAddr_apart h hk) base selector flags

/-- A cleared table has no gates. -/
theorem fetchGate_fill (idt : Word) (m : Mem) (vector : Byte) :
    fetchGate (m.fill idt 0 sizeofIdt) idt vector = ⟨0, 0, 0⟩ := by
  have hzero (k : Nat) (hk : k < 8) :
      m.fill idt 0 sizeofIdt (gateAddr idt vector + BitVec.ofNat 32 k) = 0 := by
    have hvector := vector.isLt
    rw [Mem.fill_apply m idt 0 (by decide), gateAddr_mem idt vector hk, if_pos]
    unfold sizeofIdt
    omega
  simp only [fetchGate, hzero 0 (by decide), hzero 1 (by decide), hzero 2 (by decide),
    hzero 3 (by decide), hzero 5 (by decide), hzero 6 (by decide), hzero 7 (by decide)]
  rfl

/-- After any calls the table is the map of the latest ones. -/
theorem idtHolds (idt : Word) (m : Mem) (calls : List IdtCall) :
    IdtHolds idt m (afterIdtCalls idt m calls) calls := by
  induction calls with
  | nil =>
    refine ⟨fetchGate_fill idt m, fun x hx => ?_⟩
    rw [afterIdtCalls, Mem.fill_apply m idt 0 (by decide), if_neg (by omega)]
  | cons call calls ih =>
    refine ⟨fun vector => ?_, fun x hx => ?_⟩
    · rw [afterIdtCalls, latestGate, List.find?_cons]
      by_cases hnum : call.num = vector
      · rw [decide_eq_true hnum, ← hnum]
        exact fetchGate_idtSetGate_self ..
      · rw [decide_eq_false hnum, fetchGate_idtSetGate_of_ne (Ne.symm hnum), ih.gates]
        rfl
    · rw [afterIdtCalls, idtSetGate_outside, ih.outside x hx]
      have hnum := call.num.isLt
      unfold sizeofIdt at hx
      unfold gateAddr
      bv_omega

/-! ## §2 The table of the kernel -/

/-- The calls of `idt_init` and `syscall_init`, latest first. -/
def kernelIdtCalls (addr : GateTarget → Word) : List IdtCall :=
  [⟨0x80, addr .syscallHandlerAsm, 0x08, 0xEE⟩,
    ⟨33, addr (.stub .keyboardHandlerAsm), 0x08, 0x8E⟩,
    ⟨32, addr (.stub .timerHandlerAsm), 0x08, 0x8E⟩,
    ⟨14, addr (.stub .pageFaultHandlerAsm), 0x08, 0x8E⟩,
    ⟨13, addr (.stub .generalProtectionFaultHandlerAsm), 0x08, 0x8E⟩,
    ⟨0, addr (.stub .divideErrorHandlerAsm), 0x08, 0x8E⟩]

/-- Where the gate of a vector leads. -/
def gateTarget (vector : Byte) : Option GateTarget :=
  if vector = 0 then some (.stub .divideErrorHandlerAsm)
  else if vector = 13 then some (.stub .generalProtectionFaultHandlerAsm)
  else if vector = 14 then some (.stub .pageFaultHandlerAsm)
  else if vector = 32 then some (.stub .timerHandlerAsm)
  else if vector = 33 then some (.stub .keyboardHandlerAsm)
  else if vector = 0x80 then some .syscallHandlerAsm
  else none

/-- Only the gate of system calls is for user mode. -/
def MayDeliver (i : Interrupted) (cause : Cause) (vector : Byte) : Prop :=
  cause = .software → 0 < i.cpl.val → vector = 0x80

/-- The memory and the register after `idt_init` and `syscall_init`. -/
def afterIdtInit (idt : Word) (addr : GateTarget → Word) (m : Mem) : Mem × Idtr :=
  (syscallInit idt addr (idtInit idt addr m).1, (idtInit idt addr m).2)

theorem afterIdtInit_eq (idt : Word) (addr : GateTarget → Word) (m : Mem) :
    (afterIdtInit idt addr m).1 = afterIdtCalls idt m (kernelIdtCalls addr) := by
  simp only [afterIdtInit, syscallInit, idtInit, kernelIdtCalls, afterIdtCalls]
  generalize m.fill idt 0 sizeofIdt = cleared
  rfl

/-- The gate of a vector in this table. -/
theorem fetchGate_kernel (idt : Word) (addr : GateTarget → Word) (m : Mem) (vector : Byte) :
    fetchGate (afterIdtInit idt addr m).1 idt vector =
      match gateTarget vector with
      | some target => ⟨addr target, 0x08, if vector = 0x80 then 0xEE else 0x8E⟩
      | none => ⟨0, 0, 0⟩ := by
  rw [afterIdtInit_eq, (idtHolds idt m _).gates]
  -- The six vectors of the calls, and then one that no call has set.
  by_cases h0 : vector = 0
  · rw [h0]
    rfl
  by_cases h13 : vector = 13
  · rw [h13]
    rfl
  by_cases h14 : vector = 14
  · rw [h14]
    rfl
  by_cases h32 : vector = 32
  · rw [h32]
    rfl
  by_cases h33 : vector = 33
  · rw [h33]
    rfl
  by_cases h80 : vector = 0x80
  · rw [h80]
    rfl
  have hnone : gateTarget vector = none := by
    simp only [gateTarget, if_neg h0, if_neg h13, if_neg h14, if_neg h32, if_neg h33, if_neg h80]
  rw [hnone, latestGate, List.find?_eq_none.mpr]
  intro call hcall
  simp only [kernelIdtCalls, List.mem_cons, List.not_mem_nil, or_false] at hcall
  rcases hcall with rfl | rfl | rfl | rfl | rfl | rfl
  all_goals
    rw [decide_eq_true_eq]
    exact Ne.symm ‹_›

/-! ## §3 Where the processor ends up -/

/-- The gate that leads to some code. -/
def kernelGate (addr : GateTarget → Word) (vector : Byte) (target : GateTarget) : Gate :=
  ⟨addr target, 0x08, if vector = 0x80 then 0xEE else 0x8E⟩

/-- The gate of general protection faults. -/
def protectionGate (addr : GateTarget → Word) : Gate :=
  kernelGate addr 13 (.stub .generalProtectionFaultHandlerAsm)

/-- The stub runs to its `iret` and calls this C function once, whatever C functions do. -/
def CallsHandler (e : StubEntry) (handler : CHandler) : Prop :=
  ∀ (next : CHandler → Word) (env : CHandler → Cpu → Cpu) (c : Cpu), ∃ entry final events,
    runAsm env (textSection next) (some (.entry e)) c = some (final, events) ∧
    callsOf events = [(handler, entry)]

/-- Where every vector ends up. -/
structure KernelDispatch (idt : Word) (addr : GateTarget → Word) (m : Mem) (idtr : Idtr) : Prop where
  gates : ∀ vector, fetchGate m idt vector = latestGate (kernelIdtCalls addr) vector
  /-- The six vectors with a gate get to their own code, -/
  handled : ∀ i cause vector target, i.HasStack → gateTarget vector = some target →
    MayDeliver i cause vector →
    deliver m idtr i cause vector = .handler vector (kernelGate addr vector target)
  /-- which calls the C handler of the vector; none of these is the general fault handler. -/
  called : ∀ vector e, gateTarget vector = some (.stub e) →
    CallsHandler e (handlerOf (vector.setWidth 32)) ∧ handlerOf (vector.setWidth 32) ≠ .faultHandler
  /-- User mode gets a general protection fault for every `int` but system calls, -/
  refused : ∀ i cause vector, i.HasStack → ¬ MayDeliver i cause vector →
    deliver m idtr i cause vector = .handler 13 (protectionGate addr)
  /-- and so does everybody for a vector without a gate, -/
  missing : ∀ i cause vector, i.HasStack → gateTarget vector = none →
    cause.faultClass vector = .benign →
    deliver m idtr i cause vector = .handler 13 (protectionGate addr)
  /-- unless it is an exception in which another fault is a double fault. -/
  shutdown : ∀ i cause vector, gateTarget vector = none → cause.faultClass vector ≠ .benign →
    deliver m idtr i cause vector = .shutdown
  /-- Without a stack for the handlers nothing is handled. -/
  stackless : ∀ i cause vector, ¬ i.HasStack → deliver m idtr i cause vector = .shutdown

section dispatch

variable {target : GateTarget}

theorem limit_idtInit (idt : Word) (addr : GateTarget → Word) (m : Mem) (vector : Byte) :
    ¬ (afterIdtInit idt addr m).2.limit.toNat < 8 * vector.toNat + 7 := by
  have hlimit : (afterIdtInit idt addr m).2.limit.toNat = 2047 := rfl
  have hvector := vector.isLt
  omega

/-- A vector without a gate. -/
theorem gateFault_missing (h : gateTarget vector = none) (i : Interrupted) (cause : Cause) :
    gateFault (afterIdtInit idt addr m).1 (afterIdtInit idt addr m).2 i cause vector =
      some generalProtection := by
  have hbase : (afterIdtInit idt addr m).2.base = idt := rfl
  have hgate : fetchGate (afterIdtInit idt addr m).1 idt vector = ⟨0, 0, 0⟩ := by
    rw [fetchGate_kernel, h]
  rw [gateFault, hbase, hgate]
  exact if_pos (.inr rfl)

theorem isGate_kernelGate (addr : GateTarget → Word) (vector : Byte) (target : GateTarget) :
    (kernelGate addr vector target).isGate = true ∧
      (kernelGate addr vector target).present = true ∧
      (kernelGate addr vector target).dpl = if vector = 0x80 then 3 else 0 := by
  simp only [kernelGate, Gate.isGate, Gate.present, Gate.dpl]
  by_cases h80 : vector = 0x80
  · simp only [if_pos h80]
    decide
  · simp only [if_neg h80]
    decide

/-- Handlers run with interrupts disabled. -/
theorem masksInterrupts_kernelGate (addr : GateTarget → Word) (vector : Byte)
    (target : GateTarget) : (kernelGate addr vector target).masksInterrupts = true := by
  simp only [kernelGate, Gate.masksInterrupts]
  by_cases h80 : vector = 0x80
  · simp only [if_pos h80]
    decide
  · simp only [if_neg h80]
    decide

/-- A vector with a gate: only the privilege matters, and the stack. -/
theorem gateFault_target (h : gateTarget vector = some target) (i : Interrupted) (cause : Cause) :
    gateFault (afterIdtInit idt addr m).1 (afterIdtInit idt addr m).2 i cause vector =
      if cause.refusedBy (if vector = 0x80 then 3 else 0) i.cpl then some generalProtection
      else if i.HasStack then none
      else some invalidTss := by
  have hbase : (afterIdtInit idt addr m).2.base = idt := rfl
  have hgate : fetchGate (afterIdtInit idt addr m).1 idt vector = kernelGate addr vector target := by
    rw [fetchGate_kernel, h]
    rfl
  obtain ⟨hisGate, hpresent, hdpl⟩ := isGate_kernelGate addr vector target
  have hfits : ¬ ((afterIdtInit idt addr m).2.limit.toNat < 8 * vector.toNat + 7 ∨
      (kernelGate addr vector target).isGate = false) := by
    rintro (hlimit | hno)
    · exact limit_idtInit idt addr m vector hlimit
    · rw [hisGate] at hno
      cases hno
  rw [gateFault, hbase, hgate]
  simp only [if_neg hfits, hdpl, hpresent, Bool.true_eq_false, if_false]

/-- Hardware and exceptions are not checked for privilege. -/
theorem mayDeliver_of_ne (h : cause ≠ .software) (i : Interrupted) (vector : Byte) :
    MayDeliver i cause vector := fun heq => absurd heq h

/-- The privilege check. -/
theorem mayDeliver_iff (i : Interrupted) (cause : Cause) (vector : Byte) : MayDeliver i cause vector ↔
    cause.refusedBy (if vector = 0x80 then 3 else 0) i.cpl = false := by
  have hcpl := i.cpl.isLt
  by_cases hcause : cause = .software
  · rw [hcause, Cause.refusedBy, decide_eq_true rfl, Bool.true_and, decide_eq_false_iff_not]
    by_cases h80 : vector = 0x80
    · rw [if_pos h80]
      exact iff_of_true (fun _ _ => h80) (by omega)
    · rw [if_neg h80]
      constructor
      · intro hmay hpos
        exact h80 (hmay rfl hpos)
      · intro hzero _ hpos
        exact absurd hpos hzero
  · rw [Cause.refusedBy, decide_eq_false hcause]
    exact iff_of_true (mayDeliver_of_ne hcause i vector) rfl

theorem gateFault_of_mayDeliver (hstack : i.HasStack) (h : gateTarget vector = some target)
    (hmay : MayDeliver i cause vector) :
    gateFault (afterIdtInit idt addr m).1 (afterIdtInit idt addr m).2 i cause vector = none := by
  rw [gateFault_target h, (mayDeliver_iff i cause vector).mp hmay]
  exact if_pos hstack

/-- What user mode may not deliver is refused, with a gate or without. -/
theorem gateFault_of_not_mayDeliver (hmay : ¬ MayDeliver i cause vector) :
    gateFault (afterIdtInit idt addr m).1 (afterIdtInit idt addr m).2 i cause vector =
      some generalProtection := by
  cases htarget : gateTarget vector with
  | none => exact gateFault_missing htarget i cause
  -- The privilege is checked before the stack is looked for.
  | some target =>
    rw [gateFault_target htarget]
    exact if_pos (Bool.not_eq_false _ |>.mp fun hfalse =>
      hmay ((mayDeliver_iff _ _ _).mpr hfalse))

/-- General protection faults have a gate. -/
theorem gateTarget_protection :
    gateTarget generalProtection = some (.stub .generalProtectionFaultHandlerAsm) := rfl

theorem gateFault_protection (hstack : i.HasStack) (idt : Word) (addr : GateTarget → Word)
    (m : Mem) : gateFault (afterIdtInit idt addr m).1 (afterIdtInit idt addr m).2 i .exception
      generalProtection = none :=
  gateFault_of_mayDeliver hstack gateTarget_protection (mayDeliver_of_ne (by decide) _ _)

theorem fetchGate_target (h : gateTarget vector = some target) :
    fetchGate (afterIdtInit idt addr m).1 (afterIdtInit idt addr m).2.base vector =
      kernelGate addr vector target := by
  have hbase : (afterIdtInit idt addr m).2.base = idt := rfl
  rw [hbase, fetchGate_kernel, h]
  rfl

/-- A vector with a gate gets to its own code. -/
theorem deliver_target (hstack : i.HasStack) (h : gateTarget vector = some target)
    (hmay : MayDeliver i cause vector) :
    deliver (afterIdtInit idt addr m).1 (afterIdtInit idt addr m).2 i cause vector =
      .handler vector (kernelGate addr vector target) := by
  rw [deliver_of_gate (gateFault_of_mayDeliver hstack h hmay), fetchGate_target h]

/-- A refused delivery goes to the handler of general protection faults. -/
theorem deliver_refused (hstack : i.HasStack) (hclass : cause.faultClass vector = .benign)
    (hfault : gateFault (afterIdtInit idt addr m).1 (afterIdtInit idt addr m).2 i cause vector =
      some generalProtection) :
    deliver (afterIdtInit idt addr m).1 (afterIdtInit idt addr m).2 i cause vector =
      .handler 13 (protectionGate addr) := by
  rw [deliver_of_benign hfault hclass (gateFault_protection hstack idt addr m),
    fetchGate_target gateTarget_protection]
  rfl

/-- The stub of a vector's gate is the one that pushes this vector, and calls its handler. -/
theorem vector_of_gateTarget {e : StubEntry} (h : gateTarget vector = some (.stub e)) :
    calledHandler e.vector = handlerOf (vector.setWidth 32) ∧
      handlerOf (vector.setWidth 32) ≠ .faultHandler := by
  revert h
  cases e <;> revert vector <;> decide +kernel

end dispatch

/-- Every vector ends up in the handler of its own gate, in the one of general protection faults, or
in a shutdown: whatever memory held before, and wherever the linker has put table and code. -/
theorem kernelDispatch (idt : Word) (addr : GateTarget → Word) (m : Mem) :
    KernelDispatch idt addr (afterIdtInit idt addr m).1 (afterIdtInit idt addr m).2 where
  gates vector := by
    rw [afterIdtInit_eq]
    exact (idtHolds idt m _).gates vector
  handled _ _ _ _ hstack htarget hmay := deliver_target hstack htarget hmay
  called vector e htarget := by
    obtain ⟨hhandler, hne⟩ := vector_of_gateTarget htarget
    refine ⟨fun next env c => ?_, hne⟩
    obtain ⟨entry, final, events, hrun, hcalls, -⟩ := runAsm_stub next e c env
    exact ⟨entry, final, events, hrun, hhandler ▸ hcalls⟩
  refused i cause vector hstack hmay := by
    refine deliver_refused hstack ?_ (gateFault_of_not_mayDeliver hmay)
    -- Only `int` is ever refused, and a fault of `int` is no second fault.
    have hne : cause ≠ .exception := by
      rintro rfl
      exact hmay (mayDeliver_of_ne (by decide) i vector)
    exact if_pos hne
  missing i cause vector hstack htarget hclass :=
    deliver_refused hstack hclass (gateFault_missing htarget i cause)
  shutdown i cause vector htarget hclass :=
    deliver_of_not_benign (gateFault_missing htarget i cause) hclass (gateFault_missing rfl i _)
  stackless i cause vector hstack := deliver_of_not_hasStack _ _ hstack cause vector

end KyroKernel
