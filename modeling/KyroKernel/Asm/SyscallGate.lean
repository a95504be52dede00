import KyroKernel.Foundations.X86

/-!
# The system call gate

`syscall_handler_asm` of `kernel/syscall.c`: it saves the registers, loads the kernel data
segment through AX, pushes four registers as the arguments of `syscall_handler`, and restores
everything after the call. Loading AX replaces the low half of EAX before EAX is pushed, so
the system call number reaches the handler only when its low half is the selector.
-/

namespace KyroKernel

open Foundations

/-- The function that the gate calls. -/
inductive GateCall where
  | syscallHandler
  deriving DecidableEq, Repr

/-- The selector of the kernel data segment. -/
def kernelDataSegment : BitVec 16 := 0x10

/-- Save the state of the caller. -/
def saveState : List Op :=
  [.cli, .pusha, .pushSeg .ds, .pushSeg .es, .pushSeg .fs, .pushSeg .gs]

/-- Load the kernel data segment. -/
def loadSegments : List Op :=
  [.movImmLow kernelDataSegment .eax, .movToSeg .eax .ds, .movToSeg .eax .es,
    .movToSeg .eax .fs, .movToSeg .eax .gs]

/-- Push the four arguments, the last one first. -/
def pushArguments : List Op := [.push .edx, .push .ecx, .push .ebx, .push .eax]

/-- Drop the arguments and restore the state of the caller. -/
def restoreState : List Op :=
  [.addImm 16 .esp, .popSeg .gs, .popSeg .fs, .popSeg .es, .popSeg .ds, .popa, .sti]

/-- `syscall_handler_asm`; `next` is the address of the instruction behind the call. -/
def syscallHandlerAsm (next : Word) : List (Instr GateCall) :=
  (saveState ++ loadSegments ++ pushArguments).map .op ++
    .call .syscallHandler next :: (restoreState.map .op ++ [.iret])

/-- The gate does its work from the state `c`, in which the interrupt is taken: it calls the
handler once, with EAX, EBX, ECX and EDX as they were as its arguments, and when the handler
follows the C calling convention in that call, `iret` executes with ESP at the frame that
the processor pushed and with all registers as they were. -/
def GateCorrect (handler : Cpu → Cpu) (next : Word) (c : Cpu) : Prop :=
  ∃ entry final,
    run (fun _ => handler) (syscallHandlerAsm next) c =
      some (final, [(.syscallHandler, entry)]) ∧
    args 4 entry = [c.regs .eax, c.regs .ebx, c.regs .ecx, c.regs .edx] ∧
    (Cdecl 4 12 handler entry → final.regs = c.regs ∧ final.sregs = c.sregs)

/-! ## Up to the call -/

/-- The state at the entry of the handler. -/
def gateEntry (next : Word) (c : Cpu) : Cpu :=
  (execAll c (saveState ++ loadSegments ++ pushArguments)).push next

/-- The words that hold the state of the caller. -/
def savedWords (c : Cpu) : List Word :=
  [(c.sregs .gs).setWidth 32, (c.sregs .fs).setWidth 32, (c.sregs .es).setWidth 32,
    (c.sregs .ds).setWidth 32, c.regs .edi, c.regs .esi, c.regs .ebp, c.regs .esp, c.regs .ebx,
    c.regs .edx, c.regs .ecx, c.regs .eax]

/-- What the handler finds as its arguments: the first one is EAX with the selector in its
low half. -/
def gateArguments (c : Cpu) : List Word :=
  [setLow (c.regs .eax) kernelDataSegment, c.regs .ebx, c.regs .ecx, c.regs .edx]

/-- Saving the state pushes these words. -/
theorem execAll_saveState (c : Cpu) :
    execAll c saveState = (exec c .cli).pushAll (savedWords c).reverse := by
  simp only [saveState, execAll_cons, execAll_nil, Cpu.exec_pusha]
  rfl

theorem saveState_spec (c : Cpu) :
    (execAll c saveState).Stack (savedWords c) ∧
      (execAll c saveState).regs .esp = c.regs .esp - 48 ∧
      ∀ r, r ≠ .esp → (execAll c saveState).regs r = c.regs r := by
  -- `cli` touches neither the registers nor the stack.
  have hcli : (exec c .cli).regs = c.regs := rfl
  have hstart : (exec c .cli).Stack [] := Cpu.stack_nil _
  rw [execAll_saveState]
  refine ⟨?_, ?_, fun r hr => ?_⟩
  · have hstack := hstart.pushAll (savedWords c).reverse (by simp [savedWords])
    rwa [List.reverse_reverse, List.append_nil] at hstack
  · rw [Cpu.pushAll_esp, hcli]
    rfl
  · rw [Cpu.pushAll_of_ne _ hr, hcli]

/-- Loading the segments changes EAX only, among the general-purpose registers. -/
theorem loadSegments_spec {c : Cpu} {l : List Word} (h : c.Stack l) :
    (execAll c loadSegments).Stack l ∧
      (execAll c loadSegments).regs .eax = setLow (c.regs .eax) kernelDataSegment ∧
      ∀ r, r ≠ .eax → (execAll c loadSegments).regs r = c.regs r := by
  have hregs : (execAll c loadSegments).regs =
      (c.set .eax (setLow (c.regs .eax) kernelDataSegment)).regs := rfl
  refine ⟨?_, ?_, fun r hr => ?_⟩
  · unfold Cpu.Stack at h ⊢
    rw [hregs, Cpu.set_of_ne _ (by decide)]
    exact h
  · rw [hregs, Cpu.set_self]
  · rw [hregs, Cpu.set_of_ne _ hr]

theorem execAll_pushArguments (c : Cpu) : execAll c pushArguments =
    c.pushAll [c.regs .edx, c.regs .ecx, c.regs .ebx, c.regs .eax] := by
  simp [pushArguments, exec, Cpu.pushAll]

theorem pushArguments_spec {c : Cpu} {l : List Word} (h : c.Stack l)
    (hl : 4 * (l.length + 4) ≤ 2 ^ 32) :
    (execAll c pushArguments).Stack
        (c.regs .eax :: c.regs .ebx :: c.regs .ecx :: c.regs .edx :: l) ∧
      (execAll c pushArguments).regs .esp = c.regs .esp - 16 := by
  rw [execAll_pushArguments]
  refine ⟨h.pushAll _ hl, ?_⟩
  rw [Cpu.pushAll_esp]
  rfl

/-- At the entry of the handler the return address, the arguments and the saved state lie
on the stack. -/
theorem gateEntry_spec (next : Word) (c : Cpu) :
    (gateEntry next c).Stack (next :: (gateArguments c ++ savedWords c)) ∧
      (gateEntry next c).regs .esp = c.regs .esp - 68 := by
  obtain ⟨h1, he1, hr1⟩ := saveState_spec c
  obtain ⟨h2, ha2, hr2⟩ := loadSegments_spec h1
  have hlen : 4 * ((savedWords c).length + 4) ≤ 2 ^ 32 := by simp [savedWords]
  obtain ⟨h3, he3⟩ := pushArguments_spec h2 hlen
  rw [ha2, hr2 .ebx (by decide), hr2 .ecx (by decide), hr2 .edx (by decide),
    hr1 .eax (by decide), hr1 .ebx (by decide), hr1 .ecx (by decide), hr1 .edx (by decide)] at h3
  rw [hr2 .esp (by decide), he1] at he3
  unfold gateEntry
  rw [execAll_append, execAll_append]
  refine ⟨h3.push next (by simp [savedWords]), ?_⟩
  rw [Cpu.push_esp, he3]
  bv_omega

/-- The arguments that the handler gets. -/
theorem args_gateEntry (next : Word) (c : Cpu) : args 4 (gateEntry next c) = gateArguments c :=
  args_of_stack (gateEntry_spec next c).1

/-! ## After the call -/

theorem popSeg_spec {c : Cpu} {l : List Word} {v : BitVec 16} (sr : SReg)
    (h : c.Stack (v.setWidth 32 :: l)) :
    (exec c (.popSeg sr)).Stack l ∧ (exec c (.popSeg sr)).regs .esp = c.regs .esp + 4 ∧
      (exec c (.popSeg sr)).sregs = Function.update c.sregs sr v := by
  refine ⟨h.drop, Cpu.drop_esp c, ?_⟩
  have hv : (v.setWidth 32).setWidth 16 = v := by simp
  simp only [exec, h.top, hv]

/-- Restoring loads the saved words back and leaves ESP above them. -/
theorem restoreState_spec {c c' : Cpu}
    (h : c'.mem.Words (c'.regs .esp + 16) (savedWords c)) :
    (execAll c' restoreState).sregs = c.sregs ∧
      (execAll c' restoreState).regs .esp = c'.regs .esp + 64 ∧
      ∀ r, r ≠ .esp → (execAll c' restoreState).regs r = c.regs r := by
  have he0 : (exec c' (.addImm 16 .esp)).regs .esp = c'.regs .esp + 16 := Cpu.set_self ..
  have h0 : (exec c' (.addImm 16 .esp)).Stack (savedWords c) := by
    unfold Cpu.Stack
    rw [he0]
    exact h
  obtain ⟨h1, he1, hs1⟩ := popSeg_spec .gs h0
  obtain ⟨h2, he2, hs2⟩ := popSeg_spec .fs h1
  obtain ⟨h3, he3, hs3⟩ := popSeg_spec .es h2
  obtain ⟨h4, he4, hs4⟩ := popSeg_spec .ds h3
  obtain ⟨-, hesp, hpopped⟩ := h4.popa_of_saved
  rw [he4, he3, he2, he1, he0] at hesp
  simp only [restoreState, execAll_cons, execAll_nil]
  generalize exec (exec (exec (exec (exec c' (.addImm 16 .esp)) (.popSeg .gs)) (.popSeg .fs))
    (.popSeg .es)) (.popSeg .ds) = d at hs4 hpopped hesp ⊢
  -- `sti` changes the flags only.
  have hregs : (exec (exec d .popa) .sti).regs = (exec d .popa).regs := rfl
  have hsregs : (exec (exec d .popa) .sti).sregs = d.sregs := rfl
  rw [hregs, hsregs]
  refine ⟨?_, ?_, hpopped⟩
  · rw [hs4, hs3, hs2, hs1]
    funext sr
    cases sr <;> simp
  · rw [hesp]
    bv_omega

/-! ## The whole gate -/

/-- The run of the gate: one call, and `iret` in the restored state. -/
theorem run_syscallHandlerAsm (handler : Cpu → Cpu) (next : Word) (c : Cpu) :
    run (fun _ => handler) (syscallHandlerAsm next) c =
      some (execAll (handler (gateEntry next c)) restoreState,
        [(.syscallHandler, gateEntry next c)]) := by
  unfold syscallHandlerAsm gateEntry
  rw [run_ops]
  simp only [run]
  rw [run_ops]
  rfl

/-- A handler that follows the C calling convention returns to a gate that restores the
state of the caller. -/
theorem restoreState_of_cdecl {handler : Cpu → Cpu} {next : Word} {c : Cpu}
    (h : Cdecl 4 12 handler (gateEntry next c)) :
    (execAll (handler (gateEntry next c)) restoreState).regs = c.regs ∧
      (execAll (handler (gateEntry next c)) restoreState).sregs = c.sregs := by
  obtain ⟨hstack, hesp⟩ := gateEntry_spec next c
  have hwords : (handler (gateEntry next c)).mem.Words
      ((handler (gateEntry next c)).regs .esp + 16) (savedWords c) := by
    have hcall : Cdecl (gateArguments c).length (savedWords c).length handler
      (gateEntry next c) := h
    exact hcall.stack hstack (by simp [gateArguments, savedWords])
  obtain ⟨hsregs, hesp', hregs⟩ := restoreState_spec hwords
  refine ⟨funext fun r => ?_, hsregs⟩
  by_cases hr : r = .esp
  · -- The return popped 4 bytes of the 68, the gate drops the other 64.
    rw [hr, hesp', h.esp, hesp]
    bv_omega
  · exact hregs r hr

/-- The first argument is EAX exactly when the low half of EAX is the selector. -/
theorem setLow_eq_iff (v : Word) (low : BitVec 16) :
    setLow v low = v ↔ v.setWidth 16 = low := by
  unfold setLow
  constructor
  · intro h
    rw [← h]
    ext i hi
    rw [BitVec.getElem_setWidth]
    exact BitVec.getLsbD_append.trans (by simp [hi])
  · rintro rfl
    ext i hi
    simp only [BitVec.getElem_append, BitVec.getElem_setWidth, BitVec.getElem_extractLsb']
    split_ifs with h16
    · rfl
    · rw [show 16 + (i - 16) = i by omega]
      rfl

/-- A gate that passes EAX unchanged found the selector in its low half. -/
theorem GateCorrect.eax {handler : Cpu → Cpu} {next : Word} {c : Cpu}
    (h : GateCorrect handler next c) :
    setLow (c.regs .eax) kernelDataSegment = c.regs .eax := by
  obtain ⟨entry, final, hrun, hargs, -⟩ := h
  rw [run_syscallHandlerAsm] at hrun
  obtain ⟨-, hcalls⟩ := Prod.mk.inj (Option.some.inj hrun)
  obtain rfl : gateEntry next c = entry := (Prod.mk.inj (List.cons.inj hcalls).1).2
  rw [args_gateEntry] at hargs
  exact (List.cons.inj hargs).1

/-- The gate is correct exactly from the states in which the low half of EAX is already the
selector of the kernel data segment. Only the first argument can go wrong: the state of the
caller is always restored. -/
theorem gateCorrect_iff (handler : Cpu → Cpu) (next : Word) (c : Cpu) :
    GateCorrect handler next c ↔ (c.regs .eax).setWidth 16 = kernelDataSegment := by
  rw [← setLow_eq_iff]
  constructor
  · exact GateCorrect.eax
  · intro heax
    refine ⟨_, _, run_syscallHandlerAsm handler next c, ?_, restoreState_of_cdecl⟩
    rw [args_gateEntry, gateArguments, heax]

/-- A `write` system call: EAX is 4. -/
def writeCall : Cpu where
  regs := fun r => if r = .eax then 4 else 0
  sregs := fun _ => 0x23
  eflags := 0x202
  eip := 0
  cr3 := 0
  mem := fun _ => 0

/-- For `write` the handler gets 16 instead of 4 as the system call number. -/
theorem not_forall_gateCorrect : ¬ ∀ (handler : Cpu → Cpu) (next : Word) (c : Cpu),
    GateCorrect handler next c := by
  intro hall
  have heax : setLow 4 kernelDataSegment = 4 := (hall id 0 writeCall).eax
  exact absurd heax (by decide)

end KyroKernel
