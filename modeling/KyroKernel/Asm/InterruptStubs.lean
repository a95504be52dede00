import KyroKernel.Asm.SyscallGate
import KyroKernel.Foundations.X86Labels

/-!
# The interrupt stubs

`kernel/interrupts/interrupt_asm.s`: an entry for each vector pushes the vector, over a dummy
error code where the processor pushes none, and one of two common stubs saves the registers,
calls a C handler for the vector and restores the registers. Of the four data segment
registers DS alone is saved, and all four are loaded with it afterwards. Three vectors that have a
handler of their own in `kernel/interrupts/idt.c` get the general fault handler.
-/

namespace KyroKernel

open Foundations

/-! ## The code -/

/-- The C handlers. The stubs import all but those of the vectors 1, 2 and 3. -/
inductive CHandler where
  | faultHandler
  | timerHandler
  | keyboardInterruptHandler
  | divideErrorHandler
  | debugHandler
  | nmiHandler
  | breakpointHandler
  | generalProtectionFaultHandler
  | pageFaultHandler
  deriving DecidableEq, Repr

/-- The entries. -/
inductive StubEntry where
  | divideErrorHandlerAsm
  | debugHandlerAsm
  | nmiHandlerAsm
  | breakpointHandlerAsm
  | generalProtectionFaultHandlerAsm
  | pageFaultHandlerAsm
  | timerHandlerAsm
  | keyboardHandlerAsm
  deriving DecidableEq, Repr

inductive StubLabel where
  | entry (e : StubEntry)
  | isrCommonStub
  | divideError
  | gpf
  | pageFault
  | isrEnd
  | irqCommonStub
  | timer
  | keyboard
  | irqEnd
  deriving DecidableEq, Repr

abbrev StubCode := List (AsmInstr CHandler StubLabel)

/-- `ISR_NOERRCODE`. -/
def isrNoErrCode (e : StubEntry) (vector : BitVec 8) : StubCode :=
  [.label (.entry e), .line (.op .cli), .line (.pushByte 0), .line (.pushByte vector),
    .jmp .isrCommonStub]

/-- `ISR_ERRCODE`. -/
def isrErrCode (e : StubEntry) (vector : BitVec 8) : StubCode :=
  [.label (.entry e), .line (.op .cli), .line (.pushByte vector), .jmp .isrCommonStub]

/-- `IRQ`. -/
def irq (e : StubEntry) (vector : BitVec 8) : StubCode :=
  [.label (.entry e), .line (.op .cli), .line (.pushByte 0), .line (.pushByte vector),
    .jmp .irqCommonStub]

/-- Save the registers and DS, load the kernel data segment and fetch the vector. -/
def stubSave : List LineOp :=
  [.op .pusha, .movFromSeg .ds .eax, .op (.push .eax)] ++ loadSegments.map .op ++
    [.op (.load 36 .esp .eax)]

/-- Restore the registers, and drop the vector and the error code. -/
def stubRestore : List LineOp :=
  [.op (.pop .eax), .op (.movToSeg .eax .ds), .op (.movToSeg .eax .es), .op (.movToSeg .eax .fs),
    .op (.movToSeg .eax .gs), .op .popa, .op (.addImm 8 .esp), .op .sti]

/-- `isr_common_stub`; `next f` is the address of the instruction behind the call of `f`. -/
def isrCommonStub (next : CHandler → Word) : StubCode :=
  .label .isrCommonStub :: stubSave.map .line ++
  ([.line (.cmpImm 0 .eax), .je .divideError,
    .line (.cmpImm 13 .eax), .je .gpf,
    .line (.cmpImm 14 .eax), .je .pageFault,
    .call .faultHandler (next .faultHandler), .jmp .isrEnd,
    .label .divideError,
    .call .divideErrorHandler (next .divideErrorHandler), .jmp .isrEnd,
    .label .gpf,
    .call .generalProtectionFaultHandler (next .generalProtectionFaultHandler), .jmp .isrEnd,
    .label .pageFault,
    .call .pageFaultHandler (next .pageFaultHandler), .jmp .isrEnd,
    .label .isrEnd] : StubCode) ++
  stubRestore.map .line ++ [.iret]

/-- `irq_common_stub`. -/
def irqCommonStub (next : CHandler → Word) : StubCode :=
  .label .irqCommonStub :: stubSave.map .line ++
  ([.line (.cmpImm 32 .eax), .je .timer,
    .line (.cmpImm 33 .eax), .je .keyboard,
    .jmp .irqEnd,
    .label .timer,
    .call .timerHandler (next .timerHandler), .jmp .irqEnd,
    .label .keyboard,
    .call .keyboardInterruptHandler (next .keyboardInterruptHandler), .jmp .irqEnd,
    .label .irqEnd,
    .line (.movImmByte 0x20 .eax), .out 0x20 .eax] : StubCode) ++
  stubRestore.map .line ++ [.iret]

/-- The whole file. -/
def textSection (next : CHandler → Word) : StubCode :=
  isrNoErrCode .divideErrorHandlerAsm 0 ++
  isrNoErrCode .debugHandlerAsm 1 ++
  isrNoErrCode .nmiHandlerAsm 2 ++
  isrNoErrCode .breakpointHandlerAsm 3 ++
  isrErrCode .generalProtectionFaultHandlerAsm 13 ++
  isrErrCode .pageFaultHandlerAsm 14 ++
  irq .timerHandlerAsm 32 ++
  irq .keyboardHandlerAsm 33 ++
  isrCommonStub next ++
  irqCommonStub next

/-! ## What the stubs are for -/

/-- The vector an entry is for. -/
def StubEntry.vector : StubEntry → Word
  | .divideErrorHandlerAsm => 0
  | .debugHandlerAsm => 1
  | .nmiHandlerAsm => 2
  | .breakpointHandlerAsm => 3
  | .generalProtectionFaultHandlerAsm => 13
  | .pageFaultHandlerAsm => 14
  | .timerHandlerAsm => 32
  | .keyboardHandlerAsm => 33

/-- The processor pushes an error code for the two faults. -/
def StubEntry.errorCode : StubEntry → Bool
  | .generalProtectionFaultHandlerAsm | .pageFaultHandlerAsm => true
  | _ => false

/-- The C handler of a vector: `idt.c` has one for each of the exceptions with an entry, and a
general one for the others; `timer.c` and `keyboard.c` have those of the two interrupts. -/
def handlerOf (vector : Word) : CHandler :=
  if vector = 0 then .divideErrorHandler
  else if vector = 1 then .debugHandler
  else if vector = 2 then .nmiHandler
  else if vector = 3 then .breakpointHandler
  else if vector = 13 then .generalProtectionFaultHandler
  else if vector = 14 then .pageFaultHandler
  else if vector = 32 then .timerHandler
  else if vector = 33 then .keyboardInterruptHandler
  else .faultHandler

/-- Where the processor pushed EIP, seen from the entry. -/
def eipSlot (e : StubEntry) (c : Cpu) : Word := c.regs .esp + if e.errorCode then 4 else 0

/-- The stub does its work for an interrupt that enters through `e` in the state `c`, whatever
the C handlers do: it calls the handler of the vector once, and when that call follows the C
calling convention, `iret` executes with ESP at the EIP that the processor pushed and with
all registers as they were. -/
def StubCorrect (next : CHandler → Word) (e : StubEntry) (c : Cpu) : Prop :=
  ∀ env : CHandler → Cpu → Cpu, ∃ entry final events,
    runAsm env (textSection next) (some (.entry e)) c = some (final, events) ∧
    callsOf events = [(handlerOf e.vector, entry)] ∧
    (Cdecl 0 11 (env (handlerOf e.vector)) entry →
      final.regs .esp = eipSlot e c ∧ (∀ r, r ≠ .esp → final.regs r = c.regs r) ∧
        final.sregs = c.sregs)

/-! ## Up to the common stub -/

/-- An entry with two words on the stack: the vector and an error code. -/
def StubEntry.enter (e : StubEntry) (c : Cpu) : Cpu :=
  if e.errorCode then (exec c .cli).push e.vector else ((exec c .cli).push 0).push e.vector

/-- The common stub of an entry, and the code behind it. -/
def StubEntry.common (next : CHandler → Word) : StubEntry → StubCode
  | .timerHandlerAsm | .keyboardHandlerAsm => irqCommonStub next
  | _ => isrCommonStub next ++ irqCommonStub next

theorem runAsm_isrCommonStub (env : CHandler → Cpu → Cpu) (next : CHandler → Word) (is : StubCode)
    (c : Cpu) : runAsm env (isrCommonStub next ++ is) (some .isrCommonStub) c =
      runAsm env (isrCommonStub next ++ is) none c := by
  simp [isrCommonStub, runAsm]

/-- A jump to the second common stub skips the first one. -/
theorem runAsm_irqCommonStub (env : CHandler → Cpu → Cpu) (next : CHandler → Word) (c : Cpu) :
    runAsm env (isrCommonStub next ++ irqCommonStub next) (some .irqCommonStub) c =
      runAsm env (irqCommonStub next) none c := by
  simp [isrCommonStub, runAsm, stubSave, loadSegments, stubRestore, irqCommonStub]

theorem runAsm_entry (env : CHandler → Cpu → Cpu) (next : CHandler → Word) (e : StubEntry)
    (c : Cpu) : runAsm env (textSection next) (some (.entry e)) c =
      runAsm env (e.common next) none (e.enter c) := by
  have hisr := runAsm_isrCommonStub env next (irqCommonStub next)
  have hirq := runAsm_irqCommonStub env next
  cases e <;> simp [textSection, isrNoErrCode, isrErrCode, irq, runAsm, hisr, hirq] <;> rfl

/-! ## Saving and restoring -/

/-- The words on the stack during the call: what the stub saved, the vector and the error code. -/
def stubFrame (c : Cpu) (vector err : Word) : List Word :=
  [setLow (c.regs .eax) (c.sregs .ds), c.regs .edi, c.regs .esi, c.regs .ebp, c.regs .esp,
    c.regs .ebx, c.regs .edx, c.regs .ecx, c.regs .eax, vector, err]

variable {c c' : Cpu} {vector err : Word}

/-- Pushing DS through AX on top of the registers. -/
theorem saveDs_spec (h : c.Stack [vector, err]) :
    let c₁ := execLines c [.op .pusha, .movFromSeg .ds .eax, .op (.push .eax)]
    c₁.Stack (stubFrame c vector err) ∧ c₁.regs .esp = c.regs .esp - 36 := by
  intro c₁
  have hpushed := h.pushAll [c.regs .eax, c.regs .ecx, c.regs .edx, c.regs .ebx, c.regs .esp,
    c.regs .ebp, c.regs .esi, c.regs .edi] (by simp)
  rw [← Cpu.exec_pusha] at hpushed
  have hesp : (exec c .pusha).regs .esp = c.regs .esp - 32 := by
    rw [Cpu.exec_pusha, Cpu.pushAll_esp]
    rfl
  -- AX is overwritten after it was pushed.
  have hc₁ : c₁ = ((exec c .pusha).set .eax (setLow (c.regs .eax) (c.sregs .ds))).push
      (setLow (c.regs .eax) (c.sregs .ds)) := rfl
  have hset : ((exec c .pusha).set .eax (setLow (c.regs .eax) (c.sregs .ds))).Stack
      [c.regs .edi, c.regs .esi, c.regs .ebp, c.regs .esp, c.regs .ebx, c.regs .edx, c.regs .ecx,
        c.regs .eax, vector, err] := hpushed
  rw [hc₁]
  refine ⟨hset.push _ (by simp), ?_⟩
  rw [Cpu.push_esp, Cpu.set_of_ne _ (by decide), hesp]
  bv_omega

theorem stubSave_spec (h : c.Stack [vector, err]) :
    (execLines c stubSave).Stack (stubFrame c vector err) ∧
      (execLines c stubSave).regs .esp = c.regs .esp - 36 ∧
      (execLines c stubSave).regs .eax = vector := by
  obtain ⟨hds, hesp⟩ := saveDs_spec h
  obtain ⟨hstack, -, hregs⟩ := loadSegments_spec hds
  have hesp' := hregs .esp (by decide)
  unfold stubSave
  rw [execLines_append, execLines_append, execLines_ops]
  generalize execAll (execLines c [.op .pusha, .movFromSeg .ds .eax, .op (.push .eax)])
    loadSegments = c₂ at hstack hesp' ⊢
  -- The vector lies above the nine words that were saved.
  have hvector : c₂.mem.read32 (c₂.regs .esp + 36) = vector := by
    have hwords := Mem.Words.drop (stubFrame c vector err |>.take 9) (l := [vector, err]) hstack
    exact hwords.1
  have hload : execLines c₂ [.op (.load 36 .esp .eax)] = c₂.set .eax vector := by
    rw [← hvector]
    rfl
  rw [hload]
  refine ⟨?_, ?_, Cpu.set_self ..⟩
  · unfold Cpu.Stack at hstack ⊢
    rw [Cpu.set_of_ne _ (by decide)]
    exact hstack
  · rw [Cpu.set_of_ne _ (by decide), hesp', hesp]

theorem setWidth_setLow (v : Word) (low : BitVec 16) : (setLow v low).setWidth 16 = low := by
  unfold setLow
  ext i hi
  rw [BitVec.getElem_setWidth]
  exact BitVec.getLsbD_append.trans (by simp [hi])

/-- Restoring loads the saved registers back and DS into all four segment registers. -/
theorem stubRestore_spec (h : c'.Stack (stubFrame c vector err)) :
    (execLines c' stubRestore).regs .esp = c'.regs .esp + 44 ∧
      (∀ r, r ≠ .esp → (execLines c' stubRestore).regs r = c.regs r) ∧
      (execLines c' stubRestore).sregs = fun _ => c.sregs .ds := by
  have htop : (c'.pop .eax).regs .eax = setLow (c.regs .eax) (c.sregs .ds) :=
    (Cpu.pop_self ..).trans h.top
  -- The four segment registers get the low half of EAX.
  obtain ⟨q, hrestore, hq, hesp, hsregs⟩ : ∃ q : Cpu,
      execLines c' stubRestore = exec (exec (exec q .popa) (.addImm 8 .esp)) .sti ∧
        q.Stack (stubFrame c vector err).tail ∧ q.regs .esp = c'.regs .esp + 4 ∧
        q.sregs = fun _ => c.sregs .ds := by
    have hpop : (execLines c' (stubRestore.take 5)).regs = (c'.pop .eax).regs := rfl
    refine ⟨execLines c' (stubRestore.take 5), rfl, h.pop (by decide), ?_, funext fun sr => ?_⟩
    · rw [hpop]
      exact Cpu.pop_esp (by decide)
    have hseg : (execLines c' (stubRestore.take 5)).sregs sr =
        ((c'.pop .eax).regs .eax).setWidth 16 := by
      cases sr <;> rfl
    rw [hseg, htop, setWidth_setLow]
  obtain ⟨-, hesp', hpopped⟩ := Cpu.Stack.popa_of_saved (d := c) hq
  have hregs : (exec (exec (exec q .popa) (.addImm 8 .esp)) .sti).regs =
      ((exec q .popa).set .esp ((exec q .popa).regs .esp + 8)).regs := rfl
  have hsame : (exec (exec (exec q .popa) (.addImm 8 .esp)) .sti).sregs = q.sregs := rfl
  rw [hrestore, hregs, hsame]
  refine ⟨?_, fun r hr => ?_, hsregs⟩
  · rw [Cpu.set_self, hesp', hesp]
    bv_omega
  · rw [Cpu.set_of_ne _ hr]
    exact hpopped r hr

/-! ## The common stubs -/

/-- The handler that the comparisons of the two common stubs choose. -/
def calledHandler (vector : Word) : CHandler :=
  if vector = 0 then .divideErrorHandler
  else if vector = 13 then .generalProtectionFaultHandler
  else if vector = 14 then .pageFaultHandler
  else if vector = 32 then .timerHandler
  else if vector = 33 then .keyboardInterruptHandler
  else .faultHandler

/-- The vectors 1, 2 and 3 have no comparison of their own. -/
theorem calledHandler_eq_iff (e : StubEntry) : calledHandler e.vector = handlerOf e.vector ↔
    e ≠ .debugHandlerAsm ∧ e ≠ .nmiHandlerAsm ∧ e ≠ .breakpointHandlerAsm := by
  cases e <;> decide

theorem runAsm_restore (env : CHandler → Cpu → Cpu) (is : StubCode) (c : Cpu) :
    runAsm env (stubRestore.map .line ++ .iret :: is) none c =
      some (execLines c stubRestore, []) := by
  rw [runAsm_lines, runAsm]

/-- The first common stub finds the vector in EAX. -/
theorem runAsm_isr (env : CHandler → Cpu → Cpu) (next : CHandler → Word) (is : StubCode)
    (hvector : (execLines c stubSave).regs .eax = vector) (htimer : vector ≠ 32)
    (hkeyboard : vector ≠ 33) :
    ∃ c₁, SameButFlags (execLines c stubSave) c₁ ∧
      runAsm env (isrCommonStub next ++ is) none c =
        some (execLines (env (calledHandler vector) (c₁.push (next (calledHandler vector)))) stubRestore,
          [.call (calledHandler vector) (c₁.push (next (calledHandler vector)))]) := by
  unfold isrCommonStub
  simp only [List.cons_append, List.nil_append, List.append_assoc]
  rw [runAsm, runAsm_lines]
  generalize execLines c stubSave = c₁ at hvector ⊢
  -- Each comparison changes the flags only.
  have h₁ := sameButFlags_cmpImm c₁ 0 .eax
  have h₂ := h₁.trans (sameButFlags_cmpImm _ 13 .eax)
  have h₃ := h₂.trans (sameButFlags_cmpImm _ 14 .eax)
  rw [runAsm_cmp_je, hvector]
  by_cases h0 : vector = 0
  · rw [if_pos h0]
    refine ⟨_, h₁, ?_⟩
    simp [runAsm, runAsm_restore, calledHandler, h0]
  rw [if_neg h0, runAsm_cmp_je, h₁.regs, hvector]
  by_cases h13 : vector = 13
  · rw [if_pos h13]
    refine ⟨_, h₂, ?_⟩
    simp [runAsm, runAsm_restore, calledHandler, h13]
  rw [if_neg h13, runAsm_cmp_je, h₂.regs, hvector]
  by_cases h14 : vector = 14
  · rw [if_pos h14]
    refine ⟨_, h₃, ?_⟩
    simp [runAsm, runAsm_restore, calledHandler, h14]
  rw [if_neg h14]
  have hfault : calledHandler vector = .faultHandler := by
    unfold calledHandler
    rw [if_neg h0, if_neg h13, if_neg h14, if_neg htimer, if_neg hkeyboard]
  refine ⟨_, h₃, ?_⟩
  rw [hfault]
  simp [runAsm, runAsm_restore]

/-- The second common stub also ends the interrupt at the controller. -/
theorem runAsm_irq (env : CHandler → Cpu → Cpu) (next : CHandler → Word)
    (hvector : (execLines c stubSave).regs .eax = vector) (hirq : vector = 32 ∨ vector = 33) :
    ∃ c₁, SameButFlags (execLines c stubSave) c₁ ∧
      runAsm env (irqCommonStub next) none c =
        some (execLines (execLine (env (calledHandler vector) (c₁.push (next (calledHandler vector))))
            (.movImmByte 0x20 .eax)) stubRestore,
          [.call (calledHandler vector) (c₁.push (next (calledHandler vector))), .out 0x20 0x20]) := by
  unfold irqCommonStub
  simp only [List.cons_append, List.nil_append, List.append_assoc]
  rw [runAsm, runAsm_lines]
  generalize execLines c stubSave = c₁ at hvector ⊢
  have h₁ := sameButFlags_cmpImm c₁ 32 .eax
  have h₂ := h₁.trans (sameButFlags_cmpImm _ 33 .eax)
  rw [runAsm_cmp_je, hvector]
  by_cases h32 : vector = 32
  · rw [if_pos h32]
    refine ⟨_, h₁, ?_⟩
    simp [runAsm, runAsm_restore, calledHandler, h32, low_movImmByte]
  have h33 := hirq.resolve_left h32
  rw [if_neg h32, runAsm_cmp_je, h₁.regs, hvector, if_pos h33]
  refine ⟨_, h₂, ?_⟩
  simp [runAsm, runAsm_restore, calledHandler, h33, low_movImmByte]

/-! ## The whole stub -/

/-- The entry leaves the vector over an error code, the registers as they were. -/
theorem enter_spec (e : StubEntry) (c : Cpu) : ∃ err, (e.enter c).Stack [e.vector, err] ∧
    (e.enter c).regs .esp = eipSlot e c - 8 ∧
    (∀ r, r ≠ .esp → (e.enter c).regs r = c.regs r) ∧ (e.enter c).sregs = c.sregs := by
  have hcli : (exec c .cli).regs = c.regs := rfl
  unfold StubEntry.enter eipSlot
  cases e.errorCode with
  | true =>
    -- The error code is on the stack already.
    have herr : (exec c .cli).Stack [(exec c .cli).top] := ⟨rfl, trivial⟩
    refine ⟨_, herr.push _ (by simp), ?_, fun r hr => ?_, rfl⟩
    · rw [if_pos rfl, if_pos rfl, Cpu.push_esp, hcli]
      bv_omega
    · rw [if_pos rfl, Cpu.push_of_ne _ hr, hcli]
  | false =>
    have hzero := (Cpu.stack_nil (exec c .cli)).push 0 (by simp)
    refine ⟨0, hzero.push _ (by simp), ?_, fun r hr => ?_, rfl⟩
    · rw [if_neg (by decide), if_neg (by decide), Cpu.push_esp, Cpu.push_esp, hcli]
      bv_omega
    · rw [if_neg (by decide), Cpu.push_of_ne _ hr, Cpu.push_of_ne _ hr, hcli]

/-- Which common stub an entry jumps to. -/
theorem common_cases (next : CHandler → Word) (e : StubEntry) :
    (e.common next = irqCommonStub next ∧ (e.vector = 32 ∨ e.vector = 33)) ∨
      (e.common next = isrCommonStub next ++ irqCommonStub next ∧ e.vector ≠ 32 ∧
        e.vector ≠ 33) := by
  cases e with
  | timerHandlerAsm => exact .inl ⟨rfl, .inl rfl⟩
  | keyboardHandlerAsm => exact .inl ⟨rfl, .inr rfl⟩
  | _ => exact .inr ⟨rfl, by decide, by decide⟩

/-- A handler that follows the C calling convention returns to the saved words. -/
theorem returned_spec {f : Cpu → Cpu} {c₁ : Cpu} {ret : Word} (h : c.Stack [vector, err])
    (hsame : SameButFlags (execLines c stubSave) c₁) (hcdecl : Cdecl 0 11 f (c₁.push ret)) :
    (f (c₁.push ret)).Stack (stubFrame c vector err) ∧
      (f (c₁.push ret)).regs .esp = c.regs .esp - 36 := by
  obtain ⟨hstack, hesp, -⟩ := stubSave_spec h
  have hpushed := (hsame.stack hstack).push ret (by simp [stubFrame])
  have hesp' : (f (c₁.push ret)).regs .esp = c.regs .esp - 36 := by
    rw [hcdecl.esp, Cpu.push_esp, hsame.regs, hesp]
    bv_omega
  have hcall : Cdecl ([] : List Word).length (stubFrame c vector err).length f (c₁.push ret) :=
    hcdecl
  have hwords := hcall.stack hpushed (by simp [stubFrame])
  refine ⟨?_, hesp'⟩
  unfold Cpu.Stack
  simpa using hwords

/-- What an interrupt does from its entry to `iret`. -/
theorem runAsm_stub (next : CHandler → Word) (e : StubEntry) (c : Cpu)
    (env : CHandler → Cpu → Cpu) : ∃ entry final events,
      runAsm env (textSection next) (some (.entry e)) c = some (final, events) ∧
      callsOf events = [(calledHandler e.vector, entry)] ∧
      (Cdecl 0 11 (env (calledHandler e.vector)) entry →
        final.regs .esp = eipSlot e c ∧ (∀ r, r ≠ .esp → final.regs r = c.regs r) ∧
          final.sregs = fun _ => c.sregs .ds) := by
  obtain ⟨err, hstack, hesp, hregs, hsregs⟩ := enter_spec e c
  obtain ⟨-, -, hvector⟩ := stubSave_spec hstack
  rw [runAsm_entry]
  generalize e.enter c = c₀ at hstack hesp hregs hsregs hvector ⊢
  -- Whatever the common stub does after the call, it restores from the frame.
  have hrestored : ∀ c' : Cpu, c'.Stack (stubFrame c₀ e.vector err) →
      c'.regs .esp = c₀.regs .esp - 36 →
      (execLines c' stubRestore).regs .esp = eipSlot e c ∧
        (∀ r, r ≠ .esp → (execLines c' stubRestore).regs r = c.regs r) ∧
        (execLines c' stubRestore).sregs = fun _ => c.sregs .ds := by
    intro c' hframe hesp'
    obtain ⟨h1, h2, h3⟩ := stubRestore_spec hframe
    refine ⟨?_, fun r hr => (h2 r hr).trans (hregs r hr), ?_⟩
    · rw [h1, hesp', hesp]
      bv_omega
    · rw [h3, hsregs]
  rcases common_cases next e with ⟨hcommon, hirq⟩ | ⟨hcommon, htimer, hkeyboard⟩
  · obtain ⟨c₁, hsame, hrun⟩ := runAsm_irq env next hvector hirq
    rw [hcommon, hrun]
    refine ⟨_, _, _, rfl, rfl, fun hcdecl => ?_⟩
    obtain ⟨hframe, hesp'⟩ := returned_spec hstack hsame hcdecl
    -- Ending the interrupt uses AL only.
    have heoi : ∀ c' : Cpu, (execLine c' (.movImmByte 0x20 .eax)).regs .esp = c'.regs .esp :=
      fun c' => Cpu.set_of_ne _ (by decide)
    refine hrestored _ ?_ ((heoi _).trans hesp')
    unfold Cpu.Stack
    rw [heoi]
    exact hframe
  · obtain ⟨c₁, hsame, hrun⟩ := runAsm_isr env next (irqCommonStub next) hvector htimer hkeyboard
    rw [hcommon, hrun]
    refine ⟨_, _, _, rfl, rfl, fun hcdecl => ?_⟩
    obtain ⟨hframe, hesp'⟩ := returned_spec hstack hsame hcdecl
    exact hrestored _ hframe hesp'

/-- A function that returns at once follows the C calling convention. -/
theorem cdecl_drop (n frame : Nat) (entry : Cpu) : Cdecl n frame Cpu.drop entry :=
  ⟨Cpu.drop_esp entry, fun r hr => Cpu.drop_of_ne (by rintro rfl; simp at hr), fun _ _ _ => rfl⟩

/-- A stub that does its work calls the handler of its vector, and restores ES, FS and GS only when
they held what DS held. -/
theorem StubCorrect.called_segments {next : CHandler → Word} {e : StubEntry} {c : Cpu}
    (h : StubCorrect next e c) :
    calledHandler e.vector = handlerOf e.vector ∧
      c.sregs .es = c.sregs .ds ∧ c.sregs .fs = c.sregs .ds ∧ c.sregs .gs = c.sregs .ds := by
  obtain ⟨entry, final, events, hrun, hcalls, hcorrect⟩ := h fun _ => Cpu.drop
  obtain ⟨entry', final', events', hrun', hcalls', hrestored⟩ :=
    runAsm_stub next e c fun _ => Cpu.drop
  obtain ⟨rfl, rfl⟩ := Prod.mk.inj (Option.some.inj (hrun.symm.trans hrun'))
  obtain ⟨hhandler, -⟩ := Prod.mk.inj (List.cons.inj (hcalls'.symm.trans hcalls)).1
  obtain ⟨-, -, hsregs⟩ := hcorrect (cdecl_drop 0 11 entry)
  obtain ⟨-, -, hds⟩ := hrestored (cdecl_drop 0 11 entry')
  have hall : c.sregs = fun _ => c.sregs .ds := hsregs.symm.trans hds
  exact ⟨hhandler, congrFun hall .es, congrFun hall .fs, congrFun hall .gs⟩

/-- The stubs work exactly for interrupts other than the exceptions 1, 2 and 3 that are taken while
ES, FS and GS hold the same selector as DS. -/
theorem stubCorrect_iff (next : CHandler → Word) (e : StubEntry) (c : Cpu) :
    StubCorrect next e c ↔
      (e ≠ .debugHandlerAsm ∧ e ≠ .nmiHandlerAsm ∧ e ≠ .breakpointHandlerAsm) ∧
        c.sregs .es = c.sregs .ds ∧ c.sregs .fs = c.sregs .ds ∧ c.sregs .gs = c.sregs .ds := by
  rw [← calledHandler_eq_iff]
  constructor
  · exact StubCorrect.called_segments
  · rintro ⟨hhandler, hes, hfs, hgs⟩ env
    obtain ⟨entry, final, events, hrun, hcalls, hrestored⟩ := runAsm_stub next e c env
    rw [hhandler] at hcalls hrestored
    refine ⟨entry, final, events, hrun, hcalls, fun hcdecl => ?_⟩
    obtain ⟨hesp, hregs, hsregs⟩ := hrestored hcdecl
    refine ⟨hesp, hregs, hsregs.trans (funext fun sr => ?_)⟩
    cases sr with
    | ds => rfl
    | es => exact hes.symm
    | fs => exact hfs.symm
    | gs => exact hgs.symm

/-- A program that has cleared FS. -/
def clearedFs : Cpu where
  regs := fun _ => 0
  sregs := fun sr => if sr = .fs then 0 else 0x10
  eflags := 0x202
  eip := 0
  cr3 := 0
  mem := fun _ => 0

/-- A timer interrupt loads FS with the selector in DS. -/
theorem not_forall_stubCorrect : ¬ ∀ (next : CHandler → Word) (e : StubEntry) (c : Cpu),
    StubCorrect next e c := by
  intro hall
  obtain ⟨-, -, hfs, -⟩ := (hall (fun _ => 0) .timerHandlerAsm clearedFs).called_segments
  exact absurd hfs (by decide)

end KyroKernel
