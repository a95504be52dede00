import KyroKernel.Asm.InterruptStubs
import KyroKernel.Asm.SyscallGate
import KyroKernel.Console.FormatTexts
import KyroKernel.Syscall.Write

/-!
# System calls through the gate

The gate gives `syscall_handler` a number whose low half is the selector of the kernel data segment.
No service has such a number, so every system call is an unknown one.
-/

namespace KyroKernel

open Foundations

variable {D : KernelDirectory}

/-- Characters on the screen change nothing but the text buffer. -/
theorem mem_putAll (s : ConsoleMemory D) (cs : List Byte) {a : Word} (ha : ¬ InTextBuffer a) :
    (s.putAll cs).mem a = s.mem a := by
  induction cs generalizing s with
  | nil => rfl
  | cons c cs ih => exact (ih (s.putchar c)).trans (ConsoleMemory.mem_putchar s c ha)

theorem printed_unknown (number : Word) :
    printed (chars "Unknown system call: %d\n") [.word number] =
      chars "Unknown system call: " ++ (signedText number ++ chars "\n") := by
  have hformat : chars "Unknown system call: %d\n" =
      chars "Unknown system call: " ++ ascii '%' :: ascii 'd' :: (chars "\n" ++ []) := rfl
  have hplain : ascii '%' ∉ chars "Unknown system call: " ∧ ascii '%' ∉ chars "\n" := by decide
  have hsigned : ascii 'd' ∈ signedConversions := by decide
  rw [hformat]
  exact (((Formats.nil []).chars hplain.2).conversion (.signed hsigned number []) |>.chars
    hplain.1).printed_eq

/-- No number with this low half is that of a service. -/
theorem syscallHandler_unknown {number : Word} (hlow : number.setWidth 16 = kernelDataSegment)
    (s : ConsoleMemory D) (ebx ecx edx : Word) :
    syscallHandler s number ebx ecx edx =
      printfCall s (chars "Unknown system call: " ++ (signedText number ++ chars "\n")) := by
  have hne (service : Word) (h : service.setWidth 16 ≠ kernelDataSegment) : number ≠ service :=
    fun heq => h (heq ▸ hlow)
  unfold syscallHandler
  rw [if_neg (hne sysExit (by decide)), if_neg (hne sysFork (by decide)),
    if_neg (hne sysRead (by decide)), if_neg (hne sysWrite (by decide)), printed_unknown]

/-- What comes of a system call. -/
structure NoService (s : ConsoleMemory D) (handler : Cpu → Cpu) (next : Word) (c : Cpu)
    (number : Word) : Prop where
  /-- The gate calls the handler once, with this number and the other arguments. -/
  gate : ∃ entry final,
    run (fun _ => handler) (syscallHandlerAsm next) c = some (final, [(.syscallHandler, entry)]) ∧
    args 4 entry = [number, c.regs .ebx, c.regs .ecx, c.regs .edx] ∧
    (Cdecl 4 12 handler entry → final.regs = c.regs ∧ final.sregs = c.sregs)
  /-- The handler prints the number, and changes nothing but the text buffer. -/
  handler : ∃ s', syscallHandler s number (c.regs .ebx) (c.regs .ecx) (c.regs .edx) =
      (chars "Unknown system call: " ++ (signedText number ++ chars "\n"), some s') ∧
    ∀ a, ¬ InTextBuffer a → s'.mem a = s.mem a

/-- For every register file and every memory with a page directory that the kernel can print with: the
system call is an unknown one, with a number of which only the high half is that of EAX. -/
theorem systemCall_noService (D : KernelDirectory) (s : ConsoleMemory D) (handler : Cpu → Cpu)
    (next : Word) (c : Cpu) :
    NoService s handler next c (setLow (c.regs .eax) kernelDataSegment) where
  gate := ⟨_, _, run_syscallHandlerAsm handler next c, args_gateEntry next c, restoreState_of_cdecl⟩
  handler := ⟨_, syscallHandler_unknown (setWidth_setLow _ _) s _ _ _,
    fun _ ha => mem_putAll s _ ha⟩

end KyroKernel
