import KyroKernel.Foundations.LinkedList
import KyroKernel.Paging.Basic
import KyroKernel.Utils.Strings

/-!
# Processes and the scheduler

`include/process.h` and `kernel/process.c`. Process records live in a store of their own,
indexed by their address: they come from `kmalloc` like directories and tables do, so no
paging write lands in one. The assembly of `context_switch` is modelled separately; here it
has the effect on the two records and on CR3 that its instructions have.
-/

namespace KyroKernel

open Foundations

def processNameMax : Nat := 32
def kernelStackSize : Word := 8192

/-- `process_state_t`, in the order of its values. -/
inductive ProcessState where
  | running
  | ready
  | blocked
  | terminated
  deriving DecidableEq, Repr

/-- `cpu_state_t`: thirteen words, in this order. -/
structure CpuState where
  eax : Word := 0
  ebx : Word := 0
  ecx : Word := 0
  edx : Word := 0
  esi : Word := 0
  edi : Word := 0
  ebp : Word := 0
  esp : Word := 0
  eip : Word := 0
  cs : Word := 0
  ss : Word := 0
  eflags : Word := 0
  cr3 : Word := 0
  deriving DecidableEq

/-- `process_t`; the defaults are what `memset(proc, 0, sizeof(process_t))` leaves. -/
structure Process where
  pid : Word := 0
  ppid : Word := 0
  name : List Byte := List.replicate processNameMax 0
  state : ProcessState := .running
  cpuState : CpuState := {}
  pageDirectory : Word := 0
  kernelStack : Word := 0
  userStack : Word := 0
  priority : Word := 0
  timeSlice : Word := 0
  timeUsed : Word := 0
  next : Word := 0
  parent : Word := 0
  children : Word := 0
  childCount : Word := 0
  deriving DecidableEq

/-- `sizeof(process_t)`: three words and 32 bytes up to `state`, thirteen words of
`cpu_state`, ten words. -/
def sizeofProcess : Word := 136

/-- The paging state, the process records and the globals of `process.c`. `switches` records
the calls of `context_switch`, latest first, as the processes switched from and to. -/
structure KernelState extends PagingState where
  procs : Word → Process
  processList : Word
  currentProcess : Word
  nextPid : Word
  switches : List (Word × Word)

/-- Change the record of one process. -/
def KernelState.modify (s : KernelState) (proc : Word) (f : Process → Process) : KernelState :=
  { s with procs := Function.update s.procs proc (f (s.procs proc)) }

/-- `proc->state = state`. -/
def Process.setState (proc : Process) (state : ProcessState) : Process :=
  { proc with state := state }

/-- Store ESP in the word at offset 16 of `proc->cpu_state`, which is its `esi`. -/
def Process.saveEsp (proc : Process) (esp : Word) : Process :=
  { proc with cpuState := { proc.cpuState with esi := esp } }

/-- The `next` pointers. -/
def KernelState.next (s : KernelState) (proc : Word) : Word := (s.procs proc).next

/-! ## `create_process` -/

/-- The user branch of `create_process`: an address space, a stack page and the initial CPU
state. The stack page is mapped by `alloc_frame`, that is, in `current_directory`. -/
def setUpUserProcess (s : PagingState) (proc : Process) : Process × PagingState :=
  let (dir, s) := createPageDirectory s
  let userStack := 0xC0000000
  let s := allocFrame s (userStack - pageSize) false true
  ({ proc with
      pageDirectory := dir, userStack := userStack
      cpuState := { proc.cpuState with cs := 0x1B, ss := 0x23, eflags := 0x202, esp := userStack } },
    s)

/-- The kernel branch of `create_process`. -/
def setUpKernelProcess (s : PagingState) (proc : Process) : Process × PagingState :=
  ({ proc with
      pageDirectory := s.kernelDirectory
      cpuState :=
        { proc.cpuState with cs := 0x08, ss := 0x10, eflags := 0x202, esp := proc.kernelStack } },
    s)

/-- `create_process` after the record was allocated: the filled record and the paging state.
A kernel stack that cannot be allocated is not noticed. -/
def fillProcess (s : KernelState) (name : List Byte) (entryPoint : Word) (kernelMode : Bool) :
    Process × PagingState :=
  let proc : Process :=
    { pid := s.nextPid
      name := strncpy (List.replicate processNameMax 0) name (processNameMax - 1)
      state := .ready, priority := 10, timeSlice := 10 }
  let (stack, heapCurrent) := kmalloc s.heapCurrent kernelStackSize
  let proc := { proc with kernelStack := stack + kernelStackSize }
  let paging := { s.toPagingState with heapCurrent := heapCurrent }
  let (proc, paging) :=
    if kernelMode then setUpKernelProcess paging proc else setUpUserProcess paging proc
  let proc :=
    if entryPoint ≠ 0 then { proc with cpuState := { proc.cpuState with eip := entryPoint } }
    else proc
  let cr3 := physicalAddr paging.mem proc.pageDirectory
  ({ proc with cpuState := { proc.cpuState with cr3 := cr3 }, next := s.processList }, paging)

/-- `create_process`: the new process, 0 when its record cannot be allocated, and the state
after the call. The new process is the head of `process_list`. -/
def createProcess (s : KernelState) (name : List Byte) (entryPoint : Word) (kernelMode : Bool) :
    Word × KernelState :=
  let (proc, heapCurrent) := kmalloc s.heapCurrent sizeofProcess
  let s := { s with heapCurrent := heapCurrent }
  if proc = 0 then (0, s)
  else
    let (record, paging) := fillProcess s name entryPoint kernelMode
    (proc,
      { s with
        toPagingState := paging
        procs := Function.update s.procs proc record
        processList := proc
        nextPid := s.nextPid + 1 })

/-- The name `process_init` gives the first process. -/
def kernelName : List Byte := [0x6B, 0x65, 0x72, 0x6E, 0x65, 0x6C]

/-- `process_init`. -/
def processInit (s : KernelState) : KernelState :=
  let (proc, s) := createProcess s kernelName 0 true
  let s := { s with currentProcess := proc }
  let s := s.modify proc (·.setState .running)
  { s with processList := proc }

/-! ## `destroy_process` -/

/-- The loop of `destroy_process`: the process before `proc` in the list, or 0. -/
def findPrevious (s : KernelState) (proc : Word) (fuel : Nat) : Option Word :=
  whileLoop (fun current => current ≠ 0 && s.next current ≠ proc) s.next fuel s.processList

/-- `destroy_process`. `kfree` frees nothing, so the calls at the end leave the heap as it is
and the record keeps its contents, its `next` pointer included. -/
def destroyProcess (s : KernelState) (proc : Word) (fuel : Nat) : Option KernelState :=
  if proc = 0 then some s
  else
    let unlinked :=
      if s.processList = proc then some { s with processList := s.next proc }
      else
        (findPrevious s proc fuel).map fun current =>
          if current ≠ 0 then s.modify current fun p => { p with next := s.next proc } else s
    unlinked.map fun s =>
      let dir := (s.procs proc).pageDirectory
      let s :=
        if dir ≠ s.kernelDirectory then { s with heapCurrent := kfree s.heapCurrent dir } else s
      let stack := (s.procs proc).kernelStack - kernelStackSize
      { s with heapCurrent := kfree (kfree s.heapCurrent stack) proc }

/-! ## `schedule` -/

/-- The effect of `context_switch(&prev->cpu_state, &next->cpu_state)` on the records and on
CR3: it saves ESP, here `esp`, at offset 16, and loads CR3 from offset 20, which is `edi`. -/
def contextSwitch (s : KernelState) (prev next esp : Word) : KernelState :=
  let s := s.modify prev (·.saveEsp esp)
  { s with cr3 := (s.procs next).cpuState.edi, switches := (prev, next) :: s.switches }

/-- `switch_task`; `esp` is the value of ESP that `context_switch` saves. -/
def switchTask (s : KernelState) (next esp : Word) : KernelState :=
  if next = 0 ∨ next = s.currentProcess then s
  else
    let prev := s.currentProcess
    let s := { s with currentProcess := next }
    let s := s.modify next (·.setState .running)
    let s := { s with
      toPagingState := switchPageDirectory s.toPagingState (s.procs next).pageDirectory }
    contextSwitch s prev next esp

/-- `proc->next`, or `process_list` at the end of the list. -/
def KernelState.nextOrHead (s : KernelState) (proc : Word) : Word :=
  if s.next proc = 0 then s.processList else s.next proc

/-- The loop of `schedule`: the first process from `start` on that is ready, or the current
process, or 0. -/
def findNextReady (s : KernelState) (start : Word) (fuel : Nat) : Option Word :=
  whileLoop
    (fun next => next ≠ 0 && (s.procs next).state ≠ .ready && next ≠ s.currentProcess)
    s.nextOrHead fuel start

/-- `schedule`, `none` when its loop does not end within the fuel. -/
def schedule (s : KernelState) (esp : Word) (fuel : Nat) : Option KernelState :=
  if s.currentProcess = 0 then some s
  else
    (findNextReady s (s.nextOrHead s.currentProcess) fuel).map fun next =>
      if next ≠ 0 ∧ next ≠ s.currentProcess ∧ (s.procs next).state = .ready then
        let s := s.modify s.currentProcess (·.setState .ready)
        switchTask s next esp
      else s

/-! ## `fork` and `exit` -/

/-- `fork`: the returned value and the state after the call. -/
def fork (s : KernelState) : Word × KernelState :=
  if s.currentProcess = 0 then (-1, s)
  else
    let parent := s.currentProcess
    let (child, s) := createProcess s (s.procs parent).name 0 false
    if child = 0 then (-1, s)
    else
      let s := s.modify child fun p =>
        { p with
          ppid := (s.procs parent).pid, parent := parent
          cpuState := (s.procs parent).cpuState }
      if s.currentProcess = child then (0, s) else ((s.procs child).pid, s)

/-- `exit`, before it calls `schedule`: the current process is terminated, and a blocked
parent becomes ready. -/
def exitCurrent (s : KernelState) : KernelState :=
  let s := s.modify s.currentProcess (·.setState .terminated)
  let parent := (s.procs s.currentProcess).parent
  if parent ≠ 0 ∧ (s.procs parent).state = .blocked then
    s.modify parent (·.setState .ready)
  else s

/-- `exit`. -/
def exit (s : KernelState) (esp : Word) (fuel : Nat) : Option KernelState :=
  if s.currentProcess = 0 then some s else schedule (exitCurrent s) esp fuel

end KyroKernel
