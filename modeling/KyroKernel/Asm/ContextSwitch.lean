import KyroKernel.Foundations.X86
import KyroKernel.Process.ProcessList

/-!
# The assembly of `context_switch`

`context_switch` of `kernel/process.c` gets the addresses of two CPU states. It pushes the
registers of the running process, stores ESP at offset 16 of the first CPU state, loads ESP
and CR3 from the offsets 16 and 20 of the second, pops the registers from the new stack and
returns. In `cpu_state_t` the offsets 16 and 20 are `esi` and `edi`, while `esp` is at 28 and
`cr3` at 48, and nothing reads `eip` and `eflags`. So the records take part in a switch as
`contextSwitch` says, and a process that has not run yet is given the stack pointer 0.
Memory is the one seen at the entry; what a new CR3 does to the mapping is left out.
-/

namespace KyroKernel

open Foundations

/-- Push the registers of the running process; EBP points to the saved EBP. -/
def pushContext : List Op :=
  [.push .ebp, .mov .esp .ebp, .push .eax, .push .ebx, .push .ecx, .push .edx, .push .esi,
    .push .edi, .pushf]

/-- Store ESP through the first argument. -/
def storeEsp : List Op := [.load 8 .ebp .eax, .store .esp 16 .eax]

/-- Load ESP and CR3 through the second argument. -/
def loadContext : List Op :=
  [.load 12 .ebp .eax, .load 16 .eax .esp, .load 20 .eax .ebx, .movToCr3 .ebx]

/-- Pop the registers from the new stack. -/
def popContext : List Op :=
  [.popf, .pop .edi, .pop .esi, .pop .edx, .pop .ecx, .pop .ebx, .pop .eax, .pop .ebp]

/-- `context_switch`, which calls nothing. -/
def contextSwitchAsm : List (Instr Empty) :=
  (pushContext ++ storeEsp ++ loadContext ++ popContext).map .op ++ [.ret]

/-! ## The records in memory -/

/-- The words of a `cpu_state_t`, in the order of its fields. -/
def CpuState.words (st : CpuState) : List Word :=
  [st.eax, st.ebx, st.ecx, st.edx, st.esi, st.edi, st.ebp, st.esp, st.eip, st.cs, st.ss,
    st.eflags, st.cr3]

theorem CpuState.length_words (st : CpuState) : 4 * st.words.length = 52 := rfl

/-- `&proc->cpu_state`: `pid`, `ppid`, `name` and `state` lie before it. -/
def cpuStateAddr (proc : Word) : Word := proc + 44

/-- Memory holds the CPU state of `proc` in its record. -/
def HoldsCpuState (m : Mem) (s : KernelState) (proc : Word) : Prop :=
  m.Words (cpuStateAddr proc) (s.procs proc).cpuState.words

/-- The processor at the entry of `context_switch(&prev->cpu_state, &next->cpu_state)`: the
two addresses lie above the return address, memory holds both CPU states, and the part of
the stack that the call uses lies outside of both records. -/
structure AtContextSwitch (s : KernelState) (prev next : Word) (c : Cpu) : Prop where
  stack : ∃ ret, c.Stack [ret, cpuStateAddr prev, cpuStateAddr next]
  prevState : HoldsCpuState c.mem s prev
  nextState : HoldsCpuState c.mem s next
  apart_prev : Mem.Apart (c.regs .esp - 32) 44 prev 136
  apart_next : Mem.Apart (c.regs .esp - 32) 44 next 136

/-- Running `context_switch` from `c` starts a process with the CPU state `st`: ESP is loaded
with `st.esp`, and the final `ret` continues at `st.eip` with CR3 and the flags of `st`. -/
structure Dispatched (st : CpuState) (c : Cpu) : Prop where
  esp : (execAll c (pushContext ++ storeEsp ++ loadContext)).regs .esp = st.esp
  ret : ∃ final, run Empty.elim contextSwitchAsm c = some (final, []) ∧
    final.cr3 = st.cr3 ∧ final.ret.eip = st.eip ∧ final.ret.eflags = st.eflags

/-! ## One switch -/

/-- The words that the running process leaves on its stack. -/
def contextWords (c : Cpu) : List Word :=
  [c.regs .ebp, c.regs .eax, c.regs .ebx, c.regs .ecx, c.regs .edx, c.regs .esi, c.regs .edi,
    c.eflags]

/-- EBP is loaded after the first push; the pushes behind it do not use it. -/
theorem execAll_pushContext (c : Cpu) :
    execAll c pushContext = (c.pushAll (contextWords c)).set .ebp (c.regs .esp - 4) := by
  have hset : ∀ (d : Cpu) (v w : Word), (d.set .ebp v).push w = (d.push w).set .ebp v :=
    fun d v w => d.push_set v w (by decide)
  simp only [pushContext, execAll_cons, execAll_nil, exec, hset]
  simp [contextWords, Cpu.pushAll]
  rfl

theorem pushContext_spec (c : Cpu) :
    (execAll c pushContext).mem = (c.pushAll (contextWords c)).mem ∧
      (execAll c pushContext).regs .esp = c.regs .esp - 32 ∧
      (execAll c pushContext).regs .ebp = c.regs .esp - 4 := by
  rw [execAll_pushContext]
  refine ⟨rfl, ?_, Cpu.set_self ..⟩
  rw [Cpu.set_of_ne _ (by decide), Cpu.pushAll_esp]
  rfl

/-- Words apart from the eight that are pushed stay. -/
theorem pushContext_words {c : Cpu} {p : Word} {ws : List Word} (h : c.mem.Words p ws)
    (hapart : Mem.Apart (c.regs .esp - 32) 32 p (4 * ws.length)) :
    (execAll c pushContext).mem.Words p ws := by
  have hroom : (c.regs .esp - (c.regs .esp - 32)).toNat = 32 := by bv_omega
  have hlen : 4 * (contextWords c).length ≤ 32 := Nat.le_refl _
  rw [(pushContext_spec c).1]
  exact Cpu.pushAll_words h (contextWords c) (by rwa [hroom])
    (Nat.le_of_eq hroom) hapart

theorem execAll_storeEsp (c : Cpu) : (execAll c storeEsp).mem =
    c.mem.write32 (c.mem.read32 (c.regs .ebp + 8) + 16) (c.regs .esp) ∧
    (execAll c storeEsp).regs .ebp = c.regs .ebp :=
  ⟨rfl, rfl⟩

theorem execAll_loadContext (c : Cpu) :
    (execAll c loadContext).regs .esp = c.mem.read32 (c.mem.read32 (c.regs .ebp + 12) + 16) ∧
    (execAll c loadContext).cr3 = c.mem.read32 (c.mem.read32 (c.regs .ebp + 12) + 20) ∧
    (execAll c loadContext).mem = c.mem :=
  ⟨rfl, rfl, rfl⟩

/-- A block apart from the record of a process is apart from its CPU state. -/
theorem apart_words {a x : Word} {n i : Nat} {s : KernelState} {proc : Word}
    (h : Mem.Apart a n proc 136) (hi : 0 < i) (hx : (x - a).toNat + i ≤ n) :
    Mem.Apart x i (cpuStateAddr proc) (4 * (s.procs proc).cpuState.words.length) := by
  have hoffset : (cpuStateAddr proc - proc).toNat + 52 ≤ 136 := by
    rw [cpuStateAddr, Mem.offset_add]
    decide
  rw [CpuState.length_words]
  exact h.mono hi (by decide) hx hoffset

/-- The records after a switch: only the ESP of the previous process is saved. -/
theorem contextSwitch_procs (s : KernelState) (prev next esp : Word) :
    (contextSwitch s prev next esp).procs = (s.modify prev (·.saveEsp esp)).procs :=
  rfl

/-- The ESP below the pushed words is stored in the fifth word of the first record, which is
`esi`. -/
theorem storeEsp_spec {s : KernelState} {prev next : Word} {c : Cpu}
    (h : AtContextSwitch s prev next c) (hapart : Mem.Apart prev 136 next 136) :
    let c' := execAll (execAll c pushContext) storeEsp
    let s' := contextSwitch s prev next (c.regs .esp - 32)
    c'.mem.read32 (c'.regs .ebp + 12) = cpuStateAddr next ∧
      HoldsCpuState c'.mem s' prev ∧ HoldsCpuState c'.mem s' next := by
  intro c' s'
  obtain ⟨ret, hstack⟩ := h.stack
  obtain ⟨-, hesp, hebp⟩ := pushContext_spec c
  -- The pushes leave the arguments and both records alone.
  have hpushed : (c.regs .esp - 32 - (c.regs .esp - 32)).toNat + 32 ≤ 44 := by simp
  have hargs : (execAll c pushContext).mem.Words (c.regs .esp)
      [ret, cpuStateAddr prev, cpuStateAddr next] := by
    have hbelow : Mem.Apart (c.regs .esp - 32) 32 (c.regs .esp) 12 := ⟨by bv_omega, by bv_omega⟩
    exact pushContext_words hstack hbelow
  have hprev := pushContext_words h.prevState (apart_words h.apart_prev (by decide) hpushed)
  have hnext := pushContext_words h.nextState (apart_words h.apart_next (by decide) hpushed)
  -- The store goes through the first argument.
  have hfirst : (execAll c pushContext).mem.read32 ((execAll c pushContext).regs .ebp + 8) =
      cpuStateAddr prev := by
    have haddr : c.regs .esp - 4 + 8 = c.regs .esp + 4 := by bv_omega
    rw [hebp, haddr]
    exact hargs.2.1
  obtain ⟨hmem, hebp'⟩ : c'.mem = _ ∧ c'.regs .ebp = _ :=
    execAll_storeEsp (execAll c pushContext)
  rw [hfirst, hesp] at hmem
  rw [hebp] at hebp'
  have hslot : (cpuStateAddr prev + 16 - prev).toNat + 4 ≤ 136 := by
    rw [cpuStateAddr, BitVec.add_assoc, Mem.offset_add]
    decide
  rw [hebp', hmem]
  refine ⟨?_, ?_, ?_⟩
  · -- The arguments lie in the part of the stack that the call uses.
    have hused : (c.regs .esp - (c.regs .esp - 32)).toNat + 12 ≤ 44 := by bv_omega
    have hargs' := hargs.write32 (c.regs .esp - 32)
      (h.apart_prev.mono (by simp) (by decide) hused hslot)
    have haddr : c.regs .esp - 4 + 12 = c.regs .esp + 4 + 4 := by bv_omega
    rw [haddr]
    exact hargs'.2.2.1
  · have hlen := (s.procs prev).cpuState.length_words
    have hset := hprev.set (k := 4) (c.regs .esp - 32) (by omega) (by omega)
    unfold HoldsCpuState
    rw [contextSwitch_procs, modify_procs_self]
    exact hset
  · have hne : next ≠ prev := by
      rintro rfl
      have hfar := hapart.1
      rw [BitVec.sub_self] at hfar
      exact absurd hfar (by decide)
    have hkept := hnext.write32 (c.regs .esp - 32) (apart_words hapart (by decide) hslot).symm
    unfold HoldsCpuState
    rw [contextSwitch_procs, modify_procs_of_ne hne]
    exact hkept

/-- Up to the pops `context_switch` has the effect of `contextSwitch` on the two records and
on CR3, with the ESP below the pushed words, and loads ESP from the `esi` of the second
record. -/
theorem loadContext_refines {s : KernelState} {prev next : Word} {c : Cpu}
    (h : AtContextSwitch s prev next c) (hapart : Mem.Apart prev 136 next 136) :
    let c' := execAll c (pushContext ++ storeEsp ++ loadContext)
    let s' := contextSwitch s prev next (c.regs .esp - 32)
    HoldsCpuState c'.mem s' prev ∧ HoldsCpuState c'.mem s' next ∧ c'.cr3 = s'.cr3 ∧
      c'.regs .esp = (s'.procs next).cpuState.esi := by
  intro c' s'
  obtain ⟨hsecond, hprev, hnext⟩ := storeEsp_spec h hapart
  obtain ⟨hesp, hcr3, hmem⟩ : c'.regs .esp = _ ∧ c'.cr3 = _ ∧ c'.mem = _ := by
    have hsplit : c' = execAll (execAll (execAll c pushContext) storeEsp) loadContext := by
      rw [← execAll_append, ← execAll_append]
      rfl
    rw [hsplit]
    exact execAll_loadContext _
  rw [hsecond] at hesp hcr3
  rw [hmem, hesp, hcr3]
  -- ESP and CR3 come from the fifth and the sixth word of the second record.
  obtain ⟨hesi, hedi, -⟩ := Mem.Words.drop
    [(s'.procs next).cpuState.eax, (s'.procs next).cpuState.ebx,
      (s'.procs next).cpuState.ecx, (s'.procs next).cpuState.edx] hnext
  have haddr : cpuStateAddr next + 20 = cpuStateAddr next + 16 + 4 := by bv_omega
  refine ⟨hprev, hnext, ?_, hesi⟩
  rw [haddr]
  exact hedi

/-! ## A process that has not run yet -/

/-- Two processes have records that are apart. -/
theorem ProcessInv.apart_records {y : ProcessSystem} (h : ProcessInv y) {p q : Word}
    (hp : p ∈ y.created) (hq : q ∈ y.created) (hne : p ≠ q) : Mem.Apart p 136 q 136 := by
  -- Of two processes the one created later lies above the other.
  have hclear : p.toNat + 136 ≤ q.toNat ∨ q.toNat + 136 ≤ p.toNat := by
    obtain ⟨X, Y, hXY⟩ := List.append_of_mem hp
    have hpair := h.apart
    rw [hXY] at hpair hq
    obtain ⟨-, hright, hcross⟩ := List.pairwise_append.mp hpair
    rcases List.mem_append.mp hq with hX | hY
    · exact .inl (hcross q hX p List.mem_cons_self)
    · have hY' := (List.mem_cons.mp hY).resolve_left hne.symm
      exact .inr ((List.pairwise_cons.mp hright).1 q hY')
  have hle := h.heap_le
  have hpb := h.below p hp
  have hqb := h.below q hq
  exact .of_clear (by decide) (by decide) hclear (by omega) (by omega)

/-- The process `proc` was created and still has the CPU state `st` it got then. -/
structure NotRun (proc : Word) (st : CpuState) (y : ProcessSystem) : Prop where
  inv : ProcessInv y
  created : proc ∈ y.created
  cpuState : (y.kernel.procs proc).cpuState = st

/-- `schedule` writes to the CPU state of the current process only. -/
theorem cpuState_of_schedule {s s' : KernelState} {esp : Word} {fuel : Nat}
    (hcur : s.currentProcess ≠ 0) (hret : schedule s esp fuel = some s') {p : Word}
    (hp : s.currentProcess ≠ p) : (s'.procs p).cpuState = (s.procs p).cpuState := by
  obtain ⟨vs, r, -, -, hsw | ⟨rfl, -⟩⟩ := schedule_spec hcur hret
  · exact hsw.cpuState p hp.symm
  · rfl

/-- A call leaves the CPU state of a process alone that is not current. -/
theorem NotRun.step {proc : Word} {st : CpuState} {y y' : ProcessSystem} {op : ProcessOp}
    (h : NotRun proc st y) (hcur : y.kernel.currentProcess ≠ proc)
    (hstep : ProcessStep y op y') : NotRun proc st y' := by
  have hinv' := processInv_step h.inv hstep
  cases h.inv.effect hstep with
  | failed => exact h
  | added _ hnew hcreated =>
    refine ⟨hinv', ?_, ?_⟩
    · rw [hcreated]
      exact List.mem_cons_of_mem _ h.created
    · rw [hnew.others _ (h.inv.ne_newProcess hnew _ h.created)]
      exact h.cpuState
  | schedule hret =>
    exact ⟨hinv', h.created, (cpuState_of_schedule (h.inv.ne_zero _ h.inv.current) hret hcur).trans
      h.cpuState⟩
  | exit hret =>
    -- `exit` changes the state of the current process before it calls `schedule`.
    have hsched := cpuState_of_schedule (p := proc) (h.inv.of_exitCurrent.ne_zero _
      h.inv.of_exitCurrent.current) hret
    rw [h.inv.exitCurrent_eq] at hsched
    refine ⟨hinv', h.created, (hsched hcur).trans ?_⟩
    rw [modify_procs_of_ne hcur.symm]
    exact h.cpuState
  | destroyProcess hu =>
    refine ⟨hinv', h.created, ?_⟩
    rw [hu.data proc]
    exact h.cpuState

theorem NotRun.run {proc : Word} {st : CpuState} {y₁ y : ProcessSystem}
    {post : List (ProcessSystem × ProcessOp)} (h : NotRun proc st y₁)
    (hrun : Run (· = y₁) ProcessStep post y)
    (hfirst : ∀ z ∈ Run.states post y, z.kernel.currentProcess ≠ proc) : NotRun proc st y := by
  have hguard : ∀ p ∈ post, p.1.kernel.currentProcess ≠ proc := fun p hp =>
    hfirst _ (Run.fst_mem_states hp)
  apply hrun.inv_of_guard (NotRun proc st) (fun x _ => x.kernel.currentProcess ≠ proc) _ _ hguard
  · rintro _ rfl
    exact h
  · exact fun _ _ _ hx hcur hstep => hx.step hcur hstep

/-- `create_process` clears `esi` and sets `esp` to the end of a stack. -/
theorem notRun_of_createProcess {y y₁ : ProcessSystem} {proc : Word} {name : List Byte}
    {entryPoint : Word} {kernelMode : Bool} (h : ProcessInv y)
    (hcreate : ProcessStep y (.createProcess name entryPoint kernelMode) y₁)
    (hproc : y₁.created = proc :: y.created) :
    NotRun proc (y₁.kernel.procs proc).cpuState y₁ ∧
      (y₁.kernel.procs proc).cpuState.esi = 0 ∧ (y₁.kernel.procs proc).cpuState.esp ≠ 0 := by
  refine ⟨⟨processInv_step h hcreate, by simp [hproc], rfl⟩, ?_⟩
  cases hcreate with
  | @createProcess s c d =>
    have hspec := createProcess_spec name entryPoint kernelMode h.heap_ne_zero h.heap_le
    generalize createProcess s name entryPoint kernelMode = r at hproc hspec ⊢
    unfold addCreated at hproc
    rcases hspec with ⟨h0, -⟩ | ⟨hnew, hrecord⟩
    · rw [if_pos h0] at hproc
      exact absurd hproc.symm (List.cons_ne_self proc c)
    · rw [if_neg hnew.ne_zero] at hproc
      rw [(List.cons.inj hproc).1] at hrecord
      refine ⟨hrecord.esi, ?_⟩
      rcases hrecord.esp with hesp | hesp
      · rw [hesp]
        decide
      · rw [hesp]
        exact hrecord.kernelStack

/-- The stack pointer that such a process is given is 0, not the one in its CPU state. -/
theorem NotRun.not_started {proc : Word} {st : CpuState} {y : ProcessSystem} {c : Cpu}
    (h : NotRun proc st y) (hesi : st.esi = 0) (hesp : st.esp ≠ 0)
    (hcur : y.kernel.currentProcess ≠ proc)
    (hc : AtContextSwitch y.kernel y.kernel.currentProcess proc c) : ¬ Dispatched st c := by
  intro hdispatched
  have hapart := h.inv.apart_records h.inv.current h.created hcur
  obtain ⟨-, -, -, hloaded⟩ := loadContext_refines hc hapart
  rw [contextSwitch_procs, modify_procs_of_ne hcur.symm, h.cpuState, hesi] at hloaded
  exact hesp (hdispatched.esp.symm.trans hloaded)

/-- In no run does the first dispatch of a process start it where `create_process` said: at
whatever moment after its creation it is switched to for the first time. -/
theorem not_dispatched {pre post : List (ProcessSystem × ProcessOp)} {y y₁ y' : ProcessSystem}
    {proc : Word} {name : List Byte} {entryPoint : Word} {kernelMode : Bool} {c : Cpu}
    (hpre : Run ProcessBoot ProcessStep pre y)
    (hcreate : ProcessStep y (.createProcess name entryPoint kernelMode) y₁)
    (hproc : y₁.created = proc :: y.created) (hpost : Run (· = y₁) ProcessStep post y')
    (hfirst : ∀ z ∈ Run.states post y', z.kernel.currentProcess ≠ proc)
    (hc : AtContextSwitch y'.kernel y'.kernel.currentProcess proc c) :
    ¬ Dispatched (y₁.kernel.procs proc).cpuState c := by
  obtain ⟨hnot, hesi, hesp⟩ := notRun_of_createProcess (processInv_run hpre) hcreate hproc
  have hcur := hfirst y' List.mem_cons_self
  exact (hnot.run hpost hfirst).not_started hesi hesp hcur hc

/-! ## A short run -/

/-- A processor at the entry of `context_switch` exists for any two processes and any stack
outside of their records. -/
theorem exists_atContextSwitch (s : KernelState) {prev next : Word} (sp : Word)
    (hapart : Mem.Apart prev 136 next 136) (hprev : Mem.Apart (sp - 32) 44 prev 136)
    (hnext : Mem.Apart (sp - 32) 44 next 136) : ∃ c, AtContextSwitch s prev next c := by
  have hstate : (cpuStateAddr next - next).toNat + 52 ≤ 136 := by
    rw [cpuStateAddr, Mem.offset_add]
    decide
  have hargs : (sp - (sp - 32)).toNat + 12 ≤ 44 := by bv_omega
  have hsize : ∀ proc, 4 * (s.procs proc).cpuState.words.length < 2 ^ 32 := fun proc => by
    rw [CpuState.length_words]
    decide
  have blank : Cpu := ⟨fun _ => 0, fun _ => 0, 0, 0, 0, fun _ => 0⟩
  -- First the two CPU states, then the call.
  obtain ⟨c₁, -, hprev₁, -⟩ := blank.exists_stack (cpuStateAddr prev)
    (s.procs prev).cpuState.words (hsize prev)
  obtain ⟨c₂, -, hnext₂, hkeep₂⟩ := c₁.exists_stack (cpuStateAddr next)
    (s.procs next).cpuState.words (hsize next)
  obtain ⟨c, hesp, hstack, hkeep⟩ := c₂.exists_stack sp
    [0, cpuStateAddr prev, cpuStateAddr next] (by simp)
  have hcall : 4 * [0, cpuStateAddr prev, cpuStateAddr next].length = 12 := rfl
  rw [CpuState.length_words] at hkeep₂
  rw [hcall] at hkeep
  have hprev₂ := hkeep₂ _ _ hprev₁ (apart_words hapart.symm (by decide) hstate)
  have hprev₃ := hkeep _ _ hprev₂ (apart_words hprev (by decide) hargs)
  have hnext₃ := hkeep _ _ hnext₂ (apart_words hnext (by decide) hargs)
  refine ⟨c, ⟨0, ?_⟩, hprev₃, hnext₃, ?_, ?_⟩
  · unfold Cpu.Stack
    rw [hesp]
    exact hstack
  · rw [hesp]
    exact hprev
  · rw [hesp]
    exact hnext

/-- The second process of a pair is about to be switched to for the first time, on the stack
that the kernel gets at boot. -/
structure FirstDispatch (s : KernelState) (c : Cpu) : Prop where
  start : Run ProcessBoot ProcessStep [] (firstSystem s)
  create : ProcessStep (firstSystem s) (.createProcess kernelName 0 true) (pairSystem s)
  notCurrent : ∀ z ∈ Run.states ([] : List (ProcessSystem × ProcessOp)) (pairSystem s),
    z.kernel.currentProcess ≠ 0x308088
  entry : AtContextSwitch (pairSystem s).kernel (pairSystem s).kernel.currentProcess 0x308088 c

theorem exists_firstDispatch : ∃ s c, FirstDispatch s c := by
  obtain ⟨s, hs, hboot⟩ := exists_firstSystem
  have hcur : (pairSystem s).kernel.currentProcess = 0x306000 := (pairKernel_links hs).1
  have hrecords : Mem.Apart 0x306000 136 0x308088 136 := ⟨by decide, by decide⟩
  obtain ⟨c, hc⟩ := exists_atContextSwitch (pairSystem s).kernel 0x8FF00 hrecords
    ⟨by decide, by decide⟩ ⟨by decide, by decide⟩
  refine ⟨s, c, .start hboot, (run_pairSystem hs hboot).last, fun z hz => ?_, ?_⟩
  · obtain rfl := List.mem_singleton.mp hz
    rw [hcur]
    decide
  · rw [hcur]
    exact hc

/-- The second process of a pair is not started where `create_process` said. -/
theorem not_dispatched_pairSystem : ∃ s c, FirstDispatch s c ∧
    ¬ Dispatched ((pairSystem s).kernel.procs 0x308088).cpuState c := by
  obtain ⟨s, c, h⟩ := exists_firstDispatch
  have hproc : (pairSystem s).created = 0x308088 :: (firstSystem s).created := rfl
  exact ⟨s, c, h, not_dispatched h.start h.create hproc (.start rfl) h.notCurrent h.entry⟩

theorem not_forall_dispatched : ¬ ∀ (pre post : List (ProcessSystem × ProcessOp))
    (y y₁ y' : ProcessSystem) (proc : Word) (name : List Byte) (entryPoint : Word)
    (kernelMode : Bool) (c : Cpu), Run ProcessBoot ProcessStep pre y →
      ProcessStep y (.createProcess name entryPoint kernelMode) y₁ →
      y₁.created = proc :: y.created → Run (· = y₁) ProcessStep post y' →
      (∀ z ∈ Run.states post y', z.kernel.currentProcess ≠ proc) →
      AtContextSwitch y'.kernel y'.kernel.currentProcess proc c →
      Dispatched (y₁.kernel.procs proc).cpuState c := by
  intro hall
  obtain ⟨s, c, h⟩ := exists_firstDispatch
  have hproc : (pairSystem s).created = 0x308088 :: (firstSystem s).created := rfl
  have hdispatched := hall [] [] _ _ _ 0x308088 _ _ _ c h.start h.create hproc (.start rfl)
    h.notCurrent h.entry
  obtain ⟨hnot, hesi, hesp⟩ :=
    notRun_of_createProcess (processInv_run h.start) h.create hproc
  exact hnot.not_started hesi hesp (h.notCurrent _ List.mem_cons_self) h.entry hdispatched

end KyroKernel
