import KyroKernel.Foundations.X86

/-!
# Assembly with labels

Code for the processor of `X86` that compares, branches and jumps, always to labels further
down, and writes to ports. A jump skips the code up to its label, so a run goes through the
code once. What a run does to the outside is a list of events.
-/

namespace KyroKernel.Foundations

universe u v

variable {ι : Type u} {κ : Type v}

/-- The zero flag. -/
def zeroFlag : Word := 0x40

/-- The low byte of a register replaced. -/
def setLowByte (v : Word) (low : BitVec 8) : Word := v.extractLsb' 8 24 ++ low

/-- Instructions that continue with the next one, with their operands in AT&T order. -/
inductive LineOp where
  | op (o : Op)
  | pushByte (imm : BitVec 8)
  | movFromSeg (src : SReg) (dst : Reg)
  | movImmByte (imm : BitVec 8) (dst : Reg)
  | cmpImm (imm : Word) (src : Reg)
  deriving DecidableEq, Repr

/-- What such an instruction does. A pushed byte is sign-extended, and of the flags a
comparison sets, only the zero flag is kept. -/
def execLine (c : Cpu) : LineOp → Cpu
  | .op o => exec c o
  | .pushByte imm => c.push (imm.signExtend 32)
  | .movFromSeg src dst => c.set dst (setLow (c.regs dst) (c.sregs src))
  | .movImmByte imm dst => c.set dst (setLowByte (c.regs dst) imm)
  | .cmpImm imm src =>
    { c with
      eflags := if c.regs src = imm then c.eflags ||| zeroFlag else c.eflags &&& ~~~zeroFlag }

/-- A byte moved into a register is its low byte. -/
theorem low_movImmByte (c : Cpu) (imm : BitVec 8) (dst : Reg) :
    ((execLine c (.movImmByte imm dst)).regs dst).setWidth 8 = imm := by
  have hset : (execLine c (.movImmByte imm dst)).regs dst = setLowByte (c.regs dst) imm :=
    Cpu.set_self ..
  rw [hset]
  unfold setLowByte
  ext i hi
  rw [BitVec.getElem_setWidth]
  exact BitVec.getLsbD_append.trans (by simp [hi])

/-- A block of such instructions. -/
def execLines (c : Cpu) (ops : List LineOp) : Cpu := ops.foldl execLine c

@[simp] theorem execLines_nil (c : Cpu) : execLines c [] = c := rfl

@[simp] theorem execLines_cons (c : Cpu) (op : LineOp) (ops : List LineOp) :
    execLines c (op :: ops) = execLines (execLine c op) ops := rfl

theorem execLines_ops (c : Cpu) (ops : List Op) :
    execLines c (ops.map .op) = execAll c ops :=
  List.foldl_map

theorem execLines_append (c : Cpu) (ops ops' : List LineOp) :
    execLines c (ops ++ ops') = execLines (execLines c ops) ops' :=
  List.foldl_append

/-- An instruction of code with labels; a call as in `Instr`. -/
inductive AsmInstr (ι : Type u) (κ : Type v) where
  | line (o : LineOp)
  | out (port : BitVec 8) (src : Reg)
  | label (l : κ)
  | jmp (l : κ)
  | je (l : κ)
  | call (f : ι) (next : Word)
  | iret

/-- What is seen from outside: a call with the state at the entry of the function, or a byte
written to a port. -/
inductive Event (ι : Type u) where
  | call (f : ι) (entry : Cpu)
  | out (port value : BitVec 8)

/-- The calls among some events. -/
def callsOf (events : List (Event ι)) : List (ι × Cpu) :=
  events.filterMap fun
    | .call f entry => some (f, entry)
    | .out _ _ => none

variable [DecidableEq κ]

/-- Run code up to its first `iret`, from its start or from the label `target`. The result is
the state in which `iret` executes, with the events on the way. -/
def runAsm (env : ι → Cpu → Cpu) :
    List (AsmInstr ι κ) → Option κ → Cpu → Option (Cpu × List (Event ι))
  | [], _, _ => none
  | .label l :: is, some target, c =>
    if l = target then runAsm env is none c else runAsm env is (some target) c
  | _ :: is, some target, c => runAsm env is (some target) c
  | .line o :: is, none, c => runAsm env is none (execLine c o)
  | .out port src :: is, none, c =>
    (runAsm env is none c).map fun (c', events) =>
      (c', .out port ((c.regs src).setWidth 8) :: events)
  | .label _ :: is, none, c => runAsm env is none c
  | .jmp l :: is, none, c => runAsm env is (some l) c
  | .je l :: is, none, c => runAsm env is (if c.eflags &&& zeroFlag ≠ 0 then some l else none) c
  | .call f next :: is, none, c =>
    (runAsm env is none (env f (c.push next))).map fun (c', events) =>
      (c', .call f (c.push next) :: events)
  | .iret :: _, none, c => some (c, [])

variable {env : ι → Cpu → Cpu} {is : List (AsmInstr ι κ)} {c : Cpu}

/-- A block at the start of some code runs as a block. -/
theorem runAsm_lines (env : ι → Cpu → Cpu) (ops : List LineOp) (is : List (AsmInstr ι κ))
    (c : Cpu) : runAsm env (ops.map .line ++ is) none c = runAsm env is none (execLines c ops) := by
  induction ops generalizing c with
  | nil => rfl
  | cons o ops ih => exact ih (execLine c o)

/-- Two states that differ in their flags only. -/
def SameButFlags (c c' : Cpu) : Prop := ∃ flags, c' = { c with eflags := flags }

theorem SameButFlags.refl (c : Cpu) : SameButFlags c c := ⟨c.eflags, rfl⟩

theorem SameButFlags.trans {c₁ c₂ c₃ : Cpu} (h : SameButFlags c₁ c₂) (h' : SameButFlags c₂ c₃) :
    SameButFlags c₁ c₃ := by
  obtain ⟨_, rfl⟩ := h
  obtain ⟨flags, rfl⟩ := h'
  exact ⟨flags, rfl⟩

theorem SameButFlags.regs {c c' : Cpu} (h : SameButFlags c c') : c'.regs = c.regs := by
  obtain ⟨_, rfl⟩ := h
  rfl

theorem SameButFlags.stack {c c' : Cpu} (h : SameButFlags c c') {l : List Word}
    (hs : c.Stack l) : c'.Stack l := by
  obtain ⟨_, rfl⟩ := h
  exact hs

theorem sameButFlags_cmpImm (c : Cpu) (imm : Word) (src : Reg) :
    SameButFlags c (execLine c (.cmpImm imm src)) :=
  ⟨_, rfl⟩

/-- A comparison sets the zero flag exactly when the register holds the value. -/
theorem zeroFlag_cmpImm (c : Cpu) (imm : Word) (src : Reg) :
    (execLine c (.cmpImm imm src)).eflags &&& zeroFlag ≠ 0 ↔ c.regs src = imm := by
  simp only [execLine]
  split_ifs with h
  · refine ⟨fun _ => h, fun _ h0 => ?_⟩
    rw [BitVec.and_or_distrib_right, BitVec.and_self] at h0
    exact absurd (BitVec.or_eq_zero_iff.mp h0).2 (by decide)
  · refine ⟨fun hne => absurd ?_ hne, fun h' => absurd h' h⟩
    rw [BitVec.and_assoc, show ~~~zeroFlag &&& zeroFlag = 0 by decide]
    exact BitVec.and_zero

/-- A comparison and a branch. -/
theorem runAsm_cmp_je (l : κ) (imm : Word) (src : Reg) :
    runAsm env (.line (.cmpImm imm src) :: .je l :: is) none c =
      runAsm env is (if c.regs src = imm then some l else none)
        (execLine c (.cmpImm imm src)) := by
  rw [runAsm, runAsm, if_congr (zeroFlag_cmpImm c imm src) rfl rfl]

end KyroKernel.Foundations
