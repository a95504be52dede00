import KyroKernel.Foundations.Memory

/-!
# A 32-bit x86 processor for hand-written assembly

The registers, the segment registers and the straight-line instructions that interrupt stubs
and context switches are written in, in protected mode with a flat memory. A piece of code
runs up to the `ret` or `iret` that ends it. A called function is a map of processor states,
from the state at its entry to the state after its return; `Cdecl` says when it follows the
C calling convention. `Cpu.Stack` is how proofs see the stack: the words from ESP on.
-/

namespace KyroKernel.Foundations

/-- The general-purpose registers, in the order `pusha` pushes them. -/
inductive Reg where
  | eax
  | ecx
  | edx
  | ebx
  | esp
  | ebp
  | esi
  | edi
  deriving DecidableEq, Repr

/-- The data segment registers. -/
inductive SReg where
  | ds
  | es
  | fs
  | gs
  deriving DecidableEq, Repr

/-- A processor state with the memory it sees. -/
structure Cpu where
  regs : Reg → Word
  sregs : SReg → BitVec 16
  eflags : Word
  eip : Word
  cr3 : Word
  mem : Mem

namespace Cpu

/-- Load a register. -/
def set (c : Cpu) (r : Reg) (v : Word) : Cpu := { c with regs := Function.update c.regs r v }

/-- Push one word. -/
def push (c : Cpu) (v : Word) : Cpu :=
  let esp := c.regs .esp - 4
  { c.set .esp esp with mem := c.mem.write32 esp v }

/-- The word on top of the stack. -/
def top (c : Cpu) : Word := c.mem.read32 (c.regs .esp)

/-- Drop the word on top of the stack. -/
def drop (c : Cpu) : Cpu := c.set .esp (c.regs .esp + 4)

/-- Pop one word into a register. -/
def pop (c : Cpu) (r : Reg) : Cpu := c.drop.set r c.top

/-- Push words one after the other. -/
def pushAll (c : Cpu) (vs : List Word) : Cpu := vs.foldl push c

end Cpu

/-- The instructions that do not transfer control, with their operands in AT&T order. -/
inductive Op where
  | cli
  | sti
  | pusha
  | popa
  | pushf
  | popf
  | push (src : Reg)
  | pop (dst : Reg)
  | pushSeg (src : SReg)
  | popSeg (dst : SReg)
  | movImmLow (imm : BitVec 16) (dst : Reg)
  | movToSeg (src : Reg) (dst : SReg)
  | mov (src dst : Reg)
  | load (disp : Word) (base dst : Reg)
  | store (src : Reg) (disp : Word) (base : Reg)
  | movToCr3 (src : Reg)
  | addImm (imm : Word) (dst : Reg)
  deriving DecidableEq, Repr

/-- The interrupt flag. -/
def interruptFlag : Word := 0x200

/-- The low half of a register replaced. -/
def setLow (v : Word) (low : BitVec 16) : Word := v.extractLsb' 16 16 ++ low

/-- What one instruction does. A segment register is pushed as a zero-extended word, and
only the low half of the word is popped. -/
def exec (c : Cpu) : Op → Cpu
  | .cli => { c with eflags := c.eflags &&& ~~~interruptFlag }
  | .sti => { c with eflags := c.eflags ||| interruptFlag }
  | .pusha =>
    let esp := c.regs .esp
    let c := (((c.push (c.regs .eax)).push (c.regs .ecx)).push (c.regs .edx)).push (c.regs .ebx)
    (((c.push esp).push (c.regs .ebp)).push (c.regs .esi)).push (c.regs .edi)
  | .popa =>
    -- The pushed ESP is skipped.
    ((((((((c.pop .edi).pop .esi).pop .ebp).drop).pop .ebx).pop .edx).pop .ecx).pop .eax)
  | .pushf => c.push c.eflags
  | .popf => { c.drop with eflags := c.top }
  | .push src => c.push (c.regs src)
  | .pop dst => c.pop dst
  | .pushSeg src => c.push ((c.sregs src).setWidth 32)
  | .popSeg dst =>
    { c.drop with sregs := Function.update c.sregs dst (c.top.setWidth 16) }
  | .movImmLow imm dst => c.set dst (setLow (c.regs dst) imm)
  | .movToSeg src dst =>
    { c with sregs := Function.update c.sregs dst ((c.regs src).setWidth 16) }
  | .mov src dst => c.set dst (c.regs src)
  | .load disp base dst => c.set dst (c.mem.read32 (c.regs base + disp))
  | .store src disp base => { c with mem := c.mem.write32 (c.regs base + disp) (c.regs src) }
  | .movToCr3 src => { c with cr3 := c.regs src }
  | .addImm imm dst => c.set dst (c.regs dst + imm)

/-- A block of instructions. -/
def execAll (c : Cpu) (ops : List Op) : Cpu := ops.foldl exec c

@[simp] theorem execAll_nil (c : Cpu) : execAll c [] = c := rfl

@[simp] theorem execAll_cons (c : Cpu) (op : Op) (ops : List Op) :
    execAll c (op :: ops) = execAll (exec c op) ops := rfl

theorem execAll_append (c : Cpu) (ops ops' : List Op) :
    execAll c (ops ++ ops') = execAll (execAll c ops) ops' :=
  List.foldl_append

/-! ## Code that calls and returns -/

universe u

variable {ι : Type u}

/-- An instruction. A call names the function and carries the address of the instruction
behind it, which it pushes. -/
inductive Instr (ι : Type u) where
  | op (o : Op)
  | call (f : ι) (next : Word)
  | ret
  | iret

/-- Run code up to its first `ret` or `iret`. The result is the state in which that
instruction executes and the calls made on the way, each with the state at the entry of the
function. Code that runs off its end has no result. -/
def run (env : ι → Cpu → Cpu) : List (Instr ι) → Cpu → Option (Cpu × List (ι × Cpu))
  | [], _ => none
  | .op o :: is, c => run env is (exec c o)
  | .call f next :: is, c =>
    (run env is (env f (c.push next))).map fun (c', calls) => (c', (f, c.push next) :: calls)
  | .ret :: _, c => some (c, [])
  | .iret :: _, c => some (c, [])

/-- A block at the start of some code runs as a block. -/
theorem run_ops (env : ι → Cpu → Cpu) (ops : List Op) (is : List (Instr ι)) (c : Cpu) :
    run env (ops.map .op ++ is) c = run env is (execAll c ops) := by
  induction ops generalizing c with
  | nil => rfl
  | cons o ops ih => exact ih (exec c o)

/-- What `ret` does. -/
def Cpu.ret (c : Cpu) : Cpu := { c.drop with eip := c.top }

/-- The first `n` arguments of a function, seen from its entry: they lie above the return
address. -/
def args (n : Nat) (entry : Cpu) : List Word :=
  (List.range n).map fun k => entry.mem.read32 (entry.regs .esp + 4 + 4 * BitVec.ofNat 32 k)

/-- A call of `f` from the state `entry` follows the C calling convention: it pops the
return address only, keeps EBX, ESI, EDI and EBP, and leaves the `frame` words above its
`n` arguments alone. -/
structure Cdecl (n frame : Nat) (f : Cpu → Cpu) (entry : Cpu) : Prop where
  esp : (f entry).regs .esp = entry.regs .esp + 4
  saved : ∀ r, r = .ebx ∨ r = .esi ∨ r = .edi ∨ r = .ebp → (f entry).regs r = entry.regs r
  frame : ∀ a, 4 + 4 * n ≤ (a - entry.regs .esp).toNat →
    (a - entry.regs .esp).toNat < 4 + 4 * n + 4 * frame → (f entry).mem a = entry.mem a

/-! ## The stack -/

namespace Cpu

variable {c : Cpu} {l : List Word}

/-- The words `l` lie on the stack, the first one on top. -/
def Stack (c : Cpu) (l : List Word) : Prop := c.mem.Words (c.regs .esp) l

@[simp] theorem set_self (c : Cpu) (r : Reg) (v : Word) : (c.set r v).regs r = v :=
  Function.update_self ..

@[simp] theorem set_of_ne {r r' : Reg} (v : Word) (h : r' ≠ r) :
    (c.set r v).regs r' = c.regs r' :=
  Function.update_of_ne h ..

@[simp] theorem push_esp (c : Cpu) (v : Word) : (c.push v).regs .esp = c.regs .esp - 4 :=
  set_self c .esp _

@[simp] theorem push_of_ne {r : Reg} (v : Word) (h : r ≠ .esp) :
    (c.push v).regs r = c.regs r :=
  Function.update_of_ne h ..

/-- Loading a register other than ESP and pushing commute. -/
theorem push_set {r : Reg} (c : Cpu) (v w : Word) (h : r ≠ .esp) :
    (c.set r v).push w = (c.push w).set r v := by
  unfold Cpu.push Cpu.set
  simp [Function.update_of_ne h.symm, Function.update_comm h]

@[simp] theorem drop_esp (c : Cpu) : c.drop.regs .esp = c.regs .esp + 4 :=
  set_self c .esp _

@[simp] theorem drop_of_ne {r : Reg} (h : r ≠ .esp) : c.drop.regs r = c.regs r :=
  Function.update_of_ne h ..

theorem stack_nil (c : Cpu) : c.Stack [] := by
  unfold Stack
  trivial

theorem Stack.top {v : Word} (h : c.Stack (v :: l)) : c.top = v := h.1

theorem Stack.drop {v : Word} (h : c.Stack (v :: l)) : c.drop.Stack l := by
  unfold Stack
  rw [drop_esp]
  exact h.2

/-- Pushing puts a word in front, as long as the stack does not wrap around. -/
theorem Stack.push (h : c.Stack l) (v : Word) (hl : 4 * (l.length + 1) ≤ 2 ^ 32) :
    (c.push v).Stack (v :: l) := by
  unfold Stack
  rw [push_esp]
  exact Mem.Words.push h v hl

@[simp] theorem pop_self (c : Cpu) (r : Reg) : (c.pop r).regs r = c.top :=
  set_self ..

@[simp] theorem pop_of_ne {r r' : Reg} (h : r' ≠ r) (hesp : r' ≠ .esp) :
    (c.pop r).regs r' = c.regs r' := by
  unfold Cpu.pop
  rw [set_of_ne _ h, drop_of_ne hesp]

@[simp] theorem pop_esp {r : Reg} (h : r ≠ .esp) :
    (c.pop r).regs .esp = c.regs .esp + 4 := by
  unfold Cpu.pop
  rw [set_of_ne _ h.symm, drop_esp]

/-- Popping into a register other than ESP. -/
theorem Stack.pop {v : Word} (h : c.Stack (v :: l)) {r : Reg} (hr : r ≠ .esp) :
    (c.pop r).Stack l := by
  unfold Stack
  rw [pop_esp hr]
  exact h.2

/-! Pushing several words. -/

theorem pushAll_of_ne {r : Reg} (vs : List Word) (h : r ≠ .esp) :
    (c.pushAll vs).regs r = c.regs r := by
  induction vs generalizing c with
  | nil => rfl
  | cons v vs ih =>
    have hrest := ih (c := c.push v)
    rw [push_of_ne v h] at hrest
    exact hrest

theorem pushAll_esp (c : Cpu) (vs : List Word) :
    (c.pushAll vs).regs .esp = c.regs .esp - 4 * BitVec.ofNat 32 vs.length := by
  induction vs generalizing c with
  | nil => simp [Cpu.pushAll]
  | cons v vs ih =>
    have hrest := ih (c.push v)
    rw [push_esp] at hrest
    rw [List.length_cons, BitVec.ofNat_add, BitVec.mul_add, BitVec.add_comm (4 * _),
      ← BitVec.sub_sub]
    exact hrest

theorem Stack.pushAll (h : c.Stack l) (vs : List Word)
    (hl : 4 * (l.length + vs.length) ≤ 2 ^ 32) : (c.pushAll vs).Stack (vs.reverse ++ l) := by
  induction vs generalizing c l with
  | nil => exact h
  | cons v vs ih =>
    rw [List.length_cons] at hl
    rw [List.reverse_cons, List.append_assoc]
    exact ih (h.push v (by omega)) (by rw [List.singleton_append, List.length_cons]; omega)

/-- Pushing changes no byte outside a block below ESP that has room for the words. -/
theorem pushAll_mem {a x : Word} {n : Nat} (vs : List Word)
    (hroom : 4 * vs.length ≤ (c.regs .esp - a).toNat) (hn : (c.regs .esp - a).toNat ≤ n)
    (hx : ¬ (x - a).toNat < n) : (c.pushAll vs).mem x = c.mem x := by
  induction vs generalizing c with
  | nil => rfl
  | cons v vs ih =>
    rw [List.length_cons] at hroom
    -- The word lies in the block, four bytes below ESP.
    have hesp : (c.regs .esp - 4 - a).toNat = (c.regs .esp - a).toNat - 4 := by bv_omega
    have hout : ¬ (x - (c.regs .esp - 4)).toNat < 4 := by bv_omega
    have hrest := ih (c := c.push v) (by rw [push_esp, hesp]; omega) (by rw [push_esp, hesp]; omega)
    exact hrest.trans (Mem.write32_of_not_mem hout)

/-- Words apart from such a block stay. -/
theorem pushAll_words {a p : Word} {n : Nat} {ws : List Word} (h : c.mem.Words p ws)
    (vs : List Word) (hroom : 4 * vs.length ≤ (c.regs .esp - a).toNat)
    (hn : (c.regs .esp - a).toNat ≤ n) (hapart : Mem.Apart a n p (4 * ws.length)) :
    (c.pushAll vs).mem.Words p ws := by
  have hlt := (a - p).isLt
  refine h.congr (Nat.le_trans hapart.2 (Nat.le_of_lt hlt)) fun x hx => ?_
  exact pushAll_mem vs hroom hn (hapart.symm.not_mem hx)

/-- Any words can be put on a stack at any place; words elsewhere stay. -/
theorem exists_stack (c : Cpu) (p : Word) (ws : List Word) (hl : 4 * ws.length < 2 ^ 32) :
    ∃ c' : Cpu, c'.regs .esp = p ∧ c'.mem.Words p ws ∧ ∀ q vs, c.mem.Words q vs →
      Mem.Apart p (4 * ws.length) q (4 * vs.length) → c'.mem.Words q vs := by
  have hlen : ws.reverse.length = ws.length := List.length_reverse
  have hsize : (4 * BitVec.ofNat 32 ws.length : Word).toNat = 4 * ws.length := by
    have h4 : (4 : Word).toNat = 4 := rfl
    rw [BitVec.toNat_mul, BitVec.toNat_ofNat, h4]
    omega
  -- Push them from their end on.
  have hesp : ((c.set .esp (p + 4 * BitVec.ofNat 32 ws.length)).pushAll ws.reverse).regs .esp =
      p := by
    rw [pushAll_esp, set_self, hlen, BitVec.add_sub_cancel]
  refine ⟨(c.set .esp (p + 4 * BitVec.ofNat 32 ws.length)).pushAll ws.reverse, hesp, ?_, ?_⟩
  · have hstack := (stack_nil (c.set .esp (p + 4 * BitVec.ofNat 32 ws.length))).pushAll
      ws.reverse (by rw [List.length_nil, hlen]; omega)
    unfold Stack at hstack
    rwa [List.reverse_reverse, List.append_nil, hesp] at hstack
  · intro q vs hwords hapart
    have hset : (c.set .esp (p + 4 * BitVec.ofNat 32 ws.length)).mem.Words q vs := hwords
    refine pushAll_words hset ws.reverse ?_ ?_ hapart
    · exact Nat.le_of_eq (by rw [set_self, Mem.offset_add, hsize, hlen])
    · exact Nat.le_of_eq (by rw [set_self, Mem.offset_add, hsize])

/-- `pusha` pushes the general-purpose registers, ESP as it was before. -/
theorem exec_pusha (c : Cpu) : exec c .pusha = c.pushAll
    [c.regs .eax, c.regs .ecx, c.regs .edx, c.regs .ebx, c.regs .esp, c.regs .ebp, c.regs .esi,
      c.regs .edi] := by
  simp [exec, Cpu.pushAll]

/-- `popa` loads what `pusha` saved, except ESP, which ends above the saved words. -/
theorem Stack.popa {di si bp skip b d cx a : Word}
    (h : c.Stack (di :: si :: bp :: skip :: b :: d :: cx :: a :: l)) :
    (exec c .popa).Stack l ∧ (exec c .popa).regs .edi = di ∧ (exec c .popa).regs .esi = si ∧
    (exec c .popa).regs .ebp = bp ∧ (exec c .popa).regs .ebx = b ∧
    (exec c .popa).regs .edx = d ∧ (exec c .popa).regs .ecx = cx ∧
    (exec c .popa).regs .eax = a ∧ (exec c .popa).regs .esp = c.regs .esp + 32 := by
  have h1 := h.pop (r := .edi) (by decide)
  have h2 := h1.pop (r := .esi) (by decide)
  have h3 := h2.pop (r := .ebp) (by decide)
  have h4 := h3.drop
  have h5 := h4.pop (r := .ebx) (by decide)
  have h6 := h5.pop (r := .edx) (by decide)
  have h7 := h6.pop (r := .ecx) (by decide)
  have h8 := h7.pop (r := .eax) (by decide)
  -- Each register keeps the word that was on top when it was popped.
  refine ⟨h8, ?_, ?_, ?_, ?_, ?_, ?_, ?_, ?_⟩
  · simpa [exec] using h.top
  · simpa [exec] using h1.top
  · simpa [exec] using h2.top
  · simpa [exec] using h4.top
  · simpa [exec] using h5.top
  · simpa [exec] using h6.top
  · simpa [exec] using h7.top
  · simp only [exec, ne_eq, reduceCtorEq, not_false_eq_true, pop_esp, drop_esp]
    bv_omega

/-- The registers that `popa` loads are those of a state whose registers were saved. -/
theorem Stack.popa_of_saved {d : Cpu} {skip : Word}
    (h : c.Stack (d.regs .edi :: d.regs .esi :: d.regs .ebp :: skip :: d.regs .ebx ::
      d.regs .edx :: d.regs .ecx :: d.regs .eax :: l)) :
    (exec c .popa).Stack l ∧ (exec c .popa).regs .esp = c.regs .esp + 32 ∧
      ∀ r, r ≠ .esp → (exec c .popa).regs r = d.regs r := by
  obtain ⟨hrest, hdi, hsi, hbp, hb, hd, hcx, ha, hesp⟩ := h.popa
  refine ⟨hrest, hesp, fun r hr => ?_⟩
  cases r with
  | esp => exact absurd rfl hr
  | eax => exact ha
  | ecx => exact hcx
  | edx => exact hd
  | ebx => exact hb
  | ebp => exact hbp
  | esi => exact hsi
  | edi => exact hdi

end Cpu

/-- The arguments are the words above the return address. -/
theorem args_of_stack {entry : Cpu} {next : Word} {as l : List Word}
    (h : entry.Stack (next :: (as ++ l))) : args as.length entry = as := by
  have htail : entry.mem.Words (entry.regs .esp + 4) (as ++ l) := h.2
  unfold args
  generalize entry.regs .esp + 4 = p at htail ⊢
  clear h
  induction as generalizing p with
  | nil => rfl
  | cons a as ih =>
    obtain ⟨ha, hrest⟩ := htail
    rw [List.length_cons, List.range_succ_eq_map, List.map_cons, List.map_map]
    refine List.cons_eq_cons.mpr ⟨by simpa using ha, ?_⟩
    refine (List.map_congr_left fun k _ => ?_).trans (ih (p + 4) hrest)
    simp only [Function.comp_apply, Nat.succ_eq_add_one, BitVec.ofNat_add, BitVec.mul_add]
    rw [BitVec.add_assoc, BitVec.add_comm 4]
    rfl

/-- After a call that follows the C calling convention the words above the arguments are
still on the stack, above the place of the arguments. -/
theorem Cdecl.stack {f : Cpu → Cpu} {entry : Cpu} {next : Word} {as l : List Word}
    (h : Cdecl as.length l.length f entry) (hs : entry.Stack (next :: (as ++ l)))
    (hl : 4 * (as.length + l.length + 1) < 2 ^ 32) :
    (f entry).mem.Words ((f entry).regs .esp + 4 * BitVec.ofNat 32 as.length) l := by
  have hwords : entry.mem.Words (entry.regs .esp + 4) (as ++ l) := hs.2
  have hargs : (4 + 4 * BitVec.ofNat 32 as.length : Word).toNat = 4 + 4 * as.length := by
    have h4 : (4 : Word).toNat = 4 := rfl
    rw [BitVec.toNat_add, BitVec.toNat_mul, BitVec.toNat_ofNat, h4]
    omega
  rw [h.esp]
  refine (hwords.drop as).congr (by omega) fun x hx => ?_
  -- The offset from ESP is past the return address and the arguments.
  have hoff : x - entry.regs .esp =
      x - (entry.regs .esp + 4 + 4 * BitVec.ofNat 32 as.length) +
        (4 + 4 * BitVec.ofNat 32 as.length) := by
    rw [BitVec.add_assoc, ← BitVec.sub_sub, BitVec.sub_add_cancel]
  have hnat : (x - entry.regs .esp).toNat =
      (x - (entry.regs .esp + 4 + 4 * BitVec.ofNat 32 as.length)).toNat +
        (4 + 4 * as.length) := by
    rw [hoff, BitVec.toNat_add, hargs, Nat.mod_eq_of_lt (by omega)]
  exact h.frame x (by omega) (by omega)

end KyroKernel.Foundations
