import KyroKernel.Asm.ContextSwitch
import Mathlib.Data.Set.Insert

/-!
# Switching between many contexts

Contexts with a stack and a `cpu_state_t` each that call `context_switch` in any order, with
any code of the running context in between. Whoever is switched out leaves its registers on its
stack and its ESP in its `cpu_state_t`; as long as nobody else writes there, it resumes with what
it had at the call, whatever the others did meanwhile. Memory is the same under every CR3.
-/

namespace KyroKernel

open Foundations

universe u

variable {ι : Type u}

/-! ## §1 Contexts -/

/-- Where `context_switch` keeps the ESP of a context, in its `cpu_state_t`. -/
def savedSlot (state : Word) : Word := state + 16

/-- The CPU states and the stacks of the contexts. -/
structure Contexts (ι : Type u) where
  state : ι → Word
  stack : ι → Word
  size : ι → Nat
  stacks_apart : ∀ i j, i ≠ j → Mem.Apart (stack i) (size i) (stack j) (size j)
  slots_apart : ∀ i j, i ≠ j → Mem.Apart (savedSlot (state i)) 4 (savedSlot (state j)) 4
  slot_stack_apart : ∀ i j, i ≠ j → Mem.Apart (savedSlot (state i)) 4 (stack j) (size j)

/-- The byte at `x` is on the stack of `i` or in its saved slot. -/
def Contexts.Owns (K : Contexts ι) (i : ι) (x : Word) : Prop :=
  (x - K.stack i).toNat < K.size i ∨ (x - savedSlot (K.state i)).toNat < 4

/-- The processor, the running context and the contexts that are switched out. -/
structure SwitchSystem (ι : Type u) where
  cpu : Cpu
  current : ι
  suspended : Set ι

/-- A step: code of the running context, or its call of `context_switch`. -/
inductive SwitchOp (ι : Type u) where
  | work
  | switch (next : ι)

/-- The context `i` enters `context_switch(&state_i, &state_j)` on its own stack, which has room
for the pushed registers, and its `cpu_state_t` is not in the part of it that the call uses. -/
structure AtSwitch (K : Contexts ι) (i j : ι) (c : Cpu) : Prop where
  args : ∃ ret, c.Stack [ret, K.state i, K.state j]
  stack : (c.regs .esp - 32 - K.stack i).toNat + 44 ≤ K.size i
  slot : Mem.Apart (c.regs .esp - 32) 44 (savedSlot (K.state i)) 4

/-- The running context may do anything but write what a suspended one owns. The target of a
switch may be a context that was not switched out before; what it starts with is then whatever
lies in memory. -/
inductive SwitchStep (K : Contexts ι) : SwitchSystem ι → SwitchOp ι → SwitchSystem ι → Prop where
  | work {c c' : Cpu} {i : ι} {S : Set ι} (hkeep : ∀ j ∈ S, ∀ x, K.Owns j x → c'.mem x = c.mem x) :
      SwitchStep K ⟨c, i, S⟩ .work ⟨c', i, S⟩
  | switch {c final : Cpu} {i j : ι} {S : Set ι} (hcall : AtSwitch K i j c)
      (hrun : run Empty.elim contextSwitchAsm c = some (final, [])) :
      SwitchStep K ⟨c, i, S⟩ (.switch j) ⟨final.ret, j, insert i S \ {j}⟩

/-- At the start no context is switched out. -/
def SwitchStart (y : SwitchSystem ι) : Prop := y.suspended = ∅

/-- The processor when `j` last called `context_switch`, at the entry. -/
def lastCall [DecidableEq ι] : List (SwitchSystem ι × SwitchOp ι) → ι → Option Cpu
  | [], _ => none
  | (_, .work) :: tr, j => lastCall tr j
  | (z, .switch _) :: tr, j => if z.current = j then some z.cpu else lastCall tr j

/-- The state `c'` continues behind the call that `c` entered: the return address is popped and
everything else is as it was. -/
structure ResumedAs (c c' : Cpu) : Prop where
  regs : ∀ r, r ≠ .esp → c'.regs r = c.regs r
  eflags : c'.eflags = c.eflags
  esp : c'.regs .esp = c.regs .esp + 4
  eip : c'.eip = c.top

/-! ## §2 What a suspended context leaves in memory -/

/-- The words on the stack of a context that was switched out in the state `c`. -/
def contextFrame (c : Cpu) : List Word :=
  [c.eflags, c.regs .edi, c.regs .esi, c.regs .edx, c.regs .ecx, c.regs .ebx, c.regs .eax,
    c.regs .ebp, c.top]

/-- Memory holds what the context `i` left when it was switched out in the state `c`. -/
structure Saved (K : Contexts ι) (m : Mem) (i : ι) (c : Cpu) : Prop where
  frame : m.Words (c.regs .esp - 32) (contextFrame c)
  slot : m.Words (savedSlot (K.state i)) [c.regs .esp - 32]
  stack : (c.regs .esp - 32 - K.stack i).toNat + 36 ≤ K.size i

/-- An offset into a part of a block is an offset into the block. -/
theorem offset_lt {x p a : Word} {n k : Nat} (hx : (x - p).toNat < k)
    (hp : (p - a).toNat + k ≤ n) : (x - a).toNat < n := by
  rw [BitVec.toNat_sub] at hx hp ⊢
  omega

/-- It stays as long as nobody writes what the context owns. -/
theorem Saved.congr {K : Contexts ι} {m m' : Mem} {i : ι} {c : Cpu} (h : Saved K m i c)
    (hkeep : ∀ x, K.Owns i x → m' x = m x) : Saved K m' i c := by
  refine ⟨h.frame.congr (by simp [contextFrame]) fun x hx => hkeep x (.inl ?_),
    h.slot.congr (by simp) fun x hx => hkeep x (.inr ?_), h.stack⟩
  · exact offset_lt hx h.stack
  · simpa using hx

/-! ## §3 Switching out -/

variable {K : Contexts ι} {i j : ι} {c : Cpu}

/-- The state after the first two parts of `context_switch`. -/
def switchedOut (c : Cpu) : Cpu := execAll (execAll c pushContext) storeEsp

theorem pushContext_stack (h : AtSwitch K i j c) :
    (execAll c pushContext).mem.Words (c.regs .esp - 32)
      (contextFrame c ++ [K.state i, K.state j]) := by
  obtain ⟨ret, hstack⟩ := h.args
  obtain ⟨hmem, hesp, -⟩ := pushContext_spec c
  have hret : ret = c.top := hstack.top.symm
  have hpushed := hstack.pushAll (contextWords c) (by simp [contextWords])
  unfold Cpu.Stack at hpushed
  rw [Cpu.pushAll_esp, ← hmem] at hpushed
  rw [hret] at hpushed
  exact hpushed

/-- The call stores ESP through its first argument and writes only to its stack and there. -/
theorem switchedOut_spec (h : AtSwitch K i j c) :
    (switchedOut c).mem.Words (c.regs .esp - 32) (contextFrame c ++ [K.state i, K.state j]) ∧
      (switchedOut c).mem.Words (savedSlot (K.state i)) [c.regs .esp - 32] ∧
      (switchedOut c).regs .ebp = c.regs .esp - 4 ∧
      ∀ x, ¬ (x - (c.regs .esp - 32)).toNat < 32 → ¬ (x - savedSlot (K.state i)).toNat < 4 →
        (switchedOut c).mem x = c.mem x := by
  obtain ⟨hmem, hesp, hebp⟩ := pushContext_spec c
  have hwords := pushContext_stack h
  have hroom : (c.regs .esp - (c.regs .esp - 32)).toNat = 32 := by bv_omega
  -- The first argument lies above the pushed registers and the return address.
  have hfirst : (execAll c pushContext).mem.read32 ((execAll c pushContext).regs .ebp + 8) =
      K.state i := by
    have hargs := (Mem.Words.drop (contextFrame c) hwords).1
    have haddr : c.regs .esp - 4 + 8 = c.regs .esp - 32 + 4 * BitVec.ofNat 32 9 := by bv_omega
    rw [hebp, haddr]
    exact hargs
  obtain ⟨hstore, hebp'⟩ := execAll_storeEsp (execAll c pushContext)
  rw [hfirst, hesp] at hstore
  unfold switchedOut
  rw [hstore, hebp', hebp]
  refine ⟨hwords.write32 _ h.slot, ⟨Mem.read32_write32_self .., trivial⟩, rfl,
    fun x hstack hslot => ?_⟩
  refine (Mem.write32_of_not_mem hslot).trans ?_
  rw [hmem]
  exact Cpu.pushAll_mem (contextWords c) (Nat.le_of_eq hroom.symm) (Nat.le_of_eq hroom) hstack

theorem saved_switchedOut (h : AtSwitch K i j c) : Saved K (switchedOut c).mem i c := by
  obtain ⟨hwords, hslot, -, -⟩ := switchedOut_spec h
  have hstack := h.stack
  exact ⟨hwords.append_left, hslot, by omega⟩

/-- What a context other than the calling one owns is left alone. -/
theorem switchedOut_keeps (h : AtSwitch K i j c) {k : ι} (hne : k ≠ i) {x : Word}
    (hx : K.Owns k x) : (switchedOut c).mem x = c.mem x := by
  obtain ⟨-, -, -, hmem⟩ := switchedOut_spec h
  have hstack := h.stack
  have hpart : (x - (c.regs .esp - 32)).toNat < 32 → (x - K.stack i).toNat < K.size i :=
    fun hin => offset_lt hin (by omega)
  rcases hx with hx | hx
  · exact hmem x (fun hin => (K.stacks_apart k i hne).not_mem hx (hpart hin))
      ((K.slot_stack_apart i k hne.symm).symm.not_mem hx)
  · exact hmem x (fun hin => (K.slot_stack_apart k i hne).not_mem hx (hpart hin))
      ((K.slots_apart k i hne).not_mem hx)

/-! ## §4 Switching in -/

/-- The pops load the registers from the new stack and write nothing. -/
theorem popContext_spec {c : Cpu} {fl di si d cx b a bp : Word} {l : List Word}
    (h : c.Stack (fl :: di :: si :: d :: cx :: b :: a :: bp :: l)) :
    (execAll c popContext).Stack l ∧ (execAll c popContext).eflags = fl ∧
      (execAll c popContext).regs .esp = c.regs .esp + 32 ∧
      (execAll c popContext).regs .eax = a ∧ (execAll c popContext).regs .ebx = b ∧
      (execAll c popContext).regs .ecx = cx ∧ (execAll c popContext).regs .edx = d ∧
      (execAll c popContext).regs .esi = si ∧ (execAll c popContext).regs .edi = di ∧
      (execAll c popContext).regs .ebp = bp := by
  have h0 : (exec c .popf).Stack (di :: si :: d :: cx :: b :: a :: bp :: l) := h.drop
  have h1 := h0.pop (r := .edi) (by decide)
  have h2 := h1.pop (r := .esi) (by decide)
  have h3 := h2.pop (r := .edx) (by decide)
  have h4 := h3.pop (r := .ecx) (by decide)
  have h5 := h4.pop (r := .ebx) (by decide)
  have h6 := h5.pop (r := .eax) (by decide)
  have h7 := h6.pop (r := .ebp) (by decide)
  have hflags : (exec c .popf).eflags = fl := h.top
  have hesp : (exec c .popf).regs .esp = c.regs .esp + 4 := Cpu.drop_esp c
  have hall : execAll c popContext = (((((((exec c .popf).pop .edi).pop .esi).pop .edx).pop
    .ecx).pop .ebx).pop .eax).pop .ebp := rfl
  rw [hall]
  generalize exec c .popf = c₀ at h0 h1 h2 h3 h4 h5 h6 h7 hflags hesp ⊢
  refine ⟨h7, hflags, ?_, ?_, ?_, ?_, ?_, ?_, ?_, ?_⟩
  · simp only [ne_eq, reduceCtorEq, not_false_eq_true, Cpu.pop_esp, hesp]
    bv_omega
  · simpa using h5.top
  · simpa using h4.top
  · simpa using h3.top
  · simpa using h2.top
  · simpa using h1.top
  · simpa using h0.top
  · simpa using h6.top

/-- `context_switch` as a whole: after the first two parts, ESP comes from the saved slot of the
target, and nothing more is written. -/
theorem run_contextSwitchAsm (h : AtSwitch K i j c) : ∃ c₁ : Cpu,
    run Empty.elim contextSwitchAsm c = some (execAll c₁ popContext, []) ∧
      c₁.mem = (switchedOut c).mem ∧
      c₁.regs .esp = (switchedOut c).mem.read32 (savedSlot (K.state j)) := by
  obtain ⟨hwords, -, hebp, -⟩ := switchedOut_spec h
  obtain ⟨hesp, -, hmem⟩ := execAll_loadContext (switchedOut c)
  -- The second argument lies above the first one.
  have hsecond : (switchedOut c).mem.read32 ((switchedOut c).regs .ebp + 12) = K.state j := by
    have hargs := (Mem.Words.drop (contextFrame c ++ [K.state i]) (l := [K.state j])
      (by rw [List.append_assoc]; exact hwords)).1
    have haddr : c.regs .esp - 4 + 12 = c.regs .esp - 32 + 4 * BitVec.ofNat 32 10 := by bv_omega
    rw [hebp, haddr]
    exact hargs
  rw [hsecond] at hesp
  refine ⟨execAll (switchedOut c) loadContext, ?_, hmem, hesp⟩
  unfold contextSwitchAsm switchedOut
  rw [run_ops, execAll_append, execAll_append, execAll_append]
  rfl

/-- Every register that is popped is given; `ret` changes no register but ESP. -/
theorem resumedAs_ret {c c₂ : Cpu} (hret : c₂.Stack [c.top]) (hflags : c₂.eflags = c.eflags)
    (hesp : c₂.regs .esp = c.regs .esp)
    (ha : c₂.regs .eax = c.regs .eax) (hb : c₂.regs .ebx = c.regs .ebx)
    (hcx : c₂.regs .ecx = c.regs .ecx) (hd : c₂.regs .edx = c.regs .edx)
    (hsi : c₂.regs .esi = c.regs .esi) (hdi : c₂.regs .edi = c.regs .edi)
    (hbp : c₂.regs .ebp = c.regs .ebp) : ResumedAs c c₂.ret := by
  have hregs : c₂.ret.regs = c₂.drop.regs := rfl
  refine ⟨fun r hr => ?_, hflags, ?_, hret.top⟩
  · rw [hregs, Cpu.drop_of_ne hr]
    cases r with
    | esp => exact hesp
    | eax => exact ha
    | ebx => exact hb
    | ecx => exact hcx
    | edx => exact hd
    | esi => exact hsi
    | edi => exact hdi
    | ebp => exact hbp
  · rw [hregs, Cpu.drop_esp, hesp]

/-- A context that left its registers in memory resumes with them. -/
theorem Saved.resumed {m : Mem} {k : ι} {c c₁ : Cpu} (h : Saved K m k c) (hmem : c₁.mem = m)
    (hesp : c₁.regs .esp = m.read32 (savedSlot (K.state k))) :
    ResumedAs c (execAll c₁ popContext).ret := by
  rw [h.slot.1] at hesp
  have hstack : c₁.Stack (contextFrame c) := by
    unfold Cpu.Stack
    rw [hmem, hesp]
    exact h.frame
  obtain ⟨hrest, hflags, hesp', ha, hb, hcx, hd, hsi, hdi, hbp⟩ := popContext_spec hstack
  refine resumedAs_ret hrest hflags ?_ ha hb hcx hd hsi hdi hbp
  rw [hesp', hesp]
  bv_omega

/-! ## §5 Runs -/

section Runs

variable [DecidableEq ι] {tr : List (SwitchSystem ι × SwitchOp ι)} {y z : SwitchSystem ι}

/-- Memory holds what every suspended context left at its last call. -/
def AllSaved (K : Contexts ι) (tr : List (SwitchSystem ι × SwitchOp ι)) (S : Set ι) (m : Mem) :
    Prop :=
  ∀ k ∈ S, ∃ c, lastCall tr k = some c ∧ Saved K m k c

/-- After a call is switched out its context is saved like the others. -/
theorem AllSaved.switchedOut {S : Set ι} (hall : AllSaved K tr S c.mem) (h : AtSwitch K i j c) :
    AllSaved K ((⟨c, i, S⟩, .switch j) :: tr) (insert i S) (switchedOut c).mem := by
  intro k hk
  rw [lastCall]
  by_cases hki : i = k
  · subst hki
    exact ⟨c, if_pos rfl, saved_switchedOut h⟩
  · have hkS : k ∈ S := (Set.mem_insert_iff.mp hk).resolve_left (Ne.symm hki)
    obtain ⟨c', hlast, hsaved⟩ := hall k hkS
    refine ⟨c', (if_neg hki).trans hlast, hsaved.congr fun x hx => ?_⟩
    exact switchedOut_keeps h (Ne.symm hki) hx

theorem allSaved_run (hrun : Run SwitchStart (SwitchStep K) tr y) :
    AllSaved K tr y.suspended y.cpu.mem := by
  induction hrun with
  | start hinit =>
    intro k hk
    rw [hinit] at hk
    exact hk.elim
  | snoc _ hstep ih =>
    cases hstep with
    | work hkeep =>
      intro k hk
      obtain ⟨c, hlast, hsaved⟩ := ih k hk
      exact ⟨c, hlast, hsaved.congr (hkeep k hk)⟩
    | switch hcall hfinal =>
      obtain ⟨c₁, hfinal', hmem, -⟩ := run_contextSwitchAsm hcall
      obtain ⟨rfl, -⟩ := Prod.mk.inj (Option.some.inj (hfinal.symm.trans hfinal'))
      have hout := ih.switchedOut hcall
      rw [← hmem] at hout
      exact fun k hk => hout k hk.1

/-- In every run, a context that was switched out before and is switched to resumes as it was at
its last call of `context_switch`. -/
theorem switched_resumed (hrun : Run SwitchStart (SwitchStep K) ((z, .switch j) :: tr) y)
    (hout : j = z.current ∨ j ∈ z.suspended) :
    ∃ c, lastCall ((z, .switch j) :: tr) j = some c ∧ ResumedAs c y.cpu := by
  have hall := allSaved_run hrun.tail
  cases hrun.last with
  | switch hcall hfinal =>
    obtain ⟨c₁, hfinal', hmem, hesp⟩ := run_contextSwitchAsm hcall
    obtain ⟨rfl, -⟩ := Prod.mk.inj (Option.some.inj (hfinal.symm.trans hfinal'))
    obtain ⟨c, hlast, hsaved⟩ := (hall.switchedOut hcall) j hout
    exact ⟨c, hlast, hsaved.resumed hmem hesp⟩

end Runs

/-! ## §6 Two contexts -/

/-- A context pushes the arguments below `top` and calls. -/
def callSwitch (K : Contexts ι) (i j : ι) (top : Word) (c : Cpu) : Cpu :=
  (c.set .esp top).pushAll [K.state j, K.state i, 0]

theorem callSwitch_esp (top : Word) (c : Cpu) :
    (callSwitch K i j top c).regs .esp = top - 12 := by
  unfold callSwitch
  rw [Cpu.pushAll_esp, Cpu.set_self]
  rfl

theorem atSwitch_callSwitch {top : Word} (c : Cpu)
    (hstack : (top - 44 - K.stack i).toNat + 44 ≤ K.size i)
    (hslot : Mem.Apart (top - 44) 44 (savedSlot (K.state i)) 4) :
    AtSwitch K i j (callSwitch K i j top c) := by
  have hpushed := (Cpu.stack_nil (c.set .esp top)).pushAll [K.state j, K.state i, 0] (by simp)
  have hbase : top - 12 - 32 = top - 44 := by bv_omega
  refine ⟨⟨0, hpushed⟩, ?_, ?_⟩
  · rw [callSwitch_esp, hbase]
    exact hstack
  · rw [callSwitch_esp, hbase]
    exact hslot

theorem callSwitch_mem {top x : Word} (c : Cpu) (hx : ¬ (x - (top - 12)).toNat < 12) :
    (callSwitch K i j top c).mem x = c.mem x := by
  have hroom : ((c.set .esp top).regs .esp - (top - 12)).toNat = 12 := by
    rw [Cpu.set_self]
    bv_omega
  exact Cpu.pushAll_mem [K.state j, K.state i, 0] (Nat.le_of_eq hroom.symm)
    (Nat.le_of_eq hroom) hx

/-- Two contexts with a page of stack each. -/
def pairContexts : Contexts Bool where
  state := fun i => if i then 0x31000 else 0x30000
  stack := fun i => if i then 0x20000 else 0x10000
  size := fun _ => 0x1000
  stacks_apart := by
    intro i j h
    cases i <;> cases j <;> first | exact absurd rfl h | exact ⟨by decide, by decide⟩
  slots_apart := by
    intro i j h
    cases i <;> cases j <;> first | exact absurd rfl h | exact ⟨by decide, by decide⟩
  slot_stack_apart := by
    intro i j h
    cases i <;> cases j <;> first | exact absurd rfl h | exact ⟨by decide, by decide⟩

/-- The first context calls, with nothing else in memory. -/
def firstCall : Cpu :=
  callSwitch pairContexts false true 0x10800 ⟨fun _ => 7, fun _ => 0x10, 0x202, 0, 0, fun _ => 0⟩

/-- What the first context owns is not where the second pushes its arguments. -/
theorem firstStack_apart {x : Word} (hx : pairContexts.Owns false x) :
    ¬ (x - (0x20800 - 12)).toNat < 12 := by
  rcases hx with hx | hx
  · have hin : (x - 0x10000).toNat < 0x1000 := hx
    bv_omega
  · have hin : (x - 0x30010).toNat < 4 := hx
    bv_omega

/-- The first context switches to the second, which switches back: the first one resumes. -/
theorem switched_resumed_pair : ∃ tr z y,
    Run SwitchStart (SwitchStep pairContexts) ((z, .switch false) :: tr) y ∧
      ResumedAs firstCall y.cpu := by
  have hfirst : AtSwitch pairContexts false true firstCall :=
    atSwitch_callSwitch _ (by decide) ⟨by decide, by decide⟩
  obtain ⟨c₁, hrun₁, -, -⟩ := run_contextSwitchAsm hfirst
  have hstep₁ := SwitchStep.switch (S := ∅) hfirst hrun₁
  -- The second context calls on its own stack.
  have hsecond : AtSwitch pairContexts true false
      (callSwitch pairContexts true false 0x20800 (execAll c₁ popContext).ret) :=
    atSwitch_callSwitch _ (by decide) ⟨by decide, by decide⟩
  obtain ⟨c₂, hrun₂, -, -⟩ := run_contextSwitchAsm hsecond
  have hwork : SwitchStep pairContexts
      ⟨(execAll c₁ popContext).ret, true, insert false ∅ \ {true}⟩ .work
      ⟨callSwitch pairContexts true false 0x20800 (execAll c₁ popContext).ret, true,
        insert false ∅ \ {true}⟩ := by
    refine .work fun j hj x hx => callSwitch_mem _ (firstStack_apart ?_)
    obtain rfl : j = false := by simpa using hj
    exact hx
  have hstep₂ := SwitchStep.switch (S := insert false ∅ \ {true}) hsecond hrun₂
  have hstart : SwitchStart (⟨firstCall, false, ∅⟩ : SwitchSystem Bool) := rfl
  have hrun := Run.snoc (.snoc (.snoc (.start hstart) hstep₁) hwork) hstep₂
  obtain ⟨c, hlast, hresumed⟩ := switched_resumed hrun (.inr (by simp))
  obtain rfl : firstCall = c := Option.some.inj hlast
  exact ⟨_, _, _, hrun, hresumed⟩

end KyroKernel
