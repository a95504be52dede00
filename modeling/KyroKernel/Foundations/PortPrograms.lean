import KyroKernel.Foundations.Memory

/-!
# Programs that read and write I/O ports

A driver as the sequence of its port operations, with a result. A program runs against a device one
operation at a time, so that the device can change between any two of them. A contract says which
operations a driver may do next and what it knows afterwards; a program that conforms to a contract
keeps every relation to the device that the operations of the contract keep.
-/

namespace KyroKernel.Foundations

universe u v w

/-- The address of an I/O port. -/
abbrev Port := BitVec 16

/-- A program with a result in `α`. -/
inductive PortProgram (α : Type u) where
  | done (a : α)
  | write (port : Port) (value : Byte) (next : PortProgram α)
  | read (port : Port) (next : Byte → PortProgram α)
  /-- `while (again(inb(port)));` -/
  | spin (port : Port) (again : Byte → Bool) (next : PortProgram α)

/-- What the processor sees of a device: a write, and a read with the byte that it returns. -/
structure PortDevice (σ : Type v) where
  write : σ → Port → Byte → σ
  read : σ → Port → Byte × σ

namespace PortProgram

variable {α : Type u} {β : Type u} {σ : Type v}

/-- One program after the other. -/
def andThen : PortProgram α → (α → PortProgram β) → PortProgram β
  | .done a, f => f a
  | .write port value next, f => .write port value (next.andThen f)
  | .read port next, f => .read port fun value => (next value).andThen f
  | .spin port again next, f => .spin port again (next.andThen f)

instance : Monad PortProgram where
  pure := .done
  bind := andThen

/-- The next operation of a program; a finished program has none. -/
def step (dev : PortDevice σ) : PortProgram α → σ → Option (PortProgram α × σ)
  | .done _, _ => none
  | .write port value next, s => some (next, dev.write s port value)
  | .read port next, s => some (next (dev.read s port).1, (dev.read s port).2)
  | .spin port again next, s =>
    some (if again (dev.read s port).1 then .spin port again next else next, (dev.read s port).2)

/-- The whole program on a device that does not change by itself; `none` where it waits for the
device. -/
def run (dev : PortDevice σ) : PortProgram α → σ → Option (α × σ)
  | .done a, s => some (a, s)
  | .write port value next, s => next.run dev (dev.write s port value)
  | .read port next, s => (next (dev.read s port).1).run dev (dev.read s port).2
  | .spin port again next, s =>
    if again (dev.read s port).1 then none else next.run dev (dev.read s port).2

end PortProgram

/-- The program waits for nothing but this. -/
def PortProgram.WaitsFor {α : Type u} (port : Port) (again : Byte → Bool) : PortProgram α → Prop
  | .done _ => True
  | .write _ _ next => next.WaitsFor port again
  | .read _ next => ∀ value, (next value).WaitsFor port again
  | .spin port' again' next => port' = port ∧ again' = again ∧ next.WaitsFor port again

theorem PortProgram.WaitsFor.andThen {α β : Type u} {port : Port} {again : Byte → Bool}
    {p : PortProgram α} {f : α → PortProgram β} (h : p.WaitsFor port again)
    (hf : ∀ a, (f a).WaitsFor port again) : (p.andThen f).WaitsFor port again := by
  induction p with
  | done a => exact hf a
  | write port value next ih => exact ih h
  | read port next ih => exact fun value => ih value (h value)
  | spin port again next ih => exact ⟨h.1, h.2.1, ih h.2.2⟩

theorem PortProgram.WaitsFor.step {α : Type u} {σ : Type v} {port : Port} {again : Byte → Bool}
    {dev : PortDevice σ} {p p' : PortProgram α} {s s' : σ} (h : p.WaitsFor port again)
    (hstep : p.step dev s = some (p', s')) : p'.WaitsFor port again := by
  cases p with
  | done a => cases hstep
  | write port value next =>
    cases hstep
    exact h
  | read port next =>
    cases hstep
    exact h _
  | spin port again next =>
    cases hstep
    split
    · exact h
    · exact h.2.2

/-- What all reads and writes keep, an operation of a program keeps. -/
theorem PortProgram.step_inv {α : Type u} {σ : Type v} {dev : PortDevice σ} {R : σ → Prop}
    {p p' : PortProgram α} {s s' : σ} (hwrite : ∀ s port value, R s → R (dev.write s port value))
    (hread : ∀ s port, R s → R (dev.read s port).2) (hs : R s)
    (hstep : p.step dev s = some (p', s')) : R s' := by
  cases p with
  | done a => cases hstep
  | write port value next =>
    cases hstep
    exact hwrite _ _ _ hs
  | read port next =>
    cases hstep
    exact hread _ _ hs
  | spin port again next =>
    cases hstep
    exact hread _ _ hs

/-! ## Contracts -/

/-- What a driver may do in each state of its knowledge of a device: `none` for an operation that it
must not do. -/
structure PortContract (τ : Type w) where
  write : τ → Port → Byte → Option τ
  read : τ → Port → Byte → Option τ

namespace PortProgram

variable {α β : Type u} {σ : Type v} {τ : Type w}

/-- Whatever the device returns, the program does only what the contract allows, and when it is done
`Q` holds of what it knows and of its result. A loop goes on only with what it knew before. -/
def Conforms (C : PortContract τ) (Q : τ → α → Prop) : τ → PortProgram α → Prop
  | t, .done a => Q t a
  | t, .write port value next => ∃ t', C.write t port value = some t' ∧ Conforms C Q t' next
  | t, .read port next =>
    ∀ value, ∃ t', C.read t port value = some t' ∧ Conforms C Q t' (next value)
  | t, .spin port again next =>
    ∀ value, ∃ t', C.read t port value = some t' ∧
      (again value = true → t' = t) ∧ (again value = false → Conforms C Q t' next)

variable {C : PortContract τ} {Q Q' : τ → α → Prop} {t : τ} {p p' : PortProgram α}

/-- A weaker end. -/
theorem Conforms.mono (h : Conforms C Q t p) (himp : ∀ t a, Q t a → Q' t a) :
    Conforms C Q' t p := by
  induction p generalizing t with
  | done a => exact himp t a h
  | write port value next ih =>
    obtain ⟨t', hwrite, hnext⟩ := h
    exact ⟨t', hwrite, ih hnext⟩
  | read port next ih =>
    intro value
    obtain ⟨t', hread, hnext⟩ := h value
    exact ⟨t', hread, ih value hnext⟩
  | spin port again next ih =>
    intro value
    obtain ⟨t', hread, hagain, hnext⟩ := h value
    exact ⟨t', hread, hagain, fun hdone => ih (hnext hdone)⟩

/-- One program after the other: the second starts with what the first one ends with. -/
theorem Conforms.andThen {f : α → PortProgram β} {R : τ → β → Prop} (h : Conforms C Q t p)
    (hf : ∀ t a, Q t a → Conforms C R t (f a)) : Conforms C R t (p.andThen f) := by
  induction p generalizing t with
  | done a => exact hf t a h
  | write port value next ih =>
    obtain ⟨t', hwrite, hnext⟩ := h
    exact ⟨t', hwrite, ih hnext⟩
  | read port next ih =>
    intro value
    obtain ⟨t', hread, hnext⟩ := h value
    exact ⟨t', hread, ih value hnext⟩
  | spin port again next ih =>
    intro value
    obtain ⟨t', hread, hagain, hnext⟩ := h value
    exact ⟨t', hread, hagain, fun hdone => ih (hnext hdone)⟩

/-- The relation `R` between what a driver knows and the device is kept by every operation that the
contract allows. -/
structure Keeps (C : PortContract τ) (dev : PortDevice σ) (R : τ → σ → Prop) : Prop where
  write : ∀ {t t' s port value}, R t s → C.write t port value = some t' →
    R t' (dev.write s port value)
  read : ∀ {t t' s port}, R t s → C.read t port (dev.read s port).1 = some t' →
    R t' (dev.read s port).2

/-- One operation of a program that conforms: the relation holds afterwards, and the rest of the
program conforms. -/
theorem Conforms.step {dev : PortDevice σ} {R : τ → σ → Prop} {s s' : σ} (h : Conforms C Q t p)
    (hkeeps : Keeps C dev R) (hR : R t s) (hstep : p.step dev s = some (p', s')) :
    ∃ t', R t' s' ∧ Conforms C Q t' p' := by
  cases p with
  | done a => cases hstep
  | write port value next =>
    obtain ⟨t', hwrite, hnext⟩ := h
    cases hstep
    exact ⟨t', hkeeps.write hR hwrite, hnext⟩
  | read port next =>
    obtain ⟨t', hread, hnext⟩ := h (dev.read s port).1
    cases hstep
    exact ⟨t', hkeeps.read hR hread, hnext⟩
  | spin port again next =>
    obtain ⟨t', hread, hagain, hnext⟩ := h (dev.read s port).1
    cases hstep
    refine ⟨t', hkeeps.read hR hread, ?_⟩
    cases hvalue : again (dev.read s port).1 with
    | true =>
      rw [if_pos rfl, hagain hvalue]
      exact h
    | false =>
      rw [if_neg Bool.false_ne_true]
      exact hnext hvalue

end PortProgram

end KyroKernel.Foundations
