import KyroKernel.Foundations.RingBuffer
import KyroKernel.Foundations.Run
import KyroKernel.Drivers.Keyboard
import Mathlib.Logic.Function.Iterate

/-!
# The keyboard ring under interrupts

`keyboard_buffer_get` runs with interrupts enabled, so `keyboard_handler` can run between any
two of its statements. The system below takes one statement of a get, or one whole
interrupt, as a step. Its history records the scancodes put into the ring and those returned.
-/

namespace KyroKernel

open Foundations

/-! ## §1 The interleaved system -/

/-- The statement of `keyboard_buffer_get` that is next, with the local `scancode`. -/
inductive GetPc where
  | idle
  | test
  | load
  | advance (scancode : Byte)
  | decrement (scancode : Byte)
  | done (scancode : Byte)
  | empty
  deriving DecidableEq

/-- The scancode a get has removed from the ring but not returned yet. -/
def GetPc.taken : GetPc → List Byte
  | .decrement scancode | .done scancode => [scancode]
  | _ => []

/-- After moving `buffer_tail` and before decrementing it, `buffer_count` is one too high. -/
def GetPc.excess : GetPc → Nat
  | .decrement _ => 1
  | _ => 0

/-- The keyboard state, the get in progress, and the scancodes accepted by puts and returned by
gets so far. -/
structure RingSystem where
  state : KeyboardState
  pc : GetPc
  accepted : List Byte
  returned : List Byte

/-- A call of `keyboard_buffer_get`, its next statement, or an interrupt. -/
inductive RingStep where
  | call
  | statement
  | interrupt (data : Byte)

/-- The scancodes (at most one) that an interrupt adds to the ring. -/
def acceptedScancodes (s : KeyboardState) (data : Byte) : List Byte :=
  match pressedKey data with
  | some scancode => if s.bufferCount < keyboardBufferSize then [scancode] else []
  | none => []

/-- One statement of `keyboard_buffer_get`. -/
def RingSystem.statement (s : RingSystem) : RingSystem :=
  match s.pc with
  | .idle => s
  | .test => { s with pc := if s.state.bufferCount > 0 then .load else .empty }
  | .load => { s with pc := .advance (s.state.buffer s.state.bufferTail) }
  | .advance scancode =>
    { s with
      state.bufferTail := (s.state.bufferTail + 1).tmod keyboardBufferSize
      pc := .decrement scancode }
  | .decrement scancode =>
    { s with state.bufferCount := s.state.bufferCount - 1, pc := .done scancode }
  | .done scancode => { s with returned := s.returned ++ [scancode], pc := .idle }
  -- `return 0`: no scancode is returned.
  | .empty => { s with pc := .idle }

/-- The statements of a get that nothing interrupts are `keyboard_buffer_get`. -/
theorem statements_eq_keyboardBufferGet (s : KeyboardState) (accepted returned : List Byte) :
    RingSystem.statement^[5] ⟨s, .test, accepted, returned⟩ =
      ⟨(keyboardBufferGet s).2, .idle, accepted,
        if s.bufferCount > 0 then returned ++ [(keyboardBufferGet s).1] else returned⟩ := by
  by_cases hpos : s.bufferCount > 0
  · simp [Function.iterate_succ_apply, RingSystem.statement, keyboardBufferGet, hpos]
  · -- An empty ring: two statements, and three more that do nothing.
    simp [Function.iterate_succ_apply, RingSystem.statement, keyboardBufferGet, hpos]

/-- One step; a call needs the previous get to be over, a statement a get in progress. -/
def RingSystem.step (s : RingSystem) : RingStep → Option RingSystem
  | .call => if s.pc = .idle then some { s with pc := .test } else none
  | .statement => if s.pc = .idle then none else some s.statement
  | .interrupt data =>
    some
      { s with
        state := keyboardHandler s.state data
        accepted := s.accepted ++ acceptedScancodes s.state data }

/-- Right after `keyboard_init`. -/
def RingSystem.Initial (s : RingSystem) : Prop :=
  ∃ state, s = ⟨keyboardInit state, .idle, [], []⟩

/-- The runs of the interleaved system. -/
abbrev RingRun (tr : List (RingSystem × RingStep)) (s : RingSystem) : Prop :=
  Run RingSystem.Initial (fun s i s' => s.step i = some s') tr s

/-- The scancodes in the ring, oldest first, as its cells and variables give them. -/
def RingSystem.pending (s : RingSystem) : List Byte :=
  (List.range (s.state.bufferCount.toNat - s.pc.excess)).map fun i =>
    s.state.buffer ((s.state.bufferTail + (i : Nat)) % keyboardBufferSize)

/-- The ring is a FIFO in the state `s` of a run. -/
structure RingFifo (s : RingSystem) : Prop where
  head_range : 0 ≤ s.state.bufferHead ∧ s.state.bufferHead < 256
  tail_range : 0 ≤ s.state.bufferTail ∧ s.state.bufferTail < 256
  pending_le : s.pending.length ≤ 256
  /-- A put that would be dropped finds `buffer_count` at 256. -/
  dropped : ∀ scancode, keyboardBufferPut s.state scancode = s.state → s.state.bufferCount = 256
  returned_prefix : s.returned <+: s.accepted
  /-- Nothing is lost, duplicated or reordered. -/
  order : s.accepted = s.returned ++ s.pc.taken ++ s.pending
  /-- A get that is about to return 0 for an empty ring finds nothing in it. -/
  empty : s.pc = .test → ¬ s.state.bufferCount > 0 → s.pending = []

/-! ## §2 The ring and the queue in it -/

/-- The ring holds the queue `q`, and `buffer_count` exceeds its length by `excess`. -/
structure HoldsQueue (s : KeyboardState) (excess : Nat) (q : List Byte) : Prop where
  cells : RingHolds keyboardBufferSize s.buffer s.bufferTail q
  tail_nonneg : 0 ≤ s.bufferTail
  tail_lt : s.bufferTail < keyboardBufferSize
  head : s.bufferHead = (s.bufferTail + q.length) % keyboardBufferSize
  count : s.bufferCount = q.length + excess
  count_le : s.bufferCount ≤ keyboardBufferSize

variable {s : KeyboardState} {q : List Byte} {excess : Nat} {data scancode : Byte}

/-- The statement is about the ring only. -/
theorem HoldsQueue.of_ring {s' : KeyboardState} (h : HoldsQueue s excess q)
    (hring : s'.ring = s.ring) : HoldsQueue s' excess q := by
  obtain ⟨hb, hh, ht, hc⟩ : s'.buffer = s.buffer ∧ s'.bufferHead = s.bufferHead ∧
      s'.bufferTail = s.bufferTail ∧ s'.bufferCount = s.bufferCount := by
    simpa only [KeyboardState.ring, Prod.mk.injEq] using hring
  exact ⟨by rw [hb, ht]; exact h.cells, by rw [ht]; exact h.tail_nonneg,
    by rw [ht]; exact h.tail_lt, by rw [hh, ht]; exact h.head, by rw [hc]; exact h.count,
    by rw [hc]; exact h.count_le⟩

/-- C's `%` on a non-negative number. -/
theorem tmod_bufferSize {i : Int} (h : 0 ≤ i) :
    (i + 1).tmod keyboardBufferSize = (i + 1) % keyboardBufferSize :=
  Int.tmod_eq_emod_of_nonneg (by omega)

theorem HoldsQueue.head_range (h : HoldsQueue s excess q) :
    0 ≤ s.bufferHead ∧ s.bufferHead < 256 := by
  rw [h.head]
  exact ⟨Int.emod_nonneg _ (by decide), Int.emod_lt_of_pos _ (by decide)⟩

/-- `keyboard_init` empties the ring. -/
theorem holdsQueue_keyboardInit (s : KeyboardState) : HoldsQueue (keyboardInit s) 0 [] where
  cells := RingHolds.nil _ _ _
  tail_nonneg := Int.le_refl _
  tail_lt := by simp [keyboardInit, keyboardBufferSize]
  head := by simp [keyboardInit]
  count := by simp [keyboardInit]
  count_le := by simp [keyboardInit, keyboardBufferSize]

/-- A put into a ring that is not full appends. -/
theorem HoldsQueue.put (h : HoldsQueue s excess q) (hlt : s.bufferCount < keyboardBufferSize)
    (scancode : Byte) : HoldsQueue (keyboardBufferPut s scancode) excess (q ++ [scancode]) := by
  have hlen : (q.length : Int) < keyboardBufferSize := by
    have := h.count
    omega
  have hhead := tmod_bufferSize h.head_range.1
  unfold keyboardBufferPut
  rw [if_pos hlt]
  -- The new cell, the head and the count; the tail stays.
  refine ⟨?_, h.tail_nonneg, h.tail_lt, ?_, ?_, by simp only; omega⟩
  · simp only [h.head]
    exact h.cells.push hlen scancode
  · simp only [hhead, List.length_append, List.length_singleton]
    rw [h.head]
    exact ringNext_push _ _ _
  · simp only [h.count, List.length_append, List.length_singleton]
    push_cast
    omega

/-- A put into a full ring is dropped. -/
theorem keyboardBufferPut_full (h : ¬ s.bufferCount < keyboardBufferSize) (scancode : Byte) :
    keyboardBufferPut s scancode = s := if_neg h

/-- Only a full ring drops a put. -/
theorem HoldsQueue.full_of_dropped (h : HoldsQueue s excess q)
    (hdrop : keyboardBufferPut s scancode = s) : s.bufferCount = 256 := by
  by_contra hne
  have hle := h.count_le
  have hlt : s.bufferCount < keyboardBufferSize := by
    simp only [keyboardBufferSize] at hle ⊢
    omega
  -- An accepted put changes the count.
  have hcount := congrArg KeyboardState.bufferCount hdrop
  simp only [keyboardBufferPut, if_pos hlt] at hcount
  omega

/-- An interrupt appends what it accepts. -/
theorem HoldsQueue.handler (h : HoldsQueue s excess q) (data : Byte) :
    HoldsQueue (keyboardHandler s data) excess (q ++ acceptedScancodes s data) := by
  unfold acceptedScancodes
  cases hkey : pressedKey data with
  | none =>
    -- A modifier, a lock or a release does not touch the ring.
    simp only [List.append_nil]
    exact h.of_ring (ring_keyboardHandler hkey)
  | some scancode =>
    rw [keyboardHandler_of_pressed hkey]
    by_cases hlt : s.bufferCount < keyboardBufferSize
    · simp only [if_pos hlt]
      exact (h.put hlt scancode).of_ring rfl
    · -- Dropped, and not accepted either.
      simp only [if_neg hlt, List.append_nil, keyboardBufferPut_full hlt]
      exact h.of_ring rfl

/-! ## §3 The invariant -/

/-- What a get in progress knows about the queue. -/
def GetPc.Agrees (q : List Byte) : GetPc → Prop
  | .load => q ≠ []
  | .advance scancode => q.head? = some scancode
  | _ => True

/-- The invariant: the ring holds what was accepted and neither returned nor taken. -/
structure RingInv (s : RingSystem) (q : List Byte) : Prop where
  holds : HoldsQueue s.state s.pc.excess q
  order : s.accepted = s.returned ++ s.pc.taken ++ q
  agrees : s.pc.Agrees q

variable {z z' : RingSystem}

/-- Interrupts keep what a get in progress knows: they only append. -/
theorem GetPc.Agrees.append {pc : GetPc} (h : pc.Agrees q) (r : List Byte) :
    pc.Agrees (q ++ r) := by
  cases pc with
  | load => exact List.append_ne_nil_of_left_ne_nil h r
  | advance scancode =>
    cases q with
    | nil => cases h
    | cons x q => exact h
  | idle | test | decrement _ | done _ | empty => exact trivial

/-- The removal of the front: the tail moves on, the count follows one statement later. -/
theorem HoldsQueue.advance (h : HoldsQueue s 0 (scancode :: q)) :
    HoldsQueue { s with bufferTail := (s.bufferTail + 1).tmod keyboardBufferSize } 1 q := by
  have htail := tmod_bufferSize h.tail_nonneg
  -- The count is one too high until the next statement.
  refine ⟨?_, ?_, ?_, ?_, ?_, h.count_le⟩
  · simp only [htail]
    exact h.cells.pop
  · simp only [htail]
    exact Int.emod_nonneg _ (by decide)
  · simp only [htail]
    exact Int.emod_lt_of_pos _ (by decide)
  · simp only [htail, h.head, List.length_cons]
    exact ringNext_pop _ _ _
  · simp only [h.count, List.length_cons]
    push_cast
    omega

theorem HoldsQueue.decrement (h : HoldsQueue s 1 q) :
    HoldsQueue { s with bufferCount := s.bufferCount - 1 } 0 q := by
  refine ⟨h.cells, h.tail_nonneg, h.tail_lt, h.head, ?_, ?_⟩
  · simp only [h.count]
    push_cast
    omega
  · have := h.count_le
    simp only
    omega

/-- The count is positive exactly when the queue is not empty. -/
theorem HoldsQueue.count_pos_iff (h : HoldsQueue s 0 q) : s.bufferCount > 0 ↔ q ≠ [] := by
  have hcount := h.count
  rw [← List.length_pos_iff]
  omega

/-- One statement of a get keeps the invariant. -/
theorem RingInv.statement (h : RingInv z q) : ∃ q', RingInv z.statement q' := by
  obtain ⟨state, pc, accepted, returned⟩ := z
  obtain ⟨holds, order, agrees⟩ := h
  cases pc with
  | idle => exact ⟨q, holds, order, agrees⟩
  | test =>
    -- The test changes nothing; it tells whether there is a front.
    refine ⟨q, ?_⟩
    by_cases hpos : state.bufferCount > 0
    · have hpc : RingSystem.statement ⟨state, .test, accepted, returned⟩ =
          ⟨state, .load, accepted, returned⟩ := by simp [RingSystem.statement, hpos]
      rw [hpc]
      exact ⟨holds, order, holds.count_pos_iff.mp hpos⟩
    · have hpc : RingSystem.statement ⟨state, .test, accepted, returned⟩ =
          ⟨state, .empty, accepted, returned⟩ := by simp [RingSystem.statement, hpos]
      rw [hpc]
      exact ⟨holds, order, trivial⟩
  | load =>
    -- The cell at the tail holds the front of the queue.
    obtain ⟨x, q, rfl⟩ := List.exists_cons_of_ne_nil agrees
    have hfront := holds.cells.front holds.tail_nonneg holds.tail_lt
    exact ⟨x :: q, holds, order, congrArg some hfront.symm⟩
  | advance scancode =>
    cases q with
    | nil => cases agrees
    | cons x q =>
      obtain rfl := Option.some.inj agrees
      refine ⟨q, holds.advance, ?_, trivial⟩
      -- The front moves from the ring to the get.
      simpa [RingSystem.statement, GetPc.taken] using order
  | decrement scancode => exact ⟨q, holds.decrement, order, trivial⟩
  | done scancode =>
    -- And from the get to its caller.
    refine ⟨q, holds, ?_, trivial⟩
    simpa [RingSystem.statement, GetPc.taken] using order
  | empty => exact ⟨q, holds, order, trivial⟩

/-- Every step keeps the invariant. -/
theorem RingInv.step {i : RingStep} (h : RingInv z q) (hstep : z.step i = some z') :
    ∃ q', RingInv z' q' := by
  cases i with
  | call =>
    simp only [RingSystem.step] at hstep
    split at hstep
    · rename_i hidle
      obtain rfl := Option.some.inj hstep
      obtain ⟨holds, order, -⟩ := h
      rw [hidle] at holds order
      exact ⟨q, holds, order, trivial⟩
    · cases hstep
  | statement =>
    simp only [RingSystem.step] at hstep
    split at hstep
    · cases hstep
    · obtain rfl := Option.some.inj hstep
      exact h.statement
  | interrupt data =>
    -- Between any two statements.
    obtain rfl := Option.some.inj hstep
    refine ⟨q ++ acceptedScancodes z.state data, h.holds.handler data, ?_, h.agrees.append _⟩
    simp only [h.order, List.append_assoc]

/-- The queue of the invariant is what the cells and variables of the ring give. -/
theorem RingInv.pending_eq (h : RingInv z q) : z.pending = q := by
  have hlen : z.state.bufferCount.toNat - z.pc.excess = q.length := by
    have := h.holds.count
    omega
  rw [RingSystem.pending, hlen]
  exact h.holds.cells.eq_map.symm

/-- The invariant makes the ring a FIFO. -/
theorem RingInv.ringFifo (h : RingInv z q) : RingFifo z := by
  have hpending := h.pending_eq
  refine ⟨h.holds.head_range, ⟨h.holds.tail_nonneg, h.holds.tail_lt⟩, ?_,
    fun _ hdrop => h.holds.full_of_dropped hdrop, ?_, ?_, ?_⟩
  · rw [hpending]
    have hcount := h.holds.count
    have hle := h.holds.count_le
    simp only [keyboardBufferSize] at hle
    omega
  · rw [h.order, List.append_assoc]
    exact List.prefix_append _ _
  · rw [hpending]
    exact h.order
  · intro hpc hpos
    rw [hpending]
    have hholds := h.holds
    rw [hpc] at hholds
    -- At the test the count is exact.
    by_contra hne
    exact hpos (hholds.count_pos_iff.mpr hne)

/-- Every run keeps the invariant, with the codes that are in the ring. -/
theorem exists_ringInv {tr : List (RingSystem × RingStep)} (h : RingRun tr z) :
    ∃ q, RingInv z q := by
  apply Run.inv (fun z => ∃ q, RingInv z q) ?_ ?_ h
  · rintro _ ⟨state, rfl⟩
    exact ⟨[], holdsQueue_keyboardInit state, rfl, trivial⟩
  · rintro z i z' ⟨q, hq⟩ hstep
    exact hq.step hstep

/-- In every state of every run of gets and interrupts the ring is a FIFO. -/
theorem keyboardRing_fifo {tr : List (RingSystem × RingStep)} (h : RingRun tr z) :
    RingFifo z := by
  obtain ⟨q, hq⟩ := exists_ringInv h
  exact hq.ringFifo

/-- A keyboard state at power-on. -/
def powerOnKeyboard : KeyboardState :=
  { flags := 0, ledState := 0, extendedScancode := false, buffer := fun _ => 0
    bufferHead := 0, bufferTail := 0, bufferCount := 0 }

/-- A key is pressed between the call of a get and its first statement. -/
theorem keyboardRing_fifo_pressed :
    RingFifo ⟨keyboardHandler (keyboardInit powerOnKeyboard) 0x1E, .load, [0x1E], []⟩ :=
  keyboardRing_fifo (.snoc (i := .statement)
    (.snoc (i := .interrupt 0x1E) (.snoc (i := .call) (.start ⟨powerOnKeyboard, rfl⟩) rfl) rfl) rfl)

end KyroKernel
