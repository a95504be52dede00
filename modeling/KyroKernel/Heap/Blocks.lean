import KyroKernel.Foundations.Run
import KyroKernel.Heap

/-!
# Blocks of the heap

What the callers of `memory.c` get over a whole run of calls. The bounds check of `kmalloc`
compares sums of 32-bit words, so a large request can wrap around past it: the size itself
when it is rounded up, or the sum with `heap_current`. A run in which no request wraps
hands out aligned blocks of the heap that never overlap, and only such a run does.
-/

namespace KyroKernel

open Foundations

/-! ## Calls and the blocks they hand out -/

/-- The calls of `memory.c`. `physAddr` is what `*phys_addr` held before, `none` for a NULL
`phys_addr`. -/
inductive HeapCall where
  | kmalloc (size : Word)
  | kmallocA (size : Word)
  | kmallocP (size : Word) (physAddr : Option Word)
  | kmallocAp (size : Word) (physAddr : Option Word)
  | malloc (size : Word)
  | kfree (ptr : Word)
  | free (ptr : Word)

/-- What a call returns (0 for the calls that return nothing) and `heap_current` after it. -/
def HeapCall.exec (heapCurrent : Word) : HeapCall → Word × Word
  | .kmalloc size => KyroKernel.kmalloc heapCurrent size
  | .kmallocA size => KyroKernel.kmallocA heapCurrent size
  | .kmallocP size physAddr =>
    let (addr, _, heapCurrent) := KyroKernel.kmallocP heapCurrent size physAddr
    (addr, heapCurrent)
  -- With a NULL `phys_addr` nothing is left of `kmalloc_ap` but its call of `kmalloc_a`.
  | .kmallocAp size none => KyroKernel.kmallocA heapCurrent size
  | .kmallocAp size (some _) =>
    let (addr, _, heapCurrent) := KyroKernel.kmallocAp heapCurrent size
    (addr, heapCurrent)
  | .malloc size => KyroKernel.malloc heapCurrent size
  | .kfree ptr => (0, KyroKernel.kfree heapCurrent ptr)
  | .free ptr => (0, KyroKernel.free heapCurrent ptr)

/-- The size a call asks for and the alignment it promises. -/
def HeapCall.request : HeapCall → Option (Word × Nat)
  | .kmalloc size | .kmallocP size _ | .malloc size => some (size, 4)
  | .kmallocA size | .kmallocAp size _ => some (size, 4096)
  | .kfree _ | .free _ => none

/-- A block of `size` bytes from `addr` on, as its caller sees it. -/
structure HandedBlock where
  addr : Nat
  size : Nat
  align : Nat

/-- The addresses of a block. -/
def HandedBlock.Contains (b : HandedBlock) (x : Nat) : Prop := b.addr ≤ x ∧ x < b.addr + b.size

/-- The block a successful call hands out. -/
def HeapCall.block (heapCurrent : Word) (c : HeapCall) : Option HandedBlock :=
  match c.request with
  | none => none
  | some (size, align) =>
    let addr := (c.exec heapCurrent).1
    if addr = 0 then none else some ⟨addr.toNat, size.toNat, align⟩

/-- The blocks handed out by the calls of a run, latest first. -/
def heapBlocks (tr : List (Word × HeapCall)) : List HandedBlock :=
  tr.filterMap fun p => p.2.block p.1

/-- A run of calls from the initial heap. -/
abbrev HeapRun (tr : List (Word × HeapCall)) (heapCurrent : Word) : Prop :=
  Run (· = heapStart) (fun hc c hc' => hc' = (c.exec hc).2) tr heapCurrent

/-- What the callers rely on: every block lies in the heap at its alignment, and no address
is in two blocks. -/
structure BlocksDisjoint (tr : List (Word × HeapCall)) : Prop where
  inHeap : ∀ b ∈ heapBlocks tr, heapStart.toNat ≤ b.addr ∧ b.addr + b.size ≤ heapEnd.toNat
  aligned : ∀ b ∈ heapBlocks tr, b.align ∣ b.addr
  disjoint : (heapBlocks tr).Pairwise fun b b' => ∀ x, ¬ (b.Contains x ∧ b'.Contains x)

/-! ## When a request wraps around -/

/-- `heap_current` as `kmalloc` finds it: `kmalloc_a` moves it to a page boundary first. -/
def alignedStart (heapCurrent : Word) (align : Nat) : Word :=
  if align = 4096 then (heapCurrent + 0xFFF) &&& ~~~0xFFF else heapCurrent

/-- `kmalloc`'s sum `heap_current + size` is below 2^32 with `size` rounded up to a multiple
of four, or rounding wraps around to 0 when no byte of the heap is left, which is refused. -/
def FitsInWord (heapCurrent size : Word) : Prop :=
  heapCurrent.toNat + (size.toNat + 3) / 4 * 4 < 2 ^ 32 ∨
    (heapEnd ≤ heapCurrent ∧ 2 ^ 32 ≤ size.toNat + 3)

/-- The request of a call, if it makes one, fits. -/
def HeapCall.Fits (heapCurrent : Word) (c : HeapCall) : Prop :=
  ∀ size align, c.request = some (size, align) →
    FitsInWord (alignedStart heapCurrent align) size

variable {hc size : Word}

/-- Every allocating call is `kmalloc` from the aligned start. -/
theorem HeapCall.exec_of_request (hc : Word) {c : HeapCall} {align : Nat}
    (h : c.request = some (size, align)) :
    c.exec hc = KyroKernel.kmalloc (alignedStart hc align) size := by
  cases c with
  | kmalloc _ | kmallocA _ | kmallocP _ _ | malloc _ =>
    obtain ⟨rfl, rfl⟩ := Prod.mk.inj (Option.some.inj h)
    rfl
  | kmallocAp _ physAddr =>
    obtain ⟨rfl, rfl⟩ := Prod.mk.inj (Option.some.inj h)
    cases physAddr <;> rfl
  | kfree _ | free _ => cases h

/-- The others hand out nothing and leave the heap alone. -/
theorem HeapCall.exec_of_no_request {c : HeapCall} (h : c.request = none) :
    c.exec hc = (0, hc) := by
  cases c with
  | kfree _ | free _ => rfl
  | kmalloc _ | kmallocA _ | kmallocP _ _ | malloc _ | kmallocAp _ _ => cases h

/-- The two alignments there are. -/
theorem HeapCall.align_cases {c : HeapCall} {align : Nat} (h : c.request = some (size, align)) :
    align = 4 ∨ align = 4096 := by
  cases c with
  | kfree _ | free _ => cases h
  | kmalloc _ | kmallocP _ _ | malloc _ =>
    exact .inl (Prod.mk.inj (Option.some.inj h)).2.symm
  | kmallocA _ | kmallocAp _ _ =>
    exact .inr (Prod.mk.inj (Option.some.inj h)).2.symm

/-- The size `kmalloc` works with. -/
theorem toNat_roundUp (size : Word) :
    ((size + 3) &&& ~~~3).toNat = (size.toNat + 3) % 2 ^ 32 / 4 * 4 := by
  have h := toNat_and_highMask (size + 3) (~~~3) (k := 2) (by decide)
  rw [BitVec.toNat_add] at h
  exact h

/-- A request that fits is refused without a trace, or served by moving `heap_current` up by
the rounded size, short of the end of the heap. -/
theorem kmalloc_of_fits (hhc : hc.toNat ≤ 0x800000) (hfit : FitsInWord hc size) :
    kmalloc hc size = (0, hc) ∨
    ∃ hc' : Word, kmalloc hc size = (hc, hc') ∧
      hc'.toNat = hc.toNat + (size.toNat + 3) / 4 * 4 ∧ hc'.toNat < 0x800000 := by
  have hround := toNat_roundUp size
  by_cases hend : heapEnd ≤ hc + ((size + 3) &&& ~~~3)
  · left
    unfold kmalloc
    simp only [if_pos hend]
  · right
    have hlt : (hc + ((size + 3) &&& ~~~3)).toNat < 0x800000 := BitVec.not_le.mp hend
    refine ⟨hc + ((size + 3) &&& ~~~3), by unfold kmalloc; simp only [if_neg hend], ?_, hlt⟩
    rw [BitVec.toNat_add, hround] at hlt ⊢
    rcases hfit with hfit | ⟨hfull, hwrap⟩
    · omega
    · -- With no byte left even the size 0 is refused.
      have : (0x800000 : Nat) ≤ hc.toNat := hfull
      omega

/-- A request that does not fit is served all the same, with a block that ends past the heap. -/
theorem kmalloc_of_not_fits (hhc : hc.toNat ≤ 0x800000) (hfit : ¬ FitsInWord hc size) :
    (kmalloc hc size).1 = hc ∧ 0x800000 < hc.toNat + size.toNat := by
  have hround := toNat_roundUp size
  have hsize := size.isLt
  obtain ⟨hsum, hfull⟩ := not_or.mp hfit
  -- Whichever of the two sums wraps around, the result is below `heap_end`.
  have hlt : (hc + ((size + 3) &&& ~~~3)).toNat < 0x800000 := by
    rw [BitVec.toNat_add, hround]
    by_cases hwrap : 2 ^ 32 ≤ size.toNat + 3
    · have : ¬ (0x800000 : Nat) ≤ hc.toNat := fun h => hfull ⟨h, hwrap⟩
      omega
    · omega
  have hend : ¬ heapEnd ≤ hc + ((size + 3) &&& ~~~3) := BitVec.not_le.mpr hlt
  refine ⟨by unfold kmalloc; simp only [if_neg hend], ?_⟩
  by_cases hwrap : 2 ^ 32 ≤ size.toNat + 3 <;> omega

/-- Where a call's block starts, if it gets one. -/
theorem toNat_alignedStart (hhc : hc.toNat ≤ 0x800000) (h4 : 4 ∣ hc.toNat) {align : Nat}
    (halign : align = 4 ∨ align = 4096) :
    hc.toNat ≤ (alignedStart hc align).toNat ∧ (alignedStart hc align).toNat ≤ 0x800000 ∧
      align ∣ (alignedStart hc align).toNat := by
  rcases halign with rfl | rfl
  · exact ⟨Nat.le_refl _, hhc, h4⟩
  · have h := toNat_pageAlign hhc
    rw [alignedStart, if_pos rfl, h]
    exact ⟨by omega, by omega, Nat.dvd_mul_left _ _⟩

/-- A served request hands out a block: `heap_current` is never 0. -/
theorem HeapCall.block_of_served {c : HeapCall} {align : Nat}
    (hreq : c.request = some (size, align)) (hstart : 0x300000 ≤ (alignedStart hc align).toNat)
    (hk : (KyroKernel.kmalloc (alignedStart hc align) size).1 = alignedStart hc align) :
    c.block hc = some ⟨(alignedStart hc align).toNat, size.toNat, align⟩ := by
  have hne : alignedStart hc align ≠ 0 := by
    intro h0
    rw [h0] at hstart
    exact absurd hstart (by decide)
  unfold HeapCall.block
  rw [hreq]
  dsimp only
  rw [HeapCall.exec_of_request hc hreq, hk, if_neg hne]

/-! ## Runs -/

/-- The invariant of runs in which every request fits: all blocks end at or before
`heap_current`. -/
structure HeapInv (tr : List (Word × HeapCall)) (heapCurrent : Word) : Prop where
  start_le : 0x300000 ≤ heapCurrent.toNat
  le_end : heapCurrent.toNat ≤ 0x800000
  aligned : 4 ∣ heapCurrent.toNat
  below : ∀ b ∈ heapBlocks tr,
    0x300000 ≤ b.addr ∧ b.addr + b.size ≤ heapCurrent.toNat ∧ b.align ∣ b.addr
  disjoint : (heapBlocks tr).Pairwise fun b b' => ∀ x, ¬ (b.Contains x ∧ b'.Contains x)

variable {tr : List (Word × HeapCall)} {c : HeapCall}

theorem heapBlocks_cons_none (h : c.block hc = none) :
    heapBlocks ((hc, c) :: tr) = heapBlocks tr := by
  simp [heapBlocks, h]

theorem heapBlocks_cons_some {b : HandedBlock} (h : c.block hc = some b) :
    heapBlocks ((hc, c) :: tr) = b :: heapBlocks tr := by
  simp [heapBlocks, h]

/-- The heap before the first call. -/
theorem HeapInv.start : HeapInv [] heapStart where
  start_le := by decide
  le_end := by decide
  aligned := by decide
  below := by simp [heapBlocks]
  disjoint := by simp [heapBlocks]

/-- A call that hands out nothing may still have moved `heap_current` up. -/
theorem HeapInv.no_block (h : HeapInv tr hc) (hnone : c.block hc = none) {hc' : Word}
    (hge : hc.toNat ≤ hc'.toNat) (hle : hc'.toNat ≤ 0x800000) (h4 : 4 ∣ hc'.toNat) :
    HeapInv ((hc, c) :: tr) hc' := by
  refine ⟨Nat.le_trans h.start_le hge, hle, h4, ?_, ?_⟩
  · rw [heapBlocks_cons_none hnone]
    intro b hb
    obtain ⟨hlo, hhi, hal⟩ := h.below b hb
    exact ⟨hlo, Nat.le_trans hhi hge, hal⟩
  · rw [heapBlocks_cons_none hnone]
    exact h.disjoint

/-- A block handed out at or above `heap_current` is disjoint from all earlier ones. -/
theorem HeapInv.new_block (h : HeapInv tr hc) {b : HandedBlock} (hsome : c.block hc = some b)
    {hc' : Word} (hge : hc.toNat ≤ b.addr) (hend : b.addr + b.size ≤ hc'.toNat)
    (hle : hc'.toNat ≤ 0x800000) (h4 : 4 ∣ hc'.toNat) (hal : b.align ∣ b.addr) :
    HeapInv ((hc, c) :: tr) hc' := by
  have hstart := h.start_le
  refine ⟨by omega, hle, h4, ?_, ?_⟩
  · rw [heapBlocks_cons_some hsome]
    intro b' hb'
    rcases List.mem_cons.mp hb' with rfl | hold
    · exact ⟨by omega, hend, hal⟩
    · obtain ⟨hlo, hhi, hal'⟩ := h.below b' hold
      exact ⟨hlo, by omega, hal'⟩
  · rw [heapBlocks_cons_some hsome]
    apply List.pairwise_cons.mpr
    refine ⟨?_, h.disjoint⟩
    rintro b' hold x ⟨⟨hx, -⟩, -, hx'⟩
    have := (h.below b' hold).2.1
    omega

/-- One call that fits keeps the invariant. -/
theorem HeapInv.step (h : HeapInv tr hc) (hfit : c.Fits hc) :
    HeapInv ((hc, c) :: tr) (c.exec hc).2 := by
  cases hreq : c.request with
  | none =>
    rw [HeapCall.exec_of_no_request hreq]
    have hnone : c.block hc = none := by simp [HeapCall.block, hreq]
    exact h.no_block hnone (Nat.le_refl _) h.le_end h.aligned
  | some p =>
    obtain ⟨size, align⟩ := p
    have halign := HeapCall.align_cases hreq
    have hexec := HeapCall.exec_of_request hc hreq
    obtain ⟨hge, hle, hdvd⟩ := toNat_alignedStart h.le_end h.aligned halign
    have h4 : 4 ∣ (alignedStart hc align).toNat := by
      rcases halign with rfl | rfl
      · exact hdvd
      · exact Nat.dvd_trans (by decide) hdvd
    have hstart := h.start_le
    rcases kmalloc_of_fits hle (hfit size align hreq) with hk | ⟨hc', hk, hsum, hlt⟩
    · -- Out of memory: only `kmalloc_a` has moved `heap_current`.
      have hnone : c.block hc = none := by simp [HeapCall.block, hreq, hexec, hk]
      rw [hexec, hk]
      exact h.no_block hnone hge hle h4
    · -- The block starts where `heap_current` was and ends where it is now.
      have hsome := HeapCall.block_of_served hreq (Nat.le_trans hstart hge) (by rw [hk])
      rw [hexec, hk]
      apply h.new_block hsome hge
      · simp only
        omega
      · exact Nat.le_of_lt hlt
      · simp only
        omega
      · exact hdvd

/-- A call that does not fit gets a block that is not in the heap. -/
theorem HeapInv.not_fits (h : HeapInv tr hc) (hfit : ¬ c.Fits hc) :
    ∃ b, c.block hc = some b ∧ heapEnd.toNat < b.addr + b.size := by
  simp only [HeapCall.Fits, not_forall] at hfit
  obtain ⟨size, align, hreq, hfit⟩ := hfit
  obtain ⟨hge, hle, -⟩ := toNat_alignedStart h.le_end h.aligned (HeapCall.align_cases hreq)
  obtain ⟨hk, hpast⟩ := kmalloc_of_not_fits hle hfit
  have hsome := HeapCall.block_of_served hreq (Nat.le_trans h.start_le hge) hk
  exact ⟨_, hsome, hpast⟩

/-- The invariant gives the callers what they rely on. -/
theorem HeapInv.blocksDisjoint (h : HeapInv tr hc) : BlocksDisjoint tr where
  inHeap := fun b hb =>
    ⟨(h.below b hb).1, Nat.le_trans (h.below b hb).2.1 h.le_end⟩
  aligned := fun b hb => (h.below b hb).2.2
  disjoint := h.disjoint

/-- A run in which every request fits keeps the invariant. -/
theorem HeapInv.of_run (h : HeapRun tr hc) (hfit : ∀ p ∈ tr, p.2.Fits p.1) : HeapInv tr hc := by
  induction h with
  | start hinit =>
    obtain rfl := hinit
    exact .start
  | snoc _ hstep ih =>
    obtain rfl := hstep
    obtain ⟨hhd, htl⟩ := List.forall_mem_cons.mp hfit
    exact (ih htl).step hhd

/-- Dropping the last call keeps what holds of the blocks. -/
theorem BlocksDisjoint.tail {p : Word × HeapCall} (h : BlocksDisjoint (p :: tr)) :
    BlocksDisjoint tr := by
  have hsub : (heapBlocks tr).Sublist (heapBlocks (p :: tr)) :=
    (List.sublist_cons_self p tr).filterMap _
  exact ⟨fun b hb => h.inHeap b (hsub.subset hb), fun b hb => h.aligned b (hsub.subset hb),
    h.disjoint.sublist hsub⟩

/-- The blocks of a run are aligned, in the heap and disjoint if and only if no request of
the run wraps around past the bounds check. -/
theorem blocksDisjoint_iff (h : HeapRun tr hc) :
    BlocksDisjoint tr ↔ ∀ p ∈ tr, p.2.Fits p.1 := by
  constructor
  · intro hdisj
    induction h with
    | start _ => exact fun p hp => absurd hp List.not_mem_nil
    | @snoc tr s s' c hrun hstep ih =>
      have hall := ih hdisj.tail
      refine List.forall_mem_cons.mpr ⟨?_, hall⟩
      -- The first call that does not fit would have got a block past the end of the heap.
      by_contra hfit
      obtain ⟨b, hb, hpast⟩ := (HeapInv.of_run hrun hall).not_fits hfit
      have hmem : b ∈ heapBlocks ((s, c) :: tr) := by simp [heapBlocks_cons_some hb]
      exact absurd (hdisj.inHeap b hmem).2 (Nat.not_le.mpr hpast)
  · intro hall
    exact (HeapInv.of_run h hall).blocksDisjoint

/-- Two requests in a row, the second for whole pages. -/
theorem blocksDisjoint_iff_twoCalls :
    BlocksDisjoint [(heapStart + 12, .kmallocA 8192), (heapStart, .kmalloc 10)] ↔
      ∀ p ∈ ([(heapStart + 12, .kmallocA 8192), (heapStart, .kmalloc 10)] :
        List (Word × HeapCall)), p.2.Fits p.1 :=
  blocksDisjoint_iff (.snoc (.snoc (.start rfl) rfl) rfl)

/-- A request of 2^32 - 4 bytes is served, and leaves `heap_current` below its start. -/
theorem not_forall_blocksDisjoint :
    ¬ ∀ tr hc, HeapRun tr hc → BlocksDisjoint tr := by
  intro hall
  have hrun : HeapRun [(heapStart, .kmalloc 0xFFFFFFFC)] (heapStart - 4) :=
    .snoc (.start rfl) (by decide)
  have hdisj := hall _ _ hrun
  have hmem : (⟨0x300000, 0xFFFFFFFC, 4⟩ : HandedBlock) ∈
      heapBlocks [(heapStart, .kmalloc 0xFFFFFFFC)] := by
    have hb : HeapCall.block heapStart (.kmalloc 0xFFFFFFFC) =
        some ⟨0x300000, 0xFFFFFFFC, 4⟩ := rfl
    rw [heapBlocks_cons_some hb]
    exact List.mem_cons_self
  have := (hdisj.inHeap _ hmem).2
  exact absurd this (by decide)

end KyroKernel
