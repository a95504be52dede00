import KyroKernel.Heap.Blocks

/-!
# Requests that fail

`kmalloc` compares before it moves `heap_current`, but `kmalloc_a` has moved it to a page boundary
by then. A request for whole pages that fails takes the rest of the page with it.
-/

namespace KyroKernel

open Foundations

/-- The size that `kmalloc` works with. -/
def roundedSize (size : Word) : Word := (size + 3) &&& ~~~3

/-- The bounds check of `kmalloc` lets the request pass. -/
def HasRoom (heapCurrent size : Word) (align : Nat) : Prop :=
  alignedStart heapCurrent align + roundedSize size < heapEnd

instance (heapCurrent size : Word) (align : Nat) : Decidable (HasRoom heapCurrent size align) :=
  inferInstanceAs (Decidable (_ < _))

/-- What calls one after the other return. -/
def addresses (heapCurrent : Word) : List HeapCall → List Word
  | [] => []
  | c :: later => (c.exec heapCurrent).1 :: addresses (c.exec heapCurrent).2 later

/-- If the call returns 0, `heap_current` is as before, and every later call returns what it would
have returned without it. -/
def CostsNothing (heapCurrent : Word) (c : HeapCall) : Prop :=
  (c.exec heapCurrent).1 = 0 →
    (c.exec heapCurrent).2 = heapCurrent ∧
      ∀ later, addresses (c.exec heapCurrent).2 later = addresses heapCurrent later

variable {tr : List (Word × HeapCall)} {hc size : Word} {align : Nat} {c : HeapCall}

/-- Only `heap_current` matters for later calls. -/
theorem costsNothing_iff_heapCurrent (hc : Word) (c : HeapCall) :
    CostsNothing hc c ↔ ((c.exec hc).1 = 0 → (c.exec hc).2 = hc) := by
  constructor
  · exact fun h h0 => (h h0).1
  · intro h h0
    refine ⟨h h0, fun later => ?_⟩
    rw [h h0]

theorem kmalloc_of_room (h : hc + roundedSize size < heapEnd) :
    kmalloc hc size = (hc, hc + roundedSize size) := by
  have hnot : ¬ heapEnd ≤ hc + ((size + 3) &&& ~~~3) := BitVec.not_le.mpr h
  unfold kmalloc
  simp only [if_neg hnot, roundedSize]

theorem kmalloc_of_no_room (h : ¬ hc + roundedSize size < heapEnd) : kmalloc hc size = (0, hc) := by
  have hend : heapEnd ≤ hc + ((size + 3) &&& ~~~3) := BitVec.not_lt.mp h
  unfold kmalloc
  simp only [if_pos hend]

/-- Moving to a page boundary stays in the heap. -/
theorem alignedStart_range (hhc : hc.toNat ≤ 0x800000) (align : Nat) :
    hc.toNat ≤ (alignedStart hc align).toNat ∧ (alignedStart hc align).toNat ≤ 0x800000 := by
  unfold alignedStart
  split
  · have h := toNat_pageAlign hhc
    constructor <;> omega
  · exact ⟨Nat.le_refl _, hhc⟩

/-- The boundary is 0 only at 0. -/
theorem alignedStart_eq_zero (hhc : hc.toNat ≤ 0x800000) :
    alignedStart hc align = 0 ↔ hc = 0 := by
  constructor
  · intro h0
    have hge := (alignedStart_range hhc align).1
    rw [h0] at hge
    exact BitVec.eq_of_toNat_eq (Nat.le_zero.mp hge)
  · rintro rfl
    unfold alignedStart
    split <;> rfl

/-- No call moves `heap_current` past the end of the heap, not even one that wraps around. -/
theorem HeapCall.exec_le (hhc : hc.toNat ≤ 0x800000) (c : HeapCall) :
    (c.exec hc).2.toNat ≤ 0x800000 := by
  cases hreq : c.request with
  | none =>
    rw [HeapCall.exec_of_no_request hreq]
    exact hhc
  | some p =>
    obtain ⟨size, align⟩ := p
    rw [HeapCall.exec_of_request hc hreq]
    by_cases hroom : HasRoom hc size align
    · rw [kmalloc_of_room hroom]
      exact Nat.le_of_lt hroom
    · rw [kmalloc_of_no_room hroom]
      exact (alignedStart_range hhc align).2

/-- A call that does not wrap around does not move `heap_current` back. -/
theorem HeapCall.exec_ge (hhc : hc.toNat ≤ 0x800000) {c : HeapCall} (hfit : c.Fits hc) :
    hc.toNat ≤ (c.exec hc).2.toNat := by
  cases hreq : c.request with
  | none =>
    exact Nat.le_of_eq (by rw [HeapCall.exec_of_no_request hreq])
  | some p =>
    obtain ⟨size, align⟩ := p
    obtain ⟨hge, hle⟩ := alignedStart_range hhc align
    rw [HeapCall.exec_of_request hc hreq]
    rcases kmalloc_of_fits hle (hfit size align hreq) with hk | ⟨hc', hk, hadd, -⟩
    · rw [hk]
      exact hge
    · rw [hk]
      simp only
      omega

theorem heapCurrent_le_of_run (h : HeapRun tr hc) : hc.toNat ≤ 0x800000 := by
  apply h.inv fun hc => hc.toNat ≤ 0x800000
  · rintro _ rfl
    decide
  · rintro hc c _ hle rfl
    exact HeapCall.exec_le hle c

/-- One request, at any fill level. -/
theorem costsNothing_request_iff (hhc : hc.toNat ≤ 0x800000)
    (hreq : c.request = some (size, align)) :
    CostsNothing hc c ↔
      (HasRoom hc size align → hc ≠ 0 ∨ roundedSize size = 0) ∧
      (¬ HasRoom hc size align → alignedStart hc align = hc) := by
  rw [costsNothing_iff_heapCurrent, HeapCall.exec_of_request hc hreq]
  by_cases hroom : HasRoom hc size align
  · -- The request is served, from 0 on only if `heap_current` had wrapped around to 0.
    rw [kmalloc_of_room hroom]
    simp only [alignedStart_eq_zero hhc]
    constructor
    · intro h
      refine ⟨fun _ => ?_, fun hnot => absurd hroom hnot⟩
      by_cases h0 : hc = 0
      · have hsame := h h0
        rw [(alignedStart_eq_zero hhc).mpr h0] at hsame
        exact .inr ((BitVec.zero_add _).symm.trans (hsame.trans h0))
      · exact .inl h0
    · rintro ⟨hserved, -⟩ h0
      have hsize := (hserved hroom).resolve_left fun hne => hne h0
      rw [(alignedStart_eq_zero hhc).mpr h0, hsize, h0]
      rfl
  · -- The request is refused, after `heap_current` was moved to the boundary.
    rw [kmalloc_of_no_room hroom]
    constructor
    · exact fun h => ⟨fun hr => absurd hr hroom, fun _ => h rfl⟩
    · exact fun h _ => h.2 hroom

/-- A call costs nothing when it fails if and only if its request has room (and `heap_current` has
not wrapped around to 0), or starts at `heap_current` itself. -/
theorem costsNothing_iff (h : HeapRun tr hc) (c : HeapCall) :
    CostsNothing hc c ↔ ∀ size align, c.request = some (size, align) →
      (HasRoom hc size align → hc ≠ 0 ∨ roundedSize size = 0) ∧
      (¬ HasRoom hc size align → alignedStart hc align = hc) := by
  have hhc := heapCurrent_le_of_run h
  cases hreq : c.request with
  | none =>
    -- `kfree` changes nothing.
    constructor
    · intro _ size align hsome
      cases hsome
    · intro _
      rw [costsNothing_iff_heapCurrent, HeapCall.exec_of_no_request hreq]
      exact fun _ => rfl
  | some p =>
    obtain ⟨size, align⟩ := p
    rw [costsNothing_request_iff hhc hreq]
    constructor
    · intro hboth size' align' heq
      obtain ⟨rfl, rfl⟩ := Prod.mk.inj (Option.some.inj heq)
      exact hboth
    · exact fun hall => hall size align rfl

/-- After four bytes, a request that is larger than the heap costs nothing, and one for pages
does. -/
theorem costsNothing_iff_offBoundary : CostsNothing (heapStart + 4) (.kmalloc 0x800000) ∧
    ¬ CostsNothing (heapStart + 4) (.kmallocA 0x800000) := by
  have hrun : HeapRun [(heapStart, .kmalloc 4)] (heapStart + 4) := .snoc (.start rfl) (by decide)
  constructor
  · rw [costsNothing_iff hrun]
    rintro size align hreq
    obtain ⟨rfl, rfl⟩ := Prod.mk.inj (Option.some.inj hreq)
    exact ⟨fun hroom => absurd hroom (by decide), fun _ => rfl⟩
  · rw [costsNothing_iff hrun]
    exact fun hall => absurd ((hall 0x800000 4096 rfl).2 (by decide)) (by decide)

/-- After four bytes, a request for too many pages takes the rest of the first page. -/
theorem not_forall_costsNothing : ¬ ∀ tr hc, HeapRun tr hc → ∀ c, CostsNothing hc c := by
  intro hall
  have hrun : HeapRun [(heapStart, .kmalloc 4)] (heapStart + 4) := .snoc (.start rfl) (by decide)
  have hsame := (hall _ _ hrun (.kmallocA 0x800000) (by decide)).1
  exact absurd hsame (by decide)

end KyroKernel
