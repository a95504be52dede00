import KyroKernel.Process.ProcessList
import KyroKernel.Process.UserMemory

/-!
# Which frames `alloc_frame` hands out

Runs of `alloc_frame`, `map_page`, `create_page_directory` and `create_process` after
`paging_init`. `paging_init` clears the whole bitmap and then maps the first 8 MB without
`set_frame`, so the first frame that a run asks for is frame 0.
-/

namespace KyroKernel

open Foundations

/-- The kernel state with the page directories made so far, latest first. -/
structure FrameSystem where
  kernel : KernelState
  directories : List Word

/-- The calls a frame run is made of. -/
inductive FrameOp where
  | allocFrame (virtualAddr : Word) (isKernel isWritable : Bool)
  | mapPage (virtualAddr physicalAddr flags : Word)
  | createPageDirectory
  | createProcess (name : List Byte) (entryPoint : Word) (kernelMode : Bool)

/-- One call. -/
inductive FrameStep : FrameSystem → FrameOp → FrameSystem → Prop where
  | allocFrame {s : KernelState} {D : List Word} {v : Word} {k w : Bool} :
      FrameStep ⟨s, D⟩ (.allocFrame v k w)
        ⟨{ s with toPagingState := allocFrame s.toPagingState v k w }, D⟩
  | mapPage {s : KernelState} {D : List Word} {v p f : Word} :
      FrameStep ⟨s, D⟩ (.mapPage v p f)
        ⟨{ s with toPagingState := mapPage s.toPagingState v p f }, D⟩
  | createPageDirectory {s : KernelState} {D : List Word} :
      FrameStep ⟨s, D⟩ .createPageDirectory
        ⟨{ s with toPagingState := (createPageDirectory s.toPagingState).2 },
          addDirectory (createPageDirectory s.toPagingState).1 D⟩
  | createProcess {s : KernelState} {D : List Word} {name : List Byte} {entryPoint : Word}
      {kernelMode : Bool} :
      FrameStep ⟨s, D⟩ (.createProcess name entryPoint kernelMode)
        ⟨(createProcess s name entryPoint kernelMode).2,
          if kernelMode then D else addDirectory (userDirectory s) D⟩

/-- The start of a frame run: `paging_init` has returned. -/
structure FrameBoot (y : FrameSystem) : Prop where
  paging : AfterPagingInit y.kernel.toPagingState
  directories : y.directories = [y.kernel.kernelDirectory]

/-- The paging state in which a call runs `alloc_frame`, if it does, with the directories
that exist then. -/
def frameRequest (y : FrameSystem) : FrameOp → Option (PagingState × List Word)
  | .allocFrame _ _ _ => some (y.kernel.toPagingState, y.directories)
  | .createProcess _ _ false =>
    if (kmalloc y.kernel.heapCurrent sizeofProcess).1 = 0 then none
    else some (stackRequest y.kernel, addDirectory (userDirectory y.kernel) y.directories)
  | _ => none

/-- The frame is not in use in `s`: no present entry of a directory leads to it, and it is
none of the frames that `paging_init` mapped to themselves, which hold the kernel image and
the kernel heap. -/
structure FrameUnused (s : PagingState) (D : List Word) (frame : Word) : Prop where
  unmapped : ∀ d ∈ D, ∀ v, pte s.mem d v &&& pagePresent ≠ 0 →
    frameOf (pte s.mem d v) ≠ frame * pageSize
  outside : 2048 ≤ frame.toNat

/-! ## The first request of a run -/

/-- No frame was requested yet: the first word of the bitmap is clear. -/
structure NoneTaken (s : PagingState) (D : List Word) : Prop where
  layout : Layout 0x300200 s.mem s.heapCurrent D
  current : s.currentDirectory ∈ D
  bitmap : FrameBitmap s
  clear : s.mem.read32 0x300000 = 0

theorem noneTaken_of_boot {y : FrameSystem} (h : FrameBoot y) :
    NoneTaken y.kernel.toPagingState y.directories := by
  have hp := h.paging
  rw [h.directories, hp.kernelDirectory]
  refine ⟨hp.layout, ?_, ⟨hp.frames, hp.nframes⟩, ?_⟩
  · rw [hp.currentDirectory]
    exact List.mem_cons_self
  · have hslot : framesSlot y.kernel.frames 0 = 0x300000 := by
      rw [hp.frames]
      decide
    rw [← hslot]
    exact hp.bitmap 0 (by decide)

namespace NoneTaken

variable {s s' : PagingState} {D D' : List Word}

/-- What keeps memory below the directories keeps the bitmap. -/
theorem of_keeps (h : NoneTaken s D) (hl : Layout 0x300200 s'.mem s'.heapCurrent D')
    (hk : Keeps 0x300200 D s s') (hsub : ∀ d ∈ D, d ∈ D') : NoneTaken s' D' := by
  refine ⟨hl, ?_, hk.frameBitmap h.bitmap, ?_⟩
  · rw [hk.currentDirectory]
    exact hsub _ h.current
  · rw [hk.below _ (by decide) (by decide)]
    exact h.clear

/-- The frame requested now is frame 0, which is in use. -/
theorem not_frameUnused (h : NoneTaken s D) : ¬ FrameUnused s D (firstFreeFrame s) := by
  intro hunused
  have hout := hunused.outside
  rw [firstFreeFrame_eq_zero h.bitmap h.clear] at hout
  exact absurd hout (by decide)

theorem createPageDirectory (h : NoneTaken s D) :
    NoneTaken (createPageDirectory s).2 (addDirectory (createPageDirectory s).1 D) := by
  obtain ⟨hl, hk⟩ := h.layout.createPageDirectory
  exact h.of_keeps hl hk fun _ => mem_addDirectory

theorem stackRequest {s : KernelState} (h : NoneTaken s.toPagingState D)
    (hproc : (kmalloc s.heapCurrent sizeofProcess).1 ≠ 0) :
    NoneTaken (stackRequest s) (addDirectory (userDirectory s) D) := by
  obtain ⟨hl, hk, -⟩ := h.layout.stackRequest hproc
  exact h.of_keeps hl hk fun _ => mem_addDirectory

end NoneTaken

/-- No request so far: the state of the next request, if the next call makes one. -/
theorem not_frameUnused_of_request {y : FrameSystem} {op : FrameOp} {t : PagingState}
    {E : List Word} (h : NoneTaken y.kernel.toPagingState y.directories)
    (hreq : frameRequest y op = some (t, E)) : ¬ FrameUnused t E (firstFreeFrame t) := by
  cases op with
  | allocFrame v k w =>
    obtain ⟨rfl, rfl⟩ := Prod.mk.inj (Option.some.inj hreq)
    exact h.not_frameUnused
  | createProcess name entryPoint kernelMode =>
    cases kernelMode with
    | true => cases hreq
    | false =>
      unfold frameRequest at hreq
      by_cases hproc : (kmalloc y.kernel.heapCurrent sizeofProcess).1 = 0
      · rw [if_pos hproc] at hreq
        cases hreq
      · rw [if_neg hproc] at hreq
        obtain ⟨rfl, rfl⟩ := Prod.mk.inj (Option.some.inj hreq)
        exact (h.stackRequest hproc).not_frameUnused
  | _ => cases hreq

/-- A call that requests no frame leaves the bitmap clear. -/
theorem NoneTaken.step {y y' : FrameSystem} {op : FrameOp}
    (h : NoneTaken y.kernel.toPagingState y.directories) (hstep : FrameStep y op y')
    (hreq : frameRequest y op = none) : NoneTaken y'.kernel.toPagingState y'.directories := by
  cases hstep with
  | allocFrame => cases hreq
  | @mapPage s D v p f =>
    obtain ⟨hl, hk, -⟩ := mapPage_spec v p f h.layout h.current
    exact h.of_keeps hl hk fun _ => id
  | @createPageDirectory s D =>
    have hs : NoneTaken s.toPagingState D := h
    dsimp only
    exact hs.createPageDirectory
  | @createProcess s D name entryPoint kernelMode =>
    have hheap : s.heapCurrent ≠ 0 := fun h0 => by
      have hlow := h.layout.lo_le
      simp only [h0] at hlow
      exact absurd hlow (by decide)
    by_cases hproc : (kmalloc s.heapCurrent sizeofProcess).1 = 0
    · -- The record was not allocated, and nothing changed.
      have hfst := createProcess_fst s name entryPoint kernelMode
      have hspec := createProcess_spec name entryPoint kernelMode hheap h.layout.heap_le
      have hsame := (hspec.resolve_right fun hnew => hnew.1.ne_zero (hfst.trans hproc)).2
      have hdir : userDirectory s = 0 := if_pos hproc
      simp only [hsame, hdir, addDirectory, if_true, ite_self]
      exact h
    · cases kernelMode with
      | true =>
        have hpaging := createProcess_paging name entryPoint true hproc
        simp only [if_true] at hpaging ⊢
        rw [hpaging]
        exact h.of_keeps h.layout.afterStack (afterStack_keeps _ _ h.layout.heap_le) fun _ => id
      | false =>
        unfold frameRequest at hreq
        rw [if_neg hproc] at hreq
        cases hreq

/-- While every frame handed out so far was unused, none was requested. -/
theorem noneTaken_run {tr : List (FrameSystem × FrameOp)} {y : FrameSystem}
    (hrun : Run FrameBoot FrameStep tr y)
    (hunused : ∀ p ∈ tr, ∀ t E, frameRequest p.1 p.2 = some (t, E) →
      FrameUnused t E (firstFreeFrame t)) :
    NoneTaken y.kernel.toPagingState y.directories ∧
      ∀ p ∈ tr, frameRequest p.1 p.2 = none := by
  induction hrun with
  | start hinit => exact ⟨noneTaken_of_boot hinit, by simp⟩
  | @snoc tr s s' op _ hstep ih =>
    obtain ⟨hhd, htl⟩ := List.forall_mem_cons.mp hunused
    obtain ⟨hnone, hall⟩ := ih htl
    -- A first request in this step would have got frame 0.
    have hreq : frameRequest s op = none := by
      cases hr : frameRequest s op with
      | none => rfl
      | some r => exact absurd (hhd r.1 r.2 hr) (not_frameUnused_of_request hnone hr)
    exact ⟨hnone.step hstep hreq, List.forall_mem_cons.mpr ⟨hreq, hall⟩⟩

/-- In a run every frame that `alloc_frame` chooses is unused exactly when the run requests
no frame at all. -/
theorem framesUnused_iff {tr : List (FrameSystem × FrameOp)} {y : FrameSystem}
    (hrun : Run FrameBoot FrameStep tr y) :
    (∀ p ∈ tr, ∀ t E, frameRequest p.1 p.2 = some (t, E) →
      FrameUnused t E (firstFreeFrame t)) ↔ ∀ p ∈ tr, frameRequest p.1 p.2 = none := by
  constructor
  · exact fun hunused => (noneTaken_run hrun hunused).2
  · intro hnone p hp t E hreq
    rw [hnone p hp] at hreq
    cases hreq

/-! ## A short run -/

/-- The system right after `paging_init`. -/
def bootFrameSystem : FrameSystem := ⟨bootKernel, [bootKernel.kernelDirectory]⟩

theorem frameBoot_bootFrameSystem : FrameBoot bootFrameSystem :=
  ⟨afterPagingInit_of_atBoot atBoot_bootState, rfl⟩

/-- `alloc_frame` called right after `paging_init` chooses frame 0, to which the kernel
directory maps page 0. -/
theorem not_forall_framesUnused : ¬ ∀ (tr : List (FrameSystem × FrameOp)) (y : FrameSystem),
    Run FrameBoot FrameStep tr y → ∀ p ∈ tr, ∀ t E, frameRequest p.1 p.2 = some (t, E) →
      FrameUnused t E (firstFreeFrame t) := by
  intro hall
  have hp := frameBoot_bootFrameSystem.paging
  have hnone := noneTaken_of_boot frameBoot_bootFrameSystem
  have hrun : Run FrameBoot FrameStep [(bootFrameSystem, .allocFrame 0x400000 true true)] _ :=
    .snoc (.start frameBoot_bootFrameSystem) .allocFrame
  have hunused := hall _ _ hrun _ List.mem_cons_self _ _ rfl
  rw [firstFreeFrame_eq_zero hnone.bitmap hnone.clear] at hunused
  have hentry : pte bootFrameSystem.kernel.mem 0x301000 0 = 3 := by
    rw [hp.identity 0 (by decide)]
    decide
  refine hunused.unmapped 0x301000 ?_ 0 ?_ ?_
  · rw [← hp.kernelDirectory]
    exact List.mem_cons_self
  · rw [hentry]
    decide
  · rw [hentry]
    decide

/-- Mapping a page by hand requests no frame. -/
theorem framesUnused_iff_bootFrameSystem : ∃ y : FrameSystem,
    Run FrameBoot FrameStep [(bootFrameSystem, .mapPage 0x400000 0x900000 3)] y ∧
      ∀ p ∈ [(bootFrameSystem, FrameOp.mapPage 0x400000 0x900000 3)], ∀ t E,
        frameRequest p.1 p.2 = some (t, E) → FrameUnused t E (firstFreeFrame t) := by
  refine ⟨_, .snoc (.start frameBoot_bootFrameSystem) .mapPage, ?_⟩
  exact (framesUnused_iff (.snoc (.start frameBoot_bootFrameSystem) .mapPage)).mpr (by
    intro p hp
    obtain rfl := List.mem_singleton.mp hp
    rfl)

end KyroKernel
