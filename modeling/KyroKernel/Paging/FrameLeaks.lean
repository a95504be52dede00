import KyroKernel.Paging.FrameBits
import KyroKernel.Paging.Runs

/-!
# Frames that no entry maps any more

Runs of `alloc_frame` and `unmap_page` after `paging_init`. `clear_frame` is called nowhere, so a
frame that `alloc_frame` took stays taken: when the last entry that maps it goes, nobody can reach
it and `first_free_frame` never returns it again.
-/

namespace KyroKernel

open Foundations

/-! ## Runs -/

/-- The paging state with the frames obtained from `alloc_frame` so far, latest first. -/
structure AllocSystem where
  state : PagingState
  obtained : List Word

/-- The calls of a run. -/
inductive AllocOp where
  | allocFrame (virtualAddr : Word) (isKernel isWritable : Bool)
  | unmapPage (virtualAddr : Word)

/-- The address whose page a call is about. -/
def AllocOp.virtualAddr : AllocOp → Word
  | .allocFrame v _ _ => v
  | .unmapPage v => v

/-- One call, with a free frame and memory for a page table. -/
inductive AllocStep : AllocSystem → AllocOp → AllocSystem → Prop where
  | allocFrame {s : PagingState} {o : List Word} {v : Word} {k w : Bool}
      (hframes : firstFreeFrame s ≠ -1) (hheap : TableReady s v) :
      AllocStep ⟨s, o⟩ (.allocFrame v k w) ⟨allocFrame s v k w, firstFreeFrame s :: o⟩
  | unmapPage {s : PagingState} {o : List Word} {v : Word} :
      AllocStep ⟨s, o⟩ (.unmapPage v) ⟨unmapPage s v, o⟩

/-- The start of a run: `paging_init` has returned. -/
def AllocBoot (y : AllocSystem) : Prop := ∃ s, AtBoot s ∧ y = ⟨pagingInit s, []⟩

/-! ## Mapped frames -/

/-- The entry of the page of `a` maps the frame `F`. -/
def MapsFrame (s : PagingState) (a F : Word) : Prop :=
  pte s.mem s.currentDirectory a &&& pagePresent ≠ 0 ∧
    frameOf (pte s.mem s.currentDirectory a) = F * pageSize

/-- Some entry maps the frame `F`. -/
def Mapped (s : PagingState) (F : Word) : Prop := ∃ a, MapsFrame s a F

/-- The last entry that mapped `F` is cleared or overwritten between `s` and `s'`. -/
def LastEntryDropped (s s' : PagingState) (F : Word) : Prop := Mapped s F ∧ ¬ Mapped s' F

/-- Every frame obtained from `alloc_frame` is free after the call that drops its last entry. -/
def FreesDropped (tr : List (AllocSystem × AllocOp)) : Prop :=
  ∀ q ∈ tr, ∀ y', AllocStep q.1 q.2 y' → ∀ F ∈ q.1.obtained,
    LastEntryDropped q.1.state y'.state F → testFrame y'.state (F * pageSize) = 0

/-- The entry of the page of `v` maps `F`, and no other does. -/
def OnlyEntry (s : PagingState) (v F : Word) : Prop :=
  MapsFrame s v F ∧ ∀ a : Word, a >>> 12 ≠ v >>> 12 → ¬ MapsFrame s a F

/-- Addresses in the same page have the same entry. -/
theorem pte_congr {m : Mem} {d a v : Word} (h : a >>> 12 = v >>> 12) : pte m d a = pte m d v := by
  obtain ⟨hdir, htable⟩ := (same_page_iff a v).mp h
  unfold pte
  rw [hdir, htable]

/-! ## The invariant -/

/-- There is one directory, and the bit of every frame that was obtained is set. -/
structure AllocInv (y : AllocSystem) : Prop where
  layout : Layout 0x300200 y.state.mem y.state.heapCurrent [0x301000]
  bitmap : FrameBitmap y.state
  currentDirectory : y.state.currentDirectory = 0x301000
  range : ∀ F ∈ y.obtained, F.toNat < 4096
  taken : ∀ F ∈ y.obtained, testFrame y.state (F * pageSize) ≠ 0

theorem AllocInv.current {y : AllocSystem} (h : AllocInv y) :
    y.state.currentDirectory ∈ [(0x301000 : Word)] := by
  rw [h.currentDirectory]
  exact List.mem_cons_self

theorem allocInv_of_boot {y : AllocSystem} (h : AllocBoot y) : AllocInv y := by
  obtain ⟨s, hs, rfl⟩ := h
  have hp := afterPagingInit_of_atBoot hs
  exact ⟨hp.layout, ⟨hp.frames, hp.nframes⟩, hp.currentDirectory,
    fun F hF => absurd hF List.not_mem_nil, fun F hF => absurd hF List.not_mem_nil⟩

/-- What a call does: it writes the entry `entry` for its page, which maps no frame obtained before,
and clears no bit of the bitmap. -/
structure AllocEffect (y y' : AllocSystem) (op : AllocOp) (entry : Word) : Prop where
  inv : AllocInv y'
  pte : ∀ a, KyroKernel.pte y'.state.mem y'.state.currentDirectory a =
    if a >>> 12 = op.virtualAddr >>> 12 then entry
    else KyroKernel.pte y.state.mem y.state.currentDirectory a
  entry : ∀ F ∈ y.obtained, entry &&& pagePresent ≠ 0 → frameOf entry ≠ F * pageSize
  obtained : ∀ F ∈ y.obtained, F ∈ y'.obtained

/-- The bits of the bitmap lie below the directories, where mapping a page changes nothing. -/
theorem testFrame_of_keeps {s s' : PagingState} {D : List Word} {F : Word} (hb : FrameBitmap s)
    (hk : Keeps 0x300200 D s s') (hF : F.toNat < 4096) :
    testFrame s' (F * pageSize) = testFrame s (F * pageSize) :=
  testFrame_congr hb (hk.frameBitmap hb) hF fun x hx hx' => hk.below x (by omega) hx'

theorem AllocInv.unmapPage {s : PagingState} {o : List Word} (h : AllocInv ⟨s, o⟩) (v : Word) :
    AllocEffect ⟨s, o⟩ ⟨unmapPage s v, o⟩ (.unmapPage v) 0 := by
  have hl : Layout 0x300200 s.mem s.heapCurrent [0x301000] := h.layout
  have hb : FrameBitmap s := h.bitmap
  obtain ⟨hl', hk, hpte⟩ := unmapPage_spec v hl h.current
  refine ⟨⟨hl', hk.frameBitmap hb, hk.currentDirectory.trans h.currentDirectory, h.range,
    fun F hF => ?_⟩, fun a => ?_, fun F _ hpres => absurd (by decide) hpres, fun _ => id⟩
  · rw [testFrame_of_keeps hb hk (h.range F hF)]
    exact h.taken F hF
  · have hentry := hpte s.currentDirectory h.current a
    simp only [true_and] at hentry
    rw [hk.currentDirectory]
    exact hentry

/-- The entry that `alloc_frame` stores is present and leads to the frame. -/
theorem allocEntry {F : Word} (hF : F.toNat < 4096) (k w : Bool) :
    (frameOf (F * pageSize) ||| frameFlags k w) &&& pagePresent ≠ 0 ∧
      frameOf (frameOf (F * pageSize) ||| frameFlags k w) = F * pageSize := by
  have haddr := toNat_frameAddr hF
  have hframe : frameOf (F * pageSize) = F * pageSize := frameOf_of_aligned (by omega)
  constructor
  · have hpres : ∀ k w : Bool, frameFlags k w &&& presentBit ≠ 0 := by decide
    exact (present_entry _ _).trans_ne (hpres k w)
  · have hlow : ∀ k w : Bool, (frameFlags k w).toNat < 4096 := by decide
    rw [frameOf_entry (hlow k w), hframe]

theorem AllocInv.allocFrame {s : PagingState} {o : List Word} (h : AllocInv ⟨s, o⟩) (v : Word)
    (k w : Bool) (hframes : firstFreeFrame s ≠ -1) (hheap : TableReady s v) :
    AllocEffect ⟨s, o⟩ ⟨allocFrame s v k w, firstFreeFrame s :: o⟩ (.allocFrame v k w)
      (frameOf (firstFreeFrame s * pageSize) ||| frameFlags k w) := by
  have hl : Layout 0x300200 s.mem s.heapCurrent [0x301000] := h.layout
  have hb : FrameBitmap s := h.bitmap
  obtain ⟨hF, hclear⟩ := firstFreeFrame_spec hb hframes
  have hentry := allocFrame_entry v k w hb hl h.current hheap
  obtain ⟨hothers, -, -, -⟩ := allocFrame_mem v k w hb hl h.current
  obtain ⟨hl', -⟩ := allocFrame_spec v k w hb hl h.current
  have hb' := hb.allocFrame v k w
  -- `alloc_frame` sets the bit and then maps the page.
  obtain ⟨hlset, -⟩ := setFrame_spec hb hl (firstFreeFrame s * pageSize)
  obtain ⟨-, hk, -, -⟩ := mapPage_spec v (firstFreeFrame s * pageSize) (frameFlags k w) hlset
    (by rw [setFrame_currentDirectory]; exact h.current)
  rw [← allocFrame_eq] at hk
  have hcur : (KyroKernel.allocFrame s v k w).currentDirectory = s.currentDirectory :=
    hk.currentDirectory.trans (setFrame_currentDirectory _ _)
  have hbits : ∀ G : Word, G.toNat < 4096 →
      testFrame (KyroKernel.allocFrame s v k w) (G * pageSize) =
        testFrame (setFrame s (firstFreeFrame s * pageSize)) (G * pageSize) := fun G hG =>
    testFrame_of_keeps (hb.setFrame _) hk hG
  refine ⟨⟨hl', hb', hcur.trans h.currentDirectory, List.forall_mem_cons.mpr ⟨hF, h.range⟩,
    List.forall_mem_cons.mpr ⟨?_, fun G hG => ?_⟩⟩, fun a => ?_, fun G hG _ => ?_,
    fun _ => List.mem_cons_of_mem _⟩
  · rw [hbits _ hF]
    exact testFrame_setFrame_self hb hF
  · rw [hbits _ (h.range G hG)]
    exact testFrame_setFrame hb hF (h.range G hG) (h.taken G hG)
  · rw [hcur]
    by_cases hpage : a >>> 12 = v >>> 12
    · rw [pte_congr hpage, hentry]
      exact (if_pos hpage).symm
    · rw [hothers s.currentDirectory h.current a hpage]
      exact (if_neg hpage).symm
  · -- The frame was free, and the bits of the others were set.
    rw [(allocEntry hF k w).2]
    intro heq
    rw [frameAddr_inj hF (h.range G hG) heq] at hclear
    exact h.taken G hG hclear

theorem allocEffect_step {y y' : AllocSystem} {op : AllocOp} (h : AllocInv y)
    (hstep : AllocStep y op y') : ∃ entry, AllocEffect y y' op entry := by
  cases hstep with
  | allocFrame hframes hheap => exact ⟨_, h.allocFrame _ _ _ hframes hheap⟩
  | unmapPage => exact ⟨0, h.unmapPage _⟩

theorem allocInv_run {tr : List (AllocSystem × AllocOp)} {y : AllocSystem}
    (hrun : Run AllocBoot AllocStep tr y) : AllocInv y :=
  hrun.inv AllocInv (fun _ => allocInv_of_boot) fun _ _ _ h hstep =>
    (allocEffect_step h hstep).choose_spec.inv

/-! ## Leaks -/

/-- A call drops the last entry of an obtained frame when it is about the only page that maps
it. -/
theorem AllocEffect.lastEntryDropped_iff {y y' : AllocSystem} {op : AllocOp} {entry F : Word}
    (h : AllocEffect y y' op entry) (hF : F ∈ y.obtained) :
    LastEntryDropped y.state y'.state F ↔ OnlyEntry y.state op.virtualAddr F := by
  have hold : ∀ a : Word, a >>> 12 ≠ op.virtualAddr >>> 12 →
      (MapsFrame y'.state a F ↔ MapsFrame y.state a F) := by
    intro a ha
    unfold MapsFrame
    rw [h.pte a, if_neg ha]
  constructor
  · rintro ⟨⟨a, ha⟩, hnone⟩
    refine ⟨?_, fun b hb hmaps => hnone ⟨b, (hold b hb).mpr hmaps⟩⟩
    by_cases hpage : a >>> 12 = op.virtualAddr >>> 12
    · unfold MapsFrame at ha ⊢
      rwa [pte_congr hpage] at ha
    · exact absurd ⟨a, (hold a hpage).mpr ha⟩ hnone
  · rintro ⟨hmaps, hothers⟩
    refine ⟨⟨_, hmaps⟩, ?_⟩
    rintro ⟨a, ha⟩
    by_cases hpage : a >>> 12 = op.virtualAddr >>> 12
    · unfold MapsFrame at ha
      rw [h.pte a, if_pos hpage] at ha
      exact h.entry F hF ha.1 ha.2
    · exact hothers a hpage ((hold a hpage).mp ha)

/-- Unmapping the only page that maps an obtained frame leaves the frame taken. -/
theorem AllocInv.unmapPage_leaks {s : PagingState} {o : List Word} {v F : Word}
    (h : AllocInv ⟨s, o⟩) (hF : F ∈ o) (honly : OnlyEntry s v F) :
    LastEntryDropped s (KyroKernel.unmapPage s v) F ∧
      testFrame (KyroKernel.unmapPage s v) (F * pageSize) ≠ 0 :=
  ⟨((h.unmapPage v).lastEntryDropped_iff hF).mpr honly, (h.unmapPage v).inv.taken F hF⟩

/-- In a run, every frame whose last entry is dropped becomes free exactly when the run drops
the last entry of no frame that `alloc_frame` handed out. -/
theorem freesDropped_iff {tr : List (AllocSystem × AllocOp)} {y : AllocSystem}
    (hrun : Run AllocBoot AllocStep tr y) :
    FreesDropped tr ↔ ∀ q ∈ tr, ∀ F ∈ q.1.obtained, ¬ OnlyEntry q.1.state q.2.virtualAddr F := by
  have hinv : ∀ q ∈ tr, AllocInv q.1 := by
    intro q hq
    obtain ⟨pre, z, hz, -⟩ := hrun.exists_after hq
    exact allocInv_run hz.tail
  constructor
  · intro hall q hq F hF honly
    obtain ⟨pre, z, hz, -⟩ := hrun.exists_after hq
    obtain ⟨entry, heffect⟩ := allocEffect_step (hinv q hq) hz.last
    have hclear := hall q hq z hz.last F hF ((heffect.lastEntryDropped_iff hF).mpr honly)
    exact heffect.inv.taken F (heffect.obtained F hF) hclear
  · intro hnone q hq y' hstep F hF hdropped
    obtain ⟨entry, heffect⟩ := allocEffect_step (hinv q hq) hstep
    exact absurd ((heffect.lastEntryDropped_iff hF).mp hdropped) (hnone q hq F hF)

/-! ## Frame 0 is taken for page 0 -/

/-- `paging_init` maps nothing above 8 MB. -/
theorem pagingInit_unmapped {s : PagingState} (hs : AtBoot s) {a : Word}
    (ha : 2048 ≤ (a >>> 12).toNat) : pte (pagingInit s).mem 0x301000 a = 0 := by
  have hregion : 2 ≤ (dirIndex a).toNat := by
    rw [toNat_dirIndex]
    rw [BitVec.toNat_ushiftRight, Nat.shiftRight_eq_div_pow] at ha
    omega
  unfold pte
  rw [if_pos (tables_pagingInit hs (dirIndex_lt a) hregion)]

/-- The first frame that `alloc_frame` hands out is frame 0, for whatever page. -/
theorem allocFrame_first {s : PagingState} (hs : AtBoot s) (v : Word) (k w : Bool) :
    AllocStep ⟨pagingInit s, []⟩ (.allocFrame v k w) ⟨allocFrame (pagingInit s) v k w, [0]⟩ ∧
      AllocEffect ⟨pagingInit s, []⟩ ⟨allocFrame (pagingInit s) v k w, [0]⟩ (.allocFrame v k w)
        (frameOf (0 * pageSize) ||| frameFlags k w) := by
  have hp := afterPagingInit_of_atBoot hs
  have hclear : (pagingInit s).mem.read32 0x300000 = 0 := by
    have hword := hp.bitmap 0 (by decide)
    rw [hp.frames] at hword
    exact hword
  have hfirst := firstFreeFrame_eq_zero ⟨hp.frames, hp.nframes⟩ hclear
  have hready : TableReady (pagingInit s) v := by
    refine .inr ?_
    rw [hp.heapCurrent]
    decide
  have hframes : firstFreeFrame (pagingInit s) ≠ -1 := by
    rw [hfirst]
    decide
  have hstep := AllocStep.allocFrame (o := []) (k := k) (w := w) hframes hready
  have heffect := (allocInv_of_boot ⟨s, hs, rfl⟩).allocFrame v k w hframes hready
  rw [hfirst] at hstep heffect
  exact ⟨hstep, heffect⟩

/-- When page 0 gets frame 0, no other page has it. -/
theorem onlyEntry_first {s : PagingState} (hs : AtBoot s) (k w : Bool) :
    OnlyEntry (allocFrame (pagingInit s) 0 k w) 0 0 := by
  have hp := afterPagingInit_of_atBoot hs
  obtain ⟨-, heffect⟩ := allocFrame_first hs 0 k w
  have hhere := (heffect.pte 0).trans (if_pos rfl)
  have hothers : ∀ a : Word, a >>> 12 ≠ (0 : Word) >>> 12 →
      pte (allocFrame (pagingInit s) 0 k w).mem (allocFrame (pagingInit s) 0 k w).currentDirectory a
        = pte (pagingInit s).mem 0x301000 a := by
    intro a ha
    rw [← hp.currentDirectory]
    exact (heffect.pte a).trans (if_neg ha)
  dsimp only at hhere
  refine ⟨?_, fun a ha => ?_⟩
  · unfold MapsFrame
    rw [hhere]
    exact allocEntry (by decide) k w
  rintro ⟨hmapped, hzero⟩
  rw [hothers a ha] at hmapped hzero
  by_cases hlow : (a >>> 12).toNat < 2048
  · -- A page below 8 MB is mapped to itself.
    rw [hp.identity a hlow, frameOf_entry (by decide)] at hzero
    apply ha
    have hnat := congrArg BitVec.toNat hzero
    rw [toNat_frameOf] at hnat
    apply BitVec.eq_of_toNat_eq
    rw [BitVec.toNat_ushiftRight, Nat.shiftRight_eq_div_pow]
    simp at hnat ⊢
    omega
  · rw [pagingInit_unmapped hs (Nat.le_of_not_lt hlow)] at hmapped
    exact hmapped (by decide)

/-- Page 0 gets frame 0 and is unmapped: nothing maps frame 0, and its bit stays set. -/
theorem not_forall_freesDropped : ¬ ∀ (tr : List (AllocSystem × AllocOp)) (y : AllocSystem),
    Run AllocBoot AllocStep tr y → FreesDropped tr := by
  intro hall
  have hboot : AllocBoot ⟨pagingInit bootState, []⟩ := ⟨bootState, atBoot_bootState, rfl⟩
  obtain ⟨hstep, heffect⟩ := allocFrame_first atBoot_bootState 0 true true
  have hunmap : AllocStep ⟨allocFrame (pagingInit bootState) 0 true true, [0]⟩ (.unmapPage 0) _ :=
    .unmapPage
  have hrun := Run.snoc (.snoc (.start hboot) hstep) hunmap
  have honly := onlyEntry_first atBoot_bootState true true
  obtain ⟨hdropped, htaken⟩ := heffect.inv.unmapPage_leaks List.mem_cons_self honly
  have hfreed := hall _ _ hrun _ List.mem_cons_self _ hunmap 0 List.mem_cons_self
  dsimp only at hfreed
  exact htaken (hfreed hdropped)

/-- While the page that got frame 0 stays mapped, unmapping its neighbour drops no entry. -/
theorem freesDropped_iff_neighbour :
    FreesDropped [(⟨allocFrame (pagingInit bootState) 0x800000 true true, [0]⟩,
      .unmapPage 0x801000), (⟨pagingInit bootState, []⟩, .allocFrame 0x800000 true true)] := by
  have hboot : AllocBoot ⟨pagingInit bootState, []⟩ := ⟨bootState, atBoot_bootState, rfl⟩
  obtain ⟨hstep, heffect⟩ := allocFrame_first atBoot_bootState 0x800000 true true
  have hunmap : AllocStep ⟨allocFrame (pagingInit bootState) 0x800000 true true, [0]⟩
      (.unmapPage 0x801000) _ := .unmapPage
  have hnone := (heffect.pte 0x801000).trans (if_neg (by decide))
  dsimp only at hnone
  rw [(afterPagingInit_of_atBoot atBoot_bootState).currentDirectory,
    pagingInit_unmapped atBoot_bootState (by decide)] at hnone
  refine (freesDropped_iff (.snoc (.snoc (.start hboot) hstep) hunmap)).mpr ?_
  refine List.forall_mem_cons.mpr ⟨fun F _ honly => ?_, List.forall_mem_singleton.mpr fun F hF =>
    absurd hF List.not_mem_nil⟩
  have hmapped := honly.1.1
  dsimp only [AllocOp.virtualAddr] at hmapped
  rw [hnone] at hmapped
  exact hmapped (by decide)

end KyroKernel
