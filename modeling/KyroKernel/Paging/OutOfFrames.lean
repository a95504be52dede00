import KyroKernel.Paging.FrameLeaks
import KyroKernel.Paging.FrameSet

/-!
# Running out of frames

`first_free_frame` returns -1 when all frames are taken. `alloc_frame` multiplies that by the page
size before it compares with -1, so its error branch is dead: it maps frame `0xFFFFF`, which does
not exist.
-/

namespace KyroKernel

open Foundations

variable {D : List Word} {s s' : PagingState} {F : Nat}

/-- All `nframes` frames are marked used. -/
def AllFramesUsed (s : PagingState) : Prop := ∀ F < s.nframes.toNat, Marked s F

/-- The frame address that `alloc_frame` passes to `map_page`, if it gets that far. -/
def allocFrameAddr (s : PagingState) : Option Word :=
  let physicalAddr := firstFreeFrame s * pageSize
  if physicalAddr = -1 then none else some physicalAddr

theorem allocFrame_eq_addr (s : PagingState) (v : Word) (k w : Bool) :
    allocFrame s v k w = match allocFrameAddr s with
      | none => s
      | some p => mapPage (setFrame s p) v p (frameFlags k w) := by
  unfold allocFrame allocFrameAddr
  by_cases hfull : firstFreeFrame s * pageSize = -1
  · simp only [if_pos hfull]
  · simp only [if_neg hfull]
    rfl

/-- The bitmap and all entries of the directories `D` are the same. -/
structure SamePaging (D : List Word) (s s' : PagingState) : Prop where
  bitmap : ∀ a, testFrame s' a = testFrame s a
  tables : ∀ d ∈ D, ∀ i : Word, i.toNat < 1024 → tables s'.mem d i = tables s.mem d i
  tablesPhysical : ∀ d ∈ D, ∀ i : Word, i.toNat < 1024 →
    tablesPhysical s'.mem d i = tablesPhysical s.mem d i
  pages : ∀ d ∈ D, ∀ a, pte s'.mem d a = pte s.mem d a

/-- What a caller of `alloc_frame` relies on: with all frames used nothing changes, and only frames
that exist are mapped. -/
structure AllocFrameSafe (D : List Word) (s : PagingState) (v : Word) (k w : Bool) : Prop where
  exhausted : AllFramesUsed s → SamePaging D s (allocFrame s v k w)
  inRange : ∀ p, allocFrameAddr s = some p → p.toNat < s.nframes.toNat * pageSize.toNat

/-- `alloc_frame` always goes on to map a frame. -/
theorem allocFrameAddr_eq (s : PagingState) : allocFrameAddr s = some (firstFreeFrame s * pageSize) :=
  if_neg (mul_pageSize_ne _)

/-- With all frames used, the frame address is that of -1. -/
theorem firstFreeFrame_of_allUsed (hall : AllFramesUsed s) : firstFreeFrame s = -1 := by
  rcases firstFreeFrame_cases s with ⟨hnone, -⟩ | ⟨F, hF, -, hnot, -⟩
  · exact hnone
  · have hlt : F < s.nframes.toNat := by omega
    exact absurd (hall F hlt) hnot

/-- Where all frames are used a frame that does not exist is mapped. -/
theorem AllocFrameSafe.not_allFramesUsed {v : Word} {k w : Bool} (h : AllocFrameSafe D s v k w)
    (hn : s.nframes.toNat ≤ 4096) : ¬ AllFramesUsed s := by
  intro hall
  have haddr := allocFrameAddr_eq s
  rw [firstFreeFrame_of_allUsed hall] at haddr
  have hlt := h.inRange _ haddr
  have hvalue : ((-1 : Word) * pageSize).toNat = 0xFFFFF000 := by decide
  have h4096 : pageSize.toNat = 4096 := by decide
  rw [hvalue, h4096] at hlt
  omega

/-- `alloc_frame` is safe exactly when some frame is not used; `nframes` is 0 before `paging_init`
and 4096 after it. -/
theorem allocFrameSafe_iff (hn : s.nframes = 0 ∨ s.nframes = 4096) (v : Word) (k w : Bool) :
    AllocFrameSafe D s v k w ↔ ¬ AllFramesUsed s := by
  have h4096 : pageSize.toNat = 4096 := by decide
  have hrange : s.nframes.toNat = 0 ∨ s.nframes.toNat = 4096 := by
    rcases hn with hn | hn
    · exact .inl (by rw [hn]; rfl)
    · exact .inr (by rw [hn]; rfl)
  constructor
  · -- The address of frame -1 is out of range.
    exact fun hsafe => hsafe.not_allFramesUsed (by omega)
  · intro hnot
    refine ⟨fun hall => absurd hall hnot, fun p hp => ?_⟩
    rw [allocFrameAddr_eq] at hp
    obtain rfl := Option.some.inj hp
    rcases firstFreeFrame_cases s with ⟨-, hall⟩ | ⟨F, hF, hfirst, -, -⟩
    · -- The words of the bitmap have a bit for every frame.
      exact absurd (fun F hF => hall F (by omega)) hnot
    · rw [hfirst, BitVec.toNat_mul, BitVec.toNat_ofNat, h4096]
      omega

/-! ## How the frames run out -/

/-- Mapping a page does not mark frames. -/
theorem Keeps.marked (hk : Keeps 0x300200 D s s') (hb : FrameBitmap s) (hF : F < 4096) :
    Marked s' F ↔ Marked s F := by
  apply marked_congr
  have hidx : (BitVec.ofNat 32 (F / 32)).toNat < 128 := by
    rw [BitVec.toNat_ofNat]
    omega
  have hslot := toNat_bitmapSlot hidx
  unfold frameWords
  rw [hk.frames, hb.frames]
  exact hk.below _ (by omega) (by omega)

/-- `alloc_frame` marks the frame it maps. -/
theorem marked_allocFrame (hb : FrameBitmap s) (hl : Layout 0x300200 s.mem s.heapCurrent D)
    (hcur : s.currentDirectory ∈ D) (v : Word) (k w : Bool) (hF : F < 4096) :
    Marked (allocFrame s v k w) F ↔ F = frameNo (firstFreeFrame s * pageSize) ∨ Marked s F := by
  obtain ⟨hlset, -⟩ := setFrame_spec hb hl (firstFreeFrame s * pageSize)
  obtain ⟨-, hk, -, -⟩ := mapPage_spec v (firstFreeFrame s * pageSize) (frameFlags k w) hlset
    (by rw [setFrame_currentDirectory]; exact hcur)
  rw [allocFrame_eq, hk.marked (hb.setFrame _) hF]
  apply marked_setFrame
  rw [hb.nframes]
  exact hF

/-- A page that has an entry has a table for it. -/
theorem tableReady_of_pte {v : Word} (h : pte s.mem s.currentDirectory v ≠ 0) : TableReady s v := by
  refine .inl fun h0 => h ?_
  unfold pte
  rw [if_pos h0]

/-- Page 0 can be given one frame after the other. -/
theorem exists_run_marked (n : Nat) (hn : n ≤ 4096) : ∃ tr y, Run AllocBoot AllocStep tr y ∧
    pte y.state.mem y.state.currentDirectory 0 ≠ 0 ∧ ∀ F < n, Marked y.state F := by
  induction n with
  | zero =>
    have hp := afterPagingInit_of_atBoot atBoot_bootState
    refine ⟨[], ⟨pagingInit bootState, []⟩, .start ⟨bootState, atBoot_bootState, rfl⟩, ?_,
      fun F hF => absurd hF (Nat.not_lt_zero F)⟩
    rw [hp.currentDirectory, hp.identity 0 (by decide)]
    decide
  | succ n ih =>
    obtain ⟨tr, ⟨s, o⟩, hrun, hpte, hmarked⟩ := ih (by omega)
    have hinv := allocInv_run hrun
    have hready : TableReady s 0 := tableReady_of_pte hpte
    by_cases hnext : Marked s n
    · -- Frame `n` is taken already.
      refine ⟨tr, ⟨s, o⟩, hrun, hpte, fun F hF => ?_⟩
      rcases Nat.lt_succ_iff_lt_or_eq.mp hF with hlt | rfl
      · exact hmarked F hlt
      · exact hnext
    · -- Frame `n` is the first one that is free.
      have hlt : n < 4096 := by omega
      have hfirst : firstFreeFrame s = BitVec.ofNat 32 n := by
        rcases firstFreeFrame_cases s with ⟨-, hall⟩ | ⟨F, -, hfirst, hnot, hbelow⟩
        · refine absurd (hall n ?_) hnext
          rw [hinv.bitmap.nframes]
          exact hlt
        · rcases Nat.lt_trichotomy F n with hFn | rfl | hFn
          · exact absurd (hmarked F hFn) hnot
          · exact hfirst
          · exact absurd (hbelow n hFn) hnext
      have hF : (BitVec.ofNat 32 n).toNat = n := by
        rw [BitVec.toNat_ofNat]
        omega
      have hframes : firstFreeFrame s ≠ -1 := by
        rw [hfirst]
        intro heq
        have hnat := congrArg BitVec.toNat heq
        rw [hF] at hnat
        simp at hnat
        omega
      have hstep := AllocStep.allocFrame (o := o) (k := true) (w := true) hframes hready
      have heffect := AllocInv.allocFrame hinv 0 true true hframes hready
      have hno : frameNo (firstFreeFrame s * pageSize) = n := by
        unfold frameNo
        rw [hfirst, toNat_frameAddr (by omega), hF, Nat.mul_div_cancel _ (by decide)]
      refine ⟨_, _, .snoc hrun hstep, ?_, fun F hF => ?_⟩
      · have hentry := (heffect.pte 0).trans (if_pos rfl)
        rw [hentry, hfirst]
        intro h0
        have hpres := (allocEntry (F := BitVec.ofNat 32 n) (by omega) true true).1
        rw [h0] at hpres
        exact hpres (by decide)
      · rw [marked_allocFrame hinv.bitmap hinv.layout hinv.current 0 true true (by omega), hno]
        rcases Nat.lt_succ_iff_lt_or_eq.mp hF with hFn | rfl
        · exact .inr (hmarked F hFn)
        · exact .inl rfl

/-- With all frames used, the page is mapped to an address far above the memory there is. -/
theorem allocFrame_exhausted_entry {v : Word} (k w : Bool) (hb : FrameBitmap s)
    (hl : Layout 0x300200 s.mem s.heapCurrent D) (hcur : s.currentDirectory ∈ D)
    (hready : TableReady s v) (hall : AllFramesUsed s) :
    pte (allocFrame s v k w).mem s.currentDirectory v = 0xFFFFF000 ||| frameFlags k w := by
  have hentry := allocFrame_entry v k w hb hl hcur hready
  rw [firstFreeFrame_of_allUsed hall] at hentry
  exact hentry

/-- Before the first `alloc_frame` all frames are free. -/
theorem allocFrameSafe_iff_boot :
    AllocFrameSafe [0x301000] (pagingInit bootState) 0x800000 false true ↔
      ¬ AllFramesUsed (pagingInit bootState) :=
  allocFrameSafe_iff (.inr (afterPagingInit_of_atBoot atBoot_bootState).nframes) 0x800000 false true

/-- After 4096 calls for page 0, the next one maps frame `0xFFFFF`. -/
theorem not_forall_allocFrameSafe : ¬ ∀ (tr : List (AllocSystem × AllocOp)) (y : AllocSystem),
    Run AllocBoot AllocStep tr y → ∀ v k w, AllocFrameSafe [0x301000] y.state v k w := by
  intro hall
  obtain ⟨tr, y, hrun, -, hmarked⟩ := exists_run_marked 4096 (Nat.le_refl _)
  have hn := (allocInv_run hrun).bitmap.nframes
  have hsafe := hall tr y hrun 0 true true
  refine hsafe.not_allFramesUsed (by rw [hn]; decide) ?_
  intro F hF
  rw [hn] at hF
  exact hmarked F hF

end KyroKernel
