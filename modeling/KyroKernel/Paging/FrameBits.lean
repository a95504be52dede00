import KyroKernel.Paging.FrameSet
import KyroKernel.Paging.Frames

/-!
# The bits of the frame bitmap

What `set_frame` does to the bits that `test_frame` reads, and where `first_free_frame` finds a
clear one, for the bitmap that `paging_init` makes.
-/

namespace KyroKernel

open Foundations

variable {D : List Word} {s s' : PagingState} {F G : Word}

/-- The number of a frame of the bitmap is read back from its address. -/
theorem frameNumber (h : F.toNat < 4096) : F * pageSize / pageSize = F := by
  have h4096 : pageSize.toNat = 4096 := by decide
  apply BitVec.eq_of_toNat_eq
  rw [BitVec.toNat_udiv, BitVec.toNat_mul, h4096]
  omega

theorem toNat_frameAddr (h : F.toNat < 4096) : (F * pageSize).toNat = F.toNat * 4096 := by
  have h4096 : pageSize.toNat = 4096 := by decide
  rw [BitVec.toNat_mul, h4096]
  omega

/-- Different frames of the bitmap have different addresses. -/
theorem frameAddr_inj (hF : F.toNat < 4096) (hG : G.toNat < 4096)
    (h : F * pageSize = G * pageSize) : F = G := by
  rw [← frameNumber hF, h, frameNumber hG]

/-- The word of the bitmap that has the bit of the frame. -/
def bitmapWord (s : PagingState) (F : Word) : Word :=
  s.mem.read32 (framesSlot s.frames (F / 32))

theorem toNat_bitmapIndex (h : F.toNat < 4096) : (F / 32).toNat < 128 := by
  have h32 : (32 : Word).toNat = 32 := by decide
  rw [BitVec.toNat_udiv, h32]
  omega

theorem FrameBitmap.not_out_of_range (hb : FrameBitmap s) (h : F.toNat < 4096) :
    ¬ s.nframes ≤ F := by
  have h4096 : (4096 : Word).toNat = 4096 := by decide
  rw [hb.nframes, BitVec.le_def, h4096]
  omega

theorem testFrame_eq (hb : FrameBitmap s) (h : F.toNat < 4096) :
    testFrame s (F * pageSize) = bitmapWord s F &&& (1 : Word) <<< (F % 32) := by
  unfold testFrame bitmapWord
  simp only [frameNumber h, if_neg (hb.not_out_of_range h)]

/-- `test_frame` reads nothing but the bitmap. -/
theorem testFrame_congr (hb : FrameBitmap s) (hb' : FrameBitmap s') (h : F.toNat < 4096)
    (hread : ∀ x : Word, 0x300000 ≤ x.toNat → x.toNat + 4 ≤ 0x300200 →
      s'.mem.read32 x = s.mem.read32 x) :
    testFrame s' (F * pageSize) = testFrame s (F * pageSize) := by
  have hidx := toNat_bitmapIndex h
  have hslot := toNat_bitmapSlot hidx
  rw [testFrame_eq hb h, testFrame_eq hb' h, bitmapWord, bitmapWord, hb.frames, hb'.frames,
    hread _ (by omega) (by omega)]

/-- A frame of the bitmap is tested by its number. -/
theorem testFrame_frame_iff (hb : FrameBitmap s) (h : F.toNat < 4096) :
    testFrame s (F * pageSize) ≠ 0 ↔ Marked s F.toNat := by
  have hno : frameNo (F * pageSize) = F.toNat := by
    rw [← toNat_frame, frameNumber h]
  have hin : ¬ s.nframes.toNat ≤ F.toNat := fun hle => hb.not_out_of_range h hle
  rw [testFrame_ne_zero_iff, hno]
  exact or_iff_right hin

theorem marked_setFrame_frame (hb : FrameBitmap s) (hF : F.toNat < 4096) (hG : G.toNat < 4096) :
    Marked (setFrame s (F * pageSize)) G.toNat ↔ G.toNat = F.toNat ∨ Marked s G.toNat := by
  have hno : frameNo (F * pageSize) = F.toNat := by
    rw [← toNat_frame, frameNumber hF]
  have hin : G.toNat < s.nframes.toNat := Nat.not_le.mp fun hle => hb.not_out_of_range hG hle
  rw [marked_setFrame s _ hin, hno]

theorem testFrame_setFrame_self (hb : FrameBitmap s) (h : F.toNat < 4096) :
    testFrame (setFrame s (F * pageSize)) (F * pageSize) ≠ 0 := by
  apply (testFrame_frame_iff (hb.setFrame _) h).mpr
  exact (marked_setFrame_frame hb h h).mpr (.inl rfl)

/-- `set_frame` clears no bit. -/
theorem testFrame_setFrame (hb : FrameBitmap s) (hF : F.toNat < 4096) (hG : G.toNat < 4096)
    (hset : testFrame s (G * pageSize) ≠ 0) :
    testFrame (setFrame s (F * pageSize)) (G * pageSize) ≠ 0 := by
  apply (testFrame_frame_iff (hb.setFrame _) hG).mpr
  apply (marked_setFrame_frame hb hF hG).mpr
  exact .inr ((testFrame_frame_iff hb hG).mp hset)

/-! ## `first_free_frame` -/

/-- Unless all frames are taken, `first_free_frame` returns a frame of the bitmap whose bit is
clear. -/
theorem firstFreeFrame_spec (hb : FrameBitmap s) (hne : firstFreeFrame s ≠ -1) :
    (firstFreeFrame s).toNat < 4096 ∧ testFrame s (firstFreeFrame s * pageSize) = 0 := by
  have hn : s.nframes.toNat / 32 * 32 = 4096 := by
    rw [hb.nframes]
    rfl
  rcases firstFreeFrame_cases s with ⟨hnone, -⟩ | ⟨F, hF, heq, hclear, -⟩
  · exact absurd hnone hne
  · have hno : (firstFreeFrame s).toNat = F := by
      rw [heq, BitVec.toNat_ofNat]
      omega
    have hlt : (firstFreeFrame s).toNat < 4096 := by omega
    refine ⟨hlt, ?_⟩
    by_contra hset
    have hmarked := (testFrame_frame_iff hb hlt).mp hset
    rw [hno] at hmarked
    exact hclear hmarked

end KyroKernel
