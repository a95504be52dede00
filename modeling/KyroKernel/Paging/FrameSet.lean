import KyroKernel.Foundations.BitSet
import KyroKernel.Paging.Basic

/-!
# The frame bitmap as a set

`set_frame` and `clear_frame` insert and erase a frame number, `test_frame` asks for one, and
`first_free_frame` returns the least one that is not in the set. Nothing here depends on where the
bitmap lies.
-/

namespace KyroKernel

open Foundations

/-- The words of the bitmap. -/
def frameWords (s : PagingState) (i : Nat) : Word :=
  s.mem.read32 (framesSlot s.frames (BitVec.ofNat 32 i))

/-- The bit of frame `F` is set. -/
def Marked (s : PagingState) (F : Nat) : Prop := BitSet.Contains (frameWords s) F

/-- The number of the frame of an address. -/
def frameNo (a : Word) : Nat := a.toNat / 4096

variable {s : PagingState} {a word r : Word} {F : Nat}

/-! ## Addresses in the bitmap -/

theorem toNat_frame (a : Word) : (a / pageSize).toNat = frameNo a := by
  have h4096 : pageSize.toNat = 4096 := by decide
  rw [BitVec.toNat_udiv, h4096]
  rfl

theorem toNat_div_32 (f : Word) : (f / 32).toNat = f.toNat / 32 := by
  have h32 : (32 : Word).toNat = 32 := by decide
  rw [BitVec.toNat_udiv, h32]

theorem toNat_mod_32 (f : Word) : (f % 32).toNat = f.toNat % 32 := by
  have h32 : (32 : Word).toNat = 32 := by decide
  rw [BitVec.toNat_umod, h32]

theorem nframes_le_iff (s : PagingState) (a : Word) :
    s.nframes ≤ a / pageSize ↔ s.nframes.toNat ≤ frameNo a := by
  rw [BitVec.le_def, toNat_frame]

/-- Words of the bitmap do not overlap, wherever it lies. -/
theorem framesSlot_apart (frames : Word) {i j : Nat} (hi : i < 2 ^ 27) (hj : j < 2 ^ 27)
    (hne : i ≠ j) : Mem.Apart (framesSlot frames (BitVec.ofNat 32 i)) 4
      (framesSlot frames (BitVec.ofNat 32 j)) 4 := by
  unfold framesSlot
  constructor <;> bv_omega

/-- Storing a word of the bitmap. -/
theorem frameWords_write (s : PagingState) {idx v : Word} (hidx : idx.toNat < 2 ^ 27) {i : Nat}
    (hi : i < 2 ^ 27) :
    frameWords { s with mem := s.mem.write32 (framesSlot s.frames idx) v } i =
      Function.update (frameWords s) idx.toNat v i := by
  have hback : BitVec.ofNat 32 idx.toNat = idx := by rw [BitVec.ofNat_toNat, BitVec.setWidth_eq]
  unfold frameWords
  by_cases hik : i = idx.toNat
  · rw [hik, hback, Function.update_self]
    exact Mem.read32_write32_self ..
  · have hapart := framesSlot_apart s.frames hi hidx hik
    rw [hback] at hapart
    rw [Function.update_of_ne hik]
    exact Mem.read32_write32_apart hapart

/-- Whether a frame is marked depends on its word only. -/
theorem marked_congr {words words' : Nat → Word} (h : words (F / 32) = words' (F / 32)) :
    BitSet.Contains words F ↔ BitSet.Contains words' F := by
  unfold BitSet.Contains
  rw [h]

theorem frameNo_lt (a : Word) : frameNo a / 32 < 2 ^ 27 := by
  have := a.isLt
  unfold frameNo
  omega

theorem bit_eq (a : Word) : (1 : Word) <<< (a / pageSize % 32) = 1#32 <<< (frameNo a % 32) := by
  rw [BitVec.shiftLeft_eq', toNat_mod_32, toNat_frame]
  rfl

/-- The word of a frame, as the functions find it. -/
theorem frameWords_of_frame (s : PagingState) (a : Word) :
    s.mem.read32 (framesSlot s.frames (a / pageSize / 32)) = frameWords s (frameNo a / 32) := by
  have hidx : a / pageSize / 32 = BitVec.ofNat 32 (frameNo a / 32) := by
    rw [← toNat_frame, ← toNat_div_32, BitVec.ofNat_toNat, BitVec.setWidth_eq]
  rw [hidx]
  rfl

/-- Writing the word of a frame in range. -/
theorem marked_write (s : PagingState) (a w : Word) (hF : F < s.nframes.toNat) :
    Marked { s with mem := s.mem.write32 (framesSlot s.frames (a / pageSize / 32)) w } F ↔
      BitSet.Contains (Function.update (frameWords s) (frameNo a / 32) w) F := by
  have hidx : (a / pageSize / 32).toNat = frameNo a / 32 := by
    rw [toNat_div_32, toNat_frame]
  have hlt := frameNo_lt a
  have hF' : F / 32 < 2 ^ 27 := by
    have := s.nframes.isLt
    omega
  unfold Marked
  apply marked_congr
  rw [frameWords_write s (by omega) hF', hidx]

/-! ## The three functions on one frame -/

theorem marked_setFrame (s : PagingState) (a : Word) (hF : F < s.nframes.toNat) :
    Marked (setFrame s a) F ↔ F = frameNo a ∨ Marked s F := by
  unfold setFrame
  by_cases hout : s.nframes ≤ a / pageSize
  · -- A frame out of range is none of the bitmap.
    have hle := (nframes_le_iff s a).mp hout
    simp only [if_pos hout]
    exact (or_iff_right (by omega)).symm
  · simp only [if_neg hout, frameWords_of_frame, bit_eq]
    rw [marked_write s a _ hF]
    exact BitSet.contains_insert (by decide : 0 < 32)

theorem marked_clearFrame (s : PagingState) (a : Word) (hF : F < s.nframes.toNat) :
    Marked (clearFrame s a) F ↔ F ≠ frameNo a ∧ Marked s F := by
  unfold clearFrame
  by_cases hout : s.nframes ≤ a / pageSize
  · have hle := (nframes_le_iff s a).mp hout
    simp only [if_pos hout]
    exact (and_iff_right (by omega)).symm
  · simp only [if_neg hout, frameWords_of_frame, bit_eq]
    rw [marked_write s a _ hF]
    exact BitSet.contains_erase (by decide : 0 < 32)

theorem testFrame_ne_zero_iff (s : PagingState) (a : Word) :
    testFrame s a ≠ 0 ↔ s.nframes.toNat ≤ frameNo a ∨ Marked s (frameNo a) := by
  unfold testFrame
  by_cases hout : s.nframes ≤ a / pageSize
  · simp only [if_pos hout]
    exact ⟨fun _ => .inl ((nframes_le_iff s a).mp hout), fun _ => by decide⟩
  · have hlt : ¬ s.nframes.toNat ≤ frameNo a := fun hle => hout ((nframes_le_iff s a).mpr hle)
    have hmod : frameNo a % 32 < 32 := Nat.mod_lt _ (by decide)
    simp only [if_neg hout, frameWords_of_frame, bit_eq]
    rw [or_iff_right hlt]
    exact (not_congr (BitSet.and_bit_eq_zero hmod)).trans (Bool.not_eq_false _).to_iff

/-! ## `first_free_frame` -/

/-- The inner loop finds nothing in a full word. -/
theorem firstFreeInWord_eq_none {i : Nat} (h : firstFreeInWord word i = none) :
    ∀ j < 32, word.getLsbD j = true := by
  have hones : ∀ j < 32, (0xFFFFFFFF : Word).getLsbD j = true := by decide
  unfold firstFreeInWord at h
  split_ifs at h with hne
  · intro j hj
    rw [List.findSome?_eq_none_iff] at h
    have hbit := h j (List.mem_range.mpr hj)
    -- The bit did not look clear.
    by_contra hclear
    have hzero : word &&& (1 : Word) <<< j = 0 :=
      (BitSet.and_bit_eq_zero hj).mpr (Bool.not_eq_true _ ▸ hclear)
    rw [if_pos hzero] at hbit
    cases hbit
  · rw [not_not.mp hne]
    exact hones

/-- What the inner loop finds is the first clear bit. -/
theorem firstFreeInWord_eq_some {i : Nat} (h : firstFreeInWord word i = some r) :
    ∃ j < 32, r = BitVec.ofNat 32 (i * 32 + j) ∧ word.getLsbD j = false ∧
      ∀ j' < j, word.getLsbD j' = true := by
  unfold firstFreeInWord at h
  split_ifs at h
  obtain ⟨j, hj, hfound, hbefore⟩ := BitSet.findSome?_range_eq_some.mp h
  split_ifs at hfound with hclear
  refine ⟨j, hj, (Option.some.inj hfound).symm, (BitSet.and_bit_eq_zero hj).mp hclear, ?_⟩
  intro j' hj'
  have hnone := hbefore j' hj'
  split_ifs at hnone with hset
  have hbit : ¬ word.getLsbD j' = false := fun hfalse =>
    hset ((BitSet.and_bit_eq_zero (by omega)).mpr hfalse)
  exact Bool.not_eq_false _ ▸ hbit

/-- `first_free_frame` returns the least frame of its words that is not marked, or -1 when all
are. -/
theorem firstFreeFrame_cases (s : PagingState) :
    (firstFreeFrame s = -1 ∧ ∀ F < s.nframes.toNat / 32 * 32, Marked s F) ∨
    ∃ F < s.nframes.toNat / 32 * 32, firstFreeFrame s = BitVec.ofNat 32 F ∧ ¬ Marked s F ∧
      ∀ G < F, Marked s G := by
  unfold firstFreeFrame
  rw [toNat_div_32]
  generalize hfound : (List.range (s.nframes.toNat / 32)).findSome? (fun i =>
    firstFreeInWord (s.mem.read32 (framesSlot s.frames (BitVec.ofNat 32 i))) i) = found
  cases found with
  | none =>
    -- Every word is full.
    rw [List.findSome?_eq_none_iff] at hfound
    refine .inl ⟨rfl, fun F hF => ?_⟩
    have hword := hfound (F / 32) (List.mem_range.mpr (by omega))
    exact BitSet.contains_of_full (by decide) (firstFreeInWord_eq_none hword) rfl
  | some r =>
    obtain ⟨i, hi, hword, hbefore⟩ := BitSet.findSome?_range_eq_some.mp hfound
    obtain ⟨j, hj, rfl, hclear, hset⟩ := firstFreeInWord_eq_some hword
    have hfull : ∀ i' < i, ∀ j' < 32, (frameWords s i').getLsbD j' = true :=
      fun i' hi' => firstFreeInWord_eq_none (hbefore i' hi')
    obtain ⟨hnot, hbelow⟩ := BitSet.least_not_contains hj hfull hclear hset
    exact .inr ⟨i * 32 + j, by omega, rfl, hnot, hbelow⟩

/-! ## Calls one after the other -/

/-- The calls that change the bitmap. -/
inductive FrameCall where
  | setFrame (frameAddr : Word)
  | clearFrame (frameAddr : Word)

/-- The frame a call is about. -/
def FrameCall.frame : FrameCall → Nat
  | .setFrame frameAddr => frameNo frameAddr
  | .clearFrame frameAddr => frameNo frameAddr

def FrameCall.exec (s : PagingState) : FrameCall → PagingState
  | .setFrame frameAddr => KyroKernel.setFrame s frameAddr
  | .clearFrame frameAddr => KyroKernel.clearFrame s frameAddr

/-- The state after calls, latest first. -/
def afterCalls (s : PagingState) : List FrameCall → PagingState
  | [] => s
  | c :: earlier => c.exec (afterCalls s earlier)

/-- The latest call on frame `F`, if there is one, was `set_frame`. -/
def latestIsSet : List FrameCall → Nat → Bool
  | [], _ => false
  | .setFrame a :: earlier, F => if F = frameNo a then true else latestIsSet earlier F
  | .clearFrame a :: earlier, F => if F = frameNo a then false else latestIsSet earlier F

/-- The bitmap has just been cleared for the 4096 frames of 16 MB. -/
structure ClearedBitmap (s : PagingState) : Prop where
  nframes : s.nframes = 4096
  clear : ∀ i < 128, frameWords s i = 0

/-- What the callers of the bitmap functions see after the calls `calls`. -/
structure IsFrameSet (s : PagingState) (calls : List FrameCall) : Prop where
  testFrame : ∀ a, KyroKernel.testFrame s a ≠ 0 ↔
    4096 ≤ frameNo a ∨ latestIsSet calls (frameNo a) = true
  others : ∀ (c : FrameCall) (a : Word), frameNo a ≠ c.frame →
    KyroKernel.testFrame (c.exec s) a = KyroKernel.testFrame s a
  firstFree : ∀ F < 4096, firstFreeFrame s = BitVec.ofNat 32 F ↔
    latestIsSet calls F = false ∧ ∀ G < F, latestIsSet calls G = true
  noneFree : firstFreeFrame s = 0xFFFFFFFF ↔ ∀ F < 4096, latestIsSet calls F = true

theorem exec_nframes (s : PagingState) (c : FrameCall) : (c.exec s).nframes = s.nframes := by
  cases c with
  | setFrame a =>
    unfold FrameCall.exec setFrame
    dsimp only
    split_ifs <;> rfl
  | clearFrame a =>
    unfold FrameCall.exec clearFrame
    dsimp only
    split_ifs <;> rfl

theorem afterCalls_nframes (s : PagingState) (calls : List FrameCall) :
    (afterCalls s calls).nframes = s.nframes := by
  induction calls with
  | nil => rfl
  | cons c earlier ih => exact (exec_nframes _ c).trans ih

/-- After any calls the marked frames are those whose latest call was `set_frame`. -/
theorem marked_afterCalls (h : ClearedBitmap s) (calls : List FrameCall) (hF : F < 4096) :
    Marked (afterCalls s calls) F ↔ latestIsSet calls F = true := by
  induction calls with
  | nil =>
    -- No frame is marked at first.
    have hword := h.clear (F / 32) (by omega)
    unfold Marked BitSet.Contains
    rw [afterCalls, hword]
    simp [latestIsSet]
  | cons c earlier ih =>
    have hrange : F < (afterCalls s earlier).nframes.toNat := by
      rw [afterCalls_nframes, h.nframes]
      exact hF
    cases c with
    | setFrame a =>
      rw [afterCalls, FrameCall.exec, marked_setFrame _ a hrange, ih, latestIsSet]
      by_cases hFa : F = frameNo a <;> simp [hFa]
    | clearFrame a =>
      rw [afterCalls, FrameCall.exec, marked_clearFrame _ a hrange, ih, latestIsSet]
      by_cases hFa : F = frameNo a <;> simp [hFa]

/-- A call on one frame leaves the word of another as it is, or the bits of another in it. -/
theorem testFrame_exec_of_ne (s : PagingState) {c : FrameCall} (h : frameNo a ≠ c.frame) :
    testFrame (c.exec s) a = testFrame s a := by
  unfold testFrame
  rw [exec_nframes]
  by_cases hout : s.nframes ≤ a / pageSize
  · simp only [if_pos hout]
  · have hrange : frameNo a < s.nframes.toNat :=
      Nat.lt_of_not_le fun hle => hout ((nframes_le_iff s a).mpr hle)
    simp only [if_neg hout]
    -- Both masks leave one bit, and that bit is the same.
    have hmod : frameNo a % 32 < 32 := Nat.mod_lt _ (by decide)
    have hmarked : Marked (c.exec s) (frameNo a) ↔ Marked s (frameNo a) := by
      cases c with
      | setFrame b => exact (marked_setFrame s b hrange).trans (or_iff_right h)
      | clearFrame b => exact (marked_clearFrame s b hrange).trans (and_iff_right h)
    rw [frameWords_of_frame, frameWords_of_frame, bit_eq, ← BitVec.twoPow_eq, BitVec.and_twoPow,
      BitVec.and_twoPow]
    unfold Marked BitSet.Contains at hmarked
    simp only [hmarked]

/-- After the bitmap was cleared and any calls of `set_frame` and `clear_frame`, it is the set of
the frames whose latest call was `set_frame`. -/
theorem isFrameSet_afterCalls (h : ClearedBitmap s) (calls : List FrameCall) :
    IsFrameSet (afterCalls s calls) calls := by
  have hn : (afterCalls s calls).nframes.toNat = 4096 := by
    rw [afterCalls_nframes, h.nframes]
    rfl
  have hmarked : ∀ F < 4096, Marked (afterCalls s calls) F ↔ latestIsSet calls F = true :=
    fun F hF => marked_afterCalls h calls hF
  have hcases := firstFreeFrame_cases (afterCalls s calls)
  rw [hn] at hcases
  -- The search ends with -1 or with a frame number, never with both.
  have hne : ∀ F < 4096, BitVec.ofNat 32 F ≠ (-1 : Word) := by
    intro F hF heq
    have hnat := congrArg BitVec.toNat heq
    simp at hnat
    omega
  refine ⟨fun a => ?_, fun c a hac => testFrame_exec_of_ne _ hac, fun F hF => ?_, ?_⟩
  · rw [testFrame_ne_zero_iff, hn]
    by_cases hout : 4096 ≤ frameNo a
    · simp [hout]
    · rw [or_iff_right hout, or_iff_right hout, hmarked _ (by omega)]
  · rcases hcases with ⟨hnone, hall⟩ | ⟨G, hG, hfirst, hnot, hbelow⟩
    · rw [hnone]
      constructor
      · exact fun heq => absurd heq.symm (hne F hF)
      · rintro ⟨hclear, -⟩
        rw [(hmarked F hF).mp (hall F hF)] at hclear
        cases hclear
    · rw [hfirst]
      constructor
      · intro heq
        have hGF : G = F := by
          have hnat := congrArg BitVec.toNat heq
          simp at hnat
          omega
        subst hGF
        refine ⟨Bool.not_eq_true _ ▸ mt (hmarked G hF).mpr hnot, fun K hK => ?_⟩
        exact (hmarked K (by omega)).mp (hbelow K hK)
      · rintro ⟨hclear, hset⟩
        -- Two least frames are the same.
        rcases Nat.lt_trichotomy G F with hlt | rfl | hlt
        · exact absurd ((hmarked G hG).mpr (hset G hlt)) hnot
        · rfl
        · have hmem := (hmarked F hF).mp (hbelow F hlt)
          rw [hclear] at hmem
          cases hmem
  · rcases hcases with ⟨hnone, hall⟩ | ⟨G, hG, hfirst, hnot, -⟩
    · rw [hnone]
      exact ⟨fun _ F hF => (hmarked F hF).mp (hall F hF), fun _ => rfl⟩
    · rw [hfirst]
      constructor
      · exact fun heq => absurd heq (hne G hG)
      · exact fun hall => absurd ((hmarked G hG).mpr (hall G hG)) hnot

/-- `paging_init` clears the bitmap, wherever the heap puts it. -/
theorem clearedBitmap_pagingInitBitmap (s : PagingState) : ClearedBitmap (pagingInitBitmap s) := by
  have hcount : (0x1000000 / pageSize : Word) = 4096 := by decide
  have hsize : (4096 / 8 : Word).toNat = 512 := by decide
  rcases hk : kmalloc s.heapCurrent (4096 / 8) with ⟨frames, heapCurrent⟩
  have heq : pagingInitBitmap s = { s with
      mem := s.mem.fill frames 0 512, heapCurrent := heapCurrent, frames := frames
      nframes := 4096 } := by
    unfold pagingInitBitmap
    simp only [hcount, hk, hsize]
  rw [heq]
  refine ⟨rfl, fun i hi => Mem.read32_fill_zero (by decide) ?_⟩
  unfold framesSlot
  rw [Mem.offset_add]
  bv_omega

/-- Frame 31, whose bit is the highest of its word, and an address out of range. -/
theorem isFrameSet_afterCalls_zero :
    IsFrameSet
      (afterCalls (pagingInitBitmap ⟨fun _ => 0, heapStart, 0, 0, 0, 0, 0, 0⟩)
        [.setFrame 0xFFFFFFFF, .setFrame 0x1FFFF])
      [.setFrame 0xFFFFFFFF, .setFrame 0x1FFFF] :=
  isFrameSet_afterCalls (clearedBitmap_pagingInitBitmap _) _

end KyroKernel
