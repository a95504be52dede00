import KyroKernel.Paging.Init

/-!
# The frame bitmap and `alloc_frame`

`paging_init` puts the bitmap right below the directories and clears it. `set_frame` writes
inside it only, so `alloc_frame` changes the page tables the way `map_page` does: in the
current directory and nowhere else.
-/

namespace KyroKernel

open Foundations

variable {D : List Word} {s s' : PagingState}

/-- The bitmap that `paging_init` makes at boot: 512 bytes at 3 MB, for 4096 frames. -/
structure FrameBitmap (s : PagingState) : Prop where
  frames : s.frames = 0x300000
  nframes : s.nframes = 4096

theorem Keeps.frameBitmap {lo : Nat} (hk : Keeps lo D s s') (h : FrameBitmap s) :
    FrameBitmap s' :=
  ⟨hk.frames.trans h.frames, hk.nframes.trans h.nframes⟩

/-! ## `set_frame` and `first_free_frame` -/

theorem setFrame_globals (s : PagingState) (a : Word) :
    setFrame s a = { s with mem := (setFrame s a).mem } := by
  unfold setFrame
  by_cases hout : s.nframes ≤ a / pageSize
  · simp only [if_pos hout]
  · simp only [if_neg hout]

@[simp] theorem setFrame_currentDirectory (s : PagingState) (a : Word) :
    (setFrame s a).currentDirectory = s.currentDirectory := by rw [setFrame_globals]

@[simp] theorem setFrame_heapCurrent (s : PagingState) (a : Word) :
    (setFrame s a).heapCurrent = s.heapCurrent := by rw [setFrame_globals]

theorem FrameBitmap.setFrame (h : FrameBitmap s) (a : Word) :
    FrameBitmap (KyroKernel.setFrame s a) := by
  rw [setFrame_globals]
  exact ⟨h.frames, h.nframes⟩

theorem clearFrame_globals (s : PagingState) (a : Word) :
    clearFrame s a = { s with mem := (clearFrame s a).mem } := by
  unfold clearFrame
  by_cases hout : s.nframes ≤ a / pageSize
  · simp only [if_pos hout]
  · simp only [if_neg hout]

/-- The word of a frame in range lies in the bitmap. -/
theorem FrameBitmap.write_read32 (h : FrameBitmap s) {frame v x : Word}
    (hrange : ¬ s.nframes ≤ frame) (hx : x.toNat + 4 ≤ 2 ^ 32)
    (hout : x.toNat + 4 ≤ 0x300000 ∨ 0x300200 ≤ x.toNat) :
    (s.mem.write32 (framesSlot s.frames (frame / 32)) v).read32 x = s.mem.read32 x := by
  -- The frame is one of 4096, so its word is one of the 128 of the bitmap.
  have hframe : frame.toNat < 4096 := by
    rw [h.nframes, BitVec.le_def] at hrange
    exact Nat.lt_of_not_le hrange
  have hidx : (frame / 32).toNat < 128 := by
    have h32 : (32 : Word).toNat = 32 := by decide
    rw [BitVec.toNat_udiv, h32]
    omega
  have hslot := toNat_bitmapSlot hidx
  rw [h.frames]
  exact read32_write32_clear (by unfold Clear; omega) hx (by omega)

/-- `set_frame` changes no word outside the bitmap. -/
theorem setFrame_read32 (h : FrameBitmap s) (a : Word) {x : Word} (hx : x.toNat + 4 ≤ 2 ^ 32)
    (hout : x.toNat + 4 ≤ 0x300000 ∨ 0x300200 ≤ x.toNat) :
    (setFrame s a).mem.read32 x = s.mem.read32 x := by
  unfold setFrame
  by_cases hrange : s.nframes ≤ a / pageSize
  · simp only [if_pos hrange]
  · simp only [if_neg hrange]
    exact h.write_read32 hrange hx hout

/-- Neither does `clear_frame`. -/
theorem clearFrame_read32 (h : FrameBitmap s) (a : Word) {x : Word} (hx : x.toNat + 4 ≤ 2 ^ 32)
    (hout : x.toNat + 4 ≤ 0x300000 ∨ 0x300200 ≤ x.toNat) :
    (clearFrame s a).mem.read32 x = s.mem.read32 x := by
  unfold clearFrame
  by_cases hrange : s.nframes ≤ a / pageSize
  · simp only [if_pos hrange]
  · simp only [if_neg hrange]
    exact h.write_read32 hrange hx hout

/-- `set_frame` moves no table and changes no entry. -/
theorem setFrame_spec (h : FrameBitmap s) (hl : Layout 0x300200 s.mem s.heapCurrent D) (a : Word) :
    Layout 0x300200 (setFrame s a).mem (setFrame s a).heapCurrent D ∧
    SameEntries D s.mem (setFrame s a).mem := by
  -- The bitmap ends where the directories and tables start.
  have hle := hl.heap_le
  have hsame : SameEntries D s.mem (setFrame s a).mem := hl.sameEntries fun x hx hx' =>
    setFrame_read32 h a (by omega) (.inr hx)
  rw [setFrame_heapCurrent]
  exact ⟨hl.frame (Nat.le_refl _) hl.heap_le hsame.tables, hsame⟩

theorem FrameBitmap.clearFrame (h : FrameBitmap s) (a : Word) :
    FrameBitmap (KyroKernel.clearFrame s a) := by
  rw [clearFrame_globals]
  exact ⟨h.frames, h.nframes⟩

/-- Neither does `clear_frame`. -/
theorem clearFrame_spec (h : FrameBitmap s) (hl : Layout 0x300200 s.mem s.heapCurrent D) (a : Word) :
    Layout 0x300200 (clearFrame s a).mem (clearFrame s a).heapCurrent D ∧
    SameEntries D s.mem (clearFrame s a).mem := by
  have hle := hl.heap_le
  have hsame : SameEntries D s.mem (clearFrame s a).mem := hl.sameEntries fun x hx hx' =>
    clearFrame_read32 h a (by omega) (.inr hx)
  have hheap : (clearFrame s a).heapCurrent = s.heapCurrent := by rw [clearFrame_globals]
  rw [hheap]
  exact ⟨hl.frame (Nat.le_refl _) hl.heap_le hsame.tables, hsame⟩

/-- While the first word of the bitmap is clear, the first free frame is frame 0. -/
theorem firstFreeFrame_eq_zero (h : FrameBitmap s) (hclear : s.mem.read32 0x300000 = 0) :
    firstFreeFrame s = 0 := by
  have hwords : (s.nframes / 32).toNat = 127 + 1 := by
    rw [h.nframes]
    decide
  have hslot : framesSlot s.frames (BitVec.ofNat 32 0) = 0x300000 := by
    rw [h.frames]
    decide
  have hword : firstFreeInWord 0 0 = some 0 := by decide
  -- The outer loop ends in its first round.
  have hfirst : ∀ (f : Nat → Option Word) (n : Nat), f 0 = some 0 →
      (List.range (n + 1)).findSome? f = some 0 := by
    intro f n hf
    rw [List.range_succ_eq_map, List.findSome?_cons, hf]
  unfold firstFreeFrame
  rw [hwords, hfirst _ _ (by rw [hslot, hclear, hword])]
  rfl

/-! ## `alloc_frame` -/

/-- The flags that `alloc_frame` maps a frame with. -/
def frameFlags (isKernel isWritable : Bool) : Word :=
  let flags := pagePresent
  let flags := if isWritable then flags ||| pageWritable else flags
  if !isKernel then flags ||| pageUser else flags

/-- A multiple of the page size is never -1, so the out-of-memory test of `alloc_frame`
never succeeds. -/
theorem mul_pageSize_ne (frame : Word) : frame * pageSize ≠ -1 := by
  have h4096 : pageSize.toNat = 4096 := by decide
  have hmax : (-1 : Word).toNat = 4294967295 := by decide
  intro h
  have hnat := congrArg BitVec.toNat h
  rw [BitVec.toNat_mul, h4096, hmax] at hnat
  omega

/-- `alloc_frame` always marks a frame and maps it. -/
theorem allocFrame_eq (s : PagingState) (v : Word) (k w : Bool) :
    allocFrame s v k w = mapPage (setFrame s (firstFreeFrame s * pageSize)) v
      (firstFreeFrame s * pageSize) (frameFlags k w) :=
  if_neg (mul_pageSize_ne _)

theorem mapPage_frames (s : PagingState) (v p f : Word) :
    (mapPage s v p f).frames = s.frames ∧ (mapPage s v p f).nframes = s.nframes := by
  by_cases ht : tables s.mem s.currentDirectory (dirIndex v) = 0
  · rw [mapPage_newTable p f ht, newPageTable_globals]
    exact ⟨rfl, rfl⟩
  · rw [mapPage_oldTable p f ht]
    exact ⟨rfl, rfl⟩

theorem FrameBitmap.allocFrame (h : FrameBitmap s) (v : Word) (k w : Bool) :
    FrameBitmap (KyroKernel.allocFrame s v k w) := by
  rw [allocFrame_eq]
  have hset := h.setFrame (firstFreeFrame s * pageSize)
  obtain ⟨hframes, hnframes⟩ := mapPage_frames
    (KyroKernel.setFrame s (firstFreeFrame s * pageSize)) v (firstFreeFrame s * pageSize)
    (frameFlags k w)
  exact ⟨hframes.trans hset.frames, hnframes.trans hset.nframes⟩

/-- `alloc_frame` keeps the layout and changes entries of the current directory only. -/
theorem allocFrame_spec (v : Word) (k w : Bool) (h : FrameBitmap s)
    (hl : Layout 0x300200 s.mem s.heapCurrent D) (hcur : s.currentDirectory ∈ D) :
    Layout 0x300200 (allocFrame s v k w).mem (allocFrame s v k w).heapCurrent D ∧
    ∀ d ∈ D, d ≠ s.currentDirectory → ∀ a, pte (allocFrame s v k w).mem d a = pte s.mem d a := by
  rw [allocFrame_eq]
  generalize firstFreeFrame s * pageSize = frame
  obtain ⟨hl', hsame⟩ := setFrame_spec h hl frame
  obtain ⟨hl'', hk, hready, hnot⟩ :=
    mapPage_spec v frame (frameFlags k w) hl' (by rw [setFrame_currentDirectory]; exact hcur)
  refine ⟨hl'', fun d hd hne a => ?_⟩
  rw [← hsame.pte hd a]
  -- With or without a table for it, the entry is not one of `d`.
  by_cases hr : TableReady (setFrame s frame) v
  · rw [hready hr d hd a, setFrame_currentDirectory, if_neg fun hh => hne hh.1]
  · exact hnot hr d hd a

/-- Where the frame that `alloc_frame` chooses goes. -/
theorem allocFrame_entry (v : Word) (k w : Bool) (h : FrameBitmap s)
    (hl : Layout 0x300200 s.mem s.heapCurrent D) (hcur : s.currentDirectory ∈ D)
    (hready : TableReady s v) : pte (allocFrame s v k w).mem s.currentDirectory v =
      frameOf (firstFreeFrame s * pageSize) ||| frameFlags k w := by
  rw [allocFrame_eq]
  generalize firstFreeFrame s * pageSize = frame
  obtain ⟨hl', hsame⟩ := setFrame_spec h hl frame
  have hready' : TableReady (setFrame s frame) v := by
    unfold TableReady at hready ⊢
    rw [setFrame_currentDirectory, setFrame_heapCurrent, hsame.tables _ hcur _ (dirIndex_lt v)]
    exact hready
  obtain ⟨-, -, hmap, -⟩ :=
    mapPage_spec v frame (frameFlags k w) hl' (by rw [setFrame_currentDirectory]; exact hcur)
  rw [hmap hready' _ hcur v, setFrame_currentDirectory, if_pos ⟨rfl, rfl⟩]

/-! ## Low memory

When the heap is exhausted, pointers are NULL and the functions write into the first 8196
bytes, where no directory and no table lies. -/

/-- A table that could not be allocated is the zeroed first page of memory. -/
theorem newPageTable_low {i f hc' x : Word}
    (hk : kmallocA s.heapCurrent (BitVec.ofNat 32 sizeofPageTable) = (0, hc'))
    (hi : i.toNat < 1024) (hdir : s.currentDirectory.toNat + 8196 ≤ 2 ^ 32)
    (hx : x.toNat + 4 ≤ 4096) : (newPageTable s i f).mem.read32 x = 0 := by
  have h2 := toNat_tablesPhysicalSlot (d := s.currentDirectory) (i := i) (by omega)
  have hclear : Clear x 4 (tablesPhysicalSlot s.currentDirectory i) 4 := .inl (by omega)
  rw [newPageTable_of_alloc hk]
  simp only [tables, Mem.read32_write32_self, sizeofPageTable]
  have hzero : ∀ m : Mem, (m.fill 0 0 4096).read32 x = 0 := fun m =>
    read32_fill_inside (by simp) (by simpa using hx) (by decide)
  split_ifs
  · rw [read32_write32_clear hclear (by omega) (by omega),
      read32_write32_clear hclear (by omega) (by omega), hzero]
  · rw [read32_write32_clear hclear (by omega) (by omega), hzero]

/-- `map_page` leaves a zero word of the first page alone that lies below the entry which
it would write there. -/
theorem mapPage_low {lo : Nat} (v p f : Word) {x : Word} (h : Layout lo s.mem s.heapCurrent D)
    (hcur : s.currentDirectory ∈ D) (hx : x.toNat + 4 ≤ 4 * (tableIndex v).toNat)
    (h0 : s.mem.read32 x = 0) : (mapPage s v p f).mem.read32 x = 0 := by
  have hj := tableIndex_lt v
  have hcb := h.dir_bound hcur
  -- The entry is written at or above `4 * tableIndex v`, whatever the table.
  have hwrite : ∀ t : PagingState, t.mem.read32 x = 0 →
      (tables t.mem t.currentDirectory (dirIndex v)).toNat + 4096 ≤ 2 ^ 32 →
      (setPage t (dirIndex v) (tableIndex v) (frameOf p ||| f)).mem.read32 x = 0 := by
    intro t ht hbound
    have hslot := toNat_pagesSlot (t := tables t.mem t.currentDirectory (dirIndex v))
      (j := tableIndex v) (by omega)
    rw [setPage_read32 (by omega) (by omega) (.inl (by omega)), ht]
  by_cases ht : tables s.mem s.currentDirectory (dirIndex v) = 0
  · rw [mapPage_newTable p f ht]
    obtain ⟨t, hc', hn⟩ := exists_newTable s h.heap_le
    have hcur' : (newPageTable s (dirIndex v) f).currentDirectory = s.currentDirectory :=
      (hn.keeps (f := f) h hcur (dirIndex_lt v)).currentDirectory
    have hself := (hn.self (f := f) h hcur (dirIndex_lt v)).1
    refine hwrite _ ?_ (by rw [hcur', hself]; exact hn.bound)
    have h1 := toNat_tablesSlot (d := s.currentDirectory) (i := dirIndex v)
      (by have := dirIndex_lt v; omega)
    have h2 := toNat_tablesPhysicalSlot (d := s.currentDirectory) (i := dirIndex v)
      (by have := dirIndex_lt v; omega)
    rcases hn.fresh_or_null with ⟨-, hge, -⟩ | rfl
    · -- A table in the heap: low memory is not touched.
      have hlow := h.low
      have hlo := h.lo_le
      rw [newPageTable_read32 hn.alloc (dirIndex_lt v) (by omega) hn.bound (by omega)
        (.inl (by omega)) (.inl (by omega)) (.inl (by omega)), h0]
    · exact newPageTable_low hn.alloc (dirIndex_lt v) (by omega) (by omega)
  · rw [mapPage_oldTable p f ht]
    have htb := h.table_bound hcur (dirIndex_lt v) ht
    exact hwrite s h0 (by omega)

/-- While a real directory is current, `map_page` leaves the words between the first page and
the directories alone. -/
theorem mapPage_between {lo : Nat} (v p f : Word) {x : Word} (h : Layout lo s.mem s.heapCurrent D)
    (hcur : s.currentDirectory ∈ D) (hx : 4096 ≤ x.toNat) (hxlo : x.toNat + 4 ≤ lo) :
    (mapPage s v p f).mem.read32 x = s.mem.read32 x := by
  have hi := dirIndex_lt v
  have hj := tableIndex_lt v
  have hcb := h.dir_bound hcur
  have hclo := (h.dir _ hcur).lower
  have hlo := h.lo_le
  have hle := h.heap_le
  have hnull : (0 : Word).toNat = 0 := rfl
  -- The entry goes into a table above, or through NULL into the first page.
  have hwrite : ∀ t : PagingState, t.mem.read32 x = s.mem.read32 x →
      (tables t.mem t.currentDirectory (dirIndex v) = 0 ∨
        lo ≤ (tables t.mem t.currentDirectory (dirIndex v)).toNat ∧
        (tables t.mem t.currentDirectory (dirIndex v)).toNat + 4096 ≤ 2 ^ 32) →
      (setPage t (dirIndex v) (tableIndex v) (frameOf p ||| f)).mem.read32 x =
        s.mem.read32 x := by
    intro t ht htable
    rcases htable with h0 | ⟨hge, hbound⟩
    · have hslot : (pagesSlot 0 (tableIndex v)).toNat = 4 * (tableIndex v).toNat := by
        rw [toNat_pagesSlot (by omega), hnull, Nat.zero_add]
      rw [setPage_read32 (by rw [h0]; omega) (by omega) (by rw [h0]; exact .inr (by omega)), ht]
    · have hslot := toNat_pagesSlot (t := tables t.mem t.currentDirectory (dirIndex v))
        (j := tableIndex v) (by omega)
      rw [setPage_read32 (by omega) (by omega) (.inl (by omega)), ht]
  by_cases ht : tables s.mem s.currentDirectory (dirIndex v) = 0
  · rw [mapPage_newTable p f ht]
    obtain ⟨t, hc', hn⟩ := exists_newTable s h.heap_le
    have hcur' : (newPageTable s (dirIndex v) f).currentDirectory = s.currentDirectory :=
      (hn.keeps (f := f) h hcur hi).currentDirectory
    have hself := (hn.self (f := f) h hcur hi).1
    have hbound := hn.bound
    refine hwrite _ (hn.read32_clear h hcur hi hx (by omega) (.inl (by omega))) ?_
    rw [hcur', hself]
    rcases hn.fresh_or_null with ⟨-, hge, -⟩ | h0
    · exact .inr ⟨by omega, hbound⟩
    · exact .inl h0
  · rw [mapPage_oldTable p f ht]
    have htb := h.table_bound hcur hi ht
    have htlo := (h.table _ hcur _ hi ht).lower
    exact hwrite s rfl (.inr ⟨htlo, by omega⟩)

/-- With NULL as the current directory and no memory for a table, `map_page` writes into
low memory only: the words of the first page below its entry are cleared, and those behind
`tables_physical` stay. -/
theorem mapPage_null {hc' : Word} (v p f : Word) (hcur : s.currentDirectory = 0)
    (hmissing : tables s.mem 0 (dirIndex v) = 0)
    (hk : kmallocA s.heapCurrent (BitVec.ofNat 32 sizeofPageTable) = (0, hc')) :
    (∀ x : Word, x.toNat + 4 ≤ 4 * (tableIndex v).toNat →
      (mapPage s v p f).mem.read32 x = 0) ∧
    ∀ x : Word, 8192 ≤ x.toNat → x.toNat + 4 ≤ 2 ^ 32 →
      (mapPage s v p f).mem.read32 x = s.mem.read32 x := by
  have hi := dirIndex_lt v
  have hj := tableIndex_lt v
  have hnull : (0 : Word).toNat = 0 := rfl
  have hslot : (tablesSlot 0 (dirIndex v)).toNat = 4 * (dirIndex v).toNat := by
    rw [toNat_tablesSlot (by omega), hnull, Nat.zero_add]
  have hcur' : (newPageTable s (dirIndex v) f).currentDirectory = 0 := by
    rw [newPageTable_globals]
    exact hcur
  have hlow : ∀ x : Word, x.toNat + 4 ≤ 4096 →
      (newPageTable s (dirIndex v) f).mem.read32 x = 0 := fun x hx =>
    newPageTable_low hk hi (by rw [hcur]; decide) hx
  have hzero : tables (newPageTable s (dirIndex v) f).mem 0 (dirIndex v) = 0 :=
    hlow _ (by omega)
  have hentry : (pagesSlot 0 (tableIndex v)).toNat = 4 * (tableIndex v).toNat := by
    rw [toNat_pagesSlot (by omega), hnull, Nat.zero_add]
  have heq := mapPage_newTable (s := s) (v := v) p f (by rw [hcur]; exact hmissing)
  have hread : ∀ x : Word, Clear x 4 (pagesSlot 0 (tableIndex v)) 4 → x.toNat + 4 ≤ 2 ^ 32 →
      (mapPage s v p f).mem.read32 x = (newPageTable s (dirIndex v) f).mem.read32 x := by
    intro x hclear hx
    rw [heq]
    refine setPage_read32 ?_ hx ?_
    · rw [hcur', hzero]
      omega
    · rwa [hcur', hzero]
  refine ⟨fun x hx => ?_, fun x hx hx' => ?_⟩
  · rw [hread x (.inl (by omega)) (by omega), hlow x (by omega)]
  · rw [hread x (.inr (by omega)) hx']
    have hphys := toNat_tablesPhysicalSlot (d := 0) (i := dirIndex v) (by omega)
    rw [← hcur] at hslot hphys
    rw [hcur, hnull] at hphys
    exact newPageTable_read32 hk hi (by rw [hcur]; decide) (by decide) hx' (.inr (by omega))
      (.inr (by omega)) (.inr (by rw [hcur]; omega))

/-! ## Memory after `alloc_frame` -/

/-- Under a real directory `alloc_frame` changes the entry of its page at most; the
`physical_addr` of every directory, the words between the first page and the bitmap and the
zero words of the first page below the entry stay. -/
theorem allocFrame_mem (v : Word) (k w : Bool) (h : FrameBitmap s)
    (hl : Layout 0x300200 s.mem s.heapCurrent D) (hcur : s.currentDirectory ∈ D) :
    (∀ d ∈ D, ∀ a : Word, a >>> 12 ≠ v >>> 12 →
      pte (allocFrame s v k w).mem d a = pte s.mem d a) ∧
    (∀ d ∈ D, physicalAddr (allocFrame s v k w).mem d = physicalAddr s.mem d) ∧
    (∀ x : Word, 4096 ≤ x.toNat → x.toNat + 4 ≤ 0x300000 →
      (allocFrame s v k w).mem.read32 x = s.mem.read32 x) ∧
    ∀ x : Word, x.toNat + 4 ≤ 4 * (tableIndex v).toNat → s.mem.read32 x = 0 →
      (allocFrame s v k w).mem.read32 x = 0 := by
  have hj := tableIndex_lt v
  have hle := hl.heap_le
  rw [allocFrame_eq]
  generalize firstFreeFrame s * pageSize = frame
  obtain ⟨hl', hsame⟩ := setFrame_spec h hl frame
  have hphys := hl.physicalAddr_eq fun x hx hx' =>
    setFrame_read32 h frame (by omega) (.inr hx)
  have hcur' : (setFrame s frame).currentDirectory ∈ D := by
    rw [setFrame_currentDirectory]
    exact hcur
  obtain ⟨-, hk, hready, hnot⟩ := mapPage_spec v frame (frameFlags k w) hl' hcur'
  refine ⟨fun d hd a hpage => ?_, fun d hd => ?_, fun x hx hx' => ?_, fun x hx h0 => ?_⟩
  · rw [← hsame.pte hd a]
    by_cases hr : TableReady (setFrame s frame) v
    · rw [hready hr d hd a, if_neg fun hh => hpage hh.2]
    · exact hnot hr d hd a
  · rw [hk.physicalAddr d hd, hphys d hd]
  · rw [mapPage_between _ _ _ hl' hcur' hx (by omega), setFrame_read32 h frame (by omega) (.inl hx')]
  · refine mapPage_low _ _ _ hl' hcur' hx ?_
    rw [setFrame_read32 h frame (by omega) (.inl (by omega)), h0]

/-- Under NULL and with no memory for a table `alloc_frame` clears the words of the first page
below the entry, and leaves the words behind `tables_physical` and outside the bitmap alone. -/
theorem allocFrame_null {hc' : Word} (v : Word) (k w : Bool) (h : FrameBitmap s)
    (hcur : s.currentDirectory = 0) (hmissing : tables s.mem 0 (dirIndex v) = 0)
    (hk : kmallocA s.heapCurrent (BitVec.ofNat 32 sizeofPageTable) = (0, hc')) :
    (∀ x : Word, x.toNat + 4 ≤ 4 * (tableIndex v).toNat →
      (allocFrame s v k w).mem.read32 x = 0) ∧
    ∀ x : Word, 8192 ≤ x.toNat → x.toNat + 4 ≤ 2 ^ 32 →
      x.toNat + 4 ≤ 0x300000 ∨ 0x300200 ≤ x.toNat →
      (allocFrame s v k w).mem.read32 x = s.mem.read32 x := by
  have hi := dirIndex_lt v
  have hnull : (0 : Word).toNat = 0 := rfl
  have hslot : (tablesSlot 0 (dirIndex v)).toNat = 4 * (dirIndex v).toNat := by
    rw [toNat_tablesSlot (by omega), hnull, Nat.zero_add]
  rw [allocFrame_eq]
  generalize firstFreeFrame s * pageSize = frame
  have hmissing' : tables (setFrame s frame).mem 0 (dirIndex v) = 0 :=
    (setFrame_read32 h frame (by omega) (.inl (by omega))).trans hmissing
  obtain ⟨hlow, hhigh⟩ := mapPage_null (p := frame) (f := frameFlags k w) v
    ((setFrame_currentDirectory s frame).trans hcur) hmissing'
    (by rw [setFrame_heapCurrent]; exact hk)
  refine ⟨hlow, fun x hx hx' hout => ?_⟩
  rw [hhigh x hx hx', setFrame_read32 h frame hx' hout]

end KyroKernel
