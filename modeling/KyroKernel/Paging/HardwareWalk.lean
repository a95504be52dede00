import KyroKernel.Paging.Runs

/-!
# The page walk of the processor against `get_physical_address`

`switch_page_directory` loads `dir->physical_addr` into CR3. A directory made by
`create_page_directory` has its own address there, and the processor then reads `tables[]`,
an array of page-aligned pointers, as page-directory entries: the present bit of every one
is clear. The directory made by `paging_init` has 0 there, and the processor walks whatever
lies in page 0. This module says for which addresses the two translations agree.
-/

namespace KyroKernel

open Foundations

/-- The page of `v` is present under the current directory. -/
def PagePresent (s : PagingState) (v : Word) : Prop :=
  pte s.mem s.currentDirectory v &&& presentBit ≠ 0

instance (s : PagingState) (v : Word) : Decidable (PagePresent s v) :=
  inferInstanceAs (Decidable (_ ≠ _))

/-- The walk from CR3 reaches the address `get_physical_address` returns when the page is
present, and faults when it is not. -/
def WalkAgrees (s : PagingState) (v : Word) : Prop :=
  pageWalk s.mem s.cr3 v = if PagePresent s v then some (getPhysicalAddress s v) else none

/-- The page-directory entry for `v` when page 0 of memory is the page directory. -/
def lowMemoryPde (m : Mem) (v : Word) : Word := m.read32 (4 * dirIndex v)

/-- The page-table entry that `lowMemoryPde` leads to. -/
def lowMemoryPte (m : Mem) (v : Word) : Word :=
  m.read32 (frameOf (lowMemoryPde m v) + 4 * tableIndex v)

/-- Page 0, read as a page directory, has for `v` the frame of the current directory's entry
when that is present, and nothing present otherwise. -/
def LowMemoryAgrees (s : PagingState) (v : Word) : Prop :=
  if PagePresent s v then
    lowMemoryPde s.mem v &&& presentBit ≠ 0 ∧ lowMemoryPte s.mem v &&& presentBit ≠ 0 ∧
      frameOf (lowMemoryPte s.mem v) = frameOf (pte s.mem s.currentDirectory v)
  else lowMemoryPde s.mem v &&& presentBit = 0 ∨ lowMemoryPte s.mem v &&& presentBit = 0

/-! ## The two values CR3 can get -/

/-- An address determines its frame. -/
theorem frameOf_or_pageOffset (e v : Word) : frameOf (frameOf e ||| pageOffset v) = frameOf e := by
  apply frameOf_entry
  rw [BitVec.toNat_and, show (0xFFF : Word).toNat = 2 ^ 12 - 1 by rfl,
    Nat.and_two_pow_sub_one_eq_mod]
  omega

theorem pageWalk_zero (m : Mem) (v : Word) :
    pageWalk m 0 v =
      if lowMemoryPde m v &&& presentBit = 0 then none
      else if lowMemoryPte m v &&& presentBit = 0 then none
      else some (frameOf (lowMemoryPte m v) ||| pageOffset v) := by
  have h0 : frameOf 0 + 4 * dirIndex v = 4 * dirIndex v := by simp [frameOf]
  unfold pageWalk lowMemoryPte lowMemoryPde
  rw [h0]

/-- With page 0 as the page directory, the walk agrees exactly when the words there say so. -/
theorem walkAgrees_of_zero {s : PagingState} (hcr3 : s.cr3 = 0) (v : Word) :
    WalkAgrees s v ↔ LowMemoryAgrees s v := by
  unfold WalkAgrees LowMemoryAgrees
  rw [hcr3, pageWalk_zero]
  by_cases hp : PagePresent s v
  · have hpa : getPhysicalAddress s v =
        frameOf (pte s.mem s.currentDirectory v) ||| pageOffset v := by
      rw [getPhysicalAddress_eq, if_neg hp]
    rw [if_pos hp, if_pos hp, hpa]
    by_cases hpde : lowMemoryPde s.mem v &&& presentBit = 0
    · rw [if_pos hpde]
      exact ⟨(nomatch ·), fun h => absurd hpde h.1⟩
    · by_cases hlow : lowMemoryPte s.mem v &&& presentBit = 0
      · rw [if_neg hpde, if_pos hlow]
        exact ⟨(nomatch ·), fun h => absurd hlow h.2.1⟩
      · -- Both walks reach a frame: equal addresses have equal frames.
        rw [if_neg hpde, if_neg hlow, Option.some_inj]
        refine ⟨fun heq => ⟨hpde, hlow, ?_⟩, fun ⟨_, _, hframe⟩ => by rw [hframe]⟩
        have hframe := congrArg frameOf heq
        rwa [frameOf_or_pageOffset, frameOf_or_pageOffset] at hframe
  · rw [if_neg hp, if_neg hp]
    by_cases hpde : lowMemoryPde s.mem v &&& presentBit = 0
    · rw [if_pos hpde]
      exact ⟨fun _ => .inl hpde, fun _ => rfl⟩
    · by_cases hlow : lowMemoryPte s.mem v &&& presentBit = 0
      · rw [if_neg hpde, if_pos hlow]
        exact ⟨fun _ => .inr hlow, fun _ => rfl⟩
      · rw [if_neg hpde, if_neg hlow]
        exact ⟨(nomatch ·), fun h => absurd h (not_or.mpr ⟨hpde, hlow⟩)⟩

/-- With a directory's own address in CR3 every walk faults: what it takes for a
page-directory entry is a pointer to a page-aligned table, or NULL. -/
theorem pageWalk_of_layout {lo : Nat} {m : Mem} {hc : Word} {D : List Word} {d : Word}
    (h : Layout lo m hc D) (hd : d ∈ D) (v : Word) : pageWalk m d v = none := by
  have hframe : frameOf d = d := frameOf_of_aligned (h.dir d hd).aligned
  have hpde : m.read32 (frameOf d + 4 * dirIndex v) = tables m d (dirIndex v) := by
    rw [hframe]
    rfl
  have habsent : tables m d (dirIndex v) &&& presentBit = 0 := by
    by_cases h0 : tables m d (dirIndex v) = 0
    · rw [h0]
      decide
    · exact not_present_of_aligned (h.table d hd _ (dirIndex_lt v) h0).aligned
  unfold pageWalk
  rw [hpde, if_pos habsent]

/-- So the walk agrees exactly on the pages that are not present. -/
theorem walkAgrees_of_self {lo : Nat} {s : PagingState} {D : List Word}
    (h : Layout lo s.mem s.heapCurrent D) (hcur : s.currentDirectory ∈ D)
    (hcr3 : s.cr3 = s.currentDirectory) (v : Word) : WalkAgrees s v ↔ ¬ PagePresent s v := by
  unfold WalkAgrees
  rw [hcr3, pageWalk_of_layout h hcur]
  by_cases hp : PagePresent s v
  · simp [hp]
  · simp [hp]

/-! ## Whole runs -/

/-- After every run the walk agrees on the pages that are not present, and on no other, when
the current directory was made by `create_page_directory`; when it was made by `paging_init`,
page 0 decides. -/
theorem walkAgrees_iff {tr : List (PagingSystem × PagingOp)} {y : PagingSystem}
    (hrun : Run PagingBoot PagingStep tr y) (hcur : y.state.currentDirectory ≠ 0) (v : Word) :
    WalkAgrees y.state v ↔
      if physicalAddr y.state.mem y.state.currentDirectory = 0 then LowMemoryAgrees y.state v
      else ¬ PagePresent y.state v := by
  have hinv := pagingInv_run hrun
  have hmem := hinv.current_mem hcur
  by_cases h0 : physicalAddr y.state.mem y.state.currentDirectory = 0
  · rw [if_pos h0]
    exact walkAgrees_of_zero ((hinv.cr3 hcur).trans h0) v
  · rw [if_neg h0]
    have hself := (hinv.physicalAddr _ hmem).resolve_left h0
    exact walkAgrees_of_self hinv.layout hmem ((hinv.cr3 hcur).trans hself) v

/-- In the short run page 0 is present and the walk faults. -/
theorem not_walkAgrees_mappedState : ¬ WalkAgrees mappedState 0 := by
  obtain ⟨hcd, hcr3, hpte⟩ := mappedState_spec
  have hl : Layout 0x300000 mappedState.mem mappedState.heapCurrent [0x300000] :=
    (pagingInv_run run_mappedState).layout
  rw [walkAgrees_of_self hl (by rw [hcd]; exact List.mem_cons_self) (hcr3.trans hcd.symm), not_not]
  unfold PagePresent
  rw [hcd, hpte]
  decide

/-- The two translations do not agree in general. -/
theorem not_forall_walkAgrees : ¬ ∀ (tr : List (PagingSystem × PagingOp)) (y : PagingSystem),
    Run PagingBoot PagingStep tr y → y.state.currentDirectory ≠ 0 → ∀ v, WalkAgrees y.state v := by
  intro h
  refine not_walkAgrees_mappedState (h _ _ run_mappedState ?_ 0)
  show mappedState.currentDirectory ≠ 0
  rw [mappedState_spec.1]
  decide

/-- In the short run the walk agrees on page 0 exactly when that page is not present. -/
theorem walkAgrees_iff_mappedState : WalkAgrees mappedState 0 ↔ ¬ PagePresent mappedState 0 := by
  have hcur : mappedState.currentDirectory ≠ 0 := by
    rw [mappedState_spec.1]
    decide
  have hphys : physicalAddr mappedState.mem mappedState.currentDirectory ≠ 0 := by
    have hcr3 := (pagingInv_run run_mappedState).cr3 hcur
    have heq : mappedState.cr3 = physicalAddr mappedState.mem mappedState.currentDirectory := hcr3
    rw [← heq, mappedState_spec.2.1]
    decide
  have hiff := walkAgrees_iff run_mappedState hcur 0
  rwa [if_neg hphys] at hiff

end KyroKernel
