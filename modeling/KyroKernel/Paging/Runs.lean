import KyroKernel.Foundations.Run
import KyroKernel.Paging.Init

/-!
# Runs of the paging functions

A run starts at boot and calls `paging_init`, `create_page_directory`,
`switch_page_directory`, `map_page` and `unmap_page` in any order, with the requests of
every call met by the heap. The system state carries the list of directories made so far,
which the C code does not keep: it says which pointers `switch_page_directory` may get.
-/

namespace KyroKernel

open Foundations

/-- The paging state and the directories made so far, latest first. -/
structure PagingSystem where
  state : PagingState
  directories : List Word

/-- The calls a paging run is made of. -/
inductive PagingOp where
  | pagingInit
  | createPageDirectory
  | switchPageDirectory (dir : Word)
  | mapPage (virtualAddr physicalAddr flags : Word)
  | unmapPage (virtualAddr : Word)

/-- The heap meets every request of `paging_init`. -/
structure PagingInitFits (s : PagingState) : Prop where
  bitmap : (kmalloc s.heapCurrent 512).1 ≠ 0
  directory : (kmallocA (pagingInitBitmap s).heapCurrent
    (BitVec.ofNat 32 sizeofPageDirectory)).1 ≠ 0
  tables : ∀ k < 2048, TableReady
    (identityMap (pagingInitKernelDirectory (pagingInitBitmap s)) k) (BitVec.ofNat 32 (4096 * k))

/-- One call. `map_page` and `unmap_page` dereference `current_directory`, so it must have
been set; `switch_page_directory` gets a directory that was made. -/
inductive PagingStep : PagingSystem → PagingOp → PagingSystem → Prop where
  | pagingInit {s : PagingState} {D : List Word} (hfits : PagingInitFits s) :
      PagingStep ⟨s, D⟩ .pagingInit ⟨pagingInit s, (pagingInit s).kernelDirectory :: D⟩
  | createPageDirectory {s : PagingState} {D : List Word} (hfits : (createPageDirectory s).1 ≠ 0) :
      PagingStep ⟨s, D⟩ .createPageDirectory
        ⟨(createPageDirectory s).2, (createPageDirectory s).1 :: D⟩
  | switchPageDirectory {s : PagingState} {D : List Word} {dir : Word} (hdir : dir ∈ D) :
      PagingStep ⟨s, D⟩ (.switchPageDirectory dir) ⟨switchPageDirectory s dir, D⟩
  | mapPage {s : PagingState} {D : List Word} {v p f : Word} (hcur : s.currentDirectory ≠ 0)
      (hfits : TableReady s v) : PagingStep ⟨s, D⟩ (.mapPage v p f) ⟨mapPage s v p f, D⟩
  | unmapPage {s : PagingState} {D : List Word} {v : Word} (hcur : s.currentDirectory ≠ 0) :
      PagingStep ⟨s, D⟩ (.unmapPage v) ⟨unmapPage s v, D⟩

/-- The start of a paging run. -/
structure PagingBoot (y : PagingSystem) : Prop where
  state : AtBoot y.state
  directories : y.directories = []

/-- The invariant of paging runs. -/
structure PagingInv (y : PagingSystem) : Prop where
  layout : Layout 0x300000 y.state.mem y.state.heapCurrent y.directories
  current : y.state.currentDirectory = 0 ∨ y.state.currentDirectory ∈ y.directories
  cr3 : y.state.currentDirectory ≠ 0 →
    y.state.cr3 = physicalAddr y.state.mem y.state.currentDirectory
  physicalAddr : ∀ d ∈ y.directories,
    physicalAddr y.state.mem d = 0 ∨ physicalAddr y.state.mem d = d

theorem PagingInv.current_mem {y : PagingSystem} (h : PagingInv y)
    (hcur : y.state.currentDirectory ≠ 0) : y.state.currentDirectory ∈ y.directories :=
  h.current.resolve_left hcur

/-! ## `paging_init` as one step -/

variable {lo : Nat} {D : List Word} {s : PagingState}

/-- The loop of `paging_init` changes entries of the current directory only. -/
theorem identityMap_spec (h : Layout lo s.mem s.heapCurrent D) (hcur : s.currentDirectory ∈ D)
    (n : Nat) :
    Layout lo (identityMap s n).mem (identityMap s n).heapCurrent D ∧
    Keeps lo D s (identityMap s n) ∧
    ∀ d ∈ D, d ≠ s.currentDirectory → ∀ a, pte (identityMap s n).mem d a = pte s.mem d a := by
  induction n with
  | zero => exact ⟨h, .refl .., fun _ _ _ _ => rfl⟩
  | succ k ih =>
    obtain ⟨hl, hk, hpte⟩ := ih
    have hcur' : (identityMap s k).currentDirectory = s.currentDirectory := hk.currentDirectory
    obtain ⟨hl', hk', hready, hnot⟩ := mapPage_spec (BitVec.ofNat 32 (4096 * k))
      (BitVec.ofNat 32 (4096 * k)) (pagePresent ||| pageWritable) hl (by rw [hcur']; exact hcur)
    refine ⟨hl', hk.trans hk', fun d hd hne a => ?_⟩
    have hother : ¬ (d = (identityMap s k).currentDirectory ∧
        a >>> 12 = BitVec.ofNat 32 (4096 * k) >>> 12) := by
      rw [hcur']
      exact fun hh => hne hh.1
    rw [identityMap, ← hpte d hd hne a]
    by_cases hr : TableReady (identityMap s k) (BitVec.ofNat 32 (4096 * k))
    · rw [hready hr d hd a, if_neg hother]
    · exact hnot hr d hd a

/-- Nothing sets the `physical_addr` of the kernel directory. -/
theorem physicalAddr_of_atBoot (hb : AtBoot s) : physicalAddr (pagingInit s).mem 0x301000 = 0 := by
  obtain ⟨hl, -, hcd, -, -, -, -, -, hphys⟩ := beforeLoop_of_atBoot hb
  obtain ⟨-, hk, -⟩ := identityMap_spec hl (by rw [hcd]; exact List.mem_cons_self) 2048
  exact (hk.physicalAddr _ List.mem_cons_self).trans hphys

/-- What `paging_init` does before its loop. -/
theorem beforeLoop_spec (h : Layout lo s.mem s.heapCurrent D) (hfits : PagingInitFits s) :
    ∃ d : Word, s.heapCurrent.toNat ≤ d.toNat ∧ d ≠ 0 ∧
      (pagingInitKernelDirectory (pagingInitBitmap s)).kernelDirectory = d ∧
      (pagingInitKernelDirectory (pagingInitBitmap s)).currentDirectory = d ∧
      Layout lo (pagingInitKernelDirectory (pagingInitBitmap s)).mem
        (pagingInitKernelDirectory (pagingInitBitmap s)).heapCurrent (d :: D) ∧
      (∀ e ∈ D, physicalAddr (pagingInitKernelDirectory (pagingInitBitmap s)).mem e =
        physicalAddr s.mem e) ∧
      physicalAddr (pagingInitKernelDirectory (pagingInitBitmap s)).mem d = 0 ∧
      (∀ v, pte (pagingInitKernelDirectory (pagingInitBitmap s)).mem d v = 0) ∧
      ∀ e ∈ D, ∀ v, pte (pagingInitKernelDirectory (pagingInitBitmap s)).mem e v =
        pte s.mem e v := by
  obtain ⟨hl, hsame, hpa, heq, hadd, hlt⟩ := pagingInitBitmap_spec h hfits.bitmap
  obtain ⟨d, hge, hd, -, heq', hl', hsame', hpa', hp0, hpte, -⟩ :=
    pagingInitKernelDirectory_spec hl hfits.directory
  have hheap : (pagingInitBitmap s).heapCurrent.toNat = s.heapCurrent.toNat + 512 := by
    rw [heq]
    exact hadd
  have hlow := h.low
  have hlo := h.lo_le
  refine ⟨d, by omega, ?_, by rw [heq'], by rw [heq'], hl', fun e he => ?_, hp0, hpte,
    fun e he v => ?_⟩
  · rintro rfl
    simp at hge
    omega
  · rw [hpa' e he, hpa e he]
  · rw [hsame'.pte he, hsame.pte he]

/-- What a finished loop leaves in the new kernel directory and in all others. -/
theorem enablePaging_spec {d : Word} (h : Layout lo s.mem s.heapCurrent (d :: D))
    (hkd : s.kernelDirectory = d) (hcur : s.currentDirectory = d)
    (hp0 : physicalAddr s.mem d = 0) (hfresh : d ∉ D) (n : Nat) :
    Layout lo (enablePaging (identityMap s n)).mem (enablePaging (identityMap s n)).heapCurrent
      (d :: D) ∧
    (enablePaging (identityMap s n)).kernelDirectory = d ∧
    (enablePaging (identityMap s n)).currentDirectory = d ∧
    (enablePaging (identityMap s n)).cr3 = 0 ∧
    (enablePaging (identityMap s n)).mem = (identityMap s n).mem ∧
    (∀ e ∈ d :: D, physicalAddr (enablePaging (identityMap s n)).mem e =
      physicalAddr s.mem e) ∧
    ∀ e ∈ D, ∀ a, pte (enablePaging (identityMap s n)).mem e a = pte s.mem e a := by
  obtain ⟨hl, hk, hpte⟩ := identityMap_spec h (by rw [hcur]; simp) n
  generalize identityMap s n = t at hl hk hpte ⊢
  have hkd' : t.kernelDirectory = d := hk.kernelDirectory.trans hkd
  refine ⟨hl, hkd', hkd', ?_, rfl, hk.physicalAddr, fun e he a => ?_⟩
  · show physicalAddr t.mem t.kernelDirectory = 0
    rw [hkd', hk.physicalAddr d (by simp), hp0]
  · refine hpte e (by simp [he]) ?_ a
    rw [hcur]
    rintro rfl
    exact hfresh he

/-! ## The invariant -/

theorem pagingInv_of_boot {y : PagingSystem} (h : PagingBoot y) : PagingInv y := by
  have hd := h.directories
  have hs := h.state
  refine ⟨?_, .inl hs.currentDirectory, fun hne => absurd hs.currentDirectory hne, ?_⟩
  · rw [hd, hs.heapCurrent]
    exact ⟨by decide, by decide, by decide, by simp, by simp, by simp, by simp, by simp⟩
  · rw [hd]
    simp

/-- A call that keeps the globals keeps the invariant; every directory it adds records its
own address. -/
theorem PagingInv.of_keeps {s' : PagingState} {D' : List Word} (h : PagingInv ⟨s, D⟩)
    (hl : Layout 0x300000 s'.mem s'.heapCurrent D') (hk : Keeps 0x300000 D s s')
    (hsub : ∀ d ∈ D, d ∈ D') (hnew : ∀ d ∈ D', d ∈ D ∨ KyroKernel.physicalAddr s'.mem d = d) :
    PagingInv ⟨s', D'⟩ := by
  obtain ⟨-, hcd, hcr3, hpa⟩ := h
  refine ⟨hl, ?_, ?_, fun d hd => ?_⟩
  · rw [hk.currentDirectory]
    exact hcd.imp id (hsub _)
  · rw [hk.currentDirectory, hk.cr3]
    intro hne
    rw [hk.physicalAddr _ (hcd.resolve_left hne)]
    exact hcr3 hne
  · rcases hnew d hd with hold | hself
    · rw [hk.physicalAddr d hold]
      exact hpa d hold
    · exact .inr hself

/-- `paging_init` with `n` rounds of its loop keeps the invariant. -/
theorem PagingInv.of_pagingInit (h : PagingInv ⟨s, D⟩) (hfits : PagingInitFits s) (n : Nat) :
    PagingInv ⟨enablePaging (identityMap (pagingInitKernelDirectory (pagingInitBitmap s)) n),
      (enablePaging (identityMap (pagingInitKernelDirectory (pagingInitBitmap s)) n)).kernelDirectory
        :: D⟩ := by
  obtain ⟨hl, hcd, -, hpa⟩ := h
  obtain ⟨d, hge, hne, hkd, hcur, hl1, hpa1, hp0, -, -⟩ := beforeLoop_spec hl hfits
  obtain ⟨hl', hkd', hcur', hcr', -, hpa', -⟩ :=
    enablePaging_spec hl1 hkd hcur hp0 (hl.not_mem_of_le hge) n
  generalize enablePaging (identityMap (pagingInitKernelDirectory (pagingInitBitmap s)) n) = t
    at hl' hkd' hcur' hcr' hpa' ⊢
  rw [hkd']
  refine ⟨hl', .inr ?_, fun _ => ?_, fun e he => ?_⟩
  · rw [hcur']
    exact List.mem_cons_self
  · rw [hcr', hcur', hpa' d List.mem_cons_self, hp0]
  · rw [hpa' e he]
    rcases List.mem_cons.mp he with rfl | heD
    · exact .inl hp0
    · rw [hpa1 e heD]
      exact hpa e heD

theorem pagingInv_step {y y' : PagingSystem} {op : PagingOp} (h : PagingInv y)
    (hstep : PagingStep y op y') : PagingInv y' := by
  cases hstep with
  | pagingInit hfits =>
    rw [pagingInit]
    exact h.of_pagingInit hfits _
  | @createPageDirectory s D hfits =>
    have hl : Layout 0x300000 s.mem s.heapCurrent D := h.layout
    obtain ⟨hk, -, ⟨-, -, hl', hp, -⟩ | ⟨h0, -⟩⟩ := createPageDirectory_spec hl
    · refine h.of_keeps hl' hk (fun d hd => ?_) fun d hd => ?_
      · exact List.mem_cons_of_mem _ hd
      · rcases List.mem_cons.mp hd with hd' | hd'
        · rw [hd']
          exact .inr hp
        · exact .inl hd'
    · exact absurd h0 hfits
  | switchPageDirectory hdir => exact ⟨h.layout, .inr hdir, fun _ => rfl, h.physicalAddr⟩
  | @mapPage s D v p f hcur hfits =>
    have hl : Layout 0x300000 s.mem s.heapCurrent D := h.layout
    obtain ⟨hl', hk, -, -⟩ := mapPage_spec v p f hl (h.current_mem hcur)
    exact h.of_keeps hl' hk (fun _ => id) fun d hd => .inl hd
  | @unmapPage s D v hcur =>
    have hl : Layout 0x300000 s.mem s.heapCurrent D := h.layout
    obtain ⟨hl', hk, -⟩ := unmapPage_spec v hl (h.current_mem hcur)
    exact h.of_keeps hl' hk (fun _ => id) fun d hd => .inl hd

theorem pagingInv_run {tr : List (PagingSystem × PagingOp)} {y : PagingSystem}
    (h : Run PagingBoot PagingStep tr y) : PagingInv y :=
  h.inv PagingInv (fun _ => pagingInv_of_boot) fun _ _ _ => pagingInv_step

/-! ## A short run

One directory is made and made current, and page 0 is mapped in it. -/

/-- Boot with zeroed memory. -/
def bootState : PagingState where
  mem := fun _ => 0
  heapCurrent := heapStart
  kernelDirectory := 0
  currentDirectory := 0
  frames := 0
  nframes := 0
  cr0 := 0
  cr3 := 0

/-- The first directory lies at the start of the heap and is current. -/
def switchedState : PagingState := switchPageDirectory (createPageDirectory bootState).2 0x300000

/-- Page 0 is mapped to the frame at `0x5000`. -/
def mappedState : PagingState := mapPage switchedState 0 0x5000 (pagePresent ||| pageWritable)

theorem createPageDirectory_bootState : (createPageDirectory bootState).1 = 0x300000 := by
  rw [createPageDirectory_fst]
  decide

theorem atBoot_bootState : AtBoot bootState := ⟨rfl, rfl, rfl, rfl, rfl⟩

theorem tableReady_switchedState (v : Word) : TableReady switchedState v := by
  have hheap : switchedState.heapCurrent = 0x302004 := by
    unfold switchedState switchPageDirectory
    rw [createPageDirectory_globals]
    decide
  refine .inr ?_
  rw [hheap]
  decide

theorem run_mappedState :
    Run PagingBoot PagingStep
      [(⟨switchedState, [0x300000]⟩, .mapPage 0 0x5000 (pagePresent ||| pageWritable)),
        (⟨(createPageDirectory bootState).2, [0x300000]⟩, .switchPageDirectory 0x300000),
        (⟨bootState, []⟩, .createPageDirectory)] ⟨mappedState, [0x300000]⟩ := by
  have hcreate : PagingStep ⟨bootState, []⟩ .createPageDirectory
      ⟨(createPageDirectory bootState).2, [0x300000]⟩ := by
    have hstep := PagingStep.createPageDirectory (s := bootState) (D := [])
      (by rw [createPageDirectory_bootState]; decide)
    rwa [createPageDirectory_bootState] at hstep
  refine .snoc (.snoc (.snoc (.start ⟨atBoot_bootState, rfl⟩) hcreate)
    (.switchPageDirectory List.mem_cons_self)) (.mapPage ?_ (tableReady_switchedState 0))
  show (0x300000 : Word) ≠ 0
  decide

/-- The mapping is the only thing that changed since the switch. -/
theorem mappedState_spec :
    mappedState.currentDirectory = 0x300000 ∧ mappedState.cr3 = 0x300000 ∧
      pte mappedState.mem 0x300000 0 = 0x5003 := by
  have hboot : Layout 0x300000 bootState.mem bootState.heapCurrent [] :=
    (pagingInv_of_boot (y := ⟨bootState, []⟩) ⟨atBoot_bootState, rfl⟩).layout
  have hself : physicalAddr (createPageDirectory bootState).2.mem 0x300000 = 0x300000 := by
    obtain ⟨-, -, ⟨-, -, -, hp, -⟩ | ⟨h0, -⟩⟩ := createPageDirectory_spec hboot
    · rwa [createPageDirectory_bootState] at hp
    · rw [createPageDirectory_bootState] at h0
      exact absurd h0 (by decide)
  have hl : Layout 0x300000 switchedState.mem switchedState.heapCurrent [0x300000] :=
    (pagingInv_run run_mappedState.tail).layout
  have hmem : switchedState.currentDirectory ∈ [(0x300000 : Word)] := List.mem_cons_self
  obtain ⟨-, hk, hpte, -⟩ := mapPage_spec 0 0x5000 (pagePresent ||| pageWritable) hl hmem
  refine ⟨hk.currentDirectory, hk.cr3.trans hself, ?_⟩
  exact hpte (tableReady_switchedState 0) _ hmem 0

end KyroKernel
