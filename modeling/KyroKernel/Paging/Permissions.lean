import KyroKernel.Paging.AddressSpaces
import KyroKernel.Paging.DirectoryEntries

/-!
# Page permissions

The processor lets user mode reach a page when both the directory entry and the page-table entry
have `PAGE_USER`. `map_page` stores the flags it gets in the page-table entry, and decides
`PAGE_USER` of the directory entry from the flags of the first page of the 4 MB region that is
mapped, the wrong way round: the region is open to user mode exactly when that page is not.
-/

namespace KyroKernel

open Foundations

/-! ## What the processor checks -/

/-- User mode reaches the page of `v` in the directory `d`. -/
def UserAccessible (m : Mem) (d v : Word) : Prop :=
  tablesPhysical m d (dirIndex v) &&& pageUser ≠ 0 ∧ pte m d v &&& pageUser ≠ 0

/-- The page of `v` in the directory `d` is writable. -/
def Writable (m : Mem) (d v : Word) : Prop :=
  tablesPhysical m d (dirIndex v) &&& pageWritable ≠ 0 ∧ pte m d v &&& pageWritable ≠ 0

/-- The permissions of the page are those of the flags `f`. -/
def PermissionsOf (m : Mem) (d v f : Word) : Prop :=
  (UserAccessible m d v ↔ f &&& pageUser ≠ 0) ∧ (Writable m d v ↔ f &&& pageWritable ≠ 0)

/-! ## Histories of flags -/

/-- The first `n` rounds of the loop of `paging_init`, with the flags of each. -/
def identityFlags (dir : Word) : Nat → MapHistory
  | 0 => []
  | k + 1 =>
    ((dir, BitVec.ofNat 32 (4096 * k) >>> 12), some (pagePresent ||| pageWritable)) ::
      identityFlags dir k

/-- What one call does to pages: the flags they are mapped with, or `none` for `unmap_page`. -/
def PagingOp.flagEvents (s : PagingState) : PagingOp → MapHistory
  | .pagingInit => identityFlags (KyroKernel.pagingInit s).kernelDirectory 2048
  | .createPageDirectory => []
  | .switchPageDirectory _ => []
  | .mapPage v _ f => [((s.currentDirectory, v >>> 12), some f)]
  | .unmapPage v => [((s.currentDirectory, v >>> 12), none)]

/-- What the steps of a run did to pages, latest first. -/
def flagHistory (tr : List (PagingSystem × PagingOp)) : MapHistory :=
  tr.flatMap fun p => p.2.flagEvents p.1.state

/-- The flags of the first `map_page` for a page of region `i` of `dir`. -/
def firstInRegion : MapHistory → Word → Word → Option Word
  | [], _, _ => none
  | e :: h, dir, i =>
    (firstInRegion h dir i).or (if e.1.1 = dir ∧ e.1.2 >>> 10 = i then e.2 else none)

theorem firstInRegion_cons (d v dir i : Word) (e : Option Word) (h : MapHistory) :
    firstInRegion (((d, v >>> 12), e) :: h) dir i =
      (firstInRegion h dir i).or (if d = dir ∧ dirIndex v = i then e else none) := by
  have hregion : v >>> 12 >>> 10 = dirIndex v := (BitVec.shiftRight_add v 12 10).symm
  rw [firstInRegion, hregion]

theorem firstInRegion_eq_none {h : MapHistory} {dir : Word} (hkeys : ∀ e ∈ h, e.1.1 ≠ dir)
    (i : Word) : firstInRegion h dir i = none := by
  induction h with
  | nil => rfl
  | cons e h ih =>
    obtain ⟨hhd, htl⟩ := List.forall_mem_cons.mp hkeys
    rw [firstInRegion, ih htl, if_neg fun hh => hhd hh.1]
    rfl

/-! ## Flags of entries -/

/-- A flag in the low twelve bits of a page-table entry is that of the flags. -/
theorem entry_and {b : Word} (hb : 0xFFFFF000 &&& b = 0) (p f : Word) :
    (frameOf p ||| f) &&& b = f &&& b := by
  unfold frameOf
  rw [BitVec.and_or_distrib_right, BitVec.and_assoc, hb]
  simp

theorem newPde_writable (t f : Word) : newPde t f &&& pageWritable ≠ 0 := by
  intro h0
  have hbit := congrArg (·.getLsbD 1) h0
  unfold newPde at hbit
  split_ifs at hbit <;> simp [pagePresent, pageWritable, pageUser] at hbit

theorem newPde_user {t : Word} (ht : t.toNat % 4096 = 0) (f : Word) :
    newPde t f &&& pageUser ≠ 0 ↔ f &&& pageUser = 0 := by
  unfold newPde
  split_ifs with hf
  · refine ⟨fun _ => hf, fun _ h0 => ?_⟩
    have hbit := congrArg (·.getLsbD 2) h0
    simp [pagePresent, pageWritable, pageUser] at hbit
  · refine ⟨fun hne => absurd ?_ hne, fun h0 => absurd h0 hf⟩
    rw [← frameOf_of_aligned ht, BitVec.or_assoc, entry_and (by decide)]
    decide

/-! ## The invariant -/

/-- What region `i` of the directory `d` holds when the flags `e` were those of the first `map_page`
in it, if any. -/
def RegionMatches (m : Mem) (d i : Word) : Option Word → Prop
  | some f => tables m d i ≠ 0 ∧ tablesPhysical m d i &&& pageWritable ≠ 0 ∧
      (tablesPhysical m d i &&& pageUser ≠ 0 ↔ f &&& pageUser = 0)
  | none => tables m d i = 0

theorem RegionMatches.congr {m m' : Mem} {d i : Word} {e : Option Word}
    (h : RegionMatches m d i e) (hs : SameRegion m m' d i) : RegionMatches m' d i e := by
  unfold RegionMatches at h ⊢
  rw [hs.1, hs.2]
  exact h

/-- The entries of all directories and the history of flags agree. -/
structure PermissionInv (s : PagingState) (D : List Word) (h : MapHistory) : Prop where
  keys : ∀ e ∈ h, e.1.1 ∈ D
  entries : ∀ d ∈ D, ∀ a f, lastEvent h d a = some (some f) →
    pte s.mem d a &&& pageUser = f &&& pageUser ∧
      pte s.mem d a &&& pageWritable = f &&& pageWritable
  regions : ∀ d ∈ D, ∀ i : Word, i.toNat < 1024 →
    RegionMatches s.mem d i (firstInRegion h d i)

variable {lo : Nat} {D : List Word} {s s' : PagingState} {h : MapHistory}

/-- A call on the entry of the page of `v` in the current directory. -/
theorem PermissionInv.entries_cons (hp : PermissionInv s D h) {v entry : Word} {e : Option Word}
    (hpte : ∀ d ∈ D, ∀ a, pte s'.mem d a =
      if d = s.currentDirectory ∧ a >>> 12 = v >>> 12 then entry else pte s.mem d a)
    (hentry : ∀ f, e = some f → entry &&& pageUser = f &&& pageUser ∧
      entry &&& pageWritable = f &&& pageWritable) :
    ∀ d ∈ D, ∀ a f, lastEvent (((s.currentDirectory, v >>> 12), e) :: h) d a = some (some f) →
      pte s'.mem d a &&& pageUser = f &&& pageUser ∧
        pte s'.mem d a &&& pageWritable = f &&& pageWritable := by
  intro d hd a f hlast
  rw [lastEvent_cons] at hlast
  rw [hpte d hd a]
  split_ifs at hlast ⊢ with hpage
  · exact hentry f (Option.some.inj hlast)
  · exact hp.entries d hd a f hlast

theorem PermissionInv.mapPage (hp : PermissionInv s D h) (hl : Layout lo s.mem s.heapCurrent D)
    (hcur : s.currentDirectory ∈ D) (v p f : Word) (hready : TableReady s v) :
    PermissionInv (mapPage s v p f) D (((s.currentDirectory, v >>> 12), some f) :: h) := by
  obtain ⟨-, -, hpte, -⟩ := mapPage_spec v p f hl hcur
  refine ⟨List.forall_mem_cons.mpr ⟨hcur, hp.keys⟩,
    hp.entries_cons (hpte hready) fun g hg => ?_, fun d hd i hi => ?_⟩
  · obtain rfl := Option.some.inj hg
    exact ⟨entry_and (by decide) p f, entry_and (by decide) p f⟩
  · have hold := hp.regions d hd i hi
    rw [firstInRegion_cons]
    by_cases hnew : d = s.currentDirectory ∧ i = dirIndex v ∧
        tables s.mem s.currentDirectory i = 0
    · -- The first page of the region.
      obtain ⟨rfl, rfl, h0⟩ := hnew
      obtain ⟨t, hne, hal, htable, hpde⟩ := mapPage_newRegion v p f hl hcur hready h0
      cases hfirst : firstInRegion h s.currentDirectory (dirIndex v) with
      | some g =>
        rw [hfirst] at hold
        exact absurd h0 hold.1
      | none =>
        rw [if_pos ⟨rfl, rfl⟩, Option.none_or]
        refine ⟨by rw [htable]; exact hne, ?_, ?_⟩
        · rw [hpde]
          exact newPde_writable t f
        · rw [hpde]
          exact newPde_user hal f
    · -- An older page decided, or the call is about another region.
      have hsame := mapPage_sameRegion v p f hl hcur hready hd hi hnew
      cases hfirst : firstInRegion h d i with
      | some g =>
        rw [hfirst] at hold
        exact hold.congr hsame
      | none =>
        rw [hfirst] at hold
        rw [if_neg, Option.none_or]
        · exact hold.congr hsame
        · rintro ⟨rfl, rfl⟩
          exact hnew ⟨rfl, rfl, hold⟩

theorem PermissionInv.unmapPage (hp : PermissionInv s D h) (hl : Layout lo s.mem s.heapCurrent D)
    (hcur : s.currentDirectory ∈ D) (v : Word) :
    PermissionInv (unmapPage s v) D (((s.currentDirectory, v >>> 12), none) :: h) := by
  obtain ⟨-, -, hpte⟩ := unmapPage_spec v hl hcur
  refine ⟨List.forall_mem_cons.mpr ⟨hcur, hp.keys⟩, hp.entries_cons hpte fun g hg => ?_,
    fun d hd i hi => ?_⟩
  · cases hg
  · rw [firstInRegion_cons, ite_self, Option.or_none]
    exact (hp.regions d hd i hi).congr (unmapPage_sameRegion v hl hcur hd hi)

/-- A new directory without tables. -/
theorem PermissionInv.addDirectory (hp : PermissionInv s D h) {d : Word} (hfresh : d ∉ D)
    (hpte : ∀ e ∈ D, ∀ a, pte s'.mem e a = pte s.mem e a)
    (hregions : ∀ e ∈ D, ∀ i : Word, i.toNat < 1024 → SameRegion s.mem s'.mem e i)
    (hzero : ∀ i : Word, i.toNat < 1024 → tables s'.mem d i = 0) :
    PermissionInv s' (d :: D) h := by
  have hkeys : ∀ e ∈ h, e.1.1 ≠ d := fun e he heq => hfresh (heq ▸ hp.keys e he)
  refine ⟨fun e he => List.mem_cons_of_mem _ (hp.keys e he), fun e he a f hlast => ?_,
    fun e he i hi => ?_⟩
  · rcases List.mem_cons.mp he with rfl | heD
    · rw [lastEvent_eq_none hkeys] at hlast
      cases hlast
    · rw [hpte e heD a]
      exact hp.entries e heD a f hlast
  · rcases List.mem_cons.mp he with rfl | heD
    · rw [firstInRegion_eq_none hkeys]
      exact hzero i hi
    · exact (hp.regions e heD i hi).congr (hregions e heD i hi)

/-- The loop of `paging_init` is so many calls of `map_page`. -/
theorem PermissionInv.identityMap (hp : PermissionInv s D h) (hl : Layout lo s.mem s.heapCurrent D)
    (hcur : s.currentDirectory ∈ D) {n : Nat}
    (hready : ∀ k < n, TableReady (identityMap s k) (BitVec.ofNat 32 (4096 * k))) :
    PermissionInv (identityMap s n) D (identityFlags s.currentDirectory n ++ h) := by
  induction n with
  | zero => exact hp
  | succ k ih =>
    have ih := ih fun j hj => hready j (by omega)
    obtain ⟨hl', hk, -⟩ := identityMap_spec hl hcur k
    have hcur' : (KyroKernel.identityMap s k).currentDirectory = s.currentDirectory :=
      hk.currentDirectory
    have hmap := ih.mapPage hl' (by rw [hcur']; exact hcur) (BitVec.ofNat 32 (4096 * k))
      (BitVec.ofNat 32 (4096 * k)) (pagePresent ||| pageWritable) (hready k (by omega))
    rw [hcur'] at hmap
    exact hmap

/-- `paging_init` with `n` rounds of its loop. -/
theorem PermissionInv.pagingInit (hp : PermissionInv s D h) (hl : Layout lo s.mem s.heapCurrent D)
    (hfits : PagingInitFits s) {n : Nat}
    (hready : ∀ k < n, TableReady
      (KyroKernel.identityMap (pagingInitKernelDirectory (pagingInitBitmap s)) k)
      (BitVec.ofNat 32 (4096 * k)))
    (heq : s' =
      enablePaging (KyroKernel.identityMap (pagingInitKernelDirectory (pagingInitBitmap s)) n)) :
    PermissionInv s' (s'.kernelDirectory :: D) (identityFlags s'.kernelDirectory n ++ h) := by
  obtain ⟨d, hge, hne, hkd, hcur, hl1, -, hp0, -, hold⟩ := beforeLoop_spec hl hfits
  have hfresh : d ∉ D := hl.not_mem_of_le hge
  obtain ⟨hregions, hzero⟩ := beforeLoop_regions hl hfits.bitmap hfits.directory hkd
  have hloop := (hp.addDirectory hfresh hold hregions hzero).identityMap hl1
    (by rw [hcur]; exact List.mem_cons_self) hready
  obtain ⟨-, hkd', -, -, hmem, -, -⟩ := enablePaging_spec hl1 hkd hcur hp0 hfresh n
  rw [← heq] at hkd' hmem
  rw [hcur] at hloop
  rw [hkd']
  -- Switching at the end changes no entry.
  refine ⟨hloop.keys, ?_, ?_⟩
  · rw [hmem]
    exact hloop.entries
  · rw [hmem]
    exact hloop.regions

theorem permissionInv_step {y y' : PagingSystem} {op : PagingOp} (hinv : PagingInv y)
    (hp : PermissionInv y.state y.directories h) (hstep : PagingStep y op y') :
    PermissionInv y'.state y'.directories (op.flagEvents y.state ++ h) := by
  cases hstep with
  | @pagingInit s D hfits =>
    have hl : Layout 0x300000 s.mem s.heapCurrent D := hinv.layout
    exact hp.pagingInit hl hfits hfits.tables rfl
  | @createPageDirectory s D hfits =>
    have hl : Layout 0x300000 s.mem s.heapCurrent D := hinv.layout
    obtain ⟨hregions, hzero⟩ := createPageDirectory_regions hl hfits
    obtain ⟨-, hold, ⟨-, hge, -⟩ | ⟨h0, -⟩⟩ := createPageDirectory_spec hl
    · dsimp only [PagingOp.flagEvents]
      exact hp.addDirectory (hl.not_mem_of_le hge) hold hregions hzero
    · exact absurd h0 hfits
  | switchPageDirectory => exact ⟨hp.keys, hp.entries, hp.regions⟩
  | mapPage hcur hfits => exact hp.mapPage hinv.layout (hinv.current_mem hcur) _ _ _ hfits
  | unmapPage hcur => exact hp.unmapPage hinv.layout (hinv.current_mem hcur) _

theorem permissionInv_run {tr : List (PagingSystem × PagingOp)} {y : PagingSystem}
    (hrun : Run PagingBoot PagingStep tr y) :
    PermissionInv y.state y.directories (flagHistory tr) := by
  induction hrun with
  | start hinit =>
    rw [hinit.directories]
    exact ⟨fun e he => absurd he List.not_mem_nil, fun d hd => absurd hd List.not_mem_nil,
      fun d hd => absurd hd List.not_mem_nil⟩
  | snoc hrun hstep ih => exact permissionInv_step (pagingInv_run hrun) ih hstep

/-! ## Permissions -/

/-- A page that is mapped lies in a region in which a page was mapped. -/
theorem exists_firstInRegion {d a f : Word} (hlast : lastEvent h d a = some (some f)) :
    ∃ g, firstInRegion h d (dirIndex a) = some g := by
  induction h with
  | nil => cases hlast
  | cons e h ih =>
    obtain ⟨⟨k, page⟩, ev⟩ := e
    rw [firstInRegion]
    cases hfirst : firstInRegion h d (dirIndex a) with
    | some g => exact ⟨g, rfl⟩
    | none =>
      by_cases hkey : d = k ∧ a >>> 12 = page
      · -- The latest event is the first in the region.
        obtain ⟨rfl, rfl⟩ := hkey
        rw [lastEvent, List.lookup_cons_self] at hlast
        rw [if_pos ⟨rfl, (BitVec.shiftRight_add a 12 10).symm⟩, Option.some.inj hlast]
        exact ⟨f, rfl⟩
      · have hne : ((d, a >>> 12) == (k, page)) = false := by simpa using hkey
        rw [lastEvent, List.lookup_cons, hne] at hlast
        obtain ⟨g, hg⟩ := ih hlast
        rw [hfirst] at hg
        cases hg

/-- What the processor checks for a page that was last mapped with the flags `f`, in a region
whose first page was mapped with the flags `g`. -/
theorem PermissionInv.permissions {d a f g : Word} (hp : PermissionInv s D h) (hd : d ∈ D)
    (hlast : lastEvent h d a = some (some f)) (hfirst : firstInRegion h d (dirIndex a) = some g) :
    PermissionsOf s.mem d a f ↔ (f &&& pageUser ≠ 0 → g &&& pageUser = 0) := by
  obtain ⟨huser, hwritable⟩ := hp.entries d hd a f hlast
  have hregion := hp.regions d hd _ (dirIndex_lt a)
  rw [hfirst] at hregion
  obtain ⟨-, hpdeWritable, hpdeUser⟩ := hregion
  unfold PermissionsOf UserAccessible Writable
  rw [huser, hwritable, hpdeUser]
  constructor
  · rintro ⟨hiff, -⟩ hf
    exact (hiff.mpr hf).1
  · intro hcond
    exact ⟨⟨And.right, fun hf => ⟨hcond hf, hf⟩⟩, ⟨And.right, fun hf => ⟨hpdeWritable, hf⟩⟩⟩

/-- In every run, a page that was last mapped with the flags `f` has their permissions exactly
when `f` lacks `PAGE_USER` or the first page mapped in its region lacked it. -/
theorem pagePermissions_iff {tr : List (PagingSystem × PagingOp)} {y : PagingSystem}
    (hrun : Run PagingBoot PagingStep tr y) {d : Word} (hd : d ∈ y.directories) {v f : Word}
    (hlast : lastEvent (flagHistory tr) d v = some (some f)) :
    PermissionsOf y.state.mem d v f ↔ (f &&& pageUser ≠ 0 →
      ∀ g, firstInRegion (flagHistory tr) d (dirIndex v) = some g → g &&& pageUser = 0) := by
  obtain ⟨g, hg⟩ := exists_firstInRegion hlast
  rw [(permissionInv_run hrun).permissions hd hlast hg]
  constructor
  · intro himp hf g' hg'
    obtain rfl := Option.some.inj (hg.symm.trans hg')
    exact himp hf
  · exact fun himp hf => himp hf g hg

/-- A user page that is the first of its region is closed to user mode. -/
theorem not_forall_pagePermissions : ¬ ∀ (tr : List (PagingSystem × PagingOp)) (y : PagingSystem),
    Run PagingBoot PagingStep tr y → ∀ d ∈ y.directories, ∀ v f : Word,
      lastEvent (flagHistory tr) d v = some (some f) → f &&& pagePresent ≠ 0 →
      PermissionsOf y.state.mem d v f := by
  intro hall
  have hcur : switchedState.currentDirectory ≠ 0 := by
    show (0x300000 : Word) ≠ 0
    decide
  have hmap : PagingStep ⟨switchedState, [0x300000]⟩
      (.mapPage 0 0x5000 (pagePresent ||| pageWritable ||| pageUser)) _ :=
    .mapPage hcur (tableReady_switchedState 0)
  have hrun := run_mappedState.tail.snoc hmap
  have hperm := hall _ _ hrun 0x300000 List.mem_cons_self 0
    (pagePresent ||| pageWritable ||| pageUser) rfl (by decide)
  have hiff := (permissionInv_run hrun).permissions (d := 0x300000) (a := 0)
    (f := pagePresent ||| pageWritable ||| pageUser)
    (g := pagePresent ||| pageWritable ||| pageUser) List.mem_cons_self rfl rfl
  exact absurd (hiff.mp hperm (by decide)) (by decide)

/-- In the short run the mapped page is writable and closed to user mode, as its flags say. -/
theorem pagePermissions_iff_mappedState :
    PermissionsOf mappedState.mem 0x300000 0 (pagePresent ||| pageWritable) :=
  (pagePermissions_iff run_mappedState List.mem_cons_self rfl).mpr fun hf => absurd rfl hf

end KyroKernel
