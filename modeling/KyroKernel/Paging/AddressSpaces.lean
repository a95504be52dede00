import KyroKernel.Paging.Runs

/-!
# Address spaces as independent maps

The abstract view of a directory: which frame each of its pages was last mapped to. The
history of a run lists the mapping and unmapping of single pages, each under the directory
that was current, latest first. `get_physical_address` answers from that history alone.
-/

namespace KyroKernel

open Foundations

/-! ## Histories -/

/-- What happened to single pages, latest first: for the page number `page` of the
directory `dir`, `((dir, page), some p)` when it was mapped to `p` and
`((dir, page), none)` when it was unmapped. -/
abbrev MapHistory := List ((Word × Word) × Option Word)

/-- The first `n` rounds of the loop of `paging_init` under the directory `dir`. -/
def identityEvents (dir : Word) : Nat → MapHistory
  | 0 => []
  | k + 1 =>
    ((dir, BitVec.ofNat 32 (4096 * k) >>> 12), some (BitVec.ofNat 32 (4096 * k))) ::
      identityEvents dir k

/-- What one call does to pages, from the state before the call. -/
def PagingOp.events (s : PagingState) : PagingOp → MapHistory
  | .pagingInit => identityEvents (KyroKernel.pagingInit s).kernelDirectory 2048
  | .createPageDirectory => []
  | .switchPageDirectory _ => []
  | .mapPage v p _ => [((s.currentDirectory, v >>> 12), some p)]
  | .unmapPage v => [((s.currentDirectory, v >>> 12), none)]

/-- What the steps of a run did to pages. -/
def history (tr : List (PagingSystem × PagingOp)) : MapHistory :=
  tr.flatMap fun p => p.2.events p.1.state

/-- The latest event on the page of `a` in `dir`. -/
def lastEvent (h : MapHistory) (dir a : Word) : Option (Option Word) :=
  h.lookup (dir, a >>> 12)

/-- What the page of `a` in `dir` was last mapped to, if it was mapped and not unmapped
since. -/
def lastMapping (h : MapHistory) (dir a : Word) : Option Word :=
  (lastEvent h dir a).join

/-- `get_physical_address(a)` with `dir` as the current directory. -/
def translation (s : PagingState) (dir a : Word) : Word :=
  getPhysicalAddress { s with currentDirectory := dir } a

/-- The translation of `a` when its page was last mapped to the given address, if any. -/
def translationOf (a : Word) : Option Word → Word
  | some p => frameOf p ||| pageOffset a
  | none => 0

/-- A call that maps does so with flags in the low twelve bits that contain
`PAGE_PRESENT`. -/
def PagingOp.FlagsOk : PagingOp → Prop
  | .mapPage _ _ f => f.toNat < 4096 ∧ f &&& pagePresent ≠ 0
  | _ => True

/-- The call maps or unmaps the page of `a` in `dir`. -/
def PagingOp.Touches (s : PagingState) (op : PagingOp) (dir a : Word) : Prop :=
  lastEvent (op.events s) dir a ≠ none

theorem lastEvent_cons (d v dir a : Word) (e : Option Word) (h : MapHistory) :
    lastEvent (((d, v >>> 12), e) :: h) dir a =
      if dir = d ∧ a >>> 12 = v >>> 12 then some e else lastEvent h dir a := by
  unfold lastEvent
  rw [List.lookup_cons]
  by_cases hkey : dir = d ∧ a >>> 12 = v >>> 12
  · rw [if_pos hkey, hkey.1, hkey.2, beq_self_eq_true]
  · have hne : ((dir, a >>> 12) == (d, v >>> 12)) = false := by
      simpa using hkey
    rw [if_neg hkey, hne]

theorem lastEvent_append (es h : MapHistory) (dir a : Word) :
    lastEvent (es ++ h) dir a = (lastEvent es dir a).or (lastEvent h dir a) :=
  List.lookup_append

/-- A page of a directory that no event is about has no event. -/
theorem lastEvent_eq_none {h : MapHistory} {dir : Word} (hkeys : ∀ e ∈ h, e.1.1 ≠ dir)
    (a : Word) : lastEvent h dir a = none := by
  unfold lastEvent
  rw [List.lookup_eq_none_iff]
  intro e he
  have hne : (dir, a >>> 12) ≠ e.1 := fun heq => hkeys e he (congrArg Prod.fst heq).symm
  simpa using hne

theorem translation_eq (s : PagingState) (dir a : Word) :
    translation s dir a =
      if pte s.mem dir a &&& presentBit = 0 then 0
      else frameOf (pte s.mem dir a) ||| pageOffset a :=
  getPhysicalAddress_eq ..

/-! ## Entries and events -/

/-- The entry of a page after the event `e` on that page. -/
def EntryMatches (entry : Word) : Option Word → Prop
  | some p => entry &&& presentBit ≠ 0 ∧ frameOf entry = frameOf p
  | none => entry = 0

/-- `map_page` with good flags stores an entry that matches the mapping. -/
theorem entryMatches_entry {p f : Word} (hlow : f.toNat < 4096) (hpres : f &&& pagePresent ≠ 0) :
    EntryMatches (frameOf p ||| f) (some p) := by
  refine ⟨?_, frameOf_entry hlow⟩
  rw [present_entry]
  exact hpres

/-- An entry that matches the last mapping of its page translates as that mapping says. -/
theorem translation_of_entryMatches {s : PagingState} {dir a : Word} {e : Option Word}
    (h : EntryMatches (pte s.mem dir a) e) :
    translation s dir a = translationOf a e := by
  rw [translation_eq]
  generalize pte s.mem dir a = entry at h ⊢
  cases e with
  | some p =>
    obtain ⟨hpres, hframe⟩ := h
    rw [if_neg hpres, hframe, translationOf]
  | none =>
    have h0 : entry = 0 := h
    rw [h0, if_pos (by decide), translationOf]

theorem identityEvents_keys {dir : Word} {n : Nat} :
    ∀ e ∈ identityEvents dir n, e.1.1 = dir := by
  induction n with
  | zero => simp [identityEvents]
  | succ k ih =>
    intro e he
    rcases List.mem_cons.mp he with rfl | he'
    · rfl
    · exact ih e he'

variable {lo : Nat} {D : List Word} {s : PagingState}

/-- The loop of `paging_init`, started on an empty current directory, leaves in it exactly
the entries that match the rounds made so far. -/
theorem identityMap_entries (h : Layout lo s.mem s.heapCurrent D) (hcur : s.currentDirectory ∈ D)
    (hempty : ∀ a, pte s.mem s.currentDirectory a = 0) {n : Nat}
    (hready : ∀ k < n, TableReady (identityMap s k) (BitVec.ofNat 32 (4096 * k))) (a : Word) :
    EntryMatches (pte (identityMap s n).mem s.currentDirectory a)
      (lastMapping (identityEvents s.currentDirectory n) s.currentDirectory a) := by
  induction n with
  | zero => exact hempty a
  | succ k ih =>
    have ih := ih fun j hj => hready j (by omega)
    obtain ⟨hl, hk, -⟩ := identityMap_spec h hcur k
    have hcur' : (identityMap s k).currentDirectory = s.currentDirectory := hk.currentDirectory
    obtain ⟨-, -, hmap, -⟩ := mapPage_spec (BitVec.ofNat 32 (4096 * k))
      (BitVec.ofNat 32 (4096 * k)) (pagePresent ||| pageWritable) hl (by rw [hcur']; exact hcur)
    have hpte := hmap (hready k (by omega)) _ hcur a
    rw [identityMap, hpte, hcur']
    unfold lastMapping at ih ⊢
    rw [identityEvents, lastEvent_cons]
    by_cases hpage : a >>> 12 = BitVec.ofNat 32 (4096 * k) >>> 12
    · rw [if_pos ⟨rfl, hpage⟩, if_pos ⟨rfl, hpage⟩]
      exact entryMatches_entry (by decide) (by decide)
    · rw [if_neg fun hh => hpage hh.2, if_neg fun hh => hpage hh.2]
      exact ih

/-! ## One step -/

/-- What a step from `s` to `s'` does to every entry of every directory: an entry with an
event matches it, an old entry without one is unchanged, and a new directory starts empty. -/
structure StepEntries (s s' : PagingState) (D D' : List Word) (es : MapHistory) : Prop where
  keys : ∀ e ∈ es, e.1.1 ∈ D'
  sub : ∀ d ∈ D, d ∈ D'
  event : ∀ d ∈ D', ∀ a e, lastEvent es d a = some e → EntryMatches (pte s'.mem d a) e
  old : ∀ d ∈ D, ∀ a, lastEvent es d a = none → pte s'.mem d a = pte s.mem d a
  fresh : ∀ d ∈ D', d ∉ D → ∀ a, lastEvent es d a = none → pte s'.mem d a = 0

theorem stepEntries_pagingInit (h : Layout lo s.mem s.heapCurrent D) (hfits : PagingInitFits s)
    {n : Nat} (hready : ∀ k < n, TableReady
      (identityMap (pagingInitKernelDirectory (pagingInitBitmap s)) k)
      (BitVec.ofNat 32 (4096 * k))) {s' : PagingState}
    (heq : s' = enablePaging (identityMap (pagingInitKernelDirectory (pagingInitBitmap s)) n)) :
    StepEntries s s' D (s'.kernelDirectory :: D) (identityEvents s'.kernelDirectory n) := by
  obtain ⟨d, hge, hne, hkd, hcur, hl1, -, hp0, hzero, hold⟩ := beforeLoop_spec h hfits
  have hfresh : d ∉ D := h.not_mem_of_le hge
  obtain ⟨-, hkd', -, -, hmem, -, hold'⟩ := enablePaging_spec hl1 hkd hcur hp0 hfresh n
  rw [← heq] at hkd' hmem hold'
  have hentries := identityMap_entries hl1 (by rw [hcur]; exact List.mem_cons_self)
    (by rw [hcur]; exact hzero) hready
  rw [hcur, ← hmem] at hentries
  rw [hkd']
  refine ⟨fun e he => ?_, fun e he => List.mem_cons_of_mem _ he, fun e he a ev hev => ?_,
    fun e he a _ => ?_, fun e he hnot a hnone => ?_⟩
  · rw [identityEvents_keys e he]
    exact List.mem_cons_self
  · rcases List.mem_cons.mp he with rfl | heD
    · have hmatch := hentries a
      unfold lastMapping at hmatch
      rw [hev] at hmatch
      exact hmatch
    · have hother : lastEvent (identityEvents d n) e a = none := by
        refine lastEvent_eq_none (fun k hk hke => ?_) a
        rw [identityEvents_keys k hk] at hke
        exact hfresh (hke ▸ heD)
      rw [hother] at hev
      cases hev
  · exact (hold' e he a).trans (hold e he a)
  · obtain rfl : e = d := (List.mem_cons.mp he).resolve_right hnot
    have hmatch := hentries a
    unfold lastMapping at hmatch
    rw [hnone] at hmatch
    exact hmatch

/-- A call without events that adds at most an empty directory. -/
theorem stepEntries_nil {s' : PagingState} {D' : List Word} (hsub : ∀ d ∈ D, d ∈ D')
    (hold : ∀ d ∈ D, ∀ a, pte s'.mem d a = pte s.mem d a)
    (hzero : ∀ d ∈ D', d ∉ D → ∀ a, pte s'.mem d a = 0) : StepEntries s s' D D' [] where
  keys _ he := absurd he List.not_mem_nil
  sub := hsub
  event d hd a e he := by cases he
  old d hd a _ := hold d hd a
  fresh d hd hnot a _ := hzero d hd hnot a

/-- A call on the current directory's entry of the page of `v`. -/
theorem stepEntries_single {s' : PagingState} {v : Word} {e : Option Word} {entry : Word}
    (hcur : s.currentDirectory ∈ D) (hmatch : EntryMatches entry e)
    (hpte : ∀ d ∈ D, ∀ a, pte s'.mem d a =
      if d = s.currentDirectory ∧ a >>> 12 = v >>> 12 then entry else pte s.mem d a) :
    StepEntries s s' D D [((s.currentDirectory, v >>> 12), e)] := by
  have hnil : ∀ d a, lastEvent [] d a = none := fun _ _ => rfl
  refine ⟨fun k hk => ?_, fun _ => id, fun d hd a ev hev => ?_, fun d hd a hnone => ?_,
    fun d hd hnot => absurd hd hnot⟩
  · obtain rfl := List.mem_singleton.mp hk
    exact hcur
  · rw [lastEvent_cons, hnil] at hev
    simp only [hpte d hd a]
    split_ifs at hev ⊢ with hpage
    obtain rfl := Option.some.inj hev
    exact hmatch
  · rw [lastEvent_cons, hnil] at hnone
    simp only [hpte d hd a]
    split_ifs at hnone ⊢ with hpage
    rfl

theorem stepEntries_step {y y' : PagingSystem} {op : PagingOp} (h : PagingInv y)
    (hstep : PagingStep y op y') (hflags : op.FlagsOk) :
    StepEntries y.state y'.state y.directories y'.directories (op.events y.state) := by
  cases hstep with
  | pagingInit hfits =>
    exact stepEntries_pagingInit h.layout hfits hfits.tables rfl
  | @createPageDirectory s D hfits =>
    have hl : Layout 0x300000 s.mem s.heapCurrent D := h.layout
    obtain ⟨-, hold, ⟨-, -, -, -, hzero⟩ | ⟨h0, -⟩⟩ := createPageDirectory_spec hl
    · dsimp only [PagingOp.events]
      refine stepEntries_nil (fun d hd => List.mem_cons_of_mem _ hd) hold fun d hd hnot a => ?_
      rw [(List.mem_cons.mp hd).resolve_right hnot]
      exact hzero a
    · exact absurd h0 hfits
  | switchPageDirectory hdir =>
    exact stepEntries_nil (fun _ => id) (fun _ _ _ => rfl) fun d hd hnot => absurd hd hnot
  | @mapPage s D v p f hcur hfits =>
    have hl : Layout 0x300000 s.mem s.heapCurrent D := h.layout
    obtain ⟨-, -, hpte, -⟩ := mapPage_spec v p f hl (h.current_mem hcur)
    exact stepEntries_single (h.current_mem hcur) (entryMatches_entry hflags.1 hflags.2)
      (hpte hfits)
  | @unmapPage s D v hcur =>
    have hl : Layout 0x300000 s.mem s.heapCurrent D := h.layout
    obtain ⟨-, -, hpte⟩ := unmapPage_spec v hl (h.current_mem hcur)
    exact stepEntries_single (h.current_mem hcur) rfl hpte

/-! ## Whole runs -/

/-- The entries of all directories and the history `h` agree. -/
structure AddressInv (y : PagingSystem) (h : MapHistory) : Prop where
  keys : ∀ e ∈ h, e.1.1 ∈ y.directories
  entries : ∀ d ∈ y.directories, ∀ a, EntryMatches (pte y.state.mem d a) (lastMapping h d a)

theorem AddressInv.step {y y' : PagingSystem} {h es : MapHistory} (hinv : AddressInv y h)
    (hs : StepEntries y.state y'.state y.directories y'.directories es) : AddressInv y' (es ++ h) := by
  constructor
  · intro e he
    rcases List.mem_append.mp he with hnew | hold
    · exact hs.keys e hnew
    · exact hs.sub _ (hinv.keys e hold)
  · intro d hd a
    unfold lastMapping
    rw [lastEvent_append]
    cases hev : lastEvent es d a with
    | some e => exact hs.event d hd a e hev
    | none =>
      rw [Option.none_or]
      by_cases hold : d ∈ y.directories
      · rw [hs.old d hold a hev]
        exact hinv.entries d hold a
      · have hnone : lastEvent h d a = none :=
          lastEvent_eq_none (fun k hk hke => hold (by rw [← hke]; exact hinv.keys k hk)) a
        rw [hs.fresh d hd hold a hev, hnone]
        rfl

theorem addressInv_run {tr : List (PagingSystem × PagingOp)} {y : PagingSystem}
    (hrun : Run PagingBoot PagingStep tr y) (hflags : ∀ p ∈ tr, p.2.FlagsOk) :
    AddressInv y (history tr) := by
  induction hrun with
  | start hinit =>
    have hd := hinit.directories
    exact ⟨fun e he => absurd he List.not_mem_nil, fun d hmem => by simp [hd] at hmem⟩
  | snoc hrun hstep ih =>
    obtain ⟨hhd, htl⟩ := List.forall_mem_cons.mp hflags
    have hs := stepEntries_step (pagingInv_run hrun) hstep hhd
    exact (ih htl).step hs

/-- In every run whose mappings have good flags, every directory translates an address as
the latest mapping of its page in that directory says. -/
theorem translation_of_run {tr : List (PagingSystem × PagingOp)} {y : PagingSystem}
    (hrun : Run PagingBoot PagingStep tr y) (hflags : ∀ p ∈ tr, p.2.FlagsOk) {d : Word}
    (hd : d ∈ y.directories) (a : Word) :
    translation y.state d a = translationOf a (lastMapping (history tr) d a) :=
  translation_of_entryMatches ((addressInv_run hrun hflags).entries d hd a)

/-- A call leaves the translation of every page alone that it neither maps nor unmaps. -/
theorem translation_of_not_touches {y y' : PagingSystem} {op : PagingOp} (h : PagingInv y)
    (hstep : PagingStep y op y') (hflags : op.FlagsOk) {d : Word} (hd : d ∈ y.directories)
    {a : Word} (hnot : ¬ op.Touches y.state d a) :
    translation y'.state d a = translation y.state d a := by
  have hs := stepEntries_step h hstep hflags
  rw [translation_eq, translation_eq, hs.old d hd a (not_not.mp hnot)]

/-- Each address space is an independent map: under the current directory
`get_physical_address` answers from the latest mapping of the page in that directory, and
every further call leaves all pages it is not about alone, in every directory. -/
theorem addressSpaces_independent {tr : List (PagingSystem × PagingOp)} {y : PagingSystem}
    (hrun : Run PagingBoot PagingStep tr y) (hflags : ∀ p ∈ tr, p.2.FlagsOk) :
    (y.state.currentDirectory ≠ 0 → ∀ a, getPhysicalAddress y.state a =
      translationOf a (lastMapping (history tr) y.state.currentDirectory a)) ∧
    ∀ op y', PagingStep y op y' → op.FlagsOk → ∀ d ∈ y.directories, ∀ a,
      ¬ op.Touches y.state d a → translation y'.state d a = translation y.state d a := by
  have hinv := pagingInv_run hrun
  refine ⟨fun hcur a => ?_, fun op y' hstep hop d hd a hnot => ?_⟩
  · exact translation_of_run hrun hflags (hinv.current_mem hcur) a
  · exact translation_of_not_touches hinv hstep hop hd hnot

/-- In the short run the mapped page translates to its frame. -/
theorem addressSpaces_independent_mappedState : getPhysicalAddress mappedState 0x123 = 0x5123 := by
  have hflags : ∀ p ∈ [((⟨switchedState, [0x300000]⟩ : PagingSystem),
        PagingOp.mapPage 0 0x5000 (pagePresent ||| pageWritable)),
      (⟨(createPageDirectory bootState).2, [0x300000]⟩, .switchPageDirectory 0x300000),
      (⟨bootState, []⟩, .createPageDirectory)], p.2.FlagsOk := by
    intro p hp
    simp only [List.mem_cons, List.not_mem_nil, or_false] at hp
    rcases hp with rfl | rfl | rfl
    · exact ⟨by decide, by decide⟩
    · trivial
    · trivial
  have hcd : mappedState.currentDirectory = 0x300000 := mappedState_spec.1
  have htr := (addressSpaces_independent run_mappedState hflags).1
    (by show mappedState.currentDirectory ≠ 0; rw [hcd]; decide) 0x123
  have hgoal : getPhysicalAddress mappedState 0x123 = translationOf 0x123 (some 0x5000) := by
    rw [htr]
    show translationOf _ (lastMapping _ mappedState.currentDirectory _) = _
    rw [hcd]
    rfl
  rw [hgoal]
  decide

end KyroKernel
