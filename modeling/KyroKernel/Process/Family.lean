import KyroKernel.Process.Creation
import KyroKernel.Process.Fairness
import KyroKernel.Process.ProcessIds

/-!
# The family of the processes

`fork` is the only function that sets `ppid` and `parent`, and no function clears them, so the records
of the processes hold the history of the forks. The records are never used again: `kfree` frees
nothing. The runs are those of `KyroKernel.Process.Creation`, with paging calls and with requests to
the heap and to the bitmap in between.
-/

namespace KyroKernel

open Foundations

/-- `proc->parent`. -/
def KernelState.parent (s : KernelState) (proc : Word) : Word := (s.procs proc).parent

/-- The process `proc` was made by a call of `fork` while `parent` was current. -/
def ForkedBy (tr : List (KernelSystem × CreationOp)) (proc parent : Word) : Prop :=
  ∃ p ∈ tr, p.2 = .kernel (.process .fork) ∧ forkChild p.1.kernel = proc ∧
    p.1.kernel.currentProcess = parent

/-- The pointers to the parents are a forest on the processes created so far, and the history of the
forks of the run `tr`. -/
structure FamilyTree (tr : List (KernelSystem × CreationOp)) (y : KernelSystem) : Prop where
  parent : ∀ p ∈ y.processes.created, ∀ q, q ≠ 0 → (y.kernel.parent p = q ↔ ForkedBy tr p q)
  /-- `ppid` is the pid of the parent, also when the parent has exited or was destroyed. -/
  ppid : ∀ p ∈ y.processes.created, (y.kernel.procs p).ppid =
    if y.kernel.parent p = 0 then 0 else (y.kernel.procs (y.kernel.parent p)).pid
  /-- From parent to parent one comes to NULL, and the pids go down. -/
  ancestors : ∀ p ∈ y.processes.created, ∃ l, Chain 0 y.kernel.parent (y.kernel.parent p) l ∧
    (∀ a ∈ l, a ∈ y.processes.created ∧ (y.kernel.procs a).pid < (y.kernel.procs p).pid) ∧
    l.Pairwise fun a b => (y.kernel.procs b).pid < (y.kernel.procs a).pid

/-! ## §1 What a call does to the families -/

/-- A call that creates no process keeps the families. -/
def KeepsFamily (s s' : KernelState) : Prop :=
  ∀ q, (s'.procs q).pid = (s.procs q).pid ∧ (s'.procs q).ppid = (s.procs q).ppid ∧
    s'.parent q = s.parent q

/-- A call that creates `proc` makes it a child of `forker`, or of nobody when that is NULL. -/
structure AddsChild (s s' : KernelState) (proc forker : Word) : Prop where
  new : NewProcess s s' proc
  parent : s'.parent proc = forker
  ppid : (s'.procs proc).ppid = if forker = 0 then 0 else (s.procs forker).pid

variable {s s' s'' : KernelState} {c d D : List Word}

theorem KeepsFamily.trans (h : KeepsFamily s s') (h' : KeepsFamily s' s'') : KeepsFamily s s'' :=
  fun q => ⟨(h' q).1.trans (h q).1, (h' q).2.1.trans (h q).2.1, (h' q).2.2.trans (h q).2.2⟩

theorem keepsFamily_of_procs (h : s'.procs = s.procs) : KeepsFamily s s' := by
  intro q
  unfold KernelState.parent
  rw [h]
  exact ⟨rfl, rfl, rfl⟩

theorem KeepsFamily.refl (s : KernelState) : KeepsFamily s s := keepsFamily_of_procs rfl

/-- A change of a state keeps the families. -/
theorem keepsFamily_setState (s : KernelState) (proc : Word) (state : ProcessState) :
    KeepsFamily s (s.modify proc (·.setState state)) := by
  intro q
  unfold KernelState.parent
  by_cases hq : q = proc
  · rw [hq, modify_procs_self]
    exact ⟨rfl, rfl, rfl⟩
  · rw [modify_procs_of_ne hq]
    exact ⟨rfl, rfl, rfl⟩

theorem schedule_keepsFamily {esp : Word} {fuel : Nat} (hret : schedule s esp fuel = some s') :
    KeepsFamily s s' := by
  unfold schedule at hret
  by_cases hcur : s.currentProcess = 0
  · rw [if_pos hcur] at hret
    obtain rfl := Option.some.inj hret
    exact .refl s
  · rw [if_neg hcur, Option.map_eq_some_iff] at hret
    obtain ⟨next, -, rfl⟩ := hret
    by_cases hgo : next ≠ 0 ∧ next ≠ s.currentProcess ∧ (s.procs next).state = .ready
    · rw [if_pos hgo]
      intro q
      unfold KernelState.parent
      rw [switchTask_procs esp hgo.1 hgo.2.1]
      split_ifs with h₁ h₂
      · rw [h₁]
        exact ⟨rfl, rfl, rfl⟩
      · rw [h₂]
        exact ⟨rfl, rfl, rfl⟩
      · exact ⟨rfl, rfl, rfl⟩
    · rw [if_neg hgo]
      exact .refl s

theorem Unlinked.keepsFamily {proc : Word} (h : Unlinked s s' proc) : KeepsFamily s s' := by
  intro q
  unfold KernelState.parent
  rw [h.data q]
  exact ⟨rfl, rfl, rfl⟩

/-- `create_process` leaves `ppid` as `memset` made it. -/
theorem ppid_fillProcess (s : KernelState) (name : List Byte) (entryPoint : Word)
    (kernelMode : Bool) : (fillProcess s name entryPoint kernelMode).1.ppid = 0 := by
  rw [fillProcess]
  generalize kmalloc s.heapCurrent kernelStackSize = stack
  dsimp only
  cases kernelMode with
  | true =>
    simp only [setUpKernelProcess, if_true]
    split_ifs <;> rfl
  | false =>
    simp only [setUpUserProcess_eq, Bool.false_eq_true, if_false]
    split_ifs <;> rfl

theorem ppid_createProcess (name : List Byte) (entryPoint : Word) (kernelMode : Bool)
    (h : (createProcess s name entryPoint kernelMode).1 ≠ 0) :
    ((createProcess s name entryPoint kernelMode).2.procs
      (createProcess s name entryPoint kernelMode).1).ppid = 0 := by
  rw [createProcess_fst] at h
  rcases hk : kmalloc s.heapCurrent sizeofProcess with ⟨proc, heapCurrent⟩
  rw [hk] at h
  have hppid := ppid_fillProcess { s with heapCurrent := heapCurrent } name entryPoint kernelMode
  rw [createProcess, hk]
  dsimp only
  rw [if_neg h]
  generalize fillProcess _ name entryPoint kernelMode = f at hppid ⊢
  simp only [Function.update_self]
  exact hppid

theorem createProcess_addsChild (name : List Byte) (entryPoint : Word) (kernelMode : Bool)
    (hpos : s.heapCurrent ≠ 0) (hle : s.heapCurrent.toNat ≤ 0x800000) :
    ((createProcess s name entryPoint kernelMode).1 = 0 ∧
      (createProcess s name entryPoint kernelMode).2 = s) ∨
    AddsChild s (createProcess s name entryPoint kernelMode).2
      (createProcess s name entryPoint kernelMode).1 0 := by
  refine (createProcess_spec name entryPoint kernelMode hpos hle).imp id fun ⟨hnew, hfresh⟩ => ?_
  exact ⟨hnew, hfresh.parent, (ppid_createProcess name entryPoint kernelMode hnew.ne_zero).trans
    (if_pos rfl).symm⟩

theorem fork_addsChild (hcur : s.currentProcess ≠ 0) (hpos : s.heapCurrent ≠ 0)
    (hle : s.heapCurrent.toNat ≤ 0x800000) (hown : s.currentProcess ≠ s.heapCurrent) :
    (forkChild s = 0 ∧ (fork s).2 = s) ∨
      AddsChild s (fork s).2 (forkChild s) s.currentProcess := by
  refine (fork_spec hpos hle).imp id fun hnew => ?_
  obtain ⟨hchild, hfork⟩ := fork_eq hcur
  have hne : forkChild s ≠ 0 := hnew.ne_zero
  have hspec := createProcess_spec (s.procs s.currentProcess).name 0 false hpos hle
  refine ⟨hnew, ?_, ?_⟩
  · unfold KernelState.parent
    rw [hfork, if_neg (hchild ▸ hne), hchild, modify_procs_self]
    rfl
  · rw [hfork, if_neg (hchild ▸ hne), hchild, modify_procs_self, if_neg hcur]
    rw [hchild] at hne
    obtain ⟨h0, -⟩ | ⟨hcreated, -⟩ := hspec
    · exact absurd h0 hne
    · -- The record of the parent is not the one of the child.
      generalize createProcess s (s.procs s.currentProcess).name 0 false = r at hcreated ⊢
      change (r.2.procs s.currentProcess).pid = _
      rw [hcreated.others _ (by rw [hcreated.fresh]; exact hown)]

/-- The call is `fork`. -/
def CreationOp.IsFork (op : CreationOp) : Prop := op = .kernel (.process .fork)

/-- What a call does to the families. -/
inductive FamilyStep (y : KernelSystem) (op : CreationOp) (y' : KernelSystem) : Prop where
  | kept (hcreated : y'.processes.created = y.processes.created)
      (hkeeps : KeepsFamily y.kernel y'.kernel) (hfork : op.IsFork → forkChild y.kernel = 0)
  | created {proc : Word} (hcreated : y'.processes.created = proc :: y.processes.created)
      (hadds : AddsChild y.kernel y'.kernel proc 0) (hfork : ¬ op.IsFork)
  | forked {proc : Word} (hcreated : y'.processes.created = proc :: y.processes.created)
      (hadds : AddsChild y.kernel y'.kernel proc y.kernel.currentProcess)
      (hfork : op.IsFork) (hchild : forkChild y.kernel = proc)

/-- The current process has a record below the next one. -/
theorem ProcessInv.current_ne_heap (h : ProcessInv ⟨s, c, d⟩) :
    s.currentProcess ≠ s.heapCurrent := by
  intro heq
  have hbelow : s.currentProcess.toNat + 136 ≤ s.heapCurrent.toNat := h.below _ h.current
  rw [heq] at hbelow
  omega

theorem familyStep_of_process {y y' : ProcessSystem} {op : ProcessOp} (h : ProcessInv y)
    (hstep : ProcessStep y op y') (D D' : List Word) :
    FamilyStep ⟨y, D⟩ (.kernel (.process op)) ⟨y', D'⟩ := by
  cases hstep with
  | @createProcess s c d name entryPoint kernelMode =>
    have hpos : s.heapCurrent ≠ 0 := h.heap_ne_zero
    have hfork : ¬ (CreationOp.kernel (.process (.createProcess name entryPoint kernelMode))).IsFork :=
      nofun
    rcases createProcess_addsChild name entryPoint kernelMode hpos h.heap_le with ⟨h0, hs⟩ | hadds
    · rw [h0, hs]
      exact .kept rfl (.refl s) fun hop => absurd hop hfork
    · exact .created (if_neg hadds.new.ne_zero) hadds hfork
  | @fork s c d =>
    have hpos : s.heapCurrent ≠ 0 := h.heap_ne_zero
    have hcur : s.currentProcess ≠ 0 := h.ne_zero _ h.current
    rcases fork_addsChild hcur hpos h.heap_le h.current_ne_heap with ⟨h0, hs⟩ | hadds
    · rw [h0, hs]
      exact .kept rfl (.refl s) fun _ => h0
    · exact .forked (if_neg hadds.new.ne_zero) hadds rfl rfl
  | schedule hret => exact .kept rfl (schedule_keepsFamily hret) nofun
  | @exit s s' c d esp fuel hret =>
    rw [h.exit_eq, h.exitCurrent_eq] at hret
    exact .kept rfl ((keepsFamily_setState s _ _).trans (schedule_keepsFamily hret)) nofun
  | destroyProcess _ hret =>
    exact .kept rfl (destroyProcess_unlinked hret).keepsFamily nofun

theorem familyStep {y y' : KernelSystem} {op : CreationOp} (h : ProcessInv y.processes)
    (hstep : CreationStep y op y') : FamilyStep y op y' := by
  cases hstep with
  | kernel hstep =>
    cases hstep with
    | process hstep => exact familyStep_of_process h hstep _ _
    | allocFrame | mapPage | unmapPage | createPageDirectory | switchPageDirectory =>
      exact .kept rfl (keepsFamily_of_procs rfl) nofun
  | heap | setFrame | clearFrame => exact .kept rfl (keepsFamily_of_procs rfl) nofun

/-! ## §2 The pids -/

/-- The pids of the runs of `KyroKernel.Process.ProcessIds` are those of the runs here. -/
theorem PidInv.of_creationStep {y y' : KernelSystem} {op : CreationOp} (h : PidInv y.processes)
    (hstep : CreationStep y op y') : PidInv y'.processes := by
  cases hstep with
  | kernel hstep =>
    cases hstep with
    | process hstep => exact h.step (.process hstep)
    | @allocFrame s c d D v k w => exact h.step (@KernelCallStep.paging s c d (.allocFrame v k w))
    | @mapPage s c d D v p f => exact h.step (@KernelCallStep.paging s c d (.mapPage v p f))
    | @unmapPage s c d D v => exact h.step (@KernelCallStep.paging s c d (.unmapPage v))
    | @createPageDirectory s c d D => exact h.step (@KernelCallStep.paging s c d .createPageDirectory)
    | @switchPageDirectory s c d D dir => exact h.step (@KernelCallStep.paging s c d (.switchPageDirectory dir))
  | @heap s c d D call hfit =>
    have hle : s.heapCurrent.toNat ≤ 0x800000 := h.heap_le
    refine h.of_keepsPids rfl ⟨⟨HeapCall.exec_ge hle hfit, HeapCall.exec_le hle call⟩, rfl,
      fun _ => rfl⟩
  | @setFrame s c d D a =>
    have hheap : (setFrame s.toPagingState a).heapCurrent = s.heapCurrent := by
      rw [setFrame_globals]
    refine h.of_keepsPids rfl ⟨⟨?_, ?_⟩, rfl, fun _ => rfl⟩
    · exact Nat.le_of_eq (congrArg BitVec.toNat hheap).symm
    · exact Nat.le_trans (Nat.le_of_eq (congrArg BitVec.toNat hheap)) h.heap_le
  | @clearFrame s c d D a =>
    have hheap : (clearFrame s.toPagingState a).heapCurrent = s.heapCurrent := by
      rw [clearFrame_globals]
    refine h.of_keepsPids rfl ⟨⟨?_, ?_⟩, rfl, fun _ => rfl⟩
    · exact Nat.le_of_eq (congrArg BitVec.toNat hheap).symm
    · exact Nat.le_trans (Nat.le_of_eq (congrArg BitVec.toNat hheap)) h.heap_le

theorem pidInv_of_processBoot {y : ProcessSystem} (h : ProcessBoot y) : PidInv y := by
  obtain ⟨s, hb, rfl⟩ := h
  have hheap : s.heapCurrent = 0x306000 := hb.paging.heapCurrent
  have hle : s.heapCurrent.toNat ≤ 0x800000 := by
    rw [hheap]
    decide
  have hpos : s.heapCurrent ≠ 0 := by
    rw [hheap]
    decide
  have hempty : PidInv ⟨s, [], []⟩ := by
    refine ⟨hle, ?_, fun p hp => absurd hp List.not_mem_nil, hb.nextPid, rfl⟩
    change 0x300000 + 0 ≤ s.heapCurrent.toNat
    rw [hheap]
    decide
  have hfirst := createProcess_first hb
  have hadded := hempty.of_addCreated (d := []) (processInit_addsPid hpos hle)
  rw [hfirst] at hadded
  rwa [(processInit_spec hb).currentProcess]

/-- Of two processes the one with the higher address has the higher pid. -/
theorem PidInv.pid_lt {y : ProcessSystem} (h : PidInv y) (hinv : ProcessInv y) {p q : Word}
    (hp : p ∈ y.created) (hq : q ∈ y.created) (hlt : p.toNat < q.toNat) :
    (y.kernel.procs p).pid < (y.kernel.procs q).pid := by
  have hlength := h.length_le
  have hsorted : (y.created.map fun p => (y.kernel.procs p).pid).Pairwise (fun a b => b < a) := by
    rw [h.pids, List.map_reverse, List.pairwise_reverse, List.pairwise_map]
    refine (List.pairwise_lt_range).imp_of_mem fun {m n} hm hn hmn => ?_
    rw [List.mem_range] at hm hn
    have hone : (1 : Word).toNat = 1 := rfl
    rw [BitVec.lt_def, toNat_issued (by omega), toNat_issued (by omega)]
    omega
  rw [List.pairwise_map] at hsorted
  let R (a b : Word) : Prop := a.toNat < b.toNat → (y.kernel.procs a).pid < (y.kernel.procs b).pid
  have happart : y.created.Pairwise R := hinv.apart.imp fun hab hba => absurd hba (by omega)
  have hflip : y.created.Pairwise (flip R) := hsorted.imp (S := flip R) fun hab _ => hab
  exact happart.forall_of_forall_of_flip (fun a _ ha => absurd ha (Nat.lt_irrefl _)) hflip hp hq hlt

/-! ## §3 The invariant -/

/-- What the runs keep. A parent has a lower address than its children, so it was created before. -/
structure FamilyInv (tr : List (KernelSystem × CreationOp)) (y : KernelSystem) : Prop where
  creation : CreationInv y
  pids : PidInv y.processes
  forked : ∀ p q, ForkedBy tr p q → p = 0 ∨ p ∈ y.processes.created
  parent : ∀ p ∈ y.processes.created, ∀ q, q ≠ 0 → (y.kernel.parent p = q ↔ ForkedBy tr p q)
  ppid : ∀ p ∈ y.processes.created, (y.kernel.procs p).ppid =
    if y.kernel.parent p = 0 then 0 else (y.kernel.procs (y.kernel.parent p)).pid
  older : ∀ p ∈ y.processes.created, y.kernel.parent p = 0 ∨
    (y.kernel.parent p ∈ y.processes.created ∧ (y.kernel.parent p).toNat < p.toNat)

variable {tr : List (KernelSystem × CreationOp)} {y y' : KernelSystem} {op : CreationOp}

theorem forkedBy_cons {p : KernelSystem × CreationOp} {proc parent : Word} :
    ForkedBy (p :: tr) proc parent ↔
      (p.2.IsFork ∧ forkChild p.1.kernel = proc ∧ p.1.kernel.currentProcess = parent) ∨
        ForkedBy tr proc parent := by
  unfold ForkedBy CreationOp.IsFork
  rw [List.exists_mem_cons_iff]

theorem familyInv_of_boot (h : KernelBoot y) : FamilyInv [] y := by
  have hcreation := creationInv_of_boot h
  have hpids := pidInv_of_processBoot h.processes
  obtain ⟨s, hb, hy⟩ := h.processes
  have hspec := processInit_spec hb
  have hnone (p q : Word) : ¬ ForkedBy [] p q := fun ⟨_, hmem, _⟩ => absurd hmem List.not_mem_nil
  have hcreated : y.processes.created = [(processInit s).currentProcess] := by rw [hy]
  have hkernel : y.kernel = processInit s := congrArg ProcessSystem.kernel hy
  have hparent : (processInit s).parent (processInit s).currentProcess = 0 := by
    rw [hspec.currentProcess]
    exact hspec.parent
  have hppid : ((processInit s).procs (processInit s).currentProcess).ppid = 0 := by
    have hne : (createProcess s kernelName 0 true).1 ≠ 0 := by
      rw [createProcess_first hb]
      decide
    have hzero := ppid_createProcess kernelName 0 true hne
    unfold processInit
    generalize createProcess s kernelName 0 true = r at hzero ⊢
    obtain ⟨proc, t⟩ := r
    change ((({ t with currentProcess := proc } : KernelState).modify proc
      (·.setState .running)).procs proc).ppid = 0
    rw [modify_procs_self]
    exact hzero
  refine ⟨hcreation, hpids, fun p q hf => absurd hf (hnone p q), ?_, ?_, ?_⟩
  all_goals
    rw [hcreated, hkernel]
    refine List.forall_mem_singleton.mpr ?_
    rw [hparent]
  · exact fun q hq => ⟨fun h0 => absurd h0.symm hq, fun hf => absurd hf (hnone _ _)⟩
  · rw [if_pos rfl]
    exact hppid
  · exact .inl rfl

/-- A call that creates no process. -/
theorem FamilyInv.of_kept (h : FamilyInv tr y) (hcreation : CreationInv y')
    (hpids : PidInv y'.processes) (hcreated : y'.processes.created = y.processes.created)
    (hkeeps : KeepsFamily y.kernel y'.kernel) (hfork : op.IsFork → forkChild y.kernel = 0) :
    FamilyInv ((y, op) :: tr) y' := by
  have hparent (p : Word) : y'.kernel.parent p = y.kernel.parent p := (hkeeps p).2.2
  refine ⟨hcreation, hpids, fun p q hf => ?_, fun p hp q hq => ?_, fun p hp => ?_, fun p hp => ?_⟩
  · rw [hcreated]
    rcases forkedBy_cons.mp hf with ⟨hop, hchild, -⟩ | hf
    · exact .inl (hchild.symm.trans (hfork hop))
    · exact h.forked p q hf
  all_goals rw [hcreated] at hp
  · rw [hparent, h.parent p hp q hq, forkedBy_cons]
    refine ⟨.inr, fun hf => hf.resolve_left fun ⟨hop, hchild, _⟩ => ?_⟩
    exact h.creation.kernel.processes.ne_zero p hp (hchild.symm.trans (hfork hop))
  · rw [hparent, (hkeeps p).2.1, (hkeeps _).1]
    exact h.ppid p hp
  · rw [hparent, hcreated]
    exact h.older p hp

/-- A call that creates `proc`, a child of `forker` or of nobody. -/
theorem FamilyInv.of_added (h : FamilyInv tr y) (hcreation : CreationInv y')
    (hpids : PidInv y'.processes) {proc forker : Word}
    (hcreated : y'.processes.created = proc :: y.processes.created)
    (hadds : AddsChild y.kernel y'.kernel proc forker)
    (hforker : (op.IsFork ∧ forkChild y.kernel = proc ∧ y.kernel.currentProcess = forker) ∨
      (¬ op.IsFork ∧ forker = 0)) :
    FamilyInv ((y, op) :: tr) y' := by
  have hinv := h.creation.kernel.processes
  have hne (p : Word) (hp : p ∈ y.processes.created) : p ≠ proc := hinv.ne_newProcess hadds.new p hp
  have hothers (p : Word) (hp : p ∈ y.processes.created) : y'.kernel.procs p = y.kernel.procs p :=
    hadds.new.others p (hne p hp)
  have hparent (p : Word) (hp : p ∈ y.processes.created) :
      y'.kernel.parent p = y.kernel.parent p := congrArg Process.parent (hothers p hp)
  have hfresh (q : Word) : ¬ ForkedBy tr proc q := fun hf =>
    (h.forked proc q hf).elim hadds.new.ne_zero fun hmem => hne proc hmem rfl
  have hmember : forker = 0 ∨ forker ∈ y.processes.created :=
    hforker.symm.imp And.right fun ⟨_, _, hcur⟩ => hcur ▸ hinv.current
  -- What the last call says about who was forked by whom.
  have hlast (p q : Word) (hq : q ≠ 0) :
      (op.IsFork ∧ forkChild y.kernel = p ∧ y.kernel.currentProcess = q) ↔ p = proc ∧ forker = q := by
    rcases hforker with ⟨hop, hchild, hcur⟩ | ⟨hop, h0⟩
    · rw [hchild, hcur, and_iff_right hop, eq_comm]
    · exact ⟨fun hf => absurd hf.1 hop, fun hf => absurd (hf.2.symm.trans h0) hq⟩
  refine ⟨hcreation, hpids, fun p q hf => ?_, ?_, ?_, ?_⟩
  · rw [hcreated, List.mem_cons]
    rcases forkedBy_cons.mp hf with ⟨hop, hchild, -⟩ | hf
    · exact .inr (.inl (hchild.symm.trans (hforker.resolve_right fun hnot => hnot.1 hop).2.1))
    · exact (h.forked p q hf).imp id .inr
  all_goals
    rw [hcreated]
    refine List.forall_mem_cons.mpr ⟨?_, fun p hp => ?_⟩
  · intro q hq
    rw [hadds.parent, forkedBy_cons, hlast _ q hq, and_iff_right rfl]
    exact ⟨.inl, fun hf => hf.resolve_right (hfresh q)⟩
  · intro q hq
    rw [hparent p hp, h.parent p hp q hq, forkedBy_cons, hlast p q hq]
    exact ⟨.inr, fun hf => hf.resolve_left fun hnew => hne p hp hnew.1⟩
  · rw [hadds.parent, hadds.ppid]
    rcases hmember with h0 | hmem
    · rw [if_pos h0, if_pos h0]
    · rw [hothers forker hmem]
  · rw [hparent p hp, hothers p hp, h.ppid p hp]
    rcases h.older p hp with h0 | ⟨hmem, -⟩
    · rw [if_pos h0, if_pos h0]
    · rw [hothers _ hmem]
  · rw [hadds.parent]
    refine hmember.imp id fun hmem => ⟨List.mem_cons_of_mem _ hmem, ?_⟩
    have hbelow : forker.toNat + 136 ≤ y.kernel.heapCurrent.toNat := hinv.below forker hmem
    rw [hadds.new.fresh]
    omega
  · rw [hparent p hp]
    exact (h.older p hp).imp id fun ⟨hmem, hlt⟩ => ⟨List.mem_cons_of_mem _ hmem, hlt⟩

theorem FamilyInv.step (h : FamilyInv tr y) (hstep : CreationStep y op y') :
    FamilyInv ((y, op) :: tr) y' := by
  have hinv := h.creation.kernel.processes
  have hcreation := creationInv_step h.creation hstep
  have hpids := h.pids.of_creationStep hstep
  cases familyStep hinv hstep with
  | kept hcreated hkeeps hfork => exact h.of_kept hcreation hpids hcreated hkeeps hfork
  | created hcreated hadds hfork =>
    exact h.of_added hcreation hpids hcreated hadds (.inr ⟨hfork, rfl⟩)
  | forked hcreated hadds hfork hchild =>
    exact h.of_added hcreation hpids hcreated hadds (.inl ⟨hfork, hchild, rfl⟩)

theorem familyInv_run (h : Run KernelBoot CreationStep tr y) : FamilyInv tr y := by
  induction h with
  | start hinit => exact familyInv_of_boot hinit
  | snoc _ hstep ih => exact ih.step hstep

/-! ## §4 The tree -/

/-- After every run. -/
theorem familyTree (h : Run KernelBoot CreationStep tr y) : FamilyTree tr y := by
  have hfamily := familyInv_run h
  have hinv := hfamily.creation.kernel.processes
  refine ⟨hfamily.parent, hfamily.ppid, fun p hp => ?_⟩
  obtain ⟨l, hchain, hall, hsorted⟩ := Chain.exists_of_lt (· ∈ y.processes.created) BitVec.toNat
    (fun a ha => ⟨hinv.ne_zero a ha, hfamily.older a ha⟩) hp
  refine ⟨l, hchain, fun a ha => ⟨(hall a ha).1, ?_⟩, hsorted.imp_of_mem fun ha hb hlt => ?_⟩
  · exact hfamily.pids.pid_lt hinv (hall a ha).1 hp (hall a ha).2
  · exact hfamily.pids.pid_lt hinv (hall _ hb).1 (hall _ ha).1 hlt

theorem forkChild_ne_zero_iff (hcur : s.currentProcess ≠ 0) (hpos : s.heapCurrent ≠ 0)
    (hle : s.heapCurrent.toNat ≤ 0x800000) :
    forkChild s ≠ 0 ↔ s.heapCurrent.toNat + 136 < 0x800000 := by
  rw [(fork_eq hcur).1, createProcess_fst]
  exact kmalloc_ne_zero_iff process_size hle hpos

/-- `fork` creates a child while there is room for a record. -/
theorem fork_processStep (h : ProcessInv ⟨s, c, d⟩)
    (hroom : s.heapCurrent.toNat + 136 < 0x800000) :
    ProcessStep ⟨s, c, d⟩ .fork ⟨(fork s).2, forkChild s :: c, d⟩ ∧
      NewProcess s (fork s).2 (forkChild s) := by
  have hpos : s.heapCurrent ≠ 0 := h.heap_ne_zero
  have hchild := (forkChild_ne_zero_iff (h.ne_zero _ h.current) hpos h.heap_le).mpr hroom
  have hstep : ProcessStep ⟨s, c, d⟩ .fork ⟨(fork s).2, addCreated (forkChild s) c, d⟩ := .fork
  rw [addCreated, if_neg hchild] at hstep
  exact ⟨hstep, (fork_spec hpos h.heap_le).resolve_left fun hfail => hchild hfail.1⟩

/-- The first process forks, its child forks in its turn, and then the first process is
destroyed. -/
theorem familyTree_forkOfFork : ∃ (tr : List (KernelSystem × CreationOp)) (y : KernelSystem)
    (r : Word), Run KernelBoot CreationStep tr y ∧
    (y.processes.created = [r, 0x308088, 0x306000] ∧ y.processes.destroyed = [0x306000] ∧
      ForkedBy tr 0x308088 0x306000 ∧ ForkedBy tr r 0x308088) ∧ FamilyTree tr y := by
  obtain ⟨s, hs, hboot⟩ := exists_firstSystem
  have hfair : FairInv ⟨s, [0x306000], []⟩ := fairInv_of_boot hboot
  have hcur := hs.currentProcess
  obtain ⟨hfork, hnew⟩ := fork_processStep hfair.inv (by rw [hs.heapCurrent]; decide)
  have hchild : forkChild s = 0x308088 := hnew.fresh.trans hs.heapCurrent
  have hheap : (fork s).2.heapCurrent.toNat ≤ s.heapCurrent.toNat + 28810 :=
    fork_heap_le (by rw [hcur]; decide) hfair.inv.heap_le hnew.ne_zero
  rw [hchild] at hfork hnew
  have hfair₁ : FairInv ⟨(fork s).2, [0x308088, 0x306000], []⟩ :=
    hfair.of_newProcess (processInv_step hfair.inv hfork) hnew rfl rfl
  -- The first process is the last one of the list, so `schedule` goes on at the head.
  have hnext : (fork s).2.nextOrHead (fork s).2.currentProcess = 0x308088 := by
    have hlast : (fork s).2.next 0x306000 = 0 := by
      unfold KernelState.next
      rw [hnew.others _ (by decide)]
      exact hs.next
    unfold KernelState.nextOrHead
    rw [hnew.currentProcess, hcur, hlast, if_pos rfl, hnew.processList]
  obtain ⟨fuel, s₂, hret⟩ := hfair₁.schedule_returns 0
  -- It may only stay where it is when that is the process it has picked.
  have hsw : Switched (fork s).2 s₂ 0x308088 := by
    rw [← hnext]
    refine (hfair₁.schedule_cases hret).resolve_right fun hsame => ?_
    rw [hnext, hnew.currentProcess, hcur] at hsame
    exact absurd hsame.2 (by decide)
  have hfair₂ := hfair₁.of_switched hsw List.mem_cons_self
  obtain ⟨hfork₂, hnew₂⟩ := fork_processStep hfair₂.inv (by
    rw [hsw.links.heapCurrent]
    rw [hs.heapCurrent] at hheap
    have hstart : (0x308088 : Word).toNat = 0x308088 := rfl
    omega)
  -- The child of the first process runs now, so the second fork is its own.
  have hinv₃ := processInv_step hfair₂.inv hfork₂
  obtain ⟨fuel', s₄, hret'⟩ := destroyProcess_returns hinv₃.chain 0x306000
  have hdestroy : ProcessStep ⟨(fork s₂).2, [forkChild s₂, 0x308088, 0x306000], []⟩
      (.destroyProcess 0x306000) ⟨s₄, [forkChild s₂, 0x308088, 0x306000], [0x306000]⟩ :=
    .destroyProcess (.inr (by simp)) hret'
  have hrun : Run KernelBoot CreationStep [] ⟨firstSystem s, [s.kernelDirectory]⟩ :=
    .start ⟨hboot, rfl⟩
  have hrun₄ := (((hrun.snoc (.kernel (.process hfork))).snoc
    (.kernel (.process (.schedule hret)))).snoc (.kernel (.process hfork₂))).snoc
      (.kernel (.process hdestroy))
  refine ⟨_, _, forkChild s₂, hrun₄, ⟨rfl, rfl, ?_, ?_⟩, familyTree hrun₄⟩
  · exact ⟨_, .tail _ (.tail _ (.tail _ (.head _))), rfl, hchild, hcur⟩
  · exact ⟨_, .tail _ (.head _), rfl, rfl, hsw.currentProcess⟩

/-! ## §5 What `fork` returns -/

/-- What a call of `fork` does in the state `y`. -/
structure ForkReturns (y : KernelSystem) : Prop where
  /-- Without room for a record it does nothing. -/
  full : 0x800000 ≤ y.kernel.heapCurrent.toNat + 136 → fork y.kernel = (-1, y.kernel)
  /-- With room the caller gets the pid of the child, which counts the processes ever created. -/
  pid : y.kernel.heapCurrent.toNat + 136 < 0x800000 →
    (fork y.kernel).1 = BitVec.ofNat 32 (y.processes.created.length + 1) ∧
      ((fork y.kernel).2.procs (forkChild y.kernel)).pid = (fork y.kernel).1
  /-- The child is ready, at the head of the list, with the CPU state of the caller. -/
  child : y.kernel.heapCurrent.toNat + 136 < 0x800000 →
    NewProcess y.kernel (fork y.kernel).2 (forkChild y.kernel) ∧
      ((fork y.kernel).2.procs (forkChild y.kernel)).cpuState =
        (y.kernel.procs y.kernel.currentProcess).cpuState
  /-- The call never returns as the child. -/
  ne_zero : (fork y.kernel).1 ≠ 0

/-- The value that `fork` returns. -/
theorem fork_fst (hcur : s.currentProcess ≠ 0) (hpos : s.heapCurrent ≠ 0)
    (hle : s.heapCurrent.toNat ≤ 0x800000) (hown : s.currentProcess ≠ s.heapCurrent) :
    (fork s).1 = if forkChild s = 0 then -1 else ((fork s).2.procs (forkChild s)).pid := by
  have hspec := createProcess_spec (s.procs s.currentProcess).name 0 false hpos hle
  rw [(fork_eq hcur).1]
  unfold fork
  simp only [if_neg hcur]
  generalize createProcess s (s.procs s.currentProcess).name 0 false = r at hspec ⊢
  obtain ⟨child, t⟩ := r
  dsimp only at hspec ⊢
  by_cases h0 : child = 0
  · rw [if_pos h0, if_pos h0]
  · obtain ⟨hnew, -⟩ := hspec.resolve_left fun hfail => h0 hfail.1
    rw [if_neg h0, if_neg h0, if_neg]
    change t.currentProcess ≠ child
    rw [hnew.currentProcess, hnew.fresh]
    exact hown

theorem fork_cpuState (hcur : s.currentProcess ≠ 0) (hpos : s.heapCurrent ≠ 0)
    (hle : s.heapCurrent.toNat ≤ 0x800000) (hown : s.currentProcess ≠ s.heapCurrent)
    (hchild : forkChild s ≠ 0) :
    ((fork s).2.procs (forkChild s)).cpuState = (s.procs s.currentProcess).cpuState := by
  have hspec := createProcess_spec (s.procs s.currentProcess).name 0 false hpos hle
  obtain ⟨hfst, hfork⟩ := fork_eq hcur
  rw [hfst] at hchild ⊢
  obtain ⟨hnew, -⟩ := hspec.resolve_left fun hfail => hchild hfail.1
  rw [hfork, if_neg hchild, modify_procs_self]
  generalize createProcess s (s.procs s.currentProcess).name 0 false = r at hnew ⊢
  change (r.2.procs s.currentProcess).cpuState = _
  rw [hnew.others _ (by rw [hnew.fresh]; exact hown)]

/-- In every state of every run. -/
theorem forkReturns (h : Run KernelBoot CreationStep tr y) : ForkReturns y := by
  have hfamily := familyInv_run h
  have hinv : ProcessInv ⟨y.kernel, y.processes.created, y.processes.destroyed⟩ :=
    hfamily.creation.kernel.processes
  have hcur : y.kernel.currentProcess ≠ 0 := hinv.ne_zero _ hinv.current
  have hpos : y.kernel.heapCurrent ≠ 0 := hinv.heap_ne_zero
  have hle : y.kernel.heapCurrent.toNat ≤ 0x800000 := hinv.heap_le
  have hown := hinv.current_ne_heap
  have hroom := forkChild_ne_zero_iff hcur hpos hle
  have hfst := fork_fst hcur hpos hle hown
  have hlength := hfamily.pids.length_le
  have hnextPid : y.kernel.nextPid = BitVec.ofNat 32 (y.processes.created.length + 1) := by
    rw [hfamily.pids.nextPid, Nat.add_comm, BitVec.ofNat_add]
    rfl
  -- The two cases of the call.
  rcases fork_spec hpos hle with ⟨h0, hs⟩ | hnew
  · have hfull : ¬ y.kernel.heapCurrent.toNat + 136 < 0x800000 := fun hlt => hroom.mpr hlt h0
    rw [if_pos h0] at hfst
    refine ⟨fun _ => Prod.ext hfst hs, fun hlt => absurd hlt hfull, fun hlt => absurd hlt hfull, ?_⟩
    rw [hfst]
    decide
  · have hlt := hroom.mp hnew.ne_zero
    rw [if_neg hnew.ne_zero] at hfst
    have hpid : ((fork y.kernel).2.procs (forkChild y.kernel)).pid = y.kernel.nextPid :=
      ((fork_addsPid hpos hle).resolve_left fun hfail => hnew.ne_zero hfail.1).2.pid
    refine ⟨fun hge => absurd hlt (by omega), fun _ => ⟨?_, hfst.symm⟩,
      fun _ => ⟨hnew, fork_cpuState hcur hpos hle hown hnew.ne_zero⟩, ?_⟩
    · rw [hfst, hpid, hnextPid]
    · rw [hfst, hpid, hnextPid, ne_eq, ← BitVec.toNat_inj, BitVec.toNat_ofNat]
      change ¬ _ = 0
      omega

/-- After `process_init`. -/
theorem forkReturns_firstSystem : ∃ s, ProcessBoot (firstSystem s) ∧
    ForkReturns ⟨firstSystem s, [s.kernelDirectory]⟩ := by
  obtain ⟨s, -, hboot⟩ := exists_firstSystem
  exact ⟨s, hboot, forkReturns (.start ⟨hboot, rfl⟩)⟩

end KyroKernel
