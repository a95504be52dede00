import KyroKernel.Process.Basic
import KyroKernel.Paging.Operations

/-!
# What each process operation does

One specification for each function of `process.c`, with no assumption on the page tables:
what it does to the list pointers, to the states of the processes and to the heap. An
exhausted heap is one of the cases.
-/

namespace KyroKernel

open Foundations

theorem process_size : RequestSize sizeofProcess 136 := ⟨by decide, by decide, by decide⟩

theorem kernelStack_size : RequestSize kernelStackSize 8192 := ⟨by decide, by decide, by decide⟩

/-! ## `create_process` -/

/-- What `create_process` puts into a new record, whatever the heap does: the fields the
scheduler and the process list depend on, and the parts of the CPU state that no mode sets.
A kernel stack that could not be allocated ends at 8192, so its end is never 0. -/
structure FreshRecord (s : KernelState) (p : Process) : Prop where
  next : p.next = s.processList
  state : p.state = .ready
  parent : p.parent = 0
  esi : p.cpuState.esi = 0
  edi : p.cpuState.edi = 0
  esp : p.cpuState.esp = 0xC0000000 ∨ p.cpuState.esp = p.kernelStack
  kernelStack : p.kernelStack ≠ 0

/-- The end of a kernel stack, allocated or not. -/
theorem kernelStack_ne_zero {hc : Word} (h : hc.toNat ≤ 0x800000) :
    (kmalloc hc kernelStackSize).1 + kernelStackSize ≠ 0 := by
  intro h0
  have hnat := congrArg BitVec.toNat h0
  rcases kmalloc_cases kernelStack_size h with ⟨hk, hadd, -⟩ | ⟨hk, -⟩
  · rw [hk, hadd] at hnat
    simp at hnat
  · rw [hk] at hnat
    simp [kernelStack_size.toNat] at hnat

/-- The user branch, with the calls that it makes. -/
theorem setUpUserProcess_eq (t : PagingState) (proc : Process) :
    setUpUserProcess t proc =
      ({ proc with
          pageDirectory := (createPageDirectory t).1, userStack := 0xC0000000
          cpuState :=
            { proc.cpuState with cs := 0x1B, ss := 0x23, eflags := 0x202, esp := 0xC0000000 } },
        allocFrame (createPageDirectory t).2 (0xC0000000 - pageSize) false true) := by
  rcases hd : createPageDirectory t with ⟨dir, t'⟩
  rw [setUpUserProcess, hd]

/-- The record and the paging state that `create_process` makes of `s`, once the record has been
allocated and `kmalloc` has returned `stack` for the kernel stack. -/
structure Filled (s : KernelState) (stack : Word × Word) (kernelMode : Bool)
    (record : Process) (t : PagingState) : Prop where
  pid : record.pid = s.nextPid
  next : record.next = s.processList
  state : record.state = .ready
  parent : record.parent = 0
  esi : record.cpuState.esi = 0
  edi : record.cpuState.edi = 0
  esp : record.cpuState.esp = 0xC0000000 ∨ record.cpuState.esp = record.kernelStack
  kernelStack : record.kernelStack = stack.1 + kernelStackSize
  pageDirectory : record.pageDirectory =
    if kernelMode then s.kernelDirectory
    else (createPageDirectory { s.toPagingState with heapCurrent := stack.2 }).1
  userStack : record.userStack = if kernelMode then 0 else 0xC0000000
  cr3 : record.cpuState.cr3 = physicalAddr t.mem record.pageDirectory
  paging : t =
    if kernelMode then { s.toPagingState with heapCurrent := stack.2 }
    else allocFrame (createPageDirectory { s.toPagingState with heapCurrent := stack.2 }).2
      (0xC0000000 - pageSize) false true

theorem fillProcess_filled (s : KernelState) (name : List Byte) (entryPoint : Word)
    (kernelMode : Bool) :
    Filled s (kmalloc s.heapCurrent kernelStackSize) kernelMode
      (fillProcess s name entryPoint kernelMode).1
      (fillProcess s name entryPoint kernelMode).2 := by
  rcases hk : kmalloc s.heapCurrent kernelStackSize with ⟨stack, heapCurrent⟩
  rw [fillProcess, hk]
  dsimp only
  -- The state in which the branches of `kernel_mode` start.
  generalize hpaging : ({ s.toPagingState with heapCurrent := heapCurrent } : PagingState) = t
  have hkernel : t.kernelDirectory = s.kernelDirectory := by rw [← hpaging]
  cases kernelMode with
  | true =>
    simp only [setUpKernelProcess, if_true]
    split_ifs
    all_goals
      refine ⟨rfl, rfl, rfl, rfl, rfl, rfl, .inr rfl, rfl, hkernel, rfl, rfl, ?_⟩
      simp only [hpaging, if_true]
  | false =>
    simp only [setUpUserProcess_eq, Bool.false_eq_true, if_false]
    generalize hdir : createPageDirectory t = d
    generalize hframe : allocFrame d.2 _ _ _ = u
    split_ifs
    all_goals
      refine ⟨rfl, rfl, rfl, rfl, rfl, rfl, .inl rfl, rfl, ?_, rfl, rfl, ?_⟩
      · simp only [hpaging, hdir, Bool.false_eq_true, if_false]
      · simp only [hpaging, hdir, hframe, Bool.false_eq_true, if_false]

theorem fillProcess_spec {s : KernelState} (name : List Byte) (entryPoint : Word)
    (kernelMode : Bool) (h : s.heapCurrent.toNat ≤ 0x800000) :
    FreshRecord s (fillProcess s name entryPoint kernelMode).1 ∧
    HeapGrows s.toPagingState (fillProcess s name entryPoint kernelMode).2 := by
  obtain ⟨hge, hle⟩ := kmalloc_grows kernelStack_size h
  have hfill := fillProcess_filled s name entryPoint kernelMode
  have hstack := kernelStack_ne_zero h
  generalize fillProcess s name entryPoint kernelMode = r at hfill ⊢
  generalize kmalloc s.heapCurrent kernelStackSize = k at hge hle hfill hstack
  refine ⟨⟨hfill.next, hfill.state, hfill.parent, hfill.esi, hfill.edi, hfill.esp, ?_⟩, ?_⟩
  · rw [hfill.kernelStack]
    exact hstack
  rw [hfill.paging]
  have hgrow : HeapGrows s.toPagingState { s.toPagingState with heapCurrent := k.2 } :=
    ⟨hge, hle, rfl, rfl⟩
  cases kernelMode with
  | true => exact hgrow
  | false =>
    have hdir := createPageDirectory_heapGrows hgrow.le
    simp only [Bool.false_eq_true, if_false]
    exact hgrow.trans (hdir.trans (allocFrame_heapGrows _ _ _ hdir.le))

/-- A call that put the new process `proc` at the head of the list. The record lies at the
old `heap_current`, so its address is above all earlier ones. -/
structure NewProcess (s s' : KernelState) (proc : Word) : Prop where
  fresh : proc = s.heapCurrent
  ne_zero : proc ≠ 0
  room : proc.toNat + 136 ≤ s'.heapCurrent.toNat
  heap_le : s'.heapCurrent.toNat ≤ 0x800000
  others : ∀ q, q ≠ proc → s'.procs q = s.procs q
  next : s'.next proc = s.processList
  state : (s'.procs proc).state = .ready
  parent : (s'.procs proc).parent = 0 ∨ (s'.procs proc).parent = s.currentProcess
  processList : s'.processList = proc
  currentProcess : s'.currentProcess = s.currentProcess
  switches : s'.switches = s.switches

/-- `create_process` either fails without any effect, or adds a new process whose record is
the one `fillProcess` describes. -/
theorem createProcess_spec {s : KernelState} (name : List Byte) (entryPoint : Word)
    (kernelMode : Bool) (hpos : s.heapCurrent ≠ 0) (h : s.heapCurrent.toNat ≤ 0x800000) :
    ((createProcess s name entryPoint kernelMode).1 = 0 ∧
      (createProcess s name entryPoint kernelMode).2 = s) ∨
    (NewProcess s (createProcess s name entryPoint kernelMode).2
        (createProcess s name entryPoint kernelMode).1 ∧
      FreshRecord s ((createProcess s name entryPoint kernelMode).2.procs
        (createProcess s name entryPoint kernelMode).1)) := by
  rw [createProcess]
  rcases kmalloc_cases process_size h with ⟨hk, hadd, hlt⟩ | ⟨hk, -⟩
  · rw [hk]
    simp only [if_neg hpos]
    -- The rest of the call starts from the heap after the record.
    generalize hs' : ({ s with heapCurrent := s.heapCurrent + sizeofProcess } : KernelState) = s'
    have hheap : s'.heapCurrent = s.heapCurrent + sizeofProcess := by rw [← hs']
    have hlist : s'.processList = s.processList := by rw [← hs']
    obtain ⟨hrecord, hgrow⟩ := fillProcess_spec (s := s') name entryPoint kernelMode
      (by rw [hheap]; omega)
    generalize fillProcess s' name entryPoint kernelMode = r at hrecord hgrow ⊢
    obtain ⟨record, paging⟩ := r
    simp only at hrecord hgrow ⊢
    have hge := hgrow.ge
    rw [hheap, hadd] at hge
    refine .inr ⟨⟨rfl, hpos, hge, hgrow.le, fun q hq => ?_, ?_, ?_, ?_, rfl, rfl, rfl⟩, ?_⟩
    · exact Function.update_of_ne hq ..
    · unfold KernelState.next
      simp only [Function.update_self]
      exact hrecord.next.trans hlist
    · simp only [Function.update_self]
      exact hrecord.state
    · simp only [Function.update_self]
      exact .inl hrecord.parent
    · simp only [Function.update_self]
      exact { hrecord with next := hrecord.next.trans hlist }
  · rw [hk]
    exact .inl ⟨rfl, rfl⟩

/-- `create_process` fails exactly when the record cannot be allocated. -/
theorem createProcess_fst (s : KernelState) (name : List Byte) (entryPoint : Word)
    (kernelMode : Bool) :
    (createProcess s name entryPoint kernelMode).1 = (kmalloc s.heapCurrent sizeofProcess).1 := by
  rcases hk : kmalloc s.heapCurrent sizeofProcess with ⟨proc, heapCurrent⟩
  rw [createProcess, hk]
  by_cases h0 : proc = 0
  · simp only [if_pos h0]
    exact h0.symm
  · simp only [if_neg h0]

/-- The record and the paging state after a successful creation. -/
theorem createProcess_filled {s : KernelState} (name : List Byte) (entryPoint : Word)
    (kernelMode : Bool) (h : (kmalloc s.heapCurrent sizeofProcess).1 ≠ 0) :
    Filled s (kmalloc (kmalloc s.heapCurrent sizeofProcess).2 kernelStackSize) kernelMode
      ((createProcess s name entryPoint kernelMode).2.procs
        (createProcess s name entryPoint kernelMode).1)
      (createProcess s name entryPoint kernelMode).2.toPagingState := by
  rcases hk : kmalloc s.heapCurrent sizeofProcess with ⟨proc, heapCurrent⟩
  rw [hk] at h
  have hfill := fillProcess_filled { s with heapCurrent := heapCurrent } name entryPoint kernelMode
  rw [createProcess, hk]
  dsimp only
  rw [if_neg h]
  generalize fillProcess _ name entryPoint kernelMode = f at hfill ⊢
  generalize kmalloc _ kernelStackSize = k at hfill ⊢
  simp only [Function.update_self]
  exact
    { pid := hfill.pid
      next := hfill.next
      state := hfill.state
      parent := hfill.parent
      esi := hfill.esi
      edi := hfill.edi
      esp := hfill.esp
      kernelStack := hfill.kernelStack
      pageDirectory := hfill.pageDirectory
      userStack := hfill.userStack
      cr3 := hfill.cr3
      paging := hfill.paging }

/-- A kernel process takes the record and the kernel stack from the heap, nothing else. -/
theorem createProcess_kernel_heapCurrent {s : KernelState} (name : List Byte) (entryPoint : Word)
    (h : (kmalloc s.heapCurrent sizeofProcess).1 ≠ 0) :
    (createProcess s name entryPoint true).2.heapCurrent =
      (kmalloc (kmalloc s.heapCurrent sizeofProcess).2 kernelStackSize).2 := by
  have hpaging := (createProcess_filled name entryPoint true h).paging
  generalize createProcess s name entryPoint true = r at hpaging ⊢
  simp only [if_true] at hpaging
  rw [hpaging]

/-! ## `fork` -/

theorem modify_procs_of_ne {s : KernelState} {proc q : Word} {f : Process → Process}
    (h : q ≠ proc) : (s.modify proc f).procs q = s.procs q :=
  Function.update_of_ne h ..

@[simp] theorem modify_procs_self (s : KernelState) (proc : Word) (f : Process → Process) :
    (s.modify proc f).procs proc = f (s.procs proc) :=
  Function.update_self ..

/-- The child that `fork` creates, 0 when it creates none. -/
def forkChild (s : KernelState) : Word :=
  if s.currentProcess = 0 then 0
  else (createProcess s (s.procs s.currentProcess).name 0 false).1

/-- The two results of `fork` come with the same state. -/
theorem ite_mk_snd {α β : Type} (c : Prop) [Decidable c] (a b : α) (t : β) :
    (if c then (a, t) else (b, t)).2 = t := by
  split_ifs <;> rfl

/-- What `fork` copies into the record of the child from the state that `create_process` left. -/
def forkRecord (t : KernelState) (parent : Word) (p : Process) : Process :=
  { p with
    ppid := (t.procs parent).pid, parent := parent
    cpuState := (t.procs parent).cpuState }

/-- `fork` is a user process creation that then fills in the record further. -/
theorem fork_eq {s : KernelState} (hcur : s.currentProcess ≠ 0) :
    forkChild s = (createProcess s (s.procs s.currentProcess).name 0 false).1 ∧
      (fork s).2 =
        if (createProcess s (s.procs s.currentProcess).name 0 false).1 = 0 then
          (createProcess s (s.procs s.currentProcess).name 0 false).2
        else (createProcess s (s.procs s.currentProcess).name 0 false).2.modify
          (createProcess s (s.procs s.currentProcess).name 0 false).1
          (forkRecord (createProcess s (s.procs s.currentProcess).name 0 false).2
            s.currentProcess) := by
  unfold forkChild fork
  simp only [if_neg hcur]
  generalize createProcess s (s.procs s.currentProcess).name 0 false = r
  obtain ⟨child, t⟩ := r
  simp only
  refine ⟨trivial, ?_⟩
  split
  · rfl
  · rw [ite_mk_snd]
    rfl

/-- `fork` either fails without any effect, or adds a new process. -/
theorem fork_spec {s : KernelState} (hpos : s.heapCurrent ≠ 0)
    (h : s.heapCurrent.toNat ≤ 0x800000) :
    (forkChild s = 0 ∧ (fork s).2 = s) ∨ NewProcess s (fork s).2 (forkChild s) := by
  by_cases hcur : s.currentProcess = 0
  · unfold forkChild fork
    rw [if_pos hcur, if_pos hcur]
    exact .inl ⟨rfl, rfl⟩
  · have hspec := createProcess_spec (s.procs s.currentProcess).name 0 false hpos h
    obtain ⟨hchild, hfork⟩ := fork_eq hcur
    rw [hchild, hfork]
    generalize createProcess s (s.procs s.currentProcess).name 0 false = r at hspec ⊢
    rcases hspec with ⟨h0, hs⟩ | ⟨hnew, -⟩
    · rw [if_pos h0]
      exact .inl ⟨h0, hs⟩
    · rw [if_neg hnew.ne_zero]
      right
      refine ⟨hnew.fresh, hnew.ne_zero, hnew.room, hnew.heap_le, fun q hq => ?_, ?_, ?_, ?_,
        hnew.processList, hnew.currentProcess, hnew.switches⟩
      · rw [modify_procs_of_ne hq]
        exact hnew.others q hq
      · unfold KernelState.next
        rw [modify_procs_self]
        exact hnew.next
      · rw [modify_procs_self]
        exact hnew.state
      · rw [modify_procs_self]
        exact .inr rfl

/-! ## `schedule` and `switch_task` -/

/-- The list, the family pointers and the heap are as before, and so are memory, the
bitmap and the directories of the processes. -/
structure SameLinks (s s' : KernelState) : Prop where
  next : ∀ q, s'.next q = s.next q
  parent : ∀ q, (s'.procs q).parent = (s.procs q).parent
  pageDirectory : ∀ q, (s'.procs q).pageDirectory = (s.procs q).pageDirectory
  processList : s'.processList = s.processList
  heapCurrent : s'.heapCurrent = s.heapCurrent
  mem : s'.mem = s.mem
  kernelDirectory : s'.kernelDirectory = s.kernelDirectory
  frames : s'.frames = s.frames
  nframes : s'.nframes = s.nframes

/-- A change of a record that keeps its links keeps them all. -/
theorem modify_sameLinks (s : KernelState) (proc : Word) {f : Process → Process}
    (hnext : (f (s.procs proc)).next = (s.procs proc).next)
    (hparent : (f (s.procs proc)).parent = (s.procs proc).parent)
    (hdir : (f (s.procs proc)).pageDirectory = (s.procs proc).pageDirectory) :
    SameLinks s (s.modify proc f) := by
  have hself : ∀ {β : Type} (g : Process → β), g (f (s.procs proc)) = g (s.procs proc) →
      ∀ q, g ((s.modify proc f).procs q) = g (s.procs q) := by
    intro β g hg q
    by_cases hq : q = proc
    · rw [hq, modify_procs_self, hg]
    · rw [modify_procs_of_ne hq]
  exact ⟨hself _ hnext, hself _ hparent, hself _ hdir, rfl, rfl, rfl, rfl, rfl, rfl⟩

/-- The current process was switched to `next`, which was ready. -/
structure Switched (s s' : KernelState) (next : Word) : Prop where
  links : SameLinks s s'
  ne_zero : next ≠ 0
  ne_current : next ≠ s.currentProcess
  ready : (s.procs next).state = .ready
  currentProcess : s'.currentProcess = next
  currentDirectory : s'.currentDirectory = (s.procs next).pageDirectory
  switches : s'.switches = (s.currentProcess, next) :: s.switches
  state_next : (s'.procs next).state = .running
  state_prev : (s'.procs s.currentProcess).state = .ready
  state : ∀ q, q ≠ next → q ≠ s.currentProcess → (s'.procs q).state = (s.procs q).state
  cpuState : ∀ q, q ≠ s.currentProcess → (s'.procs q).cpuState = (s.procs q).cpuState

/-- The records after a switch: both processes changed their state, and the outgoing one
had its ESP saved. -/
theorem switchTask_procs {s : KernelState} {next : Word} (esp : Word) (hne : next ≠ 0)
    (hcur : next ≠ s.currentProcess) (q : Word) :
    (switchTask (s.modify s.currentProcess (·.setState .ready)) next esp).procs q =
      if q = next then (s.procs next).setState .running
      else if q = s.currentProcess then
        ((s.procs s.currentProcess).setState .ready).saveEsp esp
      else s.procs q := by
  have hcond : ¬ (next = 0 ∨ next =
      (s.modify s.currentProcess (·.setState .ready)).currentProcess) :=
    not_or.mpr ⟨hne, hcur⟩
  unfold switchTask
  rw [if_neg hcond]
  simp only [contextSwitch, KernelState.modify]
  by_cases hq : q = next
  · subst hq
    simp [hcur]
  · by_cases hqc : q = s.currentProcess
    · subst hqc
      simp [hq]
    · simp [hq, hqc]

theorem switchTask_spec {s : KernelState} {next : Word} (esp : Word) (hne : next ≠ 0)
    (hcur : next ≠ s.currentProcess) (hready : (s.procs next).state = .ready) :
    Switched s (switchTask (s.modify s.currentProcess (·.setState .ready)) next esp) next := by
  have hprocs := switchTask_procs (s := s) esp hne hcur
  have hcond : ¬ (next = 0 ∨ next =
      (s.modify s.currentProcess (·.setState .ready)).currentProcess) :=
    not_or.mpr ⟨hne, hcur⟩
  -- A field that neither record update touches.
  have hfield : ∀ {β : Type} (g : Process → β), (∀ p st, g (p.setState st) = g p) →
      (∀ p e, g (p.saveEsp e) = g p) → ∀ q,
      g ((switchTask (s.modify s.currentProcess (·.setState .ready)) next esp).procs q) =
        g (s.procs q) := by
    intro β g hstate hesp q
    rw [hprocs q]
    split_ifs with h1 h2
    · rw [h1, hstate]
    · rw [h2, hesp, hstate]
    · rfl
  -- The globals, read off the assignments of `switch_task`.
  obtain ⟨hlist, hheap, hmem, hkernel, hframes, hnframes, hcurrent, hdir, hswitches⟩ :
      let s' := switchTask (s.modify s.currentProcess (·.setState .ready)) next esp
      s'.processList = s.processList ∧ s'.heapCurrent = s.heapCurrent ∧ s'.mem = s.mem ∧
        s'.kernelDirectory = s.kernelDirectory ∧ s'.frames = s.frames ∧
        s'.nframes = s.nframes ∧ s'.currentProcess = next ∧
        s'.currentDirectory = (s.procs next).pageDirectory ∧
        s'.switches = (s.currentProcess, next) :: s.switches := by
    unfold switchTask
    rw [if_neg hcond]
    refine ⟨rfl, rfl, rfl, rfl, rfl, rfl, rfl, ?_, rfl⟩
    simp [contextSwitch, KernelState.modify, switchPageDirectory, Process.setState, hcur]
  refine ⟨⟨hfield _ (fun _ _ => rfl) fun _ _ => rfl, hfield _ (fun _ _ => rfl) fun _ _ => rfl,
    hfield _ (fun _ _ => rfl) fun _ _ => rfl, hlist, hheap, hmem, hkernel, hframes,
    hnframes⟩, hne, hcur, hready,
    hcurrent, hdir, hswitches, ?_, ?_, fun q hq hqc => ?_, fun q hqc => ?_⟩
  · rw [hprocs, if_pos rfl]
    rfl
  · rw [hprocs, if_neg hcur.symm, if_pos rfl]
    rfl
  · rw [hprocs, if_neg hq, if_neg hqc]
  · rw [hprocs, if_neg hqc]
    split_ifs with hq
    · rw [hq]
      rfl
    · rfl

/-- The loop of `schedule` passes `q`: it is a process other than the current one, and it is
not ready. -/
def PassedOver (s : KernelState) (q : Word) : Prop :=
  q ≠ 0 ∧ (s.procs q).state ≠ .ready ∧ q ≠ s.currentProcess

theorem passedOver_iff (s : KernelState) (q : Word) :
    (q ≠ 0 && (s.procs q).state ≠ .ready && q ≠ s.currentProcess) = true ↔ PassedOver s q := by
  simp [PassedOver, and_assoc]

/-- `schedule` passes processes that are not ready, and switches to the process it stops at,
unless that is the current process or the list is empty. -/
theorem schedule_spec {s s' : KernelState} {esp : Word} {fuel : Nat}
    (hcur : s.currentProcess ≠ 0) (h : schedule s esp fuel = some s') :
    ∃ vs r, Passes s.nextOrHead (s.nextOrHead s.currentProcess) vs r ∧
      (∀ v ∈ vs, PassedOver s v) ∧
      (Switched s s' r ∨ (s' = s ∧ (r = 0 ∨ r = s.currentProcess))) := by
  unfold schedule at h
  rw [if_neg hcur, Option.map_eq_some_iff] at h
  obtain ⟨r, hr, hs'⟩ := h
  obtain ⟨vs, hvs, hall, hstop⟩ := passes_of_whileLoop hr
  refine ⟨vs, r, hvs, fun v hv => (passedOver_iff s v).mp (hall v hv), ?_⟩
  have hnot : ¬ PassedOver s r := by
    rw [← passedOver_iff, hstop]
    exact Bool.false_ne_true
  by_cases hgo : r ≠ 0 ∧ r ≠ s.currentProcess ∧ (s.procs r).state = .ready
  · rw [if_pos hgo] at hs'
    subst hs'
    exact .inl (switchTask_spec esp hgo.1 hgo.2.1 hgo.2.2)
  · rw [if_neg hgo] at hs'
    refine .inr ⟨hs'.symm, ?_⟩
    unfold PassedOver at hnot
    tauto

/-- The loop of `schedule` stops at the first process it does not pass. -/
theorem findNextReady_eq {s : KernelState} {vs : List Word} {r : Word} {fuel : Nat}
    (hpath : Passes s.nextOrHead (s.nextOrHead s.currentProcess) vs r)
    (hall : ∀ v ∈ vs, PassedOver s v) (hr : ¬ PassedOver s r) (hfuel : vs.length < fuel) :
    findNextReady s (s.nextOrHead s.currentProcess) fuel = some r := by
  refine whileLoop_of_passes hpath (fun v hv => (passedOver_iff s v).mpr (hall v hv)) ?_ hfuel
  rw [Bool.eq_false_iff]
  exact fun hc => hr ((passedOver_iff s r).mp hc)

/-- `schedule` returns when some way around the list leads to a place where it stops. -/
theorem schedule_returns {s : KernelState} (esp : Word) {vs : List Word} {r : Word}
    (hpath : Passes s.nextOrHead (s.nextOrHead s.currentProcess) vs r)
    (hall : ∀ v ∈ vs, PassedOver s v) (hr : ¬ PassedOver s r) :
    ∃ fuel s', schedule s esp fuel = some s' := by
  refine ⟨vs.length + 1, ?_⟩
  unfold schedule
  rw [findNextReady_eq hpath hall hr (Nat.lt_succ_self _)]
  by_cases hcur : s.currentProcess = 0
  · exact ⟨s, if_pos hcur⟩
  · exact ⟨_, if_neg hcur⟩

/-! ## `exit` -/

/-- `exit` before `schedule`, when the parent is not blocked: only the state of the current
process changes. -/
theorem exitCurrent_eq {s : KernelState}
    (hblocked : (s.procs s.currentProcess).parent = 0 ∨
      (s.procs (s.procs s.currentProcess).parent).state ≠ .blocked) :
    exitCurrent s = s.modify s.currentProcess (·.setState .terminated) := by
  have hparent : ((s.modify s.currentProcess (·.setState .terminated)).procs
      s.currentProcess).parent = (s.procs s.currentProcess).parent := by
    rw [modify_procs_self]
    rfl
  have hstate : (s.procs s.currentProcess).parent = 0 ∨
      ((s.modify s.currentProcess (·.setState .terminated)).procs
        (s.procs s.currentProcess).parent).state ≠ .blocked := by
    refine hblocked.imp id fun hb => ?_
    by_cases hself : (s.procs s.currentProcess).parent = s.currentProcess
    · rw [hself, modify_procs_self]
      exact nofun
    · rwa [modify_procs_of_ne hself]
  unfold exitCurrent
  have hcur : (s.modify s.currentProcess (·.setState .terminated)).currentProcess =
    s.currentProcess := rfl
  simp only [hcur, hparent]
  exact if_neg fun hb => hstate.elim hb.1 fun hn => hn hb.2

/-! ## `destroy_process` -/

/-- What `destroy_process` does apart from the calls of `kfree`, which do nothing. -/
theorem destroyProcess_eq (s : KernelState) (proc : Word) (fuel : Nat) :
    destroyProcess s proc fuel =
      if proc = 0 then some s
      else if s.processList = proc then some { s with processList := s.next proc }
      else
        (findPrevious s proc fuel).map fun current =>
          if current ≠ 0 then s.modify current fun p => { p with next := s.next proc } else s := by
  unfold destroyProcess
  simp only [kfree, ite_self, Option.map_id']

/-- What `destroy_process` does to `proc ≠ 0` when it returns: some `next` pointers, and
possibly the head of the list, now skip `proc`; everything else is as before. -/
structure Unlinked (s s' : KernelState) (proc : Word) : Prop where
  next : ∀ q, s'.next q = s.next q ∨ s'.next q = s.next proc
  data : ∀ q, s'.procs q = { s.procs q with next := s'.next q }
  processList : s'.processList = s.processList ∨ s'.processList = s.next proc
  currentProcess : s'.currentProcess = s.currentProcess
  switches : s'.switches = s.switches
  paging : s'.toPagingState = s.toPagingState

theorem destroyProcess_unlinked {s s' : KernelState} {proc : Word} {fuel : Nat}
    (h : destroyProcess s proc fuel = some s') : Unlinked s s' proc := by
  have hrefl : Unlinked s s proc :=
    ⟨fun _ => .inl rfl, fun _ => rfl, .inl rfl, rfl, rfl, rfl⟩
  rw [destroyProcess_eq] at h
  split_ifs at h with h0 hhead
  · obtain rfl := Option.some.inj h
    exact hrefl
  · obtain rfl := Option.some.inj h
    exact ⟨fun _ => .inl rfl, fun _ => rfl, .inr rfl, rfl, rfl, rfl⟩
  · obtain ⟨current, -, rfl⟩ := Option.map_eq_some_iff.mp h
    by_cases hc : current = 0
    · simp only [hc, ne_eq, not_true, if_false]
      exact hrefl
    · simp only [hc, ne_eq, not_false_eq_true, if_true]
      refine ⟨fun q => ?_, fun q => ?_, .inl rfl, rfl, rfl, rfl⟩
      · unfold KernelState.next
        by_cases hq : q = current
        · rw [hq, modify_procs_self]
          exact .inr rfl
        · rw [modify_procs_of_ne hq]
          exact .inl rfl
      · unfold KernelState.next
        by_cases hq : q = current
        · rw [hq, modify_procs_self]
        · rw [modify_procs_of_ne hq]

/-- Where the loop of `destroy_process` stops on a well-formed list that `proc` does not
head: behind the last member when `proc` is no member, else right before `proc`. -/
theorem findPrevious_spec {s : KernelState} {proc current : Word} {fuel : Nat} {l : List Word}
    (hchain : Chain 0 s.next s.processList l) (hne : proc ≠ 0) (hhead : s.processList ≠ proc)
    (h : findPrevious s proc fuel = some current) :
    (current = 0 ∧ proc ∉ l) ∨
      (current ≠ 0 ∧ ∃ X Y, l = X ++ current :: proc :: Y) := by
  obtain ⟨vs, hvs, hall, hstop⟩ := passes_of_whileLoop h
  have hpass : ∀ v ∈ vs, v ≠ 0 ∧ s.next v ≠ proc := fun v hv => by simpa using hall v hv
  obtain ⟨R, rfl, hr⟩ := hchain.of_passes hvs fun v hv => (hpass v hv).1
  cases R with
  | nil =>
    refine .inl ⟨hr, fun hmem => ?_⟩
    rw [List.append_nil] at hmem hchain
    obtain ⟨X, Y, rfl⟩ := List.append_of_mem hmem
    rcases List.eq_nil_or_concat X with rfl | ⟨X, a, rfl⟩
    · exact hhead hchain.start_eq
    · -- `proc` has a predecessor, and the loop would have stopped there.
      have hnext : s.next a = proc := by
        have hsplit : Chain 0 s.next s.processList (X ++ a :: proc :: Y) := by simpa using hchain
        exact hsplit.next_eq
      exact (hpass a (by simp)).2 hnext
  | cons r R =>
    obtain rfl : current = r := hr
    have hc := hchain.ne_null current (by simp)
    have hstop' : current ≠ 0 → s.next current = proc := by simpa using hstop
    have hnext := hstop' hc
    refine .inr ⟨hc, vs, ?_⟩
    rw [hchain.next_eq] at hnext
    cases R with
    | nil => exact absurd hnext.symm hne
    | cons q R =>
      obtain rfl : q = proc := hnext
      exact ⟨R, rfl⟩

theorem filter_ne_of_not_mem {l : List Word} {proc : Word} (h : proc ∉ l) :
    l.filter (· ≠ proc) = l := by
  rw [List.filter_eq_self]
  intro a ha
  simp only [ne_eq, decide_not, Bool.not_eq_true', decide_eq_false_iff_not]
  rintro rfl
  exact h ha

/-- Unlinking is the removal of one member from a list without duplicates. -/
theorem filter_ne_append {X Y : List Word} {proc : Word} (h : (X ++ proc :: Y).Nodup) :
    (X ++ proc :: Y).filter (· ≠ proc) = X ++ Y := by
  have hX : proc ∉ X := fun hmem => (List.nodup_append.mp h).2.2 proc hmem proc
    List.mem_cons_self rfl
  have hY : proc ∉ Y := (List.nodup_cons.mp (List.nodup_append.mp h).2.1).1
  rw [List.filter_append, filter_ne_of_not_mem hX, List.filter_cons_of_neg (by simp),
    filter_ne_of_not_mem hY]

/-- On a well-formed list `destroy_process` unlinks `proc` when it is a member, and changes
nothing when it is not. -/
theorem destroyProcess_spec {s s' : KernelState} {proc : Word} {fuel : Nat} {l : List Word}
    (hchain : Chain 0 s.next s.processList l) (hne : proc ≠ 0)
    (h : destroyProcess s proc fuel = some s') :
    Chain 0 s'.next s'.processList (l.filter (· ≠ proc)) := by
  rw [destroyProcess_eq, if_neg hne] at h
  by_cases hhead : s.processList = proc
  · rw [if_pos hhead] at h
    obtain rfl := Option.some.inj h
    -- `proc` is the first member.
    cases l with
    | nil => exact absurd (hhead.symm.trans hchain) hne
    | cons a l =>
      have hnd := hchain.nodup
      obtain ⟨hstart, -, hl⟩ := hchain
      obtain rfl : a = proc := hstart.symm.trans hhead
      have hfilter := filter_ne_append (X := []) hnd
      rw [List.nil_append, List.nil_append] at hfilter
      rw [hfilter]
      exact hl
  · rw [if_neg hhead] at h
    obtain ⟨current, hfind, rfl⟩ := Option.map_eq_some_iff.mp h
    rcases findPrevious_spec hchain hne hhead hfind with ⟨rfl, hnot⟩ | ⟨hc, X, Y, rfl⟩
    · rw [filter_ne_of_not_mem hnot]
      exact hchain
    · have hsplit : X ++ current :: proc :: Y = (X ++ [current]) ++ proc :: Y := by simp
      have hnd := hchain.nodup
      rw [hsplit] at hnd
      rw [hsplit, filter_ne_append hnd, List.append_assoc]
      simp only [ne_eq, hc, not_false_eq_true, if_true]
      -- The new `next` function differs at `current` only.
      refine hchain.unlink.congr fun q _ => ?_
      unfold KernelState.next
      by_cases hq : q = current
      · rw [hq, modify_procs_self, Function.update_self]
      · rw [modify_procs_of_ne hq, Function.update_of_ne hq]

/-- `destroy_process` returns on a well-formed list. -/
theorem destroyProcess_returns {s : KernelState} {l : List Word}
    (hchain : Chain 0 s.next s.processList l) (proc : Word) :
    ∃ fuel s', destroyProcess s proc fuel = some s' := by
  obtain ⟨vs, r, hvs, hall, hr⟩ := hchain.exists_stop
    (fun current => current ≠ 0 && s.next current ≠ proc) rfl
  have hloop := whileLoop_of_passes hvs hall hr (Nat.lt_succ_self _)
  refine ⟨vs.length + 1, ?_⟩
  rw [destroyProcess_eq]
  unfold findPrevious
  rw [hloop]
  split_ifs
  · exact ⟨_, rfl⟩
  · exact ⟨_, rfl⟩
  · exact ⟨_, rfl⟩

end KyroKernel
