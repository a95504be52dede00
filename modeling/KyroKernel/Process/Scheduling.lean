import KyroKernel.Foundations.LinkedList
import KyroKernel.Foundations.RoundRobin
import KyroKernel.Process.Operations

/-!
# What `schedule` picks

`schedule` walks the process list as a ring: from the current process towards the tail, on from the
head, and back to the current process. It switches to the first process it meets that is ready.
-/

namespace KyroKernel

open Foundations

variable {s : KernelState} {l : List Word}

/-- The first ready process after the current one around the list `l`. -/
def nextReady (s : KernelState) (l : List Word) : Option Word :=
  (ringOthers l s.currentProcess).find? fun p => (s.procs p).state = .ready

/-- What `schedule` is for: a switch to the first ready process around the list, and no change when
there is none. -/
def Scheduled (s s' : KernelState) (l : List Word) : Prop :=
  match nextReady s l with
  | some next => Switched s s' next
  | none => s' = s

/-- `next`, and `process_list` at the end, lead around the list. -/
theorem ringNext_nextOrHead (hchain : Chain 0 s.next s.processList l) {p : Word} (hp : p ∈ l) :
    ringNext l p = some (s.nextOrHead p) := by
  have hnd := hchain.nodup
  obtain ⟨X, R, rfl⟩ := List.append_of_mem hp
  rw [ringNext_append (not_mem_of_nodup_append hnd)]
  unfold KernelState.nextOrHead
  cases R with
  | nil =>
    -- The last process: the walk wraps.
    have hlast : s.next p = 0 := hchain.next_eq
    rw [if_pos hlast, hchain.start_eq]
    cases X <;> rfl
  | cons r R =>
    have hnext : s.next p = r := hchain.next_eq
    have hr : r ≠ 0 := hchain.ne_null r (by simp)
    rw [hnext, if_neg hr]
    rfl

/-- The other processes that are not ready are passed. -/
theorem passedOver_of_not_ready (hchain : Chain 0 s.next s.processList l)
    (hcur : s.currentProcess ∈ l) {p : Word} (hp : p ∈ ringOthers l s.currentProcess)
    (hstate : (s.procs p).state ≠ .ready) : PassedOver s p := by
  obtain ⟨hmem, hne⟩ := (mem_ringOthers hcur hchain.nodup).mp hp
  exact ⟨hchain.ne_null p hmem, hstate, hne⟩

/-- The loop stops at the first ready process, or back at the current one. -/
theorem findNextReady_ring (hchain : Chain 0 s.next s.processList l)
    (hcur : s.currentProcess ∈ l) {fuel : Nat} (hfuel : l.length ≤ fuel) :
    findNextReady s (s.nextOrHead s.currentProcess) fuel =
      some ((nextReady s l).getD s.currentProcess) := by
  have hpath := passes_ringOthers hcur hchain.nodup fun p hp => ringNext_nextOrHead hchain hp
  have hlen := length_ringOthers hcur hchain.nodup
  unfold nextReady
  rcases hfind : (ringOthers l s.currentProcess).find? (fun p => (s.procs p).state = .ready) with
    _ | next
  · -- All others are passed.
    rw [List.find?_eq_none] at hfind
    refine findNextReady_eq hpath (fun v hv => ?_) (fun hp => hp.2.2 rfl) (by omega)
    exact passedOver_of_not_ready hchain hcur hv (by simpa using hfind v hv)
  · obtain ⟨hready, before, after, hsplit, hbefore⟩ := List.find?_eq_some_iff_append.mp hfind
    have hstop : ¬ PassedOver s next := fun hp => hp.2.1 (by simpa using hready)
    rw [hsplit] at hpath hlen
    rw [List.length_append] at hlen
    refine findNextReady_eq hpath.of_append (fun v hv => ?_) hstop (by omega)
    have hmem : v ∈ ringOthers l s.currentProcess := by
      rw [hsplit]
      exact List.mem_append_left _ hv
    exact passedOver_of_not_ready hchain hcur hmem (by simpa using hbefore v hv)

/-- `schedule` returns after at most as many rounds as the list has members, and it does what it is
for. -/
theorem schedule_scheduled (hchain : Chain 0 s.next s.processList l)
    (hcur : s.currentProcess ∈ l) (esp : Word) :
    ∃ s', (∀ fuel, l.length ≤ fuel → schedule s esp fuel = some s') ∧ Scheduled s s' l := by
  have hne := hchain.ne_null _ hcur
  have hloop := fun fuel (hfuel : l.length ≤ fuel) => findNextReady_ring hchain hcur hfuel
  unfold Scheduled
  rcases hnext : nextReady s l with _ | next
  · refine ⟨s, fun fuel hfuel => ?_, rfl⟩
    unfold schedule
    rw [if_neg hne, hloop fuel hfuel, hnext]
    simp
  · have hmem := List.mem_of_find?_eq_some hnext
    obtain ⟨hl, hother⟩ := (mem_ringOthers hcur hchain.nodup).mp hmem
    have hready : (s.procs next).state = .ready := by
      simpa using List.find?_some hnext
    have hgo : next ≠ 0 ∧ next ≠ s.currentProcess ∧ (s.procs next).state = .ready :=
      ⟨hchain.ne_null _ hl, hother, hready⟩
    refine ⟨_, fun fuel hfuel => ?_, switchTask_spec esp hgo.1 hother hready⟩
    unfold schedule
    rw [if_neg hne, hloop fuel hfuel, hnext]
    simp only [Option.getD_some, Option.map_some, if_pos hgo]

/-- Three processes: the second one of the list is running, the third one is blocked. -/
def threeKernel : KernelState where
  mem := fun _ => 0
  heapCurrent := 0x30C198
  kernelDirectory := 0x301000
  currentDirectory := 0x301000
  frames := 0x300000
  nframes := 4096
  cr0 := 0x80000001
  cr3 := 0
  procs := fun p =>
    if p = 0x30A110 then { state := .ready, next := 0x308088 }
    else if p = 0x308088 then { state := .running, next := 0x306000 }
    else if p = 0x306000 then { state := .blocked }
    else {}
  processList := 0x30A110
  currentProcess := 0x308088
  nextPid := 4
  switches := []

/-- The walk wraps to the head, which is ready. -/
theorem schedule_scheduled_threeKernel :
    nextReady threeKernel [0x30A110, 0x308088, 0x306000] = some 0x30A110 ∧
    ∃ s', (∀ fuel, 3 ≤ fuel → schedule threeKernel 0 fuel = some s') ∧
      Scheduled threeKernel s' [0x30A110, 0x308088, 0x306000] := by
  have hchain : Chain 0 threeKernel.next threeKernel.processList [0x30A110, 0x308088, 0x306000] :=
    ⟨rfl, by decide, rfl, by decide, rfl, by decide, rfl⟩
  exact ⟨by decide, schedule_scheduled hchain (by decide) 0⟩

end KyroKernel
