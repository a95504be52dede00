import Mathlib.Tactic.Common

/-!
# Runs of a labelled transition system

A run records every step it took as the pair of the state before the step and the label
of the step, latest first. Invariants, guarded invariants and prefixes of runs are stated
once here; a model supplies its initial states and its step relation.
-/

namespace KyroKernel.Foundations

universe u v

variable {σ : Type u} {ι : Type v}

/-- `Run init step tr s`: the steps `tr`, latest first, lead from an initial state to `s`. -/
inductive Run (init : σ → Prop) (step : σ → ι → σ → Prop) : List (σ × ι) → σ → Prop where
  | start {s : σ} (hinit : init s) : Run init step [] s
  | snoc {tr : List (σ × ι)} {s s' : σ} {i : ι} (hrun : Run init step tr s)
      (hstep : step s i s') : Run init step ((s, i) :: tr) s'

namespace Run

variable {init : σ → Prop} {step : σ → ι → σ → Prop} {tr : List (σ × ι)} {s : σ}

/-- An invariant that holds initially and is kept by every step holds after every run. -/
theorem inv (I : σ → Prop) (h0 : ∀ s, init s → I s)
    (hs : ∀ s i s', I s → step s i s' → I s') (h : Run init step tr s) : I s := by
  induction h with
  | start hinit => exact h0 _ hinit
  | snoc _ hstep ih => exact hs _ _ _ ih hstep

/-- An invariant kept by every step that meets the guard `G` holds after every run all of
whose steps meet `G`. -/
theorem inv_of_guard (I : σ → Prop) (G : σ → ι → Prop) (h0 : ∀ s, init s → I s)
    (hs : ∀ s i s', I s → G s i → step s i s' → I s') (h : Run init step tr s)
    (hG : ∀ p ∈ tr, G p.1 p.2) : I s := by
  induction h with
  | start hinit => exact h0 _ hinit
  | snoc _ hstep ih =>
    obtain ⟨hhd, htl⟩ := List.forall_mem_cons.mp hG
    exact hs _ _ _ (ih htl) hhd hstep

/-- A run without its last step. -/
theorem tail {p : σ × ι} (h : Run init step (p :: tr) s) : Run init step tr p.1 := by
  cases h with
  | snoc hrun _ => exact hrun

/-- The states a run went through: its end and the states its steps were taken from. -/
def states (tr : List (σ × ι)) (s : σ) : List σ := s :: tr.map Prod.fst

/-- The state a step was taken from is a state of the run. -/
theorem fst_mem_states {p : σ × ι} (hp : p ∈ tr) : p.1 ∈ states tr s :=
  List.mem_cons_of_mem _ (List.mem_map_of_mem hp)

/-- An invariant kept by every step that meets the guard `G` holds in all states of a run
all of whose steps meet `G`. -/
theorem inv_states_of_guard (I : σ → Prop) (G : σ → ι → Prop) (h0 : ∀ s, init s → I s)
    (hs : ∀ s i s', I s → G s i → step s i s' → I s') (h : Run init step tr s)
    (hG : ∀ p ∈ tr, G p.1 p.2) : ∀ z ∈ states tr s, I z := by
  induction h with
  | start hinit =>
    intro z hz
    obtain rfl := List.mem_singleton.mp hz
    exact h0 _ hinit
  | @snoc tr s s' i _ hstep ih =>
    obtain ⟨hhd, htl⟩ := List.forall_mem_cons.mp hG
    have hall := ih htl
    exact List.forall_mem_cons.mpr ⟨hs _ _ _ (hall s List.mem_cons_self) hhd hstep, hall⟩

/-- A step from a state with the property keeps it exactly when it meets the guard: then all
states of a run have the property exactly when all of its steps meet the guard. -/
theorem forall_states_iff (I : σ → Prop) (G : σ → ι → Prop) (h0 : ∀ s, init s → I s)
    (hs : ∀ s i s', I s → step s i s' → (I s' ↔ G s i)) (h : Run init step tr s) :
    (∀ z ∈ states tr s, I z) ↔ ∀ p ∈ tr, G p.1 p.2 := by
  constructor
  · intro hall p hp
    induction h with
    | start => exact absurd hp List.not_mem_nil
    | @snoc tr s s' i hrun hstep ih =>
      obtain ⟨hlast, hrest⟩ := List.forall_mem_cons.mp hall
      rcases List.mem_cons.mp hp with rfl | hold
      · exact (hs _ _ _ (hrest s List.mem_cons_self) hstep).mp hlast
      · exact ih hrest hold
  · exact h.inv_states_of_guard I G h0 fun s i s' hI hG hstep => (hs s i s' hI hstep).mpr hG

/-- Every step of a run ended in one of its states. -/
theorem exists_after {p : σ × ι} (h : Run init step tr s) (hp : p ∈ tr) :
    ∃ pre s', Run init step (p :: pre) s' ∧ s' ∈ states tr s := by
  induction h with
  | start => exact absurd hp List.not_mem_nil
  | @snoc tr s s' i hrun hstep ih =>
    rcases List.mem_cons.mp hp with rfl | hold
    · exact ⟨tr, s', .snoc hrun hstep, List.mem_cons_self⟩
    · obtain ⟨pre, z, hz, hmem⟩ := ih hold
      exact ⟨pre, z, hz, List.mem_cons_of_mem _ hmem⟩

/-- The state right after the step `p`, among the states from there on. -/
theorem after_split {post pre : List (σ × ι)} {p : σ × ι}
    (h : Run init step (post ++ p :: pre) s) :
    ∃ z ∈ states post s, Run init step (p :: pre) z := by
  induction post generalizing s with
  | nil => exact ⟨s, List.mem_cons_self, h⟩
  | cons q post ih =>
    obtain ⟨z, hz, hrun⟩ := ih h.tail
    exact ⟨z, List.mem_cons_of_mem _ hz, hrun⟩

/-- The last step of a run. -/
theorem last {p : σ × ι} (h : Run init step (p :: tr) s) : step p.1 p.2 s := by
  cases h with
  | snoc _ hstep => exact hstep

/-- The steps `is` of a computed transition function, if each of them can be made: what is recorded
of them, and the last state. -/
def follow (next : σ → ι → Option σ) (tr : List (σ × ι)) (s : σ) :
    List ι → Option (List (σ × ι) × σ)
  | [] => some (tr, s)
  | i :: is => (next s i).bind fun s' => follow next ((s, i) :: tr) s' is

/-- A run goes on with them, if the function computes steps in the states of runs. -/
theorem of_follow {next : σ → ι → Option σ} {is : List ι} {tr' : List (σ × ι)} {s' : σ}
    (hnext : ∀ {tr s i s'}, Run init step tr s → next s i = some s' → step s i s')
    (h : Run init step tr s) (hfollow : follow next tr s is = some (tr', s')) :
    Run init step tr' s' := by
  induction is generalizing tr s with
  | nil =>
    obtain ⟨rfl, rfl⟩ := Prod.mk.inj (Option.some.inj hfollow)
    exact h
  | cons i is ih =>
    obtain ⟨s₁, hstep, hrest⟩ := Option.bind_eq_some_iff.mp hfollow
    exact ih (h.snoc (hnext h hstep)) hrest

/-- The run that it computes, with a property that is decided for the result. -/
theorem exists_of_follow {next : σ → ι → Option σ} {is : List ι}
    (hnext : ∀ {tr s i s'}, Run init step tr s → next s i = some s' → step s i s')
    (h : Run init step tr s) (P : List (σ × ι) → σ → Prop) [∀ tr s, Decidable (P tr s)]
    (hfollow : (follow next tr s is).any (fun r => P r.1 r.2) = true) :
    ∃ tr' s', Run init step tr' s' ∧ P tr' s' := by
  obtain ⟨⟨tr', s'⟩, hresult, hP⟩ := (Option.any_eq_true _ _).mp hfollow
  exact ⟨tr', s', h.of_follow hnext hresult, of_decide_eq_true hP⟩

end Run

end KyroKernel.Foundations
