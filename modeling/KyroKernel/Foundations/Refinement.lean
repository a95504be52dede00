import Mathlib.Tactic.Common

/-!
# Components that answer alike

A component has a state and answers calls. When a component implements a simpler one, by a function
from its states to those of the other that its calls respect as long as an invariant holds, then both
give the same answers to every sequence of calls.
-/

namespace KyroKernel.Foundations

universe u v w x

variable {σ : Type u} {τ : Type v} {ι : Type w} {ω : Type x}

/-- The answers to a sequence of calls. -/
def answers (exec : σ → ι → ω × σ) : σ → List ι → List ω
  | _, [] => []
  | s, i :: calls => (exec s i).1 :: answers exec (exec s i).2 calls

/-- The component `exec` implements `spec`: `view` is what its state stands for. -/
structure Implements (exec : σ → ι → ω × σ) (spec : τ → ι → ω × τ) (inv : σ → Prop) (view : σ → τ) :
    Prop where
  answer : ∀ s i, inv s → (exec s i).1 = (spec (view s) i).1
  state : ∀ s i, inv s → view (exec s i).2 = (spec (view s) i).2
  inv : ∀ s i, inv s → inv (exec s i).2

/-- Whatever the calls, the answers are the same. -/
theorem Implements.answers_eq {exec : σ → ι → ω × σ} {spec : τ → ι → ω × τ} {inv : σ → Prop}
    {view : σ → τ} (h : Implements exec spec inv view) {s : σ} (hs : inv s) (calls : List ι) :
    answers exec s calls = answers spec (view s) calls := by
  induction calls generalizing s with
  | nil => rfl
  | cons i calls ih =>
    rw [answers, answers, h.answer s i hs, ih (h.inv s i hs), h.state s i hs]

end KyroKernel.Foundations
