import Mathlib.Logic.Function.Iterate
import Mathlib.Tactic.Common

/-!
# Loops

`while (cond(x)) x = body(x);` with fuel, and what such a loop passes on its way: the values
of `x` at which the condition held, and the value at which it stopped. A result says what
the loop did; a bound on the values passed says that enough fuel gives a result.

`for (int i = lo; i < hi; i++)` with a body that can fail, and the rule for its invariant.
-/

namespace KyroKernel.Foundations

universe u

variable {α : Type u}

/-- `while (cond(x)) x = body(x);`, `none` when the fuel runs out first. -/
def whileLoop (cond : α → Bool) (body : α → α) : Nat → α → Option α
  | 0, _ => none
  | fuel + 1, x => if cond x then whileLoop cond body fuel (body x) else some x

/-- A result for enough fuel, where a round takes one unit of it. -/
theorem forall_fuel {P : Nat → Prop} {k : Nat} (h : ∀ fuel, k ≤ fuel → P (fuel + 1)) :
    ∀ fuel > k, P fuel := by
  intro fuel hfuel
  obtain ⟨fuel, rfl⟩ := Nat.exists_eq_add_one_of_ne_zero (Nat.ne_zero_of_lt hfuel)
  exact h fuel (Nat.le_of_lt_succ hfuel)

/-- `Passes body x vs r`: applying `body` again and again leads from `x` through the values
`vs` to `r`. -/
inductive Passes (body : α → α) : α → List α → α → Prop where
  | here (x : α) : Passes body x [] x
  | cons {x r : α} {vs : List α} (h : Passes body (body x) vs r) : Passes body x (x :: vs) r

variable {cond : α → Bool} {body : α → α} {x r : α}

/-- A loop that returns stopped at a value where the condition fails, and passed only values
where it holds. -/
theorem passes_of_whileLoop {fuel : Nat} (h : whileLoop cond body fuel x = some r) :
    ∃ vs, Passes body x vs r ∧ (∀ v ∈ vs, cond v = true) ∧ cond r = false := by
  induction fuel generalizing x with
  | zero => cases h
  | succ n ih =>
    rw [whileLoop] at h
    by_cases hc : cond x = true
    · rw [if_pos hc] at h
      obtain ⟨vs, hvs, hall, hr⟩ := ih h
      exact ⟨x :: vs, .cons hvs, List.forall_mem_cons.mpr ⟨hc, hall⟩, hr⟩
    · rw [if_neg hc] at h
      obtain rfl := Option.some.inj h
      exact ⟨[], .here x, fun v hv => absurd hv List.not_mem_nil, Bool.eq_false_iff.mpr hc⟩

/-- More fuel than values to pass is enough. -/
theorem whileLoop_of_passes {vs : List α} {fuel : Nat} (h : Passes body x vs r)
    (hall : ∀ v ∈ vs, cond v = true) (hr : cond r = false) (hfuel : vs.length < fuel) :
    whileLoop cond body fuel x = some r := by
  -- Every value passed takes one unit of fuel, the stop takes the last one.
  induction h generalizing fuel with
  | here x =>
    obtain ⟨n, rfl⟩ := Nat.exists_eq_add_one_of_ne_zero (Nat.ne_of_gt hfuel)
    rw [whileLoop, hr, if_neg Bool.false_ne_true]
  | @cons x r vs _ ih =>
    obtain ⟨n, rfl⟩ := Nat.exists_eq_add_one_of_ne_zero (Nat.ne_zero_of_lt hfuel)
    obtain ⟨hx, hvs⟩ := List.forall_mem_cons.mp hall
    rw [whileLoop, if_pos hx]
    refine ih hvs hr ?_
    simp only [List.length_cons] at hfuel
    omega

/-- Two ways from `x` agree up to the shorter one's end. -/
theorem Passes.rest_of_le {vs vs' : List α} {r' : α} (h : Passes body x vs r)
    (h' : Passes body x vs' r') (hle : vs.length ≤ vs'.length) :
    ∃ ws, vs' = vs ++ ws ∧ Passes body r ws r' := by
  -- The body is a function, so the two ways pass the same values as long as both go on.
  induction h generalizing vs' with
  | here x => exact ⟨vs', rfl, h'⟩
  | cons _ ih =>
    cases h' with
    | here => simp at hle
    | cons hrest =>
      obtain ⟨ws, rfl, hws⟩ := ih hrest (by simpa using hle)
      exact ⟨ws, rfl, hws⟩

/-- A way to the end passes by every value on it. -/
theorem Passes.of_append {vs ws : List α} {y : α} (h : Passes body x (vs ++ y :: ws) r) :
    Passes body x vs y := by
  induction vs generalizing x with
  | nil =>
    cases h with
    | cons _ => exact .here _
  | cons v vs ih =>
    cases h with
    | cons hrest => exact .cons (ih hrest)

/-- The end of a way is its next value when the way is not at its end yet. -/
theorem Passes.eq_or_mem {vs : List α} (h : Passes body x vs r) : x = r ∨ x ∈ vs := by
  cases h with
  | here => exact .inl rfl
  | cons _ => exact .inr List.mem_cons_self

/-- What the start satisfies and the body keeps holds where the loop stops. -/
theorem Passes.inv (P : α → Prop) {vs : List α} (h : Passes body x vs r) (hx : P x)
    (hstep : ∀ v ∈ vs, P v → P (body v)) : P r := by
  induction h with
  | here => exact hx
  | cons _ ih =>
    obtain ⟨hhd, htl⟩ := List.forall_mem_cons.mp hstep
    exact ih (hhd hx) htl

/-- The values passed are those of the iterated body. -/
theorem Passes.iterate {vs : List α} (h : Passes body x vs r) : body^[vs.length] x = r := by
  induction h with
  | here => rfl
  | cons _ ih => exact ih

/-- The way of the first `k` rounds. -/
theorem passes_iterate (body : α → α) (x : α) (k : Nat) :
    Passes body x ((List.range k).map fun j => body^[j] x) (body^[k] x) := by
  induction k generalizing x with
  | zero => exact .here x
  | succ k ih =>
    have hrest := ih (body x)
    rw [List.range_succ_eq_map, List.map_cons, List.map_map]
    exact .cons hrest

/-- The loop returns after the first number of rounds at which the condition fails. -/
theorem exists_whileLoop_iff : (∃ fuel, whileLoop cond body fuel x = some r) ↔
    ∃ k, body^[k] x = r ∧ cond r = false ∧ ∀ j < k, cond (body^[j] x) = true := by
  constructor
  · rintro ⟨fuel, h⟩
    obtain ⟨vs, hvs, hall, hr⟩ := passes_of_whileLoop h
    refine ⟨vs.length, hvs.iterate, hr, fun j hj => ?_⟩
    obtain ⟨ws, hws, -⟩ :=
      (passes_iterate body x (j + 1)).rest_of_le hvs (by simpa using Nat.succ_le_of_lt hj)
    apply hall
    rw [hws]
    apply List.mem_append_left
    exact List.mem_map_of_mem (List.mem_range.mpr (Nat.lt_succ_self j))
  · rintro ⟨k, rfl, hr, hall⟩
    refine ⟨k + 1, whileLoop_of_passes (passes_iterate body x k) ?_ hr (by simp)⟩
    intro v hv
    obtain ⟨j, hj, rfl⟩ := List.mem_map.mp hv
    exact hall j (List.mem_range.mp hj)

/-! ## Counting loops -/

/-- `n` rounds of `for (i = lo; …; i++) s = body(s, i);`, `none` as soon as a round fails. -/
def forRange {σ : Type u} (body : σ → Int → Option σ) : Int → Nat → σ → Option σ
  | _, 0, s => some s
  | lo, n + 1, s =>
    match body s lo with
    | none => none
    | some s => forRange body (lo + 1) n s

/-- An invariant of the rounds, with the value of `i` before the round, holds at the end. -/
theorem forRange_inv {σ : Type u} {body : σ → Int → Option σ} (I : Int → σ → Prop) {lo : Int}
    {n : Nat} {s : σ} (hs : I lo s)
    (hstep : ∀ i s, lo ≤ i → i < lo + n → I i s → ∃ s', body s i = some s' ∧ I (i + 1) s') :
    ∃ s', forRange body lo n s = some s' ∧ I (lo + n) s' := by
  induction n generalizing lo s with
  | zero => exact ⟨s, rfl, by rw [Int.natCast_zero, Int.add_zero]; exact hs⟩
  | succ n ih =>
    obtain ⟨s₁, hbody, hs₁⟩ := hstep lo s (Int.le_refl _) (by omega) hs
    obtain ⟨s', hrest, hs'⟩ := ih hs₁ fun i s hlo hhi => hstep i s (by omega) (by omega)
    refine ⟨s', by rw [forRange, hbody]; exact hrest, ?_⟩
    have hend : lo + 1 + (n : Int) = lo + (n + 1 : Nat) := by omega
    rw [← hend]
    exact hs'

/-- What every round keeps holds at the end, if there is one. -/
theorem forRange_keeps {σ : Type u} {body : σ → Int → Option σ} (P : σ → Prop) {lo : Int} {n : Nat}
    {s s' : σ} (hbody : ∀ i s s', lo ≤ i → i < lo + n → P s → body s i = some s' → P s') (hs : P s)
    (h : forRange body lo n s = some s') : P s' := by
  induction n generalizing lo s with
  | zero =>
    obtain rfl := Option.some.inj h
    exact hs
  | succ n ih =>
    rw [forRange] at h
    cases hround : body s lo with
    | none =>
      rw [hround] at h
      cases h
    | some s₁ =>
      rw [hround] at h
      have hs₁ := hbody lo s s₁ (Int.le_refl _) (by omega) hs hround
      exact ih (fun i s s' hlo hhi => hbody i s s' (by omega) (by omega)) hs₁ h

/-! ## Related states -/

section related

variable {σ τ σ' τ' : Type u} {R : σ → τ → Prop} {S : σ' → τ' → Prop}

/-- One computation after the other, on related states. -/
theorem rel_bind {a : Option σ} {b : Option τ} {f : σ → Option σ'} {g : τ → Option τ'}
    (h : Option.Rel R a b) (hnext : ∀ s t, R s t → Option.Rel S (f s) (g t)) :
    Option.Rel S (a >>= f) (b >>= g) := by
  cases h with
  | some hst => exact hnext _ _ hst
  | none => exact .none

/-- A loop with bodies that keep the relation. -/
theorem rel_forRange {body : σ → Int → Option σ} {body' : τ → Int → Option τ}
    (hbody : ∀ i s t, R s t → Option.Rel R (body s i) (body' t i)) (lo : Int) (n : Nat) {s : σ}
    {t : τ} (h : R s t) : Option.Rel R (forRange body lo n s) (forRange body' lo n t) := by
  induction n generalizing lo s t with
  | zero => exact .some h
  | succ n ih =>
    have hround := hbody lo s t h
    rw [forRange, forRange]
    generalize body s lo = a at hround ⊢
    generalize body' t lo = b at hround ⊢
    cases hround with
    | some hst => exact ih _ hst
    | none => exact .none

/-- When one of the computations succeeds, so does the other. -/
theorem exists_of_rel {a : Option σ} {t : τ} (h : Option.Rel R a (some t)) :
    ∃ s, a = some s ∧ R s t := by
  cases h with
  | some hst => exact ⟨_, rfl, hst⟩

end related

end KyroKernel.Foundations
