import KyroKernel.Foundations.Loop
import Mathlib.Logic.Function.Basic

/-!
# Singly linked lists

`Chain null next x l` says that following `next` from `x` meets exactly the members of `l`,
in this order, before it reaches `null`. Insertion at the head and unlinking of a member
keep the relation; a chain determines its list, and the list has no duplicates.
-/

namespace KyroKernel.Foundations

universe u

variable {α : Type u}

/-- Following `next` from `x` meets the members of `l` in order, then `null`. -/
def Chain (null : α) (next : α → α) : α → List α → Prop
  | x, [] => x = null
  | x, a :: l => x = a ∧ a ≠ null ∧ Chain null next (next a) l

namespace Chain

variable {null x a : α} {next next' : α → α} {l l' : List α}

theorem ne_null (h : Chain null next x l) : ∀ a ∈ l, a ≠ null := by
  induction l generalizing x with
  | nil => exact fun a ha => absurd ha List.not_mem_nil
  | cons b l ih =>
    obtain ⟨-, hb, hl⟩ := h
    exact List.forall_mem_cons.mpr ⟨hb, ih hl⟩

/-- The start of a chain is the first member of its list. -/
theorem start_eq (h : Chain null next x l) : x = l.headD null := by
  cases l with
  | nil => exact h
  | cons b l => exact h.1

/-- A chain determines its list. -/
theorem unique (h : Chain null next x l) (h' : Chain null next x l') : l = l' := by
  induction l generalizing x l' with
  | nil =>
    cases l' with
    | nil => rfl
    | cons b l' => exact absurd (h'.1.symm.trans h) h'.2.1
  | cons b l ih =>
    obtain ⟨rfl, hb, hl⟩ := h
    cases l' with
    | nil => exact absurd h' hb
    | cons c l' =>
      obtain ⟨rfl, -, hl'⟩ := h'
      rw [ih hl hl']

/-- Only the `next` of the members matters. -/
theorem congr (h : Chain null next x l) (hnext : ∀ a ∈ l, next' a = next a) :
    Chain null next' x l := by
  induction l generalizing x with
  | nil => exact h
  | cons b l ih =>
    obtain ⟨rfl, hb, hl⟩ := h
    obtain ⟨hhd, htl⟩ := List.forall_mem_cons.mp hnext
    refine ⟨rfl, hb, ?_⟩
    rw [hhd]
    exact ih hl htl

/-- The rest of a chain from a member on is the chain of that member. -/
theorem of_append {X R : List α} (h : Chain null next x (X ++ R)) (hR : R = a :: l) :
    Chain null next a R := by
  subst hR
  induction X generalizing x with
  | nil =>
    obtain ⟨rfl, ha, hl⟩ := h
    exact ⟨rfl, ha, hl⟩
  | cons b X ih => exact ih h.2.2

/-- The `next` of a member is the member after it, or `null`. -/
theorem next_eq {X R : List α} (h : Chain null next x (X ++ a :: R)) : next a = R.headD null :=
  (h.of_append rfl).2.2.start_eq

/-- A chain meets no member twice. -/
theorem nodup (h : Chain null next x l) : l.Nodup := by
  induction l generalizing x with
  | nil => exact List.nodup_nil
  | cons b l ih =>
    obtain ⟨hx, hb, hl⟩ := h
    refine List.nodup_cons.mpr ⟨fun hmem => ?_, ih hl⟩
    -- A second visit of `b` would give `b` two chains of different length.
    obtain ⟨X, R, rfl⟩ := List.append_of_mem hmem
    have hsame : b :: R = b :: (X ++ b :: R) := (hl.of_append rfl).unique ⟨rfl, hb, hl⟩
    have hlen := congrArg List.length hsame
    simp only [List.length_cons, List.length_append] at hlen
    omega

/-- Insertion at the head. -/
theorem insert (h : Chain null next x l) (ha : a ≠ null) (hself : next' a = x)
    (hnext : ∀ b ∈ l, next' b = next b) : Chain null next' a (a :: l) := by
  refine ⟨rfl, ha, ?_⟩
  rw [hself]
  exact h.congr hnext

/-- Unlinking the member `p` after `a`: `a.next = p.next`. -/
theorem unlink [DecidableEq α] {X Y : List α} {p : α}
    (h : Chain null next x (X ++ a :: p :: Y)) :
    Chain null (Function.update next a (next p)) x (X ++ a :: Y) := by
  have hnd := h.nodup
  induction X generalizing x with
  | nil =>
    -- `a` now leads to what `p` led to, and no member of `Y` is `a`.
    obtain ⟨rfl, ha, -, -, hY⟩ := h
    refine ⟨rfl, ha, ?_⟩
    rw [Function.update_self]
    refine hY.congr fun b hb => Function.update_of_ne ?_ ..
    rintro rfl
    simp [hb] at hnd
  | cons b X ih =>
    obtain ⟨rfl, hb, hX⟩ := h
    obtain ⟨hnot, hnd'⟩ := List.nodup_cons.mp hnd
    refine ⟨rfl, hb, ?_⟩
    rw [Function.update_of_ne (fun heq => hnot (by simp [heq]))]
    exact ih hX hnd'

/-- A walk that has not met `null` follows the chain. -/
theorem of_passes {vs : List α} {r : α} (h : Chain null next x l) (hw : Passes next x vs r)
    (hne : ∀ v ∈ vs, v ≠ null) : ∃ R, l = vs ++ R ∧ r = R.headD null := by
  induction hw generalizing l with
  | here x => exact ⟨l, rfl, h.start_eq⟩
  | @cons x r vs _ ih =>
    obtain ⟨hx, hvs⟩ := List.forall_mem_cons.mp hne
    cases l with
    -- The end of the list is `null`, which the walk has not met.
    | nil => exact absurd h hx
    | cons b l =>
      obtain ⟨rfl, -, hl⟩ := h
      obtain ⟨R, rfl, hr⟩ := ih hl hvs
      exact ⟨R, rfl, hr⟩

/-- A walk along a chain stops, at the latest at `null`. -/
theorem exists_stop (cond : α → Bool) (h : Chain null next x l) (hnull : cond null = false) :
    ∃ vs r, Passes next x vs r ∧ (∀ v ∈ vs, cond v = true) ∧ cond r = false := by
  induction l generalizing x with
  | nil =>
    obtain rfl : x = null := h
    exact ⟨[], x, .here x, fun v hv => absurd hv List.not_mem_nil, hnull⟩
  | cons b l ih =>
    obtain ⟨rfl, -, hl⟩ := h
    by_cases hc : cond x = true
    · obtain ⟨vs, r, hvs, hall, hr⟩ := ih hl
      exact ⟨x :: vs, r, .cons hvs, List.forall_mem_cons.mpr ⟨hc, hall⟩, hr⟩
    · exact ⟨[], x, .here x, fun v hv => absurd hv List.not_mem_nil, Bool.eq_false_iff.mpr hc⟩

/-- Pointers that lead from the members of `S` to `null` or to members of lower rank end. -/
theorem exists_of_lt (S : α → Prop) (rank : α → Nat)
    (hS : ∀ a, S a → a ≠ null ∧ (next a = null ∨ (S (next a) ∧ rank (next a) < rank a)))
    (hx : S x) :
    ∃ l, Chain null next (next x) l ∧ (∀ a ∈ l, S a ∧ rank a < rank x) ∧
      l.Pairwise fun a b => rank b < rank a := by
  induction hn : rank x using Nat.strongRecOn generalizing x with
  | _ n ih =>
    obtain ⟨-, hnull | ⟨hmem, hlt⟩⟩ := hS x hx
    · exact ⟨[], hnull, fun a ha => absurd ha List.not_mem_nil, .nil⟩
    · obtain ⟨l, hchain, hall, hsorted⟩ := ih (rank (next x)) (hn ▸ hlt) hmem rfl
      refine ⟨next x :: l, ⟨rfl, (hS _ hmem).1, hchain⟩, ?_,
        .cons (fun a ha => (hall a ha).2) hsorted⟩
      rw [← hn]
      exact List.forall_mem_cons.mpr
        ⟨⟨hmem, hlt⟩, fun a ha => ⟨(hall a ha).1, Nat.lt_trans (hall a ha).2 hlt⟩⟩

end Chain

end KyroKernel.Foundations
