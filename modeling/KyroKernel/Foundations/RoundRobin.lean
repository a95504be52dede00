import KyroKernel.Foundations.Loop
import Mathlib.Data.List.Nodup

/-!
# Round robin over a growing list

A cursor walks a list without duplicates from head to tail and wraps. New members are put
at the head while it walks. `Ahead p l cur ahead` lists the members the cursor meets before
it meets `p` again, when it last left `p`: every step takes the first of them, and an
insertion adds at most the new member.
-/

namespace KyroKernel.Foundations

universe u

variable {α : Type u}

/-- The member after `cur`, wrapping to the head. -/
def ringNext [DecidableEq α] (l : List α) (cur : α) : Option α :=
  ((l.dropWhile (· ≠ cur)).tail ++ l).head?

theorem ringNext_append [DecidableEq α] {X R : List α} {cur : α} (h : cur ∉ X) :
    ringNext (X ++ cur :: R) cur = (R ++ X ++ [cur]).head? := by
  -- Dropping up to `cur` leaves `cur` and what follows it.
  have hdrop : (X ++ cur :: R).dropWhile (· ≠ cur) = cur :: R := by
    rw [List.dropWhile_append_of_pos]
    · simp
    · intro a ha
      simp only [ne_eq, decide_not, Bool.not_eq_true', decide_eq_false_iff_not]
      rintro rfl
      exact h ha
  unfold ringNext
  rw [hdrop]
  cases R with
  | nil => cases X <;> rfl
  | cons r R => rfl

/-- The other members, in the order in which a cursor at `cur` meets them. -/
def ringOthers [DecidableEq α] (l : List α) (cur : α) : List α :=
  (l.dropWhile (· ≠ cur)).tail ++ l.takeWhile (· ≠ cur)

theorem ringOthers_append [DecidableEq α] {X R : List α} {cur : α} (h : cur ∉ X) :
    ringOthers (X ++ cur :: R) cur = R ++ X := by
  have hall : ∀ a ∈ X, decide (a ≠ cur) = true := by
    intro a ha
    simp only [ne_eq, decide_not, Bool.not_eq_true', decide_eq_false_iff_not]
    rintro rfl
    exact h ha
  unfold ringOthers
  rw [List.dropWhile_append_of_pos hall, List.takeWhile_append_of_pos hall]
  simp

theorem not_mem_of_nodup_append {X R : List α} {a : α} (h : (X ++ a :: R).Nodup) : a ∉ X :=
  fun hmem => (List.nodup_append.mp h).2.2 a hmem a List.mem_cons_self rfl

/-- The members of `l` that the cursor `cur` meets before `p`, first one first. -/
inductive Ahead (p : α) : List α → α → List α → Prop where
  /-- The cursor has not wrapped since it left `p`. -/
  | leaving {X V Z : List α} {cur : α} (hp : (V ++ [cur]).head? = some p) :
      Ahead p (X ++ V ++ cur :: Z) cur (Z ++ X)
  /-- The cursor has wrapped and comes to `p` from the head. -/
  | coming {X Y Z : List α} {cur : α} : Ahead p (X ++ cur :: (Y ++ p :: Z)) cur Y

namespace Ahead

variable {p cur x : α} {l ahead : List α}

/-- When the cursor is at `p`, every other member is ahead once. -/
theorem start [DecidableEq α] (hp : p ∈ l) (hnd : l.Nodup) :
    ∃ ahead, Ahead p l p ahead ∧ ∀ q ∈ l, q ≠ p → ahead.count q = 1 := by
  obtain ⟨X, Z, rfl⟩ := List.append_of_mem hp
  have h : Ahead p (X ++ [] ++ p :: Z) p (Z ++ X) := .leaving rfl
  rw [List.append_nil] at h
  refine ⟨Z ++ X, h, fun q hq hne => ?_⟩
  have hcount := List.count_eq_one_of_mem hnd hq
  rw [List.count_append, List.count_cons_of_ne hne.symm] at hcount
  rw [List.count_append]
  omega

/-- The cursor's next member is the first one ahead, or `p` when none is left. -/
theorem next_eq [DecidableEq α] (h : Ahead p l cur ahead) (hnd : l.Nodup) :
    ringNext l cur = (ahead ++ [p]).head? := by
  cases h with
  | @leaving X V Z _ hp =>
    rw [ringNext_append (not_mem_of_nodup_append hnd)]
    -- The next member is behind the cursor, or else at the head of the list.
    cases Z with
    | cons z Z => rfl
    | nil =>
      cases X with
      | cons y X => rfl
      | nil => exact hp
  | @coming X _ Z _ =>
    rw [ringNext_append (not_mem_of_nodup_append hnd)]
    cases ahead <;> rfl

/-- `p` itself is not ahead. -/
theorem not_mem (h : Ahead p l cur ahead) (hnd : l.Nodup) : p ∉ ahead := by
  cases h with
  | @leaving X V Z _ hp =>
    obtain ⟨W, hW⟩ : ∃ W, V ++ [cur] = p :: W := List.head?_eq_some_iff.mp hp
    have hl : X ++ V ++ cur :: Z = X ++ p :: (W ++ Z) := by
      rw [List.append_assoc, List.append_cons V cur Z, hW, List.cons_append]
    rw [hl] at hnd
    have hX := not_mem_of_nodup_append hnd
    have hZ := (List.nodup_cons.mp (List.nodup_append.mp hnd).2.1).1
    simp only [List.mem_append, not_or] at hZ ⊢
    exact ⟨hZ.2, hX⟩
  | @coming X _ Z _ =>
    have hrest := (List.nodup_cons.mp (List.nodup_append.mp hnd).2.1).2
    exact not_mem_of_nodup_append hrest

/-- Stepping to the first member ahead leaves the others ahead. -/
theorem step {a : α} (h : Ahead p l cur (a :: ahead)) : Ahead p l a ahead := by
  generalize hahead : a :: ahead = as at h
  cases h with
  | @leaving X V Z _ hp =>
    cases Z with
    | cons z Z =>
      -- The cursor goes one further towards the tail.
      obtain ⟨rfl, rfl⟩ := List.cons.inj hahead
      have hp' : ((V ++ [cur]) ++ [a]).head? = some p := by
        rw [List.head?_append, hp]
        rfl
      have h := Ahead.leaving (X := X) (Z := Z) hp'
      simpa using h
    | nil =>
      -- The cursor is at the tail and wraps to the head of `X`.
      cases X with
      | nil => cases hahead
      | cons y X =>
        obtain ⟨rfl, rfl⟩ := List.cons.inj hahead
        obtain ⟨W, hW⟩ : ∃ W, V ++ [cur] = p :: W := List.head?_eq_some_iff.mp hp
        have h : Ahead p ([] ++ a :: (ahead ++ p :: W)) a ahead := .coming
        rw [← hW] at h
        simpa using h
  | @coming X _ Z _ =>
    -- The cursor goes one further towards `p`.
    subst hahead
    have h : Ahead p ((X ++ [cur]) ++ a :: (ahead ++ p :: Z)) a ahead := .coming
    simpa using h

/-- The cursor is a member. -/
theorem mem (h : Ahead p l cur ahead) : cur ∈ l := by
  cases h with
  | leaving _ => simp
  | coming => simp

/-- A walk around the ring passes the members ahead and comes to `p`. -/
theorem passes [DecidableEq α] {body : α → α} (h : Ahead p l cur ahead) (hnd : l.Nodup)
    (hbody : ∀ a ∈ l, ringNext l a = some (body a)) : Passes body (body cur) ahead p := by
  induction ahead generalizing cur with
  | nil =>
    have hnext := h.next_eq hnd
    rw [hbody cur h.mem] at hnext
    obtain rfl := Option.some.inj hnext
    exact .here _
  | cons a ahead ih =>
    have hnext := h.next_eq hnd
    rw [hbody cur h.mem] at hnext
    obtain hcur : body cur = a := Option.some.inj hnext
    rw [hcur]
    exact .cons (ih h.step)

/-- Inserting `x` at the head puts at most `x` ahead. -/
theorem insert [DecidableEq α] (h : Ahead p l cur ahead) (x : α) :
    ∃ ahead', Ahead p (x :: l) cur ahead' ∧ ∀ q, q ≠ x → ahead'.count q = ahead.count q := by
  cases h with
  | @leaving X V Z _ hp =>
    -- The cursor will meet `x` after it wraps.
    refine ⟨Z ++ x :: X, .leaving (X := x :: X) hp, fun q hq => ?_⟩
    rw [List.count_append, List.count_append, List.count_cons_of_ne hq.symm]
  -- The cursor has left the head behind, so `x` is not ahead.
  | @coming X _ Z _ => exact ⟨ahead, .coming (X := x :: X), fun q _ => rfl⟩

end Ahead

/-- From any member a walk passes all others and comes back. -/
theorem passes_ringOthers [DecidableEq α] {body : α → α} {cur : α} {l : List α} (hcur : cur ∈ l)
    (hnd : l.Nodup) (hbody : ∀ a ∈ l, ringNext l a = some (body a)) :
    Passes body (body cur) (ringOthers l cur) cur := by
  obtain ⟨X, R, rfl⟩ := List.append_of_mem hcur
  rw [ringOthers_append (not_mem_of_nodup_append hnd)]
  have hahead : Ahead cur (X ++ [] ++ cur :: R) cur (R ++ X) := .leaving rfl
  rw [List.append_nil] at hahead
  exact hahead.passes hnd hbody

theorem length_ringOthers [DecidableEq α] {cur : α} {l : List α} (hcur : cur ∈ l)
    (hnd : l.Nodup) : (ringOthers l cur).length + 1 = l.length := by
  obtain ⟨X, R, rfl⟩ := List.append_of_mem hcur
  rw [ringOthers_append (not_mem_of_nodup_append hnd)]
  simp only [List.length_append, List.length_cons]
  omega

/-- The others are the members other than `cur`. -/
theorem mem_ringOthers [DecidableEq α] {cur a : α} {l : List α} (hcur : cur ∈ l) (hnd : l.Nodup) :
    a ∈ ringOthers l cur ↔ a ∈ l ∧ a ≠ cur := by
  obtain ⟨X, R, rfl⟩ := List.append_of_mem hcur
  have hX := not_mem_of_nodup_append hnd
  have hR := (List.nodup_cons.mp (List.nodup_append.mp hnd).2.1).1
  rw [ringOthers_append hX, List.mem_append, List.mem_append, List.mem_cons]
  constructor
  · rintro (hmem | hmem)
    · exact ⟨.inr (.inr hmem), fun heq => hR (heq ▸ hmem)⟩
    · exact ⟨.inl hmem, fun heq => hX (heq ▸ hmem)⟩
  · rintro ⟨hmem | heq | hmem, hne⟩
    · exact .inr hmem
    · exact absurd heq hne
    · exact .inl hmem

end KyroKernel.Foundations
