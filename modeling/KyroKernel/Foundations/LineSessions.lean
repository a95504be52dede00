import KyroKernel.Foundations.LineReader
import Mathlib.Data.List.Basic

/-!
# Sessions of lines

A program that reads lines from one stream, one after the other, with readers of one limit. What it
gets depends on the stream alone. As long as no line fills a reader up while it is typed, it gets
the lines of the stream after editing.
-/

namespace KyroKernel.Foundations

universe u

variable {α : Type u} (kind : α → KeyKind) (limit : Nat)

/-- `Reads lines input left`: readers one after the other get these lines, and leave the rest of the
stream. -/
inductive Reads : List (List α) → List α → List α → Prop where
  | nil (input : List α) : Reads [] input input
  | cons {input line rest left : List α} {lines : List (List α)}
      (hline : readLine kind limit [] input = some (line, rest)) (h : Reads lines rest left) :
      Reads (line :: lines) input left

/-- No line of the stream, and not the one that has not ended yet, is as long as the limit at any time
while it is typed. `line` is what it holds at first. -/
def NeverFills : List α → List α → Prop
  | line, [] => line.length < limit
  | line, c :: input =>
    line.length < limit ∧
      if kind c = .ends then NeverFills [] input else NeverFills (editKey kind line c) input

instance NeverFills.decidable (line input : List α) : Decidable (NeverFills kind limit line input) :=
  match input with
  | [] => inferInstanceAs (Decidable (_ < _))
  | c :: input =>
    have := NeverFills.decidable [] input
    have := NeverFills.decidable (editKey kind line c) input
    inferInstanceAs (Decidable (_ ∧ _))

/-- The lines of a stream that have ended, before editing. -/
def endedLines (input : List α) : List (List α) :=
  (input.splitOnP fun c => kind c = .ends).dropLast

/-- The keys of the line that has not ended yet. -/
def pendingLine (input : List α) : List α :=
  ((input.splitOnP fun c => kind c = .ends).getLast?).getD []

variable {kind limit} {limit' : Nat} {line kept input rest left : List α} {c : α}

/-! ## Readers -/

/-- A reader that returns has taken something. -/
theorem length_lt_of_readLine (hlimit : 0 < limit)
    (h : readLine kind limit [] input = some (line, rest)) : rest.length < input.length := by
  obtain ⟨typed, ended, rfl, -, hstops⟩ := exists_stops_of_readLine h
  rw [List.length_append, List.length_append]
  -- A reader that is full has typed keys, and one that is not has the key that ended the line.
  rcases hstops.stop with ⟨-, hfull⟩ | ⟨c, rfl, -, -⟩
  · have htyped : typed ≠ [] := by
      rintro rfl
      exact absurd hfull (Nat.not_le_of_lt hlimit)
    have := List.length_pos_iff.mpr htyped
    omega
  · rw [List.length_singleton]
    omega

/-! ## Lines -/

theorem splitLine_eq_none_iff : splitLine kind input = none ↔ ∀ c ∈ input, kind c ≠ .ends := by
  induction input with
  | nil => exact iff_of_true rfl fun c hc => absurd hc List.not_mem_nil
  | cons c input ih =>
    rw [splitLine, List.forall_mem_cons]
    by_cases hc : kind c = .ends
    · rw [if_pos hc]
      exact iff_of_false (Option.some_ne_none _) fun h => h.1 hc
    · rw [if_neg hc, Option.map_eq_none_iff, ih, and_iff_right hc]

/-- Without a line that has ended, all keys are of the one that has not. -/
theorem endedLines_of_splitLine_none (h : splitLine kind input = none) :
    endedLines kind input = [] ∧ pendingLine kind input = input := by
  have hnone := splitLine_eq_none_iff.mp h
  rw [endedLines, pendingLine, List.splitOnP_eq_singleton fun c hc => decide_eq_false (hnone c hc)]
  exact ⟨rfl, rfl⟩

/-- The first line, and the others. -/
theorem splitLine_spec (h : splitLine kind input = some (line, rest)) :
    (∀ c ∈ line, kind c ≠ .ends) ∧ ∃ c, kind c = .ends ∧ input = line ++ c :: rest := by
  induction input generalizing line with
  | nil => cases h
  | cons d input ih =>
    by_cases hd : kind d = .ends
    · rw [splitLine_ends hd] at h
      obtain ⟨rfl, rfl⟩ := Prod.mk.inj (Option.some.inj h)
      exact ⟨fun c hc => absurd hc List.not_mem_nil, d, hd, rfl⟩
    · obtain ⟨line', rfl, hline'⟩ := splitLine_of_not_ends hd h
      obtain ⟨hkinds, c, hc, rfl⟩ := ih hline'
      exact ⟨List.forall_mem_cons.mpr ⟨hd, hkinds⟩, c, hc, rfl⟩

theorem endedLines_of_splitLine (h : splitLine kind input = some (line, rest)) :
    endedLines kind input = line :: endedLines kind rest ∧
      pendingLine kind input = pendingLine kind rest := by
  obtain ⟨hkinds, c, hc, rfl⟩ := splitLine_spec h
  have hne := List.splitOnP_ne_nil (fun c => decide (kind c = .ends)) rest
  rw [endedLines, endedLines, pendingLine, pendingLine, List.splitOnP_append_cons_of_forall_mem
    (fun d hd => decide_eq_false (hkinds d hd)) c (decide_eq_true hc),
    List.dropLast_cons_of_ne_nil hne, List.getLast?_cons_of_ne_nil hne]
  exact ⟨rfl, rfl⟩

/-- The first of the lines that have ended is the first line. -/
theorem exists_splitLine {lines : List (List α)} (h : endedLines kind input = line :: lines) :
    ∃ rest, splitLine kind input = some (line, rest) ∧ endedLines kind rest = lines := by
  cases hsplit : splitLine kind input with
  | none =>
    rw [(endedLines_of_splitLine_none hsplit).1] at h
    cases h
  | some p =>
    rw [(endedLines_of_splitLine hsplit).1] at h
    obtain ⟨rfl, rfl⟩ := List.cons.inj h
    exact ⟨p.2, rfl, rfl⟩

/-! ## Lines that do not fill -/

/-- The first line stays short while it is typed, and so do those after it. -/
theorem NeverFills.of_splitLine (h : NeverFills kind limit kept input)
    (hsplit : splitLine kind input = some (line, rest)) :
    (∀ typed, typed <+: line → (editFrom kind kept typed).length < limit) ∧
      NeverFills kind limit [] rest := by
  induction input generalizing kept line with
  | nil => cases hsplit
  | cons d input ih =>
    obtain ⟨hkept, hrest⟩ := h
    by_cases hd : kind d = .ends
    · rw [if_pos hd] at hrest
      rw [splitLine_ends hd] at hsplit
      obtain ⟨rfl, rfl⟩ := Prod.mk.inj (Option.some.inj hsplit)
      refine ⟨fun typed htyped => ?_, hrest⟩
      rw [List.prefix_nil.mp htyped]
      exact hkept
    · -- The first line is `d` and what the induction is about.
      rw [if_neg hd] at hrest
      obtain ⟨line', rfl, hline'⟩ := splitLine_of_not_ends hd hsplit
      obtain ⟨hshort, hnext⟩ := ih hrest hline'
      refine ⟨fun typed htyped => ?_, hnext⟩
      rcases List.prefix_cons_iff.mp htyped with rfl | ⟨typed', rfl, htyped'⟩
      · exact hkept
      · exact hshort typed' htyped'

/-- The first line stops a reader with the key that ends it. -/
theorem stops_of_splitLine (hsplit : splitLine kind input = some (line, rest))
    (hshort : ∀ typed, typed <+: line → (editFrom kind kept typed).length < limit) :
    ∃ c, input = line ++ [c] ++ rest ∧ Stops kind limit kept line [c] := by
  obtain ⟨hkinds, c, hc, hinput⟩ := splitLine_spec hsplit
  exact ⟨c, by rw [hinput, List.append_assoc]; rfl, hkinds, fun typed htyped _ => hshort typed htyped,
    .inr ⟨c, rfl, hc, hshort line (List.prefix_refl line)⟩⟩

/-- A line that has not ended has stayed short. -/
theorem NeverFills.of_splitLine_none (h : NeverFills kind limit kept input)
    (hsplit : splitLine kind input = none) {typed : List α} (htyped : typed <+: input) :
    (editFrom kind kept typed).length < limit := by
  induction input generalizing kept typed with
  | nil =>
    rw [List.prefix_nil.mp htyped]
    exact h
  | cons d input ih =>
    obtain ⟨hkept, hrest⟩ := h
    rw [splitLine] at hsplit
    split at hsplit
    · cases hsplit
    · rename_i hd
      rw [if_neg hd] at hrest
      rcases List.prefix_cons_iff.mp htyped with rfl | ⟨typed', rfl, htyped'⟩
      · exact hkept
      · exact ih hrest (Option.map_eq_none_iff.mp hsplit) htyped'

/-- A reader waits for the end of a line that has not ended. -/
theorem NeverFills.readLine_none (h : NeverFills kind limit kept input) (hle : limit ≤ limit')
    (hsplit : splitLine kind input = none) : readLine kind limit' kept input = none := by
  induction input generalizing kept with
  | nil => exact if_pos (Nat.lt_of_lt_of_le h hle)
  | cons d input ih =>
    obtain ⟨hkept, hrest⟩ := h
    rw [splitLine] at hsplit
    split at hsplit
    · cases hsplit
    · rename_i hd
      rw [if_neg hd] at hrest
      rw [readLine, if_pos (Nat.lt_of_lt_of_le hkept hle), if_neg hd]
      exact ih hrest (Option.map_eq_none_iff.mp hsplit)

/-- A reader that stops has taken the first line. -/
theorem NeverFills.splitLine_of_stops {typed ended : List α} (h : NeverFills kind limit [] input)
    (hle : limit ≤ limit') (hinput : input = typed ++ ended ++ rest)
    (hstops : Stops kind limit' [] typed ended) :
    ∃ c, ended = [c] ∧ splitLine kind input = some (typed, rest) := by
  cases hsplit : splitLine kind input with
  | none =>
    -- Without an end of a line the reader would still wait.
    have hread := h.readLine_none hle hsplit
    rw [hinput, readLine_of_stops hstops] at hread
    cases hread
  | some p =>
    obtain ⟨line, rest'⟩ := p
    obtain ⟨c, hinput', hstops'⟩ := stops_of_splitLine hsplit fun typed htyped =>
      Nat.lt_of_lt_of_le ((h.of_splitLine hsplit).1 typed htyped) hle
    obtain ⟨rfl, rfl, rfl⟩ := hstops'.unique hstops (hinput'.symm.trans hinput)
    exact ⟨c, rfl, rfl⟩

end KyroKernel.Foundations
