import Mathlib.Data.List.Basic
import Mathlib.Tactic.Common

/-!
# Records on lines

A list of records as a text with one record on a line, which may show only a view of it. The text
reads back exactly when the view of every record does from its own line, and no line has the end of a
line in it.
-/

namespace KyroKernel.Foundations

universe u v w

variable {α : Type u} {β : Type v} {γ : Type w}

/-- Lines, each with its end. -/
def joinLines (sep : α) (lines : List (List α)) : List α := lines.flatMap (· ++ [sep])

/-- The lines of a text, `none` if its last line has no end. -/
def splitLines [DecidableEq α] (sep : α) (text : List α) : Option (List (List α)) :=
  if (text.splitOn sep).getLast? = some [] then some (text.splitOn sep).dropLast else none

/-- The records of a text. -/
def readLines [DecidableEq α] (sep : α) (decode : List α → Option β) (text : List α) :
    Option (List β) :=
  (splitLines sep text).bind fun lines => lines.mapM decode

/-! ## Records -/

/-- Records are decoded one by one. -/
theorem mapM_map_eq_some_iff {encode : β → List α} {decode : List α → Option γ} {view : β → γ}
    {xs : List β} :
    (xs.map encode).mapM decode = some (xs.map view) ↔
      ∀ x ∈ xs, decode (encode x) = some (view x) := by
  induction xs with
  | nil => simp
  | cons x xs ih =>
    rw [List.map_cons, List.map_cons, List.mapM_cons, List.forall_mem_cons, ← ih]
    simp only [Option.bind_eq_bind, Option.pure_def, Option.bind_eq_some_iff, Option.some.injEq,
      List.cons.injEq]
    constructor
    · rintro ⟨y, hy, ys, hys, rfl, rfl⟩
      exact ⟨hy, hys⟩
    · rintro ⟨hx, hxs⟩
      exact ⟨_, hx, _, hxs, rfl, rfl⟩

theorem length_of_mapM {decode : List α → Option β} {lines : List (List α)} {xs : List β}
    (h : lines.mapM decode = some xs) : xs.length = lines.length := by
  induction lines generalizing xs with
  | nil =>
    obtain rfl : [] = xs := by simpa using h
    rfl
  | cons line lines ih =>
    rw [List.mapM_cons] at h
    simp only [Option.bind_eq_bind, Option.pure_def, Option.bind_eq_some_iff,
      Option.some.injEq] at h
    obtain ⟨x, -, xs', hxs', rfl⟩ := h
    rw [List.length_cons, List.length_cons, ih hxs']

/-! ## Lines -/

variable [DecidableEq α] {sep : α} {lines : List (List α)}

/-- A text has one line more than line ends. -/
theorem length_splitOn (sep : α) (text : List α) :
    (text.splitOn sep).length = text.count sep + 1 := by
  induction text with
  | nil => rfl
  | cons c text ih =>
    rw [List.splitOn_cons_eq_if_modifyHead, List.count_cons]
    split
    · rw [List.length_cons, ih]
    · rw [List.length_modifyHead, ih]

theorem length_splitLines {text : List α} (h : splitLines sep text = some lines) :
    lines.length = text.count sep := by
  unfold splitLines at h
  split at h
  · obtain rfl := Option.some.inj h
    rw [List.length_dropLast, length_splitOn, Nat.add_sub_cancel]
  · cases h

theorem splitOn_joinLines (hlines : ∀ line ∈ lines, sep ∉ line) :
    (joinLines sep lines).splitOn sep = lines ++ [[]] := by
  induction lines with
  | nil => rfl
  | cons line lines ih =>
    obtain ⟨hline, hrest⟩ := List.forall_mem_cons.mp hlines
    have hsplit : joinLines sep (line :: lines) = line ++ sep :: joinLines sep lines := by
      rw [joinLines, List.flatMap_cons, List.append_assoc]
      rfl
    rw [hsplit, List.splitOn_append_cons_self_of_not_mem hline, ih hrest]
    rfl

theorem splitLines_joinLines (hlines : ∀ line ∈ lines, sep ∉ line) :
    splitLines sep (joinLines sep lines) = some lines := by
  rw [splitLines, splitOn_joinLines hlines, List.getLast?_concat, if_pos rfl,
    List.dropLast_concat]

/-- Every line has its end, and those that are in it. -/
theorem count_joinLines (sep : α) (lines : List (List α)) :
    (joinLines sep lines).count sep = lines.length + lines.flatten.count sep := by
  induction lines with
  | nil => rfl
  | cons line lines ih =>
    rw [joinLines, List.flatMap_cons, List.count_append, List.count_append, ← joinLines, ih,
      List.count_singleton_self, List.length_cons, List.flatten_cons, List.count_append]
    omega

/-- The records read back exactly when each does from its line, and no line has an end in it. -/
theorem readLines_joinLines_iff {encode : β → List α} {decode : List α → Option γ} {view : β → γ}
    {xs : List β} :
    readLines sep decode (joinLines sep (xs.map encode)) = some (xs.map view) ↔
      ∀ x ∈ xs, sep ∉ encode x ∧ decode (encode x) = some (view x) := by
  constructor
  · intro h
    obtain ⟨lines, hsplit, hdecode⟩ := Option.bind_eq_some_iff.mp h
    have hcount := length_splitLines hsplit
    rw [count_joinLines, ← length_of_mapM hdecode, List.length_map, List.length_map] at hcount
    have hzero : (xs.map encode).flatten.count sep = 0 := by omega
    have hnone : ∀ line ∈ xs.map encode, sep ∉ line := fun line hline hmem =>
      List.count_eq_zero.mp hzero (List.mem_flatten.mpr ⟨line, hline, hmem⟩)
    rw [splitLines_joinLines hnone] at hsplit
    obtain rfl := Option.some.inj hsplit
    exact fun x hx => ⟨hnone _ (List.mem_map_of_mem hx), mapM_map_eq_some_iff.mp hdecode x hx⟩
  · intro h
    have hnone : ∀ line ∈ xs.map encode, sep ∉ line := fun line hline => by
      obtain ⟨x, hx, rfl⟩ := List.mem_map.mp hline
      exact (h x hx).1
    rw [readLines, splitLines_joinLines hnone, Option.bind_some]
    exact mapM_map_eq_some_iff.mpr fun x hx => (h x hx).2

end KyroKernel.Foundations
