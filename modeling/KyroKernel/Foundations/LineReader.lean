import Mathlib.Tactic.Common
import Mathlib.Data.List.Infix

/-!
# Reading lines with editing

A stream of keys in which some end a line, some erase the last character of the line and some are
characters of it. A reader with a limit returns at the end of the line or as soon as it holds
`limit` characters, and in the second case leaves the rest of the line in the stream. Readers one
after the other take one line each exactly as long as none of them fills up.
-/

namespace KyroKernel.Foundations

universe u

/-- What a key does to the line that is typed. -/
inductive KeyKind where
  | ends
  | erases
  | text
  | ignored
  deriving DecidableEq

variable {α : Type u} (kind : α → KeyKind)

/-- One key in the line. -/
def editKey (line : List α) (c : α) : List α :=
  match kind c with
  | .erases => line.dropLast
  | .text => line ++ [c]
  | .ends | .ignored => line

/-- The line after all editing, from what it holds at first. -/
def editFrom (line typed : List α) : List α := typed.foldl (editKey kind) line

/-- The line after all editing. -/
def edit (typed : List α) : List α := editFrom kind [] typed

/-- The first line of a stream, without the key that ends it, and what follows that key. -/
def splitLine : List α → Option (List α × List α)
  | [] => none
  | c :: input =>
    if kind c = .ends then some ([], input)
    else (splitLine input).map fun r => (c :: r.1, r.2)

/-- The stream from line `n` on. -/
def afterLines : Nat → List α → Option (List α)
  | 0, input => some input
  | n + 1, input => (splitLine kind input).bind fun r => afterLines n r.2

/-- Line `n` of the stream, before editing. -/
def lineAt (n : Nat) (input : List α) : Option (List α) :=
  (afterLines kind n input).bind fun rest => (splitLine kind rest).map Prod.fst

/-- A reader with a limit: what it holds when it returns and what it leaves in the stream; `none`
while it waits for more. -/
def readLine (limit : Nat) : List α → List α → Option (List α × List α)
  | kept, [] => if kept.length < limit then none else some (kept, [])
  | kept, c :: input =>
    if kept.length < limit then
      if kind c = .ends then some (kept, input) else readLine limit (editKey kind kept c) input
    else some (kept, c :: input)

/-- What is left in the stream after readers with these limits. -/
def leftAfter : List Nat → List α → Option (List α)
  | [], input => some input
  | limit :: limits, input =>
    (readLine kind limit [] input).bind fun r => leftAfter limits r.2

/-- At some time while the line is typed it has as many characters as the limit. -/
def Fills (limit : Nat) (line : List α) : Prop :=
  ∃ typed, typed <+: line ∧ limit ≤ (edit kind typed).length

/-- The characters there are when the limit is first reached are the first ones of the line after
all editing. -/
def KeepsFirst (limit : Nat) (line : List α) : Prop :=
  ∀ typed, typed <+: line → limit ≤ (edit kind typed).length →
    (∀ earlier, earlier <+: typed → earlier ≠ typed → (edit kind earlier).length < limit) →
    edit kind typed = (edit kind line).take limit

/-- A reader that holds `kept` takes `typed`, none of which stops it, and then stops: it is full, or
`ended` is the key that ends the line. -/
structure Stops (limit : Nat) (kept typed ended : List α) : Prop where
  no_ends : ∀ c ∈ typed, kind c ≠ .ends
  room : ∀ earlier, earlier <+: typed → earlier ≠ typed →
    (editFrom kind kept earlier).length < limit
  stop : (ended = [] ∧ limit ≤ (editFrom kind kept typed).length) ∨
    ∃ c, ended = [c] ∧ kind c = .ends ∧ (editFrom kind kept typed).length < limit

/-- The number of line ends in a stream. -/
def countEnds (input : List α) : Nat := input.countP fun c => kind c = .ends

variable {kind} {c : α} {kept line input rest left : List α} {limit : Nat} {limits : List Nat}

/-! ## Lines -/

theorem splitLine_ends (h : kind c = .ends) (input : List α) :
    splitLine kind (c :: input) = some ([], input) := if_pos h

theorem splitLine_of_not_ends (h : kind c ≠ .ends)
    (hsplit : splitLine kind (c :: input) = some (line, rest)) :
    ∃ line', line = c :: line' ∧ splitLine kind input = some (line', rest) := by
  rw [splitLine, if_neg h] at hsplit
  obtain ⟨⟨line', rest'⟩, hinner, heq⟩ := Option.map_eq_some_iff.mp hsplit
  obtain ⟨rfl, rfl⟩ := Prod.mk.inj heq
  exact ⟨line', rfl, hinner⟩

/-- A line takes one line end from the stream. -/
theorem countEnds_of_splitLine (h : splitLine kind input = some (line, rest)) :
    countEnds kind input = countEnds kind rest + 1 := by
  induction input generalizing line with
  | nil => cases h
  | cons c input ih =>
    by_cases hc : kind c = .ends
    · -- The line end that is taken.
      rw [splitLine_ends hc] at h
      obtain ⟨-, rfl⟩ := Prod.mk.inj (Option.some.inj h)
      exact List.countP_cons_of_pos (decide_eq_true hc)
    · obtain ⟨line', -, hinner⟩ := splitLine_of_not_ends hc h
      rw [← ih hinner]
      exact List.countP_cons_of_neg (by simpa using hc)

theorem countEnds_of_afterLines {n : Nat} (h : afterLines kind n input = some left) :
    countEnds kind input = countEnds kind left + n := by
  induction n generalizing input with
  | zero =>
    obtain rfl := Option.some.inj h
    rfl
  | succ n ih =>
    obtain ⟨⟨line, rest⟩, hsplit, hrest⟩ := Option.bind_eq_some_iff.mp h
    rw [countEnds_of_splitLine hsplit, ih hrest]
    rfl

/-! ## One reader -/

/-- A key adds at most one character. -/
theorem editKey_length (kind : α → KeyKind) (kept : List α) (c : α) :
    (editKey kind kept c).length ≤ kept.length + 1 := by
  unfold editKey
  cases kind c with
  | erases =>
    simp only [List.length_dropLast]
    omega
  | text => simp
  | ends | ignored => exact Nat.le_succ _

/-- The line does not fill the reader: it takes all of it, the line end too. -/
theorem readLine_of_lt (hsplit : splitLine kind input = some (line, rest))
    (hlt : ∀ typed, typed <+: line → (editFrom kind kept typed).length < limit) :
    readLine kind limit kept input = some (editFrom kind kept line, rest) := by
  -- Over the stream, with what the reader holds after each key.
  induction input generalizing kept line with
  | nil => cases hsplit
  | cons c input ih =>
    have hroom : kept.length < limit := hlt [] List.nil_prefix
    rw [readLine, if_pos hroom]
    by_cases hc : kind c = .ends
    · rw [splitLine_ends hc] at hsplit
      obtain ⟨rfl, rfl⟩ := Prod.mk.inj (Option.some.inj hsplit)
      exact if_pos hc
    · obtain ⟨line', rfl, hinner⟩ := splitLine_of_not_ends hc hsplit
      rw [if_neg hc]
      apply ih hinner
      intro typed htyped
      exact hlt (c :: typed) ((List.prefix_cons_inj c).mpr htyped)

/-- The line fills the reader: it stops inside the line, where the limit is first reached. -/
theorem readLine_of_le (hsplit : splitLine kind input = some (line, rest))
    (hkept : kept.length ≤ limit)
    (hfills : ∃ typed, typed <+: line ∧ limit ≤ (editFrom kind kept typed).length) :
    ∃ typed line', line = typed ++ line' ∧ limit ≤ (editFrom kind kept typed).length ∧
      (∀ earlier, earlier <+: typed → earlier ≠ typed →
        (editFrom kind kept earlier).length < limit) ∧
      ∃ left, readLine kind limit kept input = some (editFrom kind kept typed, left) ∧
        splitLine kind left = some (line', rest) := by
  -- Over the stream again, up to the key that fills the reader.
  induction input generalizing kept line with
  | nil => cases hsplit
  | cons c input ih =>
    by_cases hroom : kept.length < limit
    · rw [readLine, if_pos hroom]
      by_cases hc : kind c = .ends
      · -- An empty line leaves the reader as it is.
        rw [splitLine_ends hc] at hsplit
        obtain ⟨rfl, -⟩ := Prod.mk.inj (Option.some.inj hsplit)
        obtain ⟨typed, htyped, hfull⟩ := hfills
        obtain rfl := List.prefix_nil.mp htyped
        exact absurd hroom (Nat.not_lt.mpr hfull)
      · -- One more key of the line; the limit is reached in what follows.
        obtain ⟨line', rfl, hinner⟩ := splitLine_of_not_ends hc hsplit
        have hkept' : (editKey kind kept c).length ≤ limit :=
          Nat.le_trans (editKey_length kind kept c) hroom
        have hfills' : ∃ typed, typed <+: line' ∧
            limit ≤ (editFrom kind (editKey kind kept c) typed).length := by
          obtain ⟨typed, htyped, hfull⟩ := hfills
          cases typed with
          | nil => exact absurd hroom (Nat.not_lt.mpr hfull)
          | cons d typed =>
            obtain ⟨rfl, htyped'⟩ := List.cons_prefix_cons.mp htyped
            exact ⟨typed, htyped', hfull⟩
        obtain ⟨typed, line'', hline, hfull, hfirst, left, hread, hleft⟩ := ih hinner hkept' hfills'
        rw [if_neg hc]
        refine ⟨c :: typed, line'', by rw [hline, List.cons_append], hfull, ?_, left, hread, hleft⟩
        intro earlier hearlier hne
        cases earlier with
        | nil => exact hroom
        | cons d earlier =>
          obtain ⟨rfl, hearlier'⟩ := List.cons_prefix_cons.mp hearlier
          exact hfirst earlier hearlier' fun heq => hne (by rw [heq])
    · -- The reader is full before the next key.
      refine ⟨[], line, rfl, Nat.not_lt.mp hroom, ?_, c :: input, ?_, hsplit⟩
      · intro earlier hearlier hne
        exact absurd (List.prefix_nil.mp hearlier) hne
      · rw [readLine, if_neg hroom]
        rfl

/-- One more key in front of those that a reader takes. -/
theorem Stops.cons {typed ended : List α} (hc : kind c ≠ .ends) (hroom : kept.length < limit)
    (h : Stops kind limit (editKey kind kept c) typed ended) :
    Stops kind limit kept (c :: typed) ended := by
  refine ⟨List.forall_mem_cons.mpr ⟨hc, h.no_ends⟩, fun earlier hearlier hne => ?_, h.stop⟩
  cases earlier with
  | nil => exact hroom
  | cons d earlier =>
    obtain ⟨rfl, hearlier'⟩ := List.cons_prefix_cons.mp hearlier
    exact h.room earlier hearlier' fun heq => hne (by rw [heq])

/-- What a reader that returns has taken from the stream. -/
theorem exists_stops_of_readLine {result : List α}
    (h : readLine kind limit kept input = some (result, left)) :
    ∃ typed ended, input = typed ++ ended ++ left ∧ result = editFrom kind kept typed ∧
      Stops kind limit kept typed ended := by
  have hnone : ∀ earlier : List α, earlier <+: [] → earlier ≠ [] →
      (editFrom kind kept earlier).length < limit :=
    fun earlier hearlier hne => absurd (List.prefix_nil.mp hearlier) hne
  induction input generalizing kept with
  | nil =>
    rw [readLine] at h
    by_cases hroom : kept.length < limit
    · rw [if_pos hroom] at h
      cases h
    · rw [if_neg hroom] at h
      obtain ⟨rfl, rfl⟩ := Prod.mk.inj (Option.some.inj h)
      exact ⟨[], [], rfl, rfl, by simp, hnone, .inl ⟨rfl, Nat.not_lt.mp hroom⟩⟩
  | cons c input ih =>
    rw [readLine] at h
    by_cases hroom : kept.length < limit
    · rw [if_pos hroom] at h
      by_cases hc : kind c = .ends
      · rw [if_pos hc] at h
        obtain ⟨rfl, rfl⟩ := Prod.mk.inj (Option.some.inj h)
        exact ⟨[], [c], rfl, rfl, by simp, hnone, .inr ⟨c, rfl, hc, hroom⟩⟩
      · rw [if_neg hc] at h
        obtain ⟨typed, ended, rfl, rfl, hstops⟩ := ih h fun earlier hearlier hne =>
          absurd (List.prefix_nil.mp hearlier) hne
        exact ⟨c :: typed, ended, rfl, rfl, hstops.cons hc hroom⟩
    · -- The reader is full already.
      rw [if_neg hroom] at h
      obtain ⟨rfl, rfl⟩ := Prod.mk.inj (Option.some.inj h)
      exact ⟨[], [], rfl, rfl, by simp, hnone, .inl ⟨rfl, Nat.not_lt.mp hroom⟩⟩

/-- A reader returns when it is stopped. -/
theorem readLine_of_stops {typed ended : List α} (h : Stops kind limit kept typed ended)
    (left : List α) :
    readLine kind limit kept (typed ++ ended ++ left) = some (editFrom kind kept typed, left) := by
  induction typed generalizing kept with
  | nil =>
    rcases h.stop with ⟨rfl, hfull⟩ | ⟨c, rfl, hc, hroom⟩
    · have hnot : ¬ kept.length < limit := Nat.not_lt.mpr hfull
      cases left with
      | nil => exact if_neg hnot
      | cons d left => exact if_neg hnot
    · have hlt : kept.length < limit := hroom
      change readLine kind limit kept (c :: left) = _
      rw [readLine, if_pos hlt, if_pos hc]
      rfl
  | cons c typed ih =>
    obtain ⟨hc, hrest⟩ := List.forall_mem_cons.mp h.no_ends
    have hroom : kept.length < limit := h.room [] List.nil_prefix (List.cons_ne_nil c typed).symm
    change readLine kind limit kept (c :: (typed ++ ended ++ left)) = _
    rw [readLine, if_pos hroom, if_neg hc]
    refine ih ⟨hrest, fun earlier hearlier hne => ?_, h.stop⟩
    exact h.room (c :: earlier) ((List.prefix_cons_inj c).mpr hearlier) fun heq =>
      hne (List.cons.inj heq).2

/-- There is one way to divide what a reader takes into a line and its end. -/
theorem Stops.unique {typed ended typed' ended' left' : List α}
    (h : Stops kind limit kept typed ended) (h' : Stops kind limit kept typed' ended')
    (hinput : typed ++ ended ++ left = typed' ++ ended' ++ left') :
    typed = typed' ∧ ended = ended' ∧ left = left' := by
  have hread := readLine_of_stops h left
  rw [hinput, readLine_of_stops h' left'] at hread
  obtain ⟨-, rfl⟩ := Prod.mk.inj (Option.some.inj hread)
  have hkeys := List.append_cancel_right hinput
  -- The line is what comes before the first key that ends one.
  have hline {typed ended : List α} (h : Stops kind limit kept typed ended) :
      (typed ++ ended).takeWhile (fun c => kind c ≠ .ends) = typed := by
    rw [List.takeWhile_append_of_pos fun c hc => decide_eq_true (h.no_ends c hc)]
    rcases h.stop with ⟨rfl, -⟩ | ⟨c, rfl, hc, -⟩
    · exact List.append_nil typed
    · rw [List.takeWhile_cons_of_neg (by simpa using hc), List.append_nil]
  have htyped : typed = typed' := by rw [← hline h, hkeys, hline h']
  subst htyped
  exact ⟨rfl, List.append_cancel_left hkeys, rfl⟩

/-- A reader waits when nothing in the stream has stopped it. -/
theorem room_of_readLine_eq_none (h : readLine kind limit kept input = none) :
    (∀ c ∈ input, kind c ≠ .ends) ∧
      ∀ typed, typed <+: input → (editFrom kind kept typed).length < limit := by
  induction input generalizing kept with
  | nil =>
    rw [readLine] at h
    by_cases hroom : kept.length < limit
    · refine ⟨by simp, fun typed htyped => ?_⟩
      obtain rfl := List.prefix_nil.mp htyped
      exact hroom
    · rw [if_neg hroom] at h
      cases h
  | cons c input ih =>
    rw [readLine] at h
    by_cases hroom : kept.length < limit
    · rw [if_pos hroom] at h
      by_cases hc : kind c = .ends
      · rw [if_pos hc] at h
        cases h
      · rw [if_neg hc] at h
        obtain ⟨hends, hlt⟩ := ih h
        refine ⟨List.forall_mem_cons.mpr ⟨hc, hends⟩, fun typed htyped => ?_⟩
        cases typed with
        | nil => exact hroom
        | cons d typed =>
          obtain ⟨rfl, htyped'⟩ := List.cons_prefix_cons.mp htyped
          exact hlt typed htyped'
    · rw [if_neg hroom] at h
      cases h

/-- A reader takes at most one line end. -/
theorem countEnds_of_readLine {result : List α}
    (h : readLine kind limit kept input = some (result, left)) :
    countEnds kind input ≤ countEnds kind left + 1 := by
  induction input generalizing kept with
  | nil => exact Nat.zero_le _
  | cons c input ih =>
    rw [readLine] at h
    split at h
    · by_cases hc : kind c = .ends
      · rw [if_pos hc] at h
        obtain ⟨-, rfl⟩ := Prod.mk.inj (Option.some.inj h)
        exact Nat.le_of_eq (List.countP_cons_of_pos (decide_eq_true hc))
      · rw [if_neg hc] at h
        refine Nat.le_trans (Nat.le_of_eq ?_) (ih h)
        exact List.countP_cons_of_neg (by simpa using hc)
    · obtain ⟨-, rfl⟩ := Prod.mk.inj (Option.some.inj h)
      exact Nat.le_succ _

/-! ## Readers one after the other -/

theorem countEnds_of_leftAfter (h : leftAfter kind limits input = some left) :
    countEnds kind input ≤ countEnds kind left + limits.length := by
  induction limits generalizing input with
  | nil =>
    obtain rfl := Option.some.inj h
    exact Nat.le_refl _
  | cons limit limits ih =>
    obtain ⟨⟨result, rest⟩, hread, hrest⟩ := Option.bind_eq_some_iff.mp h
    have hfirst := countEnds_of_readLine hread
    have hothers : countEnds kind rest ≤ countEnds kind left + limits.length := ih hrest
    rw [List.length_cons]
    omega

/-- The reader that does not fill takes the line. -/
theorem readLine_of_not_fills (hsplit : splitLine kind input = some (line, rest))
    (hfills : ¬ Fills kind limit line) :
    readLine kind limit [] input = some (edit kind line, rest) := by
  apply readLine_of_lt hsplit
  intro typed htyped
  exact Nat.lt_of_not_le fun hle => hfills ⟨typed, htyped, hle⟩

/-- Readers are at the start of a line exactly when none before them filled up. -/
theorem leftAfter_eq_iff (h : afterLines kind limits.length input = some left) :
    leftAfter kind limits input = some left ↔
      ∀ j limit line, limits[j]? = some limit → lineAt kind j input = some line →
        ¬ Fills kind limit line := by
  induction limits generalizing input with
  | nil =>
    obtain rfl := Option.some.inj h
    constructor
    · intro _ j limit line hlimit
      cases hlimit
    · exact fun _ => rfl
  | cons limit limits ih =>
    obtain ⟨⟨line, rest⟩, hsplit, hafter⟩ := Option.bind_eq_some_iff.mp h
    have hlater : ∀ j, lineAt kind (j + 1) input = lineAt kind j rest := by
      intro j
      rw [lineAt, afterLines, hsplit]
      rfl
    have hzero : lineAt kind 0 input = some line := by
      rw [lineAt, afterLines, Option.bind_some, hsplit]
      rfl
    by_cases hfills : Fills kind limit line
    · -- A line end is left over, and every later reader takes at most one.
      constructor
      · intro hleft
        obtain ⟨typed, line', -, -, -, left', hread, hsplit'⟩ :=
          readLine_of_le hsplit (Nat.zero_le limit) hfills
        rw [leftAfter, hread] at hleft
        have hothers := countEnds_of_leftAfter hleft
        have hline := countEnds_of_splitLine hsplit'
        have hlines := countEnds_of_afterLines hafter
        simp only at hothers hline hlines
        omega
      · intro hall
        exact absurd hfills (hall 0 limit line rfl hzero)
    · -- The first reader takes its line; the others are at the next one.
      rw [leftAfter, readLine_of_not_fills hsplit hfills, Option.bind_some, ih hafter]
      constructor
      · intro hall j limit' line' hlimit hline
        cases j with
        | zero =>
          obtain rfl := Option.some.inj hlimit
          obtain rfl := Option.some.inj (hzero.symm.trans hline)
          exact hfills
        | succ j => exact hall j limit' line' hlimit (hlater j ▸ hline)
      · intro hall j limit' line' hlimit hline
        exact hall (j + 1) limit' line' hlimit ((hlater j).trans hline)

/-- At the start of a line, the reader holds the first characters of the edited line exactly when
it does not fill up, or fills up with them. -/
theorem readLine_eq_take_iff (hsplit : splitLine kind input = some (line, rest)) :
    (∃ left, readLine kind limit [] input = some ((edit kind line).take limit, left)) ↔
      KeepsFirst kind limit line := by
  by_cases hfills : Fills kind limit line
  · obtain ⟨typed, line', hline, hfull, hfirst, left, hread, -⟩ :=
      readLine_of_le hsplit (Nat.zero_le limit) hfills
    rw [hread]
    constructor
    · rintro ⟨left', heq⟩ typed' htyped' hfull' hfirst'
      -- There is only one point at which the limit is first reached.
      have hsame : typed' = typed := by
        have htyped : typed <+: line := ⟨line', hline.symm⟩
        rcases List.prefix_or_prefix_of_prefix htyped' htyped with hle | hle
        · by_contra hne
          exact absurd hfull' (Nat.not_le.mpr (hfirst typed' hle hne))
        · by_contra hne
          exact absurd hfull (Nat.not_le.mpr (hfirst' typed hle (Ne.symm hne)))
      rw [hsame]
      exact (Prod.mk.inj (Option.some.inj heq)).1
    · intro hkeeps
      have := hkeeps typed ⟨line', hline.symm⟩ hfull hfirst
      exact ⟨left, by rw [← this]; rfl⟩
  · -- All of the edited line is held, and it fits.
    have hshort : (edit kind line).length ≤ limit :=
      Nat.le_of_not_le fun hle => hfills ⟨line, List.prefix_rfl, hle⟩
    rw [readLine_of_not_fills hsplit hfills, List.take_of_length_le hshort]
    constructor
    · intro _ typed htyped hfull
      exact absurd ⟨typed, htyped, hfull⟩ hfills
    · exact fun _ => ⟨rest, rfl⟩

end KyroKernel.Foundations
