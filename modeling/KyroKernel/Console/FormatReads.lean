import KyroKernel.Console.Formatters

/-!
# What the formatters read

The loops of `printf` and `vsprintf` again, on the memory that `format` points into. A `%` moves
the pointer on before the `switch`, and the loop moves it on after it: when the `%` is the last
character, over the NUL.
-/

namespace KyroKernel

open Foundations

universe u

variable {S : Type u}

/-! ## Section 1: The loops on memory -/

/-- What the loop of a formatter does with a character, and with the one after a `%`. -/
structure FormatInterpreter (S : Type u) where
  put : S → Byte → S
  conversion : S → Byte → Option S

/-- The loop, from the offset `i` of `format` on: the offsets that it reads, and the state in which
it ends. It ends in none when the fuel is used up, or where `conversion` fails. -/
def FormatInterpreter.run (I : FormatInterpreter S) (format : Nat → Byte) :
    Nat → Nat → S → List Nat × Option S
  | 0, _, _ => ([], none)
  | fuel + 1, i, s =>
    if format i = 0 then ([i], some s)
    else if format i = ascii '%' then
      -- `format++` and the `switch`, which may read a NUL.
      match I.conversion s (format (i + 1)) with
      | some s =>
        let (reads, r) := I.run format fuel (i + 2) s
        (i :: (i + 1) :: reads, r)
      | none => ([i, i + 1], none)
    else
      let (reads, r) := I.run format fuel (i + 1) (I.put s (format i))
      (i :: reads, r)

def printfInterpreter : FormatInterpreter PrintState where
  put s c := (s.putchar c).add 1
  conversion := printfConversion

def vsprintfInterpreter : FormatInterpreter SprintState where
  put s c := (s.store c).add 1
  conversion := vsprintfConversion

/-- `printf` with the format at offset 0 of the memory. -/
def printfRun (format : Nat → Byte) (args : List VaArg) (fuel : Nat) :
    List Nat × Option PrintState :=
  printfInterpreter.run format fuel 0 ⟨[], args, 0⟩

/-- `vsprintf` with the format at offset 0 of the memory. -/
def vsprintfRun (format : Nat → Byte) (str : Nat → Byte) (args : List VaArg) (fuel : Nat) :
    List Nat × Option SprintState :=
  let (reads, r) := vsprintfInterpreter.run format fuel 0 ⟨str, 0, args, 0⟩
  (reads, r.map fun s => { s with str := Function.update s.str s.buffer 0 })

/-! ## Section 2: Formats in memory -/

/-- The characters from offset `i` on, and a NUL after them. -/
def HoldsString (m : Nat → Byte) : Nat → List Byte → Prop
  | i, [] => m i = 0
  | i, c :: format => m i = c ∧ HoldsString m (i + 1) format

/-- The last character is a `%`, and no `%` before takes it as its conversion. -/
def endsInPercent : List Byte → Bool
  | [] => false
  | c :: format =>
    if c = ascii '%' then
      match format with
      | [] => true
      | _ :: format => endsInPercent format
    else endsInPercent format

/-- The arguments match the conversions; a `%` at the end is none. -/
def MatchingArgs (format : List Byte) (args : List VaArg) : Prop :=
  FormatArgs format args ∨ ∃ start, format = start ++ [ascii '%'] ∧ FormatArgs start args

/-- Wherever the format is followed by other bytes, both formatters return, read nothing after its
NUL, and print or store one text that the format and the arguments determine. -/
def InterpretsFormat (format : CString) (args : List VaArg) : Prop :=
  ∃ text : List Byte, ∀ m, HoldsString m 0 format.toList →
    (∃ fuel reads p, printfRun m args fuel = (reads, some p) ∧
      (∀ j ∈ reads, j ≤ format.toList.length) ∧ p.out = text) ∧
    ∀ str, ∃ fuel reads v, vsprintfRun m str args fuel = (reads, some v) ∧
      (∀ j ∈ reads, j ≤ format.toList.length) ∧
      (∀ i, (h : i < text.length) → v.str i = text[i]) ∧ v.str text.length = 0

/-! ## Section 3: Reads up to the NUL -/

variable {I : FormatInterpreter S} {s s' : S} {m : Nat → Byte} {format : List Byte}
  {args : List VaArg} {reads : List Nat} {i fuel : Nat}

/-- The loop over a format in which every `%` has its conversion, without fuel. -/
inductive FormatInterpreter.Formats (I : FormatInterpreter S) : List Byte → S → S → Prop where
  | nil (s : S) : Formats I [] s s
  | char {c : Byte} {format : List Byte} {s s' : S} (hc : c ≠ ascii '%')
      (h : Formats I format (I.put s c) s') : Formats I (c :: format) s s'
  | conversion {c : Byte} {format : List Byte} {s s₁ s' : S} (hs : I.conversion s c = some s₁)
      (h : Formats I format s₁ s') : Formats I (ascii '%' :: c :: format) s s'

/-- A loop over the list of the characters that has these equations. -/
theorem formats_of_loop {loop : List Byte → S → Option S} (hnil : ∀ s, loop [] s = some s)
    (hchar : ∀ {c}, c ≠ ascii '%' → ∀ format s, loop (c :: format) s = loop format (I.put s c))
    (hpercent : ∀ c format s,
      loop (ascii '%' :: c :: format) s = (I.conversion s c).bind (loop format))
    (hformat : FormatArgs format args) (h : loop format s = some s') : I.Formats format s s' := by
  induction hformat generalizing s with
  | nil _ =>
    rw [hnil] at h
    obtain rfl := Option.some.inj h
    exact .nil s
  | char hc _ ih =>
    rw [hchar hc] at h
    exact .char hc (ih h)
  | conversion _ _ ih =>
    rw [hpercent] at h
    obtain ⟨s₁, hs₁, hrest⟩ := Option.bind_eq_some_iff.mp h
    exact .conversion hs₁ (ih hrest)

/-- With enough fuel the loop on memory ends in the same state, and has read the format and its
NUL. -/
theorem run_of_formats (h : I.Formats format s s') (hm : HoldsString m i format)
    (hnul : (0 : Byte) ∉ format) :
    ∃ fuel reads, I.run m fuel i s = (reads, some s') ∧ ∀ j ∈ reads, j ≤ i + format.length := by
  induction h generalizing i with
  | nil s =>
    refine ⟨1, [i], if_pos hm, fun j hj => ?_⟩
    obtain rfl := List.mem_singleton.mp hj
    exact Nat.le_refl _
  | @char c format s s' hc h ih =>
    obtain ⟨hmi, hrest⟩ := hm
    obtain ⟨hne, hnul'⟩ := List.ne_and_not_mem_of_not_mem_cons hnul
    obtain ⟨fuel, reads, hrun, hreads⟩ := ih hrest hnul'
    have h0 : ¬ m i = 0 := fun h0 => hne (h0.symm.trans hmi)
    have hchar : ¬ m i = ascii '%' := fun hp => hc (hmi.symm.trans hp)
    refine ⟨fuel + 1, i :: reads, ?_, ?_⟩
    · rw [FormatInterpreter.run, if_neg h0, if_neg hchar, hmi, hrun]
    · simp only [List.length_cons]
      refine List.forall_mem_cons.mpr ⟨Nat.le_add_right _ _, fun j hj => ?_⟩
      have hj' := hreads j hj
      omega
  | @conversion c format s s₁ s' hs h ih =>
    obtain ⟨hmi, hmi', hrest⟩ := hm
    have hnul₁ := List.not_mem_of_not_mem_cons hnul
    have hnul₂ := List.not_mem_of_not_mem_cons hnul₁
    obtain ⟨fuel, reads, hrun, hreads⟩ := ih hrest hnul₂
    have h0 : ¬ m i = 0 := by
      rw [hmi]
      decide
    refine ⟨fuel + 1, i :: (i + 1) :: reads, ?_, ?_⟩
    · rw [FormatInterpreter.run, if_neg h0, if_pos hmi, hmi', hs]
      simp only
      rw [hrun]
    · simp only [List.length_cons]
      refine List.forall_mem_cons.mpr ⟨Nat.le_add_right _ _,
        List.forall_mem_cons.mpr ⟨by omega, fun j hj => ?_⟩⟩
      have hj' := hreads j hj
      omega

/-! ## Section 4: Reads after the NUL -/

/-- A loop that returns has read where it started. -/
theorem mem_reads_of_run (h : I.run m fuel i s = (reads, some s')) : i ∈ reads := by
  cases fuel with
  | zero => cases h
  | succ fuel =>
    rw [FormatInterpreter.run] at h
    split at h
    · obtain rfl := (Prod.mk.inj h).1
      exact List.mem_cons_self
    · split at h
      · split at h
        · obtain rfl := (Prod.mk.inj h).1
          exact List.mem_cons_self
        · cases (Prod.mk.inj h).2
      · obtain rfl := (Prod.mk.inj h).1
        exact List.mem_cons_self

/-- A round with a `%`, of a loop that returns. -/
theorem run_percent (hm : m i = ascii '%') (h : I.run m fuel i s = (reads, some s')) :
    ∃ fuel' s₁ reads', I.run m fuel' (i + 2) s₁ = (reads', some s') ∧
      reads = i :: (i + 1) :: reads' := by
  have h0 : ¬ m i = 0 := by
    rw [hm]
    decide
  cases fuel with
  | zero => cases h
  | succ fuel =>
    rw [FormatInterpreter.run, if_neg h0, if_pos hm] at h
    split at h
    · next s₁ _ =>
      obtain ⟨rfl, hr⟩ := Prod.mk.inj h
      exact ⟨fuel, s₁, _, Prod.ext rfl hr, rfl⟩
    · cases (Prod.mk.inj h).2

/-- A round with another character. -/
theorem run_char (h0 : m i ≠ 0) (hm : m i ≠ ascii '%')
    (h : I.run m fuel i s = (reads, some s')) :
    ∃ fuel' reads', I.run m fuel' (i + 1) (I.put s (m i)) = (reads', some s') ∧
      reads = i :: reads' := by
  cases fuel with
  | zero => cases h
  | succ fuel =>
    rw [FormatInterpreter.run, if_neg h0, if_neg hm] at h
    obtain ⟨rfl, hr⟩ := Prod.mk.inj h
    exact ⟨fuel, _, Prod.ext rfl hr, rfl⟩

/-- A `%` at the end takes the NUL as its conversion, and the loop goes on after it. -/
theorem mem_reads_of_percent (hformat : FormatArgs format args)
    (hm : HoldsString m i (format ++ [ascii '%'])) (hnul : (0 : Byte) ∉ format)
    (h : I.run m fuel i s = (reads, some s')) : i + format.length + 2 ∈ reads := by
  induction hformat generalizing i fuel s reads with
  | nil _ =>
    obtain ⟨fuel', s₁, reads', hrun, rfl⟩ := run_percent hm.1 h
    exact List.mem_cons_of_mem _ (List.mem_cons_of_mem _ (mem_reads_of_run hrun))
  | @char c format args hc _ ih =>
    obtain ⟨hmi, hrest⟩ := hm
    obtain ⟨hne, hnul'⟩ := List.ne_and_not_mem_of_not_mem_cons hnul
    obtain ⟨fuel', reads', hrun, rfl⟩ := run_char (fun h0 => hne (h0.symm.trans hmi))
      (fun hp => hc (hmi.symm.trans hp)) h
    have hmem := ih hrest hnul' hrun
    have hend : i + (c :: format).length = i + 1 + format.length := by
      simp only [List.length_cons]
      omega
    rw [hend]
    exact List.mem_cons_of_mem _ hmem
  | @conversion c format args args' _ _ ih =>
    obtain ⟨hmi, -, hrest⟩ := hm
    have hnul₁ := List.not_mem_of_not_mem_cons hnul
    have hnul₂ := List.not_mem_of_not_mem_cons hnul₁
    obtain ⟨fuel', s₁, reads', hrun, rfl⟩ := run_percent hmi h
    have hmem := ih hrest hnul₂ hrun
    have hend : i + (ascii '%' :: c :: format).length = i + 2 + format.length := by
      simp only [List.length_cons]
      omega
    rw [hend]
    exact List.mem_cons_of_mem _ (List.mem_cons_of_mem _ hmem)

/-! ## Section 5: Formats that end in `%` -/

theorem endsInPercent_eq_false (h : FormatArgs format args) : endsInPercent format = false := by
  induction h with
  | nil _ => rfl
  | char hc _ ih =>
    rw [endsInPercent.eq_def]
    simp only [if_neg hc, ih]
  | conversion _ _ ih =>
    rw [endsInPercent.eq_def]
    simp only [if_pos, ih]

theorem endsInPercent_append (h : FormatArgs format args) :
    endsInPercent (format ++ [ascii '%']) = true := by
  induction h with
  | nil _ => rfl
  | char hc _ ih =>
    rw [List.cons_append, endsInPercent.eq_def]
    simp only [if_neg hc, ih]
  | conversion _ _ ih =>
    rw [List.cons_append, List.cons_append, endsInPercent.eq_def]
    simp only [if_pos, ih]

theorem holdsString_of_getD (h : ∀ k, m (i + k) = format.getD k 0) : HoldsString m i format := by
  induction format generalizing i with
  | nil => exact h 0
  | cons c format ih =>
    refine ⟨h 0, ih fun k => ?_⟩
    have hk := h (k + 1)
    rw [← Nat.add_assoc, Nat.add_right_comm] at hk
    exact hk

/-! ## Section 6: The formatters -/

/-- Where every `%` has its conversion. -/
theorem interpretsFormat_of_formatArgs {format : CString} (h : FormatArgs format.toList args) :
    InterpretsFormat format args := by
  -- The text is what the loops over the list print and store.
  obtain ⟨p, -, hp, -⟩ := loops_agree h fun _ => 0
  refine ⟨p.out, fun m hm => ⟨?_, fun str => ?_⟩⟩
  · have hformats := formats_of_loop (I := printfInterpreter) (fun _ => rfl)
      (fun hc => printfLoop_char hc) printfLoop_percent h hp
    obtain ⟨fuel, reads, hrun, hreads⟩ := run_of_formats hformats hm format.nul_free
    rw [Nat.zero_add] at hreads
    exact ⟨fuel, reads, p, hrun, hreads, rfl⟩
  · obtain ⟨p', v, hp', hv, hagree⟩ := loops_agree h str
    obtain rfl : p = p' := Option.some.inj (hp.symm.trans hp')
    have hformats := formats_of_loop (I := vsprintfInterpreter) (fun _ => rfl)
      (fun hc => vsprintfLoop_char hc) vsprintfLoop_percent h hv
    obtain ⟨fuel, reads, hrun, hreads⟩ := run_of_formats hformats hm format.nul_free
    rw [Nat.zero_add] at hreads
    obtain ⟨hstored, hend⟩ := hagree.terminated
    rw [hagree.buffer] at hend
    refine ⟨fuel, reads, { v with str := Function.update v.str v.buffer 0 }, ?_, hreads, hstored,
      ?_⟩
    · rw [vsprintfRun, hrun]
      rfl
    · simp only
      rw [hagree.buffer]
      exact hend

/-- A `%` at the end: `printf` reads on after the NUL. -/
theorem not_interpretsFormat {format : CString} {start : List Byte}
    (hformat : format.toList = start ++ [ascii '%']) (h : FormatArgs start args) :
    ¬ InterpretsFormat format args := by
  rintro ⟨text, htext⟩
  obtain ⟨m, hm⟩ : ∃ m, HoldsString m 0 format.toList :=
    ⟨fun j => format.toList.getD j 0, holdsString_of_getD fun k => by rw [Nat.zero_add]⟩
  obtain ⟨⟨fuel, reads, p, hrun, hreads, -⟩, -⟩ := htext m hm
  have hnul : (0 : Byte) ∉ start := by
    intro hmem
    apply format.nul_free
    rw [hformat]
    exact List.mem_append_left _ hmem
  rw [hformat] at hm
  have hpast := hreads _ (mem_reads_of_percent h hm hnul hrun)
  rw [hformat, List.length_append, List.length_singleton] at hpast
  omega

/-- Both formatters read up to the NUL, and make one text of the format and its arguments, exactly
when the format does not end in a `%` that stands alone. -/
theorem interpretsFormat_iff {format : CString} (hargs : MatchingArgs format.toList args) :
    InterpretsFormat format args ↔ endsInPercent format.toList = false := by
  rcases hargs with h | ⟨start, hformat, h⟩
  · exact iff_of_true (interpretsFormat_of_formatArgs h) (endsInPercent_eq_false h)
  · refine iff_of_false (not_interpretsFormat hformat h) ?_
    rw [hformat, endsInPercent_append h]
    exact Bool.noConfusion

/-- `%d` with a number. -/
theorem interpretsFormat_iff_number :
    InterpretsFormat ⟨chars "%d", by decide⟩ [.word 0x80000000] :=
  (interpretsFormat_iff
    (.inl (.conversion (c := ascii 'd') ⟨0x80000000, rfl⟩ (.nil [])))).mpr (by decide)

/-- The format `%` needs no arguments, and the formatters do not stop at its NUL. -/
theorem not_forall_interpretsFormat :
    ¬ ∀ (format : CString) (args : List VaArg), MatchingArgs format.toList args →
      InterpretsFormat format args := by
  intro hall
  have hformat : FormatArgs [] [] := .nil []
  have hopen : ¬ InterpretsFormat ⟨chars "%", by decide⟩ [] :=
    not_interpretsFormat (by rfl) hformat
  exact hopen (hall _ _ (.inr ⟨[], rfl, hformat⟩))

/-- With `abc` in memory after the NUL of `%`, `printf` puts that on the screen too. -/
example :
    (printfRun (fun j => (chars "%" ++ 0 :: chars "abc").getD j 0) [] 8).2.map PrintState.out =
      some (chars "%" ++ 0 :: chars "abc") := by decide

end KyroKernel
