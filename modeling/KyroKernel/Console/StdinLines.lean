import KyroKernel.Foundations.Loop
import KyroKernel.Foundations.Memory
import KyroKernel.Foundations.RingBuffer
import Mathlib.Data.Nat.Find

/-!
# Lines from the standard input

`stdio_init`, `getchar_stdio` and `gets` of `lib/stdio/stdio.c`. At the end of the buffer
`getchar_stdio` starts again with its first byte; it never returns `EOF` because there is no more
input, although `gets` waits for that. `EOF` is what a byte `0xFF` is taken for.
-/

namespace KyroKernel

open Foundations

/-- `BUFFER_SIZE`. -/
def stdioBufferSize : Int := 1024

/-- `stdin_buffer`, `stdout_buffer` and `stderr_buffer`. -/
inductive StreamBuffer where
  | stdin
  | stdout
  | stderr
  deriving DecidableEq

/-- `FILE`; a `none` buffer is NULL. -/
structure Stream where
  fd : Int
  buffer : Option StreamBuffer := none
  bufferSize : Int := 0
  bufferIndex : Int := 0

/-- The three streams and the bytes of their buffers, of which there are `BUFFER_SIZE` each. -/
structure Stdio where
  stdinFile : Stream := { fd := 0 }
  stdoutFile : Stream := { fd := 1 }
  stderrFile : Stream := { fd := 2 }
  buffers : StreamBuffer → Int → Byte := fun _ _ => 0

/-- `stdio_init`. -/
def stdioInit (io : Stdio) : Stdio :=
  { io with
    stdinFile :=
      { io.stdinFile with buffer := some .stdin, bufferSize := stdioBufferSize, bufferIndex := 0 }
    stdoutFile :=
      { io.stdoutFile with buffer := some .stdout, bufferSize := stdioBufferSize, bufferIndex := 0 }
    stderrFile :=
      { io.stderrFile with
        buffer := some .stderr, bufferSize := stdioBufferSize, bufferIndex := 0 } }

/-- `stdin_file.buffer_index = i`. -/
def Stdio.setIndex (io : Stdio) (i : Int) : Stdio :=
  { io with stdinFile := { io.stdinFile with bufferIndex := i } }

/-- `stdin_file.buffer[i]`, `none` outside of the array. -/
def Stdio.stdinByte (io : Stdio) (i : Int) : Option Byte :=
  match io.stdinFile.buffer with
  | none => none
  | some b => if 0 ≤ i ∧ i < stdioBufferSize then some (io.buffers b i) else none

/-- `getchar_stdio`: the `char` as an int, and the streams after it. -/
def getcharStdio (io : Stdio) : Option (Int × Stdio) := do
  let io := if io.stdinFile.bufferIndex ≥ io.stdinFile.bufferSize then io.setIndex 0 else io
  let c ← io.stdinByte io.stdinFile.bufferIndex
  return (c.toInt, io.setIndex (io.stdinFile.bufferIndex + 1))

/-- The loop of `gets`: the streams, what `str` points to and `len` after it; `none` when the fuel
runs out or a load fails. -/
def getsLoop : Nat → Stdio → (Nat → Byte) → Nat → Option (Stdio × (Nat → Byte) × Nat)
  | 0, _, _, _ => none
  | fuel + 1, io, str, len => do
    let (c, io) ← getcharStdio io
    if c = 10 ∨ c = -1 then return (io, str, len)
    getsLoop fuel io (Function.update str len (BitVec.ofInt 8 c)) (len + 1)

/-- `gets`. -/
def gets (fuel : Nat) (io : Stdio) (str : Nat → Byte) : Option (Stdio × (Nat → Byte)) := do
  let (io, str, len) ← getsLoop fuel io str 0
  return (io, Function.update str len 0)

/-! ## What `gets` should do -/

/-- The bytes that end a line: a newline and the one that is `EOF` as an int. -/
def EndsLine (c : Byte) : Prop := c = 10 ∨ c = 0xFF

instance (c : Byte) : Decidable (EndsLine c) := inferInstanceAs (Decidable (c = 10 ∨ c = 0xFF))

/-- `text` is in the ring from `i` on, up to the next byte that ends a line. -/
structure PendingLine (buffer : Int → Byte) (i : Int) (text : List Byte) : Prop where
  chars : RingHolds stdioBufferSize buffer i text
  none_ends : ∀ c ∈ text, ¬ EndsLine c
  ends : EndsLine (buffer ((i + text.length) % stdioBufferSize))

/-- `str` has been overwritten by the line and a NUL. -/
structure HoldsLine (str str' : Nat → Byte) (text : List Byte) : Prop where
  chars : ∀ i, (h : i < text.length) → str' i = text[i]
  nul : str' text.length = 0
  kept : ∀ i > text.length, str' i = str i

/-- After `stdio_init`, with `buffer_index` at `i`. -/
def stdinAt (io : Stdio) (i : Int) : Stdio := (stdioInit io).setIndex i

/-- `gets` ends, with the pending line in `str` and `buffer_index` behind the byte that ended it. -/
structure GetsLine (io : Stdio) (i : Int) (str : Nat → Byte) : Prop where
  returns : ∃ fuel r, gets fuel (stdinAt io i) str = some r
  stores : ∀ text, PendingLine (io.buffers .stdin) i text →
    ∃ str', (∀ fuel > text.length, gets fuel (stdinAt io i) str =
        some (stdinAt io ((i + text.length) % stdioBufferSize + 1), str')) ∧
      HoldsLine str str' text

variable {io : Stdio} {i : Int} {str : Nat → Byte} {text : List Byte} {c : Byte} {fuel len : Nat}

/-! ## One character -/

theorem endsLine_iff (c : Byte) : EndsLine c ↔ c.toInt = 10 ∨ c.toInt = -1 := by
  revert c
  decide

theorem stdinByte_eq (h0 : 0 ≤ i) (hi : i < stdioBufferSize) (j : Int) :
    (stdinAt io j).stdinByte i = some (io.buffers .stdin i) := if_pos ⟨h0, hi⟩

/-- The next byte of the ring, from every index that `getchar_stdio` can leave. -/
theorem getcharStdio_eq (h0 : 0 ≤ i) (hi : i ≤ stdioBufferSize) :
    getcharStdio (stdinAt io i) =
      some ((io.buffers .stdin (i % stdioBufferSize)).toInt,
        stdinAt io (i % stdioBufferSize + 1)) := by
  have hwrap : (if (stdinAt io i).stdinFile.bufferIndex ≥ (stdinAt io i).stdinFile.bufferSize then
      (stdinAt io i).setIndex 0 else stdinAt io i) = stdinAt io (i % stdioBufferSize) := by
    by_cases hend : i = stdioBufferSize
    · rw [hend, Int.emod_self]
      exact if_pos (Int.le_refl _)
    · rw [Int.emod_eq_of_lt h0 (by omega)]
      exact if_neg (Int.not_le.mpr (by change i < stdioBufferSize; omega))
  have hpos : 0 < stdioBufferSize := by decide
  have hbyte : (stdinAt io (i % stdioBufferSize)).stdinByte (i % stdioBufferSize) =
      some (io.buffers .stdin (i % stdioBufferSize)) :=
    stdinByte_eq (Int.emod_nonneg i (Int.ne_of_gt hpos)) (Int.emod_lt_of_pos i hpos) _
  rw [getcharStdio, hwrap]
  change ((stdinAt io (i % stdioBufferSize)).stdinByte (i % stdioBufferSize)).bind _ = _
  rw [hbyte]
  rfl

/-- The index stays where `getchar_stdio` reads from. -/
theorem nextIndex_range (i : Int) :
    0 ≤ i % stdioBufferSize + 1 ∧ i % stdioBufferSize + 1 ≤ stdioBufferSize := by
  have hpos : 0 < stdioBufferSize := by decide
  have hnonneg := Int.emod_nonneg i (Int.ne_of_gt hpos)
  have hlt := Int.emod_lt_of_pos i hpos
  omega

/-- A place behind the next byte. -/
theorem nextIndex_add (i : Int) (k : Nat) :
    (i % stdioBufferSize + 1 + k) % stdioBufferSize = (i + (k + 1 : Nat)) % stdioBufferSize := by
  rw [Int.add_assoc, Int.emod_add_emod]
  congr 1
  push_cast
  omega

/-- One round of the loop. -/
theorem getsLoop_succ (h0 : 0 ≤ i) (hi : i ≤ stdioBufferSize) (fuel : Nat) (str : Nat → Byte)
    (len : Nat) : getsLoop (fuel + 1) (stdinAt io i) str len =
      if EndsLine (io.buffers .stdin (i % stdioBufferSize)) then
        some (stdinAt io (i % stdioBufferSize + 1), str, len)
      else getsLoop fuel (stdinAt io (i % stdioBufferSize + 1))
        (Function.update str len (io.buffers .stdin (i % stdioBufferSize))) (len + 1) := by
  rw [getsLoop, getcharStdio_eq h0 hi]
  simp only [Option.bind_eq_bind, Option.bind_some, BitVec.ofInt_toInt, endsLine_iff]
  rfl

/-! ## A line that ends -/

/-- A line goes on behind its first character. -/
theorem PendingLine.tail {buffer : Int → Byte} (h : PendingLine buffer i (c :: text)) :
    PendingLine buffer (i % stdioBufferSize + 1) text := by
  obtain ⟨hchars, hnone, hends⟩ := h
  refine ⟨fun k hk => ?_, fun d hd => hnone d (List.mem_cons_of_mem c hd), ?_⟩
  · rw [nextIndex_add]
    exact hchars (k + 1) (Nat.succ_lt_succ hk)
  · rw [nextIndex_add]
    exact hends

/-- The loop stores the line. -/
theorem getsLoop_eq (h0 : 0 ≤ i) (hi : i ≤ stdioBufferSize)
    (hline : PendingLine (io.buffers .stdin) i text) (str : Nat → Byte) (len : Nat) :
    ∃ str', (∀ fuel > text.length, getsLoop fuel (stdinAt io i) str len =
        some (stdinAt io ((i + text.length) % stdioBufferSize + 1), str', len + text.length)) ∧
      (∀ k, (h : k < text.length) → str' (len + k) = text[k]) ∧
      ∀ a, a < len ∨ len + text.length ≤ a → str' a = str a := by
  induction text generalizing i str len with
  | nil =>
    refine ⟨str, forall_fuel fun fuel _ => ?_, fun k hk => absurd hk (Nat.not_lt_zero k),
      fun _ _ => rfl⟩
    have hends := hline.ends
    rw [List.length_nil, Int.natCast_zero, Int.add_zero] at hends ⊢
    rw [getsLoop_succ h0 hi, if_pos hends, Nat.add_zero]
  | cons c text ih =>
    have hhead : io.buffers .stdin (i % stdioBufferSize) = c := by
      have hfirst := hline.chars 0 (Nat.zero_lt_succ _)
      rwa [Int.natCast_zero, Int.add_zero] at hfirst
    have hnot := hline.none_ends c List.mem_cons_self
    obtain ⟨hlo, hhi⟩ := nextIndex_range i
    obtain ⟨str', hrun, hchars, hkept⟩ :=
      ih hlo hhi hline.tail (Function.update str len c) (len + 1)
    refine ⟨str', forall_fuel fun fuel hfuel => ?_, fun k hk => ?_, fun a ha => ?_⟩
    · rw [getsLoop_succ h0 hi, hhead, if_neg hnot, hrun fuel hfuel, nextIndex_add,
        List.length_cons, Nat.add_right_comm, Nat.add_assoc]
    · cases k with
      | zero =>
        rw [Nat.add_zero, hkept len (.inl (Nat.lt_succ_self len)), Function.update_self]
        rfl
      | succ k =>
        have haddr : len + (k + 1) = len + 1 + k := by omega
        rw [haddr]
        exact hchars k (Nat.lt_of_succ_lt_succ hk)
    · rw [List.length_cons] at ha
      rw [hkept a (by omega), Function.update_of_ne (by omega)]

/-- Where some byte ends a line, a line is pending from every index on. -/
theorem exists_pendingLine {buffer : Int → Byte} {j : Int} (h0 : 0 ≤ j) (hj : j < stdioBufferSize)
    (hends : EndsLine (buffer j)) (i : Int) : ∃ text, PendingLine buffer i text := by
  have hreach : ∃ k : Nat, EndsLine (buffer ((i + k) % stdioBufferSize)) := by
    have hpos : 0 < stdioBufferSize := by decide
    have hcast : (((j - i) % stdioBufferSize).toNat : Int) = (j - i) % stdioBufferSize :=
      Int.toNat_of_nonneg (Int.emod_nonneg _ (Int.ne_of_gt hpos))
    refine ⟨((j - i) % stdioBufferSize).toNat, ?_⟩
    rw [hcast, Int.add_emod_emod, Int.add_comm, Int.sub_add_cancel, Int.emod_eq_of_lt h0 hj]
    exact hends
  -- The line has the bytes before the first one that ends it.
  refine ⟨(List.range (Nat.find hreach)).map fun k => buffer ((i + (k : Nat)) % stdioBufferSize),
    fun k hk => ?_, fun c hc => ?_, ?_⟩
  · rw [List.getElem_map, List.getElem_range]
  · obtain ⟨k, hk, rfl⟩ := List.mem_map.mp hc
    exact Nat.find_min hreach (List.mem_range.mp hk)
  · rw [List.length_map, List.length_range]
    exact Nat.find_spec hreach

/-- `gets` stores the line and a NUL. -/
theorem gets_pendingLine (h0 : 0 ≤ i) (hi : i ≤ stdioBufferSize)
    (hline : PendingLine (io.buffers .stdin) i text) (str : Nat → Byte) :
    ∃ str', (∀ fuel > text.length, gets fuel (stdinAt io i) str =
        some (stdinAt io ((i + text.length) % stdioBufferSize + 1), str')) ∧
      HoldsLine str str' text := by
  obtain ⟨str', hrun, hchars, hkept⟩ := getsLoop_eq h0 hi hline str 0
  refine ⟨Function.update str' text.length 0, fun fuel hfuel => ?_, ?_⟩
  · rw [gets, hrun fuel hfuel, Nat.zero_add]
    rfl
  · refine ⟨fun k hk => ?_, Function.update_self .., fun k hk => ?_⟩
    · rw [Function.update_of_ne (Nat.ne_of_lt hk), ← hchars k hk, Nat.zero_add]
    · rw [Function.update_of_ne (Nat.ne_of_gt hk)]
      exact hkept k (.inr (by omega))

/-! ## No line -/

/-- The loop never ends when no byte ends a line: it reads the buffer round and round. -/
theorem getsLoop_eq_none
    (hnone : ∀ j, 0 ≤ j → j < stdioBufferSize → ¬ EndsLine (io.buffers .stdin j)) (h0 : 0 ≤ i)
    (hi : i ≤ stdioBufferSize) (fuel : Nat) (str : Nat → Byte) (len : Nat) :
    getsLoop fuel (stdinAt io i) str len = none := by
  induction fuel generalizing i str len with
  | zero => rfl
  | succ fuel ih =>
    have hpos : 0 < stdioBufferSize := by decide
    have hnot := hnone _ (Int.emod_nonneg i (Int.ne_of_gt hpos)) (Int.emod_lt_of_pos i hpos)
    obtain ⟨hlo, hhi⟩ := nextIndex_range i
    rw [getsLoop_succ h0 hi, if_neg hnot]
    exact ih hlo hhi _ _

/-- `gets` is right when some byte of the buffer ends a line; otherwise it never returns. -/
theorem getsLine_iff (io : Stdio) (h0 : 0 ≤ i) (hi : i ≤ stdioBufferSize) (str : Nat → Byte) :
    GetsLine io i str ↔ ∃ j, 0 ≤ j ∧ j < stdioBufferSize ∧ EndsLine (io.buffers .stdin j) := by
  constructor
  · rintro ⟨⟨fuel, r, hr⟩, -⟩
    by_contra hno
    have hnone : ∀ j, 0 ≤ j → j < stdioBufferSize → ¬ EndsLine (io.buffers .stdin j) :=
      fun j hj0 hj hends => hno ⟨j, hj0, hj, hends⟩
    rw [gets, getsLoop_eq_none hnone h0 hi] at hr
    cases hr
  · rintro ⟨j, hj0, hj, hends⟩
    obtain ⟨text, hline⟩ := exists_pendingLine hj0 hj hends i
    obtain ⟨str', hrun, -⟩ := gets_pendingLine h0 hi hline str
    refine ⟨⟨text.length + 1, _, hrun _ (Nat.lt_succ_self _)⟩, fun text hline => ?_⟩
    exact gets_pendingLine h0 hi hline str

/-- The line `ok` begins with the last byte of the buffer and ends at the second one. -/
def wrappedStdin : Stdio where
  buffers := fun _ i => if i = 1023 then 0x6F else if i = 0 then 0x6B else 10

theorem pendingLine_wrapped : PendingLine (wrappedStdin.buffers .stdin) 1023 [0x6F, 0x6B] where
  chars := by
    unfold RingHolds
    decide
  none_ends := by decide
  ends := by decide

theorem getsLine_iff_wrapped : GetsLine wrappedStdin 1023 (fun _ => 0xFF) ∧
    PendingLine (wrappedStdin.buffers .stdin) 1023 [0x6F, 0x6B] :=
  ⟨(getsLine_iff wrappedStdin (by decide) (by decide) _).mpr ⟨1, by decide, by decide, by decide⟩,
    pendingLine_wrapped⟩

/-- The buffer is all NULs after boot, and `gets` does not return. -/
theorem not_forall_getsLine : ¬ ∀ (io : Stdio) (i : Int) (str : Nat → Byte), 0 ≤ i →
    i ≤ stdioBufferSize → GetsLine io i str := by
  intro hall
  obtain ⟨fuel, r, hr⟩ := (hall {} 0 (fun _ => 0) (by decide) (by decide)).returns
  have hnul : ¬ EndsLine 0 := by decide
  have hnone : ∀ j : Int, 0 ≤ j → j < stdioBufferSize →
      ¬ EndsLine (({} : Stdio).buffers .stdin j) := fun _ _ _ => hnul
  rw [gets, getsLoop_eq_none hnone (by decide) (by decide)] at hr
  cases hr

end KyroKernel
