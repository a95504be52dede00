import KyroKernel.Foundations.X86Paging
import KyroKernel.Console.OnScreen
import KyroKernel.Console.Printf
import Mathlib.Data.Nat.Find

/-!
# `SYS_WRITE`

`syscall_handler` of `kernel/syscall.c` runs with the rights of the kernel, and copies what it is
pointed to: whether user mode reaches a page makes no difference to it. The page tables are in the
memory that it runs on, and map the text buffer, which `putchar` writes, to itself.
-/

namespace KyroKernel

open Foundations

/-! ## §1 The text buffer in memory -/

/-- The address of `video_memory`, which the kernel reaches at its physical address. -/
def textBuffer : Word := 0xB8000

/-- The physical address `a` is in the text buffer. -/
def InTextBuffer (a : Word) : Prop := (a - textBuffer).toNat < 4000

instance (a : Word) : Decidable (InTextBuffer a) := inferInstanceAs (Decidable (_ < _))

/-- A page directory that the kernel can print with: some memory holds it, it maps the text buffer to
itself, and has no table there. -/
structure KernelDirectory where
  cr3 : Word
  entries : PageDirectory
  consistent : ∃ m, entries.HeldIn cr3 m
  text : ∀ v, InTextBuffer v → entries.translate v = some v
  apart : ∀ p, entries.TableByte cr3 p → ¬ InTextBuffer p

/-- The physical memory, with the page directory and the text buffer in it, and the cursor. -/
@[ext] structure ConsoleMemory (D : KernelDirectory) where
  mem : Mem
  cursorX : Int
  cursorY : Int
  held : D.entries.HeldIn D.cr3 mem
  x_range : 0 ≤ cursorX ∧ cursorX < 80
  y_range : 0 ≤ cursorY ∧ cursorY < 25

variable {D : KernelDirectory} {s s' : ConsoleMemory D} {c : Byte}

namespace ConsoleMemory

/-- The screen of this memory. -/
def console (s : ConsoleMemory D) : Console where
  videoMemory i := if 0 ≤ i ∧ i < 4000 then s.mem (textBuffer + BitVec.ofInt 32 i) else 0
  cursorX := s.cursorX
  cursorY := s.cursorY

/-- The memory with this screen. -/
def withConsole (s : ConsoleMemory D) (t : Console) (h : OnScreen t) : ConsoleMemory D where
  mem a := if InTextBuffer a then t.videoMemory (a - textBuffer).toNat else s.mem a
  cursorX := t.cursorX
  cursorY := t.cursorY
  held := s.held.congr fun p hp => if_neg (D.apart p hp)
  x_range := h.x
  y_range := h.y

/-- `putchar` on this memory: the text buffer is at its own address. -/
def putchar (s : ConsoleMemory D) (c : Byte) : ConsoleMemory D :=
  match h : KyroKernel.putchar s.console c with
  | some t => s.withConsole t (onScreen_putchar ⟨s.x_range, s.y_range⟩ h)
  | none => absurd h (putchar_ne_none ⟨s.x_range, s.y_range⟩ c)

/-- The calls of `putchar` of a `printf`. -/
def putAll (s : ConsoleMemory D) (cs : List Byte) : ConsoleMemory D := cs.foldl putchar s

end ConsoleMemory

/-! ## §2 The handler -/

def sysExit : Word := 1
def sysFork : Word := 2
def sysRead : Word := 3
def sysWrite : Word := 4

/-- The loop of `SYS_WRITE` from `str[i]` on, `n` rounds before `i` is `edx`: the characters passed to
`putchar`, and the memory at the end; `none` for a page fault. -/
def writeLoop (str : Word) :
    Nat → Word → ConsoleMemory D → List Byte × Option (ConsoleMemory D)
  | 0, _, s => ([], some s)
  | n + 1, i, s =>
    match pageWalk s.mem D.cr3 (str + i) with
    | none => ([], none)
    | some p =>
      if s.mem p = 0 then ([], some s)
      else
        let (out, r) := writeLoop str n (i + 1) (s.putchar (s.mem p))
        (s.mem p :: out, r)

/-- The characters of a `printf`. -/
def printfCall (s : ConsoleMemory D) (cs : List Byte) : List Byte × Option (ConsoleMemory D) :=
  (cs, some (s.putAll cs))

/-- `syscall_handler`. -/
def syscallHandler (s : ConsoleMemory D) (eax ebx ecx edx : Word) :
    List Byte × Option (ConsoleMemory D) :=
  if eax = sysExit then printfCall s (printed (chars "Process exiting with code: %d\n") [.word ebx])
  else if eax = sysFork then
    printfCall s (printed (chars "Fork system call not implemented\n") [])
  else if eax = sysRead then
    printfCall s (printed (chars "Read system call: fd=%d, buf=0x%x, count=%d\n")
      [.word ebx, .word ecx, .word edx])
  else if eax = sysWrite then
    if ebx = 1 then writeLoop ecx edx.toNat 0 s else ([], some s)
  else printfCall s (printed (chars "Unknown system call: %d\n") [.word eax])

/-! ## §3 What user mode may know -/

/-- The memories agree on all bytes that user mode reaches. Where the loop reads the text buffer,
which `putchar` writes meanwhile, they also show the same screen. -/
structure AgreeForUser (ecx edx : Word) (s s' : ConsoleMemory D) : Prop where
  user : ∀ p, D.entries.UserByte p → s.mem p = s'.mem p
  screen : (∀ i < edx.toNat, ∀ p, D.entries.translate (ecx + BitVec.ofNat 32 i) = some p →
    ¬ InTextBuffer p) ∨ s.console = s'.console

/-- What `SYS_WRITE` puts on the screen is the same for memories that hold the directory and agree
for user mode. -/
def WritesNoSecret (D : KernelDirectory) (ebx ecx edx : Word) : Prop :=
  ∀ s s' : ConsoleMemory D, AgreeForUser ecx edx s s' →
    (syscallHandler s sysWrite ebx ecx edx).1 = (syscallHandler s' sysWrite ebx ecx edx).1

/-- The loop gets to `str[i]` unless another byte is NUL: the bytes before are mapped, and none of them
is a NUL in the page tables. -/
structure Reaches (D : KernelDirectory) (str : Word) (i : Nat) : Prop where
  mapped : ∀ j < i, D.entries.translate (str + BitVec.ofNat 32 j) ≠ none
  passed : ∀ j < i, ∀ p, D.entries.translate (str + BitVec.ofNat 32 j) = some p →
    ¬ D.entries.EntryByte D.cr3 p 0

/-- As far as the loop gets, the range that is written is in pages that user mode reaches, in the
text buffer or in the page tables themselves. -/
def RangeForUser (D : KernelDirectory) (ecx edx : Word) : Prop :=
  ∀ i < edx.toNat, Reaches D ecx i → ∀ p, D.entries.translate (ecx + BitVec.ofNat 32 i) = some p →
    D.entries.UserByte p ∨ InTextBuffer p ∨ D.entries.TableByte D.cr3 p

/-! ## §4 `putchar` on the memory -/

/-- No byte of the text buffer is NUL. -/
def NoNul (v : Int → Byte) : Prop := ∀ i, 0 ≤ i → i < 4000 → v i ≠ 0

theorem NoNul.videoWrite {v v' : Int → Byte} {i : Int} {b : Byte} (h : NoNul v) (hb : b ≠ 0)
    (hwrite : videoWrite v i b = some v') : NoNul v' := by
  obtain ⟨-, hv⟩ := Option.ite_none_right_eq_some.mp hwrite
  obtain rfl := Option.some.inj hv
  intro j hlo hhi
  by_cases hj : j = i
  · rw [hj, Function.update_self]
    exact hb
  · rw [Function.update_of_ne hj]
    exact h j hlo hhi

theorem NoNul.scrollUp {v v' : Int → Byte} (h : NoNul v) (hscroll : scrollUp v = some v') :
    NoNul v' := by
  unfold KyroKernel.scrollUp at hscroll
  obtain ⟨v₁, hcells, hclear⟩ := Option.bind_eq_some_iff.mp hscroll
  -- The cells that move up come from the screen, the last row is blank.
  have hmoved : NoNul v₁ := by
    refine forRange_keeps NoNul (fun i v v' hlo hhi hv hcell => ?_) h hcells
    have hwidth : vgaWidth = 80 := rfl
    have hrows : ((vgaHeight - 1) * vgaWidth).toNat = 1920 := by decide
    obtain ⟨w, hchar, hattr⟩ := Option.bind_eq_some_iff.mp hcell
    have hw : NoNul w := hv.videoWrite (hv _ (by omega) (by omega)) hchar
    exact hw.videoWrite (hw _ (by omega) (by omega)) hattr
  refine forRange_keeps NoNul (fun i v v' _ _ hv hcell => ?_) hmoved hclear
  obtain ⟨w, hchar, hattr⟩ := Option.bind_eq_some_iff.mp hcell
  exact (hv.videoWrite (by decide) hchar).videoWrite (by decide) hattr

theorem NoNul.wrapAndScroll {t t' : Console} (h : NoNul t.videoMemory)
    (hwrap : wrapAndScroll t = some t') : NoNul t'.videoMemory := by
  have hwrapped : NoNul (if t.cursorX ≥ vgaWidth then
      { t with cursorX := 0, cursorY := t.cursorY + 1 } else t).videoMemory := by
    split_ifs
    all_goals exact h
  simp only [KyroKernel.wrapAndScroll] at hwrap
  split_ifs at hwrap hwrapped
  all_goals first
    | obtain ⟨v, hscroll, hlast⟩ := Option.bind_eq_some_iff.mp hwrap
      obtain rfl := Option.some.inj hlast
      exact hwrapped.scrollUp hscroll
    | obtain rfl := Option.some.inj hwrap
      exact hwrapped

/-- Characters other than NUL leave no NUL on the screen. -/
theorem NoNul.putchar {t t' : Console} (h : NoNul t.videoMemory) (hc : c ≠ 0)
    (hput : putchar t c = some t') : NoNul t'.videoMemory := by
  unfold KyroKernel.putchar at hput
  dsimp only at hput
  split_ifs at hput
  · exact NoNul.wrapAndScroll (t := { t with cursorX := 0, cursorY := t.cursorY + 1 }) h hput
  · exact NoNul.wrapAndScroll (t := { t with cursorX := 0 }) h hput
  · exact NoNul.wrapAndScroll
      (t := { t with cursorX := (BitVec.ofInt 32 (t.cursorX + 8) &&& ~~~7).toInt }) h hput
  · obtain ⟨t₁, hchar, hwrap⟩ := Option.bind_eq_some_iff.mp hput
    refine NoNul.wrapAndScroll ?_ hwrap
    unfold eraseChar at hchar
    split_ifs at hchar
    · obtain ⟨v, hwrite, hlast⟩ := Option.bind_eq_some_iff.mp hchar
      obtain rfl := Option.some.inj hlast
      exact h.videoWrite (by decide) hwrite
    · obtain rfl := Option.some.inj hchar
      exact h
  · obtain ⟨t₁, hchar, hwrap⟩ := Option.bind_eq_some_iff.mp hput
    refine NoNul.wrapAndScroll ?_ hwrap
    obtain ⟨v, hwrite, hrest⟩ := Option.bind_eq_some_iff.mp hchar
    obtain ⟨v', hattr, hlast⟩ := Option.bind_eq_some_iff.mp hrest
    obtain rfl := Option.some.inj hlast
    exact (h.videoWrite hc hwrite).videoWrite (by decide) hattr

namespace ConsoleMemory

theorem putchar_eq (s : ConsoleMemory D) (c : Byte) :
    ∃ t h, KyroKernel.putchar s.console c = some t ∧ s.putchar c = s.withConsole t h := by
  obtain ⟨t, ht, hon⟩ := exists_putchar (s := s.console) ⟨s.x_range, s.y_range⟩ c
  refine ⟨t, hon, ht, ?_⟩
  unfold putchar
  split
  · next t' ht' =>
    obtain rfl := Option.some.inj (ht'.symm.trans ht)
    rfl
  · next hnone =>
    rw [hnone] at ht
    cases ht

/-- `putchar` writes to the text buffer only. -/
theorem mem_putchar (s : ConsoleMemory D) (c : Byte) {a : Word} (ha : ¬ InTextBuffer a) :
    (s.putchar c).mem a = s.mem a := by
  obtain ⟨t, h, -, hs⟩ := s.putchar_eq c
  rw [hs]
  exact if_neg ha

theorem mem_textBuffer (s : ConsoleMemory D) {a : Word} (ha : InTextBuffer a) :
    s.mem a = s.console.videoMemory (a - textBuffer).toNat := by
  have hrange : 0 ≤ ((a - textBuffer).toNat : Int) ∧ ((a - textBuffer).toNat : Int) < 4000 :=
    ⟨Int.natCast_nonneg _, Int.ofNat_lt.mpr ha⟩
  have hback : textBuffer + BitVec.ofInt 32 ((a - textBuffer).toNat : Int) = a := by
    rw [BitVec.ofInt_natCast, BitVec.ofNat_toNat, BitVec.setWidth_eq, BitVec.add_comm,
      BitVec.sub_add_cancel]
  simp only [console, if_pos hrange, hback]

theorem offset_ofInt {i : Int} (hi : 0 ≤ i ∧ i < 4000) :
    (textBuffer + BitVec.ofInt 32 i - textBuffer).toNat = i.toNat := by
  rw [BitVec.add_comm, BitVec.add_sub_cancel, BitVec.toNat_ofInt]
  omega

theorem inTextBuffer_ofInt {i : Int} (hi : 0 ≤ i ∧ i < 4000) :
    InTextBuffer (textBuffer + BitVec.ofInt 32 i) := by
  unfold InTextBuffer
  rw [offset_ofInt hi]
  omega

theorem console_withConsole (s : ConsoleMemory D) (t : Console) (h : OnScreen t) :
    (s.withConsole t h).console =
      ⟨fun i => if 0 ≤ i ∧ i < 4000 then t.videoMemory i else 0, t.cursorX, t.cursorY⟩ := by
  have hcells : (s.withConsole t h).console.videoMemory =
      fun i => if 0 ≤ i ∧ i < 4000 then t.videoMemory i else 0 := by
    funext i
    simp only [console, withConsole]
    by_cases hi : 0 ≤ i ∧ i < 4000
    · rw [if_pos hi, if_pos hi, if_pos (inTextBuffer_ofInt hi), offset_ofInt hi,
        Int.toNat_of_nonneg hi.1]
    · rw [if_neg hi, if_neg hi]
  exact congrArg (fun v => (⟨v, t.cursorX, t.cursorY⟩ : Console)) hcells

/-- The screen after a character is decided by the screen before it. -/
theorem console_putchar (h : s.console = s'.console) (c : Byte) :
    (s.putchar c).console = (s'.putchar c).console := by
  obtain ⟨t, ht, hput, hs⟩ := s.putchar_eq c
  obtain ⟨t', ht', hput', hs'⟩ := s'.putchar_eq c
  rw [h] at hput
  obtain rfl := Option.some.inj (hput.symm.trans hput')
  rw [hs, hs', console_withConsole, console_withConsole]

theorem console_congr (hmem : ∀ a, InTextBuffer a → s.mem a = s'.mem a)
    (hx : s.cursorX = s'.cursorX) (hy : s.cursorY = s'.cursorY) : s.console = s'.console := by
  have hcells : s.console.videoMemory = s'.console.videoMemory := by
    funext i
    simp only [console]
    by_cases hi : 0 ≤ i ∧ i < 4000
    · rw [if_pos hi, if_pos hi]
      exact hmem _ (inTextBuffer_ofInt hi)
    · rw [if_neg hi, if_neg hi]
  unfold console at hcells ⊢
  simp only at hcells
  rw [hcells, hx, hy]

/-- The text buffer has no NUL exactly if the screen has none. -/
theorem noNul_console : NoNul s.console.videoMemory ↔ ∀ a, InTextBuffer a → s.mem a ≠ 0 := by
  constructor
  · intro h a ha
    rw [s.mem_textBuffer ha]
    exact h _ (Int.natCast_nonneg _) (Int.ofNat_lt.mpr ha)
  · intro h i hlo hhi
    simp only [console, if_pos (And.intro hlo hhi)]
    exact h _ (inTextBuffer_ofInt ⟨hlo, hhi⟩)

/-- A character other than NUL leaves no NUL in the text buffer. -/
theorem textBuffer_putchar (h : ∀ a, InTextBuffer a → s.mem a ≠ 0) (hc : c ≠ 0) {a : Word}
    (ha : InTextBuffer a) : (s.putchar c).mem a ≠ 0 := by
  obtain ⟨t, ht, hput, hs⟩ := s.putchar_eq c
  rw [hs]
  simp only [withConsole, if_pos ha]
  exact (noNul_console.mpr h).putchar hc hput _ (Int.natCast_nonneg _) (Int.ofNat_lt.mpr ha)

end ConsoleMemory

/-! ## §5 Two runs of the loop -/

variable {str : Word} {R : Word → Prop} {n N : Nat}

/-- The memories agree on `R`, and on the screen if some of `R` is on it. -/
structure AgreeOn (R : Word → Prop) (s s' : ConsoleMemory D) : Prop where
  mem : ∀ p, R p → s.mem p = s'.mem p
  screen : (∀ p, R p → ¬ InTextBuffer p) ∨ s.console = s'.console

theorem AgreeOn.putchar (h : AgreeOn R s s') (c : Byte) :
    AgreeOn R (s.putchar c) (s'.putchar c) := by
  rcases h.screen with hout | hsame
  · refine ⟨fun p hp => ?_, .inl hout⟩
    rw [s.mem_putchar c (hout p hp), s'.mem_putchar c (hout p hp)]
    exact h.mem p hp
  · have hsame' := ConsoleMemory.console_putchar hsame c
    refine ⟨fun p hp => ?_, .inr hsame'⟩
    by_cases hin : InTextBuffer p
    · rw [ConsoleMemory.mem_textBuffer _ hin, ConsoleMemory.mem_textBuffer _ hin, hsame']
    · rw [s.mem_putchar c hin, s'.mem_putchar c hin]
      exact h.mem p hp

/-- Whether the loop passes a byte on is up to that byte. -/
theorem writeLoop_byte {i p : Word} (hp : D.entries.translate (str + i) = some p)
    (s : ConsoleMemory D) : (writeLoop str (n + 1) i s).1 =
      if s.mem p = 0 then [] else s.mem p :: (writeLoop str n (i + 1) (s.putchar (s.mem p))).1 := by
  rw [writeLoop, s.held.pageWalk, hp]
  simp only
  split <;> rfl

theorem writeLoop_fault {i : Word} (hp : D.entries.translate (str + i) = none)
    (s : ConsoleMemory D) : (writeLoop str (n + 1) i s).1 = [] := by
  rw [writeLoop, s.held.pageWalk, hp]

theorem ofNat_succ (k : Nat) : BitVec.ofNat 32 k + 1 = BitVec.ofNat 32 (k + 1) := by
  rw [BitVec.ofNat_add]
  rfl

theorem reaches_zero (D : KernelDirectory) (str : Word) : Reaches D str 0 where
  mapped j hj := absurd hj (Nat.not_lt_zero j)
  passed j hj := absurd hj (Nat.not_lt_zero j)

/-- The loop gets past a byte that is not NUL. -/
theorem Reaches.succ {k : Nat} {p : Word} (h : Reaches D str k)
    (hp : D.entries.translate (str + BitVec.ofNat 32 k) = some p) (s : ConsoleMemory D)
    (hne : s.mem p ≠ 0) : Reaches D str (k + 1) := by
  constructor
  · intro j hj
    rcases Nat.lt_succ_iff_lt_or_eq.mp hj with hlt | rfl
    · exact h.mapped j hlt
    · rw [hp]
      exact Option.some_ne_none p
  · intro j hj q hq
    rcases Nat.lt_succ_iff_lt_or_eq.mp hj with hlt | rfl
    · exact h.passed j hlt q hq
    · obtain rfl := Option.some.inj (hp.symm.trans hq)
      exact fun hzero => hne (s.held.byte hzero)

/-- The loops agree when all bytes that they may reach are in `R`. -/
theorem writeLoop_congr {k : Nat} (hN : k + n = N)
    (hR : ∀ i < N, Reaches D str i →
      ∀ p, D.entries.translate (str + BitVec.ofNat 32 i) = some p → R p)
    (hreached : Reaches D str k) (h : AgreeOn R s s') :
    (writeLoop str n (BitVec.ofNat 32 k) s).1 = (writeLoop str n (BitVec.ofNat 32 k) s').1 := by
  induction n generalizing k s s' with
  | zero => rfl
  | succ n ih =>
    cases hp : D.entries.translate (str + BitVec.ofNat 32 k) with
    | none => rw [writeLoop_fault hp, writeLoop_fault hp]
    | some p =>
      have hbyte := h.mem p (hR k (by omega) hreached p hp)
      rw [writeLoop_byte hp, writeLoop_byte hp, hbyte]
      by_cases hzero : s'.mem p = 0
      · rw [if_pos hzero, if_pos hzero]
      · have hrest := ih (k := k + 1) (by omega) (hreached.succ hp s' hzero) (h.putchar (s'.mem p))
        rw [if_neg hzero, if_neg hzero, ofNat_succ, hrest]

/-- The memories differ at `p` only, where one has a NUL. Behind no other byte than one of the page
tables the loop can stop. -/
structure DifferAt (p : Word) (s s' : ConsoleMemory D) : Prop where
  same : ∀ q, q ≠ p → s.mem q = s'.mem q
  console : s.console = s'.console
  noNul : ∀ q, q ≠ p → ¬ D.entries.TableByte D.cr3 q → s.mem q ≠ 0
  outside : ¬ InTextBuffer p
  here : s.mem p ≠ 0 ∧ s'.mem p = 0

theorem DifferAt.putchar {p : Word} (h : DifferAt p s s') (hc : c ≠ 0) :
    DifferAt p (s.putchar c) (s'.putchar c) where
  same q hq := by
    by_cases hin : InTextBuffer q
    · rw [ConsoleMemory.mem_textBuffer _ hin, ConsoleMemory.mem_textBuffer _ hin,
        ConsoleMemory.console_putchar h.console c]
    · rw [s.mem_putchar c hin, s'.mem_putchar c hin]
      exact h.same q hq
  console := ConsoleMemory.console_putchar h.console c
  noNul q hq htable := by
    by_cases hin : InTextBuffer q
    · refine ConsoleMemory.textBuffer_putchar (fun a ha => ?_) hc hin
      exact h.noNul a (fun heq => h.outside (heq ▸ ha)) fun hentry => D.apart a hentry ha
    · rw [s.mem_putchar c hin]
      exact h.noNul q hq htable
  outside := h.outside
  here := by
    rw [s.mem_putchar c h.outside, s'.mem_putchar c h.outside]
    exact h.here

/-- A byte that the loop gets to and that is not the secret one is no NUL. -/
theorem DifferAt.ne_zero {p q : Word} (h : DifferAt p s s') (hq : q ≠ p)
    (hpassed : ¬ D.entries.EntryByte D.cr3 q 0) : s.mem q ≠ 0 := by
  by_cases htable : D.entries.TableByte D.cr3 q
  · obtain ⟨b, hb⟩ := htable
    intro hzero
    rw [s.held.byte hb] at hzero
    exact hpassed (hzero ▸ hb)
  · exact h.noNul q hq htable

/-- The loops pass on different characters when they get to the byte in which the memories differ,
`i` rounds later. -/
theorem writeLoop_ne {k i : Nat} {p : Word} (hn : k + n = N) (hki : k + i < N)
    (hreached : Reaches D str (k + i)) (h : DifferAt p s s')
    (hp : D.entries.translate (str + BitVec.ofNat 32 (k + i)) = some p)
    (hfirst : ∀ j < k + i, D.entries.translate (str + BitVec.ofNat 32 j) ≠ some p) :
    (writeLoop str n (BitVec.ofNat 32 k) s).1 ≠ (writeLoop str n (BitVec.ofNat 32 k) s').1 := by
  induction i generalizing k n s s' with
  | zero =>
    obtain ⟨n, rfl⟩ : ∃ n', n = n' + 1 := ⟨n - 1, by omega⟩
    rw [Nat.add_zero] at hp
    rw [writeLoop_byte hp, writeLoop_byte hp, if_neg h.here.1, if_pos h.here.2]
    exact List.cons_ne_nil _ _
  | succ i ih =>
    obtain ⟨n, rfl⟩ : ∃ n', n = n' + 1 := ⟨n - 1, by omega⟩
    obtain ⟨q, hq⟩ := Option.ne_none_iff_exists'.mp (hreached.mapped k (by omega))
    have hne : q ≠ p := fun heq => hfirst k (by omega) (heq ▸ hq)
    have hpassed := h.ne_zero hne (hreached.passed k (by omega) q hq)
    have hsame := h.same q hne
    rw [writeLoop_byte hq, writeLoop_byte hq, ← hsame, if_neg hpassed, if_neg hpassed, ofNat_succ]
    have hshift : k + (i + 1) = k + 1 + i := by omega
    rw [hshift] at hki hreached hp hfirst
    intro heq
    exact ih (by omega) hki hreached (h.putchar hpassed) hp hfirst (List.cons.inj heq).2

/-! ## §6 What is disclosed -/

variable {ebx ecx edx : Word}

theorem syscallHandler_sysWrite (s : ConsoleMemory D) (ebx ecx edx : Word) :
    syscallHandler s sysWrite ebx ecx edx =
      if ebx = 1 then writeLoop ecx edx.toNat 0 s else ([], some s) := by
  have hexit : sysWrite ≠ sysExit := by decide
  have hfork : sysWrite ≠ sysFork := by decide
  have hread : sysWrite ≠ sysRead := by decide
  rw [syscallHandler, if_neg hexit, if_neg hfork, if_neg hread, if_pos rfl]

theorem writesNoSecret_of_rangeForUser (h : ebx = 1 → RangeForUser D ecx edx) :
    WritesNoSecret D ebx ecx edx := by
  intro s s' hagree
  rw [syscallHandler_sysWrite, syscallHandler_sysWrite]
  by_cases hebx : ebx = 1
  · rw [if_pos hebx, if_pos hebx]
    -- What the loop may reach of the range.
    have hon : AgreeOn (fun p => (D.entries.UserByte p ∨ InTextBuffer p ∨
        D.entries.TableByte D.cr3 p) ∧
        ∃ i < edx.toNat, D.entries.translate (ecx + BitVec.ofNat 32 i) = some p) s s' := by
      -- The tables are the same in both memories.
      have htable : ∀ p, D.entries.TableByte D.cr3 p → s.mem p = s'.mem p := by
        rintro p ⟨b, hb⟩
        rw [s.held.byte hb, s'.held.byte hb]
      rcases hagree.screen with hout | hsame
      · refine ⟨fun p hp => ?_, .inl fun p hp => ?_⟩
        · obtain ⟨huser | hin | hentry, i, hi, hpi⟩ := hp
          · exact hagree.user p huser
          · exact absurd hin (hout i hi p hpi)
          · exact htable p hentry
        · obtain ⟨-, i, hi, hpi⟩ := hp
          exact hout i hi p hpi
      · refine ⟨fun p hp => ?_, .inr hsame⟩
        obtain ⟨huser | hin | hentry, -⟩ := hp
        · exact hagree.user p huser
        · rw [s.mem_textBuffer hin, s'.mem_textBuffer hin, hsame]
        · exact htable p hentry
    refine writeLoop_congr (k := 0) (Nat.zero_add _) (fun i hi hreached p hp => ?_)
      (reaches_zero D ecx) hon
    exact ⟨h hebx i hi hreached p hp, i, hi, hp⟩
  · rw [if_neg hebx, if_neg hebx]

/-- The page tables, `b` at `p`, and no NUL elsewhere. -/
theorem exists_consoleMemory (D : KernelDirectory) {p : Word}
    (hp : ¬ D.entries.TableByte D.cr3 p) (b : Byte) : ∃ s : ConsoleMemory D, s.mem p = b ∧
      (∀ q, q ≠ p → ¬ D.entries.TableByte D.cr3 q → s.mem q = 13) ∧
      s.cursorX = 0 ∧ s.cursorY = 0 := by
  classical
  obtain ⟨m, hm⟩ := D.consistent
  refine ⟨⟨fun q => if D.entries.TableByte D.cr3 q then m q else if q = p then b else 13, 0, 0,
    hm.congr fun q hq => if_pos hq, by decide, by decide⟩, ?_, fun q hq htable => ?_, rfl, rfl⟩
  · simp only [if_neg hp, if_true]
  · simp only [if_neg htable, if_neg hq]

/-- A byte that the loop may reach is disclosed: no byte before it is NUL, and it is or is not. -/
theorem rangeForUser_of_writesNoSecret (h : WritesNoSecret D 1 ecx edx) :
    RangeForUser D ecx edx := by
  intro i hi hreached p hp
  by_contra hsecret
  obtain ⟨hkernel, hrest⟩ := not_or.mp hsecret
  obtain ⟨hout, htable⟩ := not_or.mp hrest
  obtain ⟨s, hhere, hothers, hx, hy⟩ := exists_consoleMemory D htable 13
  obtain ⟨s', hhere', hothers', hx', hy'⟩ := exists_consoleMemory D htable 0
  have hsame : ∀ q, q ≠ p → s.mem q = s'.mem q := by
    intro q hq
    by_cases hentry : D.entries.TableByte D.cr3 q
    · obtain ⟨b, hb⟩ := hentry
      rw [s.held.byte hb, s'.held.byte hb]
    · rw [hothers q hq hentry, hothers' q hq hentry]
  have hconsole : s.console = s'.console := by
    refine ConsoleMemory.console_congr (fun q hq => hsame q ?_) (hx.trans hx'.symm)
      (hy.trans hy'.symm)
    rintro rfl
    exact hout hq
  have hdiffer : DifferAt p s s' := by
    refine ⟨hsame, hconsole, fun q hq hentry => ?_, hout, ?_, hhere'⟩
    · rw [hothers q hq hentry]
      decide
    · rw [hhere]
      decide
  have hagree : AgreeForUser ecx edx s s' := by
    refine ⟨fun q hq => hsame q ?_, .inr hconsole⟩
    rintro rfl
    exact hkernel hq
  have heq := h s s' hagree
  rw [syscallHandler_sysWrite, syscallHandler_sysWrite, if_pos rfl, if_pos rfl] at heq
  -- The first place in the range where the byte is read.
  have hex : ∃ k, D.entries.translate (ecx + BitVec.ofNat 32 k) = some p := ⟨i, hp⟩
  classical
  have hle : Nat.find hex ≤ i := Nat.find_min' hex hp
  refine writeLoop_ne (k := 0) (i := Nat.find hex) (Nat.zero_add _) (by omega) ?_ hdiffer ?_ ?_ heq
  · rw [Nat.zero_add]
    exact ⟨fun j hj => hreached.mapped j (by omega), fun j hj => hreached.passed j (by omega)⟩
  · rw [Nat.zero_add]
    exact Nat.find_spec hex
  · rw [Nat.zero_add]
    exact fun j hj => Nat.find_min hex hj

/-- `SYS_WRITE` keeps what user mode cannot reach from the screen exactly when the range that it is
given is for user mode. -/
theorem writesNoSecret_iff (D : KernelDirectory) (ebx ecx edx : Word) :
    WritesNoSecret D ebx ecx edx ↔ (ebx = 1 → RangeForUser D ecx edx) := by
  refine ⟨fun h hebx => ?_, writesNoSecret_of_rangeForUser⟩
  subst hebx
  exact rangeForUser_of_writesNoSecret h

/-! ### A directory without user pages -/

/-- A page directory at 0x1000, all of whose entries point to one table, at 0x2000, which maps the
first 4 MB to themselves for the kernel. -/
def kernelPages : Mem := fun a =>
  let entry : Word :=
    if a.toNat < 0x2000 then 0x2003 else BitVec.ofNat 32 ((a.toNat - 0x2000) / 4 * 4096 + 3)
  entry.extractLsb' (8 * (a.toNat % 4)) 8

theorem kernelPages_pde {i : Word} (hi : i.toNat < 1024) :
    kernelPages.read32 (frameOf 0x1000 + 4 * i) = 0x2003 := by
  have hbyte (k : Word) (hk : k.toNat < 4) :
      kernelPages (0x1000 + 4 * i + k) = (0x2003 : Word).extractLsb' (8 * k.toNat) 8 := by
    have haddr : (0x1000 + 4 * i + k).toNat = 0x1000 + 4 * i.toNat + k.toNat := by bv_omega
    have hplace : (0x1000 + 4 * i + k).toNat % 4 = k.toNat := by omega
    simp only [kernelPages, hplace, if_pos (show (0x1000 + 4 * i + k).toNat < 0x2000 by omega)]
  have hframe : frameOf (0x1000 : Word) = 0x1000 := by decide
  have h0 : kernelPages (0x1000 + 4 * i) = 0x03 := by simpa using hbyte 0 (by decide)
  rw [hframe, Mem.read32, hbyte 3 (by decide), hbyte 2 (by decide), hbyte 1 (by decide), h0]
  decide

theorem pageWalk_kernelPages {v : Word} (hv : InTextBuffer v) :
    pageWalk kernelPages 0x1000 v = some v := by
  have hlo : 0xB8000 ≤ v.toNat ∧ v.toNat < 0xB9000 := by
    unfold InTextBuffer textBuffer at hv
    bv_omega
  -- The text buffer is in one page.
  have hdir : dirIndex v = 0 := by
    apply BitVec.eq_of_toNat_eq
    rw [toNat_dirIndex]
    change _ = 0
    omega
  have htable : tableIndex v = 0xB8 := by
    apply BitVec.eq_of_toNat_eq
    rw [toNat_tableIndex]
    change _ = 0xB8
    omega
  have hframe : frameOf v = 0xB8000 := by
    apply BitVec.eq_of_toNat_eq
    rw [toNat_frameOf]
    change _ = 0xB8000
    omega
  have hpde : kernelPages.read32 (frameOf 0x1000 + 4 * 0) = 0x2003 := by decide
  have hpte : kernelPages.read32 (frameOf 0x2003 + 4 * 0xB8) = 0xB8003 := by decide
  have hpresent : ¬ (0x2003 : Word) &&& presentBit = 0 ∧ ¬ (0xB8003 : Word) &&& presentBit = 0 := by
    decide
  have hentry : frameOf 0xB8003 = frameOf v := by
    rw [hframe]
    decide
  unfold pageWalk
  simp only [hdir, htable, hpde, hpte, if_neg hpresent.1, if_neg hpresent.2, hentry]
  rw [frameOf_or_pageOffset_self]

/-- Its entries are in the two pages. -/
theorem tableByte_kernelPages {p : Word}
    (hp : (PageDirectory.loaded kernelPages 0x1000).TableByte 0x1000 p) :
    0x1000 ≤ p.toNat ∧ p.toNat < 0x3000 := by
  obtain ⟨b, a, e, hentry, k, hk, rfl, -⟩ := hp
  cases hentry with
  | pde i hi =>
    have hframe : frameOf (0x1000 : Word) = 0x1000 := by decide
    rw [hframe]
    bv_omega
  | pte i j hi hj hpresent =>
    have hframe : frameOf ((PageDirectory.loaded kernelPages 0x1000).pde i) = 0x2000 := by
      show frameOf (kernelPages.read32 (frameOf 0x1000 + 4 * i)) = 0x2000
      rw [kernelPages_pde hi]
      decide
    rw [hframe]
    bv_omega

/-- User mode reaches none of its pages. -/
theorem not_userByte_kernelPages (p : Word) :
    ¬ (PageDirectory.loaded kernelPages 0x1000).UserByte p := by
  rintro ⟨v, -, huser, -⟩
  apply huser
  show kernelPages.read32 (frameOf 0x1000 + 4 * dirIndex v) &&& userBit = 0
  rw [kernelPages_pde (dirIndex_lt v)]
  decide

def kernelPagesDirectory : KernelDirectory where
  cr3 := 0x1000
  entries := .loaded kernelPages 0x1000
  consistent := ⟨kernelPages, PageDirectory.heldIn_loaded kernelPages 0x1000⟩
  text _ hv := pageWalk_kernelPages hv
  apart p hp hin := by
    obtain ⟨-, hhi⟩ := tableByte_kernelPages hp
    unfold InTextBuffer textBuffer at hin
    bv_omega

/-- The byte at address 0, in a page of the kernel, is written. -/
theorem not_forall_sysWrite_same :
    ¬ ∀ (D : KernelDirectory) (s s' : ConsoleMemory D) (ebx ecx edx : Word),
      (∀ p, D.entries.UserByte p → s.mem p = s'.mem p) →
        (syscallHandler s sysWrite ebx ecx edx).1 =
          (syscallHandler s' sysWrite ebx ecx edx).1 := by
  intro hall
  have hrange : RangeForUser kernelPagesDirectory 0 1 :=
    rangeForUser_of_writesNoSecret fun s s' hagree => hall _ s s' 1 0 1 hagree.user
  have hwalk : kernelPagesDirectory.entries.translate 0 = some 0 := by decide +kernel
  rcases hrange 0 (by decide) (reaches_zero _ 0) 0 hwalk with huser | hin | htable
  · exact not_userByte_kernelPages 0 huser
  · exact absurd hin (by decide)
  · exact absurd (tableByte_kernelPages htable).1 (by decide)

end KyroKernel
