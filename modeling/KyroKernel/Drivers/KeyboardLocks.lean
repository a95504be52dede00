import KyroKernel.Drivers.KeyboardModifiers
import KyroKernel.Foundations.BitSet

/-!
# Locks, LEDs and the keys in the ring

A lock key turns its flag over each time it is pressed, and the handler then sets the LEDs to the
three lock flags, in another order of bits. Nothing else changes these flags, and the keys that the
handler treats itself never get into the ring.
-/

namespace KyroKernel

open Foundations

/-! ## §1 What is coherent -/

inductive Lock where
  | scroll
  | num
  | caps
  deriving DecidableEq

def Lock.scancode : Lock → Byte
  | .scroll => keyScrollLock
  | .num => keyNumLock
  | .caps => keyCapsLock

def Lock.flag : Lock → Byte
  | .scroll => keyboardFlagScrollLock
  | .num => keyboardFlagNumLock
  | .caps => keyboardFlagCapsLock

/-- The bit of the LED. -/
def Lock.led : Lock → Nat
  | .scroll => 0
  | .num => 1
  | .caps => 2

def Lock.FlagSet (l : Lock) (s : KeyboardState) : Prop := s.flags &&& l.flag ≠ 0

instance (l : Lock) (s : KeyboardState) : Decidable (l.FlagSet s) :=
  inferInstanceAs (Decidable (s.flags &&& l.flag ≠ 0))

/-- The scancodes in the ring, oldest first. -/
def pendingScancodes (s : KeyboardState) : List Byte :=
  (List.range s.bufferCount.toNat).map fun i =>
    s.buffer ((s.bufferTail + (i : Nat)) % keyboardBufferSize)

/-- The LEDs are those of the locks that are on. -/
def LedsShowLocks (s : KeyboardState) : Prop :=
  ∀ i, s.ledState.getLsbD i = true ↔ ∃ l : Lock, l.led = i ∧ l.FlagSet s

/-- The keyboard state after the bytes `received`. -/
structure KeyboardCoherent (s : KeyboardState) (received : List Byte) : Prop where
  leds : LedsShowLocks s
  /-- A lock is on after an odd number of its make codes. -/
  locks : ∀ l : Lock, l.FlagSet s ↔ received.count l.scancode % 2 = 1
  /-- `scancode_to_ascii` indexes its tables of 128 characters with a regular key. -/
  pending : ∀ scancode ∈ pendingScancodes s, scancode.toNat < 128 ∧ scancode ∉ specialKeys

variable {s s' : KeyboardState} {l l' : Lock} {q : List Byte} {scancode data : Byte}

/-! ## §2 LEDs -/

theorem getLsbD_or_led {p : Prop} [Decidable p] {x : Byte} {n : Nat} (hn : n < 8) (i : Nat) :
    (if p then x ||| 1#8 <<< n else x).getLsbD i = true ↔ x.getLsbD i = true ∨ p ∧ n = i := by
  split
  · next hp =>
    rw [BitSet.getLsbD_or_bit hn, or_comm, @eq_comm _ i n]
    simp [hp]
  · next hp => simp [hp]

/-- `keyboard_update_leds` shows the locks that are on. -/
theorem ledsShowLocks_update (s : KeyboardState) : LedsShowLocks (keyboardUpdateLeds s) := by
  intro i
  have hbits : (keyboardUpdateLeds s).ledState.getLsbD i = true ↔
      ((Lock.scroll.FlagSet s ∧ 0 = i) ∨ Lock.num.FlagSet s ∧ 1 = i) ∨
        Lock.caps.FlagSet s ∧ 2 = i := by
    have hleds : (keyboardUpdateLeds s).ledState =
        (let leds : Byte := if Lock.scroll.FlagSet s then (0 : Byte) ||| 1#8 <<< 0 else 0
         let leds := if Lock.num.FlagSet s then leds ||| 1#8 <<< 1 else leds
         if Lock.caps.FlagSet s then leds ||| 1#8 <<< 2 else leds) := rfl
    rw [hleds, getLsbD_or_led (by decide), getLsbD_or_led (by decide), getLsbD_or_led (by decide)]
    simp
  rw [hbits]
  constructor
  · rintro ((⟨hset, hi⟩ | ⟨hset, hi⟩) | ⟨hset, hi⟩)
    · exact ⟨.scroll, hi, hset⟩
    · exact ⟨.num, hi, hset⟩
    · exact ⟨.caps, hi, hset⟩
  · rintro ⟨l, hi, hset⟩
    cases l with
    | scroll => exact .inl (.inl ⟨hset, hi⟩)
    | num => exact .inl (.inr ⟨hset, hi⟩)
    | caps => exact .inr ⟨hset, hi⟩

/-- The LEDs and the locks stay. -/
theorem LedsShowLocks.congr (h : LedsShowLocks s) (hleds : s'.ledState = s.ledState)
    (hlocks : ∀ l : Lock, l.FlagSet s' ↔ l.FlagSet s) : LedsShowLocks s' := by
  intro i
  rw [hleds, h i]
  simp only [hlocks]

/-! ## §3 Locks -/

theorem flagSet_toggleFlag_lock (l l' : Lock) (s : KeyboardState) :
    l.FlagSet (toggleFlag s false l'.flag) ↔ if l = l' then ¬ l.FlagSet s else l.FlagSet s := by
  unfold Lock.FlagSet toggleFlag
  rw [if_neg (by decide)]
  dsimp only [keyboardUpdateLeds]
  by_cases heq : l = l'
  · subst heq
    have hbit : ∃ k < 8, l.flag = 1#8 <<< k := by
      cases l with
      | scroll => exact ⟨5, by decide, rfl⟩
      | num => exact ⟨4, by decide, rfl⟩
      | caps => exact ⟨3, by decide, rfl⟩
    obtain ⟨k, hk, hflag⟩ := hbit
    have hzero : ∀ x : Byte, x &&& 1#8 <<< k = 0 ↔ x.getLsbD k = false :=
      fun _ => BitSet.and_bit_eq_zero hk
    rw [if_pos rfl, hflag, ne_eq, ne_eq, hzero, hzero, BitVec.getLsbD_xor, BitSet.getLsbD_bit hk]
    simp
  · rw [if_neg heq]
    have hdisjoint : l'.flag &&& l.flag = 0 := by
      revert heq
      cases l <;> cases l' <;> decide
    rw [(and_disjoint hdisjoint).2.2]

/-- The `switch` at a lock key. -/
theorem handleKey_lock (s : KeyboardState) (released : Bool) (l : Lock) :
    handleKey s released l.scancode = toggleFlag s released l.flag := by
  cases l <;> rfl

/-- Any other key leaves the locks and the LEDs alone. -/
theorem handleKey_not_lock (h : ∀ l : Lock, scancode ≠ l.scancode) (released : Bool) :
    (handleKey s released scancode).ledState = s.ledState ∧
      ∀ l : Lock, l.FlagSet (handleKey s released scancode) ↔ l.FlagSet s := by
  have hhold : ∀ flag ∈ [keyboardFlagShift, keyboardFlagCtrl, keyboardFlagAlt],
      (holdFlag s released flag).ledState = s.ledState ∧
        ∀ l : Lock, l.FlagSet (holdFlag s released flag) ↔ l.FlagSet s := by
    intro flag hflag
    refine ⟨by unfold holdFlag; split <;> rfl, fun l => ?_⟩
    have hdisjoint : flag &&& l.flag = 0 := by
      revert flag
      cases l <;> decide
    obtain ⟨hclear, hset, -⟩ := and_disjoint (f := s.flags) hdisjoint
    unfold Lock.FlagSet holdFlag
    cases released with
    | true => rw [if_pos rfl, hclear]
    | false => rw [if_neg (by decide), hset]
  unfold handleKey
  -- The keys that are held, the locks, a release and a regular key.
  split_ifs with hshift hctrl halt hcaps hnum hscroll hreleased
  · exact hhold _ (by decide)
  · exact hhold _ (by decide)
  · exact hhold _ (by decide)
  · exact absurd hcaps (h .caps)
  · exact absurd hnum (h .num)
  · exact absurd hscroll (h .scroll)
  · exact ⟨rfl, fun _ => Iff.rfl⟩
  · refine ⟨by unfold keyboardBufferPut; split <;> rfl, fun l => ?_⟩
    unfold Lock.FlagSet
    rw [flags_keyboardBufferPut]

theorem toggleFlag_released (s : KeyboardState) (flag : Byte) : toggleFlag s true flag = s :=
  if_pos rfl

/-- The make code of a lock, with the release bit taken off. -/
theorem eq_scancode_iff (l : Lock) (data : Byte) :
    data = l.scancode ↔ data &&& 0x80 = 0 ∧ data &&& 0x7F = l.scancode := by
  revert data
  cases l <;> decide +kernel

theorem Lock.scancode_inj (h : l.scancode = l'.scancode) : l = l' := by
  revert h
  cases l <;> cases l' <;> decide

/-- The handler turns over the lock whose make code it reads, and no other. -/
theorem flagSet_keyboardHandler_lock (l : Lock) (s : KeyboardState) (data : Byte) :
    l.FlagSet (keyboardHandler s data) ↔
      if data = l.scancode then ¬ l.FlagSet s else l.FlagSet s := by
  unfold keyboardHandler
  by_cases hE0 : data = 0xE0
  · -- The prefix byte is no make code.
    have hne : data ≠ l.scancode := by
      rw [hE0]
      cases l <;> decide
    rw [if_pos hE0, if_neg hne]
    rfl
  · rw [if_neg hE0, if_congr (eq_scancode_iff l data) rfl rfl]
    show l.FlagSet (handleKey s (data &&& 0x80 ≠ 0) (data &&& 0x7F)) ↔ _
    by_cases hlock : ∃ l' : Lock, data &&& 0x7F = l'.scancode
    · obtain ⟨l', hl'⟩ := hlock
      rw [hl', handleKey_lock]
      by_cases hdown : data &&& 0x80 = 0
      · rw [decide_eq_false (not_not.mpr hdown), flagSet_toggleFlag_lock]
        by_cases heq : l = l'
        · rw [if_pos heq, if_pos ⟨hdown, congrArg _ heq.symm⟩]
        · rw [if_neg heq, if_neg fun h => heq (Lock.scancode_inj h.2.symm)]
      · rw [decide_eq_true hdown, toggleFlag_released, if_neg fun h => hdown h.1]
    · rw [if_neg fun h => hlock ⟨l, h.2⟩]
      exact (handleKey_not_lock (not_exists.mp hlock) _).2 l

/-- The handler keeps the LEDs right. -/
theorem LedsShowLocks.handler (h : LedsShowLocks s) (data : Byte) :
    LedsShowLocks (keyboardHandler s data) := by
  unfold keyboardHandler
  by_cases hE0 : data = 0xE0
  · rw [if_pos hE0]
    exact h.congr rfl fun _ => Iff.rfl
  · rw [if_neg hE0]
    show LedsShowLocks (handleKey s (data &&& 0x80 ≠ 0) (data &&& 0x7F))
    by_cases hlock : ∃ l' : Lock, data &&& 0x7F = l'.scancode
    · obtain ⟨l', hl'⟩ := hlock
      rw [hl', handleKey_lock]
      by_cases hdown : data &&& 0x80 = 0
      · -- The branch ends in `keyboard_update_leds`.
        rw [decide_eq_false (not_not.mpr hdown)]
        exact ledsShowLocks_update _
      · rw [decide_eq_true hdown, toggleFlag_released]
        exact h
    · obtain ⟨hleds, hlocks⟩ := handleKey_not_lock (not_exists.mp hlock) (data &&& 0x80 ≠ 0)
      exact h.congr hleds hlocks

/-! ## §4 Histories -/

/-- The state after the bytes `received`, with the scancodes `q` in the ring. -/
structure LockInv (s : KeyboardState) (received q : List Byte) : Prop where
  leds : LedsShowLocks s
  locks : ∀ l : Lock, l.FlagSet s ↔ received.count l.scancode % 2 = 1
  queue : HoldsQueue s 0 q
  regular : ∀ scancode ∈ q, scancode.toNat < 128 ∧ scancode ∉ specialKeys

variable {received : List Byte}

theorem pressedKey_not_special (h : pressedKey data = some scancode) :
    scancode ∉ specialKeys := by
  unfold pressedKey at h
  split at h
  · cases h
  · next hor =>
    obtain rfl := Option.some.inj h
    exact fun hmem => hor (.inr (.inr hmem))

theorem mem_acceptedScancodes (h : scancode ∈ acceptedScancodes s data) :
    scancode.toNat < 128 ∧ scancode ∉ specialKeys := by
  unfold acceptedScancodes at h
  split at h
  · next key hkey =>
    split at h
    · obtain rfl := List.mem_singleton.mp h
      exact ⟨toNat_pressedKey hkey, pressedKey_not_special hkey⟩
    · cases h
  · cases h

/-- A byte that the handler reads. -/
theorem LockInv.handler (h : LockInv s received q) (data : Byte) :
    LockInv (keyboardHandler s data) (received ++ [data]) (q ++ acceptedScancodes s data) where
  leds := h.leds.handler data
  locks := by
    intro l
    rw [flagSet_keyboardHandler_lock, List.count_append, List.count_singleton, h.locks l]
    -- One make code more, and the lock is turned over.
    by_cases heq : data = l.scancode
    · simp only [heq, beq_self_eq_true, if_true]
      omega
    · simp [heq]
  queue := h.queue.handler data
  regular := by
    intro scancode hmem
    rcases List.mem_append.mp hmem with hold | hnew
    · exact h.regular scancode hold
    · exact mem_acceptedScancodes hnew

theorem ledState_keyboardGetChar (s : KeyboardState) :
    (keyboardGetChar s).2.ledState = s.ledState := by
  have hget : (keyboardBufferGet s).2.ledState = s.ledState := by
    unfold keyboardBufferGet
    split <;> rfl
  unfold keyboardGetChar
  split
  · rfl
  · exact hget

/-- A key that is read. -/
theorem LockInv.getChar (h : LockInv s received q) :
    LockInv (keyboardGetChar s).2 received q.tail := by
  cases q with
  | nil =>
    rw [h.queue.getChar_nil]
    exact h
  | cons scancode q =>
    obtain ⟨-, hflags, hqueue⟩ := h.queue.getChar_cons
    have hlocks : ∀ l : Lock, l.FlagSet (keyboardGetChar s).2 ↔ l.FlagSet s := by
      intro l
      unfold Lock.FlagSet
      rw [hflags]
    exact ⟨h.leds.congr (ledState_keyboardGetChar s) hlocks,
      fun l => (hlocks l).trans (h.locks l), hqueue,
      fun c hc => h.regular c (List.mem_cons_of_mem _ hc)⟩

/-- Any steps. -/
theorem LockInv.afterTyping (r : List TypingStep) (h : LockInv s received q) :
    ∃ q', LockInv (afterTyping s r) (received ++ scancodeStream r) q' := by
  induction r generalizing s received q with
  | nil => exact ⟨q, by rw [scancodeStream, List.append_nil]; exact h⟩
  | cons i r ih =>
    cases i with
    | handler data =>
      obtain ⟨q', h'⟩ := ih (h.handler data)
      rw [List.append_assoc] at h'
      exact ⟨q', h'⟩
    | getChar => exact ih h.getChar

theorem lockInv_keyboardInit (s : KeyboardState) : LockInv (keyboardInit s) [] [] where
  leds := by
    intro i
    have hleds : (keyboardInit s).ledState = 0 := rfl
    rw [hleds]
    simp [Lock.FlagSet, keyboardInit]
  locks := by
    intro l
    simp [Lock.FlagSet, keyboardInit]
  queue := holdsQueue_keyboardInit s
  regular := fun _ h => absurd h List.not_mem_nil

theorem LockInv.pending_eq (h : LockInv s received q) : pendingScancodes s = q := by
  have hcount := h.queue.count
  rw [pendingScancodes, h.queue.cells.eq_map, hcount]
  simp

/-- The LEDs, the locks and the ring stay coherent, whatever is typed and read. -/
theorem keyboard_coherent (s : KeyboardState) (r : List TypingStep) :
    KeyboardCoherent (afterTyping (keyboardInit s) r) (scancodeStream r) := by
  obtain ⟨q, h⟩ := (lockInv_keyboardInit s).afterTyping r
  refine ⟨h.leds, h.locks, ?_⟩
  rw [h.pending_eq]
  exact h.regular

end KyroKernel
