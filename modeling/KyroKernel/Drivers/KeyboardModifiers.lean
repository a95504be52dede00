import KyroKernel.Drivers.KeyboardTyping

/-!
# Modifier flags and the keys that are held

A keyboard with scancode set 1 sends a code of one or more bytes when a key goes down or up.
The handler takes the codes byte by byte: it has one flag for the two keys of a modifier, and
what follows a prefix is handled like a code without one. So a flag tells which keys are held
until one key of a pair goes up before the other, or a prefixed code looks like a modifier.
-/

namespace KyroKernel

open Foundations

/-! ## §1 Codes of the keyboard -/

/-- A key: the scancode it sends when pressed, and whether `0xE0` comes first. -/
structure Key where
  extended : Bool
  scancode : Byte
  -- The release bit is clear, and no byte of the key is taken for a prefix.
  valid : scancode &&& 0x80 = 0 ∧ scancode ≠ 0x60 ∧ scancode ≠ 0x61
  deriving DecidableEq

/-- What the keyboard sends: a key goes down (or is repeated) or up, or Pause is pressed. -/
inductive KeyCode where
  | key (k : Key) (released : Bool)
  | pause

def Key.prefixBytes (k : Key) : List Byte := if k.extended then [0xE0] else []

def Key.lastByte (k : Key) (released : Bool) : Byte :=
  if released then k.scancode ||| 0x80 else k.scancode

def KeyCode.bytes : KeyCode → List Byte
  | .key k released => k.prefixBytes ++ [k.lastByte released]
  | .pause => [0xE1, 0x1D, 0x45, 0xE1, 0x9D, 0xC5]

/-- The key is down after the codes received so far, latest first. -/
def Down : List KeyCode → Key → Prop
  | [], _ => False
  | .key k' false :: r, k => k = k' ∨ Down r k
  | .key k' true :: r, k => k ≠ k' ∧ Down r k
  | .pause :: r, k => Down r k

/-! ## §2 Modifiers -/

inductive Modifier where
  | shift
  | ctrl
  | alt
  deriving DecidableEq

def Modifier.flag : Modifier → Byte
  | .shift => keyboardFlagShift
  | .ctrl => keyboardFlagCtrl
  | .alt => keyboardFlagAlt

/-- The scancodes the handler has a case for. -/
def Modifier.HasScancode : Modifier → Byte → Prop
  | .shift, c => c = keyShiftL ∨ c = keyShiftR
  | .ctrl, c => c = keyCtrl
  | .alt, c => c = keyAlt

instance (m : Modifier) (c : Byte) : Decidable (m.HasScancode c) := by
  cases m <;> unfold Modifier.HasScancode <;> infer_instance

/-- The two keys of a modifier. The right Ctrl and Alt keys are extended keys; `0xE0` with the
scancode of a shift key is no key of its own. -/
def Modifier.HasKey (m : Modifier) (k : Key) : Prop :=
  m.HasScancode k.scancode ∧ (m = .shift → k.extended = false)

/-- A key of the modifier is down. -/
def Modifier.Held (m : Modifier) (received : List KeyCode) : Prop :=
  ∃ k, m.HasKey k ∧ Down received k

def Modifier.FlagSet (m : Modifier) (s : KeyboardState) : Prop := s.flags &&& m.flag ≠ 0

/-! ## §3 Receiving codes -/

/-- The driver with the codes received so far, latest first, and the bytes received of the
code that is not complete. -/
structure KeyboardLine where
  keyboard : KeyboardState
  received : List KeyCode
  pending : List Byte

/-- The handler reads the next byte of a code. -/
inductive ReceiveByte : KeyboardLine → Byte → KeyboardLine → Prop where
  | more {s : KeyboardState} {received : List KeyCode} {pending rest : List Byte} {data : Byte}
      (code : KeyCode) (hbytes : code.bytes = pending ++ data :: rest) (hrest : rest ≠ []) :
      ReceiveByte ⟨s, received, pending⟩ data
        ⟨keyboardHandler s data, received, pending ++ [data]⟩
  | last {s : KeyboardState} {received : List KeyCode} {pending : List Byte} {data : Byte}
      (code : KeyCode) (hbytes : code.bytes = pending ++ [data]) :
      ReceiveByte ⟨s, received, pending⟩ data ⟨keyboardHandler s data, code :: received, []⟩

/-- `keyboard_init` has returned and nothing was received. -/
def LineStart (y : KeyboardLine) : Prop := ∃ s, y = ⟨keyboardInit s, [], []⟩

/-- Each modifier flag is set exactly when a key of the modifier is down. -/
def FlagsTell (y : KeyboardLine) : Prop := ∀ m : Modifier, m.FlagSet y.keyboard ↔ m.Held y.received

/-- Before the byte `data`, the keys are such that the handler does right by it. -/
structure ByteOk (y : KeyboardLine) (data : Byte) : Prop where
  /-- The keyboard makes `0xE0` shifts only while a shift key is down. -/
  make : ∀ k : Key, y.pending = k.prefixBytes → data = k.lastByte false →
    ∀ m : Modifier, m.HasScancode k.scancode → ¬ m.HasKey k → m.Held y.received
  /-- A scancode of a modifier is released while no other key of the modifier is down. -/
  release : ∀ k : Key, y.pending = k.prefixBytes → data = k.lastByte true →
    ∀ m : Modifier, m.HasScancode k.scancode → ∀ k' : Key, m.HasKey k' → Down y.received k' → k' = k
  /-- Pause makes the scancode of Ctrl while a Ctrl key is down, -/
  pauseMake : y.pending = [0xE1] → Modifier.ctrl.Held y.received
  /-- and releases it while none is. -/
  pauseRelease : y.pending = [0xE1, 0x1D, 0x45, 0xE1] → ¬ Modifier.ctrl.Held y.received

/-! ## §4 What the handler does to the flags -/

variable {s : KeyboardState} {m : Modifier}

/-- A flag that has nothing in common with that of the modifier. -/
theorem and_disjoint {f g h : Byte} (hdisjoint : g &&& h = 0) :
    f &&& ~~~g &&& h = f &&& h ∧ (f ||| g) &&& h = f &&& h ∧ (f ^^^ g) &&& h = f &&& h := by
  have hbit : ∀ i : Nat, (g.getLsbD i && h.getLsbD i) = false := by
    intro i
    rw [← BitVec.getLsbD_and, hdisjoint]
    exact BitVec.getLsbD_zero
  refine ⟨?_, ?_, ?_⟩ <;>
  · apply BitVec.eq_of_getLsbD_eq
    intro i hi
    have hi' := hbit i
    simp only [BitVec.getLsbD_and, BitVec.getLsbD_or, BitVec.getLsbD_xor, BitVec.getLsbD_not]
    cases hg : g.getLsbD i <;> cases hh : h.getLsbD i <;> simp_all

theorem flagSet_holdFlag (s : KeyboardState) (released : Bool) :
    m.FlagSet (holdFlag s released m.flag) ↔ released = false := by
  unfold Modifier.FlagSet holdFlag
  have hflag : m.flag ≠ 0 := by cases m <;> decide
  have hnot : ~~~m.flag &&& m.flag = 0 := by cases m <;> decide
  cases released with
  | true =>
    rw [if_pos rfl, BitVec.and_assoc, hnot]
    simp
  | false =>
    rw [if_neg (by decide), BitVec.and_or_distrib_right, BitVec.and_self]
    exact ⟨fun _ => rfl, fun _ h0 => hflag (BitVec.or_eq_zero_iff.mp h0).2⟩

theorem flagSet_holdFlag_other {flag : Byte} (h : flag &&& m.flag = 0) (s : KeyboardState)
    (released : Bool) : m.FlagSet (holdFlag s released flag) ↔ m.FlagSet s := by
  obtain ⟨hclear, hset, -⟩ := and_disjoint (f := s.flags) h
  unfold Modifier.FlagSet holdFlag
  cases released with
  | true => rw [if_pos rfl, hclear]
  | false => rw [if_neg (by decide), hset]

theorem flagSet_toggleFlag {flag : Byte} (h : flag &&& m.flag = 0) (s : KeyboardState)
    (released : Bool) : m.FlagSet (toggleFlag s released flag) ↔ m.FlagSet s := by
  obtain ⟨-, -, htoggle⟩ := and_disjoint (f := s.flags) h
  unfold Modifier.FlagSet toggleFlag
  cases released with
  | true => rw [if_pos rfl]
  | false =>
    rw [if_neg (by decide)]
    dsimp only [keyboardUpdateLeds]
    rw [htoggle]

theorem handleKey_of_hasScancode {scancode : Byte} (h : m.HasScancode scancode)
    (s : KeyboardState) (released : Bool) :
    handleKey s released scancode = holdFlag s released m.flag := by
  cases m with
  | shift => exact if_pos h
  | ctrl =>
    obtain rfl : scancode = keyCtrl := h
    rfl
  | alt =>
    obtain rfl : scancode = keyAlt := h
    rfl

theorem flagSet_handleKey_other {scancode : Byte} (h : ¬ m.HasScancode scancode)
    (s : KeyboardState) (released : Bool) :
    m.FlagSet (handleKey s released scancode) ↔ m.FlagSet s := by
  -- The flag of a case belongs to another modifier or to a lock.
  have hother : ∀ m' : Modifier, m'.HasScancode scancode → m'.flag &&& m.flag = 0 := by
    intro m' h'
    have hne : m' ≠ m := fun heq => h (heq ▸ h')
    revert hne
    cases m' <;> cases m <;> decide
  have hlock : ∀ flag ∈ [keyboardFlagCapsLock, keyboardFlagNumLock, keyboardFlagScrollLock],
      flag &&& m.flag = 0 := by
    cases m <;> decide
  unfold handleKey
  split_ifs with hshift hctrl halt hcaps hnum hscroll
  · exact flagSet_holdFlag_other (hother .shift hshift) _ _
  · exact flagSet_holdFlag_other (hother .ctrl hctrl) _ _
  · exact flagSet_holdFlag_other (hother .alt halt) _ _
  · exact flagSet_toggleFlag (hlock _ (by decide)) _ _
  · exact flagSet_toggleFlag (hlock _ (by decide)) _ _
  · exact flagSet_toggleFlag (hlock _ (by decide)) _ _
  · rfl
  · unfold Modifier.FlagSet
    rw [flags_keyboardBufferPut]

/-- The handler drops the release bit and decides by the scancode, prefixed or not. -/
theorem flagSet_keyboardHandler {data : Byte} (hE0 : data ≠ 0xE0) (s : KeyboardState) :
    m.FlagSet (keyboardHandler s data) ↔
      if m.HasScancode (data &&& 0x7F) then data &&& 0x80 = 0 else m.FlagSet s := by
  unfold keyboardHandler
  rw [if_neg hE0]
  show m.FlagSet (handleKey s _ _) ↔ _
  split_ifs with h
  · rw [handleKey_of_hasScancode h, flagSet_holdFlag]
    simp
  · exact flagSet_handleKey_other h _ _

/-! ## §5 Bytes of a key -/

theorem Key.lastByte_and (k : Key) (released : Bool) :
    k.lastByte released &&& 0x7F = k.scancode ∧
      (k.lastByte released &&& 0x80 = 0 ↔ released = false) := by
  have hcode : ∀ c : Byte, c &&& 0x80 = 0 → ∀ r : Bool,
      (if r then c ||| 0x80 else c) &&& 0x7F = c ∧
        ((if r then c ||| 0x80 else c) &&& 0x80 = 0 ↔ r = false) := by
    decide +kernel
  exact hcode k.scancode k.valid.1 released

theorem Key.lastByte_ne (k : Key) (released : Bool) :
    k.lastByte released ≠ 0xE0 ∧ k.lastByte released ≠ 0xE1 := by
  have hscancode := (k.lastByte_and released).1
  constructor
  · intro h
    rw [h] at hscancode
    exact k.valid.2.1 hscancode.symm
  · intro h
    rw [h] at hscancode
    exact k.valid.2.2 hscancode.symm

/-- A code in progress and its last byte tell the key. -/
theorem Key.eq_of_bytes {k k' : Key} {released released' : Bool}
    (hpending : k.prefixBytes = k'.prefixBytes)
    (hlast : k.lastByte released = k'.lastByte released') : k = k' ∧ released = released' := by
  have hscancode : k.scancode = k'.scancode := by
    rw [← (k.lastByte_and released).1, hlast, (k'.lastByte_and released').1]
  have hreleased : released = false ↔ released' = false := by
    rw [← (k.lastByte_and released).2, hlast, (k'.lastByte_and released').2]
  have hextended : k.extended = k'.extended := by
    unfold Key.prefixBytes at hpending
    cases hk : k.extended <;> cases hk' : k'.extended <;> simp_all
  constructor
  · cases k
    cases k'
    cases hscancode
    cases hextended
    rfl
  · cases released <;> cases released' <;> simp_all

/-- Where the bytes received of a code can stop. -/
inductive CodeSplit : KeyCode → List Byte → Byte → List Byte → Prop where
  | lead (k : Key) (released : Bool) (hext : k.extended = true) :
      CodeSplit (.key k released) [] 0xE0 [k.lastByte released]
  | key (k : Key) (released : Bool) :
      CodeSplit (.key k released) k.prefixBytes (k.lastByte released) []
  | pause1 : CodeSplit .pause [] 0xE1 [0x1D, 0x45, 0xE1, 0x9D, 0xC5]
  | pause2 : CodeSplit .pause [0xE1] 0x1D [0x45, 0xE1, 0x9D, 0xC5]
  | pause3 : CodeSplit .pause [0xE1, 0x1D] 0x45 [0xE1, 0x9D, 0xC5]
  | pause4 : CodeSplit .pause [0xE1, 0x1D, 0x45] 0xE1 [0x9D, 0xC5]
  | pause5 : CodeSplit .pause [0xE1, 0x1D, 0x45, 0xE1] 0x9D [0xC5]
  | pause6 : CodeSplit .pause [0xE1, 0x1D, 0x45, 0xE1, 0x9D] 0xC5 []

/-- Either the first byte of a list is the next one, or it was received before. -/
theorem split_cons {a data : Byte} {l pending rest : List Byte}
    (h : a :: l = pending ++ data :: rest) :
    (pending = [] ∧ data = a ∧ rest = l) ∨ ∃ p, pending = a :: p ∧ l = p ++ data :: rest := by
  rcases List.cons_eq_append_iff.mp h with ⟨rfl, hcons⟩ | ⟨p, rfl, hl⟩
  · obtain ⟨rfl, rfl⟩ := List.cons_eq_cons.mp hcons
    exact .inl ⟨rfl, rfl, rfl⟩
  · exact .inr ⟨p, rfl, hl⟩

theorem codeSplit {code : KeyCode} {pending rest : List Byte} {data : Byte}
    (h : code.bytes = pending ++ data :: rest) : CodeSplit code pending data rest := by
  have hend : ∀ p : List Byte, [] ≠ p ++ data :: rest := by simp
  cases code with
  | key k released =>
    have hkey := CodeSplit.key k released
    unfold Key.prefixBytes at hkey
    simp only [KeyCode.bytes, Key.prefixBytes] at h
    split_ifs at h hkey with hext
    · obtain ⟨rfl, rfl, rfl⟩ | ⟨p, rfl, h1⟩ := split_cons h
      · exact .lead k released hext
      obtain ⟨rfl, rfl, rfl⟩ | ⟨p, rfl, h2⟩ := split_cons h1
      · exact hkey
      · exact absurd h2 (hend p)
    · obtain ⟨rfl, rfl, rfl⟩ | ⟨p, rfl, h1⟩ := split_cons h
      · exact hkey
      · exact absurd h1 (hend p)
  | pause =>
    obtain ⟨rfl, rfl, rfl⟩ | ⟨p, rfl, h1⟩ := split_cons h
    · exact .pause1
    obtain ⟨rfl, rfl, rfl⟩ | ⟨p, rfl, h2⟩ := split_cons h1
    · exact .pause2
    obtain ⟨rfl, rfl, rfl⟩ | ⟨p, rfl, h3⟩ := split_cons h2
    · exact .pause3
    obtain ⟨rfl, rfl, rfl⟩ | ⟨p, rfl, h4⟩ := split_cons h3
    · exact .pause4
    obtain ⟨rfl, rfl, rfl⟩ | ⟨p, rfl, h5⟩ := split_cons h4
    · exact .pause5
    obtain ⟨rfl, rfl, rfl⟩ | ⟨p, rfl, h6⟩ := split_cons h5
    · exact .pause6
    · exact absurd h6 (hend p)

/-! ## §6 One byte -/

theorem held_make {k : Key} {received : List KeyCode} :
    m.Held (.key k false :: received) ↔ m.HasKey k ∨ m.Held received := by
  constructor
  · rintro ⟨k', hkey, rfl | hdown⟩
    · exact .inl hkey
    · exact .inr ⟨k', hkey, hdown⟩
  · rintro (hkey | ⟨k', hkey, hdown⟩)
    · exact ⟨k, hkey, .inl rfl⟩
    · exact ⟨k', hkey, .inr hdown⟩

theorem held_release {k : Key} {received : List KeyCode} :
    m.Held (.key k true :: received) ↔ ∃ k', m.HasKey k' ∧ k' ≠ k ∧ Down received k' := Iff.rfl

/-- A byte after which the same modifiers are held. -/
theorem flagsTell_same {received received' : List KeyCode} {pending pending' : List Byte}
    {data : Byte} (h : FlagsTell ⟨s, received, pending⟩) (hE0 : data ≠ 0xE0)
    (hheld : ∀ m : Modifier, m.Held received' ↔ m.Held received) :
    FlagsTell ⟨keyboardHandler s data, received', pending'⟩ ↔
      ∀ m : Modifier, m.HasScancode (data &&& 0x7F) → (data &&& 0x80 = 0 ↔ m.Held received) := by
  refine forall_congr' fun m => ?_
  have hm : m.FlagSet s ↔ m.Held received := h m
  dsimp only
  rw [flagSet_keyboardHandler hE0, hheld m]
  split_ifs with hscancode
  · exact ⟨fun hiff _ => hiff, fun hiff => hiff hscancode⟩
  · exact ⟨fun _ hhas => absurd hhas hscancode, fun _ => hm⟩

theorem flagsTell_make {received : List KeyCode} {pending pending' : List Byte} {k : Key}
    (h : FlagsTell ⟨s, received, pending⟩) :
    FlagsTell ⟨keyboardHandler s (k.lastByte false), .key k false :: received, pending'⟩ ↔
      ∀ m : Modifier, m.HasScancode k.scancode → ¬ m.HasKey k → m.Held received := by
  obtain ⟨hscancode, hbit⟩ := k.lastByte_and false
  refine forall_congr' fun m => ?_
  have hm : m.FlagSet s ↔ m.Held received := h m
  dsimp only
  rw [flagSet_keyboardHandler (k.lastByte_ne false).1, hscancode, held_make]
  split_ifs with hhas
  · have hset := hbit.mpr rfl
    tauto
  · have hkey : ¬ m.HasKey k := fun hkey => hhas hkey.1
    tauto

theorem flagsTell_release {received : List KeyCode} {pending pending' : List Byte} {k : Key}
    (h : FlagsTell ⟨s, received, pending⟩) :
    FlagsTell ⟨keyboardHandler s (k.lastByte true), .key k true :: received, pending'⟩ ↔
      ∀ m : Modifier, m.HasScancode k.scancode →
        ∀ k' : Key, m.HasKey k' → Down received k' → k' = k := by
  obtain ⟨hscancode, hbit⟩ := k.lastByte_and true
  refine forall_congr' fun m => ?_
  have hm : m.FlagSet s ↔ m.Held received := h m
  dsimp only
  rw [flagSet_keyboardHandler (k.lastByte_ne true).1, hscancode, held_release]
  split_ifs with hhas
  · have hclear : ¬ k.lastByte true &&& 0x80 = 0 := fun h0 => Bool.noConfusion (hbit.mp h0)
    constructor
    · intro hiff _ k' hkey hdown
      by_contra hne
      exact hclear (hiff.mpr ⟨k', hkey, hne, hdown⟩)
    · intro honly
      refine ⟨fun h0 => absurd h0 hclear, ?_⟩
      rintro ⟨k', hkey, hne, hdown⟩
      exact absurd (honly hhas k' hkey hdown) hne
  · -- The key is none of the modifier, so the same keys of the modifier are held.
    refine ⟨fun _ hhas' => absurd hhas' hhas, fun _ => hm.trans ?_⟩
    constructor
    · rintro ⟨k', hkey, hdown⟩
      exact ⟨k', hkey, fun heq => hhas (heq ▸ hkey.1), hdown⟩
    · rintro ⟨k', hkey, -, hdown⟩
      exact ⟨k', hkey, hdown⟩

/-! ## §7 The condition on a byte -/

theorem Key.prefixBytes_cases (k : Key) : k.prefixBytes = [] ∨ k.prefixBytes = [0xE0] := by
  unfold Key.prefixBytes
  split_ifs
  · exact .inr rfl
  · exact .inl rfl

/-- A byte that does not complete the code of a key. -/
theorem byteOk_of_no_key {y : KeyboardLine} {data : Byte}
    (hnone : ∀ (k : Key) (released : Bool), y.pending = k.prefixBytes → data ≠ k.lastByte released) :
    ByteOk y data ↔ (y.pending = [0xE1] → Modifier.ctrl.Held y.received) ∧
      (y.pending = [0xE1, 0x1D, 0x45, 0xE1] → ¬ Modifier.ctrl.Held y.received) := by
  constructor
  · exact fun h => ⟨h.pauseMake, h.pauseRelease⟩
  · rintro ⟨hmake, hrelease⟩
    exact ⟨fun k hpending hdata => absurd hdata (hnone k false hpending),
      fun k hpending hdata => absurd hdata (hnone k true hpending), hmake, hrelease⟩

/-- A byte of Pause: after the first one the bytes received are those of no key. -/
theorem no_key_of_pause {p : List Byte} {data : Byte} (k : Key) (released : Bool) :
    0xE1 :: p = k.prefixBytes → data ≠ k.lastByte released := by
  intro hpending
  rcases k.prefixBytes_cases with hk | hk <;> rw [hk] at hpending <;> simp at hpending

theorem byteOk_make {received : List KeyCode} {k : Key} :
    ByteOk ⟨s, received, k.prefixBytes⟩ (k.lastByte false) ↔
      ∀ m : Modifier, m.HasScancode k.scancode → ¬ m.HasKey k → m.Held received := by
  constructor
  · exact fun h => h.make k rfl rfl
  · intro hmake
    refine ⟨fun k' hpending hdata => ?_, fun k' hpending hdata => ?_, fun hpause => ?_,
      fun hpause => ?_⟩
    · obtain ⟨rfl, -⟩ := Key.eq_of_bytes hpending hdata
      exact hmake
    · obtain ⟨-, hreleased⟩ := Key.eq_of_bytes hpending hdata
      cases hreleased
    · rcases k.prefixBytes_cases with hk | hk <;> simp [hk] at hpause
    · rcases k.prefixBytes_cases with hk | hk <;> simp [hk] at hpause

theorem byteOk_release {received : List KeyCode} {k : Key} :
    ByteOk ⟨s, received, k.prefixBytes⟩ (k.lastByte true) ↔
      ∀ m : Modifier, m.HasScancode k.scancode →
        ∀ k' : Key, m.HasKey k' → Down received k' → k' = k := by
  constructor
  · exact fun h => h.release k rfl rfl
  · intro hrelease
    refine ⟨fun k' hpending hdata => ?_, fun k' hpending hdata => ?_, fun hpause => ?_,
      fun hpause => ?_⟩
    · obtain ⟨-, hreleased⟩ := Key.eq_of_bytes hpending hdata
      cases hreleased
    · obtain ⟨rfl, -⟩ := Key.eq_of_bytes hpending hdata
      exact hrelease
    · rcases k.prefixBytes_cases with hk | hk <;> simp [hk] at hpause
    · rcases k.prefixBytes_cases with hk | hk <;> simp [hk] at hpause

/-- A byte without a case in the handler changes neither flags nor keys. -/
theorem flagsTell_silent {received received' : List KeyCode} {pending pending' : List Byte}
    {data : Byte} (h : FlagsTell ⟨s, received, pending⟩) (hE0 : data ≠ 0xE0)
    (hheld : ∀ m : Modifier, m.Held received' ↔ m.Held received)
    (hsilent : ∀ m : Modifier, ¬ m.HasScancode (data &&& 0x7F))
    (hnone : ∀ (k : Key) (released : Bool), pending = k.prefixBytes → data ≠ k.lastByte released)
    (h1 : pending ≠ [0xE1]) (h4 : pending ≠ [0xE1, 0x1D, 0x45, 0xE1]) :
    FlagsTell ⟨keyboardHandler s data, received', pending'⟩ ↔
      ByteOk ⟨s, received, pending⟩ data := by
  have htell : FlagsTell ⟨keyboardHandler s data, received', pending'⟩ :=
    (flagsTell_same h hE0 hheld).mpr fun m hm => absurd hm (hsilent m)
  have hok := (byteOk_of_no_key (y := ⟨s, received, pending⟩) hnone).mpr
    ⟨fun h0 => absurd h0 h1, fun h0 => absurd h0 h4⟩
  exact ⟨fun _ => hok, fun _ => htell⟩

theorem silent_E1 (m : Modifier) : ¬ m.HasScancode (0xE1 &&& 0x7F) := by
  cases m <;> decide

/-- Num Lock, pressed or released. -/
theorem silent_45 (m : Modifier) : ¬ m.HasScancode 0x45 := by
  cases m <;> decide

/-- Pause presses Ctrl as far as the handler goes. -/
theorem flagsTell_pauseMake {received : List KeyCode} {pending pending' : List Byte}
    (h : FlagsTell ⟨s, received, pending⟩) :
    FlagsTell ⟨keyboardHandler s 0x1D, received, pending'⟩ ↔ Modifier.ctrl.Held received := by
  have honly : ∀ m : Modifier, m.HasScancode (0x1D &&& 0x7F) → m = .ctrl := by
    intro m
    cases m <;> decide
  rw [flagsTell_same h (by decide) fun _ => Iff.rfl]
  constructor
  · exact fun hall => (hall .ctrl rfl).mp rfl
  · intro hheld m hm
    obtain rfl := honly m hm
    exact ⟨fun _ => hheld, fun _ => rfl⟩

theorem flagsTell_pauseRelease {received : List KeyCode} {pending pending' : List Byte}
    (h : FlagsTell ⟨s, received, pending⟩) :
    FlagsTell ⟨keyboardHandler s 0x9D, received, pending'⟩ ↔ ¬ Modifier.ctrl.Held received := by
  have honly : ∀ m : Modifier, m.HasScancode (0x9D &&& 0x7F) → m = .ctrl := by
    intro m
    cases m <;> decide
  have hreleased : ¬ (0x9D : Byte) &&& 0x80 = 0 := by decide
  rw [flagsTell_same h (by decide) fun _ => Iff.rfl]
  constructor
  · exact fun hall hheld => hreleased ((hall .ctrl rfl).mpr hheld)
  · intro hnot m hm
    obtain rfl := honly m hm
    exact ⟨fun h0 => absurd h0 hreleased, fun hheld => absurd hheld hnot⟩

/-- A byte keeps the flags right exactly when it meets the condition. -/
theorem flagsTell_step {y y' : KeyboardLine} {data : Byte} (h : FlagsTell y)
    (hstep : ReceiveByte y data y') : FlagsTell y' ↔ ByteOk y data := by
  cases hstep with
  | @more s received pending rest data code hbytes hrest =>
    cases codeSplit hbytes with
    | lead k released hext =>
      -- The prefix byte only sets `extended_scancode`.
      have hnone : ∀ (k : Key) (released : Bool), [] = k.prefixBytes → 0xE0 ≠ k.lastByte released :=
        fun k released _ => (k.lastByte_ne released).1.symm
      have hok := (byteOk_of_no_key (y := ⟨s, received, []⟩) hnone).mpr
        ⟨fun h0 => absurd h0 (by simp), fun h0 => absurd h0 (by simp)⟩
      exact ⟨fun _ => hok, fun _ => h⟩
    | key k released => exact absurd rfl hrest
    | pause1 =>
      exact flagsTell_silent h (by decide) (fun _ => Iff.rfl) silent_E1
        (fun k released _ => (k.lastByte_ne released).2.symm) (by decide) (by decide)
    | pause2 =>
      rw [flagsTell_pauseMake h, byteOk_of_no_key no_key_of_pause]
      simp
    | pause3 =>
      exact flagsTell_silent h (by decide) (fun _ => Iff.rfl) silent_45 no_key_of_pause
        (by decide) (by decide)
    | pause4 =>
      exact flagsTell_silent h (by decide) (fun _ => Iff.rfl) silent_E1 no_key_of_pause
        (by decide) (by decide)
    | pause5 =>
      rw [flagsTell_pauseRelease h, byteOk_of_no_key no_key_of_pause]
      simp
    | pause6 => exact absurd rfl hrest
  | @last s received pending data code hbytes =>
    cases codeSplit hbytes with
    | key k released =>
      cases released with
      | false => exact (flagsTell_make h).trans byteOk_make.symm
      | true => exact (flagsTell_release h).trans byteOk_release.symm
    | pause6 =>
      exact flagsTell_silent h (by decide) (fun _ => Iff.rfl) silent_45 no_key_of_pause
        (by decide) (by decide)

/-! ## §8 Streams -/

theorem flagsTell_start {y : KeyboardLine} (h : LineStart y) : FlagsTell y := by
  obtain ⟨s, rfl⟩ := h
  intro m
  refine ⟨fun hset => absurd ?_ hset, ?_⟩
  · exact BitVec.zero_and
  · rintro ⟨k, -, hdown⟩
    exact hdown.elim

/-- In every stream, after each byte the modifier flags tell which keys are held exactly when
each byte comes while the keys are such that the handler does right by it. -/
theorem modifierFlags_iff {tr : List (KeyboardLine × Byte)} {y : KeyboardLine}
    (hrun : Run LineStart ReceiveByte tr y) :
    (∀ z ∈ Run.states tr y, FlagsTell z) ↔ ∀ q ∈ tr, ByteOk q.1 q.2 :=
  hrun.forall_states_iff FlagsTell ByteOk (fun _ => flagsTell_start) fun _ _ _ => flagsTell_step

theorem lineStart_powerOn : LineStart ⟨keyboardInit powerOnKeyboard, [], []⟩ :=
  ⟨powerOnKeyboard, rfl⟩

def leftShift : Key := ⟨false, keyShiftL, by decide⟩

def rightShift : Key := ⟨false, keyShiftR, by decide⟩

/-- With one key down its flag is set. -/
theorem modifierFlags_iff_leftShift :
    FlagsTell ⟨keyboardHandler (keyboardInit powerOnKeyboard) 0x2A, [.key leftShift false], []⟩ := by
  have hstep : ReceiveByte ⟨keyboardInit powerOnKeyboard, [], []⟩ 0x2A _ :=
    .last (.key leftShift false) rfl
  have hok : ByteOk ⟨keyboardInit powerOnKeyboard, [], []⟩ 0x2A :=
    (byteOk_make (k := leftShift)).mpr fun _ hscancode hnot => absurd ⟨hscancode, fun _ => rfl⟩ hnot
  have hrun := Run.snoc (.start lineStart_powerOn) hstep
  exact (modifierFlags_iff hrun).mpr (List.forall_mem_singleton.mpr hok) _ List.mem_cons_self

/-- Both shift keys go down and one of them up: the flag says that none is down. -/
theorem not_forall_modifierFlags : ¬ ∀ (tr : List (KeyboardLine × Byte)) (y : KeyboardLine),
    Run LineStart ReceiveByte tr y → ∀ z ∈ Run.states tr y, FlagsTell z := by
  intro hall
  have hleft : ReceiveByte ⟨keyboardInit powerOnKeyboard, [], []⟩ 0x2A _ :=
    .last (.key leftShift false) rfl
  have hright : ReceiveByte ⟨keyboardHandler (keyboardInit powerOnKeyboard) 0x2A,
      [.key leftShift false], []⟩ 0x36 _ :=
    .last (.key rightShift false) rfl
  have hup : ReceiveByte ⟨keyboardHandler (keyboardHandler (keyboardInit powerOnKeyboard) 0x2A) 0x36,
      [.key rightShift false, .key leftShift false], []⟩ 0xAA _ :=
    .last (.key leftShift true) rfl
  have hrun := Run.snoc (.snoc (.snoc (.start lineStart_powerOn) hleft) hright) hup
  have htell := hall _ _ hrun _ List.mem_cons_self .shift
  have hheld : Modifier.shift.Held
      [.key leftShift true, .key rightShift false, .key leftShift false] :=
    ⟨rightShift, ⟨.inr rfl, fun _ => rfl⟩, by decide, .inl rfl⟩
  exact absurd rfl (htell.mpr hheld)

end KyroKernel
