import KyroKernel.Drivers.KeyboardRing

/-!
# What is typed and when it is read

The handler keeps the modifiers in `flags` and the keys in the ring; `keyboard_get_char` puts
the two together when a key is read. A key that is read after the modifiers have changed
gets the character of the modifiers at the reading.
-/

namespace KyroKernel

open Foundations

/-! ## §1 Interleavings of the handler and the reader -/

/-- An interrupt with the byte it reads, or a call of `keyboard_get_char`. -/
inductive TypingStep where
  | handler (data : Byte)
  | getChar

/-- The bytes the handler reads in a sequence of steps. -/
def scancodeStream : List TypingStep → List Byte
  | [] => []
  | .handler data :: r => data :: scancodeStream r
  | .getChar :: r => scancodeStream r

/-- The keyboard state after a sequence of steps. -/
def afterTyping (s : KeyboardState) : List TypingStep → KeyboardState
  | [] => s
  | .handler data :: r => afterTyping (keyboardHandler s data) r
  | .getChar :: r => afterTyping (keyboardGetChar s).2 r

/-- A character that is delivered: 0 stands for none. -/
def nonZero (c : Byte) : List Byte := if c = 0 then [] else [c]

/-- The non-zero characters that the calls of `keyboard_get_char` return. -/
def delivered (s : KeyboardState) : List TypingStep → List Byte
  | [] => []
  | .handler data :: r => delivered (keyboardHandler s data) r
  | .getChar :: r =>
    let (c, s) := keyboardGetChar s
    nonZero c ++ delivered s r

/-- No key is pressed while the ring is full. -/
def NothingDropped (s : KeyboardState) : List TypingStep → Prop
  | [] => True
  | .handler data :: r =>
    (pressedKey data ≠ none → keyboardBufferFull s = false) ∧
      NothingDropped (keyboardHandler s data) r
  | .getChar :: r => NothingDropped (keyboardGetChar s).2 r

/-- A sequence of steps that handles `stream` in order, drops nothing and drains the ring. -/
structure Interleaving (s : KeyboardState) (stream : List Byte) (r : List TypingStep) : Prop where
  stream_eq : scancodeStream r = stream
  kept : NothingDropped s r
  drained : keyboardBufferEmpty (afterTyping s r) = true

/-! ## §2 Modifiers -/

/-- The flags the handler leaves. -/
def handlerFlags (flags data : Byte) : Byte :=
  (keyboardHandler { powerOnKeyboard with flags := flags } data).flags

/-- The flags after `stream`, from `keyboard_init` on. -/
def flagsAfter (stream : List Byte) : Byte := stream.foldl handlerFlags 0

/-- The regular keys pressed in `stream`. -/
def pressedKeys (stream : List Byte) : List Byte := stream.filterMap pressedKey

/-- The scancode of a letter. -/
def isLetterKey (scancode : Byte) : Bool :=
  97 ≤ scancodeTable.getD scancode.toNat 0 ∧ scancodeTable.getD scancode.toNat 0 ≤ 122

/-- A key with a character of its own under Shift. -/
def hasTwoChars (scancode : Byte) : Bool :=
  scancodeTable.getD scancode.toNat 0 ≠ scancodeTableShift.getD scancode.toNat 0

/-- A key counts as shifted under Shift, a letter also under Caps Lock. -/
def shifted (flags scancode : Byte) : Bool :=
  flags &&& keyboardFlagShift ≠ 0 ∨
    (isLetterKey scancode ∧ flags &&& keyboardFlagCapsLock ≠ 0)

/-- No modifier that matters to a key changes after the key is pressed, as far as the stream
goes before 256 more keys are pressed. -/
def StableKeys (stream : List Byte) : Prop :=
  ∀ pre data mid post scancode, stream = pre ++ data :: (mid ++ post) →
    pressedKey data = some scancode → hasTwoChars scancode = true →
    (pressedKeys mid).length < 256 →
    shifted (flagsAfter (pre ++ data :: mid)) scancode = shifted (flagsAfter pre) scancode

/-- A regular key has one of the scancodes of the tables. -/
theorem toNat_pressedKey {data scancode : Byte} (h : pressedKey data = some scancode) :
    scancode.toNat < 128 := by
  unfold pressedKey at h
  split at h
  · cases h
  · -- The release bit is masked out.
    obtain rfl := Option.some.inj h
    rw [BitVec.toNat_and]
    exact Nat.lt_of_le_of_lt Nat.and_le_right (by decide)

/-- `keyboard_get_char` picks the character from the table that `shifted` names. -/
theorem keyChar_eq {flags scancode : Byte} (h : scancode.toNat < 128) :
    keyChar flags scancode =
      if shifted flags scancode then scancodeTableShift.getD scancode.toNat 0
      else scancodeTable.getD scancode.toNat 0 := by
  -- All keys under all four settings of the two modifiers.
  have htable : ∀ n < 128, ∀ shiftPressed capsLock : Bool,
      (let c := scancodeToAscii (BitVec.ofNat 8 n) shiftPressed
       if c ≥ 97 ∧ c ≤ 122 ∧ capsLock then c - 97 + 65
       else if c ≥ 65 ∧ c ≤ 90 ∧ capsLock ∧ ¬ shiftPressed then c - 65 + 97
       else c) =
      if shiftPressed ∨ (isLetterKey (BitVec.ofNat 8 n) ∧ capsLock) then
        scancodeTableShift.getD (BitVec.ofNat 8 n).toNat 0
      else scancodeTable.getD (BitVec.ofNat 8 n).toNat 0 := by
    decide +kernel
  have hkey := htable scancode.toNat h (flags &&& keyboardFlagShift ≠ 0)
    (flags &&& keyboardFlagCapsLock ≠ 0)
  rw [BitVec.ofNat_toNat, BitVec.setWidth_eq] at hkey
  simpa only [keyChar, shifted, decide_eq_true_eq] using hkey

/-- A key has no character with Shift exactly if it has none without. -/
theorem scancodeTable_zero_iff {n : Nat} (h : n < 128) :
    scancodeTable.getD n 0 = 0 ↔ scancodeTableShift.getD n 0 = 0 := by
  have htable : ∀ n < 128,
      (scancodeTable.getD n 0 = 0 ↔ scancodeTableShift.getD n 0 = 0) := by
    decide +kernel
  exact htable n h

/-- Whether a key types a character at all does not depend on the modifiers. -/
theorem keyChar_zero_iff {scancode : Byte} (h : scancode.toNat < 128) (flags flags' : Byte) :
    keyChar flags scancode = 0 ↔ keyChar flags' scancode = 0 := by
  have hzero := scancodeTable_zero_iff h
  rw [keyChar_eq h, keyChar_eq h]
  -- Each of the two settings picks one of the two tables.
  split <;> split
  · exact Iff.rfl
  · exact hzero.symm
  · exact hzero
  · exact Iff.rfl

/-- Two settings of the modifiers give a key the same character exactly when it has only one,
or is shifted under both or neither. -/
theorem keyChar_eq_iff {scancode : Byte} (h : scancode.toNat < 128) (flags flags' : Byte) :
    keyChar flags scancode = keyChar flags' scancode ↔
      (hasTwoChars scancode = true → shifted flags scancode = shifted flags' scancode) := by
  rw [keyChar_eq h, keyChar_eq h, hasTwoChars, decide_eq_true_eq]
  cases shifted flags scancode <;> cases shifted flags' scancode
  · simp
  · simp
  · simp [eq_comm]
  · simp

/-- Putting a key keeps the flags. -/
theorem flags_keyboardBufferPut (s : KeyboardState) (scancode : Byte) :
    (keyboardBufferPut s scancode).flags = s.flags := by
  unfold keyboardBufferPut
  split <;> rfl

/-- The new flags depend on the old flags and the key only. -/
theorem flags_handleKey {s s' : KeyboardState} (h : s.flags = s'.flags) (released : Bool)
    (scancode : Byte) :
    (handleKey s released scancode).flags = (handleKey s' released scancode).flags := by
  have hhold : ∀ flag, (holdFlag s released flag).flags = (holdFlag s' released flag).flags := by
    intro flag
    cases released <;> simp [holdFlag, h]
  have htoggle : ∀ flag,
      (toggleFlag s released flag).flags = (toggleFlag s' released flag).flags := by
    intro flag
    cases released <;> simp [toggleFlag, keyboardUpdateLeds, h]
  unfold handleKey
  split_ifs
  -- Shift, Ctrl and Alt are held, the locks toggle, any other key is put into the ring.
  · exact hhold _
  · exact hhold _
  · exact hhold _
  · exact htoggle _
  · exact htoggle _
  · exact htoggle _
  · exact h
  · rw [flags_keyboardBufferPut, flags_keyboardBufferPut, h]

theorem flags_keyboardHandler (s : KeyboardState) (data : Byte) :
    (keyboardHandler s data).flags = handlerFlags s.flags data := by
  unfold handlerFlags keyboardHandler
  by_cases hE0 : data = 0xE0
  · -- The prefix byte only sets `extended_scancode`.
    rw [if_pos hE0, if_pos hE0]
  · rw [if_neg hE0, if_neg hE0]
    have h : s.flags = ({ powerOnKeyboard with flags := s.flags } : KeyboardState).flags := rfl
    exact flags_handleKey h _ _

/-- A regular key leaves the flags alone. -/
theorem handlerFlags_of_pressed {flags data scancode : Byte} (h : pressedKey data = some scancode) :
    handlerFlags flags data = flags := by
  unfold handlerFlags
  rw [keyboardHandler_of_pressed h]
  exact flags_keyboardBufferPut _ _

/-! ## §3 The keyboard as flags and a queue

The ring is a queue of keys, so a sequence of steps can be followed on the flags and that
queue alone. -/

/-- The characters delivered from the flags and the queue of pressed keys. -/
def queueDelivered (flags : Byte) (q : List Byte) : List TypingStep → List Byte
  | [] => []
  | .handler data :: r =>
    queueDelivered (handlerFlags flags data) (q ++ (pressedKey data).toList) r
  | .getChar :: r =>
    match q with
    | [] => queueDelivered flags [] r
    | scancode :: q => nonZero (keyChar flags scancode) ++ queueDelivered flags q r

/-- The keys left in the queue. -/
def queueAfter (q : List Byte) : List TypingStep → List Byte
  | [] => q
  | .handler data :: r => queueAfter (q ++ (pressedKey data).toList) r
  | .getChar :: r => queueAfter q.tail r

/-- No key is pressed while the queue has 256. -/
def QueueKept (q : List Byte) : List TypingStep → Prop
  | [] => True
  | .handler data :: r =>
    (pressedKey data ≠ none → q.length < 256) ∧ QueueKept (q ++ (pressedKey data).toList) r
  | .getChar :: r => QueueKept q.tail r

variable {s : KeyboardState} {q : List Byte} {flags data scancode : Byte}

theorem HoldsQueue.full_iff (h : HoldsQueue s 0 q) :
    keyboardBufferFull s = false ↔ q.length < 256 := by
  have hcount := h.count
  have hsize : keyboardBufferSize = 256 := rfl
  rw [keyboardBufferFull, decide_eq_false_iff_not, hsize]
  omega

theorem HoldsQueue.empty_iff (h : HoldsQueue s 0 q) : keyboardBufferEmpty s = true ↔ q = [] := by
  have hcount := h.count
  rw [← List.length_eq_zero_iff]
  simp only [keyboardBufferEmpty, beq_iff_eq]
  omega

/-- An interrupt that drops nothing queues the key it presses. -/
theorem HoldsQueue.handler_kept (h : HoldsQueue s 0 q)
    (hkept : pressedKey data ≠ none → q.length < 256) :
    HoldsQueue (keyboardHandler s data) 0 (q ++ (pressedKey data).toList) := by
  have hnew := h.handler data
  unfold acceptedScancodes at hnew
  cases hkey : pressedKey data with
  | none => simpa [hkey] using hnew
  | some scancode =>
    have hlt : s.bufferCount < keyboardBufferSize := by
      have := hkept (by simp [hkey])
      have := h.count
      simp only [keyboardBufferSize]
      omega
    simpa [hkey, hlt] using hnew

/-- Reading an empty queue. -/
theorem HoldsQueue.getChar_nil (h : HoldsQueue s 0 []) : keyboardGetChar s = (0, s) := by
  unfold keyboardGetChar
  rw [if_pos (h.empty_iff.mpr rfl)]

/-- Reading a key. -/
theorem HoldsQueue.getChar_cons (h : HoldsQueue s 0 (scancode :: q)) :
    (keyboardGetChar s).1 = keyChar s.flags scancode ∧
      (keyboardGetChar s).2.flags = s.flags ∧ HoldsQueue (keyboardGetChar s).2 0 q := by
  have hempty : ¬ keyboardBufferEmpty s = true := by
    rw [h.empty_iff]
    exact List.cons_ne_nil _ _
  have hpos : s.bufferCount > 0 := h.count_pos_iff.mpr (List.cons_ne_nil _ _)
  have hfront := h.cells.front h.tail_nonneg h.tail_lt
  have hget : keyboardGetChar s =
      (keyChar s.flags scancode,
        { s with
          bufferTail := (s.bufferTail + 1).tmod keyboardBufferSize
          bufferCount := s.bufferCount - 1 }) := by
    simp only [keyboardGetChar, if_neg hempty, keyboardBufferGet, if_pos hpos, hfront]
  rw [hget]
  exact ⟨rfl, rfl, h.advance.decrement⟩

/-- The keyboard delivers what the flags and the queue deliver. -/
theorem delivered_eq (r : List TypingStep) (h : HoldsQueue s 0 q) (hkept : QueueKept q r) :
    delivered s r = queueDelivered s.flags q r := by
  -- The ring holds the queue before every step.
  induction r generalizing s q with
  | nil => rfl
  | cons i r ih =>
    cases i with
    | handler data =>
      obtain ⟨hfits, hrest⟩ := hkept
      rw [delivered, queueDelivered, ih (h.handler_kept hfits) hrest, flags_keyboardHandler]
    | getChar =>
      cases q with
      | nil =>
        -- Nothing is read, and the state stays.
        have hget := h.getChar_nil
        simp only [delivered, hget, queueDelivered, nonZero, if_pos, List.nil_append]
        exact ih h hkept
      | cons scancode q =>
        obtain ⟨hchar, hflags, hholds⟩ := h.getChar_cons
        simp only [delivered, queueDelivered, hchar]
        rw [ih hholds hkept, hflags]

/-- The keyboard drops a key exactly when the queue overflows. -/
theorem nothingDropped_iff (r : List TypingStep) (h : HoldsQueue s 0 q) :
    NothingDropped s r ↔ QueueKept q r := by
  induction r generalizing s q with
  | nil => exact Iff.rfl
  | cons i r ih =>
    cases i with
    | handler data =>
      rw [NothingDropped, QueueKept, h.full_iff]
      -- With the key queued, both go on from the same queue.
      refine and_congr_right fun hfits => ih (h.handler_kept hfits)
    | getChar =>
      rw [NothingDropped, QueueKept]
      cases q with
      | nil =>
        -- Reading an empty ring changes nothing.
        rw [h.getChar_nil]
        exact ih h
      | cons scancode q => exact ih h.getChar_cons.2.2

/-- What is left in the ring at the end. -/
theorem HoldsQueue.afterTyping (r : List TypingStep) (h : HoldsQueue s 0 q)
    (hkept : QueueKept q r) : HoldsQueue (afterTyping s r) 0 (queueAfter q r) := by
  induction r generalizing s q with
  | nil => exact h
  | cons i r ih =>
    cases i with
    | handler data =>
      obtain ⟨hfits, hrest⟩ := hkept
      exact ih (h.handler_kept hfits) hrest
    | getChar =>
      cases q with
      | nil =>
        rw [KyroKernel.afterTyping, h.getChar_nil]
        exact ih h hkept
      | cons scancode q => exact ih h.getChar_cons.2.2 hkept

/-- An interleaving, on the queue. -/
theorem interleaving_iff (s : KeyboardState) (stream : List Byte) (r : List TypingStep) :
    Interleaving (keyboardInit s) stream r ↔
      scancodeStream r = stream ∧ QueueKept [] r ∧ queueAfter [] r = [] := by
  have hinit := holdsQueue_keyboardInit s
  constructor
  · rintro ⟨hstream, hkept, hdrained⟩
    have hqueue := (nothingDropped_iff r hinit).mp hkept
    exact ⟨hstream, hqueue, (hinit.afterTyping r hqueue).empty_iff.mp hdrained⟩
  · rintro ⟨hstream, hqueue, hempty⟩
    exact ⟨hstream, (nothingDropped_iff r hinit).mpr hqueue,
      (hinit.afterTyping r hqueue).empty_iff.mpr hempty⟩

/-! ## §4 Stable keys are enough -/

/-- The keys pressed in `stream`, each with the character it has when it is pressed. -/
def presses (flags : Byte) : List Byte → List (Byte × Byte)
  | [] => []
  | data :: stream =>
    (pressedKey data).toList.map (fun scancode => (scancode, keyChar flags scancode)) ++
      presses (handlerFlags flags data) stream

/-- The characters typed: those of the keys when they were pressed. -/
def typed (keys : List (Byte × Byte)) : List Byte := keys.flatMap fun key => nonZero key.2

theorem presses_append (flags : Byte) (pre post : List Byte) :
    presses flags (pre ++ post) =
      presses flags pre ++ presses (pre.foldl handlerFlags flags) post := by
  induction pre generalizing flags with
  | nil => rfl
  | cons data pre ih => simp only [List.cons_append, presses, ih, List.foldl_cons, List.append_assoc]

theorem presses_keys (flags : Byte) (stream : List Byte) :
    (presses flags stream).map Prod.fst = pressedKeys stream := by
  induction stream generalizing flags with
  | nil => rfl
  | cons data stream ih =>
    unfold pressedKeys at ih ⊢
    cases hkey : pressedKey data <;> simp [presses, hkey, ih]

/-- The stream up to one of its presses. -/
theorem exists_press {flags c : Byte} {stream : List Byte} {before after : List (Byte × Byte)}
    (h : presses flags stream = before ++ (scancode, c) :: after) :
    ∃ pre data mid, stream = pre ++ data :: mid ∧ pressedKey data = some scancode ∧
      c = keyChar (pre.foldl handlerFlags flags) scancode ∧
      (pressedKeys mid).length = after.length := by
  induction stream generalizing flags before with
  | nil => simp [presses] at h
  | cons data stream ih =>
    cases hkey : pressedKey data with
    | none =>
      -- Not a press: look further.
      simp only [presses, hkey, Option.toList_none, List.map_nil, List.nil_append] at h
      obtain ⟨pre, data', mid, rfl, hdata, hc, hlen⟩ := ih h
      exact ⟨data :: pre, data', mid, rfl, hdata, hc, hlen⟩
    | some key =>
      simp only [presses, hkey, Option.toList_some, List.map_cons, List.map_nil,
        List.singleton_append] at h
      cases before with
      | nil =>
        -- This is the press.
        obtain ⟨hpair, hafter⟩ := List.cons.inj h
        obtain ⟨rfl, rfl⟩ := Prod.mk.inj hpair
        refine ⟨[], data, stream, rfl, hkey, rfl, ?_⟩
        rw [← hafter, ← presses_keys, List.length_map]
      | cons p before =>
        -- A press before it.
        obtain ⟨-, hrest⟩ := List.cons.inj h
        obtain ⟨pre, data', mid, rfl, hdata, hc, hlen⟩ := ih hrest
        exact ⟨data :: pre, data', mid, rfl, hdata, hc, hlen⟩

theorem flagsAfter_append (pre post : List Byte) :
    flagsAfter (pre ++ post) = post.foldl handlerFlags (flagsAfter pre) := List.foldl_append

/-- When keys are stable, a queue of keys pressed in `pre` still delivers the characters it
had when they were pressed, whatever is read when. -/
theorem queueDelivered_of_stable {stream : List Byte} (hstable : StableKeys stream)
    (r : List TypingStep) (pre : List Byte) (before pending : List (Byte × Byte))
    (hstream : stream = pre ++ scancodeStream r)
    (hpending : presses 0 pre = before ++ pending) (hlen : pending.length ≤ 256)
    (hkept : QueueKept (pending.map Prod.fst) r)
    (hdrained : queueAfter (pending.map Prod.fst) r = []) :
    queueDelivered (flagsAfter pre) (pending.map Prod.fst) r =
      typed (pending ++ presses (flagsAfter pre) (scancodeStream r)) := by
  -- Over the steps left: `pre` has been handled, `before` was read, `pending` is in the queue.
  induction r generalizing pre before pending with
  | nil =>
    -- The queue is drained at the end.
    have hnil : pending = [] := List.map_eq_nil_iff.mp hdrained
    subst hnil
    rfl
  | cons i r ih =>
    cases i with
    | handler data =>
      -- The key joins the queue with the character it has now.
      obtain ⟨hfits, hrest⟩ := hkept
      have hflags : flagsAfter (pre ++ [data]) = handlerFlags (flagsAfter pre) data :=
        flagsAfter_append _ _
      have hkeys : (pending ++ presses (flagsAfter pre) [data]).map Prod.fst =
          pending.map Prod.fst ++ (pressedKey data).toList := by
        rw [List.map_append, presses_keys]
        cases hkey : pressedKey data <;> simp [pressedKeys, hkey]
      have hlen' : (pending ++ presses (flagsAfter pre) [data]).length ≤ 256 := by
        rw [← List.length_map (f := Prod.fst), hkeys]
        -- A key is queued only where there is room.
        cases hkey : pressedKey data with
        | none => simpa using hlen
        | some key =>
          have hroom := hfits (by simp [hkey])
          simpa [Nat.lt_succ_iff] using hroom
      have hnext := ih (pre ++ [data]) before (pending ++ presses (flagsAfter pre) [data])
        (by rw [hstream, List.append_assoc]; rfl)
        (by rw [presses_append, hpending, List.append_assoc]; rfl) hlen'
        (by rw [hkeys]; exact hrest) (by rw [hkeys]; exact hdrained)
      rw [hkeys, hflags] at hnext
      rw [queueDelivered, hnext, scancodeStream, presses, presses, presses, List.append_nil,
        List.append_assoc]
    | getChar =>
      cases pending with
      | nil => exact ih _ _ _ hstream hpending (Nat.zero_le _) hkept hdrained
      | cons p pending =>
        obtain ⟨scancode, c⟩ := p
        -- The character read is that of the press: no modifier that matters has changed.
        obtain ⟨first, data, mid, rfl, hdata, hc, hmid⟩ := exists_press hpending
        -- The keys pressed since then are all in the queue behind it.
        have hshort : (pressedKeys mid).length < 256 := by
          rw [hmid]
          exact hlen
        have hchar : keyChar (flagsAfter (first ++ data :: mid)) scancode = c := by
          rw [hc]
          refine (keyChar_eq_iff (toNat_pressedKey hdata) _ _).mpr fun htwo => ?_
          exact hstable first data mid (scancodeStream r) scancode
            (by rw [hstream, List.append_assoc]; rfl) hdata htwo hshort
        have hnext := ih _ (before ++ [(scancode, c)]) pending hstream
          (by rw [hpending, List.append_assoc]; rfl) (Nat.le_of_succ_le hlen) hkept hdrained
        simp only [List.map_cons, queueDelivered, hchar, hnext]
        rfl

/-! ## §5 Unstable keys are read in two ways -/

/-- Doing `steps` first delivers `out` and leads from one pair of flags and queue to another. -/
structure Leads (flags : Byte) (q : List Byte) (steps : List TypingStep) (out : List Byte)
    (flags' : Byte) (q' : List Byte) : Prop where
  delivers : ∀ r, queueDelivered flags q (steps ++ r) = out ++ queueDelivered flags' q' r
  kept : ∀ r, QueueKept q' r → QueueKept q (steps ++ r)
  after : ∀ r, queueAfter q (steps ++ r) = queueAfter q' r

theorem Leads.refl (flags : Byte) (q : List Byte) : Leads flags q [] [] flags q :=
  ⟨fun _ => rfl, fun _ h => h, fun _ => rfl⟩

theorem Leads.trans {flags' flags'' : Byte} {q' q'' out out' : List Byte}
    {r r' : List TypingStep} (h : Leads flags q r out flags' q')
    (h' : Leads flags' q' r' out' flags'' q'') :
    Leads flags q (r ++ r') (out ++ out') flags'' q'' where
  delivers := by
    intro rest
    rw [List.append_assoc, h.delivers, h'.delivers, List.append_assoc]
  kept := by
    intro rest hrest
    rw [List.append_assoc]
    exact h.kept _ (h'.kept _ hrest)
  after := by
    intro rest
    rw [List.append_assoc, h.after, h'.after]

/-- An interrupt. -/
theorem Leads.handler (hroom : pressedKey data ≠ none → q.length < 256) :
    Leads flags q [.handler data] [] (handlerFlags flags data) (q ++ (pressedKey data).toList) :=
  ⟨fun _ => rfl, fun _ h => ⟨hroom, h⟩, fun _ => rfl⟩

/-- Reading the front of the queue. -/
theorem Leads.getChar (flags scancode : Byte) (q : List Byte) :
    Leads flags (scancode :: q) [.getChar] (nonZero (keyChar flags scancode)) flags q :=
  ⟨fun _ => rfl, fun _ h => h, fun _ => rfl⟩

/-- Interrupts without a reading in between. -/
def handlers (stream : List Byte) : List TypingStep := stream.map .handler

theorem Leads.handlers (flags : Byte) (q stream : List Byte)
    (hroom : q.length + (pressedKeys stream).length ≤ 256) :
    Leads flags q (handlers stream) [] (stream.foldl handlerFlags flags)
      (q ++ pressedKeys stream) := by
  induction stream generalizing flags q with
  | nil => simpa [KyroKernel.handlers, pressedKeys] using Leads.refl flags q
  | cons data stream ih =>
    have hkeys : pressedKeys (data :: stream) = (pressedKey data).toList ++ pressedKeys stream := by
      cases hkey : pressedKey data <;> simp [pressedKeys, hkey]
    rw [hkeys, List.length_append] at hroom
    have hfirst : Leads flags q [.handler data] [] (handlerFlags flags data)
        (q ++ (pressedKey data).toList) := by
      apply Leads.handler
      intro hne
      obtain ⟨key, hkey⟩ := Option.ne_none_iff_exists'.mp hne
      rw [hkey, Option.toList_some, List.length_singleton] at hroom
      omega
    have hrest := ih (handlerFlags flags data) (q ++ (pressedKey data).toList)
      (by rw [List.length_append]; omega)
    rw [List.append_assoc, ← hkeys] at hrest
    exact hfirst.trans hrest

/-- Reading until the queue is empty. -/
theorem Leads.drain (flags : Byte) (q : List Byte) :
    Leads flags q (List.replicate q.length .getChar)
      (q.flatMap fun scancode => nonZero (keyChar flags scancode)) flags [] := by
  induction q with
  | nil => exact Leads.refl flags []
  | cons scancode q ih => exact (Leads.getChar flags scancode q).trans ih

/-- Every interrupt followed by a reading. -/
def eager (stream : List Byte) : List TypingStep :=
  stream.flatMap fun data => [.handler data, .getChar]

theorem Leads.eager (flags : Byte) (stream : List Byte) :
    Leads flags [] (eager stream) (typed (presses flags stream))
      (stream.foldl handlerFlags flags) [] := by
  induction stream generalizing flags with
  | nil => exact Leads.refl flags []
  | cons data stream ih =>
    have hfirst : Leads flags [] [.handler data, .getChar]
        (typed ((pressedKey data).toList.map fun scancode => (scancode, keyChar flags scancode)))
        (handlerFlags flags data) [] := by
      have hhandler : Leads flags [] [.handler data] [] (handlerFlags flags data)
          ([] ++ (pressedKey data).toList) := Leads.handler fun _ => by decide
      cases hkey : pressedKey data with
      | none =>
        -- Nothing to read.
        rw [hkey] at hhandler
        exact hhandler.trans ⟨fun _ => rfl, fun _ h => h, fun _ => rfl⟩
      | some scancode =>
        -- The key is read under the flags it was pressed under.
        rw [hkey, handlerFlags_of_pressed hkey] at hhandler
        rw [handlerFlags_of_pressed hkey]
        simpa [typed] using hhandler.trans (Leads.getChar flags scancode [])
    have htyped : typed (presses flags (data :: stream)) =
        typed ((pressedKey data).toList.map fun scancode => (scancode, keyChar flags scancode)) ++
          typed (presses (handlerFlags flags data) stream) := List.flatMap_append
    rw [htyped]
    exact hfirst.trans (ih (handlerFlags flags data))

theorem scancodeStream_append (r r' : List TypingStep) :
    scancodeStream (r ++ r') = scancodeStream r ++ scancodeStream r' := by
  induction r with
  | nil => rfl
  | cons i r ih => cases i <;> simp [scancodeStream, ih]

theorem scancodeStream_handlers (stream : List Byte) :
    scancodeStream (handlers stream) = stream := by
  induction stream with
  | nil => rfl
  | cons data stream ih => exact congrArg (data :: ·) ih

theorem scancodeStream_getChars (n : Nat) :
    scancodeStream (List.replicate n .getChar) = [] := by
  induction n with
  | zero => rfl
  | succ n ih => exact ih

theorem scancodeStream_eager (stream : List Byte) : scancodeStream (eager stream) = stream := by
  induction stream with
  | nil => rfl
  | cons data stream ih => exact congrArg (data :: ·) ih

/-- Steps that lead from the empty queue to the empty queue are an interleaving. -/
theorem Leads.interleaving {steps : List TypingStep} {out : List Byte} {flags' : Byte}
    (h : Leads 0 [] steps out flags' []) (s : KeyboardState) :
    Interleaving (keyboardInit s) (scancodeStream steps) steps ∧
      delivered (keyboardInit s) steps = out := by
  have hkept := h.kept [] trivial
  have hafter := h.after []
  have hdelivers := h.delivers []
  rw [List.append_nil] at hkept hafter hdelivers
  refine ⟨(interleaving_iff s _ _).mpr ⟨rfl, hkept, hafter⟩, ?_⟩
  rw [delivered_eq steps (holdsQueue_keyboardInit s) hkept]
  exact hdelivers.trans (List.append_nil out)

/-- Equal lists of characters start with equal characters, when neither or both types one. -/
theorem nonZero_append_inj {c c' : Byte} {l l' : List Byte} (hzero : c = 0 ↔ c' = 0)
    (h : nonZero c ++ l = nonZero c' ++ l') : c = c' := by
  by_cases hc : c = 0
  · rw [hc, hzero.mp hc]
  · have hc' : ¬ c' = 0 := fun h0 => hc (hzero.mpr h0)
    rw [nonZero, nonZero, if_neg hc, if_neg hc'] at h
    exact (List.cons.inj h).1

/-- What is typed in `stream` does not depend on when it is read: every key delivers the character
it had when it was pressed. -/
structure TypingIndependent (s : KeyboardState) (stream : List Byte) : Prop where
  independent : ∀ r r', Interleaving (keyboardInit s) stream r →
    Interleaving (keyboardInit s) stream r' →
    delivered (keyboardInit s) r = delivered (keyboardInit s) r'
  when_pressed : ∀ r, Interleaving (keyboardInit s) stream r →
    delivered (keyboardInit s) r = typed (presses 0 stream)

/-- What is typed in `stream` is independent of when it is read if and only if no modifier that
matters to a key changes before the key must have been read. -/
theorem typing_independent_iff (s : KeyboardState) (stream : List Byte) :
    TypingIndependent s stream ↔ StableKeys stream := by
  constructor
  · -- Read every key at once, or read one key and those after it late.
    intro hall pre data mid post scancode hstream hkey htwo hshort
    refine (keyChar_eq_iff (toNat_pressedKey hkey) _ _).mp ?_ htwo
    have hkeys : pressedKeys (data :: mid) = scancode :: pressedKeys mid := by
      simp [pressedKeys, hkey]
    have hpre := Leads.eager 0 pre
    -- Early: every key is read at once. Late: the keys of `data :: mid` wait for each other.
    have hearly := hpre.trans (Leads.eager (flagsAfter pre) (data :: (mid ++ post)))
    have hmid := Leads.handlers (flagsAfter pre) [] (data :: mid)
      (by rw [hkeys, List.length_nil, Nat.zero_add]; exact hshort)
    have hlate := ((hpre.trans hmid).trans (Leads.drain _ _)).trans (Leads.eager _ post)
    obtain ⟨hearlyInter, hearlyOut⟩ := hearly.interleaving s
    obtain ⟨hlateInter, hlateOut⟩ := hlate.interleaving s
    -- Both sequences handle the stream.
    rw [scancodeStream_append, scancodeStream_eager, scancodeStream_eager, ← hstream] at hearlyInter
    rw [scancodeStream_append, scancodeStream_append, scancodeStream_append, scancodeStream_eager,
      scancodeStream_handlers, scancodeStream_getChars, scancodeStream_eager, List.append_nil,
      List.append_assoc, List.cons_append, ← hstream] at hlateInter
    -- The two deliveries differ first at the key in question.
    have hsame := hall.independent _ _ hearlyInter hlateInter
    rw [hearlyOut, hlateOut, List.append_nil, List.append_assoc] at hsame
    have htail := List.append_cancel_left hsame
    rw [List.nil_append, hkeys, List.flatMap_cons, presses, hkey, typed, List.flatMap_append,
      Option.toList_some, List.map_cons, List.map_nil, List.flatMap_cons, List.flatMap_nil,
      List.append_nil, List.append_assoc] at htail
    have hchar := nonZero_append_inj (keyChar_zero_iff (toNat_pressedKey hkey) _ _) htail
    rw [flagsAfter_append]
    exact hchar.symm
  · intro hstable
    have hout : ∀ r, Interleaving (keyboardInit s) stream r →
        delivered (keyboardInit s) r = typed (presses 0 stream) := by
      intro r hr
      obtain ⟨hstream, hkept, hempty⟩ := (interleaving_iff s stream r).mp hr
      rw [delivered_eq r (holdsQueue_keyboardInit s) hkept]
      have h := queueDelivered_of_stable hstable r [] [] [] hstream.symm rfl (Nat.zero_le _) hkept hempty
      rw [hstream] at h
      exact h
    exact ⟨fun r r' hr hr' => (hout r hr).trans (hout r' hr').symm, hout⟩

/-- Shift goes down, A goes down, Shift goes up. Read before Shift goes up, the key is `A`;
read after that, it is `a`. -/
theorem not_forall_typing_independent : ¬ ∀ s stream, TypingIndependent s stream := by
  intro hall
  have h := (hall powerOnKeyboard [0x2A, 0x1E, 0xAA]).independent
    [.handler 0x2A, .handler 0x1E, .getChar, .handler 0xAA]
    [.handler 0x2A, .handler 0x1E, .handler 0xAA, .getChar]
    ⟨rfl, by simp only [NothingDropped]; decide, by decide⟩
    ⟨rfl, by simp only [NothingDropped]; decide, by decide⟩
  exact absurd h (by decide)

end KyroKernel
