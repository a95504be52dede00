import KyroKernel.Foundations.PortPrograms

/-!
# The keyboard controller and a keyboard

The two one-byte buffers of an 8042, one in each direction, and a keyboard that answers every byte
it gets. The controller records what goes through its buffers. Its own commands are left out, and so
are those of the keyboard other than the one for the LEDs.
-/

namespace KyroKernel.Foundations

/-- A keyboard: the bytes that it has not sent yet, its LEDs, and whether the next byte it gets is
for them. -/
structure PcKeyboard where
  toSend : List Byte
  leds : Byte
  expectsLeds : Bool

/-- The controller with its keyboard, the bytes that came from the keyboard and that the processor
read, the bytes that the processor wrote and that went to the keyboard, and the keys so far. -/
structure I8042 where
  output : Option Byte
  /-- What the data port still shows when the byte is gone. -/
  lastOutput : Byte
  input : Option Byte
  keyboard : PcKeyboard
  sent : List Byte
  readOut : List Byte
  written : List Byte
  taken : List Byte
  typed : List Byte

namespace PcKeyboard

def ack : Byte := 0xFA
def resend : Byte := 0xFE
def setLeds : Byte := 0xED

/-- A byte from the controller. -/
def receive (k : PcKeyboard) (value : Byte) : PcKeyboard :=
  if value = setLeds then { k with expectsLeds := true, toSend := k.toSend ++ [ack] }
  else if k.expectsLeds then
    { toSend := k.toSend ++ [ack], leds := value &&& 7, expectsLeds := false }
  else { k with toSend := k.toSend ++ [resend] }

end PcKeyboard

namespace I8042

/-- The status register: the output buffer and the input buffer are full. -/
def status (c : I8042) : Byte :=
  (if c.output.isSome then 1 else 0) ||| (if c.input.isSome then 2 else 0)

/-- The processor reads the data port. -/
def readData (c : I8042) : Byte × I8042 :=
  (c.output.getD c.lastOutput,
    { c with
      output := none, lastOutput := c.output.getD c.lastOutput
      readOut := c.readOut ++ [c.output.getD c.lastOutput] })

/-- The processor writes the data port. A byte that was still there is lost. -/
def writeData (c : I8042) (value : Byte) : I8042 :=
  { c with input := some value, written := c.written ++ [value] }

/-- The next byte of the keyboard gets into the output buffer, when that is empty. -/
def forward (c : I8042) : Option I8042 :=
  match c.output, c.keyboard.toSend with
  | none, value :: rest =>
    some { c with output := some value, keyboard.toSend := rest, sent := c.sent ++ [value] }
  | _, _ => none

/-- The byte in the input buffer gets to the keyboard. -/
def pass (c : I8042) : Option I8042 :=
  c.input.map fun value =>
    { c with input := none, keyboard := c.keyboard.receive value, taken := c.taken ++ [value] }

/-- A key sends a byte. -/
def press (c : I8042) (value : Byte) : I8042 :=
  { c with keyboard.toSend := c.keyboard.toSend ++ [value], typed := c.typed ++ [value] }

/-- The ports of the controller. -/
def device : PortDevice I8042 where
  write c port value := if port = 0x60 then c.writeData value else c
  read c port :=
    if port = 0x60 then c.readData
    else if port = 0x64 then (c.status, c)
    else (0xFF, c)

/-- Bytes in both directions get through once and in order: what is not through yet is in a
buffer. -/
structure Ordered (c : I8042) : Prop where
  toProcessor : c.sent = c.readOut ++ c.output.toList
  toKeyboard : c.written = c.taken ++ c.input.toList

/-- The commands that set LEDs one after the other. -/
def ledCommands (leds : List Byte) : List Byte := leds.flatMap fun l => [PcKeyboard.setLeds, l]

/-- The LEDs after these were set. -/
def lastLeds (leds : List Byte) (before : Byte) : Byte := (leds.getLast?.map (· &&& 7)).getD before

/-- The keyboard has been told nothing but LEDs: it has taken in what it was told, and what comes
from it is its keys and acknowledgements. -/
structure Obeyed (c : I8042) (leds : Byte) : Prop where
  keyboard : ∃ toSend, c.taken.foldl PcKeyboard.receive ⟨[], leds, false⟩ =
    { c.keyboard with toSend := toSend }
  expects : c.keyboard.expectsLeds = decide (c.taken.length % 2 = 1)
  keys : (c.sent ++ c.keyboard.toSend).filter (· ≠ PcKeyboard.ack) =
    c.typed.filter (· ≠ PcKeyboard.ack)

/-- Nothing has gone to the keyboard yet, and nothing has come from it but what is in the output
buffer. -/
structure Started (c : I8042) (leds : Byte) : Prop where
  input : c.input = none
  keyboard : c.keyboard = ⟨[], leds, false⟩
  sent : c.sent = c.output.toList
  typed : c.typed = c.output.toList
  readOut : c.readOut = []
  written : c.written = []
  taken : c.taken = []

end I8042

/-! ## LED commands -/

section commands

variable {bytes : List Byte} {leds : List Byte} {value before : Byte} {k : PcKeyboard}

theorem PcKeyboard.receive_setLeds (k : PcKeyboard) :
    k.receive setLeds = { k with expectsLeds := true, toSend := k.toSend ++ [ack] } :=
  if_pos rfl

theorem PcKeyboard.receive_leds (h : value ≠ setLeds) (hexpects : k.expectsLeds = true) :
    k.receive value = ⟨k.toSend ++ [ack], value &&& 7, false⟩ := by
  rw [receive, if_neg h, if_pos hexpects]

/-- A keyboard that is told LEDs acknowledges every byte. -/
theorem PcKeyboard.receive_acknowledges (h : value = setLeds ∨ k.expectsLeds = true) :
    (k.receive value).toSend = k.toSend ++ [ack] := by
  by_cases hset : value = setLeds
  · rw [hset, receive_setLeds]
  · rw [receive_leds hset (h.resolve_left hset)]

/-- What is waiting to be sent does not matter to what a byte does. -/
theorem PcKeyboard.receive_toSend (k : PcKeyboard) (toSend : List Byte) (value : Byte) :
    ∃ toSend', { k with toSend := toSend }.receive value =
      { k.receive value with toSend := toSend' } := by
  refine ⟨({ k with toSend := toSend }.receive value).toSend, ?_⟩
  unfold receive
  split_ifs <;> rfl

/-- Whole commands leave the keyboard with the last LEDs, and ready for the next one. -/
theorem foldl_receive_ledCommands (hleds : ∀ l ∈ leds, l ≠ PcKeyboard.setLeds)
    (hready : k.expectsLeds = false) :
    ((I8042.ledCommands leds).foldl PcKeyboard.receive k).leds = I8042.lastLeds leds k.leds ∧
      ((I8042.ledCommands leds).foldl PcKeyboard.receive k).expectsLeds = false := by
  induction leds generalizing k with
  | nil => exact ⟨rfl, hready⟩
  | cons l leds ih =>
    obtain ⟨hl, hrest⟩ := List.forall_mem_cons.mp hleds
    rw [I8042.ledCommands, List.flatMap_cons, List.foldl_append, ← I8042.ledCommands]
    have hone : [PcKeyboard.setLeds, l].foldl PcKeyboard.receive k =
        ⟨k.toSend ++ [PcKeyboard.ack] ++ [PcKeyboard.ack], l &&& 7, false⟩ := by
      rw [List.foldl_cons, List.foldl_cons, List.foldl_nil, PcKeyboard.receive_setLeds,
        PcKeyboard.receive_leds hl rfl]
    rw [hone]
    obtain ⟨hlast, hfalse⟩ := ih (k := ⟨k.toSend ++ [PcKeyboard.ack] ++ [PcKeyboard.ack], l &&& 7,
      false⟩) hrest rfl
    refine ⟨hlast.trans ?_, hfalse⟩
    unfold I8042.lastLeds
    cases leds with
    | nil => rfl
    | cons l' leds => rw [List.getLast?_cons_cons]; simp [List.getLast?_cons]

/-- Every second byte of the commands is for the LEDs, the others begin a command. -/
theorem ledCommands_prefix (h : bytes ++ [value] <+: I8042.ledCommands leds) :
    (bytes.length % 2 = 0 → value = PcKeyboard.setLeds) ∧ (bytes.length % 2 = 1 → value ∈ leds) := by
  induction leds generalizing bytes with
  | nil =>
    have := List.prefix_nil.mp h
    exact absurd this (by simp)
  | cons l leds ih =>
    rw [I8042.ledCommands, List.flatMap_cons, ← I8042.ledCommands] at h
    match bytes with
    | [] =>
      rw [List.nil_append, List.cons_append, List.cons_prefix_cons] at h
      exact ⟨fun _ => h.1, fun hodd => absurd hodd (by decide)⟩
    | [b] =>
      rw [List.cons_append, List.cons_append, List.cons_prefix_cons, List.nil_append,
        List.cons_append, List.cons_prefix_cons] at h
      exact ⟨fun heven => absurd heven Nat.one_ne_zero, fun _ => h.2.1 ▸ List.mem_cons_self⟩
    | b :: b' :: rest =>
      rw [List.cons_append, List.cons_append, List.cons_append, List.cons_prefix_cons,
        List.cons_append, List.cons_prefix_cons, List.nil_append] at h
      obtain ⟨heven, hodd⟩ := ih h.2.2
      rw [List.length_cons, List.length_cons]
      exact ⟨fun h => heven (by omega), fun h => List.mem_cons_of_mem _ (hodd (by omega))⟩

end commands

/-! ## The buffers -/

namespace I8042

variable {c c' : I8042} {value before : Byte} {leds : List Byte}

theorem status_input (c : I8042) : c.status &&& 2 ≠ 0 ↔ c.input.isSome = true := by
  unfold status
  cases c.output.isSome <;> cases c.input.isSome <;> decide

theorem Ordered.started (h : Started c before) : Ordered c where
  toProcessor := by rw [h.sent, h.readOut, List.nil_append]
  toKeyboard := by rw [h.written, h.taken, h.input]; rfl

theorem forward_eq_some (hc : c.forward = some c') : ∃ value rest, c.output = none ∧
    c.keyboard.toSend = value :: rest ∧
    c' = { c with output := some value, keyboard.toSend := rest, sent := c.sent ++ [value] } := by
  unfold I8042.forward at hc
  split at hc
  · rename_i value rest hout hsend
    exact ⟨value, rest, hout, hsend, (Option.some.inj hc).symm⟩
  · cases hc

theorem Ordered.forward (h : Ordered c) (hc : c.forward = some c') : Ordered c' := by
  obtain ⟨value, rest, hout, -, rfl⟩ := forward_eq_some hc
  refine ⟨?_, h.toKeyboard⟩
  have hold := h.toProcessor
  rw [hout] at hold
  simp only [hold, Option.toList_none, List.append_nil, Option.toList_some]

/-- A read takes the byte that is there, -/
theorem Ordered.readData (h : Ordered c) (hfull : c.output.isSome = true) :
    Ordered c.readData.2 := by
  obtain ⟨b, hb⟩ := Option.isSome_iff_exists.mp hfull
  refine ⟨?_, h.toKeyboard⟩
  have hold := h.toProcessor
  simp only [I8042.readData, hb, Option.getD_some, hold, Option.toList_some, Option.toList_none,
    List.append_nil]

/-- and a write fills the buffer when it is empty. -/
theorem Ordered.writeData (h : Ordered c) (hempty : c.input = none) (value : Byte) :
    Ordered (c.writeData value) := by
  refine ⟨h.toProcessor, ?_⟩
  have hold := h.toKeyboard
  rw [hempty] at hold
  simp only [I8042.writeData, hold, Option.toList_none, List.append_nil, Option.toList_some]

theorem Ordered.pass (h : Ordered c) (hc : c.pass = some c') : Ordered c' ∧ c'.input = none := by
  obtain ⟨value, hinput, rfl⟩ := Option.map_eq_some_iff.mp hc
  refine ⟨⟨h.toProcessor, ?_⟩, rfl⟩
  have hold := h.toKeyboard
  rw [hinput] at hold
  simp only [hold, Option.toList_some, Option.toList_none, List.append_nil]

theorem Ordered.press (h : Ordered c) (value : Byte) : Ordered (c.press value) :=
  ⟨h.toProcessor, h.toKeyboard⟩

theorem Obeyed.started (h : Started c before) : Obeyed c before where
  keyboard := ⟨[], by rw [h.taken, h.keyboard]; rfl⟩
  expects := by rw [h.taken, h.keyboard]; rfl
  keys := by rw [h.sent, h.typed, h.keyboard, List.append_nil]

theorem Obeyed.forward (h : Obeyed c before) (hc : c.forward = some c') : Obeyed c' before := by
  obtain ⟨value, rest, -, hsend, rfl⟩ := forward_eq_some hc
  refine ⟨h.keyboard, h.expects, ?_⟩
  have hold := h.keys
  rw [hsend] at hold
  simpa only [List.append_assoc, List.singleton_append] using hold

theorem Obeyed.press (h : Obeyed c before) (value : Byte) : Obeyed (c.press value) before := by
  refine ⟨h.keyboard, h.expects, ?_⟩
  simp only [I8042.press]
  rw [← List.append_assoc, List.filter_append, h.keys, List.filter_append]

/-- The keyboard takes the next byte of a command. -/
theorem Obeyed.pass (h : Obeyed c before) (hordered : Ordered c)
    (hleds : ∀ l ∈ leds, l ≠ PcKeyboard.setLeds) (hwritten : c.written <+: ledCommands leds)
    (hc : c.pass = some c') : Obeyed c' before := by
  obtain ⟨value, hinput, rfl⟩ := Option.map_eq_some_iff.mp hc
  have htaken : c.taken ++ [value] <+: ledCommands leds := by
    have hold := hordered.toKeyboard
    rw [hinput] at hold
    rwa [hold] at hwritten
  obtain ⟨heven, hodd⟩ := ledCommands_prefix htaken
  have hexpects := h.expects
  have hcommand : value = PcKeyboard.setLeds ∧ c.taken.length % 2 = 0 ∨
      value ≠ PcKeyboard.setLeds ∧ c.taken.length % 2 = 1 := by
    rcases Nat.mod_two_eq_zero_or_one c.taken.length with h0 | h1
    · exact .inl ⟨heven h0, h0⟩
    · exact .inr ⟨hleds _ (hodd h1), h1⟩
  have hacknowledges : (c.keyboard.receive value).toSend = c.keyboard.toSend ++ [PcKeyboard.ack] :=
    PcKeyboard.receive_acknowledges <| hcommand.imp And.left fun hc => by
      rw [hexpects, hc.2]
      rfl
  refine ⟨?_, ?_, ?_⟩
  · obtain ⟨toSend, hfold⟩ := h.keyboard
    obtain ⟨toSend', hreceive⟩ := PcKeyboard.receive_toSend c.keyboard toSend value
    exact ⟨toSend', by rw [List.foldl_append, hfold]; exact hreceive⟩
  · simp only [List.length_append, List.length_singleton]
    rcases hcommand with ⟨rfl, h0⟩ | ⟨hne, h1⟩
    · rw [PcKeyboard.receive_setLeds]
      exact (decide_eq_true (by omega)).symm
    · rw [PcKeyboard.receive_leds hne (by rw [hexpects, h1]; rfl)]
      exact (decide_eq_false (by omega)).symm
  · rw [hacknowledges, ← List.append_assoc, List.filter_append, h.keys]
    simp

/-- The processor does not come near the keyboard. -/
theorem Obeyed.device_write (h : Obeyed c before) (port : Port) (value : Byte) :
    Obeyed (device.write c port value) before := by
  simp only [device]
  split
  · exact ⟨h.keyboard, h.expects, h.keys⟩
  · exact h

theorem Obeyed.device_read (h : Obeyed c before) (port : Port) :
    Obeyed (device.read c port).2 before := by
  simp only [device]
  split
  · exact ⟨h.keyboard, h.expects, h.keys⟩
  · split
    · exact h
    · exact h

/-- The LEDs of a keyboard that has taken whole commands. -/
theorem Obeyed.keyboard_leds (h : Obeyed c before) (hleds : ∀ l ∈ leds, l ≠ PcKeyboard.setLeds)
    (htaken : c.taken = ledCommands leds) : c.keyboard.leds = lastLeds leds before := by
  obtain ⟨toSend, hfold⟩ := h.keyboard
  have hlast := (foldl_receive_ledCommands (k := ⟨[], before, false⟩) hleds rfl).1
  rw [← htaken, hfold] at hlast
  exact hlast

end I8042

end KyroKernel.Foundations
