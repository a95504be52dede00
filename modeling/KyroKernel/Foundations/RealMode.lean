import KyroKernel.Foundations.Memory

/-!
# An x86 processor in real mode

The 16-bit registers with their 8-bit halves, the flags, the stack at SS:SP and a megabyte of
memory, for boot loaders. Code is a list of instructions with labels in it; a run goes on until it
jumps to a label outside the code. The instruction `int` pushes FLAGS, CS and IP. From there on the
BIOS is a map of processor states for each interrupt, up to its return, and `ReadsSectors` says what a
disk read of it does. Interrupts of devices are left out.
-/

namespace KyroKernel.Foundations.RealMode

/-- A 16-bit word. -/
abbrev Word16 := BitVec 16

/-- A physical address. -/
abbrev PhysAddr := BitVec 20

inductive Reg16 where
  | ax
  | bx
  | cx
  | dx
  | sp
  deriving DecidableEq

inductive Reg8 where
  | al
  | ah
  | cl
  | ch
  | dl
  | dh
  deriving DecidableEq

inductive SegReg where
  | ds
  | es
  | ss
  deriving DecidableEq

/-- The flags that instructions set. -/
structure Flags where
  cf : Bool
  pf : Bool
  af : Bool
  zf : Bool
  sf : Bool
  of : Bool
  deriving DecidableEq

/-- The registers and the memory. `system` holds the bits of FLAGS that are not in `flags`. -/
structure Cpu16 where
  ax : Word16
  bx : Word16
  cx : Word16
  dx : Word16
  sp : Word16
  cs : Word16
  ds : Word16
  es : Word16
  ss : Word16
  flags : Flags
  system : Word16
  mem : PhysAddr → Byte

/-- The low half of a register. -/
def low (v : Word16) : Byte := v.extractLsb' 0 8

/-- The high half of a register. -/
def high (v : Word16) : Byte := v.extractLsb' 8 8

/-- A register from its halves. -/
def join (hi lo : Byte) : Word16 := hi ++ lo

@[simp] theorem low_join (hi lo : Byte) : low (join hi lo) = lo :=
  BitVec.extractLsb'_append_eq_right

@[simp] theorem join_high_low (v : Word16) : join (high v) (low v) = v :=
  BitVec.extractLsb'_append_extractLsb'

/-- `segment:offset`. -/
def physical (seg off : Word16) : PhysAddr := (seg.setWidth 20 <<< 4) + off.setWidth 20

/-- A little-endian word in memory. -/
def read16 (m : PhysAddr → Byte) (seg off : Word16) : Word16 :=
  join (m (physical seg (off + 1))) (m (physical seg off))

def write16 (m : PhysAddr → Byte) (seg off v : Word16) : PhysAddr → Byte :=
  Function.update (Function.update m (physical seg off) (low v)) (physical seg (off + 1)) (high v)

/-- In one segment different offsets are different bytes. -/
theorem physical_inj {seg off off' : Word16} (h : physical seg off = physical seg off') :
    off = off' := by
  unfold physical at h
  bv_omega

theorem read16_write16_self (m : PhysAddr → Byte) (seg off v : Word16) :
    read16 (write16 m seg off v) seg off = v := by
  have hne : physical seg off ≠ physical seg (off + 1) := fun h => by
    have := physical_inj h
    bv_omega
  rw [read16, write16, Function.update_self, Function.update_of_ne hne, Function.update_self,
    join_high_low]

/-- Words that do not overlap. -/
theorem read16_write16_of_ne {seg off off' : Word16} (m : PhysAddr → Byte) (v : Word16)
    (h : off ≠ off') (hlo : off + 1 ≠ off') (hhi : off ≠ off' + 1) :
    read16 (write16 m seg off' v) seg off = read16 m seg off := by
  have hnext : off + 1 ≠ off' + 1 := by bv_omega
  rw [read16, write16, Function.update_of_ne (mt physical_inj hnext),
    Function.update_of_ne (mt physical_inj hlo), Function.update_of_ne (mt physical_inj hhi),
    Function.update_of_ne (mt physical_inj h), read16]

namespace Cpu16

def get (c : Cpu16) : Reg16 → Word16
  | .ax => c.ax
  | .bx => c.bx
  | .cx => c.cx
  | .dx => c.dx
  | .sp => c.sp

def set (c : Cpu16) (v : Word16) : Reg16 → Cpu16
  | .ax => { c with ax := v }
  | .bx => { c with bx := v }
  | .cx => { c with cx := v }
  | .dx => { c with dx := v }
  | .sp => { c with sp := v }

def get8 (c : Cpu16) : Reg8 → Byte
  | .al => low c.ax
  | .ah => high c.ax
  | .cl => low c.cx
  | .ch => high c.cx
  | .dl => low c.dx
  | .dh => high c.dx

def set8 (c : Cpu16) (b : Byte) : Reg8 → Cpu16
  | .al => { c with ax := join (high c.ax) b }
  | .ah => { c with ax := join b (low c.ax) }
  | .cl => { c with cx := join (high c.cx) b }
  | .ch => { c with cx := join b (low c.cx) }
  | .dl => { c with dx := join (high c.dx) b }
  | .dh => { c with dx := join b (low c.dx) }

def setSeg (c : Cpu16) (v : Word16) : SegReg → Cpu16
  | .ds => { c with ds := v }
  | .es => { c with es := v }
  | .ss => { c with ss := v }

def push (c : Cpu16) (v : Word16) : Cpu16 :=
  { c with sp := c.sp - 2, mem := write16 c.mem c.ss (c.sp - 2) v }

/-- FLAGS. -/
def flagsWord (c : Cpu16) : Word16 :=
  let bit (set : Bool) (i : Nat) : Word16 := if set then 1 <<< i else 0
  c.system &&& 0xF72A ||| bit c.flags.cf 0 ||| bit c.flags.pf 2 ||| bit c.flags.af 4 |||
    bit c.flags.zf 6 ||| bit c.flags.sf 7 ||| bit c.flags.of 11

/-- An interrupt is taken, with IP at `ip`: FLAGS, CS and IP are pushed, and the interrupt and the
trap flag are cleared. -/
def enter (c : Cpu16) (ip : Word16) : Cpu16 :=
  { ((c.push c.flagsWord).push c.cs).push ip with system := c.system &&& 0xFCFF }

/-- The word on top of the stack. -/
def top (c : Cpu16) : Word16 := read16 c.mem c.ss c.sp

def pop (c : Cpu16) (r : Reg16) : Cpu16 := { c with sp := c.sp + 2 }.set c.top r

end Cpu16

/-! ## Instructions -/

/-- The low byte has an even number of bits. -/
def evenParity {w : Nat} (v : BitVec w) : Bool :=
  ((List.range 8).countP fun i => v.getLsbD i) % 2 == 0

/-- The flags of `a - b`, for `sub` and `cmp`. -/
def subFlags {w : Nat} (a b : BitVec w) : Flags :=
  { cf := a.ult b
    pf := evenParity (a - b)
    af := decide (a.toNat % 16 < b.toNat % 16)
    zf := a - b == 0
    sf := (a - b).msb
    of := a.msb != b.msb && (a - b).msb != a.msb }

/-- The flags of `a + b`. -/
def addFlags {w : Nat} (a b : BitVec w) : Flags :=
  { cf := (a + b).ult a
    pf := evenParity (a + b)
    af := decide (16 ≤ a.toNat % 16 + b.toNat % 16)
    zf := a + b == 0
    sf := (a + b).msb
    of := a.msb == b.msb && (a + b).msb != a.msb }

/-- The flags of a shift to the left by `n > 0`; those that are undefined then are left alone. -/
def shlFlags (old : Flags) (v : Word16) (n : Nat) : Flags :=
  { cf := v.getLsbD (16 - n)
    pf := evenParity (v <<< n)
    af := old.af
    zf := v <<< n == 0
    sf := (v <<< n).msb
    of := old.of }

/-- The instructions that do not transfer control, the destination first. -/
inductive Op16 where
  | mov (dst src : Reg16)
  | movImm (dst : Reg16) (v : Word16)
  | movImm8 (dst : Reg8) (b : Byte)
  | movSeg (dst : SegReg) (src : Reg16)
  | push (src : Reg16)
  | pop (dst : Reg16)
  | xor (dst src : Reg16)
  | sub (dst src : Reg16)
  | add (dst src : Reg16)
  | add8 (dst src : Reg8)
  | inc8 (dst : Reg8)
  | shl (dst : Reg16) (n : Nat)
  | cmp (a : Reg16) (v : Word16)
  | cmp8 (a : Reg8) (b : Byte)
  deriving DecidableEq

/-- What one of them does. -/
def exec16 (c : Cpu16) : Op16 → Cpu16
  | .mov dst src => c.set (c.get src) dst
  | .movImm dst v => c.set v dst
  | .movImm8 dst b => c.set8 b dst
  | .movSeg dst src => c.setSeg (c.get src) dst
  | .push src => c.push (c.get src)
  | .pop dst => c.pop dst
  | .xor dst src =>
    let v := c.get dst ^^^ c.get src
    { c.set v dst with flags := ⟨false, evenParity v, c.flags.af, v == 0, v.msb, false⟩ }
  | .sub dst src =>
    { c.set (c.get dst - c.get src) dst with flags := subFlags (c.get dst) (c.get src) }
  | .add dst src =>
    { c.set (c.get dst + c.get src) dst with flags := addFlags (c.get dst) (c.get src) }
  | .add8 dst src =>
    { c.set8 (c.get8 dst + c.get8 src) dst with flags := addFlags (c.get8 dst) (c.get8 src) }
  | .inc8 dst =>
    -- `inc` leaves the carry alone.
    { c.set8 (c.get8 dst + 1) dst with
      flags := { addFlags (c.get8 dst) 1 with cf := c.flags.cf } }
  | .shl dst n => { c.set (c.get dst <<< n) dst with flags := shlFlags c.flags (c.get dst) n }
  | .cmp a v => { c with flags := subFlags (c.get a) v }
  | .cmp8 a b => { c with flags := subFlags (c.get8 a) b }

/-- A block of instructions. -/
def execAll16 (c : Cpu16) (ops : List Op16) : Cpu16 := ops.foldl exec16 c

/-- The conditions of jumps. -/
inductive Cond where
  | c
  | z
  | l
  | le
  deriving DecidableEq

def Cond.holds (f : Flags) : Cond → Bool
  | .c => f.cf
  | .z => f.zf
  | .l => f.sf != f.of
  | .le => f.zf || f.sf != f.of

universe u

variable {ι : Type u}

/-- An instruction, with labels from `ι`. -/
inductive Instr16 (ι : Type u) where
  | op (o : Op16)
  /-- `next` is the address of the instruction behind it. -/
  | int (n : Byte) (next : Word16)
  | jmp (label : ι)
  | jcc (cond : Cond) (label : ι)

/-- Run the instructions `is` until control leaves the code: `code` gives what follows a label of
the code, and nothing for a label outside. -/
def run16 (code : ι → Option (List (Instr16 ι))) (bios : Byte → Cpu16 → Cpu16) :
    Nat → List (Instr16 ι) → Cpu16 → Option (ι × Cpu16)
  | 0, _, _ => none
  | _ + 1, [], _ => none
  | fuel + 1, .op o :: is, c => run16 code bios fuel is (exec16 c o)
  | fuel + 1, .int n next :: is, c => run16 code bios fuel is (bios n (c.enter next))
  | fuel + 1, .jmp label :: _, c =>
    match code label with
    | some is => run16 code bios fuel is c
    | none => some (label, c)
  | fuel + 1, .jcc cond label :: is, c =>
    if cond.holds c.flags then
      match code label with
      | some is => run16 code bios fuel is c
      | none => some (label, c)
    else run16 code bios fuel is c

variable {code : ι → Option (List (Instr16 ι))} {bios : Byte → Cpu16 → Cpu16} {c : Cpu16}
  {is : List (Instr16 ι)} {fuel fuel' : Nat} {r r' : ι × Cpu16}

/-- More fuel gives the same result. -/
theorem run16_mono (h : run16 code bios fuel is c = some r) (k : Nat) :
    run16 code bios (fuel + k) is c = some r := by
  -- One unit of fuel for each instruction.
  induction fuel generalizing is c with
  | zero => cases h
  | succ fuel ih =>
    rw [Nat.succ_add]
    cases is with
    | nil => cases h
    | cons i is =>
      cases i with
      | op o => exact ih h
      | int n next => exact ih h
      | jmp label =>
        simp only [run16] at h ⊢
        cases hcode : code label with
        | some is' =>
          rw [hcode] at h
          exact ih h
        | none =>
          rw [hcode] at h
          exact h
      | jcc cond label =>
        simp only [run16] at h ⊢
        by_cases hcond : cond.holds c.flags = true
        · rw [if_pos hcond] at h ⊢
          cases hcode : code label with
          | some is' =>
            rw [hcode] at h
            exact ih h
          | none =>
            rw [hcode] at h
            exact h
        · rw [if_neg hcond] at h ⊢
          exact ih h

/-- A run ends in one way. -/
theorem run16_unique (h : run16 code bios fuel is c = some r)
    (h' : run16 code bios fuel' is c = some r') : r = r' := by
  have hle := run16_mono h fuel'
  rw [Nat.add_comm, run16_mono h' fuel] at hle
  exact (Option.some.inj hle).symm

/-! ## Disk reads -/

/-- The bytes of a disk, sector after sector. -/
abbrev Disk := Nat → Byte

/-- A valid request of INT 13h with AH = 2, for the first floppy drive with 18 sectors on a track
and 2 heads. -/
structure ReadRequest (c : Cpu16) : Prop where
  function : c.get8 .ah = 2
  drive : c.get8 .dl = 0
  head : (c.get8 .dh).toNat < 2
  sector : 1 ≤ (c.get8 .cl).toNat % 64 ∧ (c.get8 .cl).toNat % 64 ≤ 18

/-- The first sector of a request, counted from the start of the disk. The two high bits of CL
belong to the cylinder. -/
def firstSector (c : Cpu16) : Nat :=
  let cylinder := (c.get8 .ch).toNat + 256 * ((c.get8 .cl).toNat / 64)
  (cylinder * 2 + (c.get8 .dh).toNat) * 18 + ((c.get8 .cl).toNat % 64 - 1)

/-- The number of bytes of a request. -/
def requestSize (c : Cpu16) : Nat := 512 * (c.get8 .al).toNat

/-- Byte `k` of the buffer at ES:BX. -/
def bufferByte (c : Cpu16) (k : Nat) : PhysAddr := physical c.es c.bx + BitVec.ofNat 20 k

/-- Memory that belongs to the BIOS: the interrupt vectors and its data below 0x500, and what lies
from 0x80000 on. -/
def BiosMemory (a : PhysAddr) : Prop := a.toNat < 0x500 ∨ 0x80000 ≤ a.toNat

/-- The stack of the interrupted program below its SP: the six bytes that `int` has pushed, and the
`depth` bytes below them. -/
def FreeStack (depth : Nat) (c : Cpu16) (a : PhysAddr) : Prop :=
  ∃ j < depth + 6, a = physical c.ss (c.sp + 5 - BitVec.ofNat 16 j)

/-- A disk read, from the first instruction of the BIOS to its return: consecutive sectors are copied
to ES:BX, the carry is clear, the other registers are as before, and so is all memory but the free
stack, of which the BIOS uses `depth` bytes, and its own. -/
structure DiskRead (disk : Disk) (depth : Nat) (c c' : Cpu16) : Prop where
  success : c'.flags.cf = false
  regs : c'.bx = c.bx ∧ c'.cx = c.cx ∧ c'.dx = c.dx ∧ c'.sp = c.sp + 6
  segs : c'.cs = c.cs ∧ c'.ds = c.ds ∧ c'.es = c.es ∧ c'.ss = c.ss
  data : ∀ k, k < requestSize c → c'.mem (bufferByte c k) = disk (512 * firstSector c + k)
  other : ∀ a, (∀ k, k < requestSize c → a ≠ bufferByte c k) → ¬ FreeStack depth c a →
    ¬ BiosMemory a → c'.mem a = c.mem a

/-- The disk service answers every valid request with a disk read. -/
def ReadsSectors (disk : Disk) (depth : Nat) (int13 : Cpu16 → Cpu16) : Prop :=
  ∀ c, ReadRequest c → DiskRead disk depth c (int13 c)

/-- A disk service that copies, and uses no stack of its own. -/
def copySectors (disk : Disk) (c : Cpu16) : Cpu16 :=
  { c with
    sp := c.sp + 6
    flags := { c.flags with cf := false }
    mem := fun a =>
      if (a - bufferByte c 0).toNat < requestSize c then
        disk (512 * firstSector c + (a - bufferByte c 0).toNat)
      else c.mem a }

theorem requestSize_lt (c : Cpu16) : requestSize c < 2 ^ 20 := by
  have := (c.get8 .al).isLt
  unfold requestSize
  omega

theorem bufferByte_zero (c : Cpu16) : bufferByte c 0 = physical c.es c.bx := BitVec.add_zero _

/-- The place of a byte in the buffer. -/
theorem bufferByte_sub {k : Nat} (hk : k < requestSize c) :
    (bufferByte c k - bufferByte c 0).toNat = k := by
  have := requestSize_lt c
  rw [bufferByte_zero, bufferByte, BitVec.add_comm, BitVec.add_sub_cancel, BitVec.toNat_ofNat]
  exact Nat.mod_eq_of_lt (by omega)

theorem readsSectors_copySectors (disk : Disk) (depth : Nat) :
    ReadsSectors disk depth (copySectors disk) := by
  intro c _
  refine ⟨rfl, ⟨rfl, rfl, rfl, rfl⟩, ⟨rfl, rfl, rfl, rfl⟩, ?_, ?_⟩
  · intro k hk
    simp only [copySectors, bufferByte_sub hk, if_pos hk]
  · intro a ha _ _
    simp only [copySectors]
    apply if_neg
    -- Otherwise it would be the byte at that distance.
    intro hlt
    apply ha _ hlt
    rw [bufferByte, ← bufferByte_zero, BitVec.ofNat_toNat, BitVec.setWidth_eq, BitVec.add_comm,
      BitVec.sub_add_cancel]

end KyroKernel.Foundations.RealMode
