import KyroKernel.Foundations.RealMode

/-!
# The boot loader

`boot/boot.asm` from the set-up of the segment registers to `kernel_loaded`, without the messages.
The total number of sectors is put into CX, and then the start cylinder and sector are put into
CH and CL, which are CX: the loop counts from 2. It reads two sectors and is done, and the rest of
the kernel is what memory held before. The stack lies in the area of the kernel: the words pushed, the
frame of `int 0x13` and what the BIOS pushes below it are in it as well. Interrupts of devices outside
the BIOS are left out.
-/

namespace KyroKernel

open Foundations RealMode

/-- `KERNEL_OFFSET`. -/
def kernelOffset : Word16 := 0x1000

/-- `KERNEL_SECTORS`. -/
def kernelSectors : Nat := 170

/-- The labels; control leaves the loader at the last two. -/
inductive BootLabel where
  | loadLoop
  | readSectors
  | diskError
  | kernelLoaded
  deriving DecidableEq

/-- `start`, the set-up of the segments. -/
def startCode : List Op16 :=
  [.xor .ax .ax, .movSeg .ds .ax, .movSeg .es .ax, .movSeg .ss .ax, .movImm .sp 0x7000]

/-- From `read_sectors` to the end of the loop; `next` is the address of the `jc` behind `int`. -/
def readSectorsCode (next : Word16) : List (Instr16 BootLabel) :=
  [.op (.push .ax),
    .op (.movImm8 .ah 0x02),
    .int 0x13 next,
    .jcc .c .diskError,
    .op (.pop .ax),
    .op (.pop .cx),
    .op (.sub .cx .ax),
    .jcc .z .kernelLoaded,
    -- The next part of the buffer.
    .op (.push .dx),
    .op (.mov .dx .ax),
    .op (.shl .dx 9),
    .op (.add .bx .dx),
    .op (.pop .dx),
    -- The next sector, head and cylinder.
    .op (.add8 .cl .al),
    .op (.cmp8 .cl 18),
    .jcc .le .loadLoop,
    .op (.movImm8 .cl 1),
    .op (.inc8 .dh),
    .op (.cmp8 .dh 2),
    .jcc .l .loadLoop,
    .op (.movImm8 .dh 0),
    .op (.inc8 .ch),
    .jmp .loadLoop]

/-- `load_loop`, up to `read_sectors`. -/
def loadLoopCode : List (Instr16 BootLabel) :=
  [.op (.push .cx),
    .op (.mov .ax .cx),
    .op (.cmp .ax 18),
    .jcc .le .readSectors,
    .op (.movImm .ax 18)]

/-- `load_kernel` after its message, up to `load_loop`. -/
def loadKernelCode : List (Instr16 BootLabel) :=
  [.op (.movImm .cx (BitVec.ofNat 16 kernelSectors)),
    .op (.movImm .bx kernelOffset),
    .op (.movImm8 .dl 0x00),
    .op (.movImm8 .dh 0),
    .op (.movImm8 .ch 0),
    .op (.movImm8 .cl 2)]

/-- What follows a label. -/
def bootCode (next : Word16) : BootLabel → Option (List (Instr16 BootLabel))
  | .loadLoop => some (loadLoopCode ++ readSectorsCode next)
  | .readSectors => some (readSectorsCode next)
  | .diskError | .kernelLoaded => none

/-- Run the loader from `load_kernel` on. -/
def runBoot (bios : Byte → Cpu16 → Cpu16) (next : Word16) (fuel : Nat) (c : Cpu16) :
    Option (BootLabel × Cpu16) :=
  run16 (bootCode next) bios fuel (loadKernelCode ++ loadLoopCode ++ readSectorsCode next) c

/-- The state in which `load_kernel` is reached: segments and stack as `start` sets them up. -/
structure AtLoadKernel (c : Cpu16) : Prop where
  es : c.es = 0
  ss : c.ss = 0
  sp : c.sp = 0x7000

/-- Byte `n` from `KERNEL_OFFSET` on. -/
def kernelByte (n : Nat) : PhysAddr := physical 0 kernelOffset + BitVec.ofNat 20 n

/-- Sector `1 + i` of the disk is at its place in memory. -/
def SectorLoaded (disk : Disk) (mem : PhysAddr → Byte) (i : Nat) : Prop :=
  ∀ k, k < 512 → mem (kernelByte (512 * i + k)) = disk (512 * (1 + i) + k)

/-- The loader gets to `kernel_loaded`, and there the whole kernel is in memory. -/
structure LoadsKernel (disk : Disk) (bios : Byte → Cpu16 → Cpu16) (next : Word16) (c : Cpu16) :
    Prop where
  reaches : ∃ fuel c', runBoot bios next fuel c = some (.kernelLoaded, c')
  loaded : ∀ fuel c', runBoot bios next fuel c = some (.kernelLoaded, c') →
    ∀ i, i < kernelSectors → SectorLoaded disk c'.mem i

variable {disk : Disk} {bios : Byte → Cpu16 → Cpu16} {next : Word16} {depth : Nat} {c c' : Cpu16}

theorem atLoadKernel_start (c : Cpu16) : AtLoadKernel (execAll16 c startCode) where
  es := BitVec.xor_self
  ss := BitVec.xor_self
  sp := rfl

/-! ## The one round -/

/-- The state at `int 0x13`: CX is 2, and so is the number of sectors to read. -/
def atRead (c : Cpu16) : Cpu16 :=
  { ((c.push 2).push 2) with
    ax := 0x0202
    bx := kernelOffset
    cx := 2
    dx := 0
    flags := subFlags (2 : Word16) 18 }

/-- The state in which the BIOS gets control: FLAGS, CS and IP are on the stack. -/
def inBios (next : Word16) (c : Cpu16) : Cpu16 := (atRead c).enter next

/-- What comes after `int 0x13`. -/
def afterRead : List (Instr16 BootLabel) := (readSectorsCode 0).drop 3

/-- Up to `int 0x13` the loader runs the same way from every state. -/
theorem runBoot_inBios (bios : Byte → Cpu16 → Cpu16) (next : Word16) (fuel : Nat) (c : Cpu16) :
    runBoot bios next (fuel + 13) c =
      run16 (bootCode next) bios fuel afterRead (bios 0x13 (inBios next c)) := by
  -- CH and CL are put over the number of sectors.
  have hcx : join (high (join 0 (low (BitVec.ofNat 16 kernelSectors)))) 2 = 2 := by decide
  have hdx : join 0 (low (join (high c.dx) 0)) = 0 := by
    rw [low_join]
    rfl
  have hax : join 2 (low 2) = 0x0202 := by decide
  have hle : Cond.holds (subFlags (2 : Word16) 18) .le = true := by decide
  simp only [runBoot, loadKernelCode, loadLoopCode, readSectorsCode, List.cons_append,
    List.nil_append, run16, exec16, Cpu16.set, Cpu16.set8, Cpu16.get, hdx, hcx, Cpu16.push, hle,
    if_true, bootCode, hax]
  rfl

/-- A read that succeeds ends the loop: no sector is left. -/
theorem run16_afterRead (bios : Byte → Cpu16 → Cpu16) (next : Word16) (fuel : Nat)
    (hcf : c.flags.cf = false) (hax : c.top = 2) (hcx : (c.pop .ax).top = 2) :
    ∃ c', run16 (bootCode next) bios (fuel + 5) afterRead c = some (.kernelLoaded, c') ∧
      c'.mem = c.mem := by
  -- The carry is clear, both words are 2, and 2 - 2 is zero.
  have hcarry : Cond.holds c.flags .c = false := hcf
  have hzero : Cond.holds (subFlags (2 : Word16) 2) .z = true := by decide
  refine ⟨exec16 (exec16 (exec16 c (.pop .ax)) (.pop .cx)) (.sub .cx .ax), ?_, rfl⟩
  have hsub : (exec16 (exec16 (exec16 c (.pop .ax)) (.pop .cx)) (.sub .cx .ax)).flags =
      subFlags (c.pop .ax).top c.top := rfl
  rw [hax, hcx] at hsub
  simp only [afterRead, readSectorsCode, List.drop, run16, hcarry, hsub, hzero, bootCode]
  rfl

theorem kernelByte_toNat {n : Nat} (hn : n < 2 ^ 19) : (kernelByte n).toNat = 0x1000 + n := by
  have hbase : (physical 0 kernelOffset).toNat = 0x1000 := by decide
  rw [kernelByte, BitVec.toNat_add, hbase, BitVec.toNat_ofNat]
  omega

/-- The request that the registers make: two sectors, from cylinder 0, head 0, sector 2 on. -/
structure TwoSectors (c : Cpu16) : Prop where
  al : c.get8 .al = 2
  ah : c.get8 .ah = 2
  cl : c.get8 .cl = 2
  ch : c.get8 .ch = 0
  dl : c.get8 .dl = 0
  dh : c.get8 .dh = 0

theorem twoSectors_inBios (next : Word16) (c : Cpu16) : TwoSectors (inBios next c) where
  al := (by decide : low 0x0202 = 2)
  ah := (by decide : high 0x0202 = 2)
  cl := (by decide : low 2 = 2)
  ch := (by decide : high 2 = 0)
  dl := (by decide : low 0 = 0)
  dh := (by decide : high 0 = 0)

theorem TwoSectors.requestSize (h : TwoSectors c) : requestSize c = 1024 := by
  rw [RealMode.requestSize, h.al]
  rfl

theorem TwoSectors.firstSector (h : TwoSectors c) : firstSector c = 1 := by
  rw [RealMode.firstSector, h.ch, h.cl, h.dh]
  rfl

theorem TwoSectors.readRequest (h : TwoSectors c) : ReadRequest c where
  function := h.ah
  drive := h.dl
  head := by
    rw [h.dh]
    decide
  sector := by
    rw [h.cl]
    decide

/-- The buffer of the read starts at `KERNEL_OFFSET`. -/
theorem bufferByte_inBios (h : AtLoadKernel c) (k : Nat) :
    bufferByte (inBios next c) k = kernelByte k := by
  have hes : (inBios next c).es = 0 := h.es
  rw [bufferByte, hes]
  rfl

/-! ## The stack -/

theorem physical_zero_toNat (off : Word16) : (physical 0 off).toNat = off.toNat := by
  unfold physical
  bv_omega

/-- The addresses of the stack below the two words that the loop pushes: the frame of `int 0x13`,
and the `depth` bytes that the BIOS may use below it. -/
def BelowWords (depth addr : Nat) : Prop := 0x6FF6 - depth ≤ addr ∧ addr < 0x6FFC

instance (depth addr : Nat) : Decidable (BelowWords depth addr) :=
  inferInstanceAs (Decidable (_ ∧ _))

theorem inBios_sp (h : AtLoadKernel c) : (inBios next c).sp = 0x6FF6 := by
  simp only [inBios, Cpu16.enter, atRead, Cpu16.push, h.sp]
  rfl

theorem freeStack_inBios (h : AtLoadKernel c) (hdepth : depth ≤ 0x6FF6) (a : PhysAddr) :
    FreeStack depth (inBios next c) a ↔ BelowWords depth a.toNat := by
  have hss : (inBios next c).ss = 0 := h.ss
  -- The stack does not wrap: `j` bytes below its last byte is the address 0x6FFB - j.
  have hplace (j : Nat) (hj : j < depth + 6) :
      (physical 0 ((0x6FF6 : Word16) + 5 - BitVec.ofNat 16 j)).toNat = 0x6FFB - j := by
    rw [physical_zero_toNat]
    bv_omega
  simp only [FreeStack, inBios_sp h, hss, BelowWords]
  constructor
  · rintro ⟨j, hj, rfl⟩
    rw [hplace j hj]
    omega
  · rintro ⟨hlo, hhi⟩
    refine ⟨0x6FFB - a.toNat, by omega, BitVec.eq_of_toNat_eq ?_⟩
    rw [hplace _ (by omega)]
    omega

/-- Memory when the BIOS gets control, but for the frame that `int` has pushed. -/
theorem inBios_mem (h : AtLoadKernel c) {a : PhysAddr} (ha : ¬ BelowWords depth a.toNat) :
    (inBios next c).mem a = ((c.push 2).push 2).mem a := by
  -- The six bytes of the frame are 0x6FF6 to 0x6FFB.
  have hne (off : Word16) (hlo : 0x6FF6 ≤ off.toNat) (hhi : off.toNat < 0x6FFC) :
      a ≠ physical 0 off := by
    rintro rfl
    rw [physical_zero_toNat] at ha
    exact ha ⟨by omega, hhi⟩
  simp only [inBios, Cpu16.enter, atRead, Cpu16.push, h.sp, h.ss, write16]
  rw [Function.update_of_ne (hne _ (by decide) (by decide)),
    Function.update_of_ne (hne _ (by decide) (by decide)),
    Function.update_of_ne (hne _ (by decide) (by decide)),
    Function.update_of_ne (hne _ (by decide) (by decide)),
    Function.update_of_ne (hne _ (by decide) (by decide)),
    Function.update_of_ne (hne _ (by decide) (by decide))]

/-- The disk service leaves alone what is neither its buffer nor below the words pushed. -/
theorem diskRead_kept (hread : DiskRead disk depth (inBios next c) c') (h : AtLoadKernel c)
    (hdepth : depth ≤ 0x6FF6) {a : PhysAddr} (hlo : 0x1400 ≤ a.toNat) (hhi : a.toNat < 0x80000)
    (ha : ¬ BelowWords depth a.toNat) :
    c'.mem a = ((c.push 2).push 2).mem a := by
  rw [← inBios_mem h ha]
  apply hread.other
  · rw [(twoSectors_inBios next c).requestSize]
    rintro k hk rfl
    rw [bufferByte_inBios h, kernelByte_toNat (by omega)] at hlo
    omega
  · rw [freeStack_inBios h hdepth]
    exact ha
  · rintro (hbios | hbios)
    all_goals omega

/-- The loader reads two sectors. The rest of the kernel's area is as before, but for what the BIOS
leaves on the stack. -/
theorem runBoot_spec (bios : Byte → Cpu16 → Cpu16) (next : Word16)
    (hbios : ReadsSectors disk depth (bios 0x13)) (hdepth : depth ≤ 0x6FF6) (h : AtLoadKernel c) :
    ∃ c', runBoot bios next 18 c = some (.kernelLoaded, c') ∧
      c'.mem = (bios 0x13 (inBios next c)).mem ∧
      (∀ n, n < 1024 → c'.mem (kernelByte n) = disk (512 + n)) ∧
      (∀ n, 1024 ≤ n → n < 512 * kernelSectors → ¬ BelowWords depth (0x1000 + n) →
        c'.mem (kernelByte n) = ((c.push 2).push 2).mem (kernelByte n)) := by
  have htwo := twoSectors_inBios next c
  have hread := hbios _ htwo.readRequest
  obtain ⟨hcf, ⟨-, -, -, hsp⟩, ⟨-, -, -, hss⟩, hdata, -⟩ := hread
  simp only [htwo.requestSize, htwo.firstSector, bufferByte_inBios h] at hdata
  have hsp' : (bios 0x13 (inBios next c)).sp = 0x6FFC := by
    rw [hsp, inBios_sp h]
    rfl
  have hss' : (bios 0x13 (inBios next c)).ss = 0 := hss.trans h.ss
  have hmem : ((c.push 2).push 2).mem = write16 (write16 c.mem 0 0x6FFE 2) 0 0x6FFC 2 := by
    simp only [Cpu16.push, h.sp, h.ss]
    rfl
  -- The words pushed are still there after the read.
  have hstack (off : Word16) (hlo : 0x6FFC ≤ (physical 0 off).toNat) :
      (bios 0x13 (inBios next c)).mem (physical 0 off) =
        write16 (write16 c.mem 0 0x6FFE 2) 0 0x6FFC 2 (physical 0 off) := by
    rw [← hmem]
    have hoff := physical_zero_toNat off
    have hlt := off.isLt
    apply diskRead_kept (hbios _ htwo.readRequest) h hdepth (by omega) (by omega)
    rintro ⟨-, hbelow⟩
    omega
  have hax : (bios 0x13 (inBios next c)).top = 2 := by
    rw [Cpu16.top, hsp', hss', read16, hstack _ (by decide), hstack _ (by decide)]
    exact read16_write16_self _ 0 0x6FFC 2
  have hcx : ((bios 0x13 (inBios next c)).pop .ax).top = 2 := by
    have htop : ((bios 0x13 (inBios next c)).pop .ax).top =
        read16 (bios 0x13 (inBios next c)).mem (bios 0x13 (inBios next c)).ss
          ((bios 0x13 (inBios next c)).sp + 2) := rfl
    rw [htop, hsp', hss', read16, hstack _ (by decide), hstack _ (by decide)]
    have hbelow : read16 (write16 (write16 c.mem 0 0x6FFE 2) 0 0x6FFC 2) 0 0x6FFE =
        read16 (write16 c.mem 0 0x6FFE 2) 0 0x6FFE :=
      read16_write16_of_ne _ 2 (by decide) (by decide) (by decide)
    exact hbelow.trans (read16_write16_self c.mem 0 0x6FFE 2)
  obtain ⟨c', hrun, hmem'⟩ := run16_afterRead bios next 0 hcf hax hcx
  refine ⟨c', (runBoot_inBios bios next 5 c).trans hrun, hmem', ?_, ?_⟩
  · intro n hn
    rw [hmem', hdata n hn]
  · intro n hlo hhi hn
    have hlast : kernelSectors = 170 := rfl
    have hplace : (kernelByte n).toNat = 0x1000 + n := kernelByte_toNat (by omega)
    rw [hmem']
    apply diskRead_kept (hbios _ htwo.readRequest) h hdepth (by omega) (by omega)
    rw [hplace]
    exact hn

/-! ## What is loaded -/

/-- From the third sector on the kernel is in memory without being read: it was there before
`load_kernel`, with the two words that the loop pushes, and where the stack goes below these words
the BIOS leaves it there. -/
structure RestLoaded (disk : Disk) (bios : Byte → Cpu16 → Cpu16) (next : Word16) (depth : Nat)
    (c : Cpu16) : Prop where
  before : ∀ n, 1024 ≤ n → n < 512 * kernelSectors → ¬ BelowWords depth (0x1000 + n) →
    ((c.push 2).push 2).mem (kernelByte n) = disk (512 + n)
  stack : ∀ n, 1024 ≤ n → n < 512 * kernelSectors → BelowWords depth (0x1000 + n) →
    (bios 0x13 (inBios next c)).mem (kernelByte n) = disk (512 + n)

/-- All sectors are loaded if and only if all bytes are. -/
theorem sectorsLoaded_iff (mem : PhysAddr → Byte) :
    (∀ i, i < kernelSectors → SectorLoaded disk mem i) ↔
      ∀ n, n < 512 * kernelSectors → mem (kernelByte n) = disk (512 + n) := by
  constructor
  · intro hall n hn
    have hbyte := hall (n / 512) (by omega) (n % 512) (by omega)
    have hplace : 512 * (n / 512) + n % 512 = n := Nat.div_add_mod n 512
    rw [Nat.mul_add, Nat.add_assoc, hplace] at hbyte
    exact hbyte
  · intro hall i hi k hk
    rw [hall (512 * i + k) (by omega)]
    congr 1
    omega

/-- The loader gets to `kernel_loaded`, and the kernel is in memory there if and only if the
sectors from the third on are there without it. -/
theorem loadsKernel_iff (hbios : ReadsSectors disk depth (bios 0x13)) (hdepth : depth ≤ 0x6FF6)
    (h : AtLoadKernel c) :
    LoadsKernel disk bios next c ↔ RestLoaded disk bios next depth c := by
  obtain ⟨c', hrun, hmem, hread, hkept⟩ := runBoot_spec bios next hbios hdepth h
  constructor
  · -- What is in these sectors' places at the end was there before, or is what the BIOS left.
    intro hloads
    have hbytes := (sectorsLoaded_iff c'.mem).mp (hloads.loaded 18 c' hrun)
    constructor
    · intro n hlo hhi hn
      rw [← hkept n hlo hhi hn]
      exact hbytes n hhi
    · intro n hlo hhi hn
      rw [← hmem]
      exact hbytes n hhi
  · intro hrest
    refine ⟨⟨18, c', hrun⟩, ?_⟩
    intro fuel c'' hrun'
    -- There is one run, whatever the fuel.
    obtain rfl : c' = c'' := (Prod.mk.inj (run16_unique hrun hrun')).2
    rw [sectorsLoaded_iff]
    intro n hn
    by_cases hlo : n < 1024
    · -- The two sectors that are read.
      exact hread n hlo
    · by_cases hbelow : BelowWords depth (0x1000 + n)
      · rw [hmem]
        exact hrest.stack n (by omega) hn hbelow
      · rw [hkept n (by omega) hn hbelow]
        exact hrest.before n (by omega) hn hbelow

/-- A processor with empty memory, as `start` leaves it. -/
def bootCpu : Cpu16 where
  ax := 0
  bx := 0
  cx := 0
  dx := 0
  sp := 0x7000
  cs := 0
  ds := 0
  es := 0
  ss := 0
  flags := ⟨false, false, false, false, false, false⟩
  system := 0x0202
  mem := fun _ => 0

theorem atLoadKernel_bootCpu : AtLoadKernel bootCpu := ⟨rfl, rfl, rfl⟩

/-- An empty disk, read by copying. -/
theorem loadsKernel_iff_emptyDisk :
    LoadsKernel (fun _ => 0) (fun _ => copySectors fun _ => 0) 0x7C40 bootCpu ↔
      RestLoaded (fun _ => 0) (fun _ => copySectors fun _ => 0) 0x7C40 0 bootCpu :=
  loadsKernel_iff (readsSectors_copySectors _ _) (by decide) atLoadKernel_bootCpu

/-- A disk full of ones: the third sector is not read. -/
theorem not_forall_loadsKernel : ¬ ∀ disk bios next depth c, ReadsSectors disk depth (bios 0x13) →
    depth ≤ 0x6FF6 → AtLoadKernel c → LoadsKernel disk bios next c := by
  intro hall
  have hreads := readsSectors_copySectors (fun _ => 1) 0
  have hloads := hall (fun _ => 1) (fun _ => copySectors fun _ => 1) 0x7C40 0 bootCpu hreads
    (by decide) atLoadKernel_bootCpu
  obtain ⟨c', hrun, -, -, hkept⟩ := runBoot_spec (fun _ => copySectors fun _ => 1) 0x7C40 hreads
    (by decide) atLoadKernel_bootCpu
  have hone := hloads.loaded 18 c' hrun 2 (by decide) 0 (by decide)
  have hzero := hkept 1024 (by decide) (by decide) (by decide)
  exact absurd (hone.symm.trans hzero) (by decide)

end KyroKernel
