import KyroKernel.Heap

/-!
# Paging structures and the paging functions

`include/memory/paging.h` and `kernel/memory/paging.c`. Page directories, page tables and
the frame bitmap live in memory at the offsets the C structures give them; the globals of
`paging.c` and the two control registers it loads are fields of `PagingState`. Memory is
the flat one: the kernel follows its own pointers with virtual = physical.
-/

namespace KyroKernel

open Foundations

def pageSize : Word := 4096
def pagePresent : Word := 0x01
def pageWritable : Word := 0x02
def pageUser : Word := 0x04

/-! ## Structure layout -/

/-- `sizeof(page_table_t)`: 1024 entries of four bytes. -/
def sizeofPageTable : Nat := 4096

/-- `sizeof(page_directory_t)`: two arrays of 1024 words and `physical_addr`. -/
def sizeofPageDirectory : Nat := 8196

/-- `&dir->tables[i]`; the pointer array is the first member. -/
def tablesSlot (dir i : Word) : Word := dir + 4 * i

/-- `&dir->tables_physical[i]`; the second member, at offset 4096. -/
def tablesPhysicalSlot (dir i : Word) : Word := dir + 4096 + 4 * i

/-- `&dir->physical_addr`; the last member, at offset 8192. -/
def physicalAddrSlot (dir : Word) : Word := dir + 8192

/-- `&table->pages[j]`. -/
def pagesSlot (table j : Word) : Word := table + 4 * j

/-- `dir->tables[i]`. -/
def tables (m : Mem) (dir i : Word) : Word := m.read32 (tablesSlot dir i)

/-- `dir->tables_physical[i]`. -/
def tablesPhysical (m : Mem) (dir i : Word) : Word := m.read32 (tablesPhysicalSlot dir i)

/-- `dir->physical_addr`. -/
def physicalAddr (m : Mem) (dir : Word) : Word := m.read32 (physicalAddrSlot dir)

/-- `table->pages[j]`. -/
def pages (m : Mem) (table j : Word) : Word := m.read32 (pagesSlot table j)

/-- Memory, the globals of `memory.c` and `paging.c`, and the control registers. -/
structure PagingState where
  mem : Mem
  heapCurrent : Word
  kernelDirectory : Word
  currentDirectory : Word
  frames : Word
  nframes : Word
  cr0 : Word
  cr3 : Word

/-! ## Directories -/

/-- `create_page_directory`: the new directory and the state after the call. -/
def createPageDirectory (s : PagingState) : Word × PagingState :=
  let (dir, physAddr, heapCurrent) := kmallocAp s.heapCurrent (BitVec.ofNat 32 sizeofPageDirectory)
  let mem := s.mem.fill dir 0 sizeofPageDirectory
  let mem := mem.write32 (physicalAddrSlot dir) physAddr
  (dir, { s with mem := mem, heapCurrent := heapCurrent })

/-- `switch_page_directory`. -/
def switchPageDirectory (s : PagingState) (dir : Word) : PagingState :=
  { s with currentDirectory := dir, cr3 := physicalAddr s.mem dir }

/-- The branch of `map_page` that creates the missing table of index `pageDirIndex`. The
table pointer is read back from the directory before the `memset`, as the C code does. -/
def newPageTable (s : PagingState) (pageDirIndex flags : Word) : PagingState :=
  let dir := s.currentDirectory
  let (table, tmp, heapCurrent) := kmallocAp s.heapCurrent (BitVec.ofNat 32 sizeofPageTable)
  let mem := s.mem.write32 (tablesSlot dir pageDirIndex) table
  let mem := mem.fill (tables mem dir pageDirIndex) 0 sizeofPageTable
  let mem := mem.write32 (tablesPhysicalSlot dir pageDirIndex) (tmp ||| pagePresent ||| pageWritable)
  let mem :=
    if flags &&& pageUser = 0 then
      mem.write32 (tablesPhysicalSlot dir pageDirIndex)
        (tablesPhysical mem dir pageDirIndex ||| pageUser)
    else mem
  { s with mem := mem, heapCurrent := heapCurrent }

/-- `current_directory->tables[pageDirIndex]->pages[pageTableIndex] = entry`. -/
def setPage (s : PagingState) (pageDirIndex pageTableIndex entry : Word) : PagingState :=
  let table := tables s.mem s.currentDirectory pageDirIndex
  { s with mem := s.mem.write32 (pagesSlot table pageTableIndex) entry }

/-- `map_page`. -/
def mapPage (s : PagingState) (virtualAddr physicalAddr flags : Word) : PagingState :=
  let pageDirIndex := virtualAddr >>> 22
  let pageTableIndex := (virtualAddr >>> 12) &&& 0x3FF
  let s :=
    if tables s.mem s.currentDirectory pageDirIndex = 0 then newPageTable s pageDirIndex flags
    else s
  setPage s pageDirIndex pageTableIndex ((physicalAddr &&& 0xFFFFF000) ||| flags)

/-- `unmap_page`. -/
def unmapPage (s : PagingState) (virtualAddr : Word) : PagingState :=
  let pageDirIndex := virtualAddr >>> 22
  let pageTableIndex := (virtualAddr >>> 12) &&& 0x3FF
  if tables s.mem s.currentDirectory pageDirIndex ≠ 0 then setPage s pageDirIndex pageTableIndex 0
  else s

/-- `get_physical_address`. -/
def getPhysicalAddress (s : PagingState) (virtualAddr : Word) : Word :=
  let pageDirIndex := virtualAddr >>> 22
  let pageTableIndex := (virtualAddr >>> 12) &&& 0x3FF
  let pageOffset := virtualAddr &&& 0xFFF
  if tables s.mem s.currentDirectory pageDirIndex = 0 then 0
  else
    let pageEntry := pages s.mem (tables s.mem s.currentDirectory pageDirIndex) pageTableIndex
    if pageEntry &&& pagePresent = 0 then 0
    else (pageEntry &&& 0xFFFFF000) ||| pageOffset

/-! ## Initialisation -/

/-- The first `n` rounds of the loop of `paging_init`, with `i = 4096 * k` in round `k`. -/
def identityMap (s : PagingState) : Nat → PagingState
  | 0 => s
  | k + 1 =>
    let i := BitVec.ofNat 32 (4096 * k)
    mapPage (identityMap s k) i i (pagePresent ||| pageWritable)

/-- The start of `paging_init`: the cleared frame bitmap for 16 MB. -/
def pagingInitBitmap (s : PagingState) : PagingState :=
  let nframes := 0x1000000 / pageSize
  let (frames, heapCurrent) := kmalloc s.heapCurrent (nframes / 8)
  let mem := s.mem.fill frames 0 (nframes / 8).toNat
  { s with mem := mem, heapCurrent := heapCurrent, frames := frames, nframes := nframes }

/-- The middle of `paging_init`: the zeroed kernel directory, made current. Unlike
`create_page_directory` this leaves `physical_addr` at 0. -/
def pagingInitKernelDirectory (s : PagingState) : PagingState :=
  let (dir, heapCurrent) := kmallocA s.heapCurrent (BitVec.ofNat 32 sizeofPageDirectory)
  let mem := s.mem.fill dir 0 sizeofPageDirectory
  { s with
    mem := mem, heapCurrent := heapCurrent, kernelDirectory := dir, currentDirectory := dir }

/-- The end of `paging_init`: switch to the kernel directory and set the PG bit of CR0. -/
def enablePaging (s : PagingState) : PagingState :=
  let s := switchPageDirectory s s.kernelDirectory
  { s with cr0 := s.cr0 ||| 0x80000000 }

/-- `paging_init`; the 2048 rounds of the loop map the first 8 MB. -/
def pagingInit (s : PagingState) : PagingState :=
  enablePaging (identityMap (pagingInitKernelDirectory (pagingInitBitmap s)) 2048)

/-! ## Frames -/

/-- `&frames[idx]`. -/
def framesSlot (frames idx : Word) : Word := frames + 4 * idx

/-- `set_frame`. -/
def setFrame (s : PagingState) (frameAddr : Word) : PagingState :=
  let frame := frameAddr / pageSize
  if s.nframes ≤ frame then s
  else
    let idx := frame / 32
    let off := frame % 32
    let slot := framesSlot s.frames idx
    { s with mem := s.mem.write32 slot (s.mem.read32 slot ||| (1 : Word) <<< off) }

/-- `clear_frame`. -/
def clearFrame (s : PagingState) (frameAddr : Word) : PagingState :=
  let frame := frameAddr / pageSize
  if s.nframes ≤ frame then s
  else
    let idx := frame / 32
    let off := frame % 32
    let slot := framesSlot s.frames idx
    { s with mem := s.mem.write32 slot (s.mem.read32 slot &&& ~~~((1 : Word) <<< off)) }

/-- `test_frame`; a frame out of range counts as allocated. -/
def testFrame (s : PagingState) (frameAddr : Word) : Word :=
  let frame := frameAddr / pageSize
  if s.nframes ≤ frame then 1
  else
    let idx := frame / 32
    let off := frame % 32
    s.mem.read32 (framesSlot s.frames idx) &&& (1 : Word) <<< off

/-- The inner loop of `first_free_frame`: the first clear bit of the bitmap word `i`. -/
def firstFreeInWord (word : Word) (i : Nat) : Option Word :=
  if word ≠ 0xFFFFFFFF then
    (List.range 32).findSome? fun j =>
      if word &&& (1 : Word) <<< j = 0 then some (BitVec.ofNat 32 (i * 32 + j)) else none
  else none

/-- `first_free_frame`. -/
def firstFreeFrame (s : PagingState) : Word :=
  let found := (List.range (s.nframes / 32).toNat).findSome? fun i =>
    firstFreeInWord (s.mem.read32 (framesSlot s.frames (BitVec.ofNat 32 i))) i
  found.getD (-1)

/-- `alloc_frame`. -/
def allocFrame (s : PagingState) (virtualAddr : Word) (isKernel isWritable : Bool) :
    PagingState :=
  let physicalAddr := firstFreeFrame s * pageSize
  if physicalAddr = -1 then s
  else
    let s := setFrame s physicalAddr
    let flags := pagePresent
    let flags := if isWritable then flags ||| pageWritable else flags
    let flags := if !isKernel then flags ||| pageUser else flags
    mapPage s virtualAddr physicalAddr flags

end KyroKernel
