import KyroKernel.Foundations.X86Paging

/-!
# The kernel heap

`kernel/utils/memory.c`: a bump allocator between 3 MB and 8 MB. `kfree` frees nothing, so
`heap_current` is the whole state of the heap.
-/

namespace KyroKernel

open Foundations

/-- The initial value of `heap_current`. -/
def heapStart : Word := 0x300000

/-- `heap_end`, which no function changes. -/
def heapEnd : Word := 0x800000

/-- `kmalloc`: the address handed out, 0 when out of memory, and the new `heap_current`. -/
def kmalloc (heapCurrent size : Word) : Word × Word :=
  let size := (size + 3) &&& ~~~3
  if heapEnd ≤ heapCurrent + size then (0, heapCurrent)
  else (heapCurrent, heapCurrent + size)

/-- `kmalloc_a`: move `heap_current` up to a page boundary, then allocate. -/
def kmallocA (heapCurrent size : Word) : Word × Word :=
  kmalloc ((heapCurrent + 0xFFF) &&& ~~~0xFFF) size

/-- `kmalloc_ap` with a non-NULL `phys_addr`: the address, `*phys_addr`, `heap_current`. -/
def kmallocAp (heapCurrent size : Word) : Word × Word × Word :=
  let (addr, heapCurrent) := kmallocA heapCurrent size
  (addr, addr, heapCurrent)

/-- `kmalloc_p`: the address, what `*phys_addr` holds afterwards (`none` for a NULL
`phys_addr`), `heap_current`. -/
def kmallocP (heapCurrent size : Word) (physAddr : Option Word) : Word × Option Word × Word :=
  let (addr, heapCurrent) := kmalloc heapCurrent size
  (addr, physAddr.map fun _ => addr, heapCurrent)

/-- `kfree` frees nothing; the result is the unchanged `heap_current`. -/
def kfree (heapCurrent _ptr : Word) : Word := heapCurrent

/-- `malloc`: a `size_t` is 32 bits wide, the cast to a pointer changes nothing. -/
def malloc (heapCurrent size : Word) : Word × Word := kmalloc heapCurrent size

/-- `free`. -/
def free (heapCurrent ptr : Word) : Word := kfree heapCurrent ptr

/-! ## What a request returns -/

/-- A request of `n` bytes, no more than the heap could ever hold. The sizes the kernel asks
for are multiples of four, so the rounding of `kmalloc` leaves them alone. -/
structure RequestSize (size : Word) (n : Nat) : Prop where
  toNat : size.toNat = n
  rounded : (size + 3) &&& ~~~3 = size
  le : n ≤ 0x800000

variable {hc size : Word} {n : Nat}

/-- `kmalloc` either hands out the old `heap_current` and moves past the block, or returns
0 and changes nothing. -/
theorem kmalloc_cases (hsize : RequestSize size n) (hhc : hc.toNat ≤ 0x800000) :
    (kmalloc hc size = (hc, hc + size) ∧ (hc + size).toNat = hc.toNat + n ∧
      hc.toNat + n < 0x800000) ∨
    (kmalloc hc size = (0, hc) ∧ 0x800000 ≤ hc.toNat + n) := by
  obtain ⟨hn, hrounded, hle⟩ := hsize
  have hadd : (hc + size).toNat = hc.toNat + n := by
    rw [BitVec.toNat_add, hn]
    omega
  have hend : heapEnd ≤ hc + size ↔ 0x800000 ≤ hc.toNat + n := by
    rw [BitVec.le_def, hadd]
    rfl
  unfold kmalloc
  rw [hrounded]
  by_cases h : heapEnd ≤ hc + size
  · right
    exact ⟨by simp [h], hend.mp h⟩
  · left
    exact ⟨by simp [h], hadd, Nat.lt_of_not_le fun hge => h (hend.mpr hge)⟩

/-- The page boundary at or above an address, as `kmalloc_a` computes it. -/
theorem toNat_pageAlign (hhc : hc.toNat ≤ 0x800000) :
    ((hc + 0xFFF) &&& ~~~0xFFF).toNat = (hc.toNat + 4095) / 4096 * 4096 := by
  have h : (hc + 0xFFF) &&& ~~~0xFFF = frameOf (hc + 0xFFF) := rfl
  rw [h, toNat_frameOf, BitVec.toNat_add]
  have : (hc.toNat + (0xFFF : Word).toNat) % 2 ^ 32 = hc.toNat + 4095 := by
    simp
    omega
  rw [this]

/-- `kmalloc_a` allocates at the next page boundary `a`, or returns 0 and leaves
`heap_current` at that boundary. -/
theorem kmallocA_cases (hsize : RequestSize size n) (hhc : hc.toNat ≤ 0x800000) :
    ∃ a : Word, a.toNat = (hc.toNat + 4095) / 4096 * 4096 ∧
      ((kmallocA hc size = (a, a + size) ∧ (a + size).toNat = a.toNat + n ∧
        a.toNat + n < 0x800000) ∨
      (kmallocA hc size = (0, a) ∧ 0x800000 ≤ a.toNat + n)) := by
  have ha := toNat_pageAlign hhc
  exact ⟨_, ha, kmalloc_cases hsize (by omega)⟩

/-- `kmalloc` serves a request that ends before the end of the heap. -/
theorem kmalloc_ne_zero_iff (hsize : RequestSize size n) (hhc : hc.toNat ≤ 0x800000)
    (hpos : hc ≠ 0) : (kmalloc hc size).1 ≠ 0 ↔ hc.toNat + n < 0x800000 := by
  rcases kmalloc_cases hsize hhc with ⟨hk, -, hlt⟩ | ⟨hk, hge⟩
  · rw [hk]
    exact ⟨fun _ => hlt, fun _ => hpos⟩
  · rw [hk]
    exact ⟨fun h0 => absurd rfl h0, fun hlt => absurd hlt (Nat.not_lt.mpr hge)⟩

/-- `kmalloc_a` serves it from the next page boundary on. -/
theorem kmallocA_ne_zero_iff (hsize : RequestSize size n) (hhc : hc.toNat ≤ 0x800000)
    (hpos : hc ≠ 0) :
    (kmallocA hc size).1 ≠ 0 ↔ (hc.toNat + 4095) / 4096 * 4096 + n < 0x800000 := by
  have ha := toNat_pageAlign hhc
  have hne : (hc + 0xFFF) &&& ~~~0xFFF ≠ 0 := by
    intro h0
    rw [h0] at ha
    refine hpos (BitVec.eq_of_toNat_eq ?_)
    simp at ha ⊢
    omega
  unfold kmallocA
  rw [kmalloc_ne_zero_iff hsize (by omega) hne, ha]

/-- `kmalloc` never moves `heap_current` down or past the end of the heap. -/
theorem kmalloc_grows (hsize : RequestSize size n) (hhc : hc.toNat ≤ 0x800000) :
    hc.toNat ≤ (kmalloc hc size).2.toNat ∧ (kmalloc hc size).2.toNat ≤ 0x800000 := by
  rcases kmalloc_cases hsize hhc with ⟨hk, hadd, hlt⟩ | ⟨hk, -⟩
  · rw [hk]
    exact ⟨by simp only; omega, by simp only; omega⟩
  · rw [hk]
    exact ⟨Nat.le_refl _, hhc⟩

/-- Neither does `kmalloc_a`, which stops at a page boundary when it fails. -/
theorem kmallocA_grows (hsize : RequestSize size n) (hhc : hc.toNat ≤ 0x800000) :
    hc.toNat ≤ (kmallocA hc size).2.toNat ∧ (kmallocA hc size).2.toNat ≤ 0x800000 := by
  have ha := toNat_pageAlign hhc
  have haligned : ((hc + 0xFFF) &&& ~~~0xFFF).toNat ≤ 0x800000 := by omega
  obtain ⟨hge, hle⟩ := kmalloc_grows hsize haligned
  unfold kmallocA
  exact ⟨by omega, hle⟩

/-- `kmalloc` moves `heap_current` up by no more than the request. -/
theorem kmalloc_le (hsize : RequestSize size n) (hhc : hc.toNat ≤ 0x800000) :
    (kmalloc hc size).2.toNat ≤ hc.toNat + n := by
  rcases kmalloc_cases hsize hhc with ⟨hk, hadd, -⟩ | ⟨hk, -⟩
  · rw [hk]
    exact Nat.le_of_eq hadd
  · rw [hk]
    exact Nat.le_add_right _ _

/-- `kmalloc_a` also goes up to the next page boundary. -/
theorem kmallocA_le (hsize : RequestSize size n) (hhc : hc.toNat ≤ 0x800000) :
    (kmallocA hc size).2.toNat ≤ hc.toNat + 4095 + n := by
  have ha := toNat_pageAlign hhc
  have haligned : ((hc + 0xFFF) &&& ~~~0xFFF).toNat ≤ 0x800000 := by omega
  have hle := kmalloc_le hsize haligned
  unfold kmallocA
  omega

end KyroKernel
