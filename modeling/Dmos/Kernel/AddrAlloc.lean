import Dmos.Kernel.Bitmap
import Mathlib.Data.List.Nodup

/-!
# The page allocator

`AddrAlloc` is the allocator of `mem.c`: a bitmap over the pages of an address range.
`freePages` lists the pages whose bit is clear, in ascending order.  Allocating a page
takes the first of them (`addrAllocPage_of_free`), and freeing a page of the range clears
its bit (`marked_addrFreePage`); freeing an address outside the range does nothing
(`addrFreePage_of_outside`).
-/

namespace Dmos

/-- A number as a 32-bit word. -/
def u32 (n : Nat) : Nat :=
  n % 2 ^ 32

/-- The 32-bit difference of two words. -/
def u32Sub (a b : Nat) : Nat :=
  (a + 2 ^ 32 - b) % 2 ^ 32

theorem u32_of_lt {n : Nat} (h : n < 2 ^ 32) :
  u32 n = n
  := Nat.mod_eq_of_lt h

theorem u32_lt (n : Nat) :
  u32 n < 2 ^ 32
  := Nat.mod_lt _ (by decide)

theorem u32Sub_of_le {a b : Nat} (h : b ≤ a) (ha : a < 2 ^ 32) :
  u32Sub a b = a - b
  := by
  unfold u32Sub
  omega

/-- The allocator of a range of pages. -/
structure AddrAlloc where
  bitmap : Bitmap
  start : Nat
  size : Nat
  pageSize : Nat

def addrAllocInit (bits : Nat → UInt8) (start size pageSize : Nat) : AddrAlloc where
  bitmap := bitmapInit bits (size / pageSize) 0
  start := start
  size := size
  pageSize := pageSize

def addrAllocPage (alloc : AddrAlloc) (pageCount : Nat) : Nat × AddrAlloc :=
  match bitmapAllocNbits alloc.bitmap 0 pageCount with
  | (pageIndex, bitmap) =>
      (if 0 ≤ pageIndex then u32 (alloc.start + pageIndex.toNat * alloc.pageSize) else 0,
        { alloc with bitmap := bitmap })

def addrFreePage (alloc : AddrAlloc) (addr pageCount : Nat) : AddrAlloc :=
  let pgIndex := u32Sub addr alloc.start / alloc.pageSize
  { alloc with bitmap := bitmapSetBit alloc.bitmap pgIndex pageCount 0 }

namespace AddrAlloc

/-- The range of the allocator does not contain address `0` and does not pass the end of
the 32-bit addresses. -/
structure Wf (alloc : AddrAlloc) : Prop where
  start_pos : 0 < alloc.start
  pageSize_pos : 0 < alloc.pageSize
  end_le : alloc.start + alloc.bitmap.bitCount * alloc.pageSize ≤ 2 ^ 32

/-- The address of page `i` of the range. -/
def page (alloc : AddrAlloc) (i : Nat) : Nat :=
  alloc.start + i * alloc.pageSize

/-- The free pages, in ascending order. -/
def freePages (alloc : AddrAlloc) : List Nat :=
  alloc.bitmap.clearBits.map alloc.page

/-- `addr` is a page of the range whose bit is set. -/
def Marked (alloc : AddrAlloc) (addr : Nat) : Prop :=
  ∃ i < alloc.bitmap.bitCount, bitmapGetBit alloc.bitmap i ≠ 0 ∧ alloc.page i = addr

/-- Two states of an allocator of one range. -/
structure SameRange (alloc alloc' : AddrAlloc) : Prop where
  start : alloc'.start = alloc.start
  size : alloc'.size = alloc.size
  pageSize : alloc'.pageSize = alloc.pageSize
  bitCount : alloc'.bitmap.bitCount = alloc.bitmap.bitCount

theorem SameRange.refl (alloc : AddrAlloc) :
  alloc.SameRange alloc
  := ⟨rfl, rfl, rfl, rfl⟩

theorem SameRange.trans {alloc alloc' alloc'' : AddrAlloc} (h : alloc.SameRange alloc')
    (h' : alloc'.SameRange alloc'') :
  alloc.SameRange alloc''
  := ⟨h'.start.trans h.start, h'.size.trans h.size, h'.pageSize.trans h.pageSize,
    h'.bitCount.trans h.bitCount⟩

theorem SameRange.wf {alloc alloc' : AddrAlloc} (h : alloc.SameRange alloc') (hwf : alloc.Wf) :
  alloc'.Wf
  where
  start_pos := h.start ▸ hwf.start_pos
  pageSize_pos := h.pageSize ▸ hwf.pageSize_pos
  end_le := by
    rw [h.start, h.pageSize, h.bitCount]
    apply hwf.end_le

theorem SameRange.page {alloc alloc' : AddrAlloc} (h : alloc.SameRange alloc') (i : Nat) :
  alloc'.page i = alloc.page i
  := by
  rw [AddrAlloc.page, AddrAlloc.page, h.start, h.pageSize]

theorem page_injective {alloc : AddrAlloc} (hwf : alloc.Wf) {i j : Nat}
    (h : alloc.page i = alloc.page j) :
  i = j
  := by
  unfold page at h
  apply Nat.eq_of_mul_eq_mul_right hwf.pageSize_pos
  omega

theorem page_lt {alloc : AddrAlloc} (hwf : alloc.Wf) {i : Nat}
    (h : i < alloc.bitmap.bitCount) :
  alloc.page i + alloc.pageSize ≤ 2 ^ 32
  := by
  have hmul := Nat.mul_le_mul_right alloc.pageSize (Nat.succ_le_of_lt h)
  have hend := hwf.end_le
  rw [Nat.succ_mul] at hmul
  unfold page
  omega

theorem mem_freePages {alloc : AddrAlloc} {addr : Nat} :
  addr ∈ alloc.freePages ↔
    ∃ i < alloc.bitmap.bitCount, bitmapGetBit alloc.bitmap i = 0 ∧ alloc.page i = addr
  := by
  simp [freePages, Bitmap.mem_clearBits, and_assoc]

theorem nodup_freePages {alloc : AddrAlloc} (hwf : alloc.Wf) :
  alloc.freePages.Nodup
  := by
  apply List.Nodup.map_on
  · intro i _ j _ h
    apply page_injective hwf h
  · apply Bitmap.nodup_clearBits

/-- No page is both marked and free. -/
theorem Marked.not_mem_freePages {alloc : AddrAlloc} (hwf : alloc.Wf) {addr : Nat}
    (h : alloc.Marked addr) :
  addr ∉ alloc.freePages
  := by
  obtain ⟨i, -, hbit, rfl⟩ := h
  rw [mem_freePages]
  rintro ⟨j, -, hzero, hpage⟩
  apply hbit
  rw [← page_injective hwf hpage, hzero]

end AddrAlloc

/-! ### Allocating a page -/

theorem addrAllocPage_sameRange (alloc : AddrAlloc) :
  alloc.SameRange (addrAllocPage alloc 1).2
  := by
  unfold addrAllocPage
  rw [bitmapAllocNbits_one]
  rcases alloc.bitmap.clearBits with _ | ⟨i, rest⟩
  · apply AddrAlloc.SameRange.refl
  · use rfl, rfl, rfl
    apply bitmapSetBit_bitCount

/-- Without a free page, allocation returns `0` and changes nothing. -/
theorem addrAllocPage_of_full {alloc : AddrAlloc} (h : alloc.freePages = []) :
  addrAllocPage alloc 1 = (0, alloc)
  := by
  have hclear := List.map_eq_nil_iff.mp h
  unfold addrAllocPage
  rw [bitmapAllocNbits_one, hclear]
  rfl

/-- An allocation takes the first clear bit. -/
theorem addrAllocPage_of_clear {alloc : AddrAlloc} {i : Nat} {rest : List Nat}
    (h : alloc.bitmap.clearBits = i :: rest) :
  addrAllocPage alloc 1
    = (u32 (alloc.page i), { alloc with bitmap := bitmapSetBit alloc.bitmap i 1 (~~~ 0) })
  := by
  unfold addrAllocPage
  rw [bitmapAllocNbits_one, h]
  simp [AddrAlloc.page]

/-- With a free page, allocation returns the first one, whose bit it sets. -/
theorem addrAllocPage_of_free {alloc : AddrAlloc} (hwf : alloc.Wf) {addr : Nat}
    {rest : List Nat} (h : alloc.freePages = addr :: rest) :
  (addrAllocPage alloc 1).1 = addr ∧ (addrAllocPage alloc 1).2.freePages = rest ∧
    ∀ g, (addrAllocPage alloc 1).2.Marked g ↔ alloc.Marked g ∨ g = addr
  := by
  obtain ⟨i, rest', hclear, rfl, rfl⟩ := List.map_eq_cons_iff.mp h
  have hi : i ∈ alloc.bitmap.clearBits := by
    rw [hclear]
    apply List.mem_cons_self
  have hrange := (Bitmap.mem_clearBits.mp hi).1
  rw [addrAllocPage_of_clear hclear]
  constructor
  · have hlt := AddrAlloc.page_lt hwf hrange
    have hpos := hwf.pageSize_pos
    apply u32_of_lt
    omega
  constructor
  · unfold AddrAlloc.freePages
    rw [Bitmap.clearBits_setBit hclear]
    rfl
  · intro g
    unfold AddrAlloc.Marked
    simp only [bitmapSetBit_bitCount]
    constructor
    · rintro ⟨j, hj, hbit, rfl⟩
      rw [bitmapGetBit_setBit _ _ _ _ hj] at hbit
      by_cases hji : j = i
      · right
        rw [hji]
        rfl
      · left
        rw [if_neg (by omega)] at hbit
        use j, hj, hbit
        rfl
    · rintro (⟨j, hj, hbit, rfl⟩ | rfl)
      · use j, hj
        rw [bitmapGetBit_setBit _ _ _ _ hj]
        constructor
        · by_cases hji : i ≤ j ∧ j < i + 1
          · rw [if_pos hji]
            decide
          · rw [if_neg hji]
            apply hbit
        · rfl
      · use i, hrange
        rw [bitmapGetBit_setBit _ _ _ _ hrange, if_pos (by omega)]
        constructor
        · decide
        · rfl

/-! ### Freeing a page -/

theorem addrFreePage_sameRange (alloc : AddrAlloc) (addr pageCount : Nat) :
  alloc.SameRange (addrFreePage alloc addr pageCount)
  := by
  use rfl, rfl, rfl
  apply bitmapSetBit_bitCount

/-- Setting bits from beyond the end of a bitmap on changes nothing. -/
theorem bitmapSetBit_of_outside {bitmap : Bitmap} {index : Nat} (h : bitmap.bitCount ≤ index)
    (count : Nat) (bit : Int) :
  bitmapSetBit bitmap index count bit = bitmap
  := by
  rcases count with _ | count
  · rfl
  · rw [bitmapSetBit, if_neg (by omega)]

/-- Freeing an address whose page index lies beyond the bitmap changes nothing. -/
theorem addrFreePage_of_outside {alloc : AddrAlloc} {addr : Nat}
    (h : alloc.bitmap.bitCount ≤ u32Sub addr alloc.start / alloc.pageSize) (pageCount : Nat) :
  addrFreePage alloc addr pageCount = alloc
  := by
  unfold addrFreePage
  simp only [bitmapSetBit_of_outside h]

/-- Freeing a page of the range clears its mark and no other. -/
theorem marked_addrFreePage {alloc : AddrAlloc} (hwf : alloc.Wf) {i : Nat}
    (hi : i < alloc.bitmap.bitCount) {addr : Nat} (haddr : alloc.page i ≤ addr)
    (haddr' : addr < alloc.page i + alloc.pageSize) (g : Nat) :
  (addrFreePage alloc addr 1).Marked g ↔ alloc.Marked g ∧ g ≠ alloc.page i
  := by
  have hlt := AddrAlloc.page_lt hwf hi
  have hindex : u32Sub addr alloc.start / alloc.pageSize = i := by
    unfold AddrAlloc.page at haddr haddr' hlt
    rw [u32Sub_of_le (by omega) (by omega)]
    apply Nat.div_eq_of_lt_le
    · omega
    · rw [Nat.succ_mul]
      omega
  unfold AddrAlloc.Marked addrFreePage
  simp only [hindex, bitmapSetBit_bitCount]
  constructor
  · rintro ⟨j, hj, hbit, rfl⟩
    rw [bitmapGetBit_setBit _ _ _ _ hj] at hbit
    by_cases hji : j = i
    · rw [if_pos (by omega)] at hbit
      simp at hbit
    · rw [if_neg (by omega)] at hbit
      constructor
      · use j, hj, hbit
        rfl
      · intro heq
        apply hji
        apply AddrAlloc.page_injective hwf heq
  · rintro ⟨⟨j, hj, hbit, rfl⟩, hne⟩
    have hji : j ≠ i := by
      rintro rfl
      apply hne rfl
    use j, hj
    rw [bitmapGetBit_setBit _ _ _ _ hj, if_neg (by omega)]
    constructor
    · apply hbit
    · rfl

end Dmos
