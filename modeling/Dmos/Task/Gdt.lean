import Dmos.Kernel.Mem

/-!
# Segment descriptors

The global descriptor table of `gdt.c`.  A selector is a 32-bit word; the entry it names is
found by address arithmetic, so the word `(uint32_t)-1`, which reports a full table, names
an entry next to the table and outside of it.
-/

namespace Dmos

structure SegmentDesc where
  limit15_0 : Nat := 0
  base15_0 : Nat := 0
  base23_16 : Nat := 0
  attr : Nat := 0
  base31_24 : Nat := 0

/-- The entries at all indexes; those below `gdtTableSize` are the table. -/
abbrev Gdt : Type :=
  Nat → SegmentDesc

abbrev gdtTableSize : Nat := 256

abbrev kernelSelectorCs : Nat := 1 * 8

abbrev kernelSelectorDs : Nat := 2 * 8

abbrev segPPresent : Nat := 1 <<< 7

abbrev segDpl0 : Nat := 0 <<< 5

abbrev segTypeTss : Nat := 9 <<< 0

abbrev segRpl3 : Nat := 3 <<< 0

def segmentDescSet (gdt : Gdt) (selector base limit attr : Nat) : Gdt :=
  let attr := if 0xfffff < limit then attr ||| 0x8000 else attr
  let limit := if 0xfffff < limit then limit / 0x1000 else limit
  Function.update gdt (selector >>> 3)
    { limit15_0 := limit &&& 0xffff
      base15_0 := base &&& 0xffff
      base23_16 := (base >>> 16) &&& 0xff
      attr := attr ||| (((limit >>> 16) &&& 0xf) <<< 8)
      base31_24 := (base >>> 24) &&& 0xff }

def gdtAllocDesc (gdt : Gdt) : Nat :=
  match (List.range' 1 (gdtTableSize - 1)).find? fun i => (gdt i).attr = 0 with
  | some i => i * 8
  | none => errorWord

def gdtFreeSel (gdt : Gdt) (sel : Nat) : Gdt :=
  Function.update gdt (sel / 8) { gdt (sel / 8) with attr := 0 }

/-- The descriptor `i` of the table is in use. -/
def DescUsed (gdt : Gdt) (i : Nat) : Prop :=
  i < gdtTableSize ∧ (gdt i).attr ≠ 0

/-- The entry an allocated selector names is not in use. -/
theorem gdtAllocDesc_unused (gdt : Gdt) :
  ¬ DescUsed gdt (gdtAllocDesc gdt / 8)
  := by
  rw [gdtAllocDesc]
  cases h : (List.range' 1 (gdtTableSize - 1)).find? fun i => (gdt i).attr = 0 with
  | none =>
      rintro ⟨hlt, -⟩
      revert hlt
      decide
  | some i =>
      rintro ⟨-, hattr⟩
      rw [Nat.mul_div_cancel _ (by decide)] at hattr
      apply hattr
      simpa using List.find?_some h

theorem descUsed_freeSel (gdt : Gdt) (sel i : Nat) :
  DescUsed (gdtFreeSel gdt sel) i ↔ DescUsed gdt i ∧ i ≠ sel / 8
  := by
  by_cases heq : i = sel / 8
  · simp [DescUsed, gdtFreeSel, heq]
  · simp [DescUsed, gdtFreeSel, heq]

theorem descUsed_descSet_of_ne (gdt : Gdt) {selector i : Nat} (base limit attr : Nat)
    (h : i ≠ selector / 8) :
  DescUsed (segmentDescSet gdt selector base limit attr) i ↔ DescUsed gdt i
  := by
  simp [DescUsed, segmentDescSet, Nat.shiftRight_eq_div_pow, h]

/-- Allocating a descriptor, setting it and freeing it again leaves the same descriptors in
use. -/
theorem descUsed_freeSel_alloc (gdt : Gdt) (base limit attr i : Nat) :
  DescUsed (gdtFreeSel (segmentDescSet gdt (gdtAllocDesc gdt) base limit attr) (gdtAllocDesc gdt)) i
    ↔ DescUsed gdt i
  := by
  rw [descUsed_freeSel]
  constructor
  · rintro ⟨hused, hne⟩
    rwa [descUsed_descSet_of_ne _ _ _ _ hne] at hused
  · intro hused
    have hne : i ≠ gdtAllocDesc gdt / 8 := by
      rintro rfl
      apply gdtAllocDesc_unused gdt hused
    rw [descUsed_descSet_of_ne _ _ _ _ hne]
    use hused

end Dmos
