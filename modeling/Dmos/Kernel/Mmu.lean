import Mathlib.Data.Nat.Bitwise

/-!
# Page directory and page table entries

The constants and the entry accessors of `mem.h` and `mmu.h`.  Entries are 32-bit words;
the lemmas give each accessor as arithmetic on the word.
-/

namespace Dmos

/-! ### Constants -/

abbrev memExtStart : Nat := 1024 * 1024

abbrev memExtEnd : Nat := 128 * 1024 * 1024

abbrev memPageSize : Nat := 4096

abbrev memoryTaskBase : Nat := 0x80000000

abbrev pdeCnt : Nat := 1024

abbrev pteCnt : Nat := 1024

abbrev pteP : Nat := 1 <<< 0

abbrev pdeP : Nat := 1 <<< 0

abbrev pteW : Nat := 1 <<< 1

abbrev pdeW : Nat := 1 <<< 1

abbrev pteU : Nat := 1 <<< 2

abbrev pdeU : Nat := 1 <<< 2

/-! ### Accessors -/

/-- The bit-field `present` of an entry. -/
def Present (v : Nat) : Prop :=
  v.testBit 0 = true

instance (v : Nat) : Decidable (Present v) :=
  inferInstanceAs (Decidable (v.testBit 0 = true))

def pdeIndex (vaddr : Nat) : Nat :=
  vaddr >>> 22

def pteIndex (vaddr : Nat) : Nat :=
  (vaddr >>> 12) &&& 0x3FF

/-- The bit-field of bits 12 to 31 of the entry, as an address. -/
def pdePaddr (pde : Nat) : Nat :=
  (pde >>> 12) <<< 12

/-- The bit-field of bits 12 to 31 of the entry, as an address. -/
def ptePaddr (pte : Nat) : Nat :=
  (pte >>> 12) <<< 12

def getPtePerm (pte : Nat) : Nat :=
  pte &&& 0x1FF

/-- `size & ~(bound - 1)` on 32-bit words. -/
def down2 (size bound : Nat) : Nat :=
  size &&& (0xFFFFFFFF - (bound - 1))

/-- `(size + bound - 1) & ~(bound - 1)` on 32-bit words. -/
def up2 (size bound : Nat) : Nat :=
  ((size + bound - 1) % 2 ^ 32) &&& (0xFFFFFFFF - (bound - 1))

/-! ### Accessors as arithmetic -/

theorem present_iff (v : Nat) :
  Present v ↔ v % 2 = 1
  := by
  simp [Present, Nat.testBit_zero]

theorem pdeIndex_eq (vaddr : Nat) :
  pdeIndex vaddr = vaddr / 4194304
  := Nat.shiftRight_eq_div_pow _ _

theorem pteIndex_eq (vaddr : Nat) :
  pteIndex vaddr = vaddr / 4096 % 1024
  := by
  rw [pteIndex, Nat.shiftRight_eq_div_pow]
  apply Nat.and_two_pow_sub_one_eq_mod _ 10

theorem pdePaddr_eq (pde : Nat) :
  pdePaddr pde = pde / 4096 * 4096
  := by
  rw [pdePaddr, Nat.shiftRight_eq_div_pow, Nat.shiftLeft_eq]

theorem ptePaddr_eq (pte : Nat) :
  ptePaddr pte = pte / 4096 * 4096
  := by
  rw [ptePaddr, Nat.shiftRight_eq_div_pow, Nat.shiftLeft_eq]

theorem getPtePerm_eq (pte : Nat) :
  getPtePerm pte = pte % 512
  := Nat.and_two_pow_sub_one_eq_mod _ 9

/-- Clearing the low twelve bits of a word. -/
theorem and_pageMask {n : Nat} (h : n < 2 ^ 32) :
  n &&& 0xFFFFF000 = n / 4096 * 4096
  := by
  apply Nat.eq_of_testBit_eq
  intro i
  rw [Nat.testBit_and, show n / 4096 * 4096 = (n >>> 12) <<< 12 by
    rw [Nat.shiftRight_eq_div_pow, Nat.shiftLeft_eq], Nat.testBit_shiftLeft, Nat.testBit_shiftRight,
    show 0xFFFFF000 = (2 ^ 20 - 1) <<< 12 by decide, Nat.testBit_shiftLeft,
    Nat.testBit_two_pow_sub_one]
  by_cases hlow : 12 ≤ i
  · rw [show 12 + (i - 12) = i by omega]
    by_cases hhigh : i < 32
    · simp [hlow, show i - 12 < 20 by omega]
    · have hbit : n.testBit i = false := by
        apply Nat.testBit_lt_two_pow
        apply h.trans_le
        apply Nat.pow_le_pow_right (by decide)
        omega
      simp [hbit]
  · simp [hlow]

theorem down2_page {n : Nat} (h : n < 2 ^ 32) :
  down2 n memPageSize = n / 4096 * 4096
  := and_pageMask h

/-- Rounding up to pages, where the sum does not pass `2 ^ 32`. -/
theorem up2_page {n : Nat} (h : n + 4095 < 2 ^ 32) :
  up2 n memPageSize = (n + 4095) / 4096 * 4096
  := by
  rw [up2, show n + memPageSize - 1 = n + 4095 from rfl, Nat.mod_eq_of_lt h]
  apply and_pageMask h

/-! ### Building entries -/

/-- The entry of a page-aligned address and twelve flag bits. -/
theorem or_flags {paddr flags : Nat} (haligned : paddr % 4096 = 0) (hflags : flags < 4096) :
  paddr ||| flags = paddr + flags
  := by
  have h : paddr = 2 ^ 12 * (paddr / 4096) := by omega
  rw [h]
  symm
  apply Nat.two_pow_add_eq_or_of_lt hflags

theorem or_pteP (flags : Nat) :
  flags ||| pteP = flags / 2 * 2 + 1
  := by
  apply Nat.eq_of_testBit_eq
  intro i
  rw [Nat.testBit_or]
  rcases i with _ | i
  · simp [Nat.testBit_zero, pteP]
  · simp [Nat.testBit_succ, pteP]
    congr 1
    omega

end Dmos
