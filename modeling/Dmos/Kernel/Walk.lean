import Dmos.Kernel.DeepCopy
import Dmos.Kernel.UserData

/-!
# The walk through page tables

`memoryGetPaddr` walks through a directory as the processor does, but takes the frame in an entry
whether the entry is present or not.  So it agrees with the processor unless there is a table in
which the entry is absent, or the table is the frame of a large page (`walkAgrees_iff`).
-/

open ByteMemory

namespace Dmos.Kernel

variable {s : Kernel} {d vaddr : Nat}

/-- The bit-field `ps` of a directory entry: a page of 4 MiB in place of a table. -/
def Large (pde : Nat) : Prop :=
  pde.testBit 7 = true

instance (pde : Nat) : Decidable (Large pde) :=
  inferInstanceAs (Decidable (pde.testBit 7 = true))

/-- The directory entry of an address. -/
def pdeOf (s : Kernel) (pageDir vaddr : Nat) : Nat :=
  s.load (pageDir + 4 * pdeIndex vaddr)

/-- The table entry of an address. -/
def pteOf (s : Kernel) (pageDir vaddr : Nat) : Nat :=
  s.load (pdePaddr (s.pdeOf pageDir vaddr) + 4 * pteIndex vaddr)

/-- The frame and the offset of an address in a page of 4 MiB. -/
def largePaddr (pde vaddr : Nat) : Nat :=
  pde / 2 ^ 22 * 2 ^ 22 + vaddr % 2 ^ 22

/-- The physical address the processor translates `vaddr` to, by the directory at `pageDir`, with
large pages enabled as the loader does. -/
def mmuTranslate (s : Kernel) (pageDir vaddr : Nat) : Option Nat :=
  if Present (s.pdeOf pageDir vaddr) then
    if Large (s.pdeOf pageDir vaddr) then some (largePaddr (s.pdeOf pageDir vaddr) vaddr)
    else if Present (s.pteOf pageDir vaddr) then
      some (ptePaddr (s.pteOf pageDir vaddr) + vaddr % memPageSize)
    else none
  else none

/-- Without large pages it is the translation of the kernel's own accesses. -/
theorem mmuTranslate_of_not_large (haligned : d % 4096 = 0) (h : ¬ Large (s.pdeOf d vaddr)) :
  s.mmuTranslate d vaddr = (s.mmuSetPageDir d).translate vaddr
  := by
  have hdir : pdePaddr d = d := by
    rw [pdePaddr_eq]
    omega
  have hcr3 : (s.mmuSetPageDir d).cr3 = d := rfl
  rw [mmuTranslate, if_neg h, translate, hcr3, hdir]
  rfl

theorem memoryGetPaddr_walk (s : Kernel) (d vaddr : Nat) :
  s.memoryGetPaddr d vaddr
    = if Present (s.pdeOf d vaddr) ∧ pdePaddr (s.pdeOf d vaddr) + 4 * pteIndex vaddr ≠ 0 then
        ptePaddr (s.pteOf d vaddr) + vaddr % memPageSize
      else 0
  := by
  have hmask : vaddr &&& (memPageSize - 1) = vaddr % memPageSize :=
    Nat.and_two_pow_sub_one_eq_mod _ 12
  rw [memoryGetPaddr, hmask, findPte]
  dsimp only
  rw [← pdeOf]
  by_cases hpresent : Present (s.pdeOf d vaddr)
  · rw [if_pos hpresent]
    dsimp only
    by_cases hnull : pdePaddr (s.pdeOf d vaddr) + 4 * pteIndex vaddr = 0
    · rw [if_pos hnull, if_neg fun h => h.2 hnull]
    · rw [if_neg hnull, if_pos ⟨hpresent, hnull⟩, pteOf]
  · rw [if_neg hpresent, if_pos rfl]
    dsimp only
    rw [if_pos rfl, if_neg fun h => hpresent h.1]

/-- The walk finds an address only if both entries are present, and then that of the processor;
a copy that comes to an address which is not mapped stops there. -/
structure WalkAgrees (s : Kernel) (d vaddr : Nat) : Prop where
  translates : s.memoryGetPaddr d vaddr ≠ 0 →
    Present (s.pdeOf d vaddr) ∧ Present (s.pteOf d vaddr) ∧
      s.mmuTranslate d vaddr = some (s.memoryGetPaddr d vaddr)
  stops : s.mmuTranslate d vaddr = none → ∀ src size, 0 < size →
    s.memoryCopyUvmData vaddr d src size = .ok (-1, s) ∧
    ∀ fuel, 0 < fuel → memoryCopyUvmData.loop s vaddr d src size fuel = .ok (-1, s)

/-- The address has no table or its entry is present, and if its table is a large page, it is at
the same place there; or the walk comes to address `0`, for the entry or the byte. -/
def WalkSees (s : Kernel) (d vaddr : Nat) : Prop :=
  ¬ Present (s.pdeOf d vaddr) ∨
    pdePaddr (s.pdeOf d vaddr) + 4 * pteIndex vaddr = 0 ∨
    ptePaddr (s.pteOf d vaddr) + vaddr % memPageSize = 0 ∨
    Present (s.pteOf d vaddr) ∧ (Large (s.pdeOf d vaddr) →
      largePaddr (s.pdeOf d vaddr) vaddr = ptePaddr (s.pteOf d vaddr) + vaddr % memPageSize)

/-- Where no address is found the copy stops, without a write. -/
theorem copyData_loop_of_zero (h : s.memoryGetPaddr d vaddr = 0) (src : Nat) {size fuel : Nat}
    (hsize : 0 < size) (hfuel : 0 < fuel) :
  memoryCopyUvmData.loop s vaddr d src size fuel = .ok (-1, s)
  := by
  obtain ⟨fuel, rfl⟩ : ∃ n, fuel = n + 1 := ⟨fuel - 1, by omega⟩
  rw [memoryCopyUvmData.loop, if_neg (by omega), h]
  rfl

theorem memoryGetPaddr_of_walkSees (h : s.WalkSees d vaddr) (hnone : s.mmuTranslate d vaddr = none) :
  s.memoryGetPaddr d vaddr = 0
  := by
  rw [memoryGetPaddr_walk]
  split_ifs with hwalk
  · rcases h with hpde | hnull | hzero | ⟨hpte, -⟩
    · exact absurd hwalk.1 hpde
    · exact absurd hnull hwalk.2
    · exact hzero
    · rw [mmuTranslate, if_pos hwalk.1, if_pos hpte] at hnone
      split_ifs at hnone
  · rfl

/-- The walk agrees with the processor exactly where it does not meet an absent entry. -/
theorem walkAgrees_iff (s : Kernel) (d vaddr : Nat) :
  s.WalkAgrees d vaddr ↔ s.WalkSees d vaddr
  := by
  constructor
  · intro h
    by_cases hzero : s.memoryGetPaddr d vaddr = 0
    · rw [memoryGetPaddr_walk] at hzero
      split_ifs at hzero with hwalk
      · exact .inr (.inr (.inl hzero))
      · by_cases hpde : Present (s.pdeOf d vaddr)
        · right
          left
          by_contra hnull
          exact hwalk ⟨hpde, hnull⟩
        · exact .inl hpde
    · obtain ⟨hpde, hpte, htranslate⟩ := h.translates hzero
      refine .inr (.inr (.inr ⟨hpte, ?_⟩))
      intro hlarge
      rw [mmuTranslate, if_pos hpde, if_pos hlarge, Option.some.injEq, memoryGetPaddr_walk] at htranslate
      rw [memoryGetPaddr_walk] at hzero
      split_ifs at htranslate hzero with hwalk
      · exact htranslate
      · exact absurd rfl hzero
  · intro h
    constructor
    · intro hne
      rw [memoryGetPaddr_walk] at hne ⊢
      split_ifs at hne ⊢ with hwalk
      · rcases h with hpde | hnull | hzero | ⟨hpte, hlarge⟩
        · exact absurd hwalk.1 hpde
        · exact absurd hnull hwalk.2
        · exact absurd hzero hne
        · refine ⟨hwalk.1, hpte, ?_⟩
          rw [mmuTranslate, if_pos hwalk.1, if_pos hpte]
          split_ifs with hps
          · rw [hlarge hps]
          · rfl
      · exact absurd rfl hne
    · intro hnone src size hsize
      have hzero := memoryGetPaddr_of_walkSees h hnone
      exact ⟨copyData_loop_of_zero hzero src hsize hsize,
        fun fuel hfuel => copyData_loop_of_zero hzero src hsize hfuel⟩

/-- Behind a table the entry of an address is that of its page. -/
theorem pteOf_of_table {t : Nat} (ht : tableAt s.mem d (vaddr / 4096 / 1024) = some t) :
  Present (s.pdeOf d vaddr) ∧ s.pteOf d vaddr = pteAt s.mem d (vaddr / 4096)
  := by
  obtain ⟨hpresent, htable⟩ := tableAt_eq_some_iff.mp ht
  rw [pteOf, pdeOf, load, pdeIndex_page, htable, pteAt_of_table ht, pteIndex_eq]
  exact ⟨hpresent, rfl⟩

/-- An address of a page that is not mapped, in a table with other pages. -/
theorem not_walkAgrees_of_absent {t : Nat}
    (ht : tableAt s.mem d (vaddr / 4096 / 1024) = some t)
    (habsent : ¬ Present (pteAt s.mem d (vaddr / 4096))) (hindex : pteIndex vaddr ≠ 0)
    (hoffset : vaddr % memPageSize ≠ 0) :
  ¬ s.WalkAgrees d vaddr
  := by
  obtain ⟨hpde, hpte⟩ := pteOf_of_table ht
  intro h
  have hne : s.memoryGetPaddr d vaddr ≠ 0 := by
    rw [memoryGetPaddr_walk, if_pos ⟨hpde, by omega⟩]
    omega
  apply habsent
  rw [← hpte]
  exact (h.translates hne).2.1

/-- Only the first user page is mapped, and the walk finds address `4` behind the second. -/
theorem not_walkAgrees_bootPage :
  ¬ (bootPage 3).WalkAgrees (1024 * 1024) 0x80001004
  := by
  have hpages := bootPage_userPages (le_refl 3) (by decide)
  have hmem (v : Nat) (hv : 524288 ≤ v ∧ v < 524288 + 524288) :
      Present (pteAt (bootPage 3).mem (1024 * 1024) v) ↔ v = 524288 := by
    rw [← List.mem_singleton, ← hpages, mem_presentPages]
    exact ⟨fun h => ⟨hv, h⟩, fun h => h.2⟩
  have hfirst := (hmem 524288 (by decide)).mpr rfl
  have hsecond : ¬ Present (pteAt (bootPage 3).mem (1024 * 1024) 524289) := by
    rw [hmem 524289 (by decide)]
    decide
  clear hmem hpages
  generalize bootPage 3 = s at hfirst hsecond ⊢
  cases ht : tableAt s.mem (1024 * 1024) (524288 / 1024) with
  | none =>
      rw [pteAt_of_no_table ht] at hfirst
      cases hfirst
  | some t => exact not_walkAgrees_of_absent ht hsecond (by decide) (by decide)

end Dmos.Kernel
