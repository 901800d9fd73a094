import Mathlib
import Dmos.Kernel.Frames
import Dmos.Library.Cells
import Dmos.Library.Transition

/-!
# The memory that the page allocator manages

`memory_init` sets up the page allocator with the sum of the sizes of the RAM regions that the
loader reports, less the first megabyte, and maps the memory of the kernel.  Every page of this
range is returned by some run of the allocator (`everReturned_page`), so that all that is returned
is usable exactly when the regions go on from the first megabyte to the end of the range, which is
not behind the mapping of the kernel (`usable_iff`).
-/

open Cells TransitionSystem

namespace Dmos

abbrev bootRamRegionMax : Nat := 10

abbrev memEbdaStart : Nat := 0x80000

abbrev consoleDispAddr : Nat := 0xB8000

abbrev consoleDispEnd : Nat := 0xB8000 + 32 * 1024

/-- A region of usable memory below 4 GB. -/
structure RamRegion where
  start : Nat
  size : Nat
  size_lt : size < 2 ^ 32
  end_le : start + size ≤ 2 ^ 32

namespace RamRegion

def stop (r : RamRegion) : Nat :=
  r.start + r.size

/-- No address is in both regions. -/
def Apart (r r' : RamRegion) : Prop :=
  Disjoint (Set.Ico r.start r.stop) (Set.Ico r'.start r'.stop)

end RamRegion

/-- What the loader reports: `ram_region_cfg` up to `ram_region_count`. -/
structure BootInfo where
  ramRegionCfg : List RamRegion
  count_le : ramRegionCfg.length ≤ bootRamRegionMax

def totalMemSize (bootInfo : BootInfo) : Nat :=
  bootInfo.ramRegionCfg.foldl (fun memSize region => u32 (memSize + region.size)) 0

/-- The addresses at which the linker put the sections of the kernel. -/
structure Sections where
  kernelBase : Nat
  sText : Nat
  eText : Nat
  sData : Nat

structure MemoryMap where
  vstart : Nat
  vend : Nat
  pstart : Nat
  perm : Nat

/-- The entries of `kernel_map`. -/
def kernelMap (sections : Sections) : List MemoryMap :=
  [⟨sections.kernelBase, sections.sText, 0, pteW⟩,
    ⟨sections.sText, sections.eText, sections.sText, 0⟩,
    ⟨sections.sData, memEbdaStart, sections.sData, pteW⟩,
    ⟨consoleDispAddr, consoleDispEnd, consoleDispAddr, pteW⟩,
    ⟨memExtStart, memExtEnd, memExtStart, pteW⟩]

namespace Kernel

/-- One pass of `createKernelTable`. -/
def createKernelTable.pass (s : Kernel) (map : MemoryMap) : Kernel :=
  let vstart := down2 map.vstart memPageSize
  let vend := up2 map.vend memPageSize
  let pageCount := (asInt vend - asInt vstart).tdiv memPageSize
  (s.memoryCreateMap s.layout.gKernelPageDir vstart map.pstart pageCount.toNat map.perm).2

def createKernelTable (s : Kernel) (sections : Sections) : Kernel :=
  (kernelMap sections).foldl createKernelTable.pass s

/-- `bits` are the bytes at `mem_free_start`. -/
def memoryInit (s : Kernel) (bits : Nat → UInt8) (sections : Sections) (bootInfo : BootInfo) :
    Kernel :=
  let memUp1MBFree := u32Sub (totalMemSize bootInfo) memExtStart
  let memUp1MBFree := down2 memUp1MBFree memPageSize
  let s := s.setAlloc (addrAllocInit bits memExtStart memUp1MBFree memPageSize)
  let s := s.kMemset s.layout.gKernelPageDir 0 memPageSize
  let s := s.createKernelTable sections
  s.mmuSetPageDir s.layout.gKernelPageDir

end Kernel

/-- A call of the page allocator.  The kernel allocates and frees single pages. -/
inductive PageCall where
  | alloc
  | free (addr : Nat)

def AddrAlloc.call (alloc : AddrAlloc) : PageCall → AddrAlloc
  | .alloc => (addrAllocPage alloc 1).2
  | .free addr => addrFreePage alloc addr 1

/-- The calls of an allocator from a state on. -/
def pageCalls (alloc₀ : AddrAlloc) : TransitionSystem AddrAlloc PageCall where
  init alloc := alloc = alloc₀
  step alloc c alloc' := alloc' = alloc.call c

/-- `memory_init` takes page `p`, or some run of calls after it ends with its allocation. -/
def EverReturned (s : Kernel) (bits : Nat → UInt8) (sections : Sections) (bootInfo : BootInfo)
    (p : Nat) : Prop :=
  (s.memoryInit bits sections bootInfo).Marked p ∨
    ∃ alloc, (pageCalls (s.memoryInit bits sections bootInfo).gPaddrAlloc).Reachable
        (fun _ => True) alloc ∧ (addrAllocPage alloc 1).1 = p ∧ p ≠ 0

/-- Page `p` is inside of a region and of the mapping of the kernel. -/
structure Usable (bootInfo : BootInfo) (p : Nat) : Prop where
  region : ∃ r ∈ bootInfo.ramRegionCfg, r.start ≤ p ∧ p + memPageSize ≤ r.stop
  mapped : p + memPageSize ≤ memExtEnd

/-- The sum of the sizes as a 32-bit word. -/
def BootInfo.total (bootInfo : BootInfo) : Nat :=
  u32 (bootInfo.ramRegionCfg.map RamRegion.size).sum

/-- There is no page behind the first megabyte, or there are no more than the kernel maps, and the
regions go on from the first megabyte to the last page. -/
def RegionsFit (bootInfo : BootInfo) : Prop :=
  memExtStart ≤ bootInfo.total ∧
    (bootInfo.total < memExtStart + memPageSize ∨ bootInfo.total < memExtEnd + memPageSize ∧
      Seamless { r | r ∈ bootInfo.ramRegionCfg } RamRegion.start RamRegion.stop memExtStart
        memPageSize ((bootInfo.total - memExtStart) / memPageSize))

/-! ### The range of the allocator -/

section Range

theorem totalMemSize_eq (bootInfo : BootInfo) :
  totalMemSize bootInfo = bootInfo.total
  := by
  have hfold (l : List RamRegion) (n : Nat) (hn : n < 2 ^ 32) :
      l.foldl (fun memSize region => u32 (memSize + region.size)) n
        = u32 (n + (l.map RamRegion.size).sum) := by
    induction l generalizing n with
    | nil => rw [List.foldl_nil, List.map_nil, List.sum_nil, Nat.add_zero, u32_of_lt hn]
    | cons r l ih =>
        rw [List.foldl_cons, ih _ (u32_lt _), List.map_cons, List.sum_cons]
        unfold u32
        omega
  rw [totalMemSize, hfold _ 0 (by decide), Nat.zero_add]
  rfl

namespace Kernel

variable (s : Kernel)

theorem kMemset_range (d : Nat) (v : UInt8) (size : Nat) :
  s.gPaddrAlloc.SameRange (s.kMemset d v size).gPaddrAlloc
  := by
  unfold kMemset
  split_ifs
  · exact .refl _
  · exact .refl _

theorem findPte_range (d vaddr : Nat) (alloc : Int) :
  s.gPaddrAlloc.SameRange (s.findPte d vaddr alloc).2.gPaddrAlloc
  := by
  have htake := s.take_sameRange
  unfold take at htake
  unfold findPte
  dsimp only
  split_ifs
  · exact .refl _
  · exact .refl _
  · exact htake
  · exact htake.trans (((s.addrAllocPage 1).2.store _ _).kMemset_range _ _ _)

theorem memoryCreateMap_range (d vaddr paddr count perm : Nat) :
  s.gPaddrAlloc.SameRange (s.memoryCreateMap d vaddr paddr count perm).2.gPaddrAlloc
  := by
  induction count generalizing s vaddr paddr with
  | zero => exact .refl _
  | succ count ih =>
      have hfind := s.findPte_range d vaddr 1
      rw [memoryCreateMap]
      dsimp only
      split_ifs
      · exact hfind
      · apply hfind.trans (ih ((s.findPte d vaddr 1).2.store _ _) _ _)

theorem createKernelTable_range (sections : Sections) :
  s.gPaddrAlloc.SameRange (s.createKernelTable sections).gPaddrAlloc
  := by
  rw [createKernelTable]
  induction kernelMap sections generalizing s with
  | nil => exact .refl _
  | cons map maps ih =>
      rw [List.foldl_cons]
      exact (s.memoryCreateMap_range _ _ _ _ _).trans (ih _)

end Kernel

/-- The number of pages that the allocator manages. -/
def pageCount (bootInfo : BootInfo) : Nat :=
  u32Sub (totalMemSize bootInfo) memExtStart / memPageSize

variable (s : Kernel) (bits : Nat → UInt8) (sections : Sections) (bootInfo : BootInfo)

/-- The range of the allocator after `memory_init`. -/
structure Manages (alloc : AddrAlloc) : Prop where
  start : alloc.start = memExtStart
  pageSize : alloc.pageSize = memPageSize
  bitCount : alloc.bitmap.bitCount = pageCount bootInfo

variable {bootInfo}

theorem Manages.congr {alloc alloc' : AddrAlloc} (h : Manages bootInfo alloc)
    (hrange : alloc.SameRange alloc') :
  Manages bootInfo alloc'
  := ⟨hrange.start.trans h.start, hrange.pageSize.trans h.pageSize,
    hrange.bitCount.trans h.bitCount⟩

theorem Manages.page {alloc : AddrAlloc} (h : Manages bootInfo alloc) (i : Nat) :
  alloc.page i = memExtStart + i * memPageSize
  := by rw [AddrAlloc.page, h.start, h.pageSize]

theorem manages_init :
  Manages bootInfo (addrAllocInit bits memExtStart
    (down2 (u32Sub (totalMemSize bootInfo) memExtStart) memPageSize) memPageSize)
  where
  start := rfl
  pageSize := rfl
  bitCount := by
    have hlt : u32Sub (totalMemSize bootInfo) memExtStart < 2 ^ 32 := Nat.mod_lt _ (by decide)
    rw [down2_page hlt, addrAllocInit, bitmapInit, pageCount]
    dsimp only
    rw [Nat.mul_div_cancel _ (by decide)]

theorem manages_memoryInit :
  Manages bootInfo (s.memoryInit bits sections bootInfo).gPaddrAlloc
  := by
  rw [Kernel.memoryInit]
  apply (manages_init bits).congr
  apply (Kernel.kMemset_range (s.setAlloc _) _ _ _).trans
  apply Kernel.createKernelTable_range

end Range

/-! ### The pages that are returned -/

section Returned

variable {s : Kernel} {bits : Nat → UInt8} {sections : Sections} {bootInfo : BootInfo}
  {alloc : AddrAlloc}

theorem AddrAlloc.call_range (alloc : AddrAlloc) (c : PageCall) :
  alloc.SameRange (alloc.call c)
  := by
  cases c with
  | alloc => apply addrAllocPage_sameRange
  | free addr => apply addrFreePage_sameRange

theorem manages_of_reachable
    (h : (pageCalls (s.memoryInit bits sections bootInfo).gPaddrAlloc).Reachable (fun _ => True)
      alloc) :
  Manages bootInfo alloc
  := by
  induction h with
  | init hinit =>
      rw [hinit]
      apply manages_memoryInit
  | @step t t' c _ _ hstep ih =>
      rw [hstep]
      apply ih.congr (t.call_range c)

theorem clearBits_of_clear {i : Nat} {rest : List Nat} (h : alloc.bitmap.clearBits = i :: rest) :
  (addrAllocPage alloc 1).2.bitmap.clearBits = rest
  := by
  rw [addrAllocPage_of_clear h]
  apply Bitmap.clearBits_setBit h

/-- What is returned is a page of the range. -/
theorem exists_page (hpos : (addrAllocPage alloc 1).1 ≠ 0) :
  ∃ i < alloc.bitmap.bitCount, (addrAllocPage alloc 1).1 = u32 (alloc.page i)
  := by
  cases hclear : alloc.bitmap.clearBits with
  | nil =>
      rw [addrAllocPage_of_full (List.map_eq_nil_iff.mpr hclear)] at hpos
      exact absurd rfl hpos
  | cons i rest =>
      have hi : i ∈ alloc.bitmap.clearBits := by
        rw [hclear]
        apply List.mem_cons_self
      refine ⟨i, (Bitmap.mem_clearBits.mp hi).1, ?_⟩
      rw [addrAllocPage_of_clear hclear]

/-- Allocations without a free between them come to every clear bit. -/
theorem exists_run {alloc₀ : AddrAlloc} (pre : List Nat) {i : Nat} {post : List Nat}
    (hr : (pageCalls alloc₀).Reachable (fun _ => True) alloc)
    (hclear : alloc.bitmap.clearBits = pre ++ i :: post) :
  ∃ alloc', (pageCalls alloc₀).Reachable (fun _ => True) alloc' ∧
    (addrAllocPage alloc' 1).1 = u32 (alloc'.page i)
  := by
  induction pre generalizing alloc with
  | nil =>
      refine ⟨alloc, hr, ?_⟩
      rw [addrAllocPage_of_clear hclear]
  | cons j pre ih =>
      apply ih (hr.step (a := PageCall.alloc) trivial rfl)
      apply clearBits_of_clear hclear

/-- Every page of the range is returned in some run. -/
theorem everReturned_page {i : Nat} (hi : i < pageCount bootInfo)
    (hlt : memExtStart + i * memPageSize < 2 ^ 32) :
  EverReturned s bits sections bootInfo (memExtStart + i * memPageSize)
  := by
  have hm : Manages bootInfo (s.memoryInit bits sections bootInfo).gPaddrAlloc :=
    manages_memoryInit s bits sections
  rcases bitmapGetBit_eq_zero_or_one (s.memoryInit bits sections bootInfo).gPaddrAlloc.bitmap i
    with hbit | hbit
  · right
    have hclear : i ∈ (s.memoryInit bits sections bootInfo).gPaddrAlloc.bitmap.clearBits := by
      rw [Bitmap.mem_clearBits, hm.bitCount]
      exact ⟨hi, hbit⟩
    obtain ⟨pre, post, hsplit⟩ := List.append_of_mem hclear
    obtain ⟨alloc, hr, hpage⟩ := exists_run pre (Reachable.init rfl) hsplit
    rw [(manages_of_reachable hr).page, u32_of_lt hlt] at hpage
    exact ⟨alloc, hr, hpage, by unfold memExtStart; omega⟩
  · left
    refine ⟨i, ?_, ?_, hm.page i⟩
    · rw [hm.bitCount]
      exact hi
    · rw [hbit]
      decide

/-- A page that is returned is one of the range, if this ends below 4 GB. -/
theorem EverReturned.exists_index {p : Nat} (h : EverReturned s bits sections bootInfo p)
    (hend : memExtStart + pageCount bootInfo * memPageSize ≤ 2 ^ 32) :
  ∃ i < pageCount bootInfo, p = memExtStart + i * memPageSize
  := by
  rcases h with ⟨i, hi, -, hp⟩ | ⟨alloc, hr, hp, hpos⟩
  · have hm : Manages bootInfo (s.memoryInit bits sections bootInfo).gPaddrAlloc :=
      manages_memoryInit s bits sections
    rw [hm.bitCount] at hi
    rw [hm.page] at hp
    exact ⟨i, hi, hp.symm⟩
  · have hm := manages_of_reachable hr
    rw [← hp] at hpos
    obtain ⟨i, hi, hpage⟩ := exists_page hpos
    rw [hm.bitCount] at hi
    rw [hm.page, u32_of_lt (by unfold memPageSize at *; omega), hp] at hpage
    exact ⟨i, hi, hpage⟩

end Returned

/-! ### Usable pages -/

section Usable

variable {s : Kernel} {bits : Nat → UInt8} {sections : Sections} {bootInfo : BootInfo}

theorem BootInfo.total_lt (bootInfo : BootInfo) :
  bootInfo.total < 2 ^ 32
  := u32_lt _

theorem pageCount_of_le (h : memExtStart ≤ bootInfo.total) :
  pageCount bootInfo = (bootInfo.total - memExtStart) / memPageSize
  := by rw [pageCount, totalMemSize_eq, u32Sub_of_le h bootInfo.total_lt]

theorem pageCount_of_lt (h : bootInfo.total < memExtStart) :
  pageCount bootInfo = (bootInfo.total + 2 ^ 32 - memExtStart) / memPageSize
  := by
  rw [pageCount, totalMemSize_eq, u32Sub, Nat.mod_eq_of_lt]
  unfold memExtStart at *
  omega

/-- Where the first page that the kernel does not map is managed, it is returned. -/
theorem pageCount_le_of_usable
    (h : ∀ p, EverReturned s bits sections bootInfo p → Usable bootInfo p) :
  pageCount bootInfo ≤ (memExtEnd - memExtStart) / memPageSize
  := by
  by_contra hmore
  have hret : EverReturned s bits sections bootInfo
      (memExtStart + (memExtEnd - memExtStart) / memPageSize * memPageSize) :=
    everReturned_page (by omega) (by decide)
  have hmapped := (h _ hret).mapped
  revert hmapped
  decide

theorem regions_disjoint (h : bootInfo.ramRegionCfg.Pairwise RamRegion.Apart) :
  { r | r ∈ bootInfo.ramRegionCfg }.PairwiseDisjoint fun r => Set.Ico r.start r.stop
  := by
  intro r hr r' hr' hne
  have hsymm : Std.Symm RamRegion.Apart := ⟨fun _ _ hapart => hapart.symm⟩
  apply h.forall hr hr' hne

/-- The pages that are returned are usable exactly when there is none, or when they are mapped and
the regions go on from the first to the last of them. -/
theorem usable_iff (hdisjoint : bootInfo.ramRegionCfg.Pairwise RamRegion.Apart) :
  (∀ p, EverReturned s bits sections bootInfo p → Usable bootInfo p) ↔ RegionsFit bootInfo
  := by
  constructor
  · intro h
    have hcount := pageCount_le_of_usable h
    have hle : memExtStart ≤ bootInfo.total := by
      by_contra hlt
      rw [pageCount_of_lt (by omega)] at hcount
      unfold memExtStart memExtEnd memPageSize at *
      omega
    have hpages := pageCount_of_le hle
    use hle
    by_cases hnone : bootInfo.total < memExtStart + memPageSize
    · exact .inl hnone
    · right
      constructor
      · unfold memExtStart memExtEnd memPageSize at *
        omega
      · rw [← hpages]
        apply CellsInside.seamless _ (by decide) _ (regions_disjoint hdisjoint)
        · intro i hi
          apply (h _ (everReturned_page hi _)).region
          unfold memExtStart memExtEnd memPageSize at *
          omega
        · unfold memExtStart memPageSize at *
          omega
  · rintro ⟨hle, hfit⟩ p hp
    have hpages := pageCount_of_le hle
    have hlast : bootInfo.total < memExtEnd + memPageSize := by
      rcases hfit with hnone | ⟨hlast, -⟩
      · exact hnone.trans (by decide)
      · exact hlast
    obtain ⟨i, hi, rfl⟩ := hp.exists_index (by
      unfold memExtStart memExtEnd memPageSize at *
      omega)
    rcases hfit with hnone | ⟨-, hseamless⟩
    · unfold memExtStart memPageSize at *
      omega
    · rw [← hpages] at hseamless
      constructor
      · exact hseamless.cellsInside i hi
      · unfold memExtStart memExtEnd memPageSize at *
        omega

/-- The regions of a PC: its low memory, and `size` bytes from the first megabyte on. -/
def pcRegions (size : Nat) (h : memExtStart + size ≤ 2 ^ 32) : BootInfo where
  ramRegionCfg :=
    [⟨0, 0x9FC00, by decide, by decide⟩,
      ⟨memExtStart, size, Nat.lt_of_lt_of_le (by unfold memExtStart; omega) h, h⟩]
  count_le := show 2 ≤ 10 by decide

theorem apart_pcRegions (size : Nat) (h : memExtStart + size ≤ 2 ^ 32) :
  (pcRegions size h).ramRegionCfg.Pairwise RamRegion.Apart
  := by
  apply List.pairwise_pair.mpr
  apply Set.Ico_disjoint_Ico.mpr
  apply (Nat.min_le_left _ _).trans
  apply le_trans _ (Nat.le_max_right _ _)
  show 0 + 0x9FC00 ≤ memExtStart
  decide

/-- The sections of a kernel that is linked at `0x10000`. -/
def lowSections : Sections where
  kernelBase := 0
  sText := 0x10000
  eText := 0x1F000
  sData := 0x1F000

/-- A machine of 128 MB. -/
theorem usable_iff_pcRegions :
  (pcRegions 0x7EE0000 (by decide)).ramRegionCfg.Pairwise RamRegion.Apart ∧
    ∀ p, EverReturned (Kernel.boot 0) (fun _ => 0) lowSections (pcRegions 0x7EE0000 (by decide)) p →
      Usable (pcRegions 0x7EE0000 (by decide)) p
  := by
  use apart_pcRegions 0x7EE0000 (by decide)
  apply (usable_iff (apart_pcRegions 0x7EE0000 (by decide))).mpr
  refine ⟨by decide, .inr ⟨by decide, ?_⟩⟩
  constructor
  · exact ⟨_, List.mem_cons_of_mem _ List.mem_cons_self, by decide, by decide⟩
  · intro r hr hne hgt hlt
    rcases List.mem_pair.mp hr with rfl | rfl
    · exact absurd hgt (by decide)
    · exact absurd hlt (by decide)

/-- A machine of 256 MB: the pages behind 128 MB are returned too. -/
theorem not_usable_pcRegions :
  (pcRegions 0xFEE0000 (by decide)).ramRegionCfg.Pairwise RamRegion.Apart ∧
    EverReturned (Kernel.boot 0) (fun _ => 0) lowSections (pcRegions 0xFEE0000 (by decide))
      memExtEnd ∧
    ¬ Usable (pcRegions 0xFEE0000 (by decide)) memExtEnd
  := by
  refine ⟨apart_pcRegions _ _, ?_, ?_⟩
  · have hpages : pageCount (pcRegions 0xFEE0000 (by decide)) = _ := pageCount_of_le (by decide)
    apply everReturned_page (i := 32512)
    · rw [hpages]
      decide
    · decide
  · intro h
    have hmapped := h.mapped
    revert hmapped
    decide

end Usable

end Dmos
