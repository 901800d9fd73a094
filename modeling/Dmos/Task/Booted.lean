import Mathlib.Data.Finset.Card
import Dmos.Kernel.CreateMap
import Dmos.Kernel.MemoryInit
import Dmos.Task.Isolation

/-!
# The address space after booting

`memory_init` clears the kernel's directory and maps the parts of memory in `kernel_map` to
themselves.  It does not look at what `memory_create_map` returns, so that there have to be frames
for the page tables: each frame that is taken becomes one of the tables that the directory lacks
(`TableRoom`).  What the kernel half has to be for programs to be kept apart holds from then on
(`booted_memoryInit`).
-/

open ByteMemory

namespace Dmos

namespace Kernel

/-! ### Page tables for the kernel -/

/-- The tables that `d` lacks for the addresses below `memExtEnd`. -/
def missingTables (s : Kernel) (d : Nat) : Finset Nat :=
  (Finset.range 32).filter fun i => tableAt s.mem d i = none

/-- The tables of `d` are frames in use, and there are frames for those it lacks. -/
structure TableRoom (s : Kernel) (d : Nat) : Prop where
  range : RangeWf s.gPaddrAlloc
  nodes : DistinctNodes 0 s.mem {d} s.free
  marked : ∀ i < 1024, ∀ t, tableAt s.mem d i = some t → s.Marked t
  room : (s.missingTables d).card ≤ s.free.length

variable {s s' : Kernel} {d vaddr paddr perm n : Nat}

namespace TableRoom

/-- An entry is found, if need be in a new table. -/
theorem findPte (h : s.TableRoom d) (vaddr : Nat) (hv : vaddr < memExtEnd) :
  (s.findPte d vaddr 1).1 ≠ 0 ∧ (s.findPte d vaddr 1).2.TableRoom d
  := by
  unfold memExtEnd at hv
  have hi : vaddr / 4096 / 1024 < 32 := by omega
  rcases htable : tableAt s.mem d (vaddr / 4096 / 1024) with _ | t
  · have hmem : vaddr / 4096 / 1024 ∈ s.missingTables d :=
      Finset.mem_filter.mpr ⟨Finset.mem_range.mpr hi, htable⟩
    have hroom := h.room
    rcases hfree : s.free with _ | ⟨t, rest⟩
    · rw [hfree, List.length_nil, Nat.le_zero, Finset.card_eq_zero] at hroom
      rw [hroom] at hmem
      cases hmem
    have ht : t ∈ s.free := by
      rw [hfree]
      apply List.mem_cons_self
    have hbounds := h.range.free_bounds ht
    unfold memExtStart memoryTaskBase at hbounds
    have hkeeps := (FindPte.installed (v := vaddr / 4096) hfree htable).keeps h.range h.nodes rfl
      (by omega)
    have hinstall (i : Nat) (hi' : i < 1024) :
        tableAt (Nodes.install s.mem d (vaddr / 4096 / 1024) t) d i
          = if d = d ∧ i = vaddr / 4096 / 1024 then some t else tableAt s.mem d i :=
      h.nodes.tableAt_install rfl (by omega) hbounds.1 (by omega) ht rfl hi'
    have hmarked (g : Nat) (hg : s.Marked g ∨ g = t) :
        (s.take.setMem (Nodes.install s.mem d (vaddr / 4096 / 1024) t)).Marked g := by
      rw [Marked, setMem_gPaddrAlloc]
      exact (marked_take h.range hfree g).mpr hg
    have hfind : s.findPte d vaddr 1 = (t + 4 * (vaddr / 4096 % 1024),
        s.take.setMem (Nodes.install s.mem d (vaddr / 4096 / 1024) t)) :=
      findPte_of_free h.range htable hfree
    rw [hfind]
    dsimp only
    refine ⟨by omega, ?_, hkeeps.1, ?_, ?_⟩
    · rw [setMem_gPaddrAlloc]
      exact rangeWf_take h.range
    · intro i hi' t' ht'
      rw [setMem_mem, hinstall i hi'] at ht'
      apply hmarked
      split_ifs at ht' with hnew
      · exact .inr (Option.some_inj.mp ht').symm
      · exact .inl (h.marked i hi' t' ht')
    · have hsub : (s.take.setMem (Nodes.install s.mem d (vaddr / 4096 / 1024) t)).missingTables d
          ⊆ (s.missingTables d).erase (vaddr / 4096 / 1024) := by
        intro i hmissing
        obtain ⟨hrange, hnone⟩ := Finset.mem_filter.mp hmissing
        have hlt := Finset.mem_range.mp hrange
        rw [setMem_mem, hinstall i (by omega)] at hnone
        split_ifs at hnone with hnew
        exact Finset.mem_erase.mpr
          ⟨fun heq => hnew ⟨rfl, heq⟩, Finset.mem_filter.mpr ⟨hrange, hnone⟩⟩
      have hcard := Finset.card_le_card hsub
      rw [Finset.card_erase_of_mem hmem] at hcard
      rw [hfree, List.length_cons] at hroom
      rw [setMem_free, free_take h.range hfree]
      omega
  · have hbounds := h.range.marked_bounds (h.marked _ (by omega) t htable)
    unfold memExtStart at hbounds
    rw [findPte_of_table htable]
    dsimp only
    exact ⟨by omega, h⟩

/-- An entry is written in one of the tables. -/
theorem store (h : s.TableRoom d) {v t w : Nat} (hv : v < 2 ^ 20)
    (ht : tableAt s.mem d (v / 1024) = some t) :
  (s.store (t + 4 * (v % 1024)) w).TableRoom d
  := by
  have hsame (i : Nat) (hi : i < 1024) :
      tableAt (store32 s.mem (t + 4 * (v % 1024)) w) d i = tableAt s.mem d i :=
    h.nodes.tableAt_storePte rfl (Nat.zero_le _) hv ht rfl hi
  refine ⟨h.range, ?_, ?_, ?_⟩
  · apply h.nodes.of_tables _ (fun _ hf => hf)
    rintro e rfl i hi
    exact hsame i hi
  · intro i hi t' ht'
    rw [store_mem, hsame i hi] at ht'
    exact h.marked i hi t' ht'
  · have hmissing : (s.store (t + 4 * (v % 1024)) w).missingTables d = s.missingTables d := by
      apply Finset.filter_congr
      intro i hi
      have hlt := Finset.mem_range.mp hi
      rw [store_mem, hsame i (by omega)]
    rw [hmissing]
    exact h.room

/-- A range below `memExtEnd` is mapped. -/
theorem memoryCreateMap (h : s.TableRoom d) (vaddr paddr n perm : Nat)
    (hend : vaddr + n * 4096 ≤ memExtEnd) :
  (s.memoryCreateMap d vaddr paddr n perm).1 = 0
    ∧ (s.memoryCreateMap d vaddr paddr n perm).2.TableRoom d
  := by
  unfold memExtEnd at hend
  induction n generalizing s vaddr paddr with
  | zero => exact ⟨rfl, h⟩
  | succ n ih =>
      obtain ⟨hne, hroom⟩ := h.findPte vaddr (by unfold memExtEnd; omega)
      have hfind := findPte_cases h.range d vaddr
      obtain ⟨t, ht, hpte⟩ := hfind.table h.range h.nodes rfl (by omega) hne
      have hnext : u32 (vaddr + memPageSize) = vaddr + 4096 := by
        unfold u32 memPageSize
        omega
      rw [Kernel.memoryCreateMap]
      dsimp only
      rw [if_neg hne, hnext]
      apply ih _ _ _ (by omega)
      rw [hpte]
      apply hroom.store (by omega) ht

end TableRoom

end Kernel

/-! ### The entries of `kernel_map` -/

namespace MemoryMap

/-- A part of memory that the kernel sees where it is. -/
structure InPlace (map : MemoryMap) : Prop where
  aligned : map.vstart % 4096 = 0
  start_le : map.vstart ≤ map.vend
  end_le : map.vend ≤ memExtEnd
  paddr : map.pstart = map.vstart
  perm : map.perm = 0 ∨ map.perm = pteW

/-- Page `v` has addresses of the part. -/
def Covers (map : MemoryMap) (v : Nat) : Prop :=
  map.vstart ≤ v * 4096 ∧ v * 4096 < map.vend

/-- No page has addresses of both parts. -/
def Apart (map map' : MemoryMap) : Prop :=
  ∀ v, map.Covers v → ¬ map'.Covers v

end MemoryMap

namespace Kernel

variable {s s' t : Kernel} {map : MemoryMap} {maps : List MemoryMap}

/-- Between `s` and `t` the pages of the parts have been mapped to themselves. -/
structure MapsInPlace (s t : Kernel) (maps : List MemoryMap) : Prop where
  layout : t.layout = s.layout
  room : t.TableRoom s.layout.gKernelPageDir
  mapped : ∀ map ∈ maps, ∀ v, map.Covers v →
    pteAt t.mem s.layout.gKernelPageDir v = mapWord map.perm (v * 4096)
  others : ∀ v < 2 ^ 20, (∀ map ∈ maps, ¬ map.Covers v) →
    pteAt t.mem s.layout.gKernelPageDir v = pteAt s.mem s.layout.gKernelPageDir v

theorem mapsInPlace_pass (h : s.TableRoom s.layout.gKernelPageDir) (hmap : map.InPlace) :
  MapsInPlace s (createKernelTable.pass s map) [map]
  := by
  obtain ⟨haligned, hstart, hend, hpaddr, hperm⟩ := hmap
  unfold memExtEnd at hend
  have hlt : map.perm < 4096 := by
    unfold pteW at hperm
    omega
  have hdown : down2 map.vstart memPageSize = map.vstart := by
    rw [down2_page (by omega)]
    omega
  have hup : up2 map.vend memPageSize = (map.vend + 4095) / 4096 * 4096 := up2_page (by omega)
  have hcount : ((asInt (up2 map.vend memPageSize) - asInt map.vstart).tdiv memPageSize).toNat
      = (map.vend + 4095) / 4096 - map.vstart / 4096 := by
    rw [hup, asInt, asInt, if_pos (by omega), if_pos (by omega)]
    unfold memPageSize
    rw [Int.tdiv_eq_ediv_of_nonneg (by omega)]
    omega
  have hpass : createKernelTable.pass s map
      = (s.memoryCreateMap s.layout.gKernelPageDir map.vstart map.vstart
          ((map.vend + 4095) / 4096 - map.vstart / 4096) map.perm).2 := by
    rw [createKernelTable.pass, hdown, hcount, hpaddr]
  obtain ⟨hzero, hroom⟩ := h.memoryCreateMap map.vstart map.vstart
    ((map.vend + 4095) / 4096 - map.vstart / 4096) map.perm (by unfold memExtEnd; omega)
  have hmaps : MapsRange 0 {s.layout.gKernelPageDir} s _ s.layout.gKernelPageDir
      (map.vstart / 4096) map.vstart ((map.vend + 4095) / 4096 - map.vstart / 4096) map.perm _ :=
    mapsRange_memoryCreateMap h.range h.nodes rfl hlt (Nat.zero_le _) haligned haligned (by omega)
      (by omega)
  rw [hpass]
  refine ⟨hmaps.layout, hroom, ?_, ?_⟩
  · intro map' hmem v hcovers
    rw [List.mem_singleton.mp hmem] at hcovers ⊢
    obtain ⟨hlo, hhi⟩ := hcovers
    obtain ⟨t, -, -, hentry⟩ := hmaps.mapped hzero (v - map.vstart / 4096) (by omega)
    rw [show map.vstart / 4096 + (v - map.vstart / 4096) = v by omega,
      show map.vstart + (v - map.vstart / 4096) * 4096 = v * 4096 by omega] at hentry
    exact hentry
  · intro v hv hnot
    apply hmaps.others _ rfl v (Nat.zero_le _) hv
    intro _ hcovers
    apply hnot map List.mem_cons_self
    constructor <;> omega

theorem MapsInPlace.cons (h : MapsInPlace s s' [map]) (h' : MapsInPlace s' t maps)
    (hmap : map.InPlace) (hapart : ∀ map' ∈ maps, map.Apart map') :
  MapsInPlace s t (map :: maps)
  := by
  obtain ⟨hlayout, hroom, hmapped, hothers⟩ := h
  obtain ⟨hlayout', hroom', hmapped', hothers'⟩ := h'
  rw [hlayout] at hroom' hmapped' hothers'
  refine ⟨hlayout'.trans hlayout, hroom', ?_, ?_⟩
  · rintro map' hmem v hcovers
    rcases List.mem_cons.mp hmem with rfl | hmem
    · rw [hothers' v _ fun map'' hmem'' => hapart map'' hmem'' v hcovers]
      · exact hmapped _ List.mem_cons_self v hcovers
      · have hend := hmap.end_le
        obtain ⟨-, hhi⟩ := hcovers
        unfold memExtEnd at hend
        omega
    · exact hmapped' map' hmem v hcovers
  · intro v hv hnot
    rw [hothers' v hv fun map' hmem => hnot map' (List.mem_cons_of_mem _ hmem)]
    apply hothers v hv
    intro map' hmem
    rw [List.mem_singleton.mp hmem]
    exact hnot map List.mem_cons_self

/-- The passes of `createKernelTable`. -/
theorem mapsInPlace_passes (h : s.TableRoom s.layout.gKernelPageDir)
    (hmaps : ∀ map ∈ maps, map.InPlace) (hapart : maps.Pairwise MemoryMap.Apart) :
  MapsInPlace s (maps.foldl createKernelTable.pass s) maps
  := by
  induction maps generalizing s with
  | nil =>
      exact ⟨rfl, h, fun _ hmem => absurd hmem List.not_mem_nil, fun _ _ _ => rfl⟩
  | cons map maps ih =>
      obtain ⟨hhead, htail⟩ := List.pairwise_cons.mp hapart
      have hpass := mapsInPlace_pass h (hmaps map List.mem_cons_self)
      have hroom := hpass.room
      rw [← hpass.layout] at hroom
      rw [List.foldl_cons]
      exact hpass.cons (ih hroom (fun map' hmem => hmaps map' (List.mem_cons_of_mem _ hmem)) htail)
        (hmaps map List.mem_cons_self) hhead

end Kernel

/-- The sections of a kernel as its linker script lays them out. -/
structure Sections.Linked (sections : Sections) : Prop where
  kernelBase : sections.kernelBase = 0
  text_aligned : sections.sText % 4096 = 0
  text_le : sections.sText ≤ sections.eText
  data_aligned : sections.sData % 4096 = 0
  data_le : sections.eText ≤ sections.sData
  end_le : sections.sData ≤ memEbdaStart

section KernelMap

variable {sections : Sections}

theorem inPlace_kernelMap (h : sections.Linked) :
  ∀ map ∈ kernelMap sections, map.InPlace
  := by
  obtain ⟨hbase, htext, htext', hdata, hdata', hend⟩ := h
  unfold memEbdaStart at hend
  simp only [kernelMap, List.forall_mem_cons]
  refine ⟨?_, ?_, ?_, ?_, ?_, fun _ hmem => absurd hmem List.not_mem_nil⟩
  · refine ⟨?_, ?_, ?_, ?_, .inr rfl⟩ <;> simp only [hbase, memExtEnd] <;> omega
  · refine ⟨?_, ?_, ?_, rfl, .inl rfl⟩ <;> simp only [memExtEnd] <;> omega
  · refine ⟨?_, ?_, ?_, rfl, .inr rfl⟩ <;> simp only [memEbdaStart, memExtEnd] <;> omega
  · constructor <;> decide
  · constructor <;> decide

theorem apart_kernelMap (h : sections.Linked) :
  (kernelMap sections).Pairwise MemoryMap.Apart
  := by
  obtain ⟨hbase, htext, htext', hdata, hdata', hend⟩ := h
  unfold memEbdaStart at hend
  simp only [kernelMap, List.pairwise_cons, List.forall_mem_cons, MemoryMap.Apart,
    MemoryMap.Covers, memEbdaStart, consoleDispAddr, consoleDispEnd, memExtStart, memExtEnd]
  refine ⟨⟨?_, ?_, ?_, ?_, ?_⟩, ⟨?_, ?_, ?_, ?_⟩, ⟨?_, ?_, ?_⟩, ⟨?_, ?_⟩, ?_, ?_⟩
  all_goals first | (intro v hcovers; omega) | simp

end KernelMap

namespace Kernel

variable {s t : Kernel} {perm : Nat} {bits : Nat → UInt8} {sections : Sections}
  {bootInfo : BootInfo}

theorem setAlloc_gPaddrAlloc (s : Kernel) (alloc : AddrAlloc) :
  (s.setAlloc alloc).gPaddrAlloc = alloc
  := rfl

section Memset

variable (s : Kernel) (dest : Nat) (v : UInt8) (size : Nat)

theorem kMemset_layout :
  (s.kMemset dest v size).layout = s.layout
  := by
  unfold kMemset
  split_ifs <;> rfl

theorem kMemset_gPaddrAlloc :
  (s.kMemset dest v size).gPaddrAlloc = s.gPaddrAlloc
  := by
  unfold kMemset
  split_ifs <;> rfl

theorem kMemset_mem (hdest : dest ≠ 0) (hsize : size ≠ 0) :
  (s.kMemset dest v size).mem = fill s.mem dest v size
  := by
  unfold kMemset
  rw [if_neg (not_or.mpr ⟨hdest, hsize⟩)]

end Memset

/-- The state in which `memoryInit` creates the tables. -/
def cleared (s : Kernel) (bits : Nat → UInt8) (bootInfo : BootInfo) : Kernel :=
  let s := s.setAlloc (addrAllocInit bits memExtStart
    (down2 (u32Sub (totalMemSize bootInfo) memExtStart) memPageSize) memPageSize)
  s.kMemset s.layout.gKernelPageDir 0 memPageSize

theorem memoryInit_eq (s : Kernel) (bits : Nat → UInt8) (sections : Sections)
    (bootInfo : BootInfo) :
  s.memoryInit bits sections bootInfo
    = ((s.cleared bits bootInfo).createKernelTable sections).mmuSetPageDir
        ((s.cleared bits bootInfo).createKernelTable sections).layout.gKernelPageDir
  := rfl

/-- There is memory for the tables of the kernel, and none at the addresses of programs. -/
structure EnoughMemory (s : Kernel) (bootInfo : BootInfo) : Prop where
  base_pos : memPageSize ≤ s.layout.gKernelPageDir
  tables_le : memExtStart + 32 * memPageSize ≤ bootInfo.total
  total_le : bootInfo.total ≤ memoryTaskBase

section Cleared

variable (bits) (h : s.EnoughMemory bootInfo)

include h

omit h in
theorem layout_cleared :
  (s.cleared bits bootInfo).layout = s.layout
  := (kMemset_layout _ _ _ _).trans (setAlloc_layout _ _)

theorem gPaddrAlloc_cleared :
  (s.cleared bits bootInfo).gPaddrAlloc
    = addrAllocInit bits memExtStart ((bootInfo.total - memExtStart) / 4096 * 4096) memPageSize
  := by
  have htables := h.tables_le
  have hlt := bootInfo.total_lt
  have hsize : down2 (u32Sub (totalMemSize bootInfo) memExtStart) memPageSize
      = (bootInfo.total - memExtStart) / 4096 * 4096 := by
    rw [totalMemSize_eq, u32Sub_of_le (by omega) hlt, down2_page (by omega)]
  rw [← hsize]
  exact (kMemset_gPaddrAlloc _ _ _ _).trans (setAlloc_gPaddrAlloc _ _)

theorem mem_cleared :
  (s.cleared bits bootInfo).mem = fill s.mem s.layout.gKernelPageDir 0 memPageSize
  := by
  have hpos := h.base_pos
  unfold memPageSize at hpos
  apply (kMemset_mem _ _ _ _ _ (by decide)).trans
  · rw [setAlloc_mem, setAlloc_layout]
  · rw [setAlloc_layout]
    omega

theorem rangeWf_cleared :
  RangeWf (s.cleared bits bootInfo).gPaddrAlloc
  := by
  have htotal := h.total_le
  unfold memoryTaskBase at htotal
  rw [gPaddrAlloc_cleared bits h]
  refine ⟨rfl, rfl, rfl, ?_⟩
  change memExtStart + (bootInfo.total - memExtStart) / 4096 * 4096 ≤ memoryTaskBase
  unfold memExtStart memoryTaskBase
  omega

theorem free_cleared :
  (s.cleared bits bootInfo).free.length = (bootInfo.total - memExtStart) / 4096
  := by
  rw [Kernel.free, gPaddrAlloc_cleared bits h, AddrAlloc.freePages, List.length_map, addrAllocInit]
  dsimp only
  rw [Bitmap.clearBits_init, List.length_range]
  exact Nat.mul_div_cancel _ (by decide)

theorem tableAt_cleared {i : Nat} (hi : i < 1024) :
  tableAt (s.cleared bits bootInfo).mem s.layout.gKernelPageDir i = none
  := by
  rw [mem_cleared bits h, tableAt_eq_none_iff, load32_fill_zero]
  · decide
  · omega
  · unfold memPageSize
    omega

theorem tableRoom_cleared :
  (s.cleared bits bootInfo).TableRoom s.layout.gKernelPageDir
  := by
  have hrange := rangeWf_cleared bits h
  have hfree := free_cleared bits h
  have hnone {i : Nat} (hi : i < 1024) := tableAt_cleared bits h hi
  obtain ⟨-, htables, -⟩ := h
  have hown (p : Place) (f : Nat)
      (hp : OwnsNode 0 (s.cleared bits bootInfo).mem {s.layout.gKernelPageDir} p f) :
      p = .dir s.layout.gKernelPageDir ∧ f = s.layout.gKernelPageDir := by
    cases p with
    | dir d =>
        obtain ⟨rfl, rfl⟩ := hp
        exact ⟨rfl, rfl⟩
    | table d i =>
        obtain ⟨rfl, -, hi, ht⟩ := hp
        rw [hnone hi] at ht
        cases ht
    | page d v => cases hp
  refine ⟨hrange, ⟨⟨?_, ?_⟩, ?_⟩, ?_, ?_⟩
  · intro p f hp hmem
    obtain ⟨-, rfl⟩ := hown p f hp
    have hbounds := hrange.free_bounds hmem
    have hend := s.layout.gKernelPageDir_end
    omega
  · intro p q f hp hq
    rw [(hown p f hp).1, (hown q f hq).1]
  · rintro d rfl
    exact s.layout.gKernelPageDir_aligned
  · intro i hi t ht
    rw [hnone hi] at ht
    cases ht
  · have hcard := Finset.card_filter_le (Finset.range 32)
      fun i => tableAt (s.cleared bits bootInfo).mem s.layout.gKernelPageDir i = none
    rw [Finset.card_range] at hcard
    unfold memExtStart memPageSize at htables
    unfold memExtStart at hfree
    rw [missingTables, hfree]
    omega

theorem mapsInPlace_memoryInit (hlinked : sections.Linked) :
  MapsInPlace (s.cleared bits bootInfo)
    ((s.cleared bits bootInfo).createKernelTable sections) (kernelMap sections)
  := by
  apply mapsInPlace_passes _ (inPlace_kernelMap hlinked) (apart_kernelMap hlinked)
  rw [layout_cleared]
  exact tableRoom_cleared bits h

end Cleared

/-! ### The state after booting -/

/-- What holds after `memory_init`. -/
structure Booted (s : Kernel) (sections : Sections) : Prop where
  guarded : Guarded s ∅
  kernelOnly : s.KernelOnly
  inPlace : ∀ map ∈ kernelMap sections, ∀ a, map.vstart ≤ a → a < map.vend →
    s.translate a = some a
  flags : ∀ map ∈ kernelMap sections, ∀ v, map.Covers v →
    pteAt s.mem s.layout.gKernelPageDir v % 4096 = map.perm ||| pteP
  others : ∀ a < 2 ^ 32, (∀ map ∈ kernelMap sections, ¬ map.Covers (a / 4096)) →
    s.translate a = none

theorem not_userBit_mapWord {f : Nat} (hf : f % 4096 = 0) (hperm : perm = 0 ∨ perm = pteW) :
  ¬ UserBit (mapWord perm f)
  := by
  have hlt : perm < 4096 := by
    unfold pteW at hperm
    omega
  rw [UserBit, mapWord_eq hf hlt, Nat.testBit_eq_decide_div_mod_eq, decide_eq_true_iff]
  rcases hperm with rfl | rfl
  · change ¬ (f + 1) / 4 % 2 = 1
    omega
  · change ¬ (f + 3) / 4 % 2 = 1
    omega

/-- The kernel sees its memory where it is once `memory_init` is done, and programs see none of
it. -/
theorem booted_memoryInit (h : s.EnoughMemory bootInfo) (hlinked : sections.Linked) :
  (s.memoryInit bits sections bootInfo).Booted sections
  := by
  have hplaced := inPlace_kernelMap hlinked
  obtain ⟨hlayout, hroom, hmapped, hothers⟩ := mapsInPlace_memoryInit bits h hlinked
  rw [memoryInit_eq]
  generalize (s.cleared bits bootInfo).createKernelTable sections = t at *
  rw [layout_cleared] at hlayout hroom hmapped hothers
  have hnone (v : Nat) (hv : v < 2 ^ 20) (hnot : ∀ map ∈ kernelMap sections, ¬ map.Covers v) :
      pteAt t.mem s.layout.gKernelPageDir v = 0 := by
    rw [hothers v hv hnot]
    exact pteAt_of_no_table (tableAt_cleared bits h (by omega))
  have htranslate := translate_eq (s := t.mmuSetPageDir t.layout.gKernelPageDir)
    t.layout.gKernelPageDir_aligned
  rw [hlayout] at htranslate ⊢
  change ∀ vaddr, _ = if Present (pteAt t.mem s.layout.gKernelPageDir (vaddr / 4096)) then
    some (ptePaddr (pteAt t.mem s.layout.gKernelPageDir (vaddr / 4096)) + vaddr % 4096) else none
    at htranslate
  have hlt (map : MemoryMap) (hmem : map ∈ kernelMap sections) : map.perm < 4096 := by
    have hperm := (hplaced map hmem).perm
    unfold pteW at hperm
    omega
  refine ⟨⟨Frames.empty hroom.range, ?_⟩, ?_, ?_, ?_, ?_⟩
  · rintro g ⟨i, hi, ht⟩
    change tableAt t.mem t.layout.gKernelPageDir i = some g at ht
    rw [hlayout] at ht
    refine ⟨hroom.marked i (by omega) g ht, ?_⟩
    rintro (d | ⟨d, i⟩ | ⟨d, v⟩) hp <;> cases hp.1
  · intro v hv
    change Present (pteAt t.mem t.layout.gKernelPageDir v) → _
    rw [hlayout]
    by_cases hcovered : ∃ map ∈ kernelMap sections, map.Covers v
    · obtain ⟨map, hmem, hcovers⟩ := hcovered
      intro _
      change ¬ UserBit (pteAt t.mem t.layout.gKernelPageDir v)
      rw [hlayout, hmapped map hmem v hcovers]
      exact not_userBit_mapWord (by omega) (hplaced map hmem).perm
    · simp only [not_exists, not_and] at hcovered
      rw [hnone v (by omega) hcovered]
      intro hpresent
      cases hpresent
  · intro map hmem a hlo hhi
    have haligned := (hplaced map hmem).aligned
    have hcovers : map.Covers (a / 4096) := by constructor <;> omega
    rw [htranslate, hmapped map hmem _ hcovers,
      if_pos (mapWord_present (by omega) (hlt map hmem)),
      ptePaddr_mapWord (by omega) (hlt map hmem), show a / 4096 * 4096 + a % 4096 = a by omega]
  · intro map hmem v hcovers
    change pteAt t.mem t.layout.gKernelPageDir v % 4096 = _
    rw [hlayout, hmapped map hmem v hcovers, mapWord_flags (by omega) (hlt map hmem)]
  · intro a ha hnot
    rw [htranslate, hnone _ (by omega) hnot]
    rfl

/-- A machine of 128 MB. -/
theorem booted_pcRegions :
  ((boot 0).memoryInit (fun _ => 0) lowSections (pcRegions 0x7EE0000 (by decide))).Booted
    lowSections
  := booted_memoryInit ⟨by decide, by decide, by decide⟩
    ⟨rfl, by decide, by decide, by decide, by decide, by decide⟩

end Kernel

end Dmos
