import Dmos.Kernel.PageDir
import Dmos.Library.AddressSpace

/-!
# Mapping one fresh page

Both `memoryAllocForPageDir` and `memoryCopyUvm` allocate a page and map it with
`memoryCreateMap`, which may allocate a page table on the way.  `mapFresh` is this pair of
calls, and `mapFresh_cases` lists all it can do.  Seen through `Kernel.space`, the free
list with the tables and entries of one directory, it is the abstract operation of mapping
a page (`mapFresh_space`).
-/

open ByteMemory AddressSpace

namespace Dmos

/-- The allocator manages pages from `memExtStart` on, up to `memoryTaskBase` at most. -/
structure RangeWf (alloc : AddrAlloc) : Prop where
  start : alloc.start = memExtStart
  pageSize : alloc.pageSize = memPageSize
  bitCount : alloc.bitmap.bitCount = alloc.size / memPageSize
  end_le : alloc.start + alloc.size ≤ memoryTaskBase

namespace RangeWf

variable {alloc : AddrAlloc}

theorem bitCount_mul_le (h : RangeWf alloc) :
  memExtStart + alloc.bitmap.bitCount * 4096 ≤ memoryTaskBase
  := by
  have hend := h.end_le
  rw [h.start] at hend
  have hdiv := Nat.div_mul_le_self alloc.size memPageSize
  rw [h.bitCount]
  apply le_trans (Nat.add_le_add_left hdiv _) hend

theorem wf (h : RangeWf alloc) :
  alloc.Wf
  where
  start_pos := by
    rw [h.start]
    decide
  pageSize_pos := by
    rw [h.pageSize]
    decide
  end_le := by
    rw [h.start, h.pageSize]
    apply h.bitCount_mul_le.trans
    decide

theorem sameRange (h : RangeWf alloc) {alloc' : AddrAlloc} (hsame : alloc.SameRange alloc') :
  RangeWf alloc'
  where
  start := hsame.start.trans h.start
  pageSize := hsame.pageSize.trans h.pageSize
  bitCount := by rw [hsame.bitCount, hsame.size, h.bitCount]
  end_le := by rw [hsame.start, hsame.size]; apply h.end_le

/-- Pages of the range are page-aligned and lie between its bounds. -/
theorem page_bounds (h : RangeWf alloc) {i : Nat} (hi : i < alloc.bitmap.bitCount) :
  alloc.page i % 4096 = 0 ∧ memExtStart ≤ alloc.page i ∧ alloc.page i + 4096 ≤ memoryTaskBase
  := by
  have hend := h.bitCount_mul_le
  unfold AddrAlloc.page
  rw [h.start, h.pageSize]
  unfold memExtStart memPageSize memoryTaskBase at *
  omega

theorem free_bounds (h : RangeWf alloc) {f : Nat} (hf : f ∈ alloc.freePages) :
  f % 4096 = 0 ∧ memExtStart ≤ f ∧ f + 4096 ≤ memoryTaskBase
  := by
  obtain ⟨i, hi, -, rfl⟩ := AddrAlloc.mem_freePages.mp hf
  apply h.page_bounds hi

theorem marked_bounds (h : RangeWf alloc) {f : Nat} (hf : alloc.Marked f) :
  f % 4096 = 0 ∧ memExtStart ≤ f ∧ f + 4096 ≤ memoryTaskBase
  := by
  obtain ⟨i, hi, -, rfl⟩ := hf
  apply h.page_bounds hi

end RangeWf

namespace Kernel

/-- The free pages of the allocator, in the order they are handed out. -/
def free (s : Kernel) : List Nat :=
  s.gPaddrAlloc.freePages

/-- The frame at `f` is marked used in the bitmap of the allocator. -/
def Marked (s : Kernel) (f : Nat) : Prop :=
  s.gPaddrAlloc.Marked f

/-- The state after a page has been allocated. -/
def take (s : Kernel) : Kernel :=
  (s.addrAllocPage 1).2

@[simp]
theorem take_mem (s : Kernel) :
  s.take.mem = s.mem
  := rfl

@[simp]
theorem take_cr3 (s : Kernel) :
  s.take.cr3 = s.cr3
  := rfl

@[simp]
theorem take_layout (s : Kernel) :
  s.take.layout = s.layout
  := rfl

theorem take_sameRange (s : Kernel) :
  s.gPaddrAlloc.SameRange s.take.gPaddrAlloc
  := addrAllocPage_sameRange _

theorem addrAllocPage_of_full {s : Kernel} (h : s.free = []) :
  s.addrAllocPage 1 = (0, s)
  := by
  rw [addrAllocPage, Dmos.addrAllocPage_of_full h]

variable {s : Kernel} {f : Nat} {rest : List Nat}

theorem addrAllocPage_of_free (hr : RangeWf s.gPaddrAlloc) (h : s.free = f :: rest) :
  s.addrAllocPage 1 = (f, s.take)
  := by
  apply Prod.ext
  · apply (Dmos.addrAllocPage_of_free hr.wf h).1
  · rfl

theorem free_take (hr : RangeWf s.gPaddrAlloc) (h : s.free = f :: rest) :
  s.take.free = rest
  := (Dmos.addrAllocPage_of_free hr.wf h).2.1

theorem marked_take (hr : RangeWf s.gPaddrAlloc) (h : s.free = f :: rest) (g : Nat) :
  s.take.Marked g ↔ s.Marked g ∨ g = f
  := (Dmos.addrAllocPage_of_free hr.wf h).2.2 g

theorem rangeWf_take (hr : RangeWf s.gPaddrAlloc) :
  RangeWf s.take.gPaddrAlloc
  := hr.sameRange s.take_sameRange

theorem free_nodup (hr : RangeWf s.gPaddrAlloc) :
  s.free.Nodup
  := AddrAlloc.nodup_freePages hr.wf

theorem free_take_suffix (hr : RangeWf s.gPaddrAlloc) (h : s.free = f :: rest) :
  s.take.free <:+ s.free
  := by
  rw [free_take hr h, h]
  apply List.suffix_cons

theorem marked_take_iff (hr : RangeWf s.gPaddrAlloc) (h : s.free = f :: rest) (g : Nat) :
  s.take.Marked g ↔ s.Marked g ∨ (g ∈ s.free ∧ g ∉ s.take.free)
  := by
  have hnodup := free_nodup hr
  rw [marked_take hr h, free_take hr h]
  rw [h, List.nodup_cons] at hnodup
  rw [h, List.mem_cons]
  constructor
  · rintro (hg | rfl)
    · left
      apply hg
    · right
      use .inl rfl, hnodup.1
  · rintro (hg | ⟨rfl | hmem, hnot⟩)
    · left
      apply hg
    · right
      rfl
    · cases hnot hmem

theorem marked_take_take_iff {t : Nat} (hr : RangeWf s.gPaddrAlloc) (h : s.free = f :: t :: rest)
    (g : Nat) :
  s.take.take.Marked g ↔ s.Marked g ∨ (g ∈ s.free ∧ g ∉ s.take.take.free)
  := by
  have hfree := free_take hr h
  have hsub := (free_take_suffix (rangeWf_take hr) hfree).subset
  have hsub' := (free_take_suffix hr h).subset
  rw [marked_take_iff (rangeWf_take hr) hfree, marked_take_iff hr h]
  constructor
  · rintro ((hg | ⟨hmem, hnot⟩) | ⟨hmem, hnot⟩)
    · left
      apply hg
    · right
      use hmem
      intro hin
      apply hnot (hsub hin)
    · right
      use hsub' hmem
  · rintro (hg | ⟨hmem, hnot⟩)
    · left
      left
      apply hg
    · by_cases hin : g ∈ s.take.free
      · right
        use hin
      · left
        right
        use hmem

/-! ### Finding the entry of an address -/

theorem pdeIndex_page (vaddr : Nat) :
  pdeIndex vaddr = vaddr / 4096 / 1024
  := by
  rw [pdeIndex_eq, Nat.div_div_eq_div_mul]

theorem tableAt_eq_some_iff {m : Memory} {d i t : Nat} :
  tableAt m d i = some t ↔ Present (load32 m (d + 4 * i)) ∧ pdePaddr (load32 m (d + 4 * i)) = t
  := by
  simp only [tableAt]
  split_ifs with h
  · simp [h]
  · simp [h]

theorem tableAt_eq_none_iff {m : Memory} {d i : Nat} :
  tableAt m d i = none ↔ ¬ Present (load32 m (d + 4 * i))
  := by
  simp [tableAt]

variable {d vaddr : Nat}

theorem findPte_of_table {t : Nat} (h : tableAt s.mem d (vaddr / 4096 / 1024) = some t)
    (alloc : Int) :
  s.findPte d vaddr alloc = (t + 4 * (vaddr / 4096 % 1024), s)
  := by
  obtain ⟨hpresent, rfl⟩ := tableAt_eq_some_iff.mp h
  simp only [findPte, load, pdeIndex_page, pteIndex_eq, if_pos hpresent]

theorem findPte_of_no_table (h : tableAt s.mem d (vaddr / 4096 / 1024) = none) :
  s.findPte d vaddr 0 = (0, s)
  := by
  have habsent := tableAt_eq_none_iff.mp h
  simp only [findPte, load, pdeIndex_page, if_neg habsent, if_true]

theorem findPte_of_full (h : tableAt s.mem d (vaddr / 4096 / 1024) = none) (hfree : s.free = []) :
  s.findPte d vaddr 1 = (0, s)
  := by
  have habsent := tableAt_eq_none_iff.mp h
  simp only [findPte, load, pdeIndex_page, if_neg habsent, addrAllocPage_of_full hfree]
  rfl

/-- A missing page table is allocated, linked to the directory and cleared. -/
theorem findPte_of_free (hr : RangeWf s.gPaddrAlloc)
    (h : tableAt s.mem d (vaddr / 4096 / 1024) = none) (hfree : s.free = f :: rest) :
  s.findPte d vaddr 1
    = (f + 4 * (vaddr / 4096 % 1024),
        { s.take with mem := Nodes.install s.mem d (vaddr / 4096 / 1024) f })
  := by
  have habsent := tableAt_eq_none_iff.mp h
  have hbounds := hr.free_bounds (f := f) (by rw [← free, hfree]; apply List.mem_cons_self)
  have hf : f ≠ 0 := by
    rintro rfl
    cases hbounds.2.1
  simp only [findPte, load, pdeIndex_page, pteIndex_eq, if_neg habsent,
    addrAllocPage_of_free hr hfree, if_neg hf]
  rw [if_neg (by decide), kMemset, if_neg (by simp [hf])]
  rfl

end Kernel

/-! ### The entry of a fresh page -/

/-- The entry that maps a page to the frame `f` with permissions `perm`. -/
def mapWord (perm f : Nat) : Nat :=
  f ||| perm ||| pteP

section MapWord

variable {perm f : Nat} (hf : f % 4096 = 0) (hperm : perm < 4096)

include hf hperm

theorem mapWord_eq :
  mapWord perm f = f + (perm ||| pteP)
  := by
  rw [mapWord, Nat.or_assoc]
  apply or_flags hf
  rw [or_pteP]
  omega

theorem mapWord_present :
  Present (mapWord perm f)
  := by
  rw [present_iff, mapWord_eq hf hperm, or_pteP]
  omega

theorem ptePaddr_mapWord :
  ptePaddr (mapWord perm f) = f
  := by
  rw [ptePaddr_eq, mapWord_eq hf hperm, or_pteP]
  omega

/-- The flag bits of a mapped page are the permissions asked for, with `pteP`. -/
theorem mapWord_flags :
  mapWord perm f % 4096 = perm ||| pteP
  := by
  rw [mapWord_eq hf hperm, or_pteP]
  omega

theorem mapWord_lt (hlt : f + 4096 ≤ 2 ^ 32) :
  mapWord perm f < 2 ^ 32
  := by
  rw [mapWord_eq hf hperm, or_pteP]
  omega

end MapWord

namespace Kernel

/-! ### Allocating and mapping a page -/

/-- The state with another memory. -/
def setMem (s : Kernel) (m : Memory) : Kernel :=
  { s with mem := m }

@[simp]
theorem setMem_mem (s : Kernel) (m : Memory) :
  (s.setMem m).mem = m
  := rfl

@[simp]
theorem setMem_free (s : Kernel) (m : Memory) :
  (s.setMem m).free = s.free
  := rfl

@[simp]
theorem setMem_layout (s : Kernel) (m : Memory) :
  (s.setMem m).layout = s.layout
  := rfl

@[simp]
theorem setMem_cr3 (s : Kernel) (m : Memory) :
  (s.setMem m).cr3 = s.cr3
  := rfl

@[simp]
theorem setMem_gPaddrAlloc (s : Kernel) (m : Memory) :
  (s.setMem m).gPaddrAlloc = s.gPaddrAlloc
  := rfl

/-- A page is allocated and mapped at `vaddr`.  The first component is the request for a
frame that failed, if any. -/
def mapFresh (s : Kernel) (pageDir vaddr perm : Nat) : Option Request × Kernel :=
  match s.addrAllocPage 1 with
  | (paddr, s) =>
      if paddr = 0 then (some .page, s)
      else
        match s.memoryCreateMap pageDir vaddr paddr 1 perm with
        | (err, s) => if err < 0 then (some .table, s) else (none, s)

theorem memoryCreateMap_one (s : Kernel) (pageDir vaddr paddr perm : Nat) :
  s.memoryCreateMap pageDir vaddr paddr 1 perm
    = match s.findPte pageDir vaddr 1 with
      | (pte, s) => if pte = 0 then (-1, s) else (0, s.store pte (paddr ||| perm ||| pteP))
  := rfl

/-- All that allocating and mapping a page can do. -/
inductive MapFresh (s : Kernel) (d v perm : Nat) : Option Request → Kernel → Prop
  /-- There is no free page. -/
  | noPage : s.free = [] → MapFresh s d v perm (some .page) s
  /-- The entry goes into a table that is there. -/
  | mapped {f t : Nat} {rest : List Nat} : s.free = f :: rest →
      tableAt s.mem d (v / 1024) = some t →
      MapFresh s d v perm none
        (s.take.setMem (store32 s.mem (t + 4 * (v % 1024)) (mapWord perm f)))
  /-- There is a free page, but none for the table. -/
  | noTable {f : Nat} : s.free = [f] → tableAt s.mem d (v / 1024) = none →
      MapFresh s d v perm (some .table) s.take
  /-- The entry goes into a table installed for it. -/
  | mappedNew {f t : Nat} {rest : List Nat} : s.free = f :: t :: rest →
      tableAt s.mem d (v / 1024) = none →
      MapFresh s d v perm none
        (s.take.take.setMem
          (store32 (Nodes.install s.mem d (v / 1024) t) (t + 4 * (v % 1024)) (mapWord perm f)))

theorem mapFresh_cases {s : Kernel} (d vaddr perm : Nat) (hr : RangeWf s.gPaddrAlloc)
    (hne : s.free ≠ [] → ∀ t, tableAt s.mem d (vaddr / 4096 / 1024) = some t → t ≠ 0) :
  MapFresh s d (vaddr / 4096) perm (s.mapFresh d vaddr perm).1 (s.mapFresh d vaddr perm).2
  := by
  have hzero : ∀ g rest, s.free = g :: rest → g ≠ 0 := by
    rintro g rest hfree rfl
    have hbounds := hr.free_bounds (f := 0) (by rw [← free, hfree]; apply List.mem_cons_self)
    cases hbounds.2.1
  rcases hfree : s.free with _ | ⟨f, rest⟩
  · have hresult : s.mapFresh d vaddr perm = (some .page, s) := by
      simp only [mapFresh, addrAllocPage_of_full hfree, if_true]
    rw [hresult]
    apply MapFresh.noPage hfree
  · have hf := hzero f rest hfree
    rcases htable : tableAt s.mem d (vaddr / 4096 / 1024) with _ | t
    · rcases rest with _ | ⟨t, rest⟩
      · have hresult : s.mapFresh d vaddr perm = (some .table, s.take) := by
          simp only [mapFresh, addrAllocPage_of_free hr hfree, if_neg hf, memoryCreateMap_one,
            findPte_of_full (s := s.take) htable (free_take hr hfree), if_true]
          rfl
        rw [hresult]
        apply MapFresh.noTable hfree htable
      · have hfree' := free_take hr hfree
        have ht : t + 4 * (vaddr / 4096 % 1024) ≠ 0 := by
          have hbounds := (rangeWf_take hr).free_bounds (f := t)
            (by rw [← free, hfree']; apply List.mem_cons_self)
          unfold memExtStart at hbounds
          omega
        have hresult : s.mapFresh d vaddr perm = (none,
            s.take.take.setMem (store32 (Nodes.install s.mem d (vaddr / 4096 / 1024) t)
              (t + 4 * (vaddr / 4096 % 1024)) (mapWord perm f))) := by
          simp only [mapFresh, addrAllocPage_of_free hr hfree, if_neg hf, memoryCreateMap_one,
            findPte_of_free (s := s.take) (rangeWf_take hr) htable hfree', if_neg ht]
          rfl
        rw [hresult]
        apply MapFresh.mappedNew hfree htable
    · have ht : t + 4 * (vaddr / 4096 % 1024) ≠ 0 := by
        have := hne (by rw [hfree]; apply List.cons_ne_nil) t htable
        omega
      have hresult : s.mapFresh d vaddr perm = (none,
          s.take.setMem (store32 s.mem (t + 4 * (vaddr / 4096 % 1024)) (mapWord perm f))) := by
        simp only [mapFresh, addrAllocPage_of_free hr hfree, if_neg hf, memoryCreateMap_one,
          findPte_of_table (s := s.take) htable, if_neg ht]
        rfl
      rw [hresult]
      apply MapFresh.mapped hfree htable

namespace MapFresh

variable {s s' : Kernel} {d v perm lo : Nat} {r : Option Request} {live : Set Nat}

/-- Mapping a page changes memory and the allocator only. -/
theorem same_rest (h : MapFresh s d v perm r s') :
  s'.layout = s.layout ∧ s'.cr3 = s.cr3 ∧ s.gPaddrAlloc.SameRange s'.gPaddrAlloc
  := by
  cases h with
  | noPage => exact ⟨rfl, rfl, .refl _⟩
  | mapped => exact ⟨rfl, rfl, s.take_sameRange⟩
  | noTable => exact ⟨rfl, rfl, s.take_sameRange⟩
  | mappedNew => exact ⟨rfl, rfl, s.take_sameRange.trans s.take.take_sameRange⟩

/-- The frames taken are those that leave the free list. -/
theorem marked_iff (h : MapFresh s d v perm r s') (hr : RangeWf s.gPaddrAlloc) (g : Nat) :
  s'.Marked g ↔ s.Marked g ∨ (g ∈ s.free ∧ g ∉ s'.free)
  := by
  cases h with
  | noPage hfree => simp
  | mapped hfree htable => apply marked_take_iff hr hfree
  | noTable hfree htable => apply marked_take_iff hr hfree
  | mappedNew hfree htable => apply marked_take_take_iff hr hfree

/-- The free list loses frames from its front. -/
theorem free_suffix (h : MapFresh s d v perm r s') (hr : RangeWf s.gPaddrAlloc) :
  s'.free <:+ s.free
  := by
  cases h with
  | noPage hfree => apply List.suffix_rfl
  | mapped hfree htable => apply free_take_suffix hr hfree
  | noTable hfree htable => apply free_take_suffix hr hfree
  | mappedNew hfree htable =>
      have hrest := free_take hr hfree
      apply (free_take_suffix (rangeWf_take hr) hrest).trans (free_take_suffix hr hfree)

end MapFresh

end Kernel

end Dmos
