import Dmos.Kernel.Ownership

/-!
# Single pages

What `memoryAllocPage` and `memoryFreePage` do to the frames in use.  A page freed by a
user address is looked up in the directory of the current task, and its entry is cleared;
nothing checks that there is one (`memoryFreePage`).
-/

open ByteMemory

namespace Dmos.Kernel

variable {s : Kernel} {live : Set Nat} {d a f : Nat} {rest : List Nat}

/-! ### Allocating -/

/-- A frame that goes to no directory leaves their ownership as it is. -/
theorem Frames.take (hf : Frames s live) (hfree : s.free = f :: rest) :
  Frames s.take live
  where
  range := rangeWf_take hf.range
  exclusive := hf.exclusive.grow_used
    (fun g hg => (marked_take hf.range hfree g).mpr (.inl hg))
  kernel := hf.kernel

/-- Memory below the allocator's range holds no directory but the kernel's. -/
theorem Frames.store_low (hf : Frames s live) (ha : a + 4 ≤ memExtStart) (w : Nat)
    (hbase : a + 4 ≤ s.layout.gKernelPageDir ∨ s.layout.gKernelPageDir + 4096 ≤ a) :
  Frames (s.store a w) live
  := by
  apply hf.setMem
  · intro q g hq x hx hx'
    have hbounds := hf.range.marked_bounds (hf.exclusive.used_of_owns hq.owns)
    apply store32_of_disjoint
    omega
  · intro x hx hx'
    apply store32_of_disjoint
    omega

/-- So it holds no entry of a directory in use. -/
theorem Frames.pteAt_store_low (hf : Frames s live) (hd : d ∈ live) (ha : a + 4 ≤ memExtStart)
    (w : Nat) {v : Nat} (hlo : 512 ≤ v / 1024) (hv : v < 2 ^ 20) :
  pteAt (s.store a w).mem d v = pteAt s.mem d v
  := by
  have hframe : ∀ q g, OwnsNode 512 s.mem live q g → SameFrame s.mem (s.store a w).mem g := by
    intro q g hq x hx hx'
    have hbounds := (hf.range.marked_bounds (hf.exclusive.used_of_owns hq.owns)).2.1
    apply store32_of_disjoint
    omega
  apply pteAt_congr (hframe (.dir d) d ⟨hd, rfl⟩) hv
  intro t ht
  apply hframe (.table d (v / 1024)) t ⟨hd, hlo, by omega, ht⟩

/-! ### Freeing -/

/-- Freeing any address clears the mark of the page it is in, if it has one. -/
theorem marked_addrFreePage_one (hr : RangeWf s.gPaddrAlloc) (ha : a < 2 ^ 32) (g : Nat) :
  (s.addrFreePage a 1).Marked g ↔ s.Marked g ∧ g ≠ a - a % 4096
  := by
  have hpage : ∀ i, s.gPaddrAlloc.page i = 1048576 + i * 4096 := by
    intro i
    rw [AddrAlloc.page, hr.start, hr.pageSize]
  have hend : 1048576 + s.gPaddrAlloc.bitmap.bitCount * 4096 ≤ 2147483648 := hr.bitCount_mul_le
  have hindex : u32Sub a s.gPaddrAlloc.start / s.gPaddrAlloc.pageSize
      = (a + 4294967296 - 1048576) % 4294967296 / 4096 := by
    rw [hr.start, hr.pageSize]
    rfl
  by_cases hin : 1048576 ≤ a ∧ (a - 1048576) / 4096 < s.gPaddrAlloc.bitmap.bitCount
  · obtain ⟨hstart, hi⟩ := hin
    have hpageIn := hpage ((a - 1048576) / 4096)
    have hsize : s.gPaddrAlloc.pageSize = 4096 := hr.pageSize
    have hfreed := marked_addrFreePage hr.wf hi (show _ ≤ a by omega) (by omega) g
    rw [hpageIn, show 1048576 + (a - 1048576) / 4096 * 4096 = a - a % 4096 by omega] at hfreed
    apply hfreed
  · have houtside : s.gPaddrAlloc.bitmap.bitCount
        ≤ u32Sub a s.gPaddrAlloc.start / s.gPaddrAlloc.pageSize := by
      rw [hindex]
      omega
    have hsame : s.addrFreePage a 1 = s := by
      rw [addrFreePage_eq, addrFreePage_of_outside houtside]
      rfl
    rw [hsame]
    constructor
    · intro hg
      use hg
      rintro rfl
      obtain ⟨i, hi, -, heq⟩ := hg
      rw [hpage] at heq
      apply hin
      omega
    · intro hg
      apply hg.1

/-- The frame that `memoryFreePage` releases, with `d` the directory of the current task. -/
def freedPage (s : Kernel) (d a : Nat) : Nat :=
  if a < memoryTaskBase then a - a % 4096 else ptePaddr (s.load (s.findPte d a 0).1)

theorem ptePaddr_eq (w : Nat) :
  ptePaddr w = w - w % 4096
  := by
  rw [ptePaddr, Nat.shiftLeft_eq, Nat.shiftRight_eq_div_pow]
  omega

theorem marked_store (a w g : Nat) :
  (s.store a w).Marked g ↔ s.Marked g
  := Iff.rfl

theorem memoryFreePage_of_lt (h : a < memoryTaskBase) :
  s.memoryFreePage d a = s.addrFreePage a 1
  := if_pos h

theorem memoryFreePage_of_le (h : ¬ a < memoryTaskBase) :
  s.memoryFreePage d a
    = (s.addrFreePage (s.freedPage d a) 1).store (s.findPte d a 0).1 0
  := by
  rw [memoryFreePage, if_neg h, freedPage, if_neg h]

theorem freedPage_congr {t : Kernel} (hmem : t.mem = s.mem) :
  t.freedPage d a = s.freedPage d a
  := by
  rw [freedPage, freedPage]
  split_ifs
  · rfl
  · rcases ht : tableAt s.mem d (a / 4096 / 1024) with _ | table
    · rw [findPte_of_no_table ht, findPte_of_no_table (by rw [hmem, ht]), load, load, hmem]
    · rw [findPte_of_table ht, findPte_of_table (by rw [hmem, ht]), load, load, hmem]

/-- A present page has its frame released. -/
theorem freedPage_of_present (hbase : ¬ a < memoryTaskBase) (hp : Present (pteAt s.mem d (a / 4096))) :
  s.freedPage d a = ptePaddr (pteAt s.mem d (a / 4096))
  := by
  rw [freedPage, if_neg hbase]
  rcases ht : tableAt s.mem d (a / 4096 / 1024) with _ | table
  · rw [pteAt_of_no_table ht] at hp
    cases hp
  · rw [findPte_of_table ht, pteAt_of_table ht]
    rfl

theorem freedPage_lt (ha : a < 2 ^ 32) :
  s.freedPage d a < 2 ^ 32
  := by
  rw [freedPage]
  split_ifs
  · omega
  · have hword : s.load (s.findPte d a 0).1 < 2 ^ 32 := load32_lt _ _
    rw [ptePaddr_eq]
    omega

theorem freedPage_aligned :
  s.freedPage d a % 4096 = 0
  := by
  rw [freedPage]
  split_ifs
  · omega
  · rw [ptePaddr_eq]
    omega

theorem marked_memoryFreePage (hr : RangeWf s.gPaddrAlloc) (ha : a < 2 ^ 32) (g : Nat) :
  (s.memoryFreePage d a).Marked g ↔ s.Marked g ∧ g ≠ s.freedPage d a
  := by
  by_cases hlow : a < memoryTaskBase
  · rw [memoryFreePage_of_lt hlow, freedPage, if_pos hlow]
    apply marked_addrFreePage_one hr ha
  · have haligned : s.freedPage d a % 4096 = 0 := freedPage_aligned
    rw [memoryFreePage_of_le hlow, marked_store, marked_addrFreePage_one hr (freedPage_lt ha),
      haligned, Nat.sub_zero]

/-- A frame that was not in use is not behind a present page, so none is unmapped. -/
theorem pteAt_memoryFreePage (hf : Frames s live) (hd : d ∈ live) (ha : a < 2 ^ 32)
    (hstray : ¬ s.Marked (s.freedPage d a)) {v : Nat} (hlo : 512 ≤ v / 1024) (hv : v < 2 ^ 20)
    (hp : Present (pteAt s.mem d v)) :
  pteAt (s.memoryFreePage d a).mem d v = pteAt s.mem d v
  := by
  by_cases hlow : a < memoryTaskBase
  · rw [memoryFreePage_of_lt hlow, addrFreePage_eq, setAlloc_mem]
  · rw [memoryFreePage_of_le hlow, store_mem, addrFreePage_eq, setAlloc_mem]
    rw [freedPage, if_neg hlow] at hstray
    have hpage : 524288 ≤ a / 4096 := by
      have hbase : 2147483648 ≤ a := Nat.le_of_not_lt hlow
      omega
    rcases ht : tableAt s.mem d (a / 4096 / 1024) with _ | t
    · -- without a table the word at address zero is cleared
      rw [findPte_of_no_table ht]
      apply hf.pteAt_store_low hd (show 0 + 4 ≤ memExtStart by decide) 0 hlo hv
    · rw [findPte_of_table ht] at hstray ⊢
      rw [hf.nodes.distinct.pteAt_storePte hd (by omega) (by omega) ht (by decide) hd hlo hv, if_neg]
      rintro ⟨-, rfl⟩
      apply hstray
      have hmarked := hf.marked_page hd hlo hv hp
      rw [pteAt_of_table ht] at hmarked
      apply hmarked

/-- Freeing a page leaves the frames and the pages of `d` as they were only when what it releases
is not in use. -/
theorem memoryFreePage_same_iff (hf : Frames s live) (hd : d ∈ live) (ha : a < 2 ^ 32) :
  ((∀ v, 524288 ≤ v → v < 2 ^ 20 → Present (pteAt s.mem d v) →
      pteAt (s.memoryFreePage d a).mem d v = pteAt s.mem d v)
    ∧ ∀ g, (s.memoryFreePage d a).Marked g ↔ s.Marked g)
    ↔ ¬ s.Marked (s.freedPage d a)
  := by
  constructor
  · rintro ⟨-, hframes⟩ hmarked
    rw [← hframes, marked_memoryFreePage hf.range ha] at hmarked
    apply hmarked.2 rfl
  · intro hstray
    constructor
    · intro v hlo hv hpresent
      apply pteAt_memoryFreePage hf hd ha hstray (by omega) hv hpresent
    · intro g
      rw [marked_memoryFreePage hf.range ha]
      constructor
      · intro hg
        apply hg.1
      · intro hg
        use hg
        rintro rfl
        apply hstray hg

/-! ### What a freed page leaves -/

theorem store_layout (s : Kernel) (p v : Nat) :
  (s.store p v).layout = s.layout
  := rfl

theorem store_gPaddrAlloc (s : Kernel) (p v : Nat) :
  (s.store p v).gPaddrAlloc = s.gPaddrAlloc
  := rfl

/-- The layout and the range of the allocator stay. -/
theorem memoryFreePage_kept :
  (s.memoryFreePage d a).layout = s.layout
    ∧ s.gPaddrAlloc.SameRange (s.memoryFreePage d a).gPaddrAlloc
  := by
  by_cases hlow : a < memoryTaskBase
  · rw [memoryFreePage_of_lt hlow, addrFreePage_eq, setAlloc_layout]
    use rfl
    apply addrFreePage_sameRange
  · rw [memoryFreePage_of_le hlow, addrFreePage_eq, store_layout, setAlloc_layout,
      store_gPaddrAlloc]
    use rfl
    apply addrFreePage_sameRange

/-- The only frame that may be written when a page is freed is a user page table of `d`. -/
theorem sameFrame_memoryFreePage (ha : a < 2 ^ 32) {g : Nat} (hg : g % 4096 = 0) (hpos : memPageSize ≤ g)
    (hne : ∀ i, 512 ≤ i → i < 1024 → tableAt s.mem d i ≠ some g) :
  SameFrame s.mem (s.memoryFreePage d a).mem g
  := by
  unfold memPageSize at hpos
  by_cases hlow : a < memoryTaskBase
  · rw [memoryFreePage_of_lt hlow, addrFreePage_eq, setAlloc_mem]
    exact fun _ _ _ => rfl
  · rw [memoryFreePage_of_le hlow, store_mem, addrFreePage_eq, setAlloc_mem]
    have hbase : 2147483648 ≤ a := Nat.le_of_not_lt hlow
    rcases ht : tableAt s.mem d (a / 4096 / 1024) with _ | t
    · rw [findPte_of_no_table ht]
      intro x hx _
      apply store32_of_disjoint
      omega
    · rw [findPte_of_table ht]
      apply sameFrame_store32 _ _ hg (tableAt_aligned ht) (by omega)
      rintro rfl
      exact hne _ (by omega) (by omega) ht

/-- A page that is freed is not owned any more, and nothing new is. -/
theorem owns_memoryFreePage (hf : Frames s live) (hd : d ∈ live) (ha : a < 2 ^ 32) {q : Place}
    {g : Nat} (hq : Owns 512 (s.memoryFreePage d a).mem live q g) :
  Owns 512 s.mem live q g ∧ (memoryTaskBase ≤ a → q ≠ .page d (a / 4096))
  := by
  by_cases hlow : a < memoryTaskBase
  · rw [memoryFreePage_of_lt hlow, addrFreePage_eq, setAlloc_mem] at hq
    exact ⟨hq, fun hle => absurd hlow (by omega)⟩
  · have hbase : 2147483648 ≤ a := Nat.le_of_not_lt hlow
    rcases ht : tableAt s.mem d (a / 4096 / 1024) with _ | t
    · -- the word at address zero is cleared
      rw [memoryFreePage_of_le hlow, store_mem, addrFreePage_eq, setAlloc_mem,
        findPte_of_no_table ht] at hq
      have hold : Owns 512 s.mem live q g := by
        apply hq.of_entries
        · intro e he i hi
          apply tableAt_congr _ hi
          intro x hx _
          have hbounds := hf.range.marked_bounds (hf.marked_dir he)
          unfold memExtStart at hbounds
          apply store32_of_disjoint
          omega
        · intro e he v hlo hv
          apply hf.pteAt_store_low he (show 0 + 4 ≤ memExtStart by decide) 0 hlo hv
      refine ⟨hold, ?_⟩
      rintro - rfl
      obtain ⟨-, -, -, hp, -⟩ := hold
      rw [pteAt_of_no_table ht] at hp
      cases hp
    · rw [memoryFreePage_of_le hlow, store_mem, addrFreePage_eq, setAlloc_mem,
        findPte_of_table ht] at hq
      have hentry {e v : Nat} (he : e ∈ live) (hlo : 512 ≤ v / 1024) (hv : v < 2 ^ 20) :=
        hf.nodes.distinct.pteAt_storePte hd (show 512 ≤ a / 4096 / 1024 by omega) (by omega) ht
          (show 0 < 2 ^ 32 by decide) he hlo hv
      have htable {e i : Nat} (he : e ∈ live) (hi : i < 1024) :=
        hf.nodes.distinct.tableAt_storePte (w := 0) hd (show 512 ≤ a / 4096 / 1024 by omega)
          (by omega) ht he hi
      cases q with
      | dir e => exact ⟨hq, fun _ => Place.noConfusion⟩
      | table e i =>
          obtain ⟨he, hi, hi', htab⟩ := hq
          rw [htable he hi'] at htab
          exact ⟨⟨he, hi, hi', htab⟩, fun _ => Place.noConfusion⟩
      | page e v =>
          obtain ⟨he, hlo, hv, hp, rfl⟩ := hq
          rw [hentry he hlo hv] at hp ⊢
          by_cases heq : e = d ∧ v = a / 4096
          · rw [if_pos heq] at hp
            cases hp
          · rw [if_neg heq] at hp ⊢
            refine ⟨⟨he, hlo, hv, hp, rfl⟩, ?_⟩
            rintro - heq'
            apply heq
            cases heq'
            exact ⟨rfl, rfl⟩

/-! ### Giving a frame back -/

/-- Freeing the frame that was taken last. -/
theorem marked_giveBack (hr : RangeWf s.gPaddrAlloc) (hfree : s.free = f :: rest) (g : Nat) :
  (s.take.addrFreePage f 1).Marked g ↔ s.Marked g
  := by
  have hmem : f ∈ s.free := by
    rw [hfree]
    apply List.mem_cons_self
  have hbounds := hr.free_bounds hmem
  have hsmall : f < 2 ^ 32 := by
    have hend : f + 4096 ≤ 2147483648 := hbounds.2.2
    omega
  have haligned : f % 4096 = 0 := hbounds.1
  rw [marked_addrFreePage_one (rangeWf_take hr) hsmall, haligned, Nat.sub_zero,
    marked_take hr hfree]
  constructor
  · rintro ⟨hg | hg, hne⟩
    · apply hg
    · cases hne hg
  · intro hg
    use .inl hg
    rintro rfl
    apply hg.not_free hr hmem

theorem Frames.giveBack (hf : Frames s live) (hfree : s.free = f :: rest) :
  Frames (s.take.addrFreePage f 1) live
  where
  range := by
    rw [addrFreePage_eq]
    apply (rangeWf_take hf.range).sameRange
    apply addrFreePage_sameRange
  exclusive := by
    have hgrow := hf.exclusive.grow_used (fun g hg => (marked_giveBack hf.range hfree g).mpr hg)
    rw [addrFreePage_eq, setAlloc_mem, take_mem]
    apply hgrow
  kernel e he i hi := by
    rw [addrFreePage_eq, setAlloc_mem, setAlloc_layout, take_mem]
    apply hf.kernel e he i hi

end Dmos.Kernel
