import Dmos.Kernel.Building

/-!
# Frame ownership

`Frames s live` is what the memory manager maintains about the page directories in `live`:
their frames, the frames of their user page tables and the frames behind their present user
pages are marked used, each has one place only, and the kernel half of each directory is
that of the kernel's.

It is kept by mapping pages (`Frames.built`), by the creation of a directory
(`Frames.created`), and, for the other directories, by the destruction of one
(`Frames.destroyed`).
-/

open ByteMemory AddressSpace Loop

namespace Dmos

/-- The directory a place belongs to. -/
def Place.root : Place → Nat
  | .dir d => d
  | .table d _ => d
  | .page d _ => d

namespace Kernel

structure Frames (s : Kernel) (live : Set Nat) : Prop where
  range : RangeWf s.gPaddrAlloc
  exclusive : Exclusive (Owns 512 s.mem live) s.Marked
  kernel : ∀ d ∈ live, ∀ i < 512,
    load32 s.mem (d + 4 * i) = load32 s.mem (s.layout.gKernelPageDir + 4 * i)

theorem Marked.not_free {s : Kernel} (hr : RangeWf s.gPaddrAlloc) {f : Nat} (h : s.Marked f) :
  f ∉ s.free
  := AddrAlloc.Marked.not_mem_freePages hr.wf h

/-- The kernel's directory lies below all frames of the allocator. -/
theorem gKernelPageDir_lt (l : Layout) {f : Nat} (h : memExtStart ≤ f) :
  l.gKernelPageDir + 4096 ≤ f
  := l.gKernelPageDir_end.trans h

namespace Frames

variable {s s' : Kernel} {live : Set Nat} {d : Nat}

theorem nodes (h : Frames s live) :
  Nodes 512 s.mem live s.free
  where
  exclusive := by
    apply h.exclusive.shrink (fun p f hp => hp.owns)
    intro p f hp
    apply (h.exclusive.used_of_owns hp.owns).not_free h.range
  aligned d hd := (h.range.marked_bounds (h.exclusive.used_of_owns (p := .dir d) ⟨hd, rfl⟩)).1
  ne_zero {p f} hp := by
    have hbounds := h.range.marked_bounds (h.exclusive.used_of_owns hp.owns)
    unfold memExtStart at hbounds
    omega

theorem marked_dir (h : Frames s live) (hd : d ∈ live) :
  s.Marked d
  := h.exclusive.used_of_owns (p := .dir d) ⟨hd, rfl⟩

theorem marked_table (h : Frames s live) (hd : d ∈ live) {i t : Nat} (hlo : 512 ≤ i)
    (hi : i < 1024) (ht : tableAt s.mem d i = some t) :
  s.Marked t
  := h.exclusive.used_of_owns (p := .table d i) ⟨hd, hlo, hi, ht⟩

theorem marked_page (h : Frames s live) (hd : d ∈ live) {v : Nat} (hlo : 512 ≤ v / 1024)
    (hv : v < 2 ^ 20) (hp : Present (pteAt s.mem d v)) :
  s.Marked (ptePaddr (pteAt s.mem d v))
  := h.exclusive.used_of_owns (p := .page d v) ⟨hd, hlo, hv, hp, rfl⟩

/-- The frame behind a present page keeps its contents when pages are mapped. -/
theorem sameFrame_page {vs : List (Nat × (Nat → Nat))} {r : Option Request} (h : Frames s live)
    (hd : d ∈ live) (hb : Built 512 live s s' d vs r) {e v : Nat} (he : e ∈ live)
    (hlo : 512 ≤ v / 1024) (hv : v < 2 ^ 20) (hp : Present (pteAt s.mem e v)) :
  SameFrame s.mem s'.mem (ptePaddr (pteAt s.mem e v))
  := by
  have hown : Owns 512 s.mem live (.page e v) (ptePaddr (pteAt s.mem e v)) := ⟨he, hlo, hv, hp, rfl⟩
  have hmarked := h.exclusive.used_of_owns hown
  apply hb.frame _ (h.range.marked_bounds hmarked).1
  · intro heq
    cases h.exclusive.unique (p := .dir d) ⟨hd, rfl⟩ (heq ▸ hown)
  · intro i hi hi' ht
    cases h.exclusive.unique (p := .table d i) ⟨hd, hi, hi', ht⟩ hown
  · apply hmarked.not_free h.range

/-- The kernel's directory is not written when pages are mapped. -/
theorem sameFrame_base {vs : List (Nat × (Nat → Nat))} {r : Option Request} (h : Frames s live)
    (hd : d ∈ live) (hb : Built 512 live s s' d vs r) :
  SameFrame s.mem s'.mem s.layout.gKernelPageDir
  := by
  apply hb.frame _ s.layout.gKernelPageDir_aligned
  · have hlt := gKernelPageDir_lt s.layout (h.range.marked_bounds (h.marked_dir hd)).2.1
    omega
  · intro j hlo hj ht
    have hlt := gKernelPageDir_lt s.layout
      (h.range.marked_bounds (h.marked_table hd hlo hj ht)).2.1
    omega
  · intro hfree
    have hlt := gKernelPageDir_lt s.layout (h.range.free_bounds hfree).2.1
    omega

/-- Mapping pages of a directory keeps the ownership of frames. -/
theorem built {vs : List (Nat × (Nat → Nat))} {r : Option Request} (h : Frames s live)
    (hd : d ∈ live) (hb : Built 512 live s s' d vs r) :
  Frames s' live
  where
  range := h.range.sameRange hb.range
  exclusive := hb.exclusive h.exclusive
  kernel e he i hi := by
    have hbase := h.sameFrame_base hd hb
    rw [hb.layout, hbase.load32 (by omega), ← h.kernel e he i hi]
    by_cases hed : e = d
    · rw [hed]
      apply hb.dir i (by omega) hi
    · apply (hb.sameFrame_dir_of_ne h.nodes hd he hed).load32
      omega

end Frames

theorem Frames.empty {s : Kernel} (hr : RangeWf s.gPaddrAlloc) :
  Frames s ∅
  where
  range := hr
  exclusive := by
    have hnone : ∀ p f, ¬ Owns 512 s.mem ∅ p f := by
      rintro (_ | _ | _) f hp
      · cases hp.1
      · cases hp.1
      · cases hp.1
    constructor
    · intro p f hp
      cases hnone p f hp
    · intro p q f hp
      cases hnone p f hp
  kernel d hd := by cases hd

/-! ### Creating a directory -/

/-- The page `d` has been allocated for a directory, and `k` words of it are copied from the
kernel's directory, the rest being clear. -/
structure Creating (s : Kernel) (d k : Nat) (s' : Kernel) : Prop where
  layout : s'.layout = s.layout
  cr3 : s'.cr3 = s.cr3
  alloc : s'.gPaddrAlloc = s.take.gPaddrAlloc
  kernel : ∀ i < k, load32 s'.mem (d + 4 * i) = load32 s.mem (s.layout.gKernelPageDir + 4 * i)
  user : ∀ i, k ≤ i → i < 1024 → load32 s'.mem (d + 4 * i) = 0
  outside : ∀ x, ¬ (d ≤ x ∧ x < d + 4096) → s'.mem x = s.mem x

/-- The directory `d` has been created. -/
abbrev Created (s s' : Kernel) (d : Nat) : Prop :=
  Creating s d 512 s'

/-- A cleared page is a directory with nothing copied yet. -/
theorem creating_zero (s : Kernel) (d : Nat) :
  Creating s d 0 (s.take.setMem (fill s.mem d 0 4096))
  where
  layout := rfl
  cr3 := rfl
  alloc := rfl
  kernel i hi := by omega
  user i _ hi := by
    apply load32_fill_zero <;> omega
  outside x hx := by
    apply fill_of_disjoint
    omega

/-- One word more is copied. -/
theorem Creating.succ {s t : Kernel} {d k : Nat} (h : Creating s d k t) (hk : k < 512)
    (hd : memExtStart ≤ d) :
  Creating s d (k + 1) (t.store (d + 4 * k) (t.load (t.layout.gKernelPageDir + 4 * k)))
  := by
  have hbase := gKernelPageDir_lt s.layout hd
  have hword : t.load (t.layout.gKernelPageDir + 4 * k)
      = load32 s.mem (s.layout.gKernelPageDir + 4 * k) := by
    rw [load, h.layout]
    apply load32_congr
    intro x hx hx'
    apply h.outside
    omega
  rw [hword]
  constructor
  · apply h.layout
  · apply h.cr3
  · apply h.alloc
  · intro i hi
    rw [store_mem]
    by_cases hik : i = k
    · rw [hik, load32_store32 _ _ (load32_lt _ _)]
    · rw [load32_store32_of_disjoint _ _ (by omega)]
      apply h.kernel
      omega
  · intro i hi hi'
    rw [store_mem, load32_store32_of_disjoint _ _ (by omega)]
    apply h.user i (by omega) hi'
  · intro x hx
    rw [store_mem, store32_of_disjoint _ _ (by omega)]
    apply h.outside x hx

theorem memoryCreateUvm_of_full {s : Kernel} (h : s.free = []) :
  s.memoryCreateUvm = (0, s)
  := by
  rw [memoryCreateUvm, addrAllocPage_of_full h]
  rfl

theorem memoryCreateUvm_of_free {s : Kernel} {d : Nat} {rest : List Nat}
    (hr : RangeWf s.gPaddrAlloc) (h : s.free = d :: rest) :
  ∃ s', s.memoryCreateUvm = (d, s') ∧ Created s s' d
  := by
  have hbounds := hr.free_bounds (f := d) (by rw [← free, h]; apply List.mem_cons_self)
  have hd : d ≠ 0 := by
    rintro rfl
    cases hbounds.2.1
  have hcreated : Creating s d (0 + 512) (forEach
      (fun i t => t.store (d + 4 * i) (t.load (t.layout.gKernelPageDir + 4 * i))) 0 512
      (s.take.setMem (fill s.mem d 0 4096))) := by
    apply forEach_rule _ (Creating s d) _ (creating_zero s d)
    intro k t _ hk ht
    apply ht.succ (by omega) hbounds.2.1
  refine ⟨_, ?_, hcreated⟩
  simp only [memoryCreateUvm, addrAllocPage_of_free hr h, if_neg hd]
  rw [kMemset, if_neg (by simp [hd])]
  rfl

section Created

variable {s s' : Kernel} {live : Set Nat} {d : Nat} {rest : List Nat}

theorem Creating.free (h : Created s s' d) (hr : RangeWf s.gPaddrAlloc) (hfree : s.free = d :: rest) :
  s'.free = rest
  := by
  rw [Kernel.free, h.alloc]
  apply free_take hr hfree

theorem Creating.marked (h : Created s s' d) (hr : RangeWf s.gPaddrAlloc)
    (hfree : s.free = d :: rest) (g : Nat) :
  s'.Marked g ↔ s.Marked g ∨ g = d
  := by
  rw [Kernel.Marked, h.alloc]
  apply marked_take hr hfree

/-- All other frames are as they were. -/
theorem Creating.sameFrame (h : Created s s' d) (hd : d % 4096 = 0) {f : Nat} (hf : f % 4096 = 0)
    (hne : f ≠ d) :
  SameFrame s.mem s'.mem f
  := by
  intro x hx hx'
  apply h.outside
  omega

/-- The new directory has no user page tables. -/
theorem Creating.tableAt (h : Created s s' d) {i : Nat} (hlo : 512 ≤ i) (hi : i < 1024) :
  tableAt s'.mem d i = none
  := by
  rw [tableAt_eq_none_iff, h.user i hlo hi]
  decide

theorem Creating.pteAt (h : Created s s' d) {v : Nat} (hlo : 512 ≤ v / 1024) (hv : v < 2 ^ 20) :
  pteAt s'.mem d v = 0
  := pteAt_of_no_table (h.tableAt hlo (by omega))

section Others

variable (hc : Creating s d 512 s') (h : Frames s live) (hfree : s.free = d :: rest)

include hc h hfree

/-- The frames of the other directories are as they were. -/
theorem Creating.sameFrame_owned {p : Place} {f : Nat} (hp : Owns 512 s.mem live p f) :
  SameFrame s.mem s'.mem f
  := by
  have hmem : d ∈ s.free := by
    rw [hfree]
    apply List.mem_cons_self
  have hmarked := h.exclusive.used_of_owns hp
  apply hc.sameFrame (h.range.free_bounds hmem).1 (h.range.marked_bounds hmarked).1
  rintro rfl
  apply hmarked.not_free h.range hmem

theorem Creating.tableAt_live {e i : Nat} (he : e ∈ live) (hi : i < 1024) :
  Dmos.tableAt s'.mem e i = Dmos.tableAt s.mem e i
  := by
  apply tableAt_congr _ hi
  apply hc.sameFrame_owned h hfree (p := .dir e)
  exact ⟨he, rfl⟩

theorem Creating.pteAt_live {e v : Nat} (he : e ∈ live) (hlo : 512 ≤ v / 1024) (hv : v < 2 ^ 20) :
  Dmos.pteAt s'.mem e v = Dmos.pteAt s.mem e v
  := by
  apply pteAt_congr _ hv
  · intro t ht
    apply hc.sameFrame_owned h hfree (p := .table e (v / 1024))
    exact ⟨he, hlo, by omega, ht⟩
  · apply hc.sameFrame_owned h hfree (p := .dir e)
    exact ⟨he, rfl⟩

/-- The new directory owns its own frame only. -/
theorem Creating.owns_cases {p : Place} {f : Nat} (hp : Owns 512 s'.mem (insert d live) p f) :
  (p = .dir d ∧ f = d) ∨ Owns 512 s.mem live p f
  := by
  cases p with
  | dir e =>
      obtain ⟨rfl | he, rfl⟩ := hp
      · exact .inl ⟨rfl, rfl⟩
      · exact .inr ⟨he, rfl⟩
  | table e i =>
      obtain ⟨rfl | he, hi, hi', ht⟩ := hp
      · rw [hc.tableAt hi hi'] at ht
        cases ht
      · rw [hc.tableAt_live h hfree he hi'] at ht
        exact .inr ⟨he, hi, hi', ht⟩
  | page e v =>
      obtain ⟨rfl | he, hv, hv', hp⟩ := hp
      · rw [hc.pteAt hv hv'] at hp
        cases hp.1
      · rw [hc.pteAt_live h hfree he hv hv'] at hp
        exact .inr ⟨he, hv, hv', hp⟩

end Others

/-- The new directory joins the others. -/
theorem Frames.created (h : Frames s live) (hfree : s.free = d :: rest) (hc : Created s s' d) :
  Frames s' (insert d live)
  := by
  have hmem : d ∈ s.free := by
    rw [hfree]
    apply List.mem_cons_self
  have hbounds := h.range.free_bounds hmem
  have hnobody : ∀ p, ¬ Owns 512 s.mem live p d := by
    intro p hp
    apply (h.exclusive.used_of_owns hp).not_free h.range hmem
  constructor
  · rw [hc.alloc]
    apply rangeWf_take h.range
  · have hused : Exclusive (Owns 512 s.mem live) s'.Marked :=
      h.exclusive.grow_used (fun g hg => (hc.marked h.range hfree g).mpr (.inl hg))
    apply hused.take hnobody ((hc.marked h.range hfree d).mpr (.inr rfl)) (q := .dir d)
    intro p f hp
    rcases hc.owns_cases h hfree hp with hnew | hold
    · right
      apply hnew
    · left
      refine ⟨?_, hold⟩
      rintro rfl
      obtain rfl : f = d := hold.2
      apply hnobody (.dir f) hold
  · have hbase : SameFrame s.mem s'.mem s.layout.gKernelPageDir := by
      apply hc.sameFrame hbounds.1 s.layout.gKernelPageDir_aligned
      have := gKernelPageDir_lt s.layout hbounds.2.1
      omega
    intro e he i hi
    rw [hc.layout, hbase.load32 (by omega)]
    rcases he with rfl | he
    · apply hc.kernel i hi
    · rw [← h.kernel e he i hi]
      apply SameFrame.load32 _ (by omega)
      apply hc.sameFrame_owned h hfree (p := .dir e)
      exact ⟨he, rfl⟩

end Created

/-! ### Destroying a directory -/

theorem marked_addrFreePage_page {s : Kernel} (hr : RangeWf s.gPaddrAlloc) {i : Nat}
    (hi : i < s.gPaddrAlloc.bitmap.bitCount) (g : Nat) :
  (s.addrFreePage (s.gPaddrAlloc.page i) 1).Marked g ↔ s.Marked g ∧ g ≠ s.gPaddrAlloc.page i
  := by
  have hpos := hr.wf.pageSize_pos
  apply marked_addrFreePage hr.wf hi (le_refl _) (by omega)

/-- Between `s` and `t` the frames of `G` have been released, and nothing else happened. -/
structure Freed (s t : Kernel) (G : Nat → Prop) : Prop where
  layout : t.layout = s.layout
  mem : t.mem = s.mem
  cr3 : t.cr3 = s.cr3
  range : s.gPaddrAlloc.SameRange t.gPaddrAlloc
  marked : ∀ g, t.Marked g ↔ s.Marked g ∧ ¬ G g

namespace Freed

variable {s t : Kernel} {G G' : Nat → Prop}

theorem refl (s : Kernel) :
  Freed s s (fun _ => False)
  := ⟨rfl, rfl, rfl, .refl _, by simp⟩

theorem congr (h : Freed s t G) (hG : ∀ g, G g ↔ G' g) :
  Freed s t G'
  := by
  use h.layout, h.mem, h.cr3, h.range
  intro g
  rw [h.marked, hG]

/-- Releasing one frame more, which was marked at the beginning. -/
theorem free (h : Freed s t G) (hr : RangeWf s.gPaddrAlloc) {f : Nat} (hf : s.Marked f) :
  Freed s (t.addrFreePage f 1) (fun g => G g ∨ g = f)
  := by
  obtain ⟨i, hi, -, rfl⟩ := hf
  have hmarked := marked_addrFreePage_page (hr.sameRange h.range) (h.range.bitCount.symm ▸ hi)
  rw [h.range.page i] at hmarked
  constructor
  · rw [addrFreePage_eq, setAlloc_layout, h.layout]
  · rw [addrFreePage_eq, setAlloc_mem, h.mem]
  · rw [addrFreePage_eq, setAlloc_cr3, h.cr3]
  · apply h.range.trans
    apply addrFreePage_sameRange
  · intro g
    rw [hmarked, h.marked, not_or, and_assoc]

end Freed

/-- The frames of the user tables of `d` below index `k`, with their pages. -/
def HeldBelow (m : Memory) (d k g : Nat) : Prop :=
  (∃ i, 512 ≤ i ∧ i < k ∧ tableAt m d i = some g) ∨
  ∃ v, 512 ≤ v / 1024 ∧ v / 1024 < k ∧ Present (pteAt m d v) ∧ ptePaddr (pteAt m d v) = g

/-- The frames of the first `j` pages of table `i` of `d`. -/
def HeldInTable (m : Memory) (d i j g : Nat) : Prop :=
  ∃ v, v / 1024 = i ∧ v % 1024 < j ∧ Present (pteAt m d v) ∧ ptePaddr (pteAt m d v) = g

section Destroy

variable {s : Kernel} {live : Set Nat} {d : Nat}

/-- One page more of a table is released. -/
theorem Freed.page {t : Kernel} {i j tbl : Nat} {G : Nat → Prop} (h : Frames s live) (hd : d ∈ live)
    (hi : 512 ≤ i) (hi' : i < 1024) (hj : j < 1024) (ht : tableAt s.mem d i = some tbl)
    (hf : Freed s t (fun g => G g ∨ HeldInTable s.mem d i j g)) :
  Freed s
    (if Present (t.load (tbl + 4 * j)) then t.addrFreePage (ptePaddr (t.load (tbl + 4 * j))) 1
      else t)
    (fun g => G g ∨ HeldInTable s.mem d i (j + 1) g)
  := by
  have hpage : (1024 * i + j) / 1024 = i ∧ (1024 * i + j) % 1024 = j := by omega
  have hentry : t.load (tbl + 4 * j) = pteAt s.mem d (1024 * i + j) := by
    rw [pteAt_of_table (t := tbl) (by rw [hpage.1, ht]), hpage.2, load, hf.mem]
  have hheld : ∀ g, HeldInTable s.mem d i (j + 1) g ↔ HeldInTable s.mem d i j g ∨
      (Present (pteAt s.mem d (1024 * i + j)) ∧ ptePaddr (pteAt s.mem d (1024 * i + j)) = g) := by
    intro g
    constructor
    · rintro ⟨v, hv, hlt, hp⟩
      by_cases hlast : v % 1024 = j
      · right
        rw [show 1024 * i + j = v by omega]
        apply hp
      · left
        exact ⟨v, hv, by omega, hp⟩
    · rintro (⟨v, hv, hlt, hp⟩ | hp)
      · exact ⟨v, hv, by omega, hp⟩
      · exact ⟨1024 * i + j, hpage.1, by omega, hp⟩
  rw [hentry]
  split_ifs with hpresent
  · apply (hf.free h.range (h.marked_page hd (by omega) (by omega) hpresent)).congr
    intro g
    rw [hheld, and_iff_right hpresent, or_assoc, eq_comm (b := g)]
  · apply hf.congr
    intro g
    rw [hheld]
    simp only [hpresent, false_and, or_false]

/-- The table at index `i` is released with its pages, if it is there. -/
theorem Freed.table {t : Kernel} {i : Nat} (h : Frames s live) (hd : d ∈ live)
    (hi : 512 ≤ i) (hi' : i < 1024) (hf : Freed s t (HeldBelow s.mem d i)) :
  Freed s
    (if Present (t.load (d + 4 * i)) then
      (forEach
        (fun j u =>
          if Present (u.load (pdePaddr (t.load (d + 4 * i)) + 4 * j)) then
            u.addrFreePage (ptePaddr (u.load (pdePaddr (t.load (d + 4 * i)) + 4 * j))) 1
          else u)
        0 1024 t).addrFreePage (pdePaddr (t.load (d + 4 * i))) 1
    else t)
    (HeldBelow s.mem d (i + 1))
  := by
  have hword : t.load (d + 4 * i) = load32 s.mem (d + 4 * i) := by rw [load, hf.mem]
  rw [hword]
  rcases ht : tableAt s.mem d i with _ | tbl
  · rw [if_neg (tableAt_eq_none_iff.mp ht)]
    apply hf.congr
    intro g
    have hnone : ∀ v, v / 1024 = i → ¬ Present (pteAt s.mem d v) := by
      rintro v rfl
      rw [pteAt_of_no_table ht]
      decide
    constructor
    · rintro (⟨j, hj, hlt, hp⟩ | ⟨v, hv, hlt, hp⟩)
      · left
        exact ⟨j, hj, by omega, hp⟩
      · right
        exact ⟨v, hv, by omega, hp⟩
    · rintro (⟨j, hj, hlt, hp⟩ | ⟨v, hv, hlt, hp⟩)
      · left
        have hne : j ≠ i := by
          rintro rfl
          rw [ht] at hp
          cases hp
        exact ⟨j, hj, by omega, hp⟩
      · right
        have hne : v / 1024 ≠ i := fun heq => hnone v heq hp.1
        exact ⟨v, hv, by omega, hp⟩
  · obtain ⟨hpresent, haddr⟩ := tableAt_eq_some_iff.mp ht
    rw [if_pos hpresent, haddr]
    have hpages := forEach_rule (i := 0) (n := 1024) (s := t) _
      (fun j u => Freed s u (fun g => HeldBelow s.mem d i g ∨ HeldInTable s.mem d i j g))
      (fun j u _ hj hu => hu.page h hd hi hi' (by omega) ht)
      (hf.congr (by simp [HeldInTable]))
    apply (hpages.free h.range (h.marked_table hd hi hi' ht)).congr
    intro g
    constructor
    · rintro (((⟨j, hj, hlt, hp⟩ | ⟨v, hv, hlt, hp⟩) | ⟨v, hv, hlt, hp⟩) | rfl)
      · left
        exact ⟨j, hj, by omega, hp⟩
      · right
        exact ⟨v, hv, by omega, hp⟩
      · right
        exact ⟨v, by omega, by omega, hp⟩
      · left
        exact ⟨i, hi, by omega, ht⟩
    · rintro (⟨j, hj, hlt, hp⟩ | ⟨v, hv, hlt, hp⟩)
      · by_cases hji : j = i
        · right
          rw [hji, ht, Option.some.injEq] at hp
          rw [hp]
        · left
          left
          left
          exact ⟨j, hj, by omega, hp⟩
      · left
        by_cases hvi : v / 1024 = i
        · right
          exact ⟨v, hvi, by omega, hp⟩
        · left
          right
          exact ⟨v, hv, by omega, hp⟩

theorem memoryDestoryUvm_eq (s : Kernel) (d : Nat) :
  s.memoryDestoryUvm d
    = (forEach
        (fun i t =>
          if Present (t.load (d + 4 * i)) then
            (forEach
              (fun j u =>
                if Present (u.load (pdePaddr (t.load (d + 4 * i)) + 4 * j)) then
                  u.addrFreePage (ptePaddr (u.load (pdePaddr (t.load (d + 4 * i)) + 4 * j))) 1
                else u)
              0 1024 t).addrFreePage (pdePaddr (t.load (d + 4 * i))) 1
          else t)
        512 512 s).addrFreePage d 1
  := by
  have hstart : pdeIndex memoryTaskBase = 512 := by decide
  rw [memoryDestoryUvm, hstart]
  rfl

/-- Destroying a directory releases the frames it owns and does nothing else. -/
theorem freed_memoryDestoryUvm (h : Frames s live) (hd : d ∈ live) :
  Freed s (s.memoryDestoryUvm d) (fun g => ∃ p, p.root = d ∧ Owns 512 s.mem live p g)
  := by
  have hnone : ∀ g, False ↔ HeldBelow s.mem d 512 g := by
    intro g
    constructor
    · exact False.elim
    · rintro (⟨i, hi, hlt, -⟩ | ⟨v, hv, hlt, -⟩) <;> omega
  have htables := forEach_rule (i := 512) (n := 512) _ (fun i t => Freed s t (HeldBelow s.mem d i))
    (fun i t hi hi' ht => ht.table h hd hi (by omega)) ((Freed.refl s).congr hnone)
  rw [memoryDestoryUvm_eq]
  apply (htables.free h.range (h.marked_dir hd)).congr
  intro g
  constructor
  · rintro ((⟨i, hi, hlt, hp⟩ | ⟨v, hv, hlt, hp⟩) | rfl)
    · use .table d i, rfl, hd, hi, hlt
    · use .page d v, rfl, hd, hv, by omega, hp.1, hp.2
    · use .dir g, rfl, hd
  · rintro ⟨p, hroot, hp⟩
    cases p with
    | dir e =>
        right
        rw [hp.2, ← hroot]
        rfl
    | table e i =>
        obtain rfl : e = d := hroot
        left
        left
        use i, hp.2.1, hp.2.2.1, hp.2.2.2
    | page e v =>
        obtain rfl : e = d := hroot
        obtain ⟨-, hv, hv', hp⟩ := hp
        left
        right
        use v, hv, by omega, hp.1, hp.2

/-- The other directories keep their frames. -/
theorem Frames.destroyed {t : Kernel} (h : Frames s live)
    (hf : Freed s t (fun g => ∃ p, p.root = d ∧ Owns 512 s.mem live p g)) :
  Frames t (live \ {d})
  := by
  have hown : ∀ p f, Owns 512 t.mem (live \ {d}) p f → Owns 512 s.mem live p f ∧ p.root ≠ d := by
    intro p f hp
    rw [hf.mem] at hp
    cases p with
    | dir e => exact ⟨⟨hp.1.1, hp.2⟩, hp.1.2⟩
    | table e i => exact ⟨⟨hp.1.1, hp.2⟩, hp.1.2⟩
    | page e v => exact ⟨⟨hp.1.1, hp.2⟩, hp.1.2⟩
  constructor
  · apply h.range.sameRange hf.range
  · apply h.exclusive.shrink (fun p f hp => (hown p f hp).1)
    intro p f hp
    obtain ⟨hp, hroot⟩ := hown p f hp
    rw [hf.marked]
    use h.exclusive.used_of_owns hp
    rintro ⟨q, hq, hq'⟩
    rw [h.exclusive.unique hp hq'] at hroot
    apply hroot hq
  · intro e he i hi
    rw [hf.mem, hf.layout]
    apply h.kernel e he.1 i hi

end Destroy

/-! ### A kernel to start with -/

/-- A machine with clear memory and `pages` free pages. -/
def boot (pages : Nat) : Kernel where
  layout := .low
  mem := fun _ => 0
  cr3 := 0x5000
  gPaddrAlloc := Dmos.addrAllocInit (fun _ => 0) memExtStart (pages * memPageSize) memPageSize

theorem boot_rangeWf {pages : Nat} (h : pages ≤ 1000) :
  RangeWf (boot pages).gPaddrAlloc
  where
  start := rfl
  pageSize := rfl
  bitCount := rfl
  end_le := by
    change 1024 * 1024 + pages * 4096 ≤ 0x80000000
    omega

theorem boot_free (pages : Nat) :
  (boot pages).free = (List.range pages).map fun i => 1024 * 1024 + i * 4096
  := by
  have hcount : pages * memPageSize / memPageSize = pages := Nat.mul_div_cancel _ (by decide)
  have hclear := Bitmap.clearBits_init (fun _ => 0) (pages * memPageSize / memPageSize)
  rw [hcount] at hclear
  rw [Kernel.free, AddrAlloc.freePages, boot, Dmos.addrAllocInit, hcount, hclear]
  rfl

/-- The machine of `boot` with one directory, in its first page. -/
def bootDir (pages : Nat) : Kernel :=
  (boot pages).memoryCreateUvm.2

theorem bootDir_created {pages : Nat} (hpos : 0 < pages) (h : pages ≤ 1000) :
  (boot pages).memoryCreateUvm.1 = 1024 * 1024 ∧
    Created (boot pages) (bootDir pages) (1024 * 1024)
  := by
  obtain ⟨n, rfl⟩ : ∃ n, pages = n + 1 := ⟨pages - 1, by omega⟩
  have hfree := boot_free (n + 1)
  rw [List.range_succ_eq_map, List.map_cons] at hfree
  obtain ⟨s', hs, hc⟩ := memoryCreateUvm_of_free (boot_rangeWf h) hfree
  rw [bootDir, hs]
  use rfl

theorem bootDir_free {pages : Nat} (hpos : 0 < pages) (h : pages ≤ 1000) :
  (bootDir pages).free = (List.range (pages - 1)).map fun i => 1024 * 1024 + (i + 1) * 4096
  := by
  obtain ⟨n, rfl⟩ : ∃ n, pages = n + 1 := ⟨pages - 1, by omega⟩
  have hfree := boot_free (n + 1)
  rw [List.range_succ_eq_map, List.map_cons, List.map_map] at hfree
  apply (bootDir_created hpos h).2.free (boot_rangeWf h) hfree

theorem bootDir_frames {pages : Nat} (hpos : 0 < pages) (h : pages ≤ 1000) :
  Frames (bootDir pages) {1024 * 1024}
  := by
  obtain ⟨n, rfl⟩ : ∃ n, pages = n + 1 := ⟨pages - 1, by omega⟩
  have hfree := boot_free (n + 1)
  rw [List.range_succ_eq_map, List.map_cons] at hfree
  have hframes := (Frames.empty (boot_rangeWf h)).created hfree (bootDir_created hpos h).2
  rw [insert_empty_eq] at hframes
  apply hframes

end Kernel

end Dmos
