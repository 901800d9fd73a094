import Dmos.Kernel.FreePage
import Dmos.Kernel.UserPages

/-!
# The kernel half

The lower half of an address space is the kernel's: the directories in use share the page tables
of `g_kernel_page_dir` there, so that an entry of one of these tables belongs to every address
space.  Like the kernel stacks of tasks, these tables are in use without being owned by a
directory (`Reserved`).

What happens to directories spares the kernel half (`Spares`): the kernel's directory and its
tables stay as they are, and what is reserved stays so.  This holds of mapping user pages, of
creating, copying and destroying directories, and of writing to user pages, to a kernel stack and
below the frames.
-/

open ByteMemory AddressSpace

namespace Dmos

namespace Kernel

variable {s t u : Kernel} {live live' live'' : Set Nat} {d g : Nat}

/-- The frame is in use, but not by a directory. -/
structure Reserved (s : Kernel) (live : Set Nat) (g : Nat) : Prop where
  marked : s.Marked g
  unowned : ∀ p, ¬ Owns 512 s.mem live p g

/-- The page tables of the kernel. -/
def kernelTables (s : Kernel) : Set Nat :=
  { g | ∃ i < 512, tableAt s.mem s.layout.gKernelPageDir i = some g }

/-- No directory in use owns a page table of the kernel. -/
structure Guarded (s : Kernel) (live : Set Nat) : Prop extends Frames s live where
  tables : ∀ g ∈ s.kernelTables, s.Reserved live g

/-- Between `s` and `t` the kernel's directory and its tables stay as they are, and what is
reserved stays so. -/
structure Spares (s : Kernel) (live : Set Nat) (t : Kernel) (live' : Set Nat) : Prop where
  layout : t.layout = s.layout
  reserved : ∀ g, s.Reserved live g → t.Reserved live' g
  base : SameFrame s.mem t.mem s.layout.gKernelPageDir
  tables : ∀ g ∈ s.kernelTables, SameFrame s.mem t.mem g

/-! ### Reserved frames -/

theorem Reserved.bounds (h : s.Reserved live g) (hf : Frames s live) :
  g % 4096 = 0 ∧ memExtStart ≤ g ∧ g + 4096 ≤ memoryTaskBase
  := hf.range.marked_bounds h.marked

theorem Reserved.not_free (h : s.Reserved live g) (hf : Frames s live) :
  g ∉ s.free
  := h.marked.not_free hf.range

theorem Reserved.ne_dir (h : s.Reserved live g) (hd : d ∈ live) :
  g ≠ d
  := by
  rintro rfl
  apply h.unowned (.dir g) ⟨hd, rfl⟩

/-- A reserved frame is not written when pages are mapped. -/
theorem Reserved.sameFrame (h : s.Reserved live g) (hf : Frames s live) (hd : d ∈ live)
    {vs : List (Nat × (Nat → Nat))} {r : Option Request} (hb : Built 512 live s t d vs r) :
  SameFrame s.mem t.mem g
  := by
  apply hb.frame g (h.bounds hf).1 (h.ne_dir hd)
  · intro i hi hi' ht
    apply h.unowned (.table d i) ⟨hd, hi, hi', ht⟩
  · apply h.not_free hf

/-! ### Entries of the kernel half -/

/-- The entries of the kernel half are the same in all directories. -/
theorem Frames.pteAt_kernel (hf : Frames s live) (hd : d ∈ live) {v : Nat} (hv : v < 2 ^ 19) :
  pteAt s.mem d v = pteAt s.mem s.layout.gKernelPageDir v
  := by
  have hload := hf.kernel d hd (v / 1024) (by omega)
  simp only [pteAt, tableAt, hload]

namespace Spares

theorem refl (s : Kernel) (live : Set Nat) :
  Spares s live s live
  := ⟨rfl, fun _ h => h, fun _ _ _ => rfl, fun _ _ _ _ _ => rfl⟩

theorem kernelTables_eq (h : Spares s live t live') :
  t.kernelTables = s.kernelTables
  := by
  ext g
  apply exists_congr
  intro i
  apply and_congr_right
  intro hi
  rw [h.layout, tableAt_congr h.base (show i < 1024 by omega)]

theorem trans (h : Spares s live t live') (h' : Spares t live' u live'') :
  Spares s live u live''
  where
  layout := h'.layout.trans h.layout
  reserved g hg := h'.reserved g (h.reserved g hg)
  base := by
    have hbase := h'.base
    rw [h.layout] at hbase
    apply h.base.trans hbase
  tables g hg := by
    apply (h.tables g hg).trans
    apply h'.tables g
    rw [h.kernelTables_eq]
    apply hg

theorem guarded (h : Spares s live t live') (hs : Guarded s live) (hf : Frames t live') :
  Guarded t live'
  where
  toFrames := hf
  tables g hg := by
    rw [h.kernelTables_eq] at hg
    apply h.reserved g (hs.tables g hg)

/-- An entry of the kernel half stays. -/
theorem pteAt_eq (h : Spares s live t live') {v : Nat} (hv : v < 2 ^ 19) :
  pteAt t.mem t.layout.gKernelPageDir v = pteAt s.mem s.layout.gKernelPageDir v
  := by
  rw [h.layout]
  apply pteAt_congr h.base (by omega)
  intro g hg
  apply h.tables g ⟨v / 1024, by omega, hg⟩

end Spares

/-! ### Directories -/

section Directories

variable (hs : Guarded s live)

include hs

theorem Guarded.built (hd : d ∈ live) {vs : List (Nat × (Nat → Nat))} {r : Option Request}
    (hb : Built 512 live s t d vs r)
    (hwords : ∀ v e, (v, e) ∈ vs → ∃ perm < 4096, e = mapWord perm) :
  Spares s live t live
  where
  layout := hb.layout
  reserved g hg := by
    constructor
    · rw [hb.marked]
      exact .inl hg.marked
    · intro p hp
      rcases hb.owns_cases hs.toFrames hd hwords hp with hold | hfree
      · apply hg.unowned p hold
      · apply hg.not_free hs.toFrames hfree
  base := hs.toFrames.sameFrame_base hd hb
  tables g hg := (hs.tables g hg).sameFrame hs.toFrames hd hb

theorem Guarded.created {rest : List Nat} (hfree : s.free = d :: rest) (hc : Created s t d) :
  Spares s live t (insert d live)
  := by
  have hmem : d ∈ s.free := by
    rw [hfree]
    apply List.mem_cons_self
  have hbounds := hs.range.free_bounds hmem
  have hne : ∀ g, s.Reserved live g → g ≠ d := by
    rintro g hg rfl
    apply hg.not_free hs.toFrames hmem
  constructor
  · apply hc.layout
  · intro g hg
    constructor
    · rw [hc.marked hs.range hfree]
      exact .inl hg.marked
    · intro p hp
      rcases hc.owns_cases hs.toFrames hfree hp with ⟨-, hnew⟩ | hold
      · apply hne g hg hnew
      · apply hg.unowned p hold
  · apply hc.sameFrame hbounds.1 s.layout.gKernelPageDir_aligned
    have hlt := gKernelPageDir_lt s.layout hbounds.2.1
    omega
  · intro g hg
    have hreserved := hs.tables g hg
    apply hc.sameFrame hbounds.1 (hreserved.bounds hs.toFrames).1 (hne g hreserved)

omit hs in
theorem Spares.freed (hfreed : Freed s t (fun g => ∃ p, p.root = d ∧ Owns 512 s.mem live p g)) :
  Spares s live t (live \ {d})
  where
  layout := hfreed.layout
  reserved g hg := by
    constructor
    · rw [hfreed.marked]
      use hg.marked
      rintro ⟨p, -, hp⟩
      apply hg.unowned p hp
    · intro p hp
      rw [hfreed.mem] at hp
      apply hg.unowned p
      cases p with
      | dir e => exact ⟨hp.1.1, hp.2⟩
      | table e i => exact ⟨hp.1.1, hp.2⟩
      | page e v => exact ⟨hp.1.1, hp.2⟩
  base := by
    rw [hfreed.mem]
    exact fun _ _ _ => rfl
  tables g _ := by
    rw [hfreed.mem]
    exact fun _ _ _ => rfl

/-- A frame that goes to no directory. -/
theorem Guarded.take {f : Nat} {rest : List Nat} (hfree : s.free = f :: rest) :
  Spares s live s.take live ∧ s.take.Reserved live f
  := by
  have hmem : f ∈ s.free := by
    rw [hfree]
    apply List.mem_cons_self
  constructor
  · constructor
    · rfl
    · intro g hg
      exact ⟨(marked_take hs.range hfree g).mpr (.inl hg.marked), hg.unowned⟩
    · exact fun _ _ _ => rfl
    · exact fun _ _ _ _ _ => rfl
  · use (marked_take hs.range hfree f).mpr (.inr rfl)
    intro p hp
    apply (hs.exclusive.used_of_owns hp).not_free hs.range hmem

/-- Copying a directory, whether it succeeds or not. -/
theorem Guarded.copied {p c : Nat} (hp : p ∈ live) (hcr3 : s.cr3 ∈ live)
    (hcopy : s.memoryCopyUvm p = .ok (c, t)) :
  Spares s live t (if c = errorWord then live else insert c live)
  := by
  have hrun := memoryCopyUvm_cases hs.toFrames hp hcr3
  rw [hcopy] at hrun
  cases hrun with
  | noDir =>
      rw [if_pos rfl]
      apply Spares.refl
  | copied hfree hc hcopied =>
      have hmem : c ∈ s.free := by
        rw [hfree]
        apply List.mem_cons_self
      have hcreated := hs.created hfree hc
      have hs' := hcreated.guarded hs (hs.toFrames.created hfree hc)
      rw [if_neg (ne_errorWord hs.range hmem)]
      exact hcreated.trans
        (hs'.built (Set.mem_insert c live) hcopied.built (words_copyMaps _ _ _))
  | @failed d rest q s' t hfree hc hb =>
      have hd := Set.mem_insert d live
      have hcreated := hs.created hfree hc
      have hs' := hcreated.guarded hs (hs.toFrames.created hfree hc)
      have hfreed := freed_memoryDestoryUvm (hs'.toFrames.built hd hb) hd
      have hnot : d ∉ live := by
        intro hlive
        apply (hs.toFrames.marked_dir hlive).not_free hs.range
        rw [hfree]
        apply List.mem_cons_self
      have hall := (hcreated.trans (hs'.built hd hb (words_copyMaps _ _ _))).trans
        (Spares.freed hfreed)
      rw [Set.insert_sdiff_self_of_notMem hnot] at hall
      rw [if_pos rfl]
      apply hall

end Directories

/-! ### Freeing a page -/

section Freeing

variable {a : Nat}

/-- Freeing the page at `a` releases a present user page of `d`, or nothing that is in use. -/
def ReleasesOwn (s : Kernel) (d a : Nat) : Prop :=
  (memoryTaskBase ≤ a ∧ Present (pteAt s.mem d (a / 4096))) ∨ ¬ s.Marked (s.freedPage d a)

/-- What is released is owned from the page alone. -/
theorem ReleasesOwn.place (h : s.ReleasesOwn d a) (hf : Frames s live) (hd : d ∈ live)
    (ha : a < 2 ^ 32) {q : Place} (hq : Owns 512 s.mem live q (s.freedPage d a)) :
  memoryTaskBase ≤ a ∧ q = .page d (a / 4096)
  := by
  rcases h with ⟨huser, hpresent⟩ | hstray
  · have hbase : 2147483648 ≤ a := huser
    use huser
    apply hf.exclusive.unique hq
    rw [freedPage_of_present (by omega) hpresent]
    exact ⟨hd, by omega, by omega, hpresent, rfl⟩
  · cases hstray (hf.exclusive.used_of_owns hq)

/-- What is reserved is not released. -/
theorem ReleasesOwn.not_reserved (h : s.ReleasesOwn d a) (hd : d ∈ live) (ha : a < 2 ^ 32)
    (hg : s.Reserved live g) :
  g ≠ s.freedPage d a
  := by
  rintro rfl
  rcases h with ⟨huser, hpresent⟩ | hstray
  · have hbase : 2147483648 ≤ a := huser
    apply hg.unowned (.page d (a / 4096))
    rw [freedPage_of_present (by omega) hpresent]
    exact ⟨hd, by omega, by omega, hpresent, rfl⟩
  · cases hstray hg.marked

/-- Freeing a page of `d`. -/
theorem Guarded.freePage (hs : Guarded s live) (hd : d ∈ live) (ha : a < 2 ^ 32)
    (hpos : memPageSize ≤ s.layout.gKernelPageDir) (h : s.ReleasesOwn d a) :
  Spares s live (s.memoryFreePage d a) live ∧ Guarded (s.memoryFreePage d a) live
  := by
  obtain ⟨hlayout, hrange⟩ := memoryFreePage_kept (s := s) (d := d) (a := a)
  have howns {q : Place} {g : Nat} := owns_memoryFreePage (q := q) (g := g) hs.toFrames hd ha
  have hbase : SameFrame s.mem (s.memoryFreePage d a).mem s.layout.gKernelPageDir := by
    apply sameFrame_memoryFreePage ha s.layout.gKernelPageDir_aligned hpos
    intro i hlo hi ht
    have hlt := gKernelPageDir_lt s.layout
      (hs.range.marked_bounds (hs.toFrames.marked_table hd hlo hi ht)).2.1
    omega
  have hspares : Spares s live (s.memoryFreePage d a) live := by
    refine ⟨hlayout, ?_, hbase, ?_⟩
    · intro g hg
      constructor
      · rw [marked_memoryFreePage hs.range ha]
        exact ⟨hg.marked, h.not_reserved hd ha hg⟩
      · intro q hq
        apply hg.unowned q (howns hq).1
    · intro g hg
      have hreserved := hs.tables g hg
      have hbounds := hreserved.bounds hs.toFrames
      unfold memExtStart at hbounds
      apply sameFrame_memoryFreePage ha hbounds.1 (by unfold memPageSize; omega)
      intro i hlo hi ht
      exact hreserved.unowned (.table d i) ⟨hd, hlo, hi, ht⟩
  refine ⟨hspares, hspares.guarded hs ⟨hs.range.sameRange hrange, ?_, ?_⟩⟩
  · apply hs.exclusive.shrink fun q g hq => (howns hq).1
    intro q g hq
    obtain ⟨hold, hne⟩ := howns hq
    rw [marked_memoryFreePage hs.range ha]
    use hs.exclusive.used_of_owns hold
    rintro rfl
    obtain ⟨huser, hplace⟩ := h.place hs.toFrames hd ha hold
    exact hne huser hplace
  · intro e he i hi
    have hbounds := hs.range.marked_bounds (hs.toFrames.marked_dir he)
    unfold memExtStart at hbounds
    have hdir : SameFrame s.mem (s.memoryFreePage d a).mem e := by
      apply sameFrame_memoryFreePage ha hbounds.1 (by unfold memPageSize; omega)
      intro j hlo hj ht
      cases hs.exclusive.unique (p := .dir e) ⟨he, rfl⟩ (q := .table d j) ⟨hd, hlo, hj, ht⟩
    rw [hlayout, hdir.load32 (by omega), hbase.load32 (by omega), hs.kernel e he i hi]

/-- Taking a frame and giving it back. -/
theorem Guarded.giveBack {f : Nat} {rest : List Nat} (hs : Guarded s live)
    (hfree : s.free = f :: rest) :
  Spares s live (s.take.addrFreePage f 1) live ∧ Guarded (s.take.addrFreePage f 1) live
  := by
  have hspares : Spares s live (s.take.addrFreePage f 1) live := by
    constructor
    · rw [addrFreePage_eq, setAlloc_layout]
      rfl
    · intro g hg
      refine ⟨(marked_giveBack hs.range hfree g).mpr hg.marked, ?_⟩
      rw [addrFreePage_eq, setAlloc_mem, take_mem]
      apply hg.unowned
    · rw [addrFreePage_eq, setAlloc_mem, take_mem]
      exact fun _ _ _ => rfl
    · rw [addrFreePage_eq, setAlloc_mem, take_mem]
      exact fun _ _ _ _ _ => rfl
  exact ⟨hspares, hspares.guarded hs (hs.toFrames.giveBack hfree)⟩

theorem ReleasesOwn.giveBack {f : Nat} {rest : List Nat} (h : s.ReleasesOwn d a)
    (hr : RangeWf s.gPaddrAlloc) (hfree : s.free = f :: rest) :
  (s.take.addrFreePage f 1).ReleasesOwn d a
  := by
  have hmem : (s.take.addrFreePage f 1).mem = s.mem := by
    rw [addrFreePage_eq, setAlloc_mem, take_mem]
  rw [ReleasesOwn, hmem, marked_giveBack hr hfree, freedPage_congr hmem]
  apply h

end Freeing

/-! ### Writes -/

/-- The byte is in a page of `d`, in the frame `k`, or below the frames and not in the kernel's
directory. -/
def Harmless (s : Kernel) (d k x : Nat) : Prop :=
  s.InPages d x ∨ (k ≤ x ∧ x < k + 4096) ∨
    (x < memExtStart ∧ ¬ (s.layout.gKernelPageDir ≤ x ∧ x < s.layout.gKernelPageDir + 4096))

section Harmless

variable {k : Nat} {m : Memory} (hf : Frames s live) (hd : d ∈ live) (hk : s.Reserved live k)
  (hm : ∀ x, ¬ s.Harmless d k x → m x = s.mem x)

include hf hd hk hm

theorem sameFrame_of_harmless (hg : s.Marked g) (hne : g ≠ k)
    (hpage : ∀ v, ¬ Owns 512 s.mem live (.page d v) g) :
  SameFrame s.mem m g
  := by
  have hbounds := hf.range.marked_bounds hg
  have hbounds' := hk.bounds hf
  intro x hx hx'
  apply hm
  rintro (⟨v, hlo, hv, hpresent, hle, hlt⟩ | hin | ⟨hlow, -⟩)
  · have hown : Owns 512 s.mem live (.page d v) (frameAt s.mem d v) := ⟨hd, hlo, hv, hpresent, rfl⟩
    have hframe := hf.range.marked_bounds (hf.exclusive.used_of_owns hown)
    apply hpage v
    rwa [show g = frameAt s.mem d v by omega]
  · omega
  · omega

theorem sameFrame_node_of_harmless {p : Place} (hp : OwnsNode 512 s.mem live p g) :
  SameFrame s.mem m g
  := by
  apply sameFrame_of_harmless hf hd hk hm (hf.exclusive.used_of_owns hp.owns)
  · rintro rfl
    apply hk.unowned p hp.owns
  · intro v hpage
    rw [hf.exclusive.unique hp.owns hpage] at hp
    apply hp

theorem sameFrame_base_of_harmless :
  SameFrame s.mem m s.layout.gKernelPageDir
  := by
  have hbounds := hk.bounds hf
  have hbase := gKernelPageDir_lt s.layout hbounds.2.1
  intro x hx hx'
  apply hm
  rintro (hin | hin | ⟨-, hout⟩)
  · have hlow := (hin.bounds hf hd).1
    have hend := s.layout.gKernelPageDir_end
    omega
  · omega
  · exact hout ⟨hx, hx'⟩

theorem frames_of_harmless :
  Frames (s.setMem m) live
  := by
  apply hf.setMem
  · intro p g hp
    apply sameFrame_node_of_harmless hf hd hk hm hp
  · apply sameFrame_base_of_harmless hf hd hk hm

theorem tableAt_of_harmless {e i : Nat} (he : e ∈ live) (hi : i < 1024) :
  tableAt m e i = tableAt s.mem e i
  := tableAt_congr (sameFrame_node_of_harmless hf hd hk hm (p := .dir e) ⟨he, rfl⟩) hi

theorem pteAt_of_harmless {e v : Nat} (he : e ∈ live) (hlo : 512 ≤ v / 1024) (hv : v < 2 ^ 20) :
  pteAt m e v = pteAt s.mem e v
  := by
  apply pteAt_congr (sameFrame_node_of_harmless hf hd hk hm (p := .dir e) ⟨he, rfl⟩) hv
  intro g hg
  exact sameFrame_node_of_harmless hf hd hk hm (p := .table e (v / 1024)) ⟨he, hlo, by omega, hg⟩

theorem owns_of_harmless {p : Place} (hp : Owns 512 m live p g) :
  Owns 512 s.mem live p g
  := hp.of_entries (fun _ he _ => tableAt_of_harmless hf hd hk hm he)
    (fun _ he _ => pteAt_of_harmless hf hd hk hm he)

omit hf in
/-- Writes to user pages, to a kernel stack and below the frames. -/
theorem Guarded.written (hs : Guarded s live) (hnot : k ∉ s.kernelTables) :
  Spares s live (s.setMem m) live
  where
  layout := rfl
  reserved g hg := by
    use hg.marked
    intro p hp
    apply hg.unowned p (owns_of_harmless hs.toFrames hd hk hm hp)
  base := sameFrame_base_of_harmless hs.toFrames hd hk hm
  tables g hg := by
    have hreserved := hs.tables g hg
    apply sameFrame_of_harmless hs.toFrames hd hk hm hreserved.marked
    · rintro rfl
      apply hnot hg
    · intro v hpage
      apply hreserved.unowned _ hpage

end Harmless

end Kernel

end Dmos
