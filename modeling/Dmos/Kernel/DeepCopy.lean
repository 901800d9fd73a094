import Dmos.Kernel.Copy

/-!
# Copies are faithful, failures almost clean

With enough frames the directory returned by `memoryCopyUvm` holds a copy of every user page
of the current directory, in frames of its own (`memoryCopyUvm_faithful`).  When a frame is
missing the copy is destroyed again; this gives back all frames taken, except that a page
whose table could not be allocated is not reached any more
(`memoryCopyUvm_atomic_iff`).
-/

open ByteMemory AddressSpace Loop

namespace Dmos

namespace Kernel

variable {s s' t : Kernel} {live : Set Nat} {c p : Nat} {rest : List Nat}

/-! ### The source before and after the directory is created -/

section Source

variable (hc : Created s s' c) (hf : Frames s live) (hfree : s.free = c :: rest) (hp : p ∈ live)

include hc hf hfree hp

theorem userPages_created :
  userPages s'.mem p = userPages s.mem p
  := by
  apply List.filter_congr
  intro v hv
  rw [List.mem_range'_1] at hv
  rw [hc.pteAt_live hf hfree hp (by omega) (by omega)]

theorem visitedPages_created {e : Nat} (he : e ∈ live) :
  visitedPages s'.mem p e = visitedPages s.mem p e
  := by
  have hreadable : ∀ v ∈ userPages s.mem p,
      decide (Present (pteAt s'.mem e v)) = decide (Present (pteAt s.mem e v)) := by
    intro v hv
    have hrange := (mem_presentPages.mp hv).1
    rw [hc.pteAt_live hf hfree he (by omega) (by omega)]
  simp only [visitedPages]
  rw [userPages_created hc hf hfree hp]
  generalize userPages s.mem p = pages at hreadable
  induction pages with
  | nil => rfl
  | cons v pages ih =>
      have hv := hreadable v List.mem_cons_self
      have hrest := ih (fun w hw => hreadable w (List.mem_cons_of_mem _ hw))
      rw [List.takeWhile_cons, List.takeWhile_cons, List.dropWhile_cons, List.dropWhile_cons, hv]
      split_ifs
      · rw [List.cons_append, hrest, List.cons_append]
      · rfl

end Source

theorem mem_visitedPages {m : Memory} {p e v : Nat} (h : v ∈ visitedPages m p e) :
  v ∈ userPages m p
  := by
  rcases List.mem_append.mp h with hv | hv
  · apply (List.takeWhile_subset _) hv
  · apply (List.dropWhile_suffix _).subset (List.mem_of_mem_take hv)

theorem nodup_visitedPages (m : Memory) (p e : Nat) :
  (visitedPages m p e).Nodup
  := by
  have hsub : (visitedPages m p e).Sublist (userPages m p) := by
    simp only [visitedPages]
    conv_rhs => rw [← List.takeWhile_append_dropWhile (p := fun v => decide (Present (pteAt m e v)))
      (l := userPages m p)]
    apply List.Sublist.append_left
    apply List.take_sublist
  apply (nodup_presentPages m p _ _).sublist hsub

/-- Reading through a directory in which all its pages are present visits all pages. -/
theorem visitedPages_of_readable {m : Memory} {p e : Nat}
    (h : ∀ v ∈ userPages m p, Present (pteAt m e v)) :
  visitedPages m p e = userPages m p
  := by
  have hall := visitedPages_eq (m := m) (p := p) (e := e) (k := 524288) (le_refl _) h
  rw [hall]
  simp [presentPages]

/-- The frames asked for by copying the pages `vs` to a new directory. -/
def copyAsks (vs : List Nat) : List Request :=
  .page :: requests tableIndex (fun _ => false) vs

/-- Copying to a new directory fails at the first request the free list is too short for. -/
theorem Built.copy_failed_eq {m : Memory} {vs : List Nat} {r : Option Request}
    (hb : Built 512 (insert c live) s' t c (copyMaps m p vs) r) (hc : Created s s' c)
    (hr : RangeWf s.gPaddrAlloc) (hfree : s.free = c :: rest) :
  r = (copyAsks vs)[s.free.length]?
  := by
  have hnone : (fun i => ((s'.space 512 c).table i).isSome) = fun _ => false := by
    funext i
    simp only [Kernel.space]
    split_ifs with hi
    · rw [hc.tableAt hi.1 hi.2]
      rfl
    · rfl
  have hfst := (s'.space 512 c).mapAll_fst tableIndex (copyMaps m p vs)
  rw [hb.space, copyMaps_fst, hnone, show (s'.space 512 c).free = rest from hc.free hr hfree] at hfst
  rw [hfree, copyAsks, List.length_cons, List.getElem?_cons_succ]
  apply hfst

/-- Frames that are not free keep their contents while the copy is built. -/
theorem Built.copy_sameFrame {vs : List (Nat × (Nat → Nat))} {r : Option Request}
    (hb : Built 512 (insert c live) s' t c vs r) (hc : Created s s' c) (hr : RangeWf s.gPaddrAlloc)
    (hfree : s.free = c :: rest) {f : Nat} (hf : f % 4096 = 0) (hnot : f ∉ s.free) :
  SameFrame s.mem t.mem f
  := by
  have hmem : c ∈ s.free := by
    rw [hfree]
    apply List.mem_cons_self
  have hne : f ≠ c := by
    rintro rfl
    apply hnot hmem
  apply (hc.sameFrame (hr.free_bounds hmem).1 hf hne).trans
  apply hb.frame f hf hne
  · intro i hi hi' ht
    rw [hc.tableAt hi hi'] at ht
    cases ht
  · rw [hc.free hr hfree]
    intro hin
    apply hnot
    rw [hfree]
    apply List.mem_cons_of_mem _ hin

/-! ### Faithful copies -/

/-- A free frame is not at the address that reports failure. -/
theorem ne_errorWord (hr : RangeWf s.gPaddrAlloc) (hfree : c ∈ s.free) :
  c ≠ errorWord
  := by
  have hbounds := hr.free_bounds hfree
  unfold errorWord
  omega

/-- Between `s` and `t` the user pages of `p` have been copied to the new directory `c`. -/
structure FaithfulCopy (s t : Kernel) (live : Set Nat) (p c : Nat) : Prop where
  dir : c ∈ s.free
  present : ∀ v, 524288 ≤ v → v < 2 ^ 20 → (Present (pteAt t.mem c v) ↔ Present (pteAt s.mem p v))
  absent : ∀ v, 524288 ≤ v → v < 2 ^ 20 → ¬ Present (pteAt s.mem p v) → pteAt t.mem c v = 0
  perm : ∀ v, 524288 ≤ v → v < 2 ^ 20 → Present (pteAt s.mem p v) →
    getPtePerm (pteAt t.mem c v) = getPtePerm (pteAt s.mem p v)
  fresh : ∀ v, 524288 ≤ v → v < 2 ^ 20 → Present (pteAt s.mem p v) →
    ptePaddr (pteAt t.mem c v) ∈ s.free
  distinct : ∀ v w, 524288 ≤ v → v < 2 ^ 20 → 524288 ≤ w → w < 2 ^ 20 →
    Present (pteAt s.mem p v) → Present (pteAt s.mem p w) →
    ptePaddr (pteAt t.mem c v) = ptePaddr (pteAt t.mem c w) → v = w
  content : ∀ v, 524288 ≤ v → v < 2 ^ 20 → Present (pteAt s.mem p v) → ∀ x < 4096,
    t.mem (ptePaddr (pteAt t.mem c v) + x) = s.mem (ptePaddr (pteAt s.mem p v) + x)
  source : ∀ q f, q.root = p → Owns 512 s.mem live q f → SameFrame s.mem t.mem f
  unchanged : ∀ f, f % 4096 = 0 → f ∉ s.free → SameFrame s.mem t.mem f
  kernel : ∀ i < 512, load32 t.mem (c + 4 * i) = load32 t.mem (t.layout.gKernelPageDir + 4 * i)

/-- The permission bits of a present entry survive mapping. -/
theorem getPtePerm_mapWord {w f : Nat} (hw : Present w) (hf : f % 4096 = 0) :
  getPtePerm (mapWord (getPtePerm w) f) = getPtePerm w
  := by
  have hperm : getPtePerm w < 4096 := by
    rw [getPtePerm_eq]
    omega
  have hflags := mapWord_flags hf hperm
  rw [present_iff] at hw
  rw [or_pteP] at hflags
  rw [getPtePerm_eq (mapWord _ _)]
  rw [getPtePerm_eq] at hflags ⊢
  omega

theorem Copying.faithful (hcopy : Copying s' (insert c live) c p 524288 t) (hf : Frames s live)
    (hp : p ∈ live) (hcr3 : s.cr3 = p) (hfree : s.free = c :: rest) (hc : Created s s' c) :
  FaithfulCopy s t live p c
  := by
  have hf' := hf.created hfree hc
  have hcl : c ∈ insert c live := Set.mem_insert c live
  have hmem : c ∈ s.free := by
    rw [hfree]
    apply List.mem_cons_self
  have hpte : ∀ v, 524288 ≤ v → v < 2 ^ 20 → pteAt s'.mem p v = pteAt s.mem p v := by
    intro v hv hv'
    apply hc.pteAt_live hf hfree hp (by omega) hv'
  have hin : ∀ v, 524288 ≤ v → v < 2 ^ 20 → Present (pteAt s.mem p v) → v ∈ userPages s'.mem p := by
    intro v hv hv' hpresent
    rw [mem_presentPages, hpte v hv hv']
    exact ⟨⟨hv, by omega⟩, hpresent⟩
  have hkeys : ((copyMaps s'.mem p (userPages s'.mem p)).map Prod.fst).Nodup := by
    rw [copyMaps_fst]
    apply nodup_presentPages
  obtain ⟨frame, hframe, hinj⟩ :=
    Space.mapAll_entry_of_mapped (free_nodup hf'.range) hkeys hcopy.built.space
  rw [copyMaps_fst] at hinj
  have hfresh : ∀ f ∈ s'.free, f ∈ s.free := by
    intro f hmem
    rw [hc.free hf.range hfree] at hmem
    rw [hfree]
    apply List.mem_cons_of_mem _ hmem
  have hentry : ∀ v, 524288 ≤ v → v < 2 ^ 20 → Present (pteAt s.mem p v) →
      frame v ∈ s.free ∧ frame v % 4096 = 0 ∧
        pteAt t.mem c v = mapWord (getPtePerm (pteAt s.mem p v)) (frame v) := by
    intro v hv hv' hpresent
    obtain ⟨hmem, hword⟩ := hframe v _ (List.mem_map_of_mem (hin v hv hv' hpresent))
    rw [space_entry (by omega) hv', hpte v hv hv'] at hword
    use hfresh _ hmem, (hf'.range.free_bounds hmem).1
  have habsent : ∀ v, 524288 ≤ v → v < 2 ^ 20 → ¬ Present (pteAt s.mem p v) →
      pteAt t.mem c v = 0 := by
    intro v hv hv' hpresent
    rw [hcopy.built.pteAt_of_not_mem (by omega) hv', hc.pteAt (by omega) hv']
    rw [copyMaps_fst, mem_presentPages, hpte v hv hv']
    exact fun hv => hpresent hv.2
  have hperm : ∀ w, getPtePerm w < 4096 := by
    intro w
    rw [getPtePerm_eq]
    omega
  have hpaddr : ∀ v, 524288 ≤ v → v < 2 ^ 20 → Present (pteAt s.mem p v) →
      ptePaddr (pteAt t.mem c v) = frame v := by
    intro v hv hv' hpresent
    obtain ⟨-, haligned, hword⟩ := hentry v hv hv' hpresent
    rw [hword, ptePaddr_mapWord haligned (hperm _)]
  have hunchanged : ∀ f, f % 4096 = 0 → f ∉ s.free → SameFrame s.mem t.mem f :=
    fun f hf' hnot => hcopy.built.copy_sameFrame hc hf.range hfree hf' hnot
  have hsource : ∀ q f, Owns 512 s.mem live q f → SameFrame s.mem t.mem f := by
    intro q f hq
    have hmarked := hf.exclusive.used_of_owns hq
    apply hunchanged f (hf.range.marked_bounds hmarked).1 (hmarked.not_free hf.range)
  constructor
  · apply hmem
  · intro v hv hv'
    constructor
    · intro hpresent
      by_contra hnot
      rw [habsent v hv hv' hnot] at hpresent
      cases hpresent
    · intro hpresent
      obtain ⟨-, haligned, hword⟩ := hentry v hv hv' hpresent
      rw [hword]
      apply mapWord_present haligned (hperm _)
  · apply habsent
  · intro v hv hv' hpresent
    obtain ⟨-, haligned, hword⟩ := hentry v hv hv' hpresent
    rw [hword, getPtePerm_mapWord hpresent haligned]
  · intro v hv hv' hpresent
    rw [hpaddr v hv hv' hpresent]
    apply (hentry v hv hv' hpresent).1
  · intro v w hv hv' hw hw' hpresent hpresent' heq
    rw [hpaddr v hv hv' hpresent, hpaddr w hw hw' hpresent'] at heq
    apply hinj v (hin v hv hv' hpresent) w (hin w hw hw' hpresent') heq
  · intro v hv hv' hpresent x hx
    have hcontent := hcopy.content v (hin v hv hv' hpresent) x hx
    have hframe := hc.sameFrame_owned hf hfree (p := .page p v) ⟨hp, by omega, hv', hpresent, rfl⟩
    rw [hcontent, hc.cr3, hcr3, hpte v hv hv']
    apply hframe <;> omega
  · intro q f _ hq
    apply hsource q f hq
  · apply hunchanged
  · have ht := hf'.built hcl hcopy.built
    apply ht.kernel c hcl

/-- With enough frames the copy comes to its end, in the first free frame. -/
theorem memoryCopyUvm_of_enough (hf : Frames s live) (hp : p ∈ live) (hcr3 : s.cr3 = p)
    (hframes : (copyAsks (userPages s.mem p)).length ≤ s.free.length) :
  ∃ c t, s.memoryCopyUvm p = .ok (c, t) ∧ s.free.head? = some c ∧ FaithfulCopy s t live p c
  := by
  have hreadable : ∀ {s'} {c rest}, s.free = c :: rest → Created s s' c →
      ∀ v ∈ userPages s'.mem p, Present (pteAt s'.mem s'.cr3 v) := by
    intro s' c rest hfree hc v hv
    rw [hc.cr3, hcr3]
    apply (mem_presentPages.mp hv).2
  generalize hres : s.memoryCopyUvm p = res
  cases hres ▸ memoryCopyUvm_cases hf hp (hcr3 ▸ hp) with
  | noDir hfree =>
      rw [hfree] at hframes
      cases hframes
  | @copied c rest s' t hfree hc hcopy =>
      exact ⟨c, t, rfl, by rw [hfree, List.head?_cons], hcopy.faithful hf hp hcr3 hfree hc⟩
  | failed hfree hc hbuilt =>
      have hnone := hbuilt.copy_failed_eq hc hf.range hfree
      rw [visitedPages_of_readable (hreadable hfree hc), userPages_created hc hf hfree hp,
        List.getElem?_eq_none hframes] at hnone
      cases hnone
  | fault hfree hc hbuilt hfault =>
      obtain ⟨v, hv, hnot⟩ := hfault
      cases hnot (hreadable hfree hc v hv)

/-- The copy is not at the address that reports failure. -/
theorem FaithfulCopy.ne_errorWord (h : FaithfulCopy s t live p c) (hr : RangeWf s.gPaddrAlloc) :
  c ≠ errorWord
  := Kernel.ne_errorWord hr h.dir

/-- With enough frames the copy of the current address space is complete: each user page is
present, with its permissions and its contents, in a frame of its own that was free; the
source is left as it was. -/
theorem memoryCopyUvm_faithful (hf : Frames s live) (hp : p ∈ live) (hcr3 : s.cr3 = p)
    (hframes : (copyAsks (userPages s.mem p)).length ≤ s.free.length) :
  ∃ c t, s.memoryCopyUvm p = .ok (c, t) ∧ c ≠ errorWord ∧ FaithfulCopy s t live p c
  := by
  obtain ⟨c, t, hcopy, -, hfaithful⟩ := memoryCopyUvm_of_enough hf hp hcr3 hframes
  exact ⟨c, t, hcopy, hfaithful.ne_errorWord hf.range, hfaithful⟩

/-! ### An address space to start with -/

/-- The machine of `bootDir` running on its directory, with the first user page mapped. -/
def bootPage (pages : Nat) : Kernel :=
  ((bootDir pages).memoryAllocForPageDir (1024 * 1024) 0x80000000 4096 7).2.mmuSetPageDir
    (1024 * 1024)

theorem bootPage_built {pages : Nat} (hpos : 3 ≤ pages) (h : pages ≤ 1000) :
  ∃ s', bootPage pages = s'.mmuSetPageDir (1024 * 1024) ∧
    Built 512 {1024 * 1024} (bootDir pages) s' (1024 * 1024) [(524288, mapWord 7)] none
  := by
  have hf := bootDir_frames (by omega) h
  obtain ⟨r, s', hb, hresult⟩ := memoryAllocForPageDir_spec (d := 1024 * 1024) 512 hf.range hf.nodes
    rfl (show 7 < 4096 by decide) (show memoryTaskBase ≤ 0x80000000 by decide) (by decide)
    (show ∀ v ∈ allocPages 0x80000000 4096, 512 ≤ v / 1024 by decide)
  have hnone := hb.failed_eq
  rw [bootDir_asks (by omega) h, bootDir_free (by omega) h, List.length_map, List.length_range,
    List.getElem?_eq_none (by simp; omega)] at hnone
  subst hnone
  use s'
  constructor
  · rw [bootPage, hresult]
  · apply hb

theorem bootPage_frames {pages : Nat} (hpos : 3 ≤ pages) (h : pages ≤ 1000) :
  Frames (bootPage pages) {1024 * 1024}
  := by
  obtain ⟨s', heq, hb⟩ := bootPage_built hpos h
  have hf := (bootDir_frames (by omega) h).built rfl hb
  rw [heq]
  use hf.range, hf.exclusive, hf.kernel

theorem bootPage_base {pages : Nat} (hpos : 3 ≤ pages) (h : pages ≤ 1000) :
  (bootPage pages).layout.gKernelPageDir = 0x5000
  := by
  obtain ⟨s', heq, hb⟩ := bootPage_built hpos h
  have hlayout : s'.layout = (boot pages).layout :=
    hb.layout.trans (bootDir_created (by omega) h).2.layout
  rw [heq]
  exact congrArg Layout.gKernelPageDir hlayout

theorem bootPage_free_length {pages : Nat} (hpos : 3 ≤ pages) (h : pages ≤ 1000) :
  (bootPage pages).free.length = pages - 3
  := by
  obtain ⟨s', heq, hb⟩ := bootPage_built hpos h
  have hlength : (bootPage pages).free = (s'.space 512 (1024 * 1024)).free := by
    rw [heq]
    rfl
  obtain ⟨n, rfl⟩ : ∃ n, pages = n + 3 := ⟨pages - 3, by omega⟩
  have hfree := bootDir_free (show 0 < n + 3 by omega) h
  rw [show n + 3 - 1 = n + 1 + 1 from rfl, List.range_succ_eq_map, List.map_cons,
    List.range_succ_eq_map, List.map_cons, List.map_cons] at hfree
  have htable : ((bootDir (n + 3)).space 512 (1024 * 1024)).table (tableIndex 524288) = none := by
    rw [space_table (by decide) (by decide)]
    apply (bootDir_created (by omega) h).2.tableAt (by decide) (by decide)
  have hmap := Space.map_of_new_table (v := 524288) hfree htable (mapWord 7)
  have hspace := hb.space
  rw [Space.mapAll_cons_of_mapped hmap, Space.mapAll_nil, Prod.mk.injEq] at hspace
  rw [hlength, ← hspace.2]
  simp

theorem bootPage_userPages {pages : Nat} (hpos : 3 ≤ pages) (h : pages ≤ 1000) :
  userPages (bootPage pages).mem (1024 * 1024) = [524288]
  := by
  obtain ⟨s', heq, hb⟩ := bootPage_built hpos h
  have hmem : (bootPage pages).mem = s'.mem := by
    rw [heq]
    rfl
  have hfree := free_nodup (bootDir_frames (show 0 < pages by omega) h).range
  obtain ⟨frame, hframe, -⟩ := Space.mapAll_entry_of_mapped hfree (by simp) hb.space
  obtain ⟨hin, hword⟩ := hframe 524288 (mapWord 7) List.mem_cons_self
  rw [space_entry (by decide) (by decide)] at hword
  have haligned := ((bootDir_frames (show 0 < pages by omega) h).range.free_bounds hin).1
  have hfirst : presentPages s'.mem (1024 * 1024) 524288 1 = [524288] := by
    rw [presentPages_one, hword, if_pos (mapWord_present haligned (by decide))]
  have hrest : presentPages s'.mem (1024 * 1024) (524288 + 1) 524287 = [] := by
    apply List.eq_nil_iff_forall_not_mem.mpr
    intro v hv
    obtain ⟨hrange, hpresent⟩ := mem_presentPages.mp hv
    rw [hb.pteAt_of_not_mem (by omega) (by omega) (by simp; omega),
      (bootDir_created (by omega) h).2.pteAt (by omega) (by omega)] at hpresent
    cases hpresent
  rw [hmem, userPages, show 524288 = 1 + 524287 from rfl, presentPages_append]
  rw [show 1 + 524287 = 524288 from rfl, hfirst, hrest]
  rfl

/-- The machine of `bootDir` running on its directory, with a user page on each side of the end of
a table. -/
def bootPair : Kernel :=
  ((bootDir 12).memoryAllocForPageDir (1024 * 1024) 0x803FF000 8192 7).2.mmuSetPageDir (1024 * 1024)

theorem bootPair_built :
  ∃ s', bootPair = s'.mmuSetPageDir (1024 * 1024) ∧
    Built 512 {1024 * 1024} (bootDir 12) s' (1024 * 1024) (mapsWith 7 [525311, 525312]) none
  := by
  have hf := bootDir_frames (show 0 < 12 by decide) (by decide)
  obtain ⟨r, s', hb, hresult⟩ := memoryAllocForPageDir_spec (d := 1024 * 1024) 512 hf.range hf.nodes
    rfl (show 7 < 4096 by decide) (show memoryTaskBase ≤ 0x803FF000 by decide) (by decide)
    (show ∀ v ∈ allocPages 0x803FF000 8192, 512 ≤ v / 1024 by decide)
  rw [show allocPages 0x803FF000 8192 = [525311, 525312] by decide] at hb
  have hserved : (((bootDir 12).space 512 (1024 * 1024)).mapAll tableIndex
      (mapsWith 7 [525311, 525312])).1 = none := by
    apply Space.mapAll_of_free_length
    rw [show ((bootDir 12).space 512 (1024 * 1024)).free = (bootDir 12).free from rfl,
      bootDir_free (by decide) (by decide), List.length_map, List.length_range]
    decide
  rw [hb.space] at hserved
  obtain rfl := hserved
  exact ⟨s', by rw [bootPair, hresult], hb⟩

theorem bootPair_frames :
  Frames bootPair {1024 * 1024}
  := by
  obtain ⟨s', heq, hb⟩ := bootPair_built
  have hf := (bootDir_frames (show 0 < 12 by decide) (by decide)).built rfl hb
  rw [heq]
  use hf.range, hf.exclusive, hf.kernel

theorem bootPair_free_length :
  7 ≤ bootPair.free.length
  := by
  obtain ⟨s', heq, hb⟩ := bootPair_built
  have hlength := Space.mapAll_free_length tableIndex ((bootDir 12).space 512 (1024 * 1024))
    (mapsWith 7 [525311, 525312])
  rw [hb.space, show ((bootDir 12).space 512 (1024 * 1024)).free = (bootDir 12).free from rfl,
    bootDir_free (by decide) (by decide), List.length_map, List.length_range] at hlength
  rw [heq]
  change 11 ≤ s'.free.length + 4 at hlength
  change 7 ≤ s'.free.length
  omega

theorem bootPair_userPages :
  userPages bootPair.mem (1024 * 1024) = [525311, 525312]
  := by
  obtain ⟨s', heq, hb⟩ := bootPair_built
  have hf := bootDir_frames (show 0 < 12 by decide) (by decide)
  obtain ⟨frame, hframe, -⟩ :=
    Space.mapAll_entry_of_mapped (free_nodup hf.range) (by decide) hb.space
  have hpresent (v : Nat) (hlo : 512 ≤ v / 1024) (hv : v < 2 ^ 20)
      (hmem : (v, mapWord 7) ∈ mapsWith 7 [525311, 525312]) :
      presentPages s'.mem (1024 * 1024) v 1 = [v] := by
    obtain ⟨hin, hword⟩ := hframe v (mapWord 7) hmem
    rw [space_entry hlo hv] at hword
    rw [presentPages_one, hword, if_pos (mapWord_present (hf.range.free_bounds hin).1 (by decide))]
  have habsent (i n : Nat) (hlo : 524288 ≤ i) (hhi : i + n ≤ 2 ^ 20)
      (hout : i + n ≤ 525311 ∨ 525313 ≤ i) :
      presentPages s'.mem (1024 * 1024) i n = [] := by
    apply List.eq_nil_iff_forall_not_mem.mpr
    intro v hv
    obtain ⟨hrange, hpresent⟩ := mem_presentPages.mp hv
    rw [hb.pteAt_of_not_mem (by omega) (by omega) (by simp [mapsWith]; omega),
      (bootDir_created (by decide) (by decide)).2.pteAt (by omega) (by omega)] at hpresent
    cases hpresent
  rw [heq, userPages, show 524288 = 1023 + (1 + (1 + 523263)) from rfl, presentPages_append,
    presentPages_append, presentPages_append]
  change presentPages s'.mem _ 524288 1023 ++ (presentPages s'.mem _ 525311 1
    ++ (presentPages s'.mem _ 525312 1 ++ presentPages s'.mem _ 525313 523263)) = _
  rw [habsent 524288 1023 (by decide) (by decide) (by decide),
    hpresent 525311 (by decide) (by decide) List.mem_cons_self,
    hpresent 525312 (by decide) (by decide) (List.mem_cons_of_mem _ List.mem_cons_self),
    habsent 525313 523263 (by decide) (by decide) (by decide)]
  rfl

/-! ### Failures -/

/-- The bitmaps of the allocators agree in every bit. -/
def SameBitmap (s t : Kernel) : Prop :=
  t.gPaddrAlloc.bitmap.bitCount = s.gPaddrAlloc.bitmap.bitCount ∧
    ∀ i < s.gPaddrAlloc.bitmap.bitCount,
      bitmapGetBit t.gPaddrAlloc.bitmap i = bitmapGetBit s.gPaddrAlloc.bitmap i

theorem marked_page_iff (hr : RangeWf s.gPaddrAlloc) {i : Nat}
    (hi : i < s.gPaddrAlloc.bitmap.bitCount) :
  s.Marked (s.gPaddrAlloc.page i) ↔ bitmapGetBit s.gPaddrAlloc.bitmap i ≠ 0
  := by
  constructor
  · rintro ⟨j, -, hbit, hpage⟩
    rw [← AddrAlloc.page_injective hr.wf hpage]
    apply hbit
  · intro hbit
    use i, hi, hbit

/-- The bitmaps agree exactly when the same frames are marked. -/
theorem sameBitmap_iff (hr : RangeWf s.gPaddrAlloc) (hrange : s.gPaddrAlloc.SameRange t.gPaddrAlloc) :
  SameBitmap s t ↔ ∀ g, t.Marked g ↔ s.Marked g
  := by
  constructor
  · rintro ⟨hcount, hbits⟩ g
    constructor
    · rintro ⟨i, hi, hbit, rfl⟩
      rw [hcount] at hi
      rw [hbits i hi] at hbit
      rw [hrange.page]
      use i, hi, hbit
    · rintro ⟨i, hi, hbit, rfl⟩
      rw [← hbits i hi] at hbit
      rw [← hrange.page]
      rw [← hcount] at hi
      use i, hi, hbit
  · intro hmarked
    use hrange.bitCount
    intro i hi
    have hi' : i < t.gPaddrAlloc.bitmap.bitCount := by
      rw [hrange.bitCount]
      apply hi
    have hpage := hmarked (s.gPaddrAlloc.page i)
    rw [marked_page_iff hr hi, ← hrange.page, marked_page_iff (hr.sameRange hrange) hi'] at hpage
    rcases bitmapGetBit_eq_zero_or_one t.gPaddrAlloc.bitmap i with ht | ht <;>
      rcases bitmapGetBit_eq_zero_or_one s.gPaddrAlloc.bitmap i with hs | hs
    · rw [ht, hs]
    · simp [ht, hs] at hpage
    · simp [ht, hs] at hpage
    · rw [ht, hs]

/-- User pages, each of them once, with entries that map them. -/
structure UserMaps (vs : List (Nat × (Nat → Nat))) : Prop where
  keys : (vs.map Prod.fst).Nodup
  user : ∀ v e, (v, e) ∈ vs → 524288 ≤ v ∧ v < 2 ^ 20
  words : ∀ v e, (v, e) ∈ vs → ∃ perm < 4096, e = mapWord perm

theorem words_copyMaps (m : Memory) (p : Nat) (vs : List Nat) :
  ∀ v e, (v, e) ∈ copyMaps m p vs → ∃ perm < 4096, e = mapWord perm
  := by
  intro v e hmem
  obtain ⟨w, hw, heq⟩ := List.mem_map.mp hmem
  cases heq
  use getPtePerm (pteAt m p v)
  rw [getPtePerm_eq]
  exact ⟨by omega, rfl⟩

theorem userMaps_copyMaps {m : Memory} {vs : List Nat}
    (hvs : ∀ v ∈ vs, 524288 ≤ v ∧ v < 2 ^ 20) (hkeys : vs.Nodup) :
  UserMaps (copyMaps m p vs)
  where
  keys := by
    rw [copyMaps_fst]
    apply hkeys
  user v e hmem := by
    obtain ⟨w, hw, heq⟩ := List.mem_map.mp hmem
    cases heq
    apply hvs v hw
  words := words_copyMaps m p vs

section Destroyed

variable {vs : List (Nat × (Nat → Nat))} {r : Option Request}
  (hb : Built 512 live s t c vs r) (hc : c ∈ live) (hvs : UserMaps vs)

include hb hc hvs

/-- Every frame taken for the pages of a directory is a table of it or a page. -/
theorem Built.owns_of_taken (hr : RangeWf s.gPaddrAlloc) (hne : r ≠ some .table) {g : Nat}
    (hin : g ∈ s.free) (hout : g ∉ t.free) :
  ∃ a, a.root = c ∧ Owns 512 t.mem live a g
  := by
  rcases Space.mapAll_taken hvs.keys hb.space hne hin hout with ⟨v, hv, ht⟩ | ⟨v, e, hmem, hword⟩
  · obtain ⟨⟨w, e⟩, hmem, rfl⟩ := List.mem_map.mp hv
    have hrange := hvs.user w e hmem
    have hlo : 512 ≤ tableIndex w ∧ tableIndex w < 1024 := by
      unfold tableIndex
      omega
    rw [space_table hlo.1 hlo.2] at ht
    exact ⟨.table c (tableIndex w), rfl, hc, hlo.1, hlo.2, ht⟩
  · have hrange := hvs.user v e hmem
    obtain ⟨perm, hperm, rfl⟩ := hvs.words v e hmem
    have haligned := (hr.free_bounds hin).1
    rw [space_entry (by omega) hrange.2] at hword
    use .page c v, rfl, hc, by omega, hrange.2
    rw [hword]
    exact ⟨mapWord_present haligned hperm, ptePaddr_mapWord haligned hperm⟩

variable (hf : Frames s live) (hempty : ∀ i, 512 ≤ i → i < 1024 → tableAt s.mem c i = none)

include hf hempty

/-- What a directory that was empty owns was free before. -/
theorem Built.owned_free {a : Place} {g : Nat} (hroot : a.root = c) (ha : Owns 512 t.mem live a g) :
  g = c ∨ g ∈ s.free
  := by
  cases a with
  | dir d =>
      obtain rfl : d = c := hroot
      left
      rw [ha.2]
  | table d i =>
      obtain rfl : d = c := hroot
      obtain ⟨-, hi, hi', ht⟩ := ha
      rcases hb.table_of_table hi hi' ht with hold | hnew
      · rw [hempty i hi hi'] at hold
        cases hold
      · right
        apply hnew
  | page d v =>
      obtain rfl : d = c := hroot
      obtain ⟨-, hv, hv', hpresent, haddr⟩ := ha
      rw [hb.pteAt_eq hv hv'] at hpresent haddr
      rcases (s.space 512 d).mapAll_entry tableIndex vs v with hold | hnew
      · rw [hold, space_entry hv hv', pteAt_of_no_table (hempty _ hv (by omega))] at hpresent
        cases hpresent
      · obtain ⟨e, f, hmem, hin, hword⟩ := hnew
        obtain ⟨perm, hperm, rfl⟩ := hvs.words v e hmem
        rw [hword, ptePaddr_mapWord (hf.range.free_bounds hin).1 hperm] at haddr
        right
        rw [← haddr]
        apply hin

/-- A frame is marked after a directory that was empty, built as far as it could be, has been
destroyed when it was marked before, or was taken and is not owned by the directory. -/
theorem Built.destroyed_marked (g : Nat) :
  (t.memoryDestoryUvm c).Marked g ↔ s.Marked g ∧ g ≠ c ∨
    ((g ∈ s.free ∧ g ∉ t.free) ∧ ¬ ∃ a, a.root = c ∧ Owns 512 t.mem live a g)
  := by
  have hfreed := freed_memoryDestoryUvm (hf.built hc hb) hc
  rw [hfreed.marked, hb.marked]
  constructor
  · rintro ⟨hmarked | htaken, hnot⟩
    · left
      use hmarked
      rintro rfl
      exact hnot ⟨.dir g, rfl, hc, rfl⟩
    · right
      exact ⟨htaken, hnot⟩
  · rintro (⟨hmarked, hne⟩ | ⟨htaken, hnot⟩)
    · use .inl hmarked
      rintro ⟨a, hroot, ha⟩
      apply hmarked.not_free hf.range
      apply (hb.owned_free hc hvs hf hempty hroot ha).resolve_left hne
    · exact ⟨.inr htaken, hnot⟩

/-- Unless a page table could not be had, everything taken is given back. -/
theorem Built.destroyed_of_ne (hne : r ≠ some .table) (g : Nat) :
  (t.memoryDestoryUvm c).Marked g ↔ s.Marked g ∧ g ≠ c
  := by
  rw [hb.destroyed_marked hc hvs hf hempty]
  constructor
  · rintro (hmarked | ⟨⟨hin, hout⟩, hnot⟩)
    · apply hmarked
    · exfalso
      apply hnot
      apply hb.owns_of_taken hc hvs hf.range hne hin hout
  · apply Or.inl

/-- When a page table could not be had, the page taken for it stays marked. -/
theorem Built.destroyed_of_table (hr : r = some .table) :
  ∃ g ∈ s.free, (t.memoryDestoryUvm c).Marked g
  := by
  subst hr
  obtain ⟨g, hin, hout, htables, hentries⟩ := Space.mapAll_leak (free_nodup hf.range) hb.space
  use g, hin
  rw [hb.destroyed_marked hc hvs hf hempty]
  right
  use ⟨hin, hout⟩
  rintro ⟨a, hroot, ha⟩
  cases a with
  | dir d =>
      obtain rfl : d = c := hroot
      obtain rfl : g = d := ha.2
      apply (hf.marked_dir hc).not_free hf.range hin
  | table d i =>
      obtain rfl : d = c := hroot
      obtain ⟨-, hi, hi', ht⟩ := ha
      have hold := htables i ((space_table hi hi').trans ht)
      rw [space_table hi hi', hempty i hi hi'] at hold
      cases hold
  | page d v =>
      obtain rfl : d = c := hroot
      obtain ⟨-, hv, hv', hpresent, haddr⟩ := ha
      rcases hentries v with hold | ⟨e, f, hin', hf'', hne, hword⟩
      · rw [space_entry hv hv', space_entry hv hv', pteAt_of_no_table (hempty _ hv (by omega))]
          at hold
        rw [hold] at hpresent
        cases hpresent
      · obtain ⟨perm, hperm, rfl⟩ := hvs.words v e hin'
        rw [space_entry hv hv'] at hword
        rw [hword, ptePaddr_mapWord (hf.range.free_bounds hf'').1 hperm] at haddr
        apply hne haddr

end Destroyed

/-- Apart from a directory that has been created, the frames in use are those of before. -/
theorem Created.marked_ne (hc : Created s s' c) (hf : Frames s live) (hfree : s.free = c :: rest)
    (g : Nat) :
  s'.Marked g ∧ g ≠ c ↔ s.Marked g
  := by
  rw [hc.marked hf.range hfree]
  constructor
  · rintro ⟨hmarked | rfl, hne⟩
    · exact hmarked
    · cases hne rfl
  · intro hmarked
    use .inl hmarked
    rintro rfl
    apply hmarked.not_free hf.range
    rw [hfree]
    apply List.mem_cons_self

/-- The request that cannot be served decides how copying ends. -/
theorem memoryCopyUvm_result (hf : Frames s live) (hp : p ∈ live) (he : s.cr3 ∈ live) :
  match (copyAsks (visitedPages s.mem p s.cr3))[s.free.length]? with
  | none => (∃ c t, s.memoryCopyUvm p = .ok (c, t) ∧ c ∈ s.free) ∨ ∃ t, s.memoryCopyUvm p = .error t
  | some .page => ∃ t, s.memoryCopyUvm p = .ok (errorWord, t) ∧ SameBitmap s t ∧
      ∀ f, f % 4096 = 0 → f ∉ s.free → SameFrame s.mem t.mem f
  | some .table => ∃ t, s.memoryCopyUvm p = .ok (errorWord, t) ∧ ¬ SameBitmap s t
  := by
  have hrun := memoryCopyUvm_cases hf hp he
  generalize s.memoryCopyUvm p = res at hrun ⊢
  cases hrun with
  | noDir hfree =>
      rw [hfree]
      simp only [copyAsks, List.length_nil, List.getElem?_cons_zero]
      use s, rfl
      constructor
      · use rfl
        exact fun _ _ => rfl
      · exact fun _ _ _ _ _ _ => rfl
  | @copied c rest s' t hfree hc hcopy =>
      have hnone := hcopy.built.copy_failed_eq hc hf.range hfree
      have hall : visitedPages s'.mem p s'.cr3 = presentPages s'.mem p 524288 524288 :=
        visitedPages_of_readable hcopy.readable
      rw [← hall, visitedPages_created hc hf hfree hp (hc.cr3.symm ▸ he), hc.cr3] at hnone
      rw [← hnone]
      left
      use c, t, rfl
      rw [hfree]
      apply List.mem_cons_self
  | @failed c rest q s' t hfree hc hbuilt =>
      have hfailed := hbuilt.copy_failed_eq hc hf.range hfree
      have hcl : c ∈ insert c live := Set.mem_insert c live
      have hfreed := freed_memoryDestoryUvm ((hf.created hfree hc).built hcl hbuilt) hcl
      have hsame : s.gPaddrAlloc.SameRange (t.memoryDestoryUvm c).gPaddrAlloc := by
        have hcreated : s.gPaddrAlloc.SameRange s'.gPaddrAlloc := by
          rw [hc.alloc]
          apply s.take_sameRange
        apply (hcreated.trans hbuilt.range).trans hfreed.range
      have hf' := hf.created hfree hc
      have hempty : ∀ i, 512 ≤ i → i < 1024 → tableAt s'.mem c i = none := fun _ => hc.tableAt
      have hmaps : UserMaps (copyMaps s'.mem p (visitedPages s'.mem p s'.cr3)) := by
        apply userMaps_copyMaps _ (nodup_visitedPages _ _ _)
        intro v hv
        have hrange := (mem_presentPages.mp (mem_visitedPages hv)).1
        omega
      rw [visitedPages_created hc hf hfree hp (hc.cr3.symm ▸ he), hc.cr3] at hfailed hbuilt hmaps
      rw [← hfailed]
      cases q with
      | page =>
          use t.memoryDestoryUvm c, rfl
          constructor
          · rw [sameBitmap_iff hf.range hsame]
            intro g
            rw [hbuilt.destroyed_of_ne hcl hmaps hf' hempty (by decide),
              hc.marked_ne hf hfree]
          · intro f hf' hnot
            rw [hfreed.mem]
            apply hbuilt.copy_sameFrame hc hf.range hfree hf' hnot
      | table =>
          use t.memoryDestoryUvm c, rfl
          rw [sameBitmap_iff hf.range hsame]
          obtain ⟨g, hin, hmarked⟩ := hbuilt.destroyed_of_table hcl hmaps hf' hempty rfl
          intro hbits
          have hbefore := (hbits g).mp hmarked
          apply hbefore.not_free hf.range
          rw [hc.free hf.range hfree] at hin
          rw [hfree]
          apply List.mem_cons_of_mem _ hin
  | @fault c rest s' t hfree hc hbuilt hfault =>
      have hnone := hbuilt.copy_failed_eq hc hf.range hfree
      rw [visitedPages_created hc hf hfree hp (hc.cr3.symm ▸ he), hc.cr3] at hnone
      rw [← hnone]
      right
      use t

/-- A copy of the current address space without all the frames it asks for fails. -/
theorem memoryCopyUvm_of_short (hf : Frames s live) (hp : p ∈ live) (hcr3 : s.cr3 = p)
    (hshort : s.free.length < (copyAsks (userPages s.mem p)).length) :
  ∃ t, s.memoryCopyUvm p = .ok (errorWord, t) ∧ RangeWf t.gPaddrAlloc
  := by
  have hrun := memoryCopyUvm_cases hf hp (hcr3 ▸ hp)
  generalize s.memoryCopyUvm p = result at hrun
  cases hrun with
  | noDir => exact ⟨s, rfl, hf.range⟩
  | @copied c rest s' t hfree hc hcopy =>
      have hnone := hcopy.built.copy_failed_eq hc hf.range hfree
      have hall : presentPages s'.mem p 524288 524288 = userPages s.mem p :=
        userPages_created hc hf hfree hp
      rw [hall, List.getElem?_eq_getElem hshort] at hnone
      cases hnone
  | @failed c rest q s' t hfree hc hbuilt =>
      have hcl : c ∈ insert c live := Set.mem_insert c live
      have hfreed := freed_memoryDestoryUvm ((hf.created hfree hc).built hcl hbuilt) hcl
      refine ⟨_, rfl, hf.range.sameRange ?_⟩
      have hcreated : s.gPaddrAlloc.SameRange s'.gPaddrAlloc := by
        rw [hc.alloc]
        apply s.take_sameRange
      apply (hcreated.trans hbuilt.range).trans hfreed.range
  | @fault c rest s' t hfree hc hbuilt hfault =>
      obtain ⟨v, hv, hnot⟩ := hfault
      rw [hc.cr3, hcr3] at hnot
      cases hnot (mem_presentPages.mp hv).2

/-- The directory of a copy was free. -/
theorem dir_memoryCopyUvm (hf : Frames s live) (hp : p ∈ live) (he : s.cr3 ∈ live)
    (h : s.memoryCopyUvm p = .ok (c, t)) (hne : c ≠ errorWord) :
  c ∈ s.free
  := by
  have hrun := memoryCopyUvm_cases hf hp he
  rw [h] at hrun
  cases hrun with
  | noDir => cases hne rfl
  | failed => cases hne rfl
  | copied hfree =>
      rw [hfree]
      apply List.mem_cons_self

/-- The directory of a copy is in use. -/
theorem marked_memoryCopyUvm (hf : Frames s live) (hp : p ∈ live) (he : s.cr3 ∈ live)
    (h : s.memoryCopyUvm p = .ok (c, t)) (hne : c ≠ errorWord) :
  t.Marked c
  := by
  have hrun := memoryCopyUvm_cases hf hp he
  rw [h] at hrun
  cases hrun with
  | noDir => cases hne rfl
  | copied hfree hc hcopy =>
      rw [hcopy.built.marked, hc.marked hf.range hfree]
      exact .inl (.inr rfl)
  | failed => cases hne rfl

/-- A failed copy leaves the bitmap and the source as they were exactly when the request
that failed was not for a page table.  Reading is through any directory in use. -/
theorem memoryCopyUvm_atomic_iff (hf : Frames s live) (hp : p ∈ live) (he : s.cr3 ∈ live) :
  (∀ t, s.memoryCopyUvm p = .ok (errorWord, t) →
      SameBitmap s t ∧ ∀ a f, a.root = p → Owns 512 s.mem live a f → SameFrame s.mem t.mem f)
    ↔ (copyAsks (visitedPages s.mem p s.cr3))[s.free.length]? ≠ some .table
  := by
  have hresult := memoryCopyUvm_result hf hp he
  generalize (copyAsks (visitedPages s.mem p s.cr3))[s.free.length]? = r at hresult ⊢
  rcases r with _ | q
  · constructor
    · intro _
      simp
    · rintro - t ht
      rcases hresult with ⟨c, t', hres, hfree⟩ | ⟨t', hres⟩
      · rw [hres, Except.ok.injEq, Prod.mk.injEq] at ht
        cases ne_errorWord hf.range hfree ht.1
      · rw [hres] at ht
        cases ht
  · cases q with
    | page =>
        obtain ⟨t', hres, hbits, hframes⟩ := hresult
        constructor
        · intro _
          simp
        · rintro - t ht
          rw [hres, Except.ok.injEq, Prod.mk.injEq] at ht
          rw [← ht.2]
          use hbits
          intro a f _ ha
          have hmarked := hf.exclusive.used_of_owns ha
          apply hframes f (hf.range.marked_bounds hmarked).1 (hmarked.not_free hf.range)
    | table =>
        obtain ⟨t', hres, hbits⟩ := hresult
        constructor
        · intro hclean
          cases hbits (hclean t' hres).1
        · intro hne
          cases hne rfl

/-- The copy of two pages in two tables, with frames to spare. -/
theorem memoryCopyUvm_faithful_bootPair :
  ∃ c t, bootPair.memoryCopyUvm (1024 * 1024) = .ok (c, t) ∧ c ≠ errorWord ∧
    FaithfulCopy bootPair t {1024 * 1024} (1024 * 1024) c
  := by
  apply memoryCopyUvm_faithful bootPair_frames rfl rfl
  rw [bootPair_userPages]
  exact Nat.le_trans (by decide) bootPair_free_length

/-- The copy of one page, with a frame for the directory but none for the page. -/
theorem memoryCopyUvm_atomic_iff_bootPage :
  (∃ t, (bootPage 4).memoryCopyUvm (1024 * 1024) = .ok (errorWord, t)) ∧
    ∀ t, (bootPage 4).memoryCopyUvm (1024 * 1024) = .ok (errorWord, t) →
      SameBitmap (bootPage 4) t ∧ ∀ a f, a.root = 1024 * 1024 →
        Owns 512 (bootPage 4).mem {1024 * 1024} a f → SameFrame (bootPage 4).mem t.mem f
  := by
  have hf : Frames (bootPage 4) {1024 * 1024} := bootPage_frames (by decide) (by decide)
  have hpage : (copyAsks (visitedPages (bootPage 4).mem (1024 * 1024) (bootPage 4).cr3))[
      (bootPage 4).free.length]? = some .page := by
    rw [show (bootPage 4).cr3 = 1024 * 1024 from rfl, visitedPages_of_readable
      (fun v hv => (mem_presentPages.mp hv).2), bootPage_userPages (by decide) (by decide),
      bootPage_free_length (by decide) (by decide)]
    decide
  constructor
  · have hresult := memoryCopyUvm_result (p := 1024 * 1024) hf rfl rfl
    rw [hpage] at hresult
    obtain ⟨t, ht, -⟩ := hresult
    use t
  · apply (memoryCopyUvm_atomic_iff hf rfl rfl).mpr
    rw [hpage]
    decide

/-- The copy of one page, with frames for the directory and the page but none for the page
table: the frame of the page is lost. -/
theorem memoryCopyUvm_leaks :
  ∃ t, (bootPage 5).memoryCopyUvm (1024 * 1024) = .ok (errorWord, t) ∧ ¬ SameBitmap (bootPage 5) t
  := by
  have hf : Frames (bootPage 5) {1024 * 1024} := bootPage_frames (by decide) (by decide)
  have hresult := memoryCopyUvm_result (p := 1024 * 1024) hf rfl rfl
  rw [show (bootPage 5).cr3 = 1024 * 1024 from rfl, visitedPages_of_readable
    (fun v hv => (mem_presentPages.mp hv).2), bootPage_userPages (by decide) (by decide),
    bootPage_free_length (by decide) (by decide)] at hresult
  apply hresult

end Kernel

end Dmos
