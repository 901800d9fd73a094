import Dmos.Kernel.Frames

/-!
# Mapping a range of addresses

`memoryCreateMap` maps the pages of a range one after the other and allocates the page
tables that are missing on the way.  Let the directories of `live` and their tables occupy
distinct frames, none of them free.  `findPte_cases` lists what one pass can meet:
the table is there, it is installed in a frame that was free, or there is no frame for it.
`MapsRange` is what the passes up to some point have done, and `mapsRange_memoryCreateMap`
carries it through the loop: a returned `0` says that all pages of the range are mapped,
and whatever is returned, the entries of all other pages are as they were.

A directory may have a table at address `0`.  The code takes the address of its first
entry for a missing one and gives up, which is why `MapsRange.mapped` speaks of entries at
other addresses only.
-/

open ByteMemory

namespace Dmos

namespace Kernel

/-- All that looking for the entry of page `v` in `d` can do, when a table may be
allocated for it. -/
inductive FindPte (s : Kernel) (d v : Nat) : Nat → Kernel → Prop
  /-- The table is there. -/
  | found {t : Nat} : tableAt s.mem d (v / 1024) = some t → FindPte s d v (t + 4 * (v % 1024)) s
  /-- There is no frame for the table. -/
  | full : s.free = [] → FindPte s d v 0 s
  /-- The first free frame becomes the table. -/
  | installed {t : Nat} {rest : List Nat} : s.free = t :: rest →
      tableAt s.mem d (v / 1024) = none →
      FindPte s d v (t + 4 * (v % 1024)) (s.take.setMem (Nodes.install s.mem d (v / 1024) t))

theorem findPte_cases {s : Kernel} (hr : RangeWf s.gPaddrAlloc) (d vaddr : Nat) :
  FindPte s d (vaddr / 4096) (s.findPte d vaddr 1).1 (s.findPte d vaddr 1).2
  := by
  rcases htable : tableAt s.mem d (vaddr / 4096 / 1024) with _ | t
  · rcases hfree : s.free with _ | ⟨t, rest⟩
    · rw [findPte_of_full htable hfree]
      apply FindPte.full hfree
    · rw [findPte_of_free hr htable hfree]
      apply FindPte.installed hfree htable
  · rw [findPte_of_table htable]
    apply FindPte.found htable

/-- Every table of a directory of `live` is there in the other memory too. -/
def TablesStay (live : Set Nat) (m m' : Memory) : Prop :=
  ∀ e ∈ live, ∀ i < 1024, ∀ t, tableAt m e i = some t → tableAt m' e i = some t

theorem TablesStay.trans {live : Set Nat} {m m' m'' : Memory} (h : TablesStay live m m')
    (h' : TablesStay live m' m'') :
  TablesStay live m m''
  := by
  intro e he i hi t ht
  apply h' e he i hi t (h e he i hi t ht)

/-- Between `s` and `s'`, with the result `err` so far, `n` pages of `d` from `v` on were to
be mapped to the frames from `paddr` on. -/
structure MapsRange (lo : Nat) (live : Set Nat) (s s' : Kernel) (d v paddr n perm : Nat)
    (err : Int) : Prop where
  range : s.gPaddrAlloc.SameRange s'.gPaddrAlloc
  layout : s'.layout = s.layout
  cr3 : s'.cr3 = s.cr3
  free : s'.free <:+ s.free
  nodes : DistinctNodes lo s'.mem live s'.free
  tables : TablesStay live s.mem s'.mem
  mapped : err = 0 → ∀ i < n, ∃ t, tableAt s'.mem d ((v + i) / 1024) = some t ∧
    t + 4 * ((v + i) % 1024) ≠ 0 ∧ pteAt s'.mem d (v + i) = mapWord perm (paddr + i * 4096)
  others : ∀ e ∈ live, ∀ w, lo ≤ w / 1024 → w < 2 ^ 20 → (e = d → ¬ (v ≤ w ∧ w < v + n)) →
    pteAt s'.mem e w = pteAt s.mem e w

section Step

variable {lo : Nat} {live : Set Nat} {s s' : Kernel} {d v pte : Nat}

theorem FindPte.same_rest (h : FindPte s d v pte s') :
  s.gPaddrAlloc.SameRange s'.gPaddrAlloc ∧ s'.layout = s.layout ∧ s'.cr3 = s.cr3
  := by
  cases h with
  | found => exact ⟨.refl _, rfl, rfl⟩
  | full => exact ⟨.refl _, rfl, rfl⟩
  | installed =>
      rw [setMem_gPaddrAlloc, setMem_layout, setMem_cr3]
      exact ⟨s.take_sameRange, rfl, rfl⟩

theorem FindPte.free_suffix (h : FindPte s d v pte s') (hr : RangeWf s.gPaddrAlloc) :
  s'.free <:+ s.free
  := by
  cases h with
  | found => apply List.suffix_rfl
  | full => apply List.suffix_rfl
  | installed hfree =>
      rw [setMem_free]
      apply free_take_suffix hr hfree

/-- An entry that was found belongs to the table of its page. -/
theorem FindPte.table (h : FindPte s d v pte s') (hr : RangeWf s.gPaddrAlloc)
    (hn : DistinctNodes lo s.mem live s.free) (hd : d ∈ live) (hv : v < 2 ^ 20) (hne : pte ≠ 0) :
  ∃ t, tableAt s'.mem d (v / 1024) = some t ∧ pte = t + 4 * (v % 1024)
  := by
  have hi : v / 1024 < 1024 := by omega
  cases h with
  | found htable => exact ⟨_, htable, rfl⟩
  | full => cases hne rfl
  | @installed t rest hfree =>
      have ht : t ∈ s.free := by
        rw [hfree]
        apply List.mem_cons_self
      have hbounds := hr.free_bounds ht
      unfold memoryTaskBase at hbounds
      have htable := hn.tableAt_install hd hi hbounds.1 (by omega) ht hd hi
      rw [if_pos ⟨rfl, rfl⟩] at htable
      exact ⟨t, htable, rfl⟩

/-- Looking for an entry keeps nodes distinct, tables in place and the entries of all
pages as they are. -/
theorem FindPte.keeps (h : FindPte s d v pte s') (hr : RangeWf s.gPaddrAlloc)
    (hn : DistinctNodes lo s.mem live s.free) (hd : d ∈ live) (hv : v < 2 ^ 20) :
  DistinctNodes lo s'.mem live s'.free ∧ TablesStay live s.mem s'.mem ∧
    ∀ e ∈ live, ∀ w, lo ≤ w / 1024 → w < 2 ^ 20 → pteAt s'.mem e w = pteAt s.mem e w
  := by
  cases h with
  | found => exact ⟨hn, fun _ _ _ _ _ ht => ht, fun _ _ _ _ _ => rfl⟩
  | full => exact ⟨hn, fun _ _ _ _ _ ht => ht, fun _ _ _ _ _ => rfl⟩
  | @installed t rest hfree hnone =>
      have hi : v / 1024 < 1024 := by omega
      have ht : t ∈ s.free := by
        rw [hfree]
        apply List.mem_cons_self
      have hbounds := hr.free_bounds ht
      unfold memoryTaskBase at hbounds
      have hnot : t ∉ s.take.free := by
        have hnodup := free_nodup hr
        rw [hfree, List.nodup_cons] at hnodup
        rw [free_take hr hfree]
        apply hnodup.1
      constructor
      · rw [setMem_mem, setMem_free]
        apply hn.install_nodes hd hi hbounds.1 (by omega) ht (free_take_suffix hr hfree).subset hnot
      constructor
      · intro e he j hj t' ht'
        rw [setMem_mem, hn.tableAt_install hd hi hbounds.1 (by omega) ht he hj, if_neg, ht']
        rintro ⟨rfl, rfl⟩
        rw [hnone] at ht'
        cases ht'
      · intro e he w hlo hw
        apply hn.pteAt_install hd hi hnone hbounds.1 (by omega) ht he hlo hw

end Step

namespace MapsRange

variable {lo : Nat} {live : Set Nat} {s s' s'' : Kernel} {d v paddr n perm : Nat} {err : Int}

theorem nil (hn : DistinctNodes lo s.mem live s.free) (d v paddr perm : Nat) :
  MapsRange lo live s s d v paddr 0 perm 0
  where
  range := .refl _
  layout := rfl
  cr3 := rfl
  free := List.suffix_rfl
  nodes := hn
  tables _ _ _ _ _ ht := ht
  mapped _ i hi := by omega
  others _ _ _ _ _ _ := rfl

/-- No entry was found, and the rest of the range is not reached. -/
theorem failed (h : FindPte s d v 0 s') (hr : RangeWf s.gPaddrAlloc)
    (hn : DistinctNodes lo s.mem live s.free) (hd : d ∈ live) (hv : v < 2 ^ 20) (paddr n perm : Nat) :
  MapsRange lo live s s' d v paddr n perm (-1)
  where
  range := h.same_rest.1
  layout := h.same_rest.2.1
  cr3 := h.same_rest.2.2
  free := h.free_suffix hr
  nodes := (h.keeps hr hn hd hv).1
  tables := (h.keeps hr hn hd hv).2.1
  mapped herr := by cases herr
  others e he w hlo hw _ := (h.keeps hr hn hd hv).2.2 e he w hlo hw

/-- One page whose entry was found. -/
theorem page {pte : Nat} (h : FindPte s d v pte s') (hr : RangeWf s.gPaddrAlloc)
    (hn : DistinctNodes lo s.mem live s.free) (hd : d ∈ live) (hlo : lo ≤ v / 1024)
    (hv : v < 2 ^ 20) (hp : paddr % 4096 = 0) (hpend : paddr + 4096 ≤ 2 ^ 32) (hperm : perm < 4096)
    (hne : pte ≠ 0) :
  MapsRange lo live s (s'.store pte (mapWord perm paddr)) d v paddr 1 perm 0
  := by
  obtain ⟨hn', htables, hentries⟩ := h.keeps hr hn hd hv
  obtain ⟨t, ht, rfl⟩ := h.table hr hn hd hv hne
  have hsame : ∀ e ∈ live, ∀ i < 1024,
      tableAt (store32 s'.mem (t + 4 * (v % 1024)) (mapWord perm paddr)) e i = tableAt s'.mem e i := by
    intro e he i hi
    apply hn'.tableAt_storePte hd hlo hv ht he hi
  have hsets := setsEntry_store hn' hd hlo hv ht (mapWord_lt hp hperm hpend)
  constructor
  · apply h.same_rest.1
  · apply h.same_rest.2.1
  · apply h.same_rest.2.2
  · apply h.free_suffix hr
  · apply hn'.of_tables hsame (fun _ hf => hf)
  · intro e he i hi t' ht'
    rw [store_mem, hsame e he i hi, htables e he i hi t' ht']
  · intro _ i hi
    obtain rfl : i = 0 := by omega
    use t
    rw [store_mem, Nat.add_zero, hsame d hd _ (by omega), hsets.entry d hd v hlo hv,
      if_pos ⟨rfl, rfl⟩]
    use ht, hne
    rw [Nat.zero_mul, Nat.add_zero]
  · intro e he w hlo' hw hout
    rw [store_mem, hsets.entry e he w hlo' hw, if_neg, hentries e he w hlo' hw]
    rintro ⟨rfl, rfl⟩
    apply hout rfl
    omega

/-- A page and the pages after it. -/
theorem cons (h : MapsRange lo live s s' d v paddr 1 perm 0)
    (h' : MapsRange lo live s' s'' d (v + 1) (paddr + 4096) n perm err) (hd : d ∈ live)
    (hlo : lo ≤ v / 1024) (hv : v < 2 ^ 20) :
  MapsRange lo live s s'' d v paddr (n + 1) perm err
  where
  range := h.range.trans h'.range
  layout := h'.layout.trans h.layout
  cr3 := h'.cr3.trans h.cr3
  free := h'.free.trans h.free
  nodes := h'.nodes
  tables := h.tables.trans h'.tables
  mapped herr i hi := by
    rcases i with _ | i
    · obtain ⟨t, ht, hne, hentry⟩ := h.mapped rfl 0 (by decide)
      use t, h'.tables d hd _ (by omega) t ht, hne
      rw [← hentry]
      apply h'.others d hd _ hlo hv
      omega
    · have hmapped := h'.mapped herr i (by omega)
      rw [show v + 1 + i = v + (i + 1) by omega,
        show paddr + 4096 + i * 4096 = paddr + (i + 1) * 4096 by omega] at hmapped
      apply hmapped
  others e he w hlo' hw hout := by
    rw [h'.others e he w hlo' hw, h.others e he w hlo' hw]
    · intro heq hc
      apply hout heq
      omega
    · intro heq hc
      apply hout heq
      omega

end MapsRange

/-- The loop maps the pages it passes. -/
theorem mapsRange_memoryCreateMap {lo : Nat} {live : Set Nat} {s : Kernel} {d perm : Nat}
    (hr : RangeWf s.gPaddrAlloc) (hn : DistinctNodes lo s.mem live s.free) (hd : d ∈ live)
    (hperm : perm < 4096) {vaddr paddr n : Nat} (hlo : lo ≤ vaddr / 4096 / 1024)
    (hv : vaddr % 4096 = 0) (hp : paddr % 4096 = 0) (hvend : vaddr + n * 4096 ≤ 2 ^ 32)
    (hpend : paddr + n * 4096 ≤ 2 ^ 32) :
  MapsRange lo live s (s.memoryCreateMap d vaddr paddr n perm).2 d (vaddr / 4096) paddr n perm
    (s.memoryCreateMap d vaddr paddr n perm).1
  := by
  induction n generalizing s vaddr paddr with
  | zero => apply MapsRange.nil hn
  | succ n ih =>
      have hpage : vaddr / 4096 < 2 ^ 20 := by omega
      have hfind := findPte_cases hr d vaddr
      rw [memoryCreateMap]
      rcases hres : s.findPte d vaddr 1 with ⟨pte, s₁⟩
      rw [hres] at hfind
      dsimp only at hfind ⊢
      by_cases hzero : pte = 0
      · rw [if_pos hzero]
        subst hzero
        apply MapsRange.failed hfind hr hn hd hpage
      · rw [if_neg hzero]
        have hone := MapsRange.page hfind hr hn hd hlo hpage hp (show paddr + 4096 ≤ 2 ^ 32 by omega)
          hperm hzero
        apply hone.cons _ hd hlo hpage
        rcases n with _ | n
        · apply MapsRange.nil hone.nodes
        · have hnext : u32 (vaddr + memPageSize) = vaddr + 4096 := by
            unfold u32 memPageSize
            omega
          have hnext' : u32 (paddr + memPageSize) = paddr + 4096 := by
            unfold u32 memPageSize
            omega
          have hdiv : vaddr / 4096 + 1 = (vaddr + 4096) / 4096 := by omega
          rw [hnext, hnext', hdiv]
          apply ih (hr.sameRange hone.range) hone.nodes <;> omega

/-! ### The translation built -/

/-- The walk of `findPte` leads from the page at `vaddr` of `d` to the frame at `paddr`,
with the flag bits `flags`. -/
structure Walks (s : Kernel) (d vaddr paddr flags : Nat) : Prop where
  entry : (s.findPte d vaddr 0).1 ≠ 0
  frame : ptePaddr (s.load (s.findPte d vaddr 0).1) = paddr
  flags : s.load (s.findPte d vaddr 0).1 % 4096 = flags
  address : s.memoryGetPaddr d vaddr = paddr

theorem MapsRange.walks {lo : Nat} {live : Set Nat} {s s' : Kernel} {d vaddr paddr n perm i : Nat}
    (h : MapsRange lo live s s' d (vaddr / 4096) paddr n perm 0) (hi : i < n)
    (hv : vaddr % 4096 = 0) (hp : paddr % 4096 = 0) (hperm : perm < 4096) :
  Walks s' d (vaddr + i * 4096) (paddr + i * 4096) (perm ||| pteP)
  := by
  obtain ⟨t, ht, hne, hentry⟩ := h.mapped rfl i hi
  have hpage : (vaddr + i * 4096) / 4096 = vaddr / 4096 + i := by omega
  have hframe : (paddr + i * 4096) % 4096 = 0 := by omega
  have hoffset : (vaddr + i * 4096) &&& (memPageSize - 1) = 0 := by
    rw [show memPageSize - 1 = 2 ^ 12 - 1 from rfl, Nat.and_two_pow_sub_one_eq_mod]
    omega
  rw [← hpage] at ht hne hentry
  rw [pteAt_of_table ht] at hentry
  have hfind := findPte_of_table ht 0
  constructor
  · rw [hfind]
    apply hne
  · rw [hfind, load, hentry, ptePaddr_mapWord hframe hperm]
  · rw [hfind, load, hentry, mapWord_flags hframe hperm]
  · simp only [memoryGetPaddr, hfind, load, hentry, if_neg hne, hoffset,
      ptePaddr_mapWord hframe hperm, Nat.add_zero]

/-- `memoryCreateMap` builds the translation it was asked for when it returns `0`, and
leaves the entries of all other pages as they are whatever it returns. -/
theorem memoryCreateMap_exact {s : Kernel} {d vaddr paddr count perm : Nat}
    (hr : RangeWf s.gPaddrAlloc) (hn : DistinctNodes 0 s.mem {d} s.free) (hv : vaddr % 4096 = 0)
    (hp : paddr % 4096 = 0) (hvend : vaddr + count * 4096 ≤ 2 ^ 32)
    (hpend : paddr + count * 4096 ≤ 2 ^ 32) (hperm : perm < 4096) :
  ((s.memoryCreateMap d vaddr paddr count perm).1 = 0 →
      ∀ i < count, Walks (s.memoryCreateMap d vaddr paddr count perm).2 d (vaddr + i * 4096)
        (paddr + i * 4096) (perm ||| pteP)) ∧
    ∀ w < 2 ^ 20, ¬ (vaddr / 4096 ≤ w ∧ w < vaddr / 4096 + count) →
      pteAt (s.memoryCreateMap d vaddr paddr count perm).2.mem d w = pteAt s.mem d w
  := by
  have hmaps := mapsRange_memoryCreateMap hr hn rfl hperm (Nat.zero_le _) hv hp hvend hpend
  constructor
  · intro herr i hi
    rw [herr] at hmaps
    apply hmaps.walks hi hv hp hperm
  · intro w hw hout
    apply hmaps.others d rfl w (Nat.zero_le _) hw (fun _ => hout)

/-- A directory of clear memory, below the pages of the allocator, has no tables. -/
theorem boot_distinct (pages : Nat) :
  DistinctNodes 0 (boot pages).mem {0x5000} (boot pages).free
  := by
  have hnone : ∀ d i, tableAt (boot pages).mem d i = none := by
    intro d i
    rw [tableAt_eq_none_iff, show load32 (boot pages).mem (d + 4 * i) = 0 from rfl]
    decide
  have hown : ∀ p f, OwnsNode 0 (boot pages).mem {0x5000} p f → p = .dir 0x5000 ∧ f = 0x5000 := by
    intro p f hp
    cases p with
    | dir d =>
        obtain ⟨rfl, rfl⟩ := hp
        use rfl
    | table d i =>
        obtain ⟨-, -, -, ht⟩ := hp
        rw [hnone] at ht
        cases ht
    | page d v => cases hp
  constructor
  · constructor
    · intro p f hp hmem
      obtain ⟨-, rfl⟩ := hown p f hp
      rw [boot_free, List.mem_map] at hmem
      obtain ⟨i, -, hi⟩ := hmem
      omega
    · intro p q f hp hq
      rw [(hown p f hp).1, (hown q f hq).1]
  · rintro d rfl
    decide

theorem memoryCreateMap_boot :
  ((boot 9).memoryCreateMap 0x5000 0x10000 0x10000 2 pteW).1 = 0
  := by decide +kernel

/-- The kernel's own mapping of two pages, on a machine with clear memory. -/
theorem memoryCreateMap_exact_boot :
  ((boot 9).memoryCreateMap 0x5000 0x10000 0x10000 2 pteW).1 = 0 ∧
    Walks ((boot 9).memoryCreateMap 0x5000 0x10000 0x10000 2 pteW).2 0x5000 0x11000 0x11000 3
  := by
  use memoryCreateMap_boot
  apply (memoryCreateMap_exact (boot_rangeWf (by decide)) (boot_distinct 9) (by decide) (by decide)
    (by decide) (by decide) (by decide)).1 memoryCreateMap_boot 1 (by decide)

end Kernel

end Dmos
