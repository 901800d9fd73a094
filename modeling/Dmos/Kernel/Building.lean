import Dmos.Kernel.Mapping

/-!
# Building an address space

`Built lo live s s' d vs r`: between `s` and `s'` the pages `vs` of the directory `d` have
been mapped in order, up to the failed request `r` if there is one, and apart from that
only pages mapped on the way have been written.  The space of `d` has gone through
`Space.mapAll`, so that the facts about the abstract operation hold of the directory in
memory; the other directories are as they were (`Built.tableAt_of_ne`,
`Built.pteAt_of_ne`).
-/

open ByteMemory AddressSpace

namespace Dmos

namespace Kernel

structure Built (lo : Nat) (live : Set Nat) (s s' : Kernel) (d : Nat)
    (vs : List (Nat × (Nat → Nat))) (r : Option Request) : Prop where
  space : (s.space lo d).mapAll tableIndex vs = (r, s'.space lo d)
  layout : s'.layout = s.layout
  cr3 : s'.cr3 = s.cr3
  range : s.gPaddrAlloc.SameRange s'.gPaddrAlloc
  nodes : Nodes lo s'.mem live s'.free
  marked : ∀ g, s'.Marked g ↔ s.Marked g ∨ (g ∈ s.free ∧ g ∉ s'.free)
  /-- Frames other than the directory, its tables and the free ones keep their contents. -/
  frame : ∀ g, g % 4096 = 0 → g ≠ d → (∀ i, lo ≤ i → i < 1024 → tableAt s.mem d i ≠ some g) →
    g ∉ s.free → SameFrame s.mem s'.mem g
  /-- The directory entries below `lo` are left alone. -/
  dir : ∀ i < 1024, i < lo → load32 s'.mem (d + 4 * i) = load32 s.mem (d + 4 * i)
  exclusive : Exclusive (Owns lo s.mem live) s.Marked → Exclusive (Owns lo s'.mem live) s'.Marked

namespace Built

variable {lo : Nat} {live : Set Nat} {s s' s'' : Kernel} {d : Nat}
  {vs ws : List (Nat × (Nat → Nat))} {r : Option Request}

theorem refl (hn : Nodes lo s.mem live s.free) (d : Nat) :
  Built lo live s s d [] none
  where
  space := rfl
  layout := rfl
  cr3 := rfl
  range := .refl _
  nodes := hn
  marked := by simp
  frame _ _ _ _ _ := fun _ _ _ => rfl
  dir _ _ _ := rfl
  exclusive h := h

theorem free_suffix (h : Built lo live s s' d vs r) :
  s'.free <:+ s.free
  := by
  have hsuffix := (s.space lo d).mapAll_free_suffix tableIndex vs
  rw [h.space] at hsuffix
  apply hsuffix

/-- A table of the directory was there before, or its frame was free. -/
theorem table_of_table (h : Built lo live s s' d vs r) {i t : Nat} (hlo : lo ≤ i)
    (hi : i < 1024) (ht : tableAt s'.mem d i = some t) :
  tableAt s.mem d i = some t ∨ t ∈ s.free
  := by
  have htable := fun ht => (s.space lo d).mapAll_table (i := i) (t := t) tableIndex vs ht
  rw [h.space, space_table hlo hi, space_table hlo hi] at htable
  apply htable ht

/-- Frames that neither belong to the directory nor are free stay so. -/
theorem foreign (h : Built lo live s s' d vs r) {g : Nat}
    (hgt : ∀ i, lo ≤ i → i < 1024 → tableAt s.mem d i ≠ some g) (hgf : g ∉ s.free) :
  (∀ i, lo ≤ i → i < 1024 → tableAt s'.mem d i ≠ some g) ∧ g ∉ s'.free
  := by
  constructor
  · intro i hlo hi ht
    rcases h.table_of_table hlo hi ht with hold | hfree
    · apply hgt i hlo hi hold
    · apply hgf hfree
  · intro hmem
    apply hgf (h.free_suffix.subset hmem)

/-- Two builds one after the other. -/
theorem trans (h : Built lo live s s' d vs none) (h' : Built lo live s' s'' d ws r) :
  Built lo live s s'' d (vs ++ ws) r
  where
  space := by rw [Space.mapAll_append h.space, h'.space]
  layout := h'.layout.trans h.layout
  cr3 := h'.cr3.trans h.cr3
  range := h.range.trans h'.range
  nodes := h'.nodes
  marked g := by
    have hsub := h.free_suffix.subset (a := g)
    have hsub' := h'.free_suffix.subset (a := g)
    rw [h'.marked, h.marked]
    tauto
  frame g hg hgd hgt hgf := by
    obtain ⟨hgt', hgf'⟩ := h.foreign hgt hgf
    apply (h.frame g hg hgd hgt hgf).trans (h'.frame g hg hgd hgt' hgf')
  dir i hi hlo := by rw [h'.dir i hi hlo, h.dir i hi hlo]
  exclusive hx := h'.exclusive (h.exclusive hx)

/-- One page that is not mapped for want of a frame. -/
theorem of_failed {v perm : Nat} {q : Request} (h : MapFresh s d v perm (some q) s')
    (hr : RangeWf s.gPaddrAlloc) (hn : Nodes lo s.mem live s.free) :
  Built lo live s s' d [(v, mapWord perm)] (some q)
  where
  space := by rw [Space.mapAll_cons_of_failed (h.space_of_failed hr)]
  layout := h.same_rest.1
  cr3 := h.same_rest.2.1
  range := h.same_rest.2.2
  nodes := by
    apply hn.of_tables _ (h.free_suffix hr).subset
    intro e he i hi
    rw [h.mem_of_failed]
  marked := h.marked_iff hr
  frame g hg hgd hgt hgf := by
    rw [h.mem_of_failed]
    exact fun _ _ _ => rfl
  dir i hi hlo := by rw [h.mem_of_failed]
  exclusive hx := by
    rw [h.mem_of_failed]
    apply hx.grow_used
    intro g hg
    rw [h.marked_iff hr]
    left
    apply hg

/-- One page. -/
theorem of_mapFresh {v perm : Nat} (h : MapFresh s d v perm r s') (hr : RangeWf s.gPaddrAlloc)
    (hn : Nodes lo s.mem live s.free) (hd : d ∈ live) (hlo : lo ≤ v / 1024) (hv : v < 2 ^ 20)
    (hperm : perm < 4096) :
  Built lo live s s' d [(v, mapWord perm)] r
  := by
  cases r with
  | some q => apply of_failed h hr hn
  | none =>
      constructor
      · rw [Space.mapAll_cons_of_mapped (h.space hr hn hd hlo hv hperm), Space.mapAll_nil]
      · apply h.same_rest.1
      · apply h.same_rest.2.1
      · apply h.same_rest.2.2
      · apply h.nodes hr hn hd hlo hv
      · apply h.marked_iff hr
      · intro g hg hgd hgt hgf
        apply h.sameFrame hr hn hd hv hg hgd (hgt _ hlo (by omega)) hgf
      · intro i hi hlo'
        apply h.load32_dir hr hn hd hlo hv hi (by omega)
      · intro hx
        obtain ⟨f, t, hmaps⟩ := h.mapsTo hr hn hd hlo hv hperm
        apply hmaps.exclusive hr hd hlo hv hperm (h.marked_iff hr) hx

/-- After the failure of one page the pages after it are not reached. -/
theorem append_of_failed {q : Request} (h : Built lo live s s' d vs (some q))
    (ws : List (Nat × (Nat → Nat))) :
  Built lo live s s' d (vs ++ ws) (some q)
  := by
  use Space.mapAll_append_of_failed h.space ws, h.layout, h.cr3, h.range, h.nodes, h.marked,
    h.frame, h.dir, h.exclusive

/-! ### Frames of pages -/

end Built

/-- Frames that are neither the directory nor, in the end, one of its tables keep their
contents.  Those handed out to pages are among them. -/
def Untouched (lo : Nat) (s s' : Kernel) (d : Nat) : Prop :=
  ∀ g, g % 4096 = 0 → g ≠ d → (∀ i, lo ≤ i → i < 1024 → tableAt s'.mem d i ≠ some g) →
    SameFrame s.mem s'.mem g

theorem MapFresh.untouched {lo : Nat} {live : Set Nat} {s s' : Kernel} {d v perm : Nat}
    {r : Option Request} (h : MapFresh s d v perm r s') (hr : RangeWf s.gPaddrAlloc)
    (hn : Nodes lo s.mem live s.free) (hd : d ∈ live) (hlo : lo ≤ v / 1024) (hv : v < 2 ^ 20) :
  Untouched lo s s' d
  := by
  have hi : v / 1024 < 1024 := by omega
  intro g hg hgd hgt
  cases h with
  | noPage => exact fun _ _ _ => rfl
  | noTable => exact fun _ _ _ => rfl
  | @mapped f t rest hfree htable =>
      apply sameFrame_store32 _ _ hg (tableAt_aligned htable) (by omega)
      rintro rfl
      apply hgt _ hlo hi
      rw [setMem_mem, hn.distinct.tableAt_storePte hd hlo hv htable hd hi, htable]
  | @mappedNew f t rest hfree htable =>
      have ht : t ∈ s.free := by
        rw [hfree]
        simp
      have hbounds := hr.free_bounds ht
      unfold memoryTaskBase at hbounds
      have hnodes : DistinctNodes lo (Nodes.install s.mem d (v / 1024) t) live [] :=
        hn.distinct.install_nodes hd hi hbounds.1 (by omega) ht (by simp) (by simp)
      have htable' : tableAt (Nodes.install s.mem d (v / 1024) t) d (v / 1024) = some t := by
        rw [hn.distinct.tableAt_install hd hi hbounds.1 (by omega) ht hd hi, if_pos ⟨rfl, rfl⟩]
      have hne : g ≠ t := by
        rintro rfl
        apply hgt _ hlo hi
        rw [setMem_mem, hnodes.tableAt_storePte hd hlo hv htable' hd hi, htable']
      have hinstall := Nodes.sameFrame_install (m := s.mem) hg (hn.aligned d hd) hbounds.1 hi hgd hne
      apply hinstall.trans
      apply sameFrame_store32 _ _ hg hbounds.1 (by omega) hne

theorem Untouched.trans {lo : Nat} {live : Set Nat} {s s' s'' : Kernel} {d : Nat}
    {ws : List (Nat × (Nat → Nat))} {r : Option Request} (h : Untouched lo s s' d)
    (h' : Untouched lo s' s'' d) (hb : Built lo live s' s'' d ws r) :
  Untouched lo s s'' d
  := by
  intro g hg hgd hgt
  apply (h g hg hgd _).trans (h' g hg hgd hgt)
  intro i hlo hi ht
  apply hgt i hlo hi
  rw [← space_table hlo hi] at ht ⊢
  apply Space.mapAll_table_mono hb.space ht

namespace Built

variable {lo : Nat} {live : Set Nat} {s s' s'' : Kernel} {d : Nat}
  {vs ws : List (Nat × (Nat → Nat))} {r : Option Request}

/-! ### Other directories -/

section Others

variable (h : Built lo live s s' d vs r) (hn : Nodes lo s.mem live s.free) (hd : d ∈ live)
  {e : Nat} (he : e ∈ live) (hne : e ≠ d)

include h hn hd he hne

theorem sameFrame_dir_of_ne :
  SameFrame s.mem s'.mem e
  := by
  apply h.frame e (hn.aligned e he) hne
  · intro i hlo hi ht
    apply hn.distinct.dir_ne_table he hd hlo hi ht rfl
  · apply hn.distinct.dir_not_free he

theorem tableAt_of_ne {i : Nat} (hi : i < 1024) :
  tableAt s'.mem e i = tableAt s.mem e i
  := tableAt_congr (h.sameFrame_dir_of_ne hn hd he hne) hi

theorem sameFrame_table_of_ne {i t : Nat} (hlo : lo ≤ i) (hi : i < 1024)
    (ht : tableAt s.mem e i = some t) :
  SameFrame s.mem s'.mem t
  := by
  apply h.frame t (tableAt_aligned ht)
  · apply (hn.distinct.dir_ne_table hd he hlo hi ht).symm
  · intro j hlo' hj ht'
    apply hne (hn.distinct.table_unique he hd ⟨hlo, hi⟩ ⟨hlo', hj⟩ ht ht').1
  · apply hn.distinct.table_not_free he hlo hi ht

theorem pteAt_of_ne {v : Nat} (hlo : lo ≤ v / 1024) (hv : v < 2 ^ 20) :
  pteAt s'.mem e v = pteAt s.mem e v
  := by
  apply pteAt_congr (h.sameFrame_dir_of_ne hn hd he hne) hv
  intro t ht
  apply h.sameFrame_table_of_ne hn hd he hne hlo (by omega) ht

end Others

/-! ### Entries of the directory -/

theorem tableAt_eq (h : Built lo live s s' d vs r) {i : Nat} (hlo : lo ≤ i) (hi : i < 1024) :
  tableAt s'.mem d i = ((s.space lo d).mapAll tableIndex vs).2.table i
  := by rw [h.space, space_table hlo hi]

theorem pteAt_eq (h : Built lo live s s' d vs r) {v : Nat} (hlo : lo ≤ v / 1024)
    (hv : v < 2 ^ 20) :
  pteAt s'.mem d v = ((s.space lo d).mapAll tableIndex vs).2.entry v
  := by rw [h.space, space_entry hlo hv]

theorem pteAt_of_not_mem (h : Built lo live s s' d vs r) {v : Nat} (hlo : lo ≤ v / 1024)
    (hv : v < 2 ^ 20) (hmem : v ∉ vs.map Prod.fst) :
  pteAt s'.mem d v = pteAt s.mem d v
  := by rw [h.pteAt_eq hlo hv, Space.mapAll_entry_of_not_mem _ _ hmem, space_entry hlo hv]

/-! ### Writing a page -/

/-- Writing a frame that was free and is no node now. -/
theorem write (h : Built lo live s s' d vs r) {g : Nat} {m : Memory} (hfree : g ∈ s.free)
    (hnode : ∀ p, ¬ OwnsNode lo s'.mem live p g) (hd : d ∈ live) (hg : g % 4096 = 0)
    (hm : ∀ x, ¬ (g ≤ x ∧ x < g + 4096) → m x = s'.mem x) :
  Built lo live s (s'.setMem m) d vs r
  := by
  have hsame : ∀ f, f % 4096 = 0 → f ≠ g → SameFrame s'.mem m f := by
    intro f hf hfg x hx hx'
    apply hm
    omega
  have htable : ∀ e ∈ live, ∀ i < 1024, tableAt m e i = tableAt s'.mem e i := by
    intro e he i hi
    apply tableAt_congr _ hi
    apply hsame e (h.nodes.aligned e he)
    rintro rfl
    apply hnode (.dir e) ⟨he, rfl⟩
  have hentry : ∀ e ∈ live, ∀ v, lo ≤ v / 1024 → v < 2 ^ 20 → pteAt m e v = pteAt s'.mem e v := by
    intro e he v hlo hv
    apply pteAt_congr _ hv
    · intro t ht
      apply hsame t (tableAt_aligned ht)
      rintro rfl
      apply hnode (.table e (v / 1024)) ⟨he, hlo, by omega, ht⟩
    · apply hsame e (h.nodes.aligned e he)
      rintro rfl
      apply hnode (.dir e) ⟨he, rfl⟩
  have hspace : (s'.setMem m).space lo d = s'.space lo d := by
    unfold Kernel.space
    congr 1
    · funext i
      split_ifs with hi
      · apply htable d hd i hi.2
      · rfl
    · funext v
      split_ifs with hv
      · apply hentry d hd v hv.1 hv.2
      · rfl
  constructor
  · rw [hspace]
    apply h.space
  · apply h.layout
  · apply h.cr3
  · apply h.range
  · apply h.nodes.of_tables htable (fun _ hf => hf)
  · apply h.marked
  · intro f hf hfd hft hff
    apply (h.frame f hf hfd hft hff).trans
    apply hsame f hf
    rintro rfl
    apply hff hfree
  · intro i hi hlo
    rw [← h.dir i hi hlo]
    apply (hsame d (h.nodes.aligned d hd) _).load32 hi
    rintro rfl
    apply hnode (.dir d) ⟨hd, rfl⟩
  · intro hx
    have hown : ∀ p f, Owns lo m live p f → Owns lo s'.mem live p f :=
      fun p f hp => hp.of_entries htable hentry
    apply (h.exclusive hx).shrink hown
    intro p f hp
    apply (h.exclusive hx).used_of_owns (hown p f hp)

end Built

end Kernel

end Dmos
