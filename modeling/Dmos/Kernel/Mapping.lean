import Dmos.Kernel.MapPage

/-!
# What mapping a page does to the directories

Let the directories of `live` have exclusive nodes, and let `d` be one of them.  Mapping a
page of `d` to a fresh frame sets the entry of this page, links at most one table, and
leaves every other table and entry of every directory as it is (`MapFresh.mapsTo`).
It changes memory in the frames of `d` and its tables and in free frames only
(`MapFresh.sameFrame`), and on the space of `d` it is the abstract `Space.map`
(`MapFresh.space`).
-/

open ByteMemory AddressSpace

namespace Dmos

/-- The table a page belongs to. -/
abbrev tableIndex (v : Nat) : Nat :=
  v / 1024

namespace Kernel

/-- The free list with the tables of the directory `d` from index `lo` on and the entries
of their pages. -/
def space (s : Kernel) (lo d : Nat) : Space Nat Nat Nat Nat where
  free := s.free
  table i := if lo ≤ i ∧ i < 1024 then tableAt s.mem d i else none
  entry v := if lo ≤ v / 1024 ∧ v < 2 ^ 20 then pteAt s.mem d v else 0

/-- In the directories of `live`, the step from `m` to `m'` has set the entry of page `v`
of `d`, in table `t`, to `w`, and nothing else. -/
structure SetsEntry (lo : Nat) (live : Set Nat) (m m' : Memory) (d v t w : Nat) : Prop where
  table : ∀ d' ∈ live, ∀ i < 1024,
    tableAt m' d' i = if d' = d ∧ i = v / 1024 then some t else tableAt m d' i
  entry : ∀ d' ∈ live, ∀ v', lo ≤ v' / 1024 → v' < 2 ^ 20 →
    pteAt m' d' v' = if d' = d ∧ v' = v then w else pteAt m d' v'

/-- Page `v` of `d` has been mapped by the entry `w` to the frame `f`, which was free, in
the table `t`, which was there or was free. -/
structure MapsTo (lo : Nat) (live : Set Nat) (s s' : Kernel) (d v perm f t : Nat) : Prop where
  first : ∃ rest, s.free = f :: rest
  page_taken : f ∉ s'.free
  table : tableAt s.mem d (v / 1024) = some t ∨
    (tableAt s.mem d (v / 1024) = none ∧ t ∈ s.free ∧ t ∉ s'.free ∧ t ≠ f)
  sets : SetsEntry lo live s.mem s'.mem d v t (mapWord perm f)

theorem MapsTo.page_free {lo : Nat} {live : Set Nat} {s s' : Kernel} {d v perm f t : Nat}
    (h : MapsTo lo live s s' d v perm f t) :
  f ∈ s.free
  := by
  obtain ⟨rest, hfree⟩ := h.first
  rw [hfree]
  apply List.mem_cons_self

theorem setsEntry_store {lo : Nat} {m : Memory} {live : Set Nat} {free : List Nat} {d v t w : Nat}
    (hn : DistinctNodes lo m live free) (hd : d ∈ live) (hlo : lo ≤ v / 1024) (hv : v < 2 ^ 20)
    (ht : tableAt m d (v / 1024) = some t) (hw : w < 2 ^ 32) :
  SetsEntry lo live m (store32 m (t + 4 * (v % 1024)) w) d v t w
  where
  table d' hd' i hi := by
    rw [hn.tableAt_storePte hd hlo hv ht hd' hi]
    split_ifs with h
    · rw [h.1, h.2, ht]
    · rfl
  entry d' hd' v' hlo' hv' := hn.pteAt_storePte hd hlo hv ht hw hd' hlo' hv'

theorem setsEntry_install {lo : Nat} {m : Memory} {live : Set Nat} {free : List Nat}
    {d v t w : Nat} (hn : DistinctNodes lo m live free) (hd : d ∈ live) (hlo : lo ≤ v / 1024)
    (hv : v < 2 ^ 20) (hnone : tableAt m d (v / 1024) = none) (ht : t % 4096 = 0)
    (hlt : t < 2 ^ 31) (hfree : t ∈ free) (hw : w < 2 ^ 32) :
  SetsEntry lo live m (store32 (Nodes.install m d (v / 1024) t) (t + 4 * (v % 1024)) w) d v t w
  := by
  have hi : v / 1024 < 1024 := by omega
  have htable := hn.tableAt_install hd hi ht hlt hfree hd hi
  rw [if_pos ⟨rfl, rfl⟩] at htable
  have hnodes : DistinctNodes lo (Nodes.install m d (v / 1024) t) live [] :=
    hn.install_nodes hd hi ht hlt hfree (by simp) (by simp)
  have hsets := setsEntry_store hnodes hd hlo hv htable hw
  constructor
  · intro d' hd' i hi'
    rw [hsets.table d' hd' i hi']
    split_ifs with heq
    · rfl
    · rw [hn.tableAt_install hd hi ht hlt hfree hd' hi', if_neg heq]
  · intro d' hd' v' hlo' hv'
    rw [hsets.entry d' hd' v' hlo' hv', hn.pteAt_install hd hi hnone ht hlt hfree hd' hlo' hv']

/-- The space of a directory in which an entry has been set. -/
theorem space_of_setsEntry {lo : Nat} {live : Set Nat} {s s' : Kernel} {m' : Memory}
    {d v t w : Nat} (hm : s'.mem = m') (h : SetsEntry lo live s.mem m' d v t w) (hd : d ∈ live) (hlo : lo ≤ v / 1024)
    (hv : v < 2 ^ 20) :
  s'.space lo d = {
    free := s'.free
    table := Function.update (s.space lo d).table (v / 1024) (some t)
    entry := Function.update (s.space lo d).entry v w }
  := by
  subst hm
  rw [space, Space.mk.injEq]
  use rfl
  constructor
  · funext i
    by_cases hi : i = v / 1024
    · rw [hi, Function.update_self, if_pos (by omega), h.table d hd _ (by omega), if_pos ⟨rfl, rfl⟩]
    · rw [Function.update_of_ne hi]
      simp only [space]
      split_ifs with hrange
      · rw [h.table d hd i hrange.2, if_neg (fun hc => hi hc.2)]
      · rfl
  · funext v'
    by_cases hpage : v' = v
    · rw [hpage, Function.update_self, if_pos ⟨hlo, hv⟩, h.entry d hd v hlo hv, if_pos ⟨rfl, rfl⟩]
    · rw [Function.update_of_ne hpage]
      simp only [space]
      split_ifs with hrange
      · rw [h.entry d hd v' hrange.1 hrange.2, if_neg (fun hc => hpage hc.2)]
      · rfl

theorem space_table {lo : Nat} {s : Kernel} {d i : Nat} (hlo : lo ≤ i) (hi : i < 1024) :
  (s.space lo d).table i = tableAt s.mem d i
  := if_pos ⟨hlo, hi⟩

theorem space_entry {lo : Nat} {s : Kernel} {d v : Nat} (hlo : lo ≤ v / 1024) (hv : v < 2 ^ 20) :
  (s.space lo d).entry v = pteAt s.mem d v
  := if_pos ⟨hlo, hv⟩

namespace MapFresh

variable {s s' : Kernel} {d v perm lo : Nat} {r : Option Request} {live : Set Nat}

/-- A failed request leaves memory alone. -/
theorem mem_of_failed {q : Request} (h : MapFresh s d v perm (some q) s') :
  s'.mem = s.mem
  := by
  cases h with
  | noPage => rfl
  | noTable => rfl

/-- On the space of the directory, a failed request is one of the abstract operation, also for a
page below `lo`. -/
theorem space_of_failed {q : Request} (h : MapFresh s d v perm (some q) s')
    (hr : RangeWf s.gPaddrAlloc) :
  (s.space lo d).map tableIndex v (mapWord perm) = (some q, s'.space lo d)
  := by
  cases h with
  | noPage hfree => apply Space.map_of_free_nil hfree
  | @noTable f hfree htable =>
      have htable' : (s.space lo d).table (tableIndex v) = none := by
        simp only [Kernel.space]
        split_ifs
        · apply htable
        · rfl
      rw [Space.map_of_no_table hfree htable']
      rw [Kernel.space, Kernel.space, free_take hr hfree]
      rfl

section Effect

variable (hr : RangeWf s.gPaddrAlloc) (hn : Nodes lo s.mem live s.free) (hd : d ∈ live)
  (hlo : lo ≤ v / 1024) (hv : v < 2 ^ 20)

include hr hn hd hlo hv

/-- Exclusive nodes stay exclusive. -/
theorem nodes (h : MapFresh s d v perm r s') :
  Nodes lo s'.mem live s'.free
  := by
  have hsub := (h.free_suffix hr).subset
  cases h with
  | noPage hfree => apply hn
  | noTable hfree htable => apply hn.of_tables (fun _ _ _ _ => rfl) hsub
  | mapped hfree htable =>
      apply hn.of_tables _ hsub
      intro d' hd' i hi
      apply hn.distinct.tableAt_storePte hd hlo hv htable hd' hi
  | @mappedNew f t rest hfree htable =>
      have ht : t ∈ s.free := by
        rw [hfree]
        simp
      have hbounds := hr.free_bounds ht
      unfold memExtStart memoryTaskBase at hbounds
      have hnot : t ∉ s.take.take.free := by
        have hnodup := free_nodup (rangeWf_take hr)
        have hrest := free_take hr hfree
        rw [hrest, List.nodup_cons] at hnodup
        rw [free_take (rangeWf_take hr) hrest]
        apply hnodup.1
      have hinstall := hn.install_nodes (i := v / 1024) hd (by omega) hbounds.1 (by omega) (by omega)
        ht hsub hnot
      have htable' := hn.distinct.tableAt_install (i := v / 1024) hd (by omega) hbounds.1 (by omega) ht hd
        (show v / 1024 < 1024 by omega)
      rw [if_pos ⟨rfl, rfl⟩] at htable'
      apply hinstall.of_tables _ (fun _ hf => hf)
      intro d' hd' i hi
      apply hinstall.distinct.tableAt_storePte hd hlo hv htable' hd' hi

/-- A page mapped has the entry of a frame that was free. -/
theorem mapsTo (hperm : perm < 4096) (h : MapFresh s d v perm none s') :
  ∃ f t, MapsTo lo live s s' d v perm f t
  := by
  have hnodup := free_nodup hr
  have hword : ∀ f ∈ s.free, mapWord perm f < 2 ^ 32 := by
    intro f hf
    have hbounds := hr.free_bounds hf
    apply mapWord_lt hbounds.1 hperm (hbounds.2.2.trans (by decide))
  cases h with
  | @mapped f t rest hfree htable =>
      have hf : f ∈ s.free := by
        rw [hfree]
        apply List.mem_cons_self
      rw [hfree, List.nodup_cons] at hnodup
      use f, t
      constructor
      · exact ⟨_, hfree⟩
      · rw [setMem_free, free_take hr hfree]
        apply hnodup.1
      · left
        apply htable
      · apply setsEntry_store hn.distinct hd hlo hv htable (hword f hf)
  | @mappedNew f t rest hfree htable =>
      have hf : f ∈ s.free := by
        rw [hfree]
        apply List.mem_cons_self
      have ht : t ∈ s.free := by
        rw [hfree]
        simp
      have hrest : s.take.take.free = rest :=
        free_take (rangeWf_take hr) (free_take hr hfree)
      rw [hfree, List.nodup_cons, List.mem_cons, not_or, List.nodup_cons] at hnodup
      have hbounds := hr.free_bounds ht
      unfold memExtStart memoryTaskBase at hbounds
      use f, t
      constructor
      · exact ⟨_, hfree⟩
      · rw [setMem_free, hrest]
        apply hnodup.1.2
      · right
        use htable, ht
        rw [setMem_free, hrest]
        use hnodup.2.1
        apply Ne.symm hnodup.1.1
      · apply setsEntry_install hn.distinct hd hlo hv htable hbounds.1 (by omega) ht (hword f hf)

/-- On the space of the directory, mapping a page is the abstract operation. -/
theorem space (hperm : perm < 4096) (h : MapFresh s d v perm r s') :
  (s.space lo d).map tableIndex v (mapWord perm) = (r, s'.space lo d)
  := by
  have hword : ∀ f ∈ s.free, mapWord perm f < 2 ^ 32 := by
    intro f hf
    have hbounds := hr.free_bounds hf
    apply mapWord_lt hbounds.1 hperm (hbounds.2.2.trans (by decide))
  have hi : v / 1024 < 1024 := by omega
  cases h with
  | noPage hfree => apply (noPage hfree).space_of_failed hr
  | noTable hfree htable => apply (noTable hfree htable).space_of_failed hr
  | @mapped f t rest hfree htable =>
      have hsets := setsEntry_store hn.distinct hd hlo hv htable (hword f (by rw [hfree]; simp))
      have htable' : (s.space lo d).table (tableIndex v) = some t :=
        (space_table hlo hi).trans htable
      rw [Space.map_of_table hfree htable', space_of_setsEntry (setMem_mem _ _) hsets hd hlo hv, setMem_free,
        free_take hr hfree]
      have hsame : Function.update (s.space lo d).table (v / 1024) (some t) = (s.space lo d).table
        := by
        rw [← htable']
        apply Function.update_eq_self
      rw [hsame]
  | @mappedNew f t rest hfree htable =>
      have ht : t ∈ s.free := by
        rw [hfree]
        simp
      have hbounds := hr.free_bounds ht
      unfold memExtStart memoryTaskBase at hbounds
      have hsets := setsEntry_install hn.distinct hd hlo hv htable hbounds.1 (by omega) ht
        (hword f (by rw [hfree]; simp))
      have htable' : (s.space lo d).table (tableIndex v) = none := (space_table hlo hi).trans htable
      rw [Space.map_of_new_table hfree htable',
        space_of_setsEntry (setMem_mem _ _) hsets hd hlo hv, setMem_free,
        free_take (rangeWf_take hr) (free_take hr hfree)]

omit hlo in
/-- Frames other than the directory, its tables and the free ones keep their contents. -/
theorem sameFrame (h : MapFresh s d v perm r s') {g : Nat} (hg : g % 4096 = 0) (hgd : g ≠ d)
    (hgt : tableAt s.mem d (v / 1024) ≠ some g) (hgf : g ∉ s.free) :
  SameFrame s.mem s'.mem g
  := by
  cases h with
  | noPage => exact fun _ _ _ => rfl
  | noTable => exact fun _ _ _ => rfl
  | @mapped f t rest hfree htable =>
      apply sameFrame_store32 _ _ hg (tableAt_aligned htable) (by omega)
      rintro rfl
      apply hgt htable
  | @mappedNew f t rest hfree htable =>
      have ht : t ∈ s.free := by
        rw [hfree]
        simp
      have hne : g ≠ t := by
        rintro rfl
        apply hgf ht
      have hbounds := hr.free_bounds ht
      have hinstall := Nodes.sameFrame_install (m := s.mem) (i := v / 1024) hg (hn.aligned d hd)
        hbounds.1 (by omega) hgd hne
      apply hinstall.trans
      apply sameFrame_store32 _ _ hg hbounds.1 (by omega) hne

/-- Only the directory entry of the page's table can change. -/
theorem load32_dir (h : MapFresh s d v perm r s') {i : Nat} (hi : i < 1024)
    (hne : i ≠ v / 1024) :
  load32 s'.mem (d + 4 * i) = load32 s.mem (d + 4 * i)
  := by
  cases h with
  | noPage => rfl
  | noTable => rfl
  | @mapped f t rest hfree htable =>
      have hframe := sameFrame_store32 s.mem (mapWord perm f) (hn.aligned d hd)
        (tableAt_aligned htable) (show v % 1024 < 1024 by omega)
        (hn.distinct.dir_ne_table hd hd hlo (by omega) htable)
      apply hframe.load32 hi
  | @mappedNew f t rest hfree htable =>
      have ht : t ∈ s.free := by
        rw [hfree]
        simp
      have hne' : d ≠ t := by
        rintro rfl
        apply hn.distinct.dir_not_free hd ht
      have hbounds := hr.free_bounds ht
      unfold memExtStart memoryTaskBase at hbounds
      have hframe := sameFrame_store32 (Nodes.install s.mem d (v / 1024) t) (mapWord perm f)
        (hn.aligned d hd) hbounds.1 (show v % 1024 < 1024 by omega) hne'
      rw [setMem_mem, hframe.load32 hi, Nodes.load32_install (hn.aligned d hd) hbounds.1 (by omega) hne' hi,
        if_neg hne]

end Effect

end MapFresh

/-! ### Exclusive ownership -/

/-- Mapping a page keeps the ownership of frames exclusive, also where the page was mapped
before. -/
theorem MapsTo.exclusive {lo : Nat} {live : Set Nat} {s s' : Kernel} {d v perm f t : Nat}
    (h : MapsTo lo live s s' d v perm f t) (hr : RangeWf s.gPaddrAlloc) (hd : d ∈ live)
    (hlo : lo ≤ v / 1024) (hv : v < 2 ^ 20) (hperm : perm < 4096)
    (hmark : ∀ g, s'.Marked g ↔ s.Marked g ∨ (g ∈ s.free ∧ g ∉ s'.free))
    (hx : Exclusive (Owns lo s.mem live) s.Marked) :
  Exclusive (Owns lo s'.mem live) s'.Marked
  := by
  have hnobody : ∀ g ∈ s.free, ∀ p, ¬ Owns lo s.mem live p g := by
    intro g hg p hp
    apply AddrAlloc.Marked.not_mem_freePages hr.wf (hx.used_of_owns hp) hg
  have hused := hx.grow_used (fun g hg => (hmark g).mpr (.inl hg))
  -- first the table of the page gets its frame, then the page
  let owns (p : Place) (g : Nat) : Prop :=
    (p ≠ .table d (v / 1024) ∧ Owns lo s.mem live p g) ∨ (p = .table d (v / 1024) ∧ g = t)
  have htable : Exclusive owns s'.Marked ∧ ∀ p, ¬ owns p f := by
    rcases h.table with hold | ⟨-, hfree, htaken, hne⟩
    · have hown : Owns lo s.mem live (.table d (v / 1024)) t := ⟨hd, hlo, by omega, hold⟩
      have hsub : ∀ p g, owns p g → Owns lo s.mem live p g := by
        rintro p g (⟨-, hp⟩ | ⟨rfl, rfl⟩)
        · apply hp
        · apply hown
      constructor
      · apply hused.shrink hsub
        intro p g hp
        apply hused.used_of_owns (hsub p g hp)
      · intro p hp
        apply hnobody f h.page_free p (hsub p f hp)
    · constructor
      · apply hused.take (hnobody t hfree) ((hmark t).mpr (.inr ⟨hfree, htaken⟩))
        intro p g hp
        apply hp
      · rintro p (⟨-, hp⟩ | ⟨-, heq⟩)
        · apply hnobody f h.page_free p hp
        · apply hne heq.symm
  apply htable.1.take htable.2 ((hmark f).mpr (.inr ⟨h.page_free, h.page_taken⟩))
    (q := .page d v)
  intro p g hp
  cases p with
  | dir e =>
      left
      constructor
      · simp
      · left
        constructor
        · simp
        · apply hp
  | table e i =>
      left
      constructor
      · simp
      · obtain ⟨he, hi, hi', hat⟩ := hp
        rw [h.sets.table e he i hi'] at hat
        by_cases hnew : e = d ∧ i = v / 1024
        · right
          rw [if_pos hnew, Option.some.injEq] at hat
          rw [hnew.1, hnew.2, hat]
          use rfl
        · left
          rw [if_neg hnew] at hat
          constructor
          · intro heq
            cases heq
            apply hnew ⟨rfl, rfl⟩
          · use he, hi, hi'
  | page e w =>
      obtain ⟨he, hw, hw', hpresent, haddr⟩ := hp
      rw [h.sets.entry e he w hw hw'] at hpresent haddr
      by_cases hnew : e = d ∧ w = v
      · right
        rw [if_pos hnew, ptePaddr_mapWord (hr.free_bounds h.page_free).1 hperm] at haddr
        rw [hnew.1, hnew.2, haddr]
        use rfl
      · left
        rw [if_neg hnew] at hpresent haddr
        constructor
        · intro heq
          cases heq
          apply hnew ⟨rfl, rfl⟩
        · left
          constructor
          · simp
          · use he, hw, hw', hpresent

end Kernel

end Dmos
