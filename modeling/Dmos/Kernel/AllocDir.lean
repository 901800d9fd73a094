import Dmos.Kernel.Frames
import Mathlib.Data.List.Range

/-!
# Allocating a range of a directory

`memoryAllocForPageDir` maps the pages of a range one by one, by passes that are
`mapFresh` each.  A run of it is a build of these pages (`memoryAllocForPageDir_spec`); the
failed request decides what it returns.

What it returns is not what its callers take it for: running out of frames for a page is
reported as `0`, and the number of pages is computed from the size alone, so that a range
that starts inside a page can end in a page that is not mapped.
`memoryAllocForPageDir_delivers_iff` says when a returned `0` is to be trusted.
-/

open ByteMemory AddressSpace Loop

namespace Dmos

/-- The pages of `n` addresses, one page apart, from `addr` on. -/
def pagesFrom : Nat → Nat → List Nat
  | _, 0 => []
  | addr, n + 1 => addr / 4096 :: pagesFrom (u32 (addr + memPageSize)) n

/-- The pages mapped for `size` bytes at `vaddr`. -/
def allocPages (vaddr size : Nat) : List Nat :=
  pagesFrom vaddr (up2 size memPageSize / memPageSize)

theorem length_pagesFrom (addr n : Nat) :
  (pagesFrom addr n).length = n
  := by
  induction n generalizing addr with
  | zero => rfl
  | succ n ih => rw [pagesFrom, List.length_cons, ih]

/-- Pages are counted up, modulo the number of pages. -/
theorem getElem_pagesFrom {addr n k : Nat} (haddr : addr < 2 ^ 32) (hk : k < n) :
  (pagesFrom addr n)[k]? = some ((addr / 4096 + k) % 2 ^ 20)
  := by
  induction n generalizing addr k with
  | zero => omega
  | succ n ih =>
      rw [pagesFrom]
      rcases k with _ | k
      · simp only [List.getElem?_cons_zero, Option.some.injEq]
        omega
      · rw [List.getElem?_cons_succ, ih (u32_lt _) (by omega), Option.some.injEq]
        unfold u32 memPageSize
        omega

theorem mem_pagesFrom {addr n v : Nat} (haddr : addr < 2 ^ 32) :
  v ∈ pagesFrom addr n ↔ ∃ k < n, v = (addr / 4096 + k) % 2 ^ 20
  := by
  rw [List.mem_iff_getElem?]
  constructor
  · rintro ⟨k, hk⟩
    obtain ⟨hlt, -⟩ := List.getElem?_eq_some_iff.mp hk
    rw [length_pagesFrom] at hlt
    rw [getElem_pagesFrom haddr hlt, Option.some.injEq] at hk
    use k, hlt, hk.symm
  · rintro ⟨k, hk, rfl⟩
    use k
    apply getElem_pagesFrom haddr hk

theorem nodup_pagesFrom {addr n : Nat} (haddr : addr < 2 ^ 32) (hn : n ≤ 2 ^ 20) :
  (pagesFrom addr n).Nodup
  := by
  rw [List.nodup_iff_getElem?_ne_getElem?]
  intro i j hij hj
  rw [length_pagesFrom] at hj
  rw [getElem_pagesFrom haddr (by omega), getElem_pagesFrom haddr hj]
  simp only [ne_eq, Option.some.injEq]
  omega

namespace Kernel

/-- The frames that mapping the pages `vs` of the directory `d` asks for. -/
def asks (s : Kernel) (lo d : Nat) (vs : List Nat) : List Request :=
  requests tableIndex (fun i => ((s.space lo d).table i).isSome) vs

/-- Page `v` gets the frames it asks for when the pages `vs` of `d` are mapped in order. -/
def Reaches (s : Kernel) (d : Nat) (vs : List Nat) (v : Nat) : Prop :=
  ∃ i, vs[i]? = some v ∧ (s.asks 0 d (vs.take (i + 1))).length ≤ s.free.length

theorem Reaches.mem {s : Kernel} {d v : Nat} {vs : List Nat} (h : s.Reaches d vs v) :
  v ∈ vs
  := by
  obtain ⟨i, hi, -⟩ := h
  apply List.mem_of_getElem? hi

/-- The pages `vs` with the entries that map them with permissions `perm`. -/
def mapsWith (perm : Nat) (vs : List Nat) : List (Nat × (Nat → Nat)) :=
  vs.map fun v => (v, mapWord perm)

theorem mapsWith_fst (perm : Nat) (vs : List Nat) :
  (mapsWith perm vs).map Prod.fst = vs
  := by simp [mapsWith, Function.comp_def]

theorem mapsWith_keys {perm : Nat} {vs : List Nat} (h : vs.Nodup) :
  ((mapsWith perm vs).map Prod.fst).Nodup
  := by rwa [mapsWith_fst]

theorem mapsWith_getElem? (perm : Nat) {i v : Nat} {vs : List Nat} (h : vs[i]? = some v) :
  (mapsWith perm vs)[i]? = some (v, mapWord perm)
  := by
  rw [mapsWith, List.getElem?_map, h]
  rfl

theorem words_mapsWith {perm : Nat} (hperm : perm < 4096) {vs : List Nat} :
  ∀ v e, (v, e) ∈ mapsWith perm vs → ∃ perm < 4096, e = mapWord perm
  := by
  intro v e hmem
  obtain ⟨w, -, heq⟩ := List.mem_map.mp hmem
  cases heq
  exact ⟨perm, hperm, rfl⟩

/-- A build fails at the first request the free list is too short for. -/
theorem Built.failed_eq {lo : Nat} {live : Set Nat} {s s' : Kernel} {d perm : Nat} {vs : List Nat}
    {r : Option Request} (h : Built lo live s s' d (mapsWith perm vs) r) :
  r = (s.asks lo d vs)[s.free.length]?
  := by
  have hfst := (s.space lo d).mapAll_fst tableIndex (mapsWith perm vs)
  rw [h.space, mapsWith_fst] at hfst
  apply hfst

section Served

variable {lo : Nat} {live : Set Nat} {s s' : Kernel} {d perm i v : Nat} {vs : List Nat}
  {r : Option Request} (h : Built lo live s s' d (mapsWith perm vs) r) (hnodup : vs.Nodup)
  (hi : vs[i]? = some v) (hlo : lo ≤ v / 1024) (hv : v < 2 ^ 20)

include h hnodup hi hlo hv

/-- A page whose request is served, with those before it, gets the frame at its place in
the free list. -/
theorem Built.pteAt_of_served (hserved : (s.asks lo d (vs.take (i + 1))).length ≤ s.free.length) :
  ∃ f, s.free[(s.asks lo d (vs.take i)).length]? = some f ∧ pteAt s'.mem d v = mapWord perm f
  := by
  have hentry := (s.space lo d).mapAll_entry_of_served tableIndex (mapsWith_keys hnodup)
    (mapsWith_getElem? perm hi)
  rw [mapsWith_fst, ← h.pteAt_eq hlo hv] at hentry
  apply hentry hserved

/-- A page that is not reached keeps its entry. -/
theorem Built.pteAt_of_unserved
    (hserved : s.free.length < (s.asks lo d (vs.take (i + 1))).length) :
  pteAt s'.mem d v = pteAt s.mem d v
  := by
  have hentry := (s.space lo d).mapAll_entry_of_unserved tableIndex (mapsWith_keys hnodup)
    (mapsWith_getElem? perm hi)
  rw [mapsWith_fst, ← h.pteAt_eq hlo hv, space_entry hlo hv] at hentry
  apply hentry hserved

end Served

/-! ### The loop -/

theorem pass_eq (d base perm i cv : Nat) (s : Kernel) :
  memoryAllocForPageDir.pass d base perm i (cv, s)
    = match s.mapFresh d cv perm with
      | (none, s) => .ok (u32 (cv + memPageSize), s)
      | (some .page, s) => .error (0, s)
      | (some .table, s) => .error (errorWord, s.addrFreePage base (i + 1))
  := by
  simp only [memoryAllocForPageDir.pass, mapFresh]
  rcases s.addrAllocPage 1 with ⟨paddr, s₁⟩
  by_cases hzero : paddr = 0
  · simp only [hzero, if_true]
  · simp only [hzero, if_false]
    rcases s₁.memoryCreateMap d cv paddr 1 perm with ⟨err, s₂⟩
    by_cases herr : err < 0
    · simp only [herr, if_true]
    · simp only [herr, if_false]

section Reaching

variable {lo : Nat} {live : Set Nat} {s s' : Kernel} {d v perm : Nat} (hv : v < 2 ^ 20)

include hv

theorem asks_of_table {t : Nat} (h : tableAt s.mem d (v / 1024) = some t) (vs : List Nat) :
  s.asks 0 d (v :: vs) = .page :: s.asks 0 d vs
  := by
  have hhas : ((s.space 0 d).table (tableIndex v)).isSome = true := by
    rw [space_table (Nat.zero_le _) (show v / 1024 < 1024 by omega), h]
    rfl
  rw [asks, requests, if_pos hhas]
  rfl

theorem asks_of_no_table (h : tableAt s.mem d (v / 1024) = none) (vs : List Nat) :
  s.asks 0 d (v :: vs) = .page :: .table :: requests tableIndex
    (fun i => i = v / 1024 || ((s.space 0 d).table i).isSome) vs
  := by
  have hhas : ((s.space 0 d).table (tableIndex v)).isSome = false := by
    rw [space_table (Nat.zero_le _) (show v / 1024 < 1024 by omega), h]
    rfl
  rw [asks, requests, if_neg (by rw [hhas]; decide)]

/-- A page that is mapped has been served. -/
theorem MapFresh.reaches (h : MapFresh s d v perm none s') (vs : List Nat) :
  s.Reaches d (v :: vs) v
  := by
  refine ⟨0, rfl, ?_⟩
  rw [List.take_succ_cons, List.take_zero]
  cases h with
  | mapped hfree htable =>
      rw [asks_of_table hv htable, hfree]
      simp [asks, requests]
  | mappedNew hfree htable =>
      rw [asks_of_no_table hv htable, hfree]
      simp [requests]

/-- What is asked for after a page has been mapped. -/
theorem MapFresh.asks_cons (h : MapFresh s d v perm none s') (hr : RangeWf s.gPaddrAlloc)
    (hn : Nodes lo s.mem live s.free) (hd : d ∈ live) (hlo : lo ≤ v / 1024) (hperm : perm < 4096)
    (vs : List Nat) :
  (s.asks 0 d (v :: vs)).length + s'.free.length = (s'.asks 0 d vs).length + s.free.length
  := by
  obtain ⟨f, t, hmaps⟩ := h.mapsTo hr hn hd hlo hv hperm
  have htable' (i : Nat) : ((s'.space 0 d).table i).isSome
      = (decide (i = v / 1024) || ((s.space 0 d).table i).isSome) := by
    rw [Kernel.space, Kernel.space]
    dsimp only
    split_ifs with hi
    · rw [hmaps.sets.table d hd i hi.2]
      by_cases heq : i = v / 1024
      · simp [heq]
      · simp [heq]
    · have hne : i ≠ v / 1024 := by omega
      simp [hne]
  cases h with
  | mapped hfree htable =>
      have hsame (i : Nat) : (decide (i = v / 1024) || ((s.space 0 d).table i).isSome)
          = ((s.space 0 d).table i).isSome := by
        by_cases heq : i = v / 1024
        · rw [heq, space_table (Nat.zero_le _) (by omega), htable]
          simp
        · simp [heq]
      rw [asks_of_table hv htable, asks, asks, funext htable', funext hsame, setMem_free,
        free_take hr hfree, hfree, List.length_cons, List.length_cons]
      omega
  | mappedNew hfree htable =>
      rw [asks_of_no_table hv htable, asks, funext htable', setMem_free,
        free_take (rangeWf_take hr) (free_take hr hfree), hfree]
      simp only [List.length_cons]
      omega

/-- The pages that are served after a page has been mapped were to be served before. -/
theorem Reaches.cons {w : Nat} {vs : List Nat} (hw : s'.Reaches d vs w)
    (h : MapFresh s d v perm none s') (hr : RangeWf s.gPaddrAlloc)
    (hn : Nodes lo s.mem live s.free) (hd : d ∈ live) (hlo : lo ≤ v / 1024)
    (hperm : perm < 4096) :
  s.Reaches d (v :: vs) w
  := by
  obtain ⟨i, hi, hserved⟩ := hw
  have hcount := h.asks_cons hv hr hn hd hlo hperm (vs.take (i + 1))
  refine ⟨i + 1, hi, ?_⟩
  rw [List.take_succ_cons]
  omega

end Reaching

section Alloc

variable {lo : Nat} {live : Set Nat} {s : Kernel} {d perm : Nat}

/-- The passes of the loop build the pages they visit, where those that get their frames lie from
`lo` on. -/
theorem allocPasses (hr : RangeWf s.gPaddrAlloc) (hn : Nodes lo s.mem live s.free) (hd : d ∈ live)
    (hperm : perm < 4096) (base : Nat) {n i cv : Nat} (hcv : cv < 2 ^ 32)
    (hlo : ∀ v, s.Reaches d (pagesFrom cv n) v → lo ≤ v / 1024) :
  ∃ r s', Built lo live s s' d (mapsWith perm (pagesFrom cv n)) r ∧ Untouched lo s s' d ∧
    match r with
    | none => ∃ cv',
        forLoop (memoryAllocForPageDir.pass d base perm) i n (cv, s) = .ok (cv', s')
    | some .page =>
        forLoop (memoryAllocForPageDir.pass d base perm) i n (cv, s) = .error (0, s')
    | some .table => ∃ k,
        forLoop (memoryAllocForPageDir.pass d base perm) i n (cv, s)
          = .error (errorWord, s'.addrFreePage base k)
  := by
  induction n generalizing i cv s with
  | zero => exact ⟨none, s, Built.refl hn d, fun _ _ _ _ _ _ _ => rfl, cv, rfl⟩
  | succ n ih =>
      have hpage : cv / 4096 < 2 ^ 20 := by omega
      have hstep := mapFresh_cases d cv perm hr (by
        intro hfree t ht
        have hfirst : lo ≤ cv / 4096 / 1024 := by
          apply hlo
          refine ⟨0, rfl, ?_⟩
          rw [pagesFrom, List.take_succ_cons, List.take_zero, asks_of_table hpage ht]
          apply List.length_pos_of_ne_nil hfree
        apply hn.ne_zero (p := .table d (cv / 4096 / 1024))
        exact ⟨hd, hfirst, by omega, ht⟩)
      have hpass := pass_eq d base perm i cv s
      rcases hres : s.mapFresh d cv perm with ⟨_ | q, s₁⟩
      · rw [hres] at hpass hstep
        have hfirst := hlo _ (hstep.reaches hpage _)
        have hbuilt := Built.of_mapFresh hstep hr hn hd hfirst hpage hperm
        have huntouched := hstep.untouched hr hn hd hfirst hpage
        obtain ⟨r, s', hrest, huntouched', hend⟩ := ih (i := i + 1) (hr.sameRange hbuilt.range) hbuilt.nodes
          (u32_lt (cv + memPageSize))
          (fun v hv => hlo v (hv.cons hpage hstep hr hn hd hfirst hperm))
        use r, s', hbuilt.trans hrest, huntouched.trans huntouched' hrest
        simp only [forLoop, hpass]
        apply hend
      · rw [hres] at hpass hstep
        have hbuilt := Built.of_failed hstep hr hn (d := d)
        have huntouched : Untouched lo s s₁ d := by
          intro g _ _ _
          rw [hstep.mem_of_failed]
          exact fun _ _ _ => rfl
        use some q, s₁, hbuilt.append_of_failed (mapsWith perm (pagesFrom (u32 (cv + memPageSize)) n)),
          huntouched
        cases q with
        | page => simp only [forLoop, hpass]
        | table =>
            use i + 1
            simp only [forLoop, hpass]

/-! ### The memory of a table -/

/-- The memory with entries for frames in the table `t`, from page `v` on. -/
def linkPages (m : Memory) (perm t v : Nat) : List Nat → Memory
  | [] => m
  | f :: fs => linkPages (store32 m (t + 4 * (v % 1024)) (mapWord perm f)) perm t (v + 1) fs

/-- The memory that a loop over pages ends with. -/
def loopMem : Except (Nat × Kernel) (Nat × Kernel) → Memory
  | .ok (_, s) => s.mem
  | .error (_, s) => s.mem

theorem memoryAllocForPageDir_mem (s : Kernel) (d vaddr size perm : Nat) :
  (s.memoryAllocForPageDir d vaddr size perm).2.mem
    = loopMem (forLoop (memoryAllocForPageDir.pass d (down2 vaddr memPageSize) perm) 0
      (up2 size memPageSize / memPageSize) (vaddr, s))
  := by
  rw [memoryAllocForPageDir]
  rcases forLoop (memoryAllocForPageDir.pass d (down2 vaddr memPageSize) perm) 0
    (up2 size memPageSize / memPageSize) (vaddr, s) with ⟨r, s'⟩ | ⟨cv, s'⟩ <;> rfl

theorem loopMem_allocPasses_full (d perm base : Nat) {n i cv : Nat} (hfree : s.free = []) :
  loopMem (forLoop (memoryAllocForPageDir.pass d base perm) i n (cv, s)) = s.mem
  := by
  cases n with
  | zero => rfl
  | succ n =>
      rw [forLoop, memoryAllocForPageDir.pass, addrAllocPage_of_full hfree]
      rfl

/-- The passes over pages of a table that is there link the free frames one after the other. -/
theorem loopMem_allocPasses (hr : RangeWf s.gPaddrAlloc) (hn : Nodes lo s.mem live s.free)
    (hd : d ∈ live) (base : Nat) {j t n i cv : Nat} (hj : lo ≤ j)
    (hcv : cv + n * 4096 ≤ 2 ^ 32) (hpages : ∀ k < n, (cv / 4096 + k) / 1024 = j)
    (ht : tableAt s.mem d j = some t) :
  loopMem (forLoop (memoryAllocForPageDir.pass d base perm) i n (cv, s))
    = linkPages s.mem perm t (cv / 4096) (s.free.take n)
  := by
  induction n generalizing i cv s with
  | zero =>
      rw [List.take_zero]
      rfl
  | succ n ih =>
      have hfirst := hpages 0 (by omega)
      rw [Nat.add_zero] at hfirst
      have hlo : lo ≤ cv / 4096 / 1024 := by omega
      have hpage : cv / 4096 < 2 ^ 20 := by omega
      have hstep := mapFresh_cases d cv perm hr (by
        intro _ t' ht'
        apply hn.ne_zero (p := .table d (cv / 4096 / 1024))
        exact ⟨hd, hlo, by omega, ht'⟩)
      rw [forLoop, pass_eq]
      rcases hres : s.mapFresh d cv perm with ⟨r, s₁⟩
      rw [hres] at hstep
      dsimp only at hstep
      have hnodes := hstep.nodes hr hn hd hlo hpage
      have hrange := hr.sameRange hstep.same_rest.2.2
      cases hstep with
      | noPage hfree =>
          rw [hfree]
          rfl
      | noTable hfree hnone =>
          rw [hfirst, ht] at hnone
          cases hnone
      | mappedNew hfree hnone =>
          rw [hfirst, ht] at hnone
          cases hnone
      | @mapped f t' rest hfree htable =>
          rw [hfirst, ht, Option.some.injEq] at htable
          subst htable
          have hnext : u32 (cv + memPageSize) / 4096 = cv / 4096 + 1 ∨ n = 0 := by
            unfold u32 memPageSize
            omega
          have htable' : tableAt (store32 s.mem (t + 4 * (cv / 4096 % 1024)) (mapWord perm f)) d j
              = some t := by
            rw [hn.distinct.tableAt_storePte hd hlo hpage (by rw [hfirst, ht]) hd (by omega), ht]
          dsimp only
          rcases hnext with hnext | rfl
          · rw [ih hrange hnodes (by unfold u32 memPageSize; omega)
              (by intro k hk; rw [hnext, Nat.add_assoc, Nat.add_comm 1]; apply hpages; omega)
              htable', hnext, setMem_free, free_take hr hfree, hfree]
            rfl
          · rw [hfree]
            rfl

/-- The first of the pages gets its frame before their table does. -/
theorem loopMem_allocPasses_new (hr : RangeWf s.gPaddrAlloc) (hn : Nodes lo s.mem live s.free)
    (hd : d ∈ live) (hperm : perm < 4096) (base : Nat) {j t f n i cv : Nat} {rest : List Nat}
    (hj : lo ≤ j) (hcv : cv + (n + 1) * 4096 ≤ 2 ^ 32)
    (hpages : ∀ k < n + 1, (cv / 4096 + k) / 1024 = j) (ht : tableAt s.mem d j = none)
    (hfree : s.free = f :: t :: rest) :
  loopMem (forLoop (memoryAllocForPageDir.pass d base perm) i (n + 1) (cv, s))
    = linkPages (Nodes.install s.mem d j t) perm t (cv / 4096) (f :: rest.take n)
  := by
  have hfirst := hpages 0 (by omega)
  rw [Nat.add_zero] at hfirst
  have hlo : lo ≤ cv / 4096 / 1024 := by omega
  have hpage : cv / 4096 < 2 ^ 20 := by omega
  have hi : j < 1024 := by omega
  have hstep := mapFresh_cases d cv perm hr (by
    intro _ t' ht'
    rw [hfirst, ht] at ht'
    cases ht')
  rw [forLoop, pass_eq]
  rcases hres : s.mapFresh d cv perm with ⟨r, s₁⟩
  rw [hres] at hstep
  dsimp only at hstep
  have hnodes := hstep.nodes hr hn hd hlo hpage
  have hrange := hr.sameRange hstep.same_rest.2.2
  cases hstep with
  | noPage hnone =>
      rw [hnone] at hfree
      cases hfree
  | noTable hone hnone =>
      rw [hone] at hfree
      cases hfree
  | mapped hfree' htable =>
      rw [hfirst, ht] at htable
      cases htable
  | @mappedNew f' t' rest' hfree' hnone =>
      rw [hfree', List.cons.injEq, List.cons.injEq] at hfree
      obtain ⟨rfl, rfl, rfl⟩ := hfree
      have hf : f' ∈ s.free := by
        rw [hfree']
        apply List.mem_cons_self
      have ht' : t' ∈ s.free := by
        rw [hfree']
        simp
      have hbounds := hr.free_bounds hf
      have hbounds' := hr.free_bounds ht'
      unfold memoryTaskBase at hbounds hbounds'
      have hsets := setsEntry_install hn.distinct hd hlo hpage hnone hbounds'.1 (by omega) ht'
        (mapWord_lt hbounds.1 hperm (by omega))
      have htable := hsets.table d hd j hi
      rw [hfirst, if_pos ⟨rfl, rfl⟩] at htable
      have hnext : u32 (cv + memPageSize) / 4096 = cv / 4096 + 1 ∨ n = 0 := by
        unfold u32 memPageSize
        omega
      dsimp only
      rw [hfirst]
      rw [hfirst] at hrange hnodes
      rcases hnext with hnext | rfl
      · rw [loopMem_allocPasses hrange hnodes hd base hj (by unfold u32 memPageSize; omega)
          (by intro k hk; rw [hnext, Nat.add_assoc, Nat.add_comm 1]; apply hpages; omega) htable,
          hnext, setMem_free, free_take (rangeWf_take hr) (free_take hr hfree')]
        rfl
      · rfl

/-- Freeing a user address does nothing: it lies outside the range of the allocator. -/
theorem addrFreePage_of_user (addr : Nat) (hr : RangeWf s.gPaddrAlloc)
    (haddr : memoryTaskBase ≤ addr) (hlt : addr < 2 ^ 32) (k : Nat) :
  s.addrFreePage addr k = s
  := by
  have hend := hr.bitCount_mul_le
  have hindex : s.gPaddrAlloc.bitmap.bitCount
      ≤ u32Sub addr s.gPaddrAlloc.start / s.gPaddrAlloc.pageSize := by
    have hstart : memExtStart ≤ addr := le_trans (by decide) haddr
    rw [hr.start, hr.pageSize, u32Sub_of_le hstart hlt]
    unfold memExtStart memoryTaskBase memPageSize at *
    omega
  rw [addrFreePage_eq, addrFreePage_of_outside hindex, setAlloc]

/-- A run maps the pages of the range, up to the failed request `r`, and leaves the frames that
it hands out to pages as they are. -/
theorem memoryAllocForPageDir_run (lo : Nat) (hr : RangeWf s.gPaddrAlloc)
    (hn : Nodes lo s.mem live s.free) (hd : d ∈ live) (hperm : perm < 4096) {vaddr size : Nat}
    (hbase : memoryTaskBase ≤ vaddr) (hlt : vaddr < 2 ^ 32)
    (hlo : ∀ v, s.Reaches d (allocPages vaddr size) v → lo ≤ v / 1024) :
  ∃ r s', Built lo live s s' d (mapsWith perm (allocPages vaddr size)) r ∧ Untouched lo s s' d ∧
    s.memoryAllocForPageDir d vaddr size perm
      = (if r = some .table then errorWord else 0, s')
  := by
  obtain ⟨r, s', hbuilt, huntouched, hend⟩ := allocPasses (i := 0)
    (n := up2 size memPageSize / memPageSize) hr hn hd hperm (down2 vaddr memPageSize) hlt hlo
  use r, s', hbuilt, huntouched
  rcases r with _ | q
  · obtain ⟨cv', hloop⟩ := hend
    simp only [memoryAllocForPageDir, hloop]
    rfl
  · cases q with
    | page =>
        simp only [memoryAllocForPageDir, hend]
        rfl
    | table =>
        obtain ⟨k, hloop⟩ := hend
        have hdown := down2_page hlt
        unfold memoryTaskBase at hbase
        have huser := addrFreePage_of_user (down2 vaddr memPageSize) (hr.sameRange hbuilt.range)
          (by rw [hdown]; unfold memoryTaskBase; omega) (by rw [hdown]; omega) k
        simp only [memoryAllocForPageDir, hloop, huser]
        rfl

theorem memoryAllocForPageDir_spec (lo : Nat) (hr : RangeWf s.gPaddrAlloc)
    (hn : Nodes lo s.mem live s.free) (hd : d ∈ live) (hperm : perm < 4096) {vaddr size : Nat}
    (hbase : memoryTaskBase ≤ vaddr) (hlt : vaddr < 2 ^ 32)
    (hlo : ∀ v ∈ allocPages vaddr size, lo ≤ v / 1024) :
  ∃ r s', Built lo live s s' d (mapsWith perm (allocPages vaddr size)) r ∧
    s.memoryAllocForPageDir d vaddr size perm
      = (if r = some .table then errorWord else 0, s')
  := by
  obtain ⟨r, s', hbuilt, -, hresult⟩ := memoryAllocForPageDir_run lo hr hn hd hperm hbase hlt
    (fun v hv => hlo v hv.mem)
  exact ⟨r, s', hbuilt, hresult⟩

end Alloc

/-! ### What a returned `0` is worth -/

/-- The bytes from `vaddr` on have been mapped in `d`, to frames that were free, one for
each page, with the permissions `perm`. -/
structure Delivered (s s' : Kernel) (d vaddr size perm : Nat) : Prop where
  present : ∀ b, vaddr ≤ b → b < vaddr + size → Present (pteAt s'.mem d (b / 4096))
  fresh : ∀ b, vaddr ≤ b → b < vaddr + size → ptePaddr (pteAt s'.mem d (b / 4096)) ∈ s.free
  flags : ∀ b, vaddr ≤ b → b < vaddr + size → pteAt s'.mem d (b / 4096) % 4096 = perm ||| pteP
  distinct : ∀ b b', vaddr ≤ b → b < vaddr + size → vaddr ≤ b' → b' < vaddr + size →
    ptePaddr (pteAt s'.mem d (b / 4096)) = ptePaddr (pteAt s'.mem d (b' / 4096)) →
    b / 4096 = b' / 4096

section Range

variable {vaddr size : Nat} (hbase : memoryTaskBase ≤ vaddr) (hend : vaddr + size ≤ 2 ^ 32)

include hbase hend

/-- A user range has no more pages than are counted by its size. -/
theorem allocPages_count :
  up2 size memPageSize / memPageSize = (size + 4095) / 4096
  := by
  unfold memoryTaskBase at hbase
  rw [up2_page (by omega)]
  unfold memPageSize
  omega

theorem mem_allocPages (hlt : vaddr < 2 ^ 32) {v : Nat} :
  v ∈ allocPages vaddr size ↔ vaddr / 4096 ≤ v ∧ v < vaddr / 4096 + (size + 4095) / 4096
  := by
  rw [allocPages, allocPages_count hbase hend, mem_pagesFrom hlt]
  constructor
  · rintro ⟨k, hk, rfl⟩
    omega
  · intro hv
    use v - vaddr / 4096
    omega

theorem nodup_allocPages (hlt : vaddr < 2 ^ 32) :
  (allocPages vaddr size).Nodup
  := by
  unfold memoryTaskBase at hbase
  rw [allocPages, allocPages_count hbase hend]
  apply nodup_pagesFrom hlt
  omega

theorem allocPages_user (hlt : vaddr < 2 ^ 32) {v : Nat} (hv : v ∈ allocPages vaddr size) :
  512 ≤ v / 1024 ∧ v < 2 ^ 20
  := by
  rw [mem_allocPages hbase hend hlt] at hv
  unfold memoryTaskBase at hbase
  omega

theorem up2_eq :
  up2 size memPageSize = 4096 * ((size + 4095) / 4096)
  := by
  unfold memoryTaskBase at hbase
  rw [up2_page (by omega)]
  omega

end Range

section Delivery

variable {s s' : Kernel} {live : Set Nat} {d vaddr size perm : Nat}

/-- A page of the range whose entry is as before speaks against delivery: a present user
page has a frame that is not free. -/
theorem Delivered.changed (h : Delivered s s' d vaddr size perm) (hf : Frames s live) (hd : d ∈ live)
    {b : Nat} (hb : vaddr ≤ b) (hb' : b < vaddr + size) (hlo : 512 ≤ b / 4096 / 1024)
    (hlt : b / 4096 < 2 ^ 20) :
  pteAt s'.mem d (b / 4096) ≠ pteAt s.mem d (b / 4096)
  := by
  intro heq
  have hpresent := h.present b hb hb'
  have hfresh := h.fresh b hb hb'
  rw [heq] at hpresent hfresh
  apply (hf.marked_page hd hlo hlt hpresent).not_free hf.range hfresh

/-- When all pages have been mapped and they cover the range, it is delivered. -/
theorem Built.delivered (hb : Built 512 live s s' d (mapsWith perm (allocPages vaddr size)) none)
    (hf : Frames s live) (hperm : perm < 4096) (hbase : memoryTaskBase ≤ vaddr)
    (hlt : vaddr < 2 ^ 32) (hend : vaddr + size ≤ 2 ^ 32)
    (hcover : size = 0 ∨ vaddr % 4096 + size ≤ up2 size memPageSize) :
  Delivered s s' d vaddr size perm
  := by
  have hkeys : ((mapsWith perm (allocPages vaddr size)).map Prod.fst).Nodup := by
    rw [mapsWith_fst]
    apply nodup_allocPages hbase hend hlt
  obtain ⟨frame, hframe, hinj⟩ :=
    Space.mapAll_entry_of_mapped (free_nodup hf.range) hkeys hb.space
  rw [mapsWith_fst] at hinj
  rw [up2_eq hbase hend] at hcover
  have hpage : ∀ b, vaddr ≤ b → b < vaddr + size → b / 4096 ∈ allocPages vaddr size := by
    intro b hb hb'
    rw [mem_allocPages hbase hend hlt]
    omega
  have hentry : ∀ b, vaddr ≤ b → b < vaddr + size →
      frame (b / 4096) ∈ s.free ∧ pteAt s'.mem d (b / 4096) = mapWord perm (frame (b / 4096)) := by
    intro b hb₁ hb₂
    have hmem := hpage b hb₁ hb₂
    obtain ⟨hlo, hv⟩ := allocPages_user hbase hend hlt hmem
    have hword := hframe (b / 4096) (mapWord perm)
      (List.mem_map_of_mem (f := fun v => (v, mapWord perm)) hmem)
    rw [space_entry hlo hv] at hword
    apply hword
  have hbounds := fun b hb₁ hb₂ => hf.range.free_bounds (hentry b hb₁ hb₂).1
  constructor
  · intro b hb₁ hb₂
    rw [(hentry b hb₁ hb₂).2]
    apply mapWord_present (hbounds b hb₁ hb₂).1 hperm
  · intro b hb₁ hb₂
    rw [(hentry b hb₁ hb₂).2, ptePaddr_mapWord (hbounds b hb₁ hb₂).1 hperm]
    apply (hentry b hb₁ hb₂).1
  · intro b hb₁ hb₂
    rw [(hentry b hb₁ hb₂).2]
    apply mapWord_flags (hbounds b hb₁ hb₂).1 hperm
  · intro b b' hb₁ hb₂ hb₁' hb₂' heq
    rw [(hentry b hb₁ hb₂).2, (hentry b' hb₁' hb₂').2,
      ptePaddr_mapWord (hbounds b hb₁ hb₂).1 hperm,
      ptePaddr_mapWord (hbounds b' hb₁' hb₂').1 hperm] at heq
    apply hinj _ (hpage b hb₁ hb₂) _ (hpage b' hb₁' hb₂') heq

/-- A returned `0` means that the range is delivered exactly when no page is asked for
beyond the end of the free list, and, if all requests are served, the range does not end
in a page beyond the ones counted by its size. -/
theorem memoryAllocForPageDir_delivers_iff (hf : Frames s live) (hd : d ∈ live)
    (hperm : perm < 4096) (hbase : memoryTaskBase ≤ vaddr) (hlt : vaddr < 2 ^ 32)
    (hend : vaddr + size ≤ 2 ^ 32) :
  ((s.memoryAllocForPageDir d vaddr size perm).1 = 0 →
      Delivered s (s.memoryAllocForPageDir d vaddr size perm).2 d vaddr size perm)
    ↔ (s.asks 512 d (allocPages vaddr size))[s.free.length]? ≠ some .page ∧
      ((s.asks 512 d (allocPages vaddr size))[s.free.length]? = none →
        size = 0 ∨ vaddr % 4096 + size ≤ up2 size memPageSize)
  := by
  obtain ⟨r, s', hbuilt, hresult⟩ := memoryAllocForPageDir_spec 512 hf.range hf.nodes hd hperm
    hbase hlt (fun v hv => (allocPages_user hbase hend hlt hv).1)
  have hmem := fun v => mem_allocPages hbase hend hlt (v := v)
  rw [hresult, ← hbuilt.failed_eq]
  unfold memoryTaskBase at hbase
  rcases r with _ | q
  · simp only [reduceCtorEq, if_false, ne_eq, not_false_eq_true, forall_const, true_and]
    constructor
    · intro hdelivered
      by_contra! hshort
      obtain ⟨hpos, hshort⟩ := hshort
      rw [up2_eq hbase hend] at hshort
      -- the first page after the ones mapped
      have hpage : (vaddr / 4096 + (size + 4095) / 4096) * 4096 / 4096
          = vaddr / 4096 + (size + 4095) / 4096 := Nat.mul_div_cancel _ (by decide)
      apply hdelivered.changed hf hd
        (b := (vaddr / 4096 + (size + 4095) / 4096) * 4096) (by omega) (by omega)
        (by omega) (by omega)
      rw [hpage, hbuilt.pteAt_eq (by omega) (by omega), Space.mapAll_entry_of_not_mem,
        space_entry (by omega) (by omega)]
      rw [mapsWith_fst, hmem]
      omega
    · apply hbuilt.delivered hf hperm hbase hlt hend
  · cases q with
    | table => simp
    | page =>
        simp only [Option.some.injEq, reduceCtorEq, if_false, ne_eq, not_true_eq_false,
          forall_const, false_and, iff_false]
        intro hdelivered
        have hkeys := nodup_allocPages hbase hend hlt
        rw [← mapsWith_fst perm (allocPages vaddr size)] at hkeys
        obtain ⟨v, hv, hsame⟩ := Space.mapAll_entry_of_failed hkeys hbuilt.space
        rw [mapsWith_fst] at hv
        obtain ⟨hlo, hv'⟩ := allocPages_user hbase hend hlt hv
        rw [space_entry hlo hv', space_entry hlo hv'] at hsame
        rw [hmem] at hv
        have hpage : max vaddr (v * 4096) / 4096 = v := by omega
        apply hdelivered.changed hf hd (b := max vaddr (v * 4096)) (by omega) (by omega)
          (by omega) (by omega)
        rw [hpage, hsame]

/-- The directory of `bootDir` has no table for the first user page. -/
theorem bootDir_asks {pages : Nat} (hpos : 0 < pages) (h : pages ≤ 1000) :
  (bootDir pages).asks 512 (1024 * 1024) (allocPages 0x80000000 4096) = [.page, .table]
  := by
  have hnone : ((bootDir pages).space 512 (1024 * 1024)).table 512 = none := by
    rw [space_table (by decide) (by decide)]
    apply (bootDir_created hpos h).2.tableAt (by decide) (by decide)
  have hpages : allocPages 0x80000000 4096 = [0x80000] := by decide
  rw [hpages, asks, requests, show tableIndex 0x80000 = 512 from rfl, hnone]
  rfl

/-- A page at the start of the user range, on a machine with frames to spare. -/
theorem memoryAllocForPageDir_delivers_iff_bootDir :
  ((bootDir 9).memoryAllocForPageDir (1024 * 1024) 0x80000000 4096 7).1 = 0 ∧
    Delivered (bootDir 9)
      ((bootDir 9).memoryAllocForPageDir (1024 * 1024) 0x80000000 4096 7).2
      (1024 * 1024) 0x80000000 4096 7
  := by
  have hf : Frames (bootDir 9) {1024 * 1024} := bootDir_frames (by decide) (by decide)
  have hnone : ((bootDir 9).asks 512 (1024 * 1024) (allocPages 0x80000000 4096))[
      (bootDir 9).free.length]? = none := by
    rw [bootDir_asks (by decide) (by decide), bootDir_free (by decide) (by decide), List.length_map,
      List.length_range]
    rfl
  have hzero : ((bootDir 9).memoryAllocForPageDir (1024 * 1024) 0x80000000 4096 7).1 = 0 := by
    obtain ⟨r, s', hb, hresult⟩ := memoryAllocForPageDir_spec (d := 1024 * 1024) 512 hf.range hf.nodes
      rfl (show 7 < 4096 by decide) (show memoryTaskBase ≤ 0x80000000 by decide) (by decide)
      (show ∀ v ∈ allocPages 0x80000000 4096, 512 ≤ v / 1024 by decide)
    rw [hresult, hb.failed_eq, hnone]
    rfl
  use hzero
  apply (memoryAllocForPageDir_delivers_iff hf rfl (by decide) (by decide) (by decide)
    (by decide)).mpr _ hzero
  rw [hnone]
  decide

/-- Without a free frame nothing is mapped, and `0` is returned all the same. -/
theorem memoryAllocForPageDir_out_of_frames :
  Frames (bootDir 1) {1024 * 1024} ∧
    ((bootDir 1).memoryAllocForPageDir (1024 * 1024) 0x80000000 4096 7).1 = 0 ∧
    ¬ Delivered (bootDir 1)
      ((bootDir 1).memoryAllocForPageDir (1024 * 1024) 0x80000000 4096 7).2
      (1024 * 1024) 0x80000000 4096 7
  := by
  have hfree : (bootDir 1).free = [] := bootDir_free (by decide) (by decide)
  have hcount : up2 4096 memPageSize / memPageSize = 1 := by decide
  have hresult : (bootDir 1).memoryAllocForPageDir (1024 * 1024) 0x80000000 4096 7
      = (0, bootDir 1) := by
    rw [memoryAllocForPageDir, hcount]
    simp only [forLoop]
    rw [memoryAllocForPageDir.pass, addrAllocPage_of_full hfree]
    rfl
  use bootDir_frames (by decide) (by decide)
  rw [hresult]
  use rfl
  intro hdelivered
  have hpresent := hdelivered.present 0x80000000 (by decide) (by decide)
  rw [(bootDir_created (by decide) (by decide)).2.pteAt (by decide) (by decide)] at hpresent
  cases hpresent

end Delivery

end Kernel

end Dmos
