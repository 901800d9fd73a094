import Dmos.Kernel.Mem
import Dmos.Library.Ownership
import Mathlib.Data.Set.Basic

/-!
# Page directories as seen through memory

`tableAt m d i` is the page table that entry `i` of the directory at `d` points to, and
`pteAt m d v` the page table entry of virtual page `v`, an absent table counting as an
absent entry.  Both are determined by the frame of the directory and the frame of the
table.

A set of directories has exclusive nodes when the directories and their page tables
occupy distinct frames, none of them free (`Nodes`).  Under exclusive nodes a write to
one entry changes that entry and no other, in any of the directories.
-/

open ByteMemory

namespace Dmos

/-- The page table in entry `i` of the directory at `d`. -/
def tableAt (m : Memory) (d i : Nat) : Option Nat :=
  let pde := load32 m (d + 4 * i)
  if Present pde then some (pdePaddr pde) else none

/-- The page table entry of virtual page `v` in the directory at `d`. -/
def pteAt (m : Memory) (d v : Nat) : Nat :=
  match tableAt m d (v / 1024) with
  | none => 0
  | some t => load32 m (t + 4 * (v % 1024))

/-- The two memories agree on the frame at `f`. -/
def SameFrame (m m' : Memory) (f : Nat) : Prop :=
  ∀ x, f ≤ x → x < f + 4096 → m' x = m x

/-! ### What the entries depend on -/

theorem SameFrame.load32 {m m' : Memory} {f k : Nat} (h : SameFrame m m' f) (hk : k < 1024) :
  load32 m' (f + 4 * k) = load32 m (f + 4 * k)
  := by
  apply load32_congr
  intro x hx hx'
  apply h <;> omega

theorem SameFrame.trans {m m' m'' : Memory} {f : Nat} (h : SameFrame m m' f)
    (h' : SameFrame m' m'' f) :
  SameFrame m m'' f
  := by
  intro x hx hx'
  rw [h' x hx hx', h x hx hx']

/-- The tables of a directory depend on its frame only. -/
theorem tableAt_congr {m m' : Memory} {d i : Nat} (h : SameFrame m m' d) (hi : i < 1024) :
  tableAt m' d i = tableAt m d i
  := by
  unfold tableAt
  rw [h.load32 hi]

/-- The entry of a page depends on the frames of the directory and of the table. -/
theorem pteAt_congr {m m' : Memory} {d v : Nat} (hd : SameFrame m m' d) (hv : v < 2 ^ 20)
    (ht : ∀ t, tableAt m d (v / 1024) = some t → SameFrame m m' t) :
  pteAt m' d v = pteAt m d v
  := by
  unfold pteAt
  rw [tableAt_congr hd (by omega)]
  rcases htable : tableAt m d (v / 1024) with _ | t
  · rfl
  · apply (ht t htable).load32
    omega

theorem pteAt_of_table {m : Memory} {d v t : Nat} (h : tableAt m d (v / 1024) = some t) :
  pteAt m d v = load32 m (t + 4 * (v % 1024))
  := by
  rw [pteAt, h]

theorem pteAt_of_no_table {m : Memory} {d v : Nat} (h : tableAt m d (v / 1024) = none) :
  pteAt m d v = 0
  := by
  rw [pteAt, h]

theorem tableAt_aligned {m : Memory} {d i t : Nat} (h : tableAt m d i = some t) :
  t % 4096 = 0
  := by
  simp only [tableAt] at h
  split at h
  · cases h
    rw [pdePaddr_eq]
    omega
  · cases h

/-- A word stored in one frame leaves the others as they are. -/
theorem sameFrame_store32 (m : Memory) {f g k : Nat} (w : Nat) (hf : f % 4096 = 0)
    (hg : g % 4096 = 0) (hk : k < 1024) (hne : f ≠ g) :
  SameFrame m (store32 m (g + 4 * k) w) f
  := by
  intro x hx hx'
  apply store32_of_disjoint
  omega

/-- Filling one frame leaves the others as they are. -/
theorem sameFrame_fill (m : Memory) {f g : Nat} (b : UInt8) (hf : f % 4096 = 0)
    (hg : g % 4096 = 0) (hne : f ≠ g) :
  SameFrame m (fill m g b 4096) f
  := by
  intro x hx hx'
  apply fill_of_disjoint
  omega

/-! ### Places and what they own -/

/-- Where a frame can be used: as a directory, as a table of a directory, or behind a
page of a directory. -/
inductive Place where
  | dir (d : Nat)
  | table (d i : Nat)
  | page (d v : Nat)

/-- The frames of the directories in `live` and of their tables from index `lo` on. -/
def OwnsNode (lo : Nat) (m : Memory) (live : Set Nat) : Place → Nat → Prop
  | .dir d, f => d ∈ live ∧ f = d
  | .table d i, f => d ∈ live ∧ lo ≤ i ∧ i < 1024 ∧ tableAt m d i = some f
  | .page _ _, _ => False

/-- The frames of the directories in `live`, of their tables from index `lo` on, and of
the pages present in these tables. -/
def Owns (lo : Nat) (m : Memory) (live : Set Nat) : Place → Nat → Prop
  | .page d v, f =>
      d ∈ live ∧ lo ≤ v / 1024 ∧ v < 2 ^ 20 ∧ Present (pteAt m d v) ∧ ptePaddr (pteAt m d v) = f
  | p, f => OwnsNode lo m live p f

theorem OwnsNode.owns {lo : Nat} {m : Memory} {live : Set Nat} {p : Place} {f : Nat}
    (h : OwnsNode lo m live p f) :
  Owns lo m live p f
  := by
  cases p with
  | dir d => apply h
  | table d i => apply h
  | page d v => cases h

/-- The nodes depend on the tables only. -/
theorem OwnsNode.of_tables {lo : Nat} {m m' : Memory} {live : Set Nat} {p : Place} {f : Nat}
    (htable : ∀ d ∈ live, ∀ i < 1024, tableAt m' d i = tableAt m d i)
    (hp : OwnsNode lo m' live p f) :
  OwnsNode lo m live p f
  := by
  cases p with
  | dir d => apply hp
  | table d i =>
      obtain ⟨hd, hi, hi', ht⟩ := hp
      rw [htable d hd i hi'] at ht
      use hd, hi, hi'
  | page d v => apply hp

/-- What is owned depends on the tables and their entries only. -/
theorem Owns.of_entries {lo : Nat} {m m' : Memory} {live : Set Nat} {p : Place} {f : Nat}
    (htable : ∀ d ∈ live, ∀ i < 1024, tableAt m' d i = tableAt m d i)
    (hentry : ∀ d ∈ live, ∀ v, lo ≤ v / 1024 → v < 2 ^ 20 → pteAt m' d v = pteAt m d v)
    (hp : Owns lo m' live p f) :
  Owns lo m live p f
  := by
  cases p with
  | dir d => apply hp
  | table d i =>
      obtain ⟨hd, hi, hi', ht⟩ := hp
      rw [htable d hd i hi'] at ht
      exact ⟨hd, hi, hi', ht⟩
  | page d v =>
      obtain ⟨hd, hv, hv', hp⟩ := hp
      rw [hentry d hd v hv hv'] at hp
      exact ⟨hd, hv, hv', hp⟩

/-- The directories of `live` and their tables from index `lo` on occupy distinct frames,
none of them free. -/
structure DistinctNodes (lo : Nat) (m : Memory) (live : Set Nat) (free : List Nat) : Prop where
  exclusive : Exclusive (OwnsNode lo m live) (fun f => f ∉ free)
  aligned : ∀ d ∈ live, d % 4096 = 0

/-- The directories of `live` and their tables from index `lo` on occupy distinct frames,
none of them free or at address `0`. -/
structure Nodes (lo : Nat) (m : Memory) (live : Set Nat) (free : List Nat) : Prop where
  exclusive : Exclusive (OwnsNode lo m live) (fun f => f ∉ free)
  aligned : ∀ d ∈ live, d % 4096 = 0
  ne_zero : ∀ {p f}, OwnsNode lo m live p f → f ≠ 0

theorem Nodes.distinct {lo : Nat} {m : Memory} {live : Set Nat} {free : List Nat}
    (h : Nodes lo m live free) :
  DistinctNodes lo m live free
  where
  exclusive := h.exclusive
  aligned := h.aligned

/-! ### Installing a page table -/

namespace Nodes

variable {m : Memory} {d t : Nat}

/-- The directory entry of a new page table. -/
theorem pdeWord (ht : t % 4096 = 0) :
  t ||| pdeP ||| pdeW ||| pdeU = t + 7
  := by
  rw [Nat.or_assoc, Nat.or_assoc]
  apply or_flags ht
  decide

/-- The memory after `findPte` has installed the table `t` in entry `i` of `d`. -/
def install (m : Memory) (d i t : Nat) : Memory :=
  fill (store32 m (d + 4 * i) (t ||| pdeP ||| pdeW ||| pdeU)) t 0 4096

theorem sameFrame_install {f i : Nat} (hf : f % 4096 = 0) (hd : d % 4096 = 0)
    (ht : t % 4096 = 0) (hi : i < 1024) (hfd : f ≠ d) (hft : f ≠ t) :
  SameFrame m (install m d i t) f
  := (sameFrame_store32 m _ hf hd hi hfd).trans (sameFrame_fill _ _ hf ht hft)

/-- The words of the directory in which a table was installed. -/
theorem load32_install {i j : Nat} (hd : d % 4096 = 0) (ht : t % 4096 = 0) (hlt : t < 2 ^ 31)
    (hdt : d ≠ t) (hj : j < 1024) :
  load32 (install m d i t) (d + 4 * j)
    = if j = i then t + 7 else load32 m (d + 4 * j)
  := by
  have hframe := sameFrame_fill (store32 m (d + 4 * i) (t ||| pdeP ||| pdeW ||| pdeU)) 0 hd ht hdt
  rw [install, hframe.load32 hj, pdeWord ht]
  by_cases hji : j = i
  · rw [if_pos hji, hji, load32_store32 _ _ (by omega)]
  · rw [if_neg hji]
    apply load32_store32_of_disjoint
    omega

end Nodes

/-! ### Distinct nodes -/

namespace DistinctNodes

open Nodes

variable {lo : Nat} {m : Memory} {live : Set Nat} {free : List Nat}

theorem dir_ne_table (h : DistinctNodes lo m live free) {d d' i t : Nat} (hd : d ∈ live)
    (hd' : d' ∈ live) (hi : lo ≤ i) (hi' : i < 1024) (ht : tableAt m d' i = some t) :
  d ≠ t
  := by
  rintro rfl
  cases h.exclusive.unique (p := .dir d) (q := .table d' i) ⟨hd, rfl⟩ ⟨hd', hi, hi', ht⟩

theorem table_unique (h : DistinctNodes lo m live free) {d d' i i' t : Nat} (hd : d ∈ live)
    (hd' : d' ∈ live) (hi : lo ≤ i ∧ i < 1024) (hi' : lo ≤ i' ∧ i' < 1024)
    (ht : tableAt m d i = some t) (ht' : tableAt m d' i' = some t) :
  d = d' ∧ i = i'
  := by
  have heq := h.exclusive.unique (p := .table d i) (q := .table d' i')
    ⟨hd, hi.1, hi.2, ht⟩ ⟨hd', hi'.1, hi'.2, ht'⟩
  cases heq
  use rfl

theorem dir_not_free (h : DistinctNodes lo m live free) {d : Nat} (hd : d ∈ live) :
  d ∉ free
  := h.exclusive.used_of_owns (p := .dir d) ⟨hd, rfl⟩

theorem table_not_free (h : DistinctNodes lo m live free) {d i t : Nat} (hd : d ∈ live) (hi : lo ≤ i)
    (hi' : i < 1024) (ht : tableAt m d i = some t) :
  t ∉ free
  := h.exclusive.used_of_owns (p := .table d i) ⟨hd, hi, hi', ht⟩

/-! ### Writing a page table entry -/

variable {d v t w : Nat}

/-- Writing the entry of a page leaves all tables as they are. -/
theorem tableAt_storePte (h : DistinctNodes lo m live free) (hd : d ∈ live) (hv : lo ≤ v / 1024)
    (hv' : v < 2 ^ 20) (ht : tableAt m d (v / 1024) = some t) {d' i : Nat} (hd' : d' ∈ live)
    (hi : i < 1024) :
  tableAt (store32 m (t + 4 * (v % 1024)) w) d' i = tableAt m d' i
  := by
  apply tableAt_congr _ hi
  apply sameFrame_store32 _ _ (h.aligned d' hd') (tableAt_aligned ht) (by omega)
  apply h.dir_ne_table hd' hd hv (by omega) ht

/-- Writing the entry of a page changes this entry and no other. -/
theorem pteAt_storePte (h : DistinctNodes lo m live free) (hd : d ∈ live) (hv : lo ≤ v / 1024)
    (hv' : v < 2 ^ 20) (ht : tableAt m d (v / 1024) = some t) (hw : w < 2 ^ 32) {d' v' : Nat}
    (hd' : d' ∈ live) (hlo : lo ≤ v' / 1024) (hlt : v' < 2 ^ 20) :
  pteAt (store32 m (t + 4 * (v % 1024)) w) d' v' = if d' = d ∧ v' = v then w else pteAt m d' v'
  := by
  have htable := h.tableAt_storePte (w := w) hd hv hv' ht hd' (show v' / 1024 < 1024 by omega)
  rcases ht' : tableAt m d' (v' / 1024) with _ | t'
  · rw [pteAt_of_no_table (htable.trans ht'), pteAt_of_no_table ht', if_neg]
    rintro ⟨rfl, rfl⟩
    rw [ht] at ht'
    cases ht'
  · rw [pteAt_of_table (htable.trans ht'), pteAt_of_table ht']
    by_cases heq : t' = t
    · subst heq
      obtain ⟨rfl, hindex⟩ := h.table_unique hd' hd ⟨hlo, by omega⟩ ⟨hv, by omega⟩ ht' ht
      by_cases hpage : v' = v
      · rw [if_pos ⟨rfl, hpage⟩, hpage, load32_store32 _ _ hw]
      · rw [if_neg (fun hc => hpage hc.2)]
        apply load32_store32_of_disjoint
        omega
    · have hne : ¬ (d' = d ∧ v' = v) := by
        rintro ⟨rfl, rfl⟩
        rw [ht] at ht'
        cases ht'
        apply heq rfl
      rw [if_neg hne]
      have hframe := sameFrame_store32 m w (tableAt_aligned ht') (tableAt_aligned ht)
        (show v % 1024 < 1024 by omega) heq
      apply hframe.load32
      omega

/-! ### A new page table -/

/-- Installing a free frame as a table adds this table and no other. -/
theorem tableAt_install (h : DistinctNodes lo m live free) {i : Nat} (hd : d ∈ live) (hi : i < 1024)
    (ht : t % 4096 = 0) (hlt : t < 2 ^ 31) (hfree : t ∈ free) {d' i' : Nat} (hd' : d' ∈ live)
    (hi' : i' < 1024) :
  tableAt (install m d i t) d' i' = if d' = d ∧ i' = i then some t else tableAt m d' i'
  := by
  have hne : ∀ e ∈ live, e ≠ t := by
    rintro e he rfl
    apply h.dir_not_free he hfree
  by_cases hdir : d' = d
  · subst hdir
    have hword := load32_install (m := m) (i := i) (h.aligned d' hd) ht hlt (hne d' hd) hi'
    by_cases hindex : i' = i
    · rw [if_pos hindex] at hword
      have hpresent : Present (t + 7) := (present_iff _).mpr (by omega)
      rw [if_pos ⟨rfl, hindex⟩, tableAt]
      simp only [hword, if_pos hpresent, pdePaddr_eq]
      congr 1
      omega
    · rw [if_neg hindex] at hword
      rw [if_neg (fun hc => hindex hc.2), tableAt, tableAt]
      simp only [hword]
  · rw [if_neg (fun hc => hdir hc.1)]
    apply tableAt_congr _ hi'
    apply sameFrame_install (h.aligned d' hd') (h.aligned d hd) ht hi hdir (hne d' hd')

/-- Installing a free frame as a table, where there was none, leaves the entries of all
pages as they are. -/
theorem pteAt_install (h : DistinctNodes lo m live free) {i : Nat} (hd : d ∈ live) (hi : i < 1024)
    (hnone : tableAt m d i = none) (ht : t % 4096 = 0) (hlt : t < 2 ^ 31) (hfree : t ∈ free)
    {d' v' : Nat} (hd' : d' ∈ live) (hlo : lo ≤ v' / 1024) (hv' : v' < 2 ^ 20) :
  pteAt (install m d i t) d' v' = pteAt m d' v'
  := by
  have htable := h.tableAt_install hd hi ht hlt hfree hd' (show v' / 1024 < 1024 by omega)
  by_cases hnew : d' = d ∧ v' / 1024 = i
  · obtain ⟨rfl, rfl⟩ := hnew
    rw [if_pos ⟨rfl, rfl⟩] at htable
    rw [pteAt_of_table htable, pteAt_of_no_table hnone]
    apply load32_fill_zero <;> omega
  · rw [if_neg hnew] at htable
    rcases ht' : tableAt m d' (v' / 1024) with _ | t'
    · rw [pteAt_of_no_table (htable.trans ht'), pteAt_of_no_table ht']
    · rw [pteAt_of_table (htable.trans ht'), pteAt_of_table ht']
      have hold : t' ≠ t := by
        rintro rfl
        apply h.table_not_free hd' hlo (by omega) ht' hfree
      have hframe := sameFrame_install (m := m) (tableAt_aligned ht') (h.aligned d hd) ht hi
        (h.dir_ne_table hd hd' hlo (by omega) ht').symm hold
      apply hframe.load32
      omega

/-! ### Distinct nodes after a write -/

/-- Nodes stay distinct when all tables stay and the free list shrinks. -/
theorem of_tables (h : DistinctNodes lo m live free) {m' : Memory} {free' : List Nat}
    (htable : ∀ d ∈ live, ∀ i < 1024, tableAt m' d i = tableAt m d i)
    (hfree : ∀ f ∈ free', f ∈ free) :
  DistinctNodes lo m' live free'
  := by
  have hown := fun p f (hp : OwnsNode lo m' live p f) => hp.of_tables htable
  constructor
  · apply h.exclusive.shrink hown
    intro p f hp hmem
    apply h.exclusive.used_of_owns (hown p f hp) (hfree f hmem)
  · apply h.aligned

/-- The nodes after a table has been installed: those from before and the table. -/
theorem ownsNode_install (h : DistinctNodes lo m live free) {i : Nat} (hd : d ∈ live)
    (hi : i < 1024) (ht : t % 4096 = 0) (hlt : t < 2 ^ 31) (hfree : t ∈ free) {p : Place}
    {f : Nat} (hp : OwnsNode lo (install m d i t) live p f) :
  (p ≠ .table d i ∧ OwnsNode lo m live p f) ∨ (p = .table d i ∧ f = t)
  := by
  cases p with
  | dir e =>
      left
      constructor
      · simp
      · apply hp
  | table e j =>
      obtain ⟨he, hj, hj', htable⟩ := hp
      rw [h.tableAt_install hd hi ht hlt hfree he hj'] at htable
      by_cases hnew : e = d ∧ j = i
      · right
        rw [if_pos hnew, Option.some.injEq] at htable
        rw [hnew.1, hnew.2, htable]
        use rfl
      · left
        rw [if_neg hnew] at htable
        constructor
        · intro heq
          cases heq
          apply hnew ⟨rfl, rfl⟩
        · use he, hj, hj'
  | page e w => cases hp

/-- Nodes stay distinct when a free frame is installed as a table and leaves the free
list. -/
theorem install_nodes (h : DistinctNodes lo m live free) {i : Nat} (hd : d ∈ live)
    (hi : i < 1024) (ht : t % 4096 = 0) (hlt : t < 2 ^ 31) (hfree : t ∈ free)
    {free' : List Nat} (hsub : ∀ f ∈ free', f ∈ free) (hnot : t ∉ free') :
  DistinctNodes lo (install m d i t) live free'
  := by
  have hold : ∀ p, ¬ OwnsNode lo m live p t := by
    intro p hp
    apply h.exclusive.used_of_owns hp hfree
  constructor
  · apply (h.exclusive.grow_used _).take hold hnot
    · intro p f hp
      apply h.ownsNode_install hd hi ht hlt hfree hp
    · intro f hf hmem
      apply hf (hsub f hmem)
  · apply h.aligned

end DistinctNodes

/-! ### Exclusive nodes after a write -/

namespace Nodes

variable {lo : Nat} {m : Memory} {live : Set Nat} {free : List Nat}

/-- Nodes stay exclusive when all tables stay and the free list shrinks. -/
theorem of_tables (h : Nodes lo m live free) {m' : Memory} {free' : List Nat}
    (htable : ∀ d ∈ live, ∀ i < 1024, tableAt m' d i = tableAt m d i)
    (hfree : ∀ f ∈ free', f ∈ free) :
  Nodes lo m' live free'
  := by
  constructor
  · apply (h.distinct.of_tables htable hfree).exclusive
  · apply h.aligned
  · intro p f hp
    apply h.ne_zero (hp.of_tables htable)

/-- Nodes stay exclusive when a free frame is installed as a table and leaves the free
list. -/
theorem install_nodes (h : Nodes lo m live free) {d i t : Nat} (hd : d ∈ live) (hi : i < 1024)
    (ht : t % 4096 = 0) (hlt : t < 2 ^ 31) (hpos : t ≠ 0) (hfree : t ∈ free)
    {free' : List Nat} (hsub : ∀ f ∈ free', f ∈ free) (hnot : t ∉ free') :
  Nodes lo (install m d i t) live free'
  := by
  constructor
  · apply (h.distinct.install_nodes hd hi ht hlt hfree hsub hnot).exclusive
  · apply h.aligned
  · intro p f hp
    rcases h.distinct.ownsNode_install hd hi ht hlt hfree hp with ⟨-, hp⟩ | ⟨-, rfl⟩
    · apply h.ne_zero hp
    · apply hpos

end Nodes

end Dmos
