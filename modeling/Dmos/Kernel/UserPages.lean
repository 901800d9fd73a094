import Dmos.Kernel.AllocDir
import Dmos.Kernel.Ownership
import Dmos.Kernel.UserCopy

/-!
# The pages of a directory

What is written to the frames behind the present user pages of a directory changes no
directory and no table (`PagesOnly`), because these frames have no other place.  A range of
present pages is a window (`Frames.window`).
-/

open ByteMemory

namespace Dmos

namespace Kernel

variable {s : Kernel} {live : Set Nat} {d : Nat} {m m' : Memory}

/-- The byte at `x` is in a page of the directory. -/
def InPages (s : Kernel) (d x : Nat) : Prop :=
  ∃ v, 512 ≤ v / 1024 ∧ v < 2 ^ 20 ∧ Present (pteAt s.mem d v)
    ∧ frameAt s.mem d v ≤ x ∧ x < frameAt s.mem d v + 4096

/-- The memory is the same outside of the pages of the directory. -/
def PagesOnly (s : Kernel) (d : Nat) (m : Memory) : Prop :=
  ∀ x, ¬ s.InPages d x → m x = s.mem x

theorem PagesOnly.refl (s : Kernel) (d : Nat) :
  s.PagesOnly d s.mem
  := fun _ _ => rfl

section Frames

variable (hf : Frames s live) (hd : d ∈ live)

include hf hd

omit hf in
/-- The frames behind pages of a directory are owned. -/
theorem InPages.owned {x : Nat} (h : s.InPages d x) :
  ∃ v f, Owns 512 s.mem live (.page d v) f ∧ f ≤ x ∧ x < f + 4096
  := by
  obtain ⟨v, hlo, hv, hpresent, hle, hlt⟩ := h
  exact ⟨v, _, ⟨hd, hlo, hv, hpresent, rfl⟩, hle, hlt⟩

/-- No byte of another frame in use is in a page. -/
theorem not_inPages_of_owns {a : Place} {f x : Nat} (ha : Owns 512 s.mem live a f)
    (hpage : ∀ v, a ≠ .page d v) (hx : f ≤ x) (hx' : x < f + 4096) :
  ¬ s.InPages d x
  := by
  intro h
  obtain ⟨v, g, hg, hle, hlt⟩ := h.owned hd
  have hfa := hf.range.marked_bounds (hf.exclusive.used_of_owns ha)
  have hga := hf.range.marked_bounds (hf.exclusive.used_of_owns hg)
  obtain rfl : f = g := by omega
  apply hpage v (hf.exclusive.unique ha hg)

/-- Nor is a byte outside of the range of the allocator. -/
theorem InPages.bounds {x : Nat} (h : s.InPages d x) :
  memExtStart ≤ x ∧ x < memoryTaskBase
  := by
  obtain ⟨v, g, hg, hle, hlt⟩ := h.owned hd
  have hga := hf.range.marked_bounds (hf.exclusive.used_of_owns hg)
  omega

namespace PagesOnly

variable (hm : s.PagesOnly d m)

include hm

theorem sameFrame {a : Place} {f : Nat} (ha : OwnsNode 512 s.mem live a f) :
  SameFrame s.mem m f
  := by
  intro x hx hx'
  apply hm
  apply not_inPages_of_owns hf hd ha.owns _ hx hx'
  rintro v rfl
  apply ha

theorem sameFrame_base :
  SameFrame s.mem m s.layout.gKernelPageDir
  := by
  intro x hx hx'
  apply hm
  intro h
  have hbounds := h.bounds hf hd
  have hend := s.layout.gKernelPageDir_end
  omega

/-- Writing pages keeps the ownership of frames. -/
theorem frames :
  Frames (s.setMem m) live
  := hf.setMem (fun _ _ ha => hm.sameFrame hf hd ha) (hm.sameFrame_base hf hd)

theorem tableAt_eq {e i : Nat} (he : e ∈ live) (hi : i < 1024) :
  tableAt m e i = tableAt s.mem e i
  := tableAt_congr (hm.sameFrame hf hd (a := .dir e) ⟨he, rfl⟩) hi

theorem pteAt_eq {e v : Nat} (he : e ∈ live) (hlo : 512 ≤ v / 1024) (hv : v < 2 ^ 20) :
  pteAt m e v = pteAt s.mem e v
  := by
  apply pteAt_congr (hm.sameFrame hf hd (a := .dir e) ⟨he, rfl⟩) hv
  intro t ht
  apply hm.sameFrame hf hd (a := .table e (v / 1024))
  exact ⟨he, hlo, by omega, ht⟩

theorem inPages_iff {e : Nat} (he : e ∈ live) (x : Nat) :
  (s.setMem m).InPages e x ↔ s.InPages e x
  := by
  constructor
  · rintro ⟨v, hlo, hv, hpage⟩
    rw [setMem_mem, frameAt, hm.pteAt_eq hf hd he hlo hv] at hpage
    exact ⟨v, hlo, hv, hpage⟩
  · rintro ⟨v, hlo, hv, hpage⟩
    refine ⟨v, hlo, hv, ?_⟩
    rw [setMem_mem, frameAt, hm.pteAt_eq hf hd he hlo hv]
    apply hpage

/-- Pages written one after the other. -/
theorem trans (hm' : (s.setMem m).PagesOnly d m') :
  s.PagesOnly d m'
  := by
  intro x hx
  rw [hm' x, setMem_mem, hm x hx]
  rwa [hm.inPages_iff hf hd hd]

end PagesOnly

/-! ### Windows -/

/-- Present user pages that follow each other make a window. -/
theorem Frames.window {lo span : Nat} (hlo : memoryTaskBase ≤ lo) (hend : lo + span ≤ 2 ^ 32)
    (hpresent : ∀ v, InWindow lo span v → Present (pteAt s.mem d v)) :
  Window s d lo span
  := by
  unfold memoryTaskBase at hlo
  have huser : ∀ v, InWindow lo span v → 512 ≤ v / 1024 ∧ v < 2 ^ 20 := by
    rintro v ⟨hle, hlt⟩
    omega
  have hown : ∀ v, InWindow lo span v → Owns 512 s.mem live (.page d v) (frameAt s.mem d v) :=
    fun v hv => ⟨hd, (huser v hv).1, (huser v hv).2, hpresent v hv, rfl⟩
  have hbounds := fun v hv => hf.range.marked_bounds (hf.exclusive.used_of_owns (hown v hv))
  have hdir : Owns 512 s.mem live (.dir d) d := ⟨hd, rfl⟩
  refine ⟨?_, hlo⟩
  constructor
  · apply hf.nodes.aligned d hd
  · apply hend
  · apply hpresent
  · intro v w hv hw heq
    have hplace := hf.exclusive.unique (hown v hv) (heq ▸ hown w hw)
    cases hplace
    rfl
  · intro v hv
    have hstart : 1048576 ≤ frameAt s.mem d v := (hbounds v hv).2.1
    omega
  · intro v hv
    apply (hbounds v hv).2.2
  · intro v hv heq
    cases hf.exclusive.unique hdir (heq ▸ hown v hv)
  · intro v w t hv hw ht
    have htable : OwnsNode 512 s.mem live (.table d (w / 1024)) t :=
      ⟨hd, (huser w hw).1, by have := (huser w hw).2; omega, ht⟩
    refine ⟨hf.nodes.ne_zero htable, ?_⟩
    intro heq
    cases hf.exclusive.unique htable.owns (heq ▸ hown v hv)

end Frames

/-! ### Reading user addresses -/

/-- A byte at a user address is read as before when no frame of a directory has changed. -/
theorem readByte_of_sameFrame {t : Kernel} (hf : Frames s live) (hcr3 : s.cr3 ∈ live)
    (ht : t.cr3 = s.cr3) (hsame : ∀ p g, Owns 512 s.mem live p g → SameFrame s.mem t.mem g)
    {a : Nat} (huser : memoryTaskBase ≤ a) (hlt : a < 2 ^ 32) :
  t.readByte a = s.readByte a
  := by
  have haligned := hf.nodes.aligned _ hcr3
  have hbase := huser
  unfold memoryTaskBase at hbase
  have hentry : pteAt t.mem s.cr3 (a / 4096) = pteAt s.mem s.cr3 (a / 4096) := by
    apply pteAt_congr (hsame (.dir s.cr3) s.cr3 ⟨hcr3, rfl⟩) (by omega)
    intro g hg
    exact hsame (.table s.cr3 (a / 4096 / 1024)) g ⟨hcr3, by omega, by omega, hg⟩
  rw [readByte, readByte, kernelAddr, kernelAddr, if_neg (by omega), if_neg (by omega),
    translate_eq haligned, translate_eq (by rw [ht]; exact haligned), ht, hentry]
  split_ifs with hpresent
  · rw [Option.map_some, Option.map_some,
      hsame (.page s.cr3 (a / 4096)) _ ⟨hcr3, by omega, by omega, hpresent, rfl⟩
        (ptePaddr (pteAt s.mem s.cr3 (a / 4096)) + a % 4096) (by omega) (by omega)]
  · rfl

/-- An entry that is zero gives at most an address in the first page of memory. -/
theorem memoryGetPaddr_of_entry_zero {a : Nat} (hzero : pteAt s.mem d (a / 4096) = 0) :
  s.memoryGetPaddr d a = 0 ∨ s.memoryGetPaddr d a = a % 4096
  := by
  have hmask : a &&& (memPageSize - 1) = a % 4096 := Nat.and_two_pow_sub_one_eq_mod a 12
  rw [memoryGetPaddr, hmask]
  cases htable : tableAt s.mem d (a / 4096 / 1024) with
  | none =>
      rw [findPte_of_no_table htable, if_pos rfl]
      exact .inl rfl
  | some t =>
      rw [pteAt_of_table htable] at hzero
      rw [findPte_of_table htable]
      dsimp only
      split_ifs
      · exact .inl rfl
      · right
        rw [load, hzero, show ptePaddr 0 = 0 from rfl, Nat.zero_add]

/-! ### Memory of the kernel -/

/-- The `n` bytes from `a` on are in no frame that is free or belongs to a directory. -/
def Apart (s : Kernel) (live : Set Nat) (a n : Nat) : Prop :=
  ∀ f, (f ∈ s.free ∨ ∃ p, Owns 512 s.mem live p f) → a + n ≤ f ∨ f + 4096 ≤ a

/-- Such bytes stay as they are when pages are mapped. -/
theorem Apart.built {t : Kernel} {vs : List (Nat × (Nat → Nat))} {r : Option AddressSpace.Request}
    {a n x : Nat} (h : s.Apart live a n) (hd : d ∈ live) (hb : Built 512 live s t d vs r)
    (hx : a ≤ x) (hx' : x < a + n) :
  t.mem x = s.mem x
  := by
  have houtside {f : Nat} (hf : f ∈ s.free ∨ ∃ p, Owns 512 s.mem live p f) :
      x - x % 4096 ≠ f := by
    rintro rfl
    have := h _ hf
    omega
  apply hb.frame (x - x % 4096) (by omega)
  · apply houtside (.inr ⟨.dir d, hd, rfl⟩)
  · intro i hi hi' ht
    exact houtside (.inr ⟨.table d i, hd, hi, hi', ht⟩) rfl
  · intro hfree
    exact houtside (.inl hfree) rfl
  · omega
  · omega

theorem Apart.of_owns {t : Kernel} {a n : Nat} (h : s.Apart live a n)
    (hfree : ∀ f, f ∈ t.free → f ∈ s.free)
    (howns : ∀ p f, Owns 512 t.mem live p f → Owns 512 s.mem live p f ∨ f ∈ s.free) :
  t.Apart live a n
  := by
  rintro f (hf | ⟨p, hp⟩)
  · apply h f (.inl (hfree f hf))
  · rcases howns p f hp with hold | hnew
    · apply h f (.inr ⟨p, hold⟩)
    · apply h f (.inl hnew)

/-- A frame that a directory owns once pages are mapped was owned before or was free. -/
theorem Built.owns_cases {t : Kernel} {vs : List (Nat × (Nat → Nat))}
    {r : Option AddressSpace.Request} (hb : Built 512 live s t d vs r)
    (hf : Frames s live) (hd : d ∈ live)
    (hwords : ∀ v e, (v, e) ∈ vs → ∃ perm < 4096, e = mapWord perm) {p : Place} {f : Nat}
    (hp : Owns 512 t.mem live p f) :
  Owns 512 s.mem live p f ∨ f ∈ s.free
  := by
  cases p with
  | dir e =>
      left
      apply hp
  | table e i =>
      obtain ⟨he, hi, hi', ht⟩ := hp
      by_cases hed : e = d
      · subst hed
        rcases hb.table_of_table hi hi' ht with hold | hnew
        · exact .inl ⟨he, hi, hi', hold⟩
        · exact .inr hnew
      · left
        rw [hb.tableAt_of_ne hf.nodes hd he hed hi'] at ht
        exact ⟨he, hi, hi', ht⟩
  | page e v =>
      obtain ⟨he, hv, hv', hpresent, haddr⟩ := hp
      by_cases hed : e = d
      · subst hed
        rw [hb.pteAt_eq hv hv'] at hpresent haddr
        rcases (s.space 512 e).mapAll_entry tableIndex vs v with hold | hnew
        · left
          rw [hold, space_entry hv hv'] at hpresent haddr
          exact ⟨he, hv, hv', hpresent, haddr⟩
        · right
          obtain ⟨w, g, hmem, hg, hword⟩ := hnew
          obtain ⟨perm, hperm, rfl⟩ := hwords v w hmem
          rw [hword, ptePaddr_mapWord (hf.range.free_bounds hg).1 hperm] at haddr
          rw [← haddr]
          apply hg
      · left
        rw [hb.pteAt_of_ne hf.nodes hd he hed hv hv'] at hpresent haddr
        exact ⟨he, hv, hv', hpresent, haddr⟩

theorem Apart.of_built {t : Kernel} {perm a n : Nat} {vs : List Nat}
    {r : Option AddressSpace.Request} (h : s.Apart live a n) (hf : Frames s live) (hd : d ∈ live)
    (hperm : perm < 4096) (hb : Built 512 live s t d (mapsWith perm vs) r) :
  t.Apart live a n
  := by
  apply h.of_owns
  · intro f hmem
    apply hb.free_suffix.subset hmem
  · intro p f hp
    apply hb.owns_cases hf hd (words_mapsWith hperm) hp

theorem Apart.of_setMem {a n : Nat} (h : s.Apart live a n)
    (htable : ∀ e ∈ live, ∀ i < 1024, tableAt m e i = tableAt s.mem e i)
    (hentry : ∀ e ∈ live, ∀ v, 512 ≤ v / 1024 → v < 2 ^ 20 → pteAt m e v = pteAt s.mem e v) :
  (s.setMem m).Apart live a n
  := by
  apply h.of_owns
  · intro f hf
    apply hf
  · intro p f hp
    left
    apply hp.of_entries htable hentry

/-- Bytes of pages are none of them. -/
theorem Apart.not_inPages {a n x : Nat} (h : s.Apart live a n) (hd : d ∈ live) (hx : a ≤ x)
    (hx' : x < a + n) :
  ¬ s.InPages d x
  := by
  intro hin
  obtain ⟨v, f, hown, hle, hlt⟩ := hin.owned hd
  have := h f (.inr ⟨_, hown⟩)
  omega

section Write

variable {a n : Nat} (ha : s.Apart live a n) (hm : ∀ x, ¬ (a ≤ x ∧ x < a + n) → m x = s.mem x)

include ha hm

/-- What is written to such bytes changes no directory. -/
theorem Apart.sameFrame {p : Place} {f : Nat} (hp : Owns 512 s.mem live p f) :
  SameFrame s.mem m f
  := by
  intro x hx hx'
  apply hm
  have := ha f (.inr ⟨p, hp⟩)
  omega

theorem Apart.frames (hf : Frames s live)
    (hbase : a + n ≤ s.layout.gKernelPageDir ∨ s.layout.gKernelPageDir + 4096 ≤ a) :
  Frames (s.setMem m) live
  := by
  apply hf.setMem
  · intro p f hp
    apply ha.sameFrame hm hp.owns
  · intro x hx hx'
    apply hm
    omega

theorem Apart.tableAt_eq {e i : Nat} (he : e ∈ live) (hi : i < 1024) :
  tableAt m e i = tableAt s.mem e i
  := tableAt_congr (ha.sameFrame hm (p := .dir e) ⟨he, rfl⟩) hi

theorem Apart.pteAt_eq {e v : Nat} (he : e ∈ live) (hlo : 512 ≤ v / 1024) (hv : v < 2 ^ 20) :
  pteAt m e v = pteAt s.mem e v
  := by
  apply pteAt_congr (ha.sameFrame hm (p := .dir e) ⟨he, rfl⟩) hv
  intro t ht
  apply ha.sameFrame hm (p := .table e (v / 1024))
  exact ⟨he, hlo, by omega, ht⟩

end Write

end Kernel

end Dmos
