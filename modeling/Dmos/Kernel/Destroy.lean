import Dmos.Kernel.DeepCopy

/-!
# Destroying an address space

`memoryDestoryUvm` clears the bits of the frames an address space owns, which are its directory,
its user page tables and the pages present in them, and no other bit.  So destroying a copy that
has succeeded gives back everything the copy has taken (`memoryDestoryUvm_exact`).
-/

open ByteMemory AddressSpace

namespace Dmos.Kernel

variable {s t : Kernel} {live : Set Nat} {c d p : Nat}

/-- The frame is the directory itself, one of its user page tables, or behind a present user
page. -/
def UserFrame (m : Memory) (d g : Nat) : Prop :=
  g = d ∨ (∃ i, 512 ≤ i ∧ i < 1024 ∧ tableAt m d i = some g) ∨
    ∃ v, 524288 ≤ v ∧ v < 2 ^ 20 ∧ Present (pteAt m d v) ∧ ptePaddr (pteAt m d v) = g

/-- The user part of no directory uses a page table of the kernel. -/
def KernelTablesApart (s : Kernel) (live : Set Nat) : Prop :=
  ∀ i < 512, ∀ g, tableAt s.mem s.layout.gKernelPageDir i = some g →
    ∀ d ∈ live, ¬ UserFrame s.mem d g

theorem userFrame_iff (hd : d ∈ live) (m : Memory) (g : Nat) :
  UserFrame m d g ↔ ∃ a : Place, a.root = d ∧ Owns 512 m live a g
  := by
  constructor
  · rintro (rfl | ⟨i, hi, hi', ht⟩ | ⟨v, hv, hv', hp⟩)
    · exact ⟨.dir g, rfl, hd, rfl⟩
    · exact ⟨.table d i, rfl, hd, hi, hi', ht⟩
    · exact ⟨.page d v, rfl, hd, by omega, hv', hp⟩
  · rintro ⟨a, hroot, ha⟩
    cases a with
    | dir e =>
        obtain rfl : e = d := hroot
        exact .inl ha.2
    | table e i =>
        obtain rfl : e = d := hroot
        exact .inr (.inl ⟨i, ha.2⟩)
    | page e v =>
        obtain rfl : e = d := hroot
        obtain ⟨-, hv, hv', hp⟩ := ha
        exact .inr (.inr ⟨v, by omega, hv', hp⟩)

/-- The frames of different directories are different. -/
theorem Frames.userFrame_apart (hf : Frames s live) (hd : d ∈ live) {e g : Nat} (he : e ∈ live)
    (hne : e ≠ d) (hg : UserFrame s.mem e g) :
  ¬ UserFrame s.mem d g
  := by
  intro hg'
  obtain ⟨a, ha, howns⟩ := (userFrame_iff he s.mem g).mp hg
  obtain ⟨b, hb, howns'⟩ := (userFrame_iff hd s.mem g).mp hg'
  rw [hf.exclusive.unique howns howns', hb] at ha
  exact hne ha.symm

/-- What happens to the bits of an allocator when the frames of `G` are released. -/
theorem Freed.bit {G : Nat → Prop} (h : Freed s t G) (hr : RangeWf s.gPaddrAlloc) {i : Nat}
    (hi : i < s.gPaddrAlloc.bitmap.bitCount) :
  (G (s.gPaddrAlloc.page i) → bitmapGetBit t.gPaddrAlloc.bitmap i = 0) ∧
    (¬ G (s.gPaddrAlloc.page i) →
      bitmapGetBit t.gPaddrAlloc.bitmap i = bitmapGetBit s.gPaddrAlloc.bitmap i)
  := by
  have hi' : i < t.gPaddrAlloc.bitmap.bitCount := by
    rw [h.range.bitCount]
    exact hi
  have hmarked := h.marked (s.gPaddrAlloc.page i)
  rw [marked_page_iff hr hi, ← h.range.page, marked_page_iff (hr.sameRange h.range) hi',
    h.range.page] at hmarked
  constructor
  · intro hG
    by_contra hset
    exact (hmarked.mp hset).2 hG
  · intro hG
    rcases bitmapGetBit_eq_zero_or_one t.gPaddrAlloc.bitmap i with ht | ht <;>
      rcases bitmapGetBit_eq_zero_or_one s.gPaddrAlloc.bitmap i with hs | hs
    · rw [ht, hs]
    · rw [ht, hs] at hmarked
      exact absurd (hmarked.mpr ⟨by decide, hG⟩) (by decide)
    · rw [ht, hs] at hmarked
      exact absurd (hmarked.mp (by decide)).1 (by decide)
    · rw [ht, hs]

/-- Destroying a copy that has succeeded. -/
theorem sameBitmap_copy_destroyed (hf : Frames s live) (hp : p ∈ live) (he : s.cr3 ∈ live)
    (h : s.memoryCopyUvm p = .ok (c, t)) (hne : c ≠ errorWord) :
  SameBitmap s (t.memoryDestoryUvm c)
  := by
  have hrun := memoryCopyUvm_cases hf hp he
  rw [h] at hrun
  cases hrun with
  | noDir => cases hne rfl
  | failed => cases hne rfl
  | @copied _ rest s' _ hfree hc hcopy =>
      have hcl : c ∈ insert c live := Set.mem_insert c live
      have hbuilt := hcopy.built
      have hfreed := freed_memoryDestoryUvm ((hf.created hfree hc).built hcl hbuilt) hcl
      have hcreated : s.gPaddrAlloc.SameRange s'.gPaddrAlloc := by
        rw [hc.alloc]
        apply s.take_sameRange
      rw [sameBitmap_iff hf.range ((hcreated.trans hbuilt.range).trans hfreed.range)]
      have hmaps : UserMaps (copyMaps s'.mem p (presentPages s'.mem p 524288 524288)) := by
        apply userMaps_copyMaps _ (nodup_presentPages _ _ _ _)
        intro v hv
        have hrange := (mem_presentPages.mp hv).1
        omega
      intro g
      rw [hbuilt.destroyed_of_ne hcl hmaps (hf.created hfree hc) (fun _ => hc.tableAt) nofun,
        hc.marked_ne hf hfree]

/-- Destroying clears the bits of the frames of the directory, all of which were set, and leaves
the others alone, those of the other directories and of the kernel's tables among them.
Destroying a copy restores the bitmap. -/
theorem memoryDestoryUvm_exact (hf : Frames s live) (hd : d ∈ live) :
  ((∀ g, UserFrame s.mem d g → ∃ i < s.gPaddrAlloc.bitmap.bitCount,
        s.gPaddrAlloc.page i = g ∧ bitmapGetBit s.gPaddrAlloc.bitmap i = 1 ∧
        bitmapGetBit (s.memoryDestoryUvm d).gPaddrAlloc.bitmap i = 0) ∧
      ∀ i < s.gPaddrAlloc.bitmap.bitCount, ¬ UserFrame s.mem d (s.gPaddrAlloc.page i) →
        bitmapGetBit (s.memoryDestoryUvm d).gPaddrAlloc.bitmap i
          = bitmapGetBit s.gPaddrAlloc.bitmap i) ∧
    (∀ e ∈ live, e ≠ d → ∀ g, UserFrame s.mem e g → (s.memoryDestoryUvm d).Marked g) ∧
    (s.KernelTablesApart live → ∀ i < 512, ∀ g,
      tableAt s.mem s.layout.gKernelPageDir i = some g →
        ((s.memoryDestoryUvm d).Marked g ↔ s.Marked g)) ∧
    ∀ c t, s.cr3 ∈ live → s.memoryCopyUvm d = .ok (c, t) → c ≠ errorWord →
      SameBitmap s (t.memoryDestoryUvm c)
  := by
  have hfreed : Freed s (s.memoryDestoryUvm d) (UserFrame s.mem d) :=
    (freed_memoryDestoryUvm hf hd).congr fun g => (userFrame_iff hd s.mem g).symm
  refine ⟨⟨?_, ?_⟩, ?_, ?_, ?_⟩
  · intro g hg
    obtain ⟨a, -, howns⟩ := (userFrame_iff hd s.mem g).mp hg
    obtain ⟨i, hi, hbit, rfl⟩ := hf.exclusive.used_of_owns howns
    refine ⟨i, hi, rfl, ?_, (hfreed.bit hf.range hi).1 hg⟩
    exact (bitmapGetBit_eq_zero_or_one _ i).resolve_left hbit
  · intro i hi hout
    exact (hfreed.bit hf.range hi).2 hout
  · intro e he hne g hg
    rw [hfreed.marked]
    obtain ⟨a, -, howns⟩ := (userFrame_iff he s.mem g).mp hg
    exact ⟨hf.exclusive.used_of_owns howns, hf.userFrame_apart hd he hne hg⟩
  · intro hapart i hi g hg
    rw [hfreed.marked, and_iff_left (hapart i hi g hg d hd)]
  · intro c t he h hne
    exact sameBitmap_copy_destroyed hf hd he h hne

/-- A directory with two user pages and two tables, destroyed and copied. -/
theorem memoryDestoryUvm_exact_bootPair :
  (∀ g, UserFrame bootPair.mem (1024 * 1024) g →
      ∃ i < bootPair.gPaddrAlloc.bitmap.bitCount, bootPair.gPaddrAlloc.page i = g ∧
        bitmapGetBit bootPair.gPaddrAlloc.bitmap i = 1 ∧
        bitmapGetBit (bootPair.memoryDestoryUvm (1024 * 1024)).gPaddrAlloc.bitmap i = 0) ∧
    ∀ c t, bootPair.memoryCopyUvm (1024 * 1024) = .ok (c, t) → c ≠ errorWord →
      SameBitmap bootPair (t.memoryDestoryUvm c)
  := by
  obtain ⟨⟨hcleared, -⟩, -, -, hcopied⟩ := memoryDestoryUvm_exact bootPair_frames rfl
  have he : bootPair.cr3 ∈ ({1024 * 1024} : Set Nat) := rfl
  use hcleared, fun c t => hcopied c t he

end Dmos.Kernel
