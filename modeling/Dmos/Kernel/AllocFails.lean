import Dmos.Kernel.AllocDir

/-!
# A failed allocation is not undone

`memoryAllocForPageDir` returns a non-zero value only when a page table is missing and
there is no frame for it.  Its cleanup hands the user address of the range to
`addrFreePage`, which lies outside the pages of the allocator, so nothing is freed: the
frame taken for the page without a table stays in use although nothing refers to it
(`memoryAllocForPageDir_leaks`), and the pages mapped before stay mapped.  Hence the call
undoes what it has done exactly when it has nothing to undo
(`memoryAllocForPageDir_restores_iff`).
-/

open ByteMemory AddressSpace

namespace Dmos

namespace Kernel

/-- The frames in use are the same, and no user page of `d` that was unmapped has been
mapped. -/
structure Restored (s s' : Kernel) (d : Nat) : Prop where
  used : ∀ g, s'.Marked g ↔ s.Marked g
  unmapped : ∀ v, 512 ≤ v / 1024 → v < 2 ^ 20 → ¬ Present (pteAt s.mem d v) →
    ¬ Present (pteAt s'.mem d v)

section Fails

variable {lo : Nat} {live : Set Nat} {s : Kernel} {d perm vaddr size : Nat}

/-- Without a frame for a page table the call fails, and the frame of the page stays in
use. -/
theorem memoryAllocForPageDir_leaks (hr : RangeWf s.gPaddrAlloc)
    (hn : Nodes lo s.mem live s.free) (hd : d ∈ live) (hperm : perm < 4096)
    (hbase : memoryTaskBase ≤ vaddr) (hlt : vaddr < 2 ^ 32)
    (hlo : ∀ v ∈ allocPages vaddr size, lo ≤ v / 1024)
    (hasks : (s.asks lo d (allocPages vaddr size))[s.free.length]? = some .table) :
  (s.memoryAllocForPageDir d vaddr size perm).1 = errorWord ∧
    ∃ f, ¬ s.Marked f ∧ (s.memoryAllocForPageDir d vaddr size perm).2.Marked f
  := by
  obtain ⟨r, s', hbuilt, hresult⟩ := memoryAllocForPageDir_spec lo hr hn hd hperm hbase hlt hlo
  obtain rfl : r = some .table := hbuilt.failed_eq.trans hasks
  rw [hresult, if_pos rfl]
  use rfl
  obtain ⟨f, hf, hf', -⟩ := Space.mapAll_leak (free_nodup hr) hbuilt.space
  use f
  constructor
  · intro hmarked
    apply hmarked.not_free hr hf
  · rw [hbuilt.marked]
    right
    use hf, hf'

/-- The call undoes what it has done, when it fails, exactly when the first request
beyond the free list is not one for a page table.  The permission word has no bits of a frame. -/
theorem memoryAllocForPageDir_restores_iff (hr : RangeWf s.gPaddrAlloc)
    (hn : Nodes lo s.mem live s.free) (hd : d ∈ live) (hperm : perm < 4096)
    (hbase : memoryTaskBase ≤ vaddr) (hlt : vaddr < 2 ^ 32)
    (hlo : ∀ v ∈ allocPages vaddr size, lo ≤ v / 1024) :
  ((s.memoryAllocForPageDir d vaddr size perm).1 ≠ 0 →
      Restored s (s.memoryAllocForPageDir d vaddr size perm).2 d)
    ↔ (s.asks lo d (allocPages vaddr size))[s.free.length]? ≠ some .table
  := by
  constructor
  · intro hrestored hasks
    obtain ⟨herr, f, hunused, hused⟩ :=
      memoryAllocForPageDir_leaks hr hn hd hperm hbase hlt hlo hasks
    have hrest := hrestored (by rw [herr]; decide)
    apply hunused ((hrest.used f).mp hused)
  · intro hasks herr
    obtain ⟨r, s', hbuilt, hresult⟩ := memoryAllocForPageDir_spec lo hr hn hd hperm hbase hlt hlo
    rw [← hbuilt.failed_eq] at hasks
    rw [hresult] at herr
    cases herr (if_neg hasks)

end Fails

/-- A page at the start of the user range, on a machine with frames to spare. -/
theorem memoryAllocForPageDir_restores_iff_bootDir :
  Frames (bootDir 9) {1024 * 1024} ∧
    (((bootDir 9).memoryAllocForPageDir (1024 * 1024) 0x80000000 4096 7).1 ≠ 0 →
      Restored (bootDir 9)
        ((bootDir 9).memoryAllocForPageDir (1024 * 1024) 0x80000000 4096 7).2 (1024 * 1024))
  := by
  have hf : Frames (bootDir 9) {1024 * 1024} := bootDir_frames (by decide) (by decide)
  have hnodes : Nodes 512 (bootDir 9).mem {1024 * 1024} (bootDir 9).free := hf.nodes
  use hf
  apply (memoryAllocForPageDir_restores_iff hf.range hnodes rfl (by decide) (by decide) (by decide)
    (by decide)).mpr
  rw [bootDir_asks (by decide) (by decide), bootDir_free (by decide) (by decide), List.length_map,
    List.length_range]
  decide

/-- With a single free frame the page has one, and its table has none. -/
theorem memoryAllocForPageDir_leaks_bootDir :
  Frames (bootDir 2) {1024 * 1024} ∧
    ((bootDir 2).memoryAllocForPageDir (1024 * 1024) 0x80000000 4096 7).1 ≠ 0 ∧
    ¬ Restored (bootDir 2)
      ((bootDir 2).memoryAllocForPageDir (1024 * 1024) 0x80000000 4096 7).2 (1024 * 1024)
  := by
  have hf : Frames (bootDir 2) {1024 * 1024} := bootDir_frames (by decide) (by decide)
  have hasks : ((bootDir 2).asks 512 (1024 * 1024) (allocPages 0x80000000 4096))[
      (bootDir 2).free.length]? = some .table := by
    rw [bootDir_asks (by decide) (by decide), bootDir_free (by decide) (by decide), List.length_map,
      List.length_range]
    rfl
  obtain ⟨herr, f, hunused, hused⟩ := memoryAllocForPageDir_leaks hf.range hf.nodes rfl
    (show 7 < 4096 by decide) (by decide) (by decide) (by decide) hasks
  use hf
  constructor
  · rw [herr]
    decide
  · intro hrestored
    apply hunused ((hrestored.used f).mp hused)

end Kernel

end Dmos
