import Dmos.Kernel.AddrAlloc
import Dmos.Kernel.Mmu
import Dmos.Library.Pool
import Dmos.Library.Transition
import Mathlib.Data.List.Range

/-!
# The pages that are held

Single pages are allocated and freed in any order.  The bits of the bitmap are a pool of the
pages of the range (`Keeps`): allocation returns the lowest page that is not held, and freeing
a page that is held gives back this page and no other (`exact_of_reachable`).
-/

open TransitionSystem

namespace Dmos

/-- A range of pages that does not contain address `0`. -/
structure AddrRange where
  start : Nat
  size : Nat
  pageSize : Nat
  start_pos : 0 < start
  pageSize_pos : 0 < pageSize
  aligned : pageSize ∣ start
  end_le : start + size ≤ 2 ^ 32
  /-- The number of pages is an `int`, also when `bitmap_byte_count` rounds it up. -/
  fits : size / pageSize + 7 < 2 ^ 31

namespace AddrRange

/-- The number of pages is an `int` unless a page has less than four bytes. -/
theorem fits_of_four_le {start size pageSize : Nat} (hstart : 0 < start)
    (hend : start + size ≤ 2 ^ 32) (hpage : 4 ≤ pageSize) :
  size / pageSize + 7 < 2 ^ 31
  := by
  have h := Nat.div_le_div_left hpage (by decide : 0 < 4) (a := size)
  omega

def count (r : AddrRange) : Nat :=
  r.size / r.pageSize

/-- The pages of the range. -/
def pages (r : AddrRange) : List Nat :=
  (List.range r.count).map fun i => r.start + i * r.pageSize

theorem mem_pages {r : AddrRange} {addr : Nat} :
  addr ∈ r.pages ↔ ∃ i < r.count, r.start + i * r.pageSize = addr
  := by simp [pages]

theorem sorted_pages (r : AddrRange) :
  r.pages.Pairwise (· < ·)
  := by
  apply List.pairwise_lt_range.map
  intro i j hij
  have := Nat.mul_lt_mul_of_pos_right hij r.pageSize_pos
  omega

/-- The pages are aligned, and inside of the range. -/
theorem inside_of_mem_pages {r : AddrRange} {addr : Nat} (h : addr ∈ r.pages) :
  r.pageSize ∣ addr ∧ r.start ≤ addr ∧ addr + r.pageSize ≤ r.start + r.size
  := by
  obtain ⟨i, hi, rfl⟩ := mem_pages.mp h
  have hmul := Nat.mul_le_mul_right r.pageSize (Nat.succ_le_of_lt hi)
  have hsize := Nat.div_mul_le_self r.size r.pageSize
  rw [count] at hmul
  rw [Nat.succ_mul] at hmul
  refine ⟨Nat.dvd_add r.aligned (Nat.dvd_mul_left _ _), by omega, by omega⟩

/-- The number of pages, the number of bits in whole bytes and the index of a page are the
numbers that the code has as `int`s. -/
theorem bmod_index {r : AddrRange} {i : Nat} (hi : i ≤ r.count + 7) :
  (i : Int).bmod (2 ^ 32) = i
  := by
  have hfits := r.fits
  rw [count] at hi
  apply Int.bmod_eq_of_le <;> omega

end AddrRange

/-- The allocator, and the addresses it has returned that have not been freed since. -/
structure PageRun where
  alloc : AddrAlloc
  held : List Nat

inductive PageEvent where
  | alloc
  | free (addr : Nat)

namespace PageRun

def allocate (s : PageRun) : PageRun where
  alloc := (addrAllocPage s.alloc 1).2
  held :=
    if (addrAllocPage s.alloc 1).1 = 0 then s.held else (addrAllocPage s.alloc 1).1 :: s.held

def release (s : PageRun) (addr : Nat) : PageRun where
  alloc := addrFreePage s.alloc addr 1
  held := s.held.erase addr

inductive Step : PageRun → PageEvent → PageRun → Prop
  | alloc (s : PageRun) : Step s .alloc s.allocate
  | free (s : PageRun) {addr : Nat} : addr ∈ s.held → Step s (.free addr) (s.release addr)

/-- What allocation and freeing do. -/
structure Exact (r : AddrRange) (s : PageRun) : Prop where
  nodup : s.held.Nodup
  inside : ∀ addr ∈ s.held,
    r.pageSize ∣ addr ∧ r.start ≤ addr ∧ addr + r.pageSize ≤ r.start + r.size
  full : (addrAllocPage s.alloc 1).1 = 0 ↔
    ∀ i < r.size / r.pageSize, r.start + i * r.pageSize ∈ s.held
  lowest : (addrAllocPage s.alloc 1).1 ≠ 0 →
    IsLeast
      { addr | (∃ i < r.size / r.pageSize, r.start + i * r.pageSize = addr) ∧ addr ∉ s.held }
      (addrAllocPage s.alloc 1).1
  outside : r.start + r.size ≤ memoryTaskBase → r.pageSize = 4096 → ∀ addr < 2 ^ 32,
    addr < r.start ∨ r.start + r.size ≤ addr → addrFreePage s.alloc addr 1 = s.alloc

end PageRun

/-- Single pages of the range `r`, whose bits are somewhere in memory. -/
def pageRuns (r : AddrRange) (bits : Nat → UInt8) : TransitionSystem PageRun PageEvent where
  init s := s = { alloc := addrAllocInit bits r.start r.size r.pageSize, held := [] }
  step := PageRun.Step

namespace PageRun

variable {r : AddrRange} {bits : Nat → UInt8} {s s' : PageRun} {p : Pool Nat r.pages}

/-- The bits are those of the pages that the pool `p` holds. -/
structure Keeps (r : AddrRange) (s : PageRun) (p : Pool Nat r.pages) : Prop where
  start : s.alloc.start = r.start
  pageSize : s.alloc.pageSize = r.pageSize
  bitCount : s.alloc.bitmap.bitCount = r.count
  held : s.held = p.held
  marked : ∀ addr, s.alloc.Marked addr ↔ addr ∈ p.held

theorem Keeps.wf (h : s.Keeps r p) :
  s.alloc.Wf
  := by
  have hstart := r.start_pos
  have hpos := r.pageSize_pos
  have hsize := Nat.div_mul_le_self r.size r.pageSize
  have hend := r.end_le
  constructor
  · rw [h.start]
    apply hstart
  · rw [h.pageSize]
    apply hpos
  · rw [h.start, h.pageSize, h.bitCount, AddrRange.count]
    omega

theorem Keeps.page (h : s.Keeps r p) (i : Nat) :
  s.alloc.page i = r.start + i * r.pageSize
  := by rw [AddrAlloc.page, h.start, h.pageSize]

/-- Another state of the same allocator. -/
theorem Keeps.congr (h : s.Keeps r p) (hrange : s.alloc.SameRange s'.alloc)
    {p' : Pool Nat r.pages} (hheld : s'.held = p'.held)
    (hmarked : ∀ addr, s'.alloc.Marked addr ↔ addr ∈ p'.held) :
  s'.Keeps r p'
  where
  start := hrange.start.trans h.start
  pageSize := hrange.pageSize.trans h.pageSize
  bitCount := hrange.bitCount.trans h.bitCount
  held := hheld
  marked := hmarked

/-- The clear bits are those of the pages that are not held. -/
theorem Keeps.freePages (h : s.Keeps r p) :
  s.alloc.freePages = r.pages.filter fun addr => !decide (addr ∈ p.held)
  := by
  change _ = ((List.range r.count).map fun i => r.start + i * r.pageSize).filter _
  rw [AddrAlloc.freePages, Bitmap.clearBits, List.filter_map, h.bitCount]
  rw [funext h.page]
  congr 1
  apply List.filter_congr
  intro i hi
  rw [List.mem_range, ← h.bitCount] at hi
  have hmarked : s.alloc.Marked (s.alloc.page i) ↔ bitmapGetBit s.alloc.bitmap i ≠ 0 := by
    constructor
    · rintro ⟨j, -, hbit, hpage⟩
      rwa [← AddrAlloc.page_injective h.wf hpage]
    · intro hbit
      exact ⟨i, hi, hbit, rfl⟩
  rw [h.marked, h.page] at hmarked
  simp [hmarked]

/-- The next page of the pool is the first one whose bit is clear. -/
theorem Keeps.next (h : s.Keeps r p) :
  p.next = s.alloc.freePages.head?
  := by
  rw [h.freePages, List.head?_filter]
  rfl

theorem Keeps.init (hs : (pageRuns r bits).init s) :
  s.Keeps r (Pool.empty r.pages)
  := by
  obtain rfl : s = _ := hs
  refine ⟨rfl, rfl, rfl, rfl, ?_⟩
  intro addr
  constructor
  · rintro ⟨i, hi, hbit, -⟩
    cases hbit (bitmapGetBit_init_zero bits hi)
  · intro hheld
    cases hheld

/-- What allocation returns. -/
theorem Keeps.addrAllocPage (h : s.Keeps r p) :
  ((addrAllocPage s.alloc 1).1 = 0 ∧ p.next = none ∧ (addrAllocPage s.alloc 1).2 = s.alloc) ∨
    (0 < (addrAllocPage s.alloc 1).1 ∧ p.next = some (addrAllocPage s.alloc 1).1 ∧
      ∀ g, (addrAllocPage s.alloc 1).2.Marked g ↔
        s.alloc.Marked g ∨ g = (addrAllocPage s.alloc 1).1)
  := by
  rcases hfree : s.alloc.freePages with _ | ⟨addr, rest⟩
  · left
    rw [h.next, hfree, addrAllocPage_of_full hfree]
    exact ⟨rfl, rfl, rfl⟩
  · right
    obtain ⟨haddr, -, hmarked⟩ := addrAllocPage_of_free h.wf hfree
    have hpage : addr ∈ s.alloc.freePages := by
      rw [hfree]
      apply List.mem_cons_self
    obtain ⟨i, -, -, hi⟩ := AddrAlloc.mem_freePages.mp hpage
    rw [h.page] at hi
    have hstart := r.start_pos
    rw [haddr, h.next, hfree]
    exact ⟨by omega, rfl, hmarked⟩

theorem Keeps.step {e : PageEvent} (h : s.Keeps r p) (hstep : Step s e s') :
  ∃ p', s'.Keeps r p'
  := by
  cases hstep with
  | alloc =>
      rcases h.addrAllocPage with ⟨hzero, -, hsame⟩ | ⟨hpos, hnext, hmarked⟩
      · rw [allocate, if_pos hzero, hsame]
        exact ⟨p, h⟩
      · refine ⟨p.take _ (FirstFree.mem_of_firstFree hnext) (Pool.not_mem_of_next hnext),
          h.congr (addrAllocPage_sameRange s.alloc) ?_ ?_⟩
        · rw [allocate, if_neg (by omega), h.held]
          rfl
        · intro g
          rw [allocate, hmarked, h.marked, Pool.take, List.mem_cons]
          exact or_comm
  | @free addr haddr =>
      rw [h.held] at haddr
      refine ⟨p.release addr, h.congr (addrFreePage_sameRange s.alloc addr 1) ?_ ?_⟩
      · rw [release, h.held]
        rfl
      · intro g
        obtain ⟨i, hi, hpage⟩ := AddrRange.mem_pages.mp (p.mem_entries addr haddr)
        rw [← h.page] at hpage
        have hpos : 0 < s.alloc.pageSize := h.wf.pageSize_pos
        rw [release, marked_addrFreePage h.wf (h.bitCount ▸ hi) (by omega) (by omega), h.marked, hpage,
          Pool.mem_release]

/-- The page index of an address outside of a range in the memory of the kernel lies behind the
bitmap. -/
theorem Keeps.outside (h : s.Keeps r p) (hend : r.start + r.size ≤ memoryTaskBase)
    (hpage : r.pageSize = 4096) {addr : Nat} (haddr : addr < 2 ^ 32)
    (hout : addr < r.start ∨ r.start + r.size ≤ addr) :
  addrFreePage s.alloc addr 1 = s.alloc
  := by
  apply addrFreePage_of_outside
  rw [h.bitCount, h.start, h.pageSize, AddrRange.count, hpage]
  apply Nat.div_le_div_right
  unfold memoryTaskBase at hend
  unfold u32Sub
  omega

theorem Keeps.full_iff (h : s.Keeps r p) :
  (Dmos.addrAllocPage s.alloc 1).1 = 0 ↔ ∀ addr ∈ r.pages, addr ∈ s.held
  := by
  rw [h.held, ← Pool.next_eq_none_iff]
  rcases h.addrAllocPage with ⟨hzero, hnext, -⟩ | ⟨hpos, hnext, -⟩
  · exact iff_of_true hzero hnext
  · apply iff_of_false (by omega)
    rw [hnext]
    nofun

theorem Keeps.exact (h : s.Keeps r p) :
  s.Exact r
  := by
  constructor
  · rw [h.held]
    apply p.nodup
  · intro addr haddr
    rw [h.held] at haddr
    apply AddrRange.inside_of_mem_pages (p.mem_entries addr haddr)
  · rw [h.full_iff]
    constructor
    · intro hfull i hi
      apply hfull _ (AddrRange.mem_pages.mpr ⟨i, hi, rfl⟩)
    · intro hfull addr haddr
      obtain ⟨i, hi, rfl⟩ := AddrRange.mem_pages.mp haddr
      apply hfull i hi
  · intro hne
    rcases h.addrAllocPage with ⟨hzero, -, -⟩ | ⟨-, hnext, -⟩
    · cases hne hzero
    · have hleast := Pool.isLeast_next r.sorted_pages hnext
      simp only [AddrRange.mem_pages] at hleast
      rw [h.held]
      apply hleast
  · intro hend hpage addr haddr hout
    apply h.outside hend hpage haddr hout

theorem exact_of_reachable (h : (pageRuns r bits).Reachable (fun _ => True) s) :
  s.Exact r
  := by
  have hkeeps : ∃ p, s.Keeps r p := by
    apply h.invariant (I := fun s => ∃ p, s.Keeps r p)
    · intro s hs
      exact ⟨_, Keeps.init hs⟩
    · rintro s e s' ⟨p, hs⟩ - hstep
      exact hs.step hstep
  obtain ⟨p, hs⟩ := hkeeps
  exact hs.exact

/-- Two pages above 1 MiB. -/
def twoPages : AddrRange where
  start := memExtStart
  size := 2 * memPageSize
  pageSize := memPageSize
  start_pos := by decide
  pageSize_pos := by decide
  aligned := by decide
  end_le := by decide
  fits := by decide

/-- Nothing is held. -/
def unused : PageRun where
  alloc := addrAllocInit (fun _ => 0) memExtStart (2 * memPageSize) memPageSize
  held := []

theorem exact_secondPage :
  (unused.allocate.allocate.release memExtStart).Exact twoPages
  := by
  have hinit : (pageRuns twoPages fun _ => 0).Reachable (fun _ => True) unused :=
    Reachable.init rfl
  have hfirst := hinit.step trivial (Step.alloc _)
  have hboth := hfirst.step trivial (Step.alloc _)
  have hheld : memExtStart ∈ unused.allocate.allocate.held := by decide +kernel
  exact exact_of_reachable (hboth.step trivial (Step.free _ hheld))

end PageRun

end Dmos
