import Dmos.Kernel.BitmapRuns
import Dmos.Kernel.HeldPages

/-!
# Page ranges that are held

Ranges of several pages are allocated and freed in any order.  The last bit of a range is not
read before it is taken, so a range is free only if the first run of clear bits that is long
enough for the others is followed by one more (`EndsClear`).  In runs in which it always is, no
two ranges that are held overlap (`sound_allocation`).
-/

open FreeRun TransitionSystem

namespace Dmos

namespace bitmapAllocNbits

variable {bitmap : Bitmap} {count : Nat}

/-- An index that is returned is the first of `count` clear bits inside of the bitmap, and these
bits are set and no other. -/
def Sound (bitmap : Bitmap) (count : Nat) : Prop :=
  ∀ idx : Nat, (bitmapAllocNbits bitmap 0 count).1 = idx →
    idx + count ≤ bitmap.bitCount ∧
    (∀ j < count, bitmapGetBit bitmap (idx + j) = 0) ∧
    (∀ j < count, bitmapGetBit (bitmapAllocNbits bitmap 0 count).2 (idx + j) = 1) ∧
    ∀ i < bitmap.bitCount, i < idx ∨ idx + count ≤ i →
      bitmapGetBit (bitmapAllocNbits bitmap 0 count).2 i = bitmapGetBit bitmap i

/-- A single bit, or the first run of all bits but one, if there is such a run, goes on with a
clear bit inside of the bitmap. -/
def EndsClear (bitmap : Bitmap) (count : Nat) : Prop :=
  count = 1 ∨ ∀ x, FirstRun bitmap.Clear bitmap.bitCount (count - 1) 0 x →
    x + (count - 1) < bitmap.bitCount ∧ bitmap.Clear (x + (count - 1))

/-- The run that is found is one of `count` bits. -/
theorem EndsClear.clearRun (h : EndsClear bitmap count) (hcount : 1 ≤ count) {x : Nat}
    (hx : FirstRun bitmap.Clear bitmap.bitCount (reads count) 0 x) :
  bitmap.ClearRun count x
  := by
  by_cases hone : count = 1
  · rw [hone] at hx ⊢
    exact hx.1.2
  · have hreads : reads count = count - 1 := by
      unfold reads
      omega
    rw [hreads] at hx
    have hmore := h.resolve_left hone x hx
    have hrun := isRun_succ.mpr ⟨hx.1.2, hmore⟩
    rwa [Nat.sub_add_cancel hcount] at hrun

/-- The bits of a run that is taken are set, and no others. -/
theorem bitmapGetBit_take {x i : Nat} (hi : i < bitmap.bitCount) :
  bitmapGetBit (bitmapSetBit bitmap x count (~~~ 0)) i
    = if x ≤ i ∧ i < x + count then 1 else bitmapGetBit bitmap i
  := by
  rw [bitmapGetBit_setBit _ _ _ _ hi, if_pos (show (~~~(0 : Int)) ≠ 0 by decide)]

theorem sound_of_clearRun {x : Nat} (hrun : bitmap.ClearRun count x)
    (hr : bitmapAllocNbits bitmap 0 count = ((x : Int), bitmapSetBit bitmap x count (~~~ 0))) :
  Sound bitmap count
  := by
  intro idx hidx
  rw [hr] at hidx ⊢
  have heq : x = idx := by
    have : (x : Int) = idx := hidx
    omega
  subst heq
  have hinside := hrun.inside
  refine ⟨hinside, hrun.free, ?_, ?_⟩
  · intro j hj
    rw [bitmapGetBit_take (by omega), if_pos (by omega)]
  · intro i hi hout
    rw [bitmapGetBit_take hi, if_neg (by omega)]

theorem sound_iff (hcount : 1 ≤ count) :
  Sound bitmap count ↔ EndsClear bitmap count
  := by
  constructor
  · intro hsound
    by_cases hone : count = 1
    · exact .inl hone
    · right
      intro x hx
      have hreads : reads count = count - 1 := by
        unfold reads
        omega
      rcases found_bitmapAllocNbits bitmap hcount with ⟨y, hy, hr⟩ | ⟨hnone, -⟩
      · rw [hreads] at hy
        obtain rfl := hy.unique hx
        obtain ⟨hinside, hclear, -⟩ := hsound y (by rw [hr])
        exact ⟨by omega, hclear (count - 1) (by omega)⟩
      · rw [hreads] at hnone
        exact absurd hx.1.2 (hnone x hx.1.1)
  · intro hends
    rcases found_bitmapAllocNbits bitmap hcount with ⟨x, hx, hr⟩ | ⟨-, hr⟩
    · exact sound_of_clearRun (hends.clearRun hcount hx) hr
    · intro idx hidx
      rw [hr] at hidx
      have : (-1 : Int) = idx := hidx
      omega

end bitmapAllocNbits

open bitmapAllocNbits

/-- The allocator, and the ranges it has returned that have not been freed since: their addresses
and numbers of pages. -/
structure RangeRun where
  alloc : AddrAlloc
  held : List (Nat × Nat)

inductive RangeEvent where
  | alloc (pageCount : Nat)
  | free (addr pageCount : Nat)

namespace RangeRun

def allocate (s : RangeRun) (pageCount : Nat) : RangeRun where
  alloc := (addrAllocPage s.alloc pageCount).2
  held :=
    if (addrAllocPage s.alloc pageCount).1 = 0 then s.held
    else ((addrAllocPage s.alloc pageCount).1, pageCount) :: s.held

def release (s : RangeRun) (addr pageCount : Nat) : RangeRun where
  alloc := addrFreePage s.alloc addr pageCount
  held := s.held.erase (addr, pageCount)

inductive Step : RangeRun → RangeEvent → RangeRun → Prop
  | alloc (s : RangeRun) {pageCount : Nat} : 1 ≤ pageCount →
      Step s (.alloc pageCount) (s.allocate pageCount)
  | free (s : RangeRun) {addr pageCount : Nat} : (addr, pageCount) ∈ s.held →
      Step s (.free addr pageCount) (s.release addr pageCount)

/-- A call that allocates finds a run that ends with a clear bit. -/
def Meets (s : RangeRun) : RangeEvent → Prop
  | .alloc pageCount => EndsClear s.alloc.bitmap pageCount
  | .free _ _ => True

end RangeRun

/-- Ranges of pages of the range `r`, whose bits are somewhere in memory. -/
def rangeRuns (r : AddrRange) (bits : Nat → UInt8) : TransitionSystem RangeRun RangeEvent where
  init s := s = { alloc := addrAllocInit bits r.start r.size r.pageSize, held := [] }
  step := RangeRun.Step

namespace RangeRun

variable {r : AddrRange} {bits : Nat → UInt8} {s s' : RangeRun}

/-- Two ranges do not overlap. -/
def Apart (r : AddrRange) (a b : Nat × Nat) : Prop :=
  a.1 + a.2 * r.pageSize ≤ b.1 ∨ b.1 + b.2 * r.pageSize ≤ a.1

/-- The bits of a range that is held. -/
structure Taken (r : AddrRange) (bitmap : Bitmap) (a : Nat × Nat) (i : Nat) : Prop where
  addr : a.1 = r.start + i * r.pageSize
  pos : 1 ≤ a.2
  inside : i + a.2 ≤ r.count
  set : ∀ j < a.2, bitmapGetBit bitmap (i + j) ≠ 0

structure Keeps (r : AddrRange) (s : RangeRun) : Prop where
  start : s.alloc.start = r.start
  pageSize : s.alloc.pageSize = r.pageSize
  bitCount : s.alloc.bitmap.bitCount = r.count
  taken : ∀ a ∈ s.held, ∃ i, Taken r s.alloc.bitmap a i
  apart : s.held.Pairwise (Apart r)

theorem Keeps.init (hs : (rangeRuns r bits).init s) :
  s.Keeps r
  := by
  obtain rfl : s = _ := hs
  exact ⟨rfl, rfl, rfl, nofun, List.Pairwise.nil⟩

theorem page_lt {i : Nat} (hi : i < r.count) :
  r.start + i * r.pageSize < 2 ^ 32
  := by
  have hin := AddrRange.inside_of_mem_pages (AddrRange.mem_pages.mpr ⟨i, hi, rfl⟩)
  have hend := r.end_le
  have hpos := r.pageSize_pos
  omega

/-- Ranges are apart when their bits are. -/
theorem apart_iff {a b : Nat × Nat} {i j : Nat} (ha : a.1 = r.start + i * r.pageSize)
    (hb : b.1 = r.start + j * r.pageSize) :
  Apart r a b ↔ i + a.2 ≤ j ∨ j + b.2 ≤ i
  := by
  have hpages (x y n : Nat) : r.start + x * r.pageSize + n * r.pageSize ≤ r.start + y * r.pageSize
      ↔ x + n ≤ y := by
    rw [Nat.add_assoc, ← Nat.add_mul, Nat.add_le_add_iff_left,
      Nat.mul_le_mul_right_iff r.pageSize_pos]
  rw [Apart, ha, hb, hpages, hpages]

/-- A run of clear bits is apart from every range that is held. -/
theorem Taken.apart {bitmap : Bitmap} {a : Nat × Nat} {i n x : Nat} (h : Taken r bitmap a i)
    (hn : 1 ≤ n) (hrun : bitmap.ClearRun n x) :
  x + n ≤ i ∨ i + a.2 ≤ x
  := by
  have hpos := h.pos
  by_contra hover
  -- the first bit of the one that begins later is in both
  rcases Nat.le_total x i with hle | hle
  · have hclear : bitmap.Clear (x + (i - x)) := hrun.free (i - x) (by omega)
    rw [show x + (i - x) = i + 0 by omega] at hclear
    exact h.set 0 hpos hclear
  · have hset := h.set (x - i) (by omega)
    rw [show i + (x - i) = x + 0 by omega] at hset
    exact hset (hrun.free 0 hn)

theorem Keeps.allocate (h : s.Keeps r) {pageCount : Nat} (hpos : 1 ≤ pageCount)
    (hends : EndsClear s.alloc.bitmap pageCount) :
  (s.allocate pageCount).Keeps r
  := by
  have hcount := h.bitCount
  rcases found_bitmapAllocNbits s.alloc.bitmap hpos with ⟨x, hx, hr⟩ | ⟨-, hr⟩
  · have hrun := hends.clearRun hpos hx
    have hinside := hrun.inside
    have haddr : u32 (s.alloc.start + x * s.alloc.pageSize) = r.start + x * r.pageSize := by
      rw [h.start, h.pageSize]
      exact u32_of_lt (page_lt (by omega))
    have halloc : addrAllocPage s.alloc pageCount = (r.start + x * r.pageSize,
        { s.alloc with bitmap := bitmapSetBit s.alloc.bitmap x pageCount (~~~ 0) }) := by
      rw [addrAllocPage, hr]
      dsimp only
      rw [if_pos (Int.natCast_nonneg x), Int.toNat_natCast, haddr]
    have hne : r.start + x * r.pageSize ≠ 0 := by
      have := r.start_pos
      omega
    rw [RangeRun.allocate, halloc]
    dsimp only
    rw [if_neg hne]
    refine ⟨h.start, h.pageSize, (bitmapSetBit_bitCount _ _ _ _).trans hcount, ?_, ?_⟩
    · intro a ha
      rcases List.mem_cons.mp ha with rfl | ha
      · refine ⟨x, rfl, hpos, by omega, ?_⟩
        intro j hj
        dsimp only at hj ⊢
        rw [bitmapGetBit_take (by omega), if_pos (by omega)]
        decide
      · obtain ⟨i, htaken⟩ := h.taken a ha
        refine ⟨i, htaken.addr, htaken.pos, htaken.inside, ?_⟩
        intro j hj
        have hin := htaken.inside
        dsimp only
        rw [bitmapGetBit_take (by omega)]
        split_ifs
        · decide
        · apply htaken.set j hj
    · rw [List.pairwise_cons]
      refine ⟨?_, h.apart⟩
      intro a ha
      obtain ⟨i, htaken⟩ := h.taken a ha
      exact (apart_iff rfl htaken.addr).mpr (htaken.apart hpos hrun)
  · have halloc : addrAllocPage s.alloc pageCount = (0, s.alloc) := by
      rw [addrAllocPage, hr]
      rfl
    rw [RangeRun.allocate, halloc]
    exact h

theorem Keeps.release (h : s.Keeps r) {addr pageCount : Nat}
    (hheld : (addr, pageCount) ∈ s.held) :
  (s.release addr pageCount).Keeps r
  := by
  obtain ⟨i, htaken⟩ := h.taken _ hheld
  have haddr : addr = r.start + i * r.pageSize := htaken.addr
  have hindex : u32Sub addr s.alloc.start / s.alloc.pageSize = i := by
    have hinside := htaken.inside
    have hpos := htaken.pos
    rw [h.start, h.pageSize, haddr,
      u32Sub_of_le (Nat.le_add_right _ _) (page_lt (by omega)), Nat.add_sub_cancel_left,
      Nat.mul_div_cancel _ r.pageSize_pos]
  -- the other ranges are apart from it
  have hother : ∀ a ∈ s.held.erase (addr, pageCount), Apart r (addr, pageCount) a := by
    have hpairwise := ((List.perm_cons_erase hheld).pairwise_iff Or.symm).mp h.apart
    exact (List.pairwise_cons.mp hpairwise).1
  rw [RangeRun.release, addrFreePage, hindex]
  refine ⟨h.start, h.pageSize, (bitmapSetBit_bitCount _ _ _ _).trans h.bitCount, ?_,
    h.apart.sublist List.erase_sublist⟩
  intro a ha
  obtain ⟨k, hk⟩ := h.taken a (List.mem_of_mem_erase ha)
  have hapart := (apart_iff htaken.addr hk.addr).mp (hother a ha)
  refine ⟨k, hk.addr, hk.pos, hk.inside, ?_⟩
  intro j hj
  have hin := hk.inside
  have hcount := h.bitCount
  dsimp only at hapart ⊢
  rw [bitmapGetBit_setBit _ _ _ _ (by omega), if_neg (by omega)]
  apply hk.set j hj

theorem Keeps.step {e : RangeEvent} (h : s.Keeps r) (hmeets : s.Meets e) (hstep : Step s e s') :
  s'.Keeps r
  := by
  cases hstep with
  | alloc hpos => exact h.allocate hpos hmeets
  | free hheld => exact h.release hheld

/-- No two ranges that are held overlap. -/
def Disjoint (r : AddrRange) (s : RangeRun) : Prop :=
  s.held.Pairwise (Apart r)

theorem disjoint_of_reachable
    (h : ((rangeRuns r bits).restrict Meets).Reachable (fun _ => True) s) :
  s.Disjoint r
  := by
  have hkeeps : s.Keeps r := by
    apply h.invariant
    · intro s hs
      exact Keeps.init hs
    · rintro s e s' hs - ⟨hmeets, hstep⟩
      exact hs.step hmeets hstep
  exact hkeeps.apart

end RangeRun

/-- A call is sound exactly when the run it finds goes on with a clear bit, and runs of such calls
hand out ranges that do not overlap. -/
theorem sound_allocation (bitmap : Bitmap) {count : Nat} (hcount : 1 ≤ count) (r : AddrRange)
    (bits : Nat → UInt8) :
  (Sound bitmap count ↔ EndsClear bitmap count) ∧
    ∀ s, ((rangeRuns r bits).restrict RangeRun.Meets).Reachable (fun _ => True) s →
      s.Disjoint r
  := ⟨sound_iff hcount, fun _ h => RangeRun.disjoint_of_reachable h⟩

theorem sound_allocation_twoSet :
  Sound twoSet 3 ↔ EndsClear twoSet 3
  := (sound_allocation twoSet (show 1 ≤ 3 by decide) PageRun.twoPages (fun _ => 0)).1

namespace RangeRun

open PageRun (twoPages)

/-- Nothing is held. -/
def unused : RangeRun where
  alloc := addrAllocInit (fun _ => 0) memExtStart (2 * memPageSize) memPageSize
  held := []

/-- Two clear bits from the first on, with only the second one set, and two pages from the first
on, with the second one held. -/
theorem not_sound_allocation :
  ¬ Sound { bitCount := 8, bits := fun _ => 2 } 2 ∧
    ∃ s, (rangeRuns twoPages fun _ => 0).Reachable (fun _ => True) s ∧ ¬ s.Disjoint twoPages
  := by
  constructor
  · intro hsound
    obtain ⟨-, hclear, -⟩ := hsound 0 (by decide)
    exact absurd (hclear 1 (by decide)) (by decide)
  · have hinit : (rangeRuns twoPages fun _ => 0).Reachable (fun _ => True) unused :=
      Reachable.init rfl
    have hfirst := hinit.step trivial (Step.alloc _ (le_refl 1))
    have hboth := hfirst.step trivial (Step.alloc _ (le_refl 1))
    have hfree := hboth.step trivial (Step.free _ (show (memExtStart, 1) ∈ _ by decide +kernel))
    have hrange := hfree.step trivial (Step.alloc _ (show 1 ≤ 2 by decide))
    refine ⟨_, hrange, ?_⟩
    have hheld : ((((unused.allocate 1).allocate 1).release memExtStart 1).allocate 2).held
        = [(memExtStart, 2), (memExtStart + memPageSize, 1)] := by decide +kernel
    rw [Disjoint, hheld, List.pairwise_cons]
    intro hapart
    have hover := hapart.1 _ (List.mem_singleton_self _)
    revert hover
    unfold Apart
    decide

end RangeRun

end Dmos
