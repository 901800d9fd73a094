import Dmos.Kernel.Bitmap
import Dmos.Library.FreeRun

/-!
# Runs of several bits

`bitmapAllocNbits` looks for `count` clear bits in a row.  Its inner loop reads the first of them
twice and the last one not at all, so it finds the first run of `count - 1` clear bits
(`Found.search`).  Hence it finds a run wherever there is one (`bitmapAllocNbits_complete`).
-/

open FreeRun

namespace Dmos

namespace Bitmap

/-- The bit is clear. -/
def Clear (bitmap : Bitmap) (i : Nat) : Prop :=
  bitmapGetBit bitmap i = 0

/-- A run of clear bits inside of the bitmap. -/
abbrev ClearRun (bitmap : Bitmap) (n x : Nat) : Prop :=
  IsRun bitmap.Clear bitmap.bitCount n x

end Bitmap

namespace bitmapAllocNbits

variable {bitmap : Bitmap} {count fuel searchIdx : Nat}

/-- The loop of `bitmap_alloc_nbits`, from a value of `search_idx` on, ends and returns `r`. -/
inductive Ends (bitmap : Bitmap) (bit : Int) (count : Nat) : Nat → Int × Bitmap → Prop
  | done {searchIdx : Nat} : ¬ searchIdx < bitmap.bitCount →
      Ends bitmap bit count searchIdx (-1, bitmap)
  | next {searchIdx : Nat} {r : Int × Bitmap} : searchIdx < bitmap.bitCount →
      bitmapGetBit bitmap searchIdx ≠ bit → Ends bitmap bit count (searchIdx + 1) r →
      Ends bitmap bit count searchIdx r
  | found {searchIdx i searchIdx' : Nat} {okIdx : Int} : searchIdx < bitmap.bitCount →
      bitmapGetBit bitmap searchIdx = bit →
      run bitmap bit searchIdx (count - 1) 1 searchIdx = (okIdx, i, searchIdx') → count ≤ i →
      Ends bitmap bit count searchIdx (okIdx, bitmapSetBit bitmap okIdx.toNat count (~~~ bit))
  | again {searchIdx i searchIdx' : Nat} {okIdx : Int} {r : Int × Bitmap} :
      searchIdx < bitmap.bitCount → bitmapGetBit bitmap searchIdx = bit →
      run bitmap bit searchIdx (count - 1) 1 searchIdx = (okIdx, i, searchIdx') → ¬ count ≤ i →
      Ends bitmap bit count searchIdx' r → Ends bitmap bit count searchIdx r

/-- The inner loop ends behind `n` clear bits, or before, at the end of the bitmap or behind the
first bit that is set. -/
theorem run_cases (okIdx : Int) (n i : Nat) (hle : searchIdx ≤ bitmap.bitCount) :
  (bitmap.ClearRun n searchIdx ∧
      run bitmap 0 okIdx n i searchIdx = (okIdx, i + n, searchIdx + n)) ∨
    ∃ m < n, (searchIdx + m = bitmap.bitCount ∧
        run bitmap 0 okIdx n i searchIdx = (okIdx, i + m, searchIdx + m)) ∨
      (searchIdx + m < bitmap.bitCount ∧ ¬ bitmap.Clear (searchIdx + m) ∧
        run bitmap 0 okIdx n i searchIdx = (-1, i + m, searchIdx + m + 1))
  := by
  induction n generalizing i searchIdx with
  | zero => exact .inl ⟨⟨hle, fun j hj => absurd hj (Nat.not_lt_zero j)⟩, rfl⟩
  | succ n ih =>
      rw [run]
      by_cases hlt : searchIdx < bitmap.bitCount
      · rw [if_pos hlt]
        by_cases hclear : bitmapGetBit bitmap searchIdx = 0
        · rw [if_neg (not_not.mpr hclear)]
          rcases ih (i + 1) (show searchIdx + 1 ≤ _ from hlt) with ⟨hrun, heq⟩ | ⟨m, hm, h⟩
          · left
            refine ⟨⟨by have := hrun.inside; omega, ?_⟩, ?_⟩
            · rintro (_ | j) hj
              · exact hclear
              · rw [← Nat.add_assoc, Nat.add_right_comm]
                apply hrun.free j (by omega)
            · rw [heq, Nat.add_right_comm i, Nat.add_right_comm searchIdx]
              rfl
          · right
            refine ⟨m + 1, by omega, ?_⟩
            rw [show searchIdx + (m + 1) = searchIdx + 1 + m by omega,
              show i + (m + 1) = i + 1 + m by omega]
            exact h
        · right
          refine ⟨0, by omega, .inr ⟨hlt, hclear, ?_⟩⟩
          rw [if_pos hclear]
          rfl
      · right
        refine ⟨0, by omega, .inl ⟨by omega, ?_⟩⟩
        rw [if_neg hlt]
        rfl

/-- The number of bits in a row that are read. -/
def reads (count : Nat) : Nat :=
  max 1 (count - 1)

/-- What the search returns that has come to `searchIdx`. -/
def Found (bitmap : Bitmap) (count searchIdx : Nat) (r : Int × Bitmap) : Prop :=
  (∃ x, FirstRun bitmap.Clear bitmap.bitCount (reads count) searchIdx x ∧
      r = ((x : Int), bitmapSetBit bitmap x count (~~~ 0))) ∨
    (∀ x, searchIdx ≤ x → ¬ bitmap.ClearRun (reads count) x) ∧ r = (-1, bitmap)

theorem Found.skip {searchIdx' : Nat} {r : Int × Bitmap} (hle : searchIdx ≤ searchIdx')
    (hskip : ∀ x, searchIdx ≤ x → x < searchIdx' → ¬ bitmap.ClearRun (reads count) x)
    (h : Found bitmap count searchIdx' r) :
  Found bitmap count searchIdx r
  := by
  rcases h with ⟨x, hx, hr⟩ | ⟨hnone, hr⟩
  · exact .inl ⟨x, hx.skip hle hskip, hr⟩
  · right
    refine ⟨?_, hr⟩
    intro x hx
    by_cases hlt : x < searchIdx'
    · apply hskip x hx hlt
    · apply hnone x (by omega)

theorem found_at_end (hge : ¬ searchIdx < bitmap.bitCount) :
  Found bitmap count searchIdx (-1, bitmap)
  := by
  right
  refine ⟨?_, rfl⟩
  intro x hx hrun
  have hinside := hrun.inside
  have hpos : 1 ≤ reads count := le_max_left 1 _
  omega

/-- Where a run would start in front of an entry that is not free, or too close to the end. -/
theorem not_clearRun_of_stop {m : Nat} (hm : m < count - 1)
    (hstop : bitmap.bitCount ≤ searchIdx + m ∨ ¬ bitmap.Clear (searchIdx + m)) {x : Nat}
    (hx : searchIdx ≤ x) (hx' : x ≤ searchIdx + m) :
  ¬ bitmap.ClearRun (reads count) x
  := by
  intro hrun
  have hreads : reads count = count - 1 := by
    unfold reads
    omega
  rw [hreads] at hrun
  rcases hstop with hend | hset
  · have := hrun.inside
    omega
  · apply hrun.not_mem hset
    omega

/-- One pass of the outer loop, at a clear bit. -/
theorem found_or_again (hcount : 1 ≤ count) (hlt : searchIdx < bitmap.bitCount)
    (hclear : bitmap.Clear searchIdx) :
  (bitmap.ClearRun (reads count) searchIdx ∧ ∃ searchIdx',
      run bitmap 0 searchIdx (count - 1) 1 searchIdx = ((searchIdx : Int), count, searchIdx')) ∨
    ∃ okIdx i searchIdx', ¬ count ≤ i ∧ searchIdx < searchIdx' ∧
      run bitmap 0 searchIdx (count - 1) 1 searchIdx = (okIdx, i, searchIdx') ∧
      ∀ x, searchIdx ≤ x → x < searchIdx' → ¬ bitmap.ClearRun (reads count) x
  := by
  rcases run_cases (searchIdx : Int) (count - 1) 1 hlt.le with ⟨hrun, heq⟩ | ⟨m, hm, h⟩
  · left
    refine ⟨?_, _, heq.trans (by rw [Nat.add_sub_cancel' hcount])⟩
    refine ⟨?_, ?_⟩
    · have := hrun.inside
      unfold reads
      omega
    · intro j hj
      by_cases hj' : j < count - 1
      · apply hrun.free j hj'
      · rw [show j = 0 by unfold reads at hj; omega]
        apply hclear
  · right
    rcases h with ⟨hend, heq⟩ | ⟨hin, hset, heq⟩
    · refine ⟨_, _, _, by omega, ?_, heq, ?_⟩
      · omega
      · intro x hx hx'
        apply not_clearRun_of_stop hm (.inl hend.ge) hx hx'.le
    · refine ⟨_, _, _, by omega, by omega, heq, ?_⟩
      intro x hx hx'
      apply not_clearRun_of_stop hm (.inr hset) hx (by omega)

/-- With fuel for the rest of the bitmap, the search ends like the loop of the code, and finds
the first run. -/
theorem Found.search (hcount : 1 ≤ count) (hfuel : bitmap.bitCount ≤ searchIdx + fuel) :
  Found bitmap count searchIdx (search bitmap 0 count fuel searchIdx) ∧
    Ends bitmap 0 count searchIdx (bitmapAllocNbits.search bitmap 0 count fuel searchIdx)
  := by
  induction fuel generalizing searchIdx with
  | zero => exact ⟨found_at_end (by omega), .done (by omega)⟩
  | succ fuel ih =>
      rw [bitmapAllocNbits.search]
      by_cases hlt : searchIdx < bitmap.bitCount
      · rw [if_pos hlt]
        by_cases hclear : bitmapGetBit bitmap searchIdx = 0
        · rw [if_neg (not_not.mpr hclear)]
          rcases found_or_again hcount hlt hclear with
            ⟨hrun, searchIdx', heq⟩ | ⟨okIdx, i, searchIdx', hi, hnext, heq, hskip⟩
          · rw [heq]
            dsimp only
            rw [if_pos (le_refl count)]
            exact ⟨.inl ⟨searchIdx, firstRun_self hrun, rfl⟩,
              .found hlt hclear heq (le_refl count)⟩
          · rw [heq]
            dsimp only
            rw [if_neg hi]
            obtain ⟨hfound, hends⟩ := ih (show bitmap.bitCount ≤ searchIdx' + fuel by omega)
            exact ⟨hfound.skip hnext.le hskip, .again hlt hclear heq hi hends⟩
        · rw [if_pos hclear]
          obtain ⟨hfound, hends⟩ := ih (show bitmap.bitCount ≤ searchIdx + 1 + fuel by omega)
          refine ⟨hfound.skip (Nat.le_succ searchIdx) ?_, .next hlt hclear hends⟩
          intro x hx hx' hrun
          apply hrun.not_mem hclear
          have hpos : 1 ≤ reads count := le_max_left 1 _
          omega
      · rw [if_neg hlt]
        exact ⟨found_at_end hlt, .done hlt⟩

/-- The loop returns one result only. -/
theorem Ends.eq_search {r : Int × Bitmap} (h : Ends bitmap 0 count searchIdx r)
    (hcount : 1 ≤ count) (hfuel : bitmap.bitCount ≤ searchIdx + fuel) :
  r = search bitmap 0 count fuel searchIdx
  := by
  induction h generalizing fuel with
  | done hge =>
      cases fuel with
      | zero => rfl
      | succ fuel => rw [search, if_neg hge]
  | @next searchIdx r hlt hbit hends ih =>
      obtain ⟨fuel, rfl⟩ : ∃ n, fuel = n + 1 := ⟨fuel - 1, by omega⟩
      rw [search, if_pos hlt, if_pos hbit]
      apply ih
      omega
  | found hlt hbit heq hle =>
      obtain ⟨fuel, rfl⟩ : ∃ n, fuel = n + 1 := ⟨fuel - 1, by omega⟩
      rw [search, if_pos hlt, if_neg (not_not.mpr hbit), heq]
      dsimp only
      rw [if_pos hle]
  | again hlt hbit heq hgt hends ih =>
      obtain ⟨fuel, rfl⟩ : ∃ n, fuel = n + 1 := ⟨fuel - 1, by omega⟩
      rw [search, if_pos hlt, if_neg (not_not.mpr hbit), heq]
      dsimp only
      rw [if_neg hgt]
      apply ih
      rcases found_or_again hcount hlt hbit with
        ⟨-, searchIdx', heq'⟩ | ⟨okIdx, i, searchIdx', -, hnext, heq', -⟩
      · rw [heq] at heq'
        cases heq'
        exact absurd (le_refl count) hgt
      · rw [heq] at heq'
        cases heq'
        omega

end bitmapAllocNbits

open bitmapAllocNbits

variable {bitmap : Bitmap} {count : Nat}

/-- What the search from the beginning returns. -/
theorem found_bitmapAllocNbits (bitmap : Bitmap) (hcount : 1 ≤ count) :
  Found bitmap count 0 (bitmapAllocNbits bitmap 0 count)
  := (Found.search hcount (Nat.le_add_left _ 0)).1

/-- The loop ends, with one result, which is not behind the first run of `count` clear bits if
there is one. -/
theorem bitmapAllocNbits_complete (hcount : 1 ≤ count) :
  (∀ r, Ends bitmap 0 count 0 r ↔ r = bitmapAllocNbits bitmap 0 count) ∧
    (∀ x, bitmap.ClearRun count x → (bitmapAllocNbits bitmap 0 count).1 ≠ -1 ∧
      (bitmapAllocNbits bitmap 0 count).1 ≤ x) ∧
    ((bitmapAllocNbits bitmap 0 count).1 = -1 → (bitmapAllocNbits bitmap 0 count).2 = bitmap)
  := by
  refine ⟨?_, ?_, ?_⟩
  · intro r
    constructor
    · intro hends
      apply hends.eq_search hcount (Nat.le_add_left _ 0)
    · rintro rfl
      exact (Found.search hcount (Nat.le_add_left _ 0)).2
  · intro y hy
    have hread : bitmap.ClearRun (reads count) y := hy.mono (by unfold reads; omega)
    rcases found_bitmapAllocNbits bitmap hcount with ⟨x, hx, hr⟩ | ⟨hnone, hr⟩
    · rw [hr]
      have hle : x ≤ y := hx.2 ⟨Nat.zero_le y, hread⟩
      constructor
      · show (x : Int) ≠ -1
        omega
      · show (x : Int) ≤ y
        omega
    · exact absurd hread (hnone y (Nat.zero_le y))
  · rcases found_bitmapAllocNbits bitmap hcount with ⟨x, hx, hr⟩ | ⟨hnone, hr⟩
    · rw [hr]
      intro h
      have : (x : Int) = -1 := h
      omega
    · rw [hr]
      intro _
      rfl

/-- Bits 1 and 4 of a byte are set. -/
def twoSet : Bitmap where
  bitCount := 8
  bits := fun _ => 18

theorem bitmapAllocNbits_complete_twoSet :
  (∀ r, Ends twoSet 0 3 0 r ↔ r = bitmapAllocNbits twoSet 0 3) ∧
    (∀ x, twoSet.ClearRun 3 x → (bitmapAllocNbits twoSet 0 3).1 ≠ -1 ∧
      (bitmapAllocNbits twoSet 0 3).1 ≤ x) ∧
    ((bitmapAllocNbits twoSet 0 3).1 = -1 → (bitmapAllocNbits twoSet 0 3).2 = twoSet)
  := bitmapAllocNbits_complete (by decide)

end Dmos
