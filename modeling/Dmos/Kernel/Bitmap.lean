import Dmos.Library.ByteMemory
import Mathlib.Data.List.Range
import Mathlib.Tactic.IntervalCases

/-!
# The packed bitmap

The bitmap of `lib/bitmap.c`: bits stored eight to a byte.  `bitmapAllocNbits` searches a
run of bits and inverts it; for runs of one bit it takes the first bit of the wanted
value (`bitmapAllocNbits_one`).
-/

open ByteMemory

namespace Dmos

/-- A bitmap: its number of bits and the bytes holding them. -/
structure Bitmap where
  bitCount : Nat
  bits : Nat → UInt8

/-- The number of bytes that hold `bitCount` bits. -/
def bitmapByteCount (bitCount : Nat) : Nat :=
  (bitCount + 8 - 1) / 8

def bitmapInit (bits : Nat → UInt8) (count : Nat) (initBit : Int) : Bitmap where
  bitCount := count
  bits := fill bits 0 (if initBit ≠ 0 then 0xFF else 0) (bitmapByteCount count)

/-- The byte with bit `index % 8` set. -/
def bitMask (index : Nat) : UInt8 :=
  1 <<< UInt8.ofNat (index % 8)

def bitmapGetBit (bitmap : Bitmap) (index : Nat) : Int :=
  if bitmap.bits (index / 8) &&& bitMask index ≠ 0 then 1 else 0

def bitmapSetBit (bitmap : Bitmap) (index : Nat) (count : Nat) (bit : Int) : Bitmap :=
  match count with
  | 0 => bitmap
  | count + 1 =>
      if index < bitmap.bitCount then
        let byte := bitmap.bits (index / 8)
        let byte := if bit ≠ 0 then byte ||| bitMask index else byte &&& ~~~ bitMask index
        bitmapSetBit { bitmap with bits := store8 bitmap.bits (index / 8) byte }
          (index + 1) count bit
      else bitmap

/-- The inner loop of `bitmapAllocNbits`, with `n` passes left: the values of `ok_idx`,
`i` and `search_idx` when it ends. -/
def bitmapAllocNbits.run (bitmap : Bitmap) (bit : Int) (okIdx : Int) :
    Nat → Nat → Nat → Int × Nat × Nat
  | 0, i, searchIdx => (okIdx, i, searchIdx)
  | n + 1, i, searchIdx =>
      if searchIdx < bitmap.bitCount then
        if bitmapGetBit bitmap searchIdx ≠ bit then (-1, i, searchIdx + 1)
        else run bitmap bit okIdx n (i + 1) (searchIdx + 1)
      else (okIdx, i, searchIdx)

/-- The outer loop of `bitmapAllocNbits`.  Every pass that does not return advances
`search_idx`, so `bitCount` passes reach the end of the bitmap. -/
def bitmapAllocNbits.search (bitmap : Bitmap) (bit : Int) (count : Nat) :
    Nat → Nat → Int × Bitmap
  | 0, _ => (-1, bitmap)
  | fuel + 1, searchIdx =>
      if searchIdx < bitmap.bitCount then
        if bitmapGetBit bitmap searchIdx ≠ bit then search bitmap bit count fuel (searchIdx + 1)
        else
          match run bitmap bit searchIdx (count - 1) 1 searchIdx with
          | (okIdx, i, searchIdx) =>
              if count ≤ i then (okIdx, bitmapSetBit bitmap okIdx.toNat count (~~~ bit))
              else search bitmap bit count fuel searchIdx
      else (-1, bitmap)

def bitmapAllocNbits (bitmap : Bitmap) (bit : Int) (count : Nat) : Int × Bitmap :=
  bitmapAllocNbits.search bitmap bit count bitmap.bitCount 0

/-! ### Single bits -/

theorem bitMask_toNat (index : Nat) :
  (bitMask index).toNat = 2 ^ (index % 8)
  := by
  have h : index % 8 < 8 := Nat.mod_lt _ (by decide)
  unfold bitMask
  generalize index % 8 = k at h
  interval_cases k <;> rfl

theorem and_bitMask_ne_zero (byte : UInt8) (index : Nat) :
  byte &&& bitMask index ≠ 0 ↔ byte.toNat.testBit (index % 8) = true
  := by
  rw [ne_eq, ← UInt8.toNat_inj, UInt8.toNat_and, bitMask_toNat, Nat.and_two_pow]
  cases byte.toNat.testBit (index % 8) <;> simp

/-- The bit read by `bitmapGetBit`, as a bit of the number in its byte. -/
theorem bitmapGetBit_eq (bitmap : Bitmap) (index : Nat) :
  bitmapGetBit bitmap index
    = if (bitmap.bits (index / 8)).toNat.testBit (index % 8) then 1 else 0
  := if_congr (and_bitMask_ne_zero _ _) rfl rfl

theorem bitmapGetBit_eq_zero_or_one (bitmap : Bitmap) (index : Nat) :
  bitmapGetBit bitmap index = 0 ∨ bitmapGetBit bitmap index = 1
  := by
  rw [bitmapGetBit_eq]
  split_ifs
  · right
    rfl
  · left
    rfl

theorem testBit_or_bitMask (byte : UInt8) (index k : Nat) :
  (byte ||| bitMask index).toNat.testBit k = (byte.toNat.testBit k || decide (index % 8 = k))
  := by
  rw [UInt8.toNat_or, Nat.testBit_or, bitMask_toNat, Nat.testBit_two_pow]

theorem testBit_and_not_bitMask (byte : UInt8) (index : Nat) {k : Nat} (hk : k < 8) :
  (byte &&& ~~~ bitMask index).toNat.testBit k
    = (byte.toNat.testBit k && !decide (index % 8 = k))
  := by
  rw [UInt8.toNat_and, Nat.testBit_and]
  congr 1
  have h : index % 8 < 8 := Nat.mod_lt _ (by decide)
  unfold bitMask
  generalize index % 8 = i at h
  interval_cases i <;> interval_cases k <;> rfl

/-! ### Setting bits -/

@[simp]
theorem bitmapSetBit_bitCount (bitmap : Bitmap) (index count : Nat) (bit : Int) :
  (bitmapSetBit bitmap index count bit).bitCount = bitmap.bitCount
  := by
  induction count generalizing bitmap index with
  | zero => rfl
  | succ count ih =>
      rw [bitmapSetBit]
      split
      · rw [ih]
      · rfl

/-- The bits of one pass of the loop of `bitmapSetBit`. -/
theorem bitmapGetBit_store (bitmap : Bitmap) (index j : Nat) (bit : Int) :
  bitmapGetBit
      { bitmap with
        bits := store8 bitmap.bits (index / 8)
          (if bit ≠ 0 then bitmap.bits (index / 8) ||| bitMask index
            else bitmap.bits (index / 8) &&& ~~~ bitMask index) } j
    = if j = index then (if bit ≠ 0 then 1 else 0) else bitmapGetBit bitmap j
  := by
  simp only [bitmapGetBit_eq]
  by_cases hbyte : j / 8 = index / 8
  · simp only [hbyte, store8_same]
    have hbit : (index % 8 = j % 8) ↔ j = index := by omega
    by_cases hset : bit ≠ 0
    · simp only [if_pos hset, testBit_or_bitMask, hbit]
      by_cases hj : j = index
      · simp [hj]
      · simp [hj]
    · simp only [if_neg hset, testBit_and_not_bitMask _ _ (Nat.mod_lt j (by decide : 0 < 8)),
        hbit]
      by_cases hj : j = index
      · simp [hj]
      · simp [hj]
  · simp only [store8_of_ne _ _ hbyte]
    rw [if_neg (fun hj : j = index => hbyte (by rw [hj]))]

/-- `bitmapSetBit` gives the bits of its range that lie inside the bitmap the value asked
for, and leaves the other bits alone. -/
theorem bitmapGetBit_setBit (bitmap : Bitmap) (index count : Nat) (bit : Int) {j : Nat}
    (hj : j < bitmap.bitCount) :
  bitmapGetBit (bitmapSetBit bitmap index count bit) j
    = if index ≤ j ∧ j < index + count then (if bit ≠ 0 then 1 else 0)
      else bitmapGetBit bitmap j
  := by
  induction count generalizing bitmap index with
  | zero =>
      rw [if_neg (by omega)]
      rfl
  | succ count ih =>
      rw [bitmapSetBit]
      by_cases hindex : index < bitmap.bitCount
      · simp only [if_pos hindex]
        rw [ih _ _ (by simpa using hj), bitmapGetBit_store]
        by_cases hrange : index + 1 ≤ j ∧ j < index + 1 + count
        · rw [if_pos hrange, if_pos (show index ≤ j ∧ j < index + (count + 1) by omega)]
        · rw [if_neg hrange]
          by_cases hfirst : j = index
          · rw [if_pos hfirst, if_pos (show index ≤ j ∧ j < index + (count + 1) by omega)]
          · rw [if_neg hfirst, if_neg (show ¬ (index ≤ j ∧ j < index + (count + 1)) by omega)]
      · rw [if_neg hindex, if_neg (show ¬ (index ≤ j ∧ j < index + (count + 1)) by omega)]

/-! ### The first clear bit -/

/-- The indices of the clear bits, in ascending order. -/
def Bitmap.clearBits (bitmap : Bitmap) : List Nat :=
  (List.range bitmap.bitCount).filter (fun i => bitmapGetBit bitmap i = 0)

theorem Bitmap.mem_clearBits {bitmap : Bitmap} {i : Nat} :
  i ∈ bitmap.clearBits ↔ i < bitmap.bitCount ∧ bitmapGetBit bitmap i = 0
  := by
  simp [Bitmap.clearBits]

/-- All bits of a new bitmap are what was asked for. -/
theorem bitmapGetBit_init (bits : Nat → UInt8) {n j : Nat} (initBit : Int) (h : j < n) :
  bitmapGetBit (bitmapInit bits n initBit) j = if initBit ≠ 0 then 1 else 0
  := by
  have hbyte : (bitmapInit bits n initBit).bits (j / 8) = if initBit ≠ 0 then 0xFF else 0 := by
    simp only [bitmapInit, fill_apply, bitmapByteCount]
    rw [if_pos (by omega)]
  have hbit : j % 8 < 8 := Nat.mod_lt _ (by decide)
  rw [bitmapGetBit_eq, hbyte]
  by_cases hinit : initBit ≠ 0
  · rw [if_pos hinit, if_pos hinit, if_pos]
    change (2 ^ 8 - 1).testBit (j % 8) = true
    rw [Nat.testBit_two_pow_sub_one, decide_eq_true hbit]
  · rw [if_neg hinit, if_neg hinit, if_neg]
    change ¬ (0 : Nat).testBit (j % 8) = true
    rw [Nat.zero_testBit]
    decide

theorem bitmapGetBit_init_zero (bits : Nat → UInt8) {count index : Nat} (h : index < count) :
  bitmapGetBit (bitmapInit bits count 0) index = 0
  := by
  rw [bitmapGetBit_init bits 0 h]
  rfl

/-- All bits of a new bitmap are clear. -/
theorem Bitmap.clearBits_init (bits : Nat → UInt8) (count : Nat) :
  (bitmapInit bits count 0).clearBits = List.range count
  := by
  apply List.filter_eq_self.mpr
  intro i hi
  simp only [decide_eq_true_eq]
  apply bitmapGetBit_init_zero
  apply List.mem_range.mp hi

theorem Bitmap.nodup_clearBits (bitmap : Bitmap) :
  bitmap.clearBits.Nodup
  := List.nodup_range.filter _

/-- The search for a single clear bit, from `searchIdx` on. -/
theorem bitmapAllocNbits_search_one (bitmap : Bitmap) {fuel searchIdx : Nat}
    (h : bitmap.bitCount ≤ searchIdx + fuel) :
  bitmapAllocNbits.search bitmap 0 1 fuel searchIdx
    = match (List.range' searchIdx (bitmap.bitCount - searchIdx)).filter
          (fun i => bitmapGetBit bitmap i = 0) with
      | [] => (-1, bitmap)
      | i :: _ => ((i : Int), bitmapSetBit bitmap i 1 (~~~ 0))
  := by
  induction fuel generalizing searchIdx with
  | zero =>
      rw [show bitmap.bitCount - searchIdx = 0 by omega]
      rfl
  | succ fuel ih =>
      rw [bitmapAllocNbits.search]
      by_cases hrange : searchIdx < bitmap.bitCount
      · rw [if_pos hrange, show bitmap.bitCount - searchIdx
            = (bitmap.bitCount - (searchIdx + 1)) + 1 by omega, List.range'_succ]
        by_cases hbit : bitmapGetBit bitmap searchIdx = 0
        · rw [if_neg (by simp [hbit]), List.filter_cons_of_pos (by simp [hbit])]
          rfl
        · rw [if_pos hbit, List.filter_cons_of_neg (by simp [hbit])]
          apply ih (by omega)
      · rw [if_neg hrange, show bitmap.bitCount - searchIdx = 0 by omega]
        rfl

/-- Allocating one bit sets the first clear bit, and fails if there is none. -/
theorem bitmapAllocNbits_one (bitmap : Bitmap) :
  bitmapAllocNbits bitmap 0 1
    = match bitmap.clearBits with
      | [] => (-1, bitmap)
      | i :: _ => ((i : Int), bitmapSetBit bitmap i 1 (~~~ 0))
  := by
  rw [bitmapAllocNbits, bitmapAllocNbits_search_one bitmap (by omega), Bitmap.clearBits,
    List.range_eq_range', Nat.sub_zero]

/-- Setting the first clear bit leaves the other clear bits. -/
theorem Bitmap.clearBits_setBit {bitmap : Bitmap} {i : Nat} {rest : List Nat}
    (h : bitmap.clearBits = i :: rest) :
  (bitmapSetBit bitmap i 1 (~~~ 0)).clearBits = rest
  := by
  have hnodup := bitmap.nodup_clearBits
  have hsplit : (bitmapSetBit bitmap i 1 (~~~ 0)).clearBits
      = bitmap.clearBits.filter (fun j => j ≠ i)
    := by
    unfold Bitmap.clearBits
    rw [bitmapSetBit_bitCount, List.filter_filter]
    apply List.filter_congr
    intro j hj
    rw [bitmapGetBit_setBit _ _ _ _ (List.mem_range.mp hj)]
    by_cases hji : j = i
    · rw [if_pos (by omega), if_pos (by decide)]
      simp [hji]
    · rw [if_neg (by omega)]
      simp [hji]
  rw [h, List.nodup_cons] at hnodup
  rw [hsplit, h, List.filter_cons_of_neg (by simp)]
  apply List.filter_eq_self.mpr
  intro j hj
  have hne : j ≠ i := by
    rintro rfl
    apply hnodup.1 hj
  simp [hne]

end Dmos
