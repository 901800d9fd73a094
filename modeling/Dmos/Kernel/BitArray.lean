import Dmos.Kernel.Bitmap

/-!
# The bitmap as an array

A bitmap stands for an array of Booleans (`Bitmap.array`).  `bitmap_set_bit` sets a range of the
array, which may begin and end inside of bytes and may run past the end (`setRange`), and writes
no byte behind those that hold the bits.  So a bitmap on which any ranges have been set, one after
the other, stands for the array on which they have been set (`array_setBits`), in the same bytes.
-/

open ByteMemory

namespace Dmos

/-- The array with `b` in a range, as far as there is an array. -/
def setRange (a : List Bool) (index count : Nat) (b : Bool) : List Bool :=
  a.mapIdx fun j old => if index ≤ j ∧ j < index + count then b else old

/-- A call of `bitmap_set_bit`. -/
structure SetBit where
  index : Nat
  count : Nat
  bit : Int

namespace Bitmap

variable {bitmap : Bitmap} {j b : Nat}

/-- The array that a bitmap stands for. -/
def array (bitmap : Bitmap) : List Bool :=
  (List.range bitmap.bitCount).map fun j => bitmapGetBit bitmap j ≠ 0

/-- The calls one after the other. -/
def setBits (bitmap : Bitmap) (calls : List SetBit) : Bitmap :=
  calls.foldl (fun bitmap c => bitmapSetBit bitmap c.index c.count c.bit) bitmap

@[simp]
theorem length_array (bitmap : Bitmap) :
  bitmap.array.length = bitmap.bitCount
  := by simp [array]

theorem getElem_array (h : j < bitmap.array.length) :
  bitmap.array[j] = decide (bitmapGetBit bitmap j ≠ 0)
  := by simp [array]

/-! ### Initialization -/

theorem array_init (bits : Nat → UInt8) (n : Nat) (initBit : Int) :
  (bitmapInit bits n initBit).array = List.replicate n (decide (initBit ≠ 0))
  := by
  apply List.ext_getElem
  · rw [length_array, List.length_replicate]
    rfl
  · intro j hj _
    have hlt : j < n := by
      rw [length_array] at hj
      exact hj
    rw [getElem_array, List.getElem_replicate, bitmapGetBit_init bits initBit hlt]
    by_cases hinit : initBit ≠ 0
    · simp [hinit]
    · simp [hinit]

/-! ### Setting bits -/

/-- No byte is written behind those that hold the bits. -/
theorem bits_setBit_of_le (bitmap : Bitmap) (index count : Nat) (bit : Int)
    (h : bitmapByteCount bitmap.bitCount ≤ b) :
  (bitmapSetBit bitmap index count bit).bits b = bitmap.bits b
  := by
  induction count generalizing bitmap index with
  | zero => rfl
  | succ count ih =>
      rw [bitmapSetBit]
      by_cases hindex : index < bitmap.bitCount
      · have hne : b ≠ index / 8 := by
          unfold bitmapByteCount at h
          omega
        rw [if_pos hindex]
        apply (ih _ _ _).trans
        · apply store8_of_ne _ _ hne
        · apply h
      · rw [if_neg hindex]

theorem array_setBit (bitmap : Bitmap) (index count : Nat) (bit : Int) :
  (bitmapSetBit bitmap index count bit).array
    = setRange bitmap.array index count (decide (bit ≠ 0))
  := by
  apply List.ext_getElem
  · simp [setRange]
  · intro j hj _
    have hlt : j < bitmap.bitCount := by simpa using hj
    simp only [setRange, List.getElem_mapIdx, getElem_array,
      bitmapGetBit_setBit bitmap index count bit hlt]
    by_cases hrange : index ≤ j ∧ j < index + count
    · rw [if_pos hrange, if_pos hrange]
      by_cases hbit : bit ≠ 0
      · simp [hbit]
      · simp [hbit]
    · rw [if_neg hrange, if_neg hrange]

/-- The bitmap and the array after any calls. -/
theorem array_setBits (bitmap : Bitmap) (calls : List SetBit) :
  (bitmap.setBits calls).array
    = calls.foldl (fun a c => setRange a c.index c.count (decide (c.bit ≠ 0))) bitmap.array
  := by
  induction calls generalizing bitmap with
  | nil => rfl
  | cons c calls ih =>
      rw [setBits, List.foldl_cons, List.foldl_cons, ← array_setBit]
      apply ih

theorem bits_setBits_of_le (bitmap : Bitmap) (calls : List SetBit)
    (h : bitmapByteCount bitmap.bitCount ≤ b) :
  (bitmap.setBits calls).bits b = bitmap.bits b
  := by
  induction calls generalizing bitmap with
  | nil => rfl
  | cons c calls ih =>
      rw [setBits, List.foldl_cons]
      rw [← bits_setBit_of_le bitmap c.index c.count c.bit h]
      apply ih
      rw [bitmapSetBit_bitCount]
      apply h

/-- A bitmap is an array of Booleans: setting bits gives those of the range the value asked for
and keeps the others, in the bytes that hold the bits, and a new bitmap has the value asked for
everywhere. -/
theorem represents_array (bitmap : Bitmap) (index count : Nat) (bit : Int) (bits : Nat → UInt8)
    (n : Nat) (initBit : Int) :
  (∀ j < bitmap.bitCount, bitmapGetBit (bitmapSetBit bitmap index count bit) j
      = if index ≤ j ∧ j < index + count then (if bit ≠ 0 then 1 else 0)
        else bitmapGetBit bitmap j)
    ∧ (∀ b, bitmapByteCount bitmap.bitCount ≤ b →
      (bitmapSetBit bitmap index count bit).bits b = bitmap.bits b)
    ∧ (bitmapInit bits n initBit).bitCount = n
    ∧ ∀ j < n, bitmapGetBit (bitmapInit bits n initBit) j = if initBit ≠ 0 then 1 else 0
  := by
  refine ⟨?_, ?_, rfl, ?_⟩
  · intro j hj
    apply bitmapGetBit_setBit bitmap index count bit hj
  · intro b hb
    apply bits_setBit_of_le bitmap index count bit hb
  · intro j hj
    apply bitmapGetBit_init bits initBit hj

end Bitmap

end Dmos
