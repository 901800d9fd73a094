import Mathlib.Data.List.Basic
import Mathlib.Logic.Function.Basic
import Mathlib.Tactic.SplitIfs

/-!
# Circular buffers

A buffer of `size` cells holds a sequence from the place `read` on, which goes on at place zero
behind the last cell.  `index` is the place of an item and `contents` the sequence.  An item goes
in at its end (`contents_push`) and comes out at its front (`contents_pop`).
-/

namespace RingBuffer

variable {α : Type} {size read n : Int}

/-- The place of item `k`. -/
def index (size read k : Int) : Int :=
  if read + k < size then read + k else read + k - size

/-- The place behind place `i`. -/
def advance (size i : Int) : Int :=
  if size ≤ i + 1 then 0 else i + 1

theorem index_zero (h : read < size) :
  index size read 0 = read
  := by
  rw [index, Int.add_zero, if_pos h]

theorem index_range (hread : 0 ≤ read) (hsize : read < size) (hn : 0 ≤ n) (h : n ≤ size) :
  0 ≤ index size read n ∧ index size read n < size
  := by
  unfold index
  split_ifs <;> omega

/-- Different items have different places. -/
theorem index_ne (hread : 0 ≤ read) (hsize : read < size) {k : Int} (hk : 0 ≤ k) (hkn : k < n)
    (h : n < size) :
  index size read k ≠ index size read n
  := by
  unfold index
  split_ifs <;> omega

theorem advance_range (hread : 0 ≤ read) (hsize : read < size) :
  0 ≤ advance size read ∧ advance size read < size
  := by
  unfold advance
  split_ifs <;> omega

theorem advance_index (hsize : read < size) (h : n < size) :
  advance size (index size read n) = index size read (n + 1)
  := by
  unfold advance index
  split_ifs <;> omega

theorem index_advance (hsize : read < size) (hn : 0 ≤ n) (h : n < size) :
  index size (advance size read) n = index size read (n + 1)
  := by
  unfold advance index
  split_ifs <;> omega

/-- The `n` items from `read` on. -/
def contents (buf : Int → α) (size read : Int) (n : Nat) : List α :=
  (List.range n).map fun k : Nat => buf (index size read k)

theorem length_contents (buf : Int → α) (size read : Int) (n : Nat) :
  (contents buf size read n).length = n
  := by rw [contents, List.length_map, List.length_range]

theorem contents_push (buf : Int → α) (hread : 0 ≤ read) (hsize : read < size) {n : Nat}
    (h : (n : Int) < size) (x : α) :
  contents (Function.update buf (index size read n) x) size read (n + 1)
    = contents buf size read n ++ [x]
  := by
  rw [contents, List.range_succ, List.map_append, List.map_singleton, Function.update_self]
  congr 1
  apply List.map_congr_left
  intro k hk
  rw [List.mem_range] at hk
  apply Function.update_of_ne
  apply index_ne hread hsize <;> omega

theorem contents_pop (buf : Int → α) (hsize : read < size) {n : Nat} (h : (n : Int) < size) :
  contents buf size read (n + 1) = buf read :: contents buf size (advance size read) n
  := by
  rw [contents, List.range_succ_eq_map, List.map_cons, List.map_map]
  congr 1
  · rw [Int.natCast_zero, index_zero hsize]
  · apply List.map_congr_left
    intro k hk
    rw [List.mem_range] at hk
    have hindex := index_advance hsize (n := k) (by omega) (by omega)
    rw [hindex]
    rfl

end RingBuffer
