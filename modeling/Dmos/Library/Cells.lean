import Mathlib

/-!
# Cells inside of intervals

A row of cells of one size, and disjoint intervals of numbers.  Every cell is inside of one of
the intervals exactly when the row begins in an interval, and where an interval ends in the row,
it ends between two cells and another interval begins there (`Seamless.cellsInside`,
`CellsInside.seamless`).
-/

namespace Cells

variable {ι : Type*}

/-- The first `n` cells of `size` numbers from `a` on are each inside of an interval of `S`. -/
def CellsInside (S : Set ι) (lo hi : ι → Nat) (a size n : Nat) : Prop :=
  ∀ c < n, ∃ i ∈ S, lo i ≤ a + c * size ∧ a + c * size + size ≤ hi i

/-- The row begins in an interval, and an interval that ends in it ends between two cells, where
another one begins. -/
structure Seamless (S : Set ι) (lo hi : ι → Nat) (a size n : Nat) : Prop where
  start : ∃ i ∈ S, lo i ≤ a ∧ a < hi i
  seam : ∀ i ∈ S, lo i < hi i → a < hi i → hi i < a + n * size →
    size ∣ hi i - a ∧ ∃ j ∈ S, lo j < hi j ∧ lo j = hi i

theorem cell_end_le (size : Nat) {c n : Nat} (hc : c < n) :
  c * size + size ≤ n * size
  := by
  rw [← Nat.succ_mul]
  apply Nat.mul_le_mul_right size hc

variable {S : Set ι} {lo hi : ι → Nat} {a size n : Nat}

/-- An interval does not end in the middle of a cell. -/
theorem Seamless.cell_le (h : Seamless S lo hi a size n) {i : ι} (hi' : i ∈ S) {c : Nat}
    (hc : c < n) (hle : lo i ≤ a + c * size) (hlt : a + c * size < hi i) :
  a + c * size + size ≤ hi i
  := by
  have hend := cell_end_le size hc
  by_cases hlast : hi i < a + n * size
  · obtain ⟨⟨q, hq⟩, -⟩ := h.seam i hi' (by omega) (by omega) hlast
    have hcq : c < q := by
      apply Nat.lt_of_mul_lt_mul_left (a := size)
      rw [Nat.mul_comm]
      omega
    have hnext := cell_end_le size hcq
    rw [Nat.mul_comm] at hq
    omega
  · omega

theorem Seamless.cellsInside (h : Seamless S lo hi a size n) :
  CellsInside S lo hi a size n
  := by
  intro c hc
  induction c with
  | zero =>
      obtain ⟨i, hi', hle, hlt⟩ := h.start
      rw [← Nat.add_zero a, ← Nat.zero_mul size] at hle hlt
      exact ⟨i, hi', hle, h.cell_le hi' hc hle hlt⟩
  | succ c ih =>
      obtain ⟨i, hi', hle, hend⟩ := ih (by omega)
      have hlast := cell_end_le size hc
      have hmul := Nat.add_one_mul c size
      by_cases hmore : a + (c + 1) * size < hi i
      · exact ⟨i, hi', by omega, h.cell_le hi' hc (by omega) hmore⟩
      · by_cases hsize : size = 0
        · exact ⟨i, hi', by omega, by omega⟩
        · -- the interval ends with the cell, and the next one goes on
          obtain ⟨-, j, hj, hlt, hstart⟩ := h.seam i hi' (by omega) (by omega) (by omega)
          exact ⟨j, hj, by omega, h.cell_le hj hc (by omega) (by omega)⟩

theorem CellsInside.seamless (h : CellsInside S lo hi a size n) (hsize : 0 < size) (hn : 0 < n)
    (hdisjoint : S.PairwiseDisjoint fun i => Set.Ico (lo i) (hi i)) :
  Seamless S lo hi a size n
  := by
  constructor
  · obtain ⟨i, hi', hle, hend⟩ := h 0 hn
    exact ⟨i, hi', by omega, by omega⟩
  · intro i hi' hne hgt hlt
    -- the cell with the last number of the interval
    obtain ⟨c, hc⟩ : ∃ c, c = (hi i - 1 - a) / size := ⟨_, rfl⟩
    have hdiv := Nat.div_add_mod (hi i - 1 - a) size
    have hmod := Nat.mod_lt (hi i - 1 - a) hsize
    rw [← hc, Nat.mul_comm] at hdiv
    have hcn : c < n := by
      apply Nat.lt_of_mul_lt_mul_right (a := size)
      omega
    have hlast (j : ι) (hj : j ∈ S) (hle : lo j ≤ hi i - 1) (hend : hi i ≤ hi j) : j = i := by
      apply hdisjoint.elim_set hj hi' (hi i - 1)
      · exact ⟨hle, by omega⟩
      · exact ⟨by omega, by omega⟩
    obtain ⟨j, hj, hle, hend⟩ := h c hcn
    obtain rfl := hlast j hj (by omega) (by omega)
    have hmul := Nat.add_one_mul c size
    have hsame : hi j - a = size * (c + 1) := by
      rw [Nat.mul_comm]
      omega
    have hnext : c + 1 < n := by
      apply Nat.lt_of_mul_lt_mul_right (a := size)
      omega
    obtain ⟨k, hk, hle', hend'⟩ := h (c + 1) hnext
    have hstart : lo k = hi j := by
      by_contra hbefore
      obtain rfl := hlast k hk (by omega) (by omega)
      omega
    exact ⟨⟨c + 1, hsame⟩, k, hk, by omega, hstart⟩

end Cells
