import Mathlib.Algebra.BigOperators.Group.Finset.Basic
import Mathlib.Algebra.BigOperators.Group.Finset.Piecewise
import Mathlib.Algebra.Order.BigOperators.Group.Finset
import Mathlib.Data.Fintype.Basic

/-!
# Tallies

A tally counts something for each of finitely many parties.  When it changes for one of them,
the total changes by as much.
-/

namespace Tally

variable {T : Type} [Fintype T]

/-- The sum over all parties. -/
def total (f : T → Nat) : Nat :=
  ∑ t, f t

/-- Tallies that agree for all but one party. -/
theorem total_add_of_eq_off [DecidableEq T] {f g : T → Nat} {t : T} (h : ∀ u, u ≠ t → g u = f u) :
  total g + f t = total f + g t
  := by
  have hrest : ∑ u ∈ Finset.univ.erase t, g u = ∑ u ∈ Finset.univ.erase t, f u := by
    apply Finset.sum_congr rfl
    intro u hu
    apply h u (Finset.ne_of_mem_erase hu)
  rw [total, total, ← Finset.add_sum_erase _ g (Finset.mem_univ t),
    ← Finset.add_sum_erase _ f (Finset.mem_univ t), hrest]
  omega

theorem le_total (f : T → Nat) (t : T) :
  f t ≤ total f
  := Finset.single_le_sum (fun _ _ => Nat.zero_le _) (Finset.mem_univ t)

theorem total_eq_zero {f : T → Nat} (h : ∀ t, f t = 0) :
  total f = 0
  := Finset.sum_eq_zero fun t _ => h t

/-- A tally of one for each of some parties and for each of some others. -/
theorem total_eq_card_add_card {P Q : T → Prop} [DecidablePred P] [DecidablePred Q] {f : T → Nat}
    (h : ∀ t, f t = (if P t then 1 else 0) + if Q t then 1 else 0) :
  total f = (Finset.univ.filter P).card + (Finset.univ.filter Q).card
  := by
  rw [Finset.card_filter, Finset.card_filter, ← Finset.sum_add_distrib, total]
  apply Finset.sum_congr rfl
  intro t _
  apply h

end Tally
