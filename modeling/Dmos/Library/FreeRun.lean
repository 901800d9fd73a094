import Mathlib.Order.Bounds.Basic

/-!
# Runs of free entries

The entries of a table of `size` entries, some of them free.  A search for `n` free entries in a
row can pass over every place up to an entry that is not free (`FirstRun.skip`).
-/

namespace FreeRun

variable {free : Nat → Prop} {size n x y : Nat}

/-- The `n` entries from `x` on are entries of the table, and all of them are free. -/
structure IsRun (free : Nat → Prop) (size n x : Nat) : Prop where
  inside : x + n ≤ size
  free : ∀ j < n, free (x + j)

theorem IsRun.mono (h : IsRun free size n x) {k : Nat} (hk : k ≤ n) :
  IsRun free size k x
  := ⟨by have := h.inside; omega, fun j hj => h.free j (by omega)⟩

/-- One more entry. -/
theorem isRun_succ :
  IsRun free size (n + 1) x ↔ IsRun free size n x ∧ x + n < size ∧ free (x + n)
  := by
  constructor
  · intro h
    have hinside := h.inside
    exact ⟨h.mono (Nat.le_succ n), by omega, h.free n (Nat.lt_succ_self n)⟩
  · rintro ⟨h, hlt, hfree⟩
    refine ⟨by omega, ?_⟩
    intro j hj
    rcases Nat.lt_succ_iff_lt_or_eq.mp hj with hj | rfl
    · apply h.free j hj
    · apply hfree

/-- No run goes over an entry that is not free. -/
theorem IsRun.not_mem (h : IsRun free size n x) (hy : ¬ free y) :
  ¬ (x ≤ y ∧ y < x + n)
  := by
  rintro ⟨hle, hlt⟩
  apply hy
  rw [show y = x + (y - x) by omega]
  apply h.free
  omega

/-- The first run from `start` on. -/
def FirstRun (free : Nat → Prop) (size n start x : Nat) : Prop :=
  IsLeast { x | start ≤ x ∧ IsRun free size n x } x

/-- A search goes on behind places where no run starts. -/
theorem FirstRun.skip {start start' : Nat} (hle : start ≤ start')
    (hskip : ∀ x, start ≤ x → x < start' → ¬ IsRun free size n x)
    (h : FirstRun free size n start' x) :
  FirstRun free size n start x
  := by
  refine ⟨⟨hle.trans h.1.1, h.1.2⟩, ?_⟩
  rintro y ⟨hy, hrun⟩
  apply h.2
  refine ⟨?_, hrun⟩
  by_contra hlt
  apply hskip y hy (by omega) hrun

theorem firstRun_self (h : IsRun free size n x) :
  FirstRun free size n x x
  := ⟨⟨le_refl x, h⟩, fun _ hy => hy.1⟩

end FreeRun
