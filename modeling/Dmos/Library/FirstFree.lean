import Mathlib.Order.Lattice

/-!
# The first free entry

Holders take the first entry of a table that is not marked, and mark it later.  Between the
two steps the entry can go to another holder as well; whether it does is decided by the
entries that are held and not marked yet (`exclusive_take_iff`).
-/

namespace FirstFree

variable {H E : Type} {holds holds' : H → E → Prop} {entries : List E} {marked : E → Bool}
  {h : H} {i : E}

/-- No entry has two holders. -/
def Exclusive (holds : H → E → Prop) : Prop :=
  ∀ h h' i, holds h i → holds h' i → h = h'

/-- The first entry that is not marked. -/
def firstFree (entries : List E) (marked : E → Bool) : Option E :=
  entries.find? fun i => !marked i

theorem mem_of_firstFree (h : firstFree entries marked = some i) :
  i ∈ entries
  := List.mem_of_find?_eq_some h

theorem marked_of_firstFree (h : firstFree entries marked = some i) :
  marked i = false
  := by simpa using List.find?_some h

theorem exists_firstFree (hi : i ∈ entries) (hmarked : marked i = false) :
  ∃ j, firstFree entries marked = some j
  := by
  rw [← Option.isSome_iff_exists, firstFree, List.find?_isSome]
  refine ⟨i, hi, ?_⟩
  rw [hmarked]
  rfl

/-- Holders that give entries up keep to themselves what they have. -/
theorem Exclusive.mono (hexclusive : Exclusive holds) (hle : ∀ h i, holds' h i → holds h i) :
  Exclusive holds'
  := fun h₁ h₂ i hi₁ hi₂ => hexclusive h₁ h₂ i (hle h₁ i hi₁) (hle h₂ i hi₂)

variable [LinearOrder E]

/-- Every entry that is held and not marked has a free one in front of it. -/
def Spare (entries : List E) (marked : E → Bool) (holds : H → E → Prop) : Prop :=
  ∀ h i, holds h i → marked i = false → ∃ j ∈ entries, j < i ∧ marked j = false

/-- In a sorted table no entry in front of the first free one is free. -/
theorem le_of_firstFree (hsorted : entries.Pairwise (· < ·))
    (h : firstFree entries marked = some i) {j : E} (hj : j ∈ entries)
    (hmarked : marked j = false) :
  i ≤ j
  := by
  obtain ⟨-, as, bs, rfl, has⟩ := List.find?_eq_some_iff_append.mp h
  rw [List.pairwise_append, List.pairwise_cons] at hsorted
  rw [List.mem_append, List.mem_cons] at hj
  rcases hj with hj | rfl | hj
  · have := has j hj
    rw [hmarked] at this
    cases this
  · apply le_refl
  · apply le_of_lt (hsorted.2.1.1 j hj)

/-- After a holder without an entry has taken the first free one, every entry still has one
holder exactly if those held and not marked have a free one in front of them. -/
theorem exclusive_take_iff (hsorted : entries.Pairwise (· < ·))
    (hmem : ∀ h i, holds h i → i ∈ entries) (hexclusive : Exclusive holds)
    (hnone : ∀ i, ¬ holds h i) (hself : ∀ i, holds' h i ↔ firstFree entries marked = some i)
    (hother : ∀ h' i, h' ≠ h → (holds' h' i ↔ holds h' i)) :
  Exclusive holds' ↔ Spare entries marked holds
  := by
  have hne : ∀ {h' i}, holds h' i → h' ≠ h := by
    rintro h' i hi rfl
    apply hnone i hi
  constructor
  · intro hexclusive' h' i hi hmarked
    obtain ⟨k, hk⟩ := exists_firstFree (hmem h' i hi) hmarked
    refine ⟨k, mem_of_firstFree hk, ?_, marked_of_firstFree hk⟩
    apply lt_of_le_of_ne (le_of_firstFree hsorted hk (hmem h' i hi) hmarked)
    rintro rfl
    apply hne hi
    apply hexclusive' h' h k
    · rwa [hother h' k (hne hi)]
    · rwa [hself]
  · intro hspare
    -- the entry taken is nobody else's
    have hfree : ∀ h' i, firstFree entries marked = some i → ¬ holds h' i := by
      intro h' i hi hheld
      obtain ⟨j, hj, hlt, hmarked⟩ := hspare h' i hheld (marked_of_firstFree hi)
      apply not_lt_of_ge (le_of_firstFree hsorted hi hj hmarked) hlt
    intro h₁ h₂ i hi₁ hi₂
    by_cases heq₁ : h₁ = h
    · by_cases heq₂ : h₂ = h
      · rw [heq₁, heq₂]
      · rw [heq₁, hself] at hi₁
        rw [hother h₂ i heq₂] at hi₂
        cases hfree h₂ i hi₁ hi₂
    · rw [hother h₁ i heq₁] at hi₁
      by_cases heq₂ : h₂ = h
      · rw [heq₂, hself] at hi₂
        cases hfree h₁ i hi₂ hi₁
      · rw [hother h₂ i heq₂] at hi₂
        apply hexclusive h₁ h₂ i hi₁ hi₂

end FirstFree
