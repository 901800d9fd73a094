/-!
# Exclusive ownership

Places own resources.  Ownership is exclusive when every owned resource is in use and no
resource is owned from two places.  The lemmas say how exclusivity survives the steps of
an allocator: a place taking over a resource nobody owns, places giving theirs up, and
resources being released that nobody owns any more.
-/

/-- Every owned resource is in use, and owned from one place only. -/
structure Exclusive {P R : Type} (owns : P → R → Prop) (used : R → Prop) : Prop where
  used_of_owns : ∀ {p r}, owns p r → used r
  unique : ∀ {p q r}, owns p r → owns q r → p = q

namespace Exclusive

variable {P R : Type} {owns owns' : P → R → Prop} {used used' : R → Prop}

/-- Exclusivity survives when places only give up resources and those still owned stay
in use. -/
theorem shrink (h : Exclusive owns used) (hown : ∀ p r, owns' p r → owns p r)
    (hused : ∀ p r, owns' p r → used' r) :
  Exclusive owns' used'
  where
  used_of_owns hp := hused _ _ hp
  unique hp hq := h.unique (hown _ _ hp) (hown _ _ hq)

/-- More resources may be in use than are owned. -/
theorem grow_used (h : Exclusive owns used) (hused : ∀ r, used r → used' r) :
  Exclusive owns used'
  := by
  apply h.shrink (fun _ _ hp => hp)
  intro p r hp
  apply hused
  apply h.used_of_owns hp

/-- A place may replace what it owns by a used resource that no place owned. -/
theorem take (h : Exclusive owns used) {q : P} {r : R} (hfree : ∀ p, ¬ owns p r)
    (hused : used r)
    (hown : ∀ p s, owns' p s → (p ≠ q ∧ owns p s) ∨ (p = q ∧ s = r)) :
  Exclusive owns' used
  where
  used_of_owns {p s} hp := by
    rcases hown p s hp with ⟨-, hp⟩ | ⟨-, rfl⟩
    · apply h.used_of_owns hp
    · apply hused
  unique {p p' s} hp hp' := by
    rcases hown p s hp with ⟨-, ho⟩ | ⟨rfl, rfl⟩
    · rcases hown p' s hp' with ⟨-, ho'⟩ | ⟨rfl, rfl⟩
      · apply h.unique ho ho'
      · cases hfree p ho
    · rcases hown p' s hp' with ⟨-, ho'⟩ | ⟨rfl, -⟩
      · cases hfree p' ho'
      · rfl

end Exclusive
