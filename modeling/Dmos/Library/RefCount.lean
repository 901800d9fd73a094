import Mathlib.Data.Finset.Card
import Mathlib.Data.Fintype.Basic

/-!
# Reference counts

Holders refer to objects, each to one at most, and each object counts its references.  The
counts stay right when a holder takes a reference and the object counts it.  When holders drop
references that are not counted off, the counts are too high from then on
(`Counted.drop_iff`), but an object that counts none is still unused (`Covered.unused`).
-/

namespace RefCount

variable {H O : Type} [Fintype H] [DecidableEq O] {holds holds' : H → Option O} {ref : O → Int}
  {h : H} {o : O}

/-- The holders of an object. -/
def holders (holds : H → Option O) (o : O) : Finset H :=
  Finset.univ.filter fun h => holds h = some o

/-- Each object counts its references. -/
def Counted (holds : H → Option O) (ref : O → Int) : Prop :=
  ∀ o, ref o = (holders holds o).card

/-- No object counts too few references. -/
def Covered (holds : H → Option O) (ref : O → Int) : Prop :=
  ∀ o, (holders holds o).card ≤ ref o

theorem mem_holders :
  h ∈ holders holds o ↔ holds h = some o
  := by simp [holders]

theorem Counted.covered (hc : Counted holds ref) :
  Covered holds ref
  := fun o => (hc o).ge

/-- An object without references has no holders. -/
theorem Covered.unused (hc : Covered holds ref) (hzero : ref o = 0) (h : H) :
  holds h ≠ some o
  := by
  intro heq
  have hpos := Finset.card_pos.mpr ⟨h, mem_holders.mpr heq⟩
  have hle := hc o
  omega

/-- No object has more holders when references are dropped. -/
theorem holders_subset (hdrop : ∀ h, holds' h = holds h ∨ holds' h = none) (o : O) :
  holders holds' o ⊆ holders holds o
  := by
  intro h hh
  rw [mem_holders] at hh ⊢
  rcases hdrop h with heq | hnone
  · rw [← heq, hh]
  · rw [hnone] at hh
    cases hh

theorem Covered.drop (hc : Covered holds ref)
    (hdrop : ∀ h, holds' h = holds h ∨ holds' h = none) :
  Covered holds' ref
  := by
  intro o
  have hcard := Finset.card_le_card (holders_subset hdrop o)
  have hle := hc o
  omega

/-- Dropping references without counting them off is right when there are none. -/
theorem Counted.drop_iff (hc : Counted holds ref)
    (hdrop : ∀ h, holds' h = holds h ∨ holds' h = none) :
  Counted holds' ref ↔ holds' = holds
  := by
  constructor
  · intro hc'
    funext h
    rcases hdrop h with heq | hnone
    · exact heq
    · rcases hholds : holds h with _ | o
      · exact hnone
      · -- the object has lost the holder `h`
        have hcard : (holders holds' o).card = (holders holds o).card := by
          have hcount := hc o
          have hcount' := hc' o
          omega
        have hsame := Finset.eq_of_subset_of_card_le (holders_subset hdrop o) hcard.ge
        have hmem := mem_holders.mpr hholds
        rw [← hsame, mem_holders] at hmem
        exact hmem
  · rintro rfl
    exact hc

section Take

variable [DecidableEq H] (hnone : holds h = none)

include hnone

omit hnone in
theorem holders_take :
  holders (Function.update holds h (some o)) o = insert h (holders holds o)
  := by
  ext k
  rw [Finset.mem_insert, mem_holders, mem_holders]
  by_cases hk : k = h
  · rw [hk, Function.update_self]
    exact iff_of_true rfl (.inl rfl)
  · rw [Function.update_of_ne hk]
    exact (or_iff_right hk).symm

theorem holders_take_of_ne {p : O} (hne : p ≠ o) :
  holders (Function.update holds h (some o)) p = holders holds p
  := by
  ext k
  rw [mem_holders, mem_holders]
  by_cases hk : k = h
  · rw [hk, Function.update_self, hnone]
    apply iff_of_false _ nofun
    rintro heq
    apply hne (Option.some.inj heq).symm
  · rw [Function.update_of_ne hk]

/-- The number of holders when `h` takes a reference to `o`. -/
theorem card_holders_take (o p : O) :
  ((holders (Function.update holds h (some o)) p).card : Int)
    = (holders holds p).card + if p = o then 1 else 0
  := by
  split_ifs with hp
  · rw [hp, holders_take, Finset.card_insert_of_notMem, Int.natCast_succ]
    rw [mem_holders, hnone]
    nofun
  · rw [holders_take_of_ne hnone hp, Int.add_zero]

/-- A reference that is counted. -/
theorem Counted.take (hc : Counted holds ref) (o : O) :
  Counted (Function.update holds h (some o)) (Function.update ref o (ref o + 1))
  := by
  intro p
  rw [card_holders_take hnone, ← hc p]
  split_ifs with hp
  · rw [hp, Function.update_self]
  · rw [Function.update_of_ne hp, Int.add_zero]

theorem Covered.take (hc : Covered holds ref) (o : O) :
  Covered (Function.update holds h (some o)) (Function.update ref o (ref o + 1))
  := by
  intro p
  have hle := hc p
  rw [card_holders_take hnone]
  split_ifs with hp
  · rw [hp] at hle ⊢
    rw [Function.update_self]
    omega
  · rw [Function.update_of_ne hp]
    omega

end Take

end RefCount
