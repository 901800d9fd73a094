import Mathlib.Logic.Function.Basic
import Mathlib.Algebra.Order.BigOperators.Group.List
import Mathlib.Algebra.Order.Ring.Int
import Mathlib.Data.List.Nodup

/-!
# Families of queues

A family of queues has a sequence of items for each place.  It is exclusive when no item
stands twice, neither in one queue nor in two (`Queues.Exclusive`).  Items move by `remove`
and `push`; both keep a family exclusive, `push` for an item that stands nowhere.
-/

/-- A sequence of items for each place. -/
abbrev Queues (P T : Type) : Type :=
  P → List T

namespace Queues

variable {P T : Type}

/-- The item stands in no queue. -/
def Absent (q : Queues P T) (t : T) : Prop :=
  ∀ p, t ∉ q p

/-- No item stands twice. -/
structure Exclusive (q : Queues P T) : Prop where
  nodup : ∀ p, (q p).Nodup
  unique : ∀ {p p' t}, t ∈ q p → t ∈ q p' → p = p'

variable [DecidableEq P] [DecidableEq T]

/-- The item `t` taken out of the queue at `p`. -/
def remove (q : Queues P T) (p : P) (t : T) : Queues P T :=
  Function.update q p ((q p).erase t)

/-- The item `t` put at the end of the queue at `p`. -/
def push (q : Queues P T) (p : P) (t : T) : Queues P T :=
  Function.update q p (q p ++ [t])

variable {q : Queues P T} {p p' : P} {t t' : T}

omit [DecidableEq T] in
@[simp]
theorem push_self :
  q.push p t p = q p ++ [t]
  := Function.update_self _ _ _

omit [DecidableEq T] in
@[simp]
theorem push_of_ne (h : p' ≠ p) :
  q.push p t p' = q p'
  := Function.update_of_ne h _ _

@[simp]
theorem remove_self :
  q.remove p t p = (q p).erase t
  := Function.update_self _ _ _

@[simp]
theorem remove_of_ne (h : p' ≠ p) :
  q.remove p t p' = q p'
  := Function.update_of_ne h _ _

omit [DecidableEq T] in
theorem mem_push :
  t' ∈ q.push p t p' ↔ t' ∈ q p' ∨ (p' = p ∧ t' = t)
  := by
  by_cases hp : p' = p
  · subst hp
    simp
  · simp [hp]

/-- What is left after an item was taken out. -/
theorem Exclusive.mem_remove (hq : Exclusive q) (ht : t ∈ q p) :
  t' ∈ q.remove p t p' ↔ t' ∈ q p' ∧ t' ≠ t
  := by
  by_cases hp : p' = p
  · subst hp
    rw [remove_self, (hq.nodup p').mem_erase_iff, and_comm]
  · rw [remove_of_ne hp]
    constructor
    · intro ht'
      use ht'
      rintro rfl
      apply hp (hq.unique ht' ht)
    · rintro ⟨ht', -⟩
      apply ht'

theorem Exclusive.absent_remove (hq : Exclusive q) (ht : t ∈ q p) :
  Absent (q.remove p t) t
  := by
  intro p' ht'
  rw [hq.mem_remove ht] at ht'
  apply ht'.2 rfl

theorem Exclusive.remove (hq : Exclusive q) (ht : t ∈ q p) :
  Exclusive (q.remove p t)
  := by
  constructor
  · intro p'
    by_cases hp : p' = p
    · subst hp
      rw [remove_self]
      apply (hq.nodup p').erase
    · rw [remove_of_ne hp]
      apply hq.nodup
  · intro p₁ p₂ t' h₁ h₂
    rw [hq.mem_remove ht] at h₁ h₂
    apply hq.unique h₁.1 h₂.1

omit [DecidableEq T] in
theorem Exclusive.push (hq : Exclusive q) (ht : Absent q t) :
  Exclusive (q.push p t)
  := by
  constructor
  · intro p'
    by_cases hp : p' = p
    · subst hp
      rw [push_self, List.nodup_append]
      use hq.nodup p', List.nodup_singleton t
      rintro a ha b hb rfl
      rw [List.mem_singleton] at hb
      apply ht p' (hb ▸ ha)
    · rw [push_of_ne hp]
      apply hq.nodup
  · intro p₁ p₂ t' h₁ h₂
    rw [mem_push] at h₁ h₂
    rcases h₁ with h₁ | ⟨rfl, rfl⟩ <;> rcases h₂ with h₂ | ⟨h₂, heq⟩
    · apply hq.unique h₁ h₂
    · subst heq
      cases ht _ h₁
    · cases ht _ h₂
    · rw [h₂]

omit [DecidableEq T] in
theorem absent_push :
  Absent (q.push p t) t' ↔ Absent q t' ∧ t' ≠ t
  := by
  constructor
  · intro h
    constructor
    · intro p' ht'
      apply h p'
      rw [mem_push]
      left
      apply ht'
    · rintro rfl
      apply h p
      rw [mem_push]
      right
      use rfl
  · rintro ⟨h, hne⟩ p' ht'
    rw [mem_push] at ht'
    rcases ht' with ht' | ⟨-, rfl⟩
    · apply h p' ht'
    · apply hne rfl

theorem Exclusive.absent_remove_iff (hq : Exclusive q) (ht : t ∈ q p) :
  Absent (q.remove p t) t' ↔ Absent q t' ∨ t' = t
  := by
  by_cases heq : t' = t
  · subst heq
    simp [hq.absent_remove ht]
  · constructor
    · intro h
      left
      intro p' ht'
      apply h p'
      rw [hq.mem_remove ht]
      use ht'
    · rintro (h | rfl)
      · intro p' ht'
        rw [hq.mem_remove ht] at ht'
        apply h p' ht'.1
      · apply hq.absent_remove ht

/-- The two families have the same items. -/
def SameItems (q q' : Queues P T) : Prop :=
  ∀ t, Absent q' t ↔ Absent q t

omit [DecidableEq P] [DecidableEq T] in
theorem SameItems.refl (q : Queues P T) :
  SameItems q q
  := fun _ => Iff.rfl

omit [DecidableEq P] [DecidableEq T] in
theorem SameItems.trans {q₁ q₂ q₃ : Queues P T} (h : SameItems q₁ q₂) (h' : SameItems q₂ q₃) :
  SameItems q₁ q₃
  := fun t => (h' t).trans (h t)

/-- An item that moves from one queue to another. -/
theorem Exclusive.sameItems_move (hq : Exclusive q) (ht : t ∈ q p) :
  SameItems q ((q.remove p t).push p' t)
  := by
  intro t'
  rw [absent_push, hq.absent_remove_iff ht]
  constructor
  · rintro ⟨h | h, hne⟩
    · apply h
    · cases hne h
  · intro h
    constructor
    · left
      apply h
    · rintro rfl
      apply h p ht

/-- Taking out the first item. -/
theorem remove_head {ts : List T} (h : q p = t :: ts) :
  q.remove p t p = ts
  := by
  rw [remove_self, h, List.erase_cons_head]

/-! ### Waiting in a queue -/

/-- What a queue does while items wait in it: the first may leave, and others come in at the
end. -/
def Advances (ts ts' : List T) : Prop :=
  ∃ us, ts' = ts ++ us ∨ ts' = ts.tail ++ us

omit [DecidableEq P] [DecidableEq T] in
theorem Advances.refl (ts : List T) :
  Advances ts ts
  := ⟨[], .inl (List.append_nil ts).symm⟩

/-- The items ahead of `x`. -/
def before (ts : List T) (x : T) : List T :=
  ts.take (ts.idxOf x)

omit [DecidableEq P] in
/-- Nothing that comes later gets ahead. -/
theorem before_append {ts : List T} {x : T} (hx : x ∈ ts) (us : List T) :
  before (ts ++ us) x = before ts x
  := by
  have hlt := List.idxOf_lt_length_of_mem hx
  rw [before, before, List.idxOf_append_of_mem hx, List.take_append_of_le_length (by omega)]

omit [DecidableEq P] in
theorem before_cons {ts : List T} {c x : T} (hne : c ≠ x) :
  before (c :: ts) x = c :: before ts x
  := by
  rw [before, before, List.idxOf_cons_ne _ hne, List.take_succ_cons]

omit [DecidableEq P] in
theorem before_head (ts : List T) (x : T) :
  before (x :: ts) x = []
  := by
  rw [before, List.idxOf_cons_self, List.take_zero]

/-- The weights of the items ahead of `x`, together. -/
def weightBefore (w : T → Int) (ts : List T) (x : T) : Int :=
  ((before ts x).map w).sum

variable {w w' : T → Int} {ts ts' : List T} {c x : T}

omit [DecidableEq P] in
theorem weightBefore_congr (h : ∀ t ∈ ts, w' t = w t) :
  weightBefore w' ts x = weightBefore w ts x
  := by
  rw [weightBefore, List.map_congr_left]
  · rfl
  · intro t ht
    apply h t (List.mem_of_mem_take ht)

omit [DecidableEq P] in
theorem weightBefore_append (hx : x ∈ ts) (us : List T) :
  weightBefore w (ts ++ us) x = weightBefore w ts x
  := by
  rw [weightBefore, before_append hx, weightBefore]

omit [DecidableEq P] in
theorem weightBefore_cons (hne : c ≠ x) :
  weightBefore w (c :: ts) x = w c + weightBefore w ts x
  := by
  rw [weightBefore, before_cons hne, List.map_cons, List.sum_cons, weightBefore]

omit [DecidableEq P] in
theorem weightBefore_head :
  weightBefore w (x :: ts) x = 0
  := by
  rw [weightBefore, before_head, List.map_nil, List.sum_nil]

omit [DecidableEq P] in
theorem weightBefore_nonneg (h : ∀ t ∈ ts, 0 ≤ w t) :
  0 ≤ weightBefore w ts x
  := by
  apply List.sum_nonneg
  intro n hn
  obtain ⟨t, ht, rfl⟩ := List.mem_map.mp hn
  apply h t (List.mem_of_mem_take ht)

omit [DecidableEq P] in
/-- Each item ahead adds at most the bound. -/
theorem weightBefore_le {n : Int} (h : ∀ t ∈ ts, w t ≤ n) :
  weightBefore w ts x ≤ n * ts.idxOf x
  := by
  have hsum : weightBefore w ts x ≤ ((before ts x).map w).length • n := by
    apply List.sum_le_card_nsmul
    intro k hk
    obtain ⟨t, ht, rfl⟩ := List.mem_map.mp hk
    apply h t (List.mem_of_mem_take ht)
  rw [List.length_map, before, List.length_take_of_le List.idxOf_le_length] at hsum
  rwa [nsmul_eq_mul, mul_comm] at hsum

omit [DecidableEq P] [DecidableEq T] in
theorem Advances.mem (h : Advances (c :: ts) ts') (hx : x ∈ ts) :
  x ∈ ts'
  := by
  obtain ⟨us, rfl | rfl⟩ := h
  · simp [hx]
  · simp [hx]

omit [DecidableEq P] in
/-- While `x` waits the items ahead of it do not get heavier. -/
theorem Advances.weightBefore_le (h : Advances (c :: ts) ts') (hx : x ∈ ts) (hne : c ≠ x)
    (hw : 0 ≤ w c) :
  weightBefore w ts' x ≤ weightBefore w (c :: ts) x
  := by
  obtain ⟨us, rfl | rfl⟩ := h
  · rw [weightBefore_append (List.mem_cons_of_mem _ hx)]
  · rw [List.tail_cons, weightBefore_append hx, weightBefore_cons hne]
    omega

end Queues
