import Mathlib.Data.List.Nodup
import Mathlib.Tactic.SplitIfs

/-!
# Recursive locks with a queue

A lock is free, or it is held: by an owner that will have to release it a number of times,
with the tasks that wait for it in the order of their requests (`Held`).  The owner never
waits, and nobody waits twice.
-/

namespace FifoLock

/-- A lock in the hands of its owner. -/
structure Held (T : Type) where
  owner : T
  depth : Nat
  waiting : List T
  depth_pos : 0 < depth
  nodup : (owner :: waiting).Nodup

/-- A free lock is `none`. -/
abbrev Lock (T : Type) : Type :=
  Option (Held T)

variable {T : Type}

def Lock.owner (l : Lock T) : Option T :=
  l.map Held.owner

def Lock.depth (l : Lock T) : Nat :=
  l.elim 0 Held.depth

def Lock.waiting (l : Lock T) : List T :=
  l.elim [] Held.waiting

/-- The lock taken for the first time. -/
def Held.first (t : T) : Held T where
  owner := t
  depth := 1
  waiting := []
  depth_pos := Nat.one_pos
  nodup := List.nodup_singleton t

/-- The lock taken once more by its owner. -/
def Held.again (h : Held T) : Held T where
  owner := h.owner
  depth := h.depth + 1
  waiting := h.waiting
  depth_pos := Nat.succ_pos _
  nodup := h.nodup

/-- One more task waits. -/
def Held.wait (h : Held T) (t : T) (howner : t ≠ h.owner) (ht : t ∉ h.waiting) : Held T where
  owner := h.owner
  depth := h.depth
  waiting := h.waiting ++ [t]
  depth_pos := h.depth_pos
  nodup := by
    have hnodup := h.nodup
    rw [List.nodup_cons] at hnodup
    rw [List.nodup_cons, List.mem_append, List.mem_singleton, List.nodup_append]
    refine ⟨?_, hnodup.2, List.nodup_singleton t, ?_⟩
    · rintro (hin | heq)
      · apply hnodup.1 hin
      · apply howner heq.symm
    · rintro a ha b hb rfl
      rw [List.mem_singleton] at hb
      apply ht (hb ▸ ha)

/-- The lock released by its owner: once less, to the first task that waits, or for good. -/
def Held.release (h : Held T) : Lock T :=
  if hdepth : 1 < h.depth then
    some { h with depth := h.depth - 1, depth_pos := by omega }
  else
    match hwaiting : h.waiting with
    | [] => none
    | t :: ts =>
        some
          { owner := t
            depth := 1
            waiting := ts
            depth_pos := Nat.one_pos
            nodup := by
              have hnodup := h.nodup
              rw [hwaiting, List.nodup_cons] at hnodup
              apply hnodup.2 }

/-- The lock requested by a task that does not wait already. -/
def Lock.acquire [DecidableEq T] (l : Lock T) (t : T) (ht : t ∉ l.waiting) : Lock T :=
  match l with
  | none => some (Held.first t)
  | some h => if howner : t = h.owner then some h.again else some (h.wait t howner ht)

theorem Lock.acquire_again [DecidableEq T] {h : Held T} {t : T} (howner : t = h.owner)
    (ht : t ∉ Lock.waiting (some h)) :
  Lock.acquire (some h) t ht = some h.again
  := dif_pos howner

theorem Lock.acquire_wait [DecidableEq T] {h : Held T} {t : T} (howner : t ≠ h.owner)
    (ht : t ∉ Lock.waiting (some h)) :
  Lock.acquire (some h) t ht = some (h.wait t howner ht)
  := dif_neg howner

/-- The lock given back; only its owner can do so. -/
def Lock.release [DecidableEq T] (l : Lock T) (t : T) : Lock T :=
  match l with
  | none => none
  | some h => if t = h.owner then h.release else some h

/-- Released for good. -/
theorem Held.release_last {h : Held T} (hdepth : ¬ 1 < h.depth) (hwaiting : h.waiting = []) :
  h.release = none
  := by
  unfold Held.release
  rw [dif_neg hdepth]
  split
  next => rfl
  next heq =>
    rw [hwaiting] at heq
    cases heq

/-- Released to the first task that waits. -/
theorem Held.release_next {h : Held T} (hdepth : ¬ 1 < h.depth) {t : T} {ts : List T}
    (hwaiting : h.waiting = t :: ts) :
  h.release.owner = some t ∧ h.release.depth = 1 ∧ h.release.waiting = ts
  := by
  unfold Held.release
  rw [dif_neg hdepth]
  split
  next heq =>
    rw [hwaiting] at heq
    cases heq
  next heq =>
    rw [hwaiting] at heq
    cases heq
    exact ⟨rfl, rfl, rfl⟩

theorem Held.owner_not_waiting (h : Held T) :
  h.owner ∉ h.waiting
  := (List.nodup_cons.mp h.nodup).1

theorem Lock.owner_eq_none_iff (l : Lock T) :
  l.owner = none ↔ l.depth = 0
  := by
  cases l with
  | none => exact ⟨fun _ => rfl, fun _ => rfl⟩
  | some h =>
      constructor
      · intro howner
        cases howner
      · intro hdepth
        exact absurd hdepth (Nat.ne_of_gt h.depth_pos)

theorem Lock.waiting_of_free {l : Lock T} (h : l.owner = none) :
  l.waiting = []
  := by
  cases l with
  | none => rfl
  | some h' => cases h

theorem Lock.owner_not_waiting {l : Lock T} {t : T} (h : l.owner = some t) :
  t ∉ l.waiting
  := by
  cases l with
  | none => cases h
  | some h' =>
      cases h
      apply h'.owner_not_waiting

theorem Lock.mem_acquire [DecidableEq T] {l : Lock T} {t u : T} (ht : t ∉ l.waiting)
    (hu : u ∈ (l.acquire t ht).waiting) :
  u ∈ l.waiting ∨ u = t
  := by
  cases l with
  | none => cases hu
  | some h =>
      by_cases howner : t = h.owner
      · rw [Lock.acquire_again howner ht] at hu
        exact .inl hu
      · rw [Lock.acquire_wait howner ht] at hu
        rcases List.mem_append.mp hu with hu | hu
        · exact .inl hu
        · exact .inr (List.mem_singleton.mp hu)

theorem Lock.mem_release [DecidableEq T] {l : Lock T} {t u : T}
    (hu : u ∈ (l.release t).waiting) :
  u ∈ l.waiting
  := by
  cases l with
  | none => cases hu
  | some h =>
      rw [Lock.release] at hu
      split_ifs at hu
      · by_cases hdepth : 1 < h.depth
        · rw [Held.release, dif_pos hdepth] at hu
          exact hu
        · rcases hwaiting : h.waiting with _ | ⟨v, vs⟩
          · rw [Held.release_last hdepth hwaiting] at hu
            cases hu
          · rw [(Held.release_next hdepth hwaiting).2.2] at hu
            change u ∈ h.waiting
            rw [hwaiting]
            exact List.mem_cons_of_mem _ hu
      · exact hu

theorem Lock.nodup (l : Lock T) :
  l.waiting.Nodup
  := by
  cases l with
  | none => apply List.nodup_nil
  | some h => apply (List.nodup_cons.mp h.nodup).2

end FifoLock
