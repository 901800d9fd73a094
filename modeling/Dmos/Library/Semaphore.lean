import Mathlib.Data.List.Nodup

/-!
# Counting semaphores with a queue

A semaphore holds a number of permits, and the tasks that wait for one in the order of their
requests.  Nobody waits while there is a permit, and nobody waits twice.  A permit that is
given back goes to the first task that waits, if there is one.
-/

structure Semaphore (T : Type) where
  count : Nat
  waiting : List T
  idle : 0 < count → waiting = []
  nodup : waiting.Nodup

namespace Semaphore

variable {T : Type}

/-- A semaphore nobody has used, with `n` permits. -/
def init (n : Nat) : Semaphore T where
  count := n
  waiting := []
  idle _ := rfl
  nodup := List.nodup_nil

/-- A permit requested by a task that does not wait already. -/
def wait (s : Semaphore T) (t : T) (ht : t ∉ s.waiting) : Semaphore T :=
  if hcount : 0 < s.count then
    { count := s.count - 1
      waiting := []
      idle := fun _ => rfl
      nodup := List.nodup_nil }
  else
    { count := s.count
      waiting := s.waiting ++ [t]
      idle := fun h => absurd h hcount
      nodup := by
        rw [List.nodup_append]
        refine ⟨s.nodup, List.nodup_singleton t, ?_⟩
        rintro a ha b hb rfl
        rw [List.mem_singleton] at hb
        apply ht (hb ▸ ha) }

/-- A permit given back. -/
def notify (s : Semaphore T) : Semaphore T :=
  match hwaiting : s.waiting with
  | [] =>
      { count := s.count + 1
        waiting := []
        idle := fun _ => rfl
        nodup := List.nodup_nil }
  | t :: ts =>
      { count := s.count
        waiting := ts
        idle := by
          intro hcount
          rw [s.idle hcount] at hwaiting
          cases hwaiting
        nodup := by
          have hnodup := s.nodup
          rw [hwaiting, List.nodup_cons] at hnodup
          apply hnodup.2 }

variable {s : Semaphore T} {t : T}

/-- A request that is granted at once. -/
theorem wait_granted (ht : t ∉ s.waiting) (h : 0 < s.count) :
  (s.wait t ht).count = s.count - 1 ∧ (s.wait t ht).waiting = s.waiting
  := by
  rw [wait, dif_pos h, s.idle h]
  exact ⟨rfl, rfl⟩

/-- A request that has to wait. -/
theorem wait_blocked (ht : t ∉ s.waiting) (h : ¬ 0 < s.count) :
  (s.wait t ht).count = s.count ∧ (s.wait t ht).waiting = s.waiting ++ [t]
  := by
  rw [wait, dif_neg h]
  exact ⟨rfl, rfl⟩

/-- A permit nobody waits for. -/
theorem notify_idle (h : s.waiting = []) :
  s.notify.count = s.count + 1 ∧ s.notify.waiting = []
  := by
  unfold notify
  split
  next => exact ⟨rfl, rfl⟩
  next heq =>
    rw [h] at heq
    cases heq

/-- A permit for the first task that waits. -/
theorem notify_waiting {ts : List T} (h : s.waiting = t :: ts) :
  s.notify.count = s.count ∧ s.notify.waiting = ts
  := by
  unfold notify
  split
  next heq =>
    rw [h] at heq
    cases heq
  next heq =>
    rw [h] at heq
    cases heq
    exact ⟨rfl, rfl⟩

theorem mem_wait (ht : t ∉ s.waiting) {u : T} (hu : u ∈ (s.wait t ht).waiting) :
  u ∈ s.waiting ∨ u = t
  := by
  by_cases hcount : 0 < s.count
  · rw [(wait_granted ht hcount).2] at hu
    exact .inl hu
  · rw [(wait_blocked ht hcount).2, List.mem_append, List.mem_singleton] at hu
    exact hu

theorem mem_notify {u : T} (hu : u ∈ s.notify.waiting) :
  u ∈ s.waiting
  := by
  rcases hwaiting : s.waiting with _ | ⟨v, vs⟩
  · rw [(notify_idle hwaiting).2] at hu
    exact hu
  · rw [(notify_waiting hwaiting).2] at hu
    exact List.mem_cons_of_mem _ hu

end Semaphore
