import Dmos.Task.Mutex
import Dmos.Task.Semaphore

/-!
# A semaphore beside a mutex

The tasks that wait for a semaphore and for a mutex are linked by the same member of `task_t`.
As long as no task waits for both, the calls on one leave the other alone.
-/

open LinkedList FifoLock

namespace Dmos.TaskManager

variable {m m' : TaskManager} {i j : Nat} {a : Semaphore TaskRef} {l : Lock TaskRef}

/-- The semaphore `i` and the mutex `j`, with the tasks that wait for one of them. -/
structure Blocks (m : TaskManager) (i j : Nat) (a : Semaphore TaskRef) (l : Lock TaskRef) :
    Prop where
  isSem : m.IsSem i a
  isLock : m.IsLock j l
  disjoint : ∀ t ∈ a.waiting, t ∉ l.waiting

theorem Blocks.congr (h : m.Blocks i j a l) (hsem : m.SameSem i m') (hmutex : m.SameMutex j m') :
  m'.Blocks i j a l
  := by
  refine ⟨h.isSem.congr hsem.sem ?_, h.isLock.congr hmutex.mutex ?_, h.disjoint⟩
  · intro t ht
    apply hsem.node
    rw [h.isSem.linked]
    apply ht
  · intro t ht
    apply hmutex.node
    rw [h.isLock.linked]
    apply ht

theorem IsLock.taskSetReady (h : m.IsLock j l) (t : TaskRef) :
  (m.taskSetReady t).IsLock j l
  := by
  apply h.congr
  · rw [(mutex_taskSetReady t).1]
  · intro u _
    rw [(mutex_taskSetReady t).2]

theorem IsLock.taskSetBlock (h : m.IsLock j l) (t : TaskRef) :
  (m.taskSetBlock t).IsLock j l
  := by
  apply h.congr
  · rw [(mutex_taskSetBlock t).1]
  · intro u _
    rw [(mutex_taskSetBlock t).2]

theorem IsSem.taskSetReady (h : m.IsSem i a) (t : TaskRef) :
  (m.taskSetReady t).IsSem i a
  := by
  apply h.congr
  · rw [(sem_taskSetReady t).1]
  · intro u _
    rw [(sem_taskSetReady t).2]

theorem IsSem.taskSetBlock (h : m.IsSem i a) (t : TaskRef) :
  (m.taskSetBlock t).IsSem i a
  := by
  apply h.congr
  · rw [(sem_taskSetBlock t).1]
  · intro u _
    rw [(sem_taskSetBlock t).2]

theorem mutex_ne_sem (i j : Nat) :
  ListRef.mutex j ≠ .sem i
  := by
  intro h
  cases h

/-! ### The mutex during calls on the semaphore -/

theorem Blocks.isLock_semWait (h : m.Blocks i j a l) (hcurr : m.currTask ∉ l.waiting) :
  (m.semWait i).IsLock j l
  := by
  rw [semWait]
  split_ifs
  · exact ⟨h.isLock.owner, h.isLock.count, h.isLock.waiting⟩
  · have hlock := h.isLock.taskSetBlock m.currTask
    have hsem := h.isSem.taskSetBlock m.currTask
    apply IsLock.dispatch
    refine ⟨hlock.owner, hlock.count, ?_⟩
    apply isList_insertLast_of_ne (mutex_ne_sem i j) hsem.waiting hlock.waiting
    · intro u hu ha
      apply h.disjoint u ha hu
    · apply hcurr

theorem Blocks.isLock_semNotify (h : m.Blocks i j a l) :
  (m.semNotify i).IsLock j l
  := by
  rw [semNotify]
  rcases hwaiting : a.waiting with _ | ⟨t, ts⟩
  · rw [if_neg (by rw [h.isSem.waitList_count]; exact fun hne => hne hwaiting)]
    exact ⟨h.isLock.owner, h.isLock.count, h.isLock.waiting⟩
  · have hlist := h.isSem.waiting
    rw [hwaiting] at hlist
    rw [if_pos (by rw [h.isSem.waitList_count, hwaiting]; exact List.cons_ne_nil t ts),
      deleteFirst_of_isList (p := .sem i) hlist]
    apply IsLock.dispatch
    apply IsLock.taskSetReady
    refine ⟨h.isLock.owner, h.isLock.count, ?_⟩
    apply isList_delete_of_ne (mutex_ne_sem i j) List.mem_cons_self hlist h.isLock.waiting
    intro u hu ha
    rw [← hwaiting] at ha
    apply h.disjoint u ha hu

/-! ### The semaphore during calls on the mutex -/

theorem Blocks.isSem_mutexLock (h : m.Blocks i j a l) (hcurr : m.currTask ∉ a.waiting) :
  (m.mutexLock j).IsSem i a
  := by
  rw [mutexLock]
  split_ifs
  · exact ⟨h.isSem.count, h.isSem.waiting⟩
  · exact ⟨h.isSem.count, h.isSem.waiting⟩
  · have hlock := h.isLock.taskSetBlock m.currTask
    have hsem := h.isSem.taskSetBlock m.currTask
    apply IsSem.dispatch
    refine ⟨hsem.count, ?_⟩
    apply isList_insertLast_of_ne (mutex_ne_sem i j).symm hlock.waiting hsem.waiting
    · apply h.disjoint
    · apply hcurr

theorem Blocks.isSem_mutexUnlock (h : m.Blocks i j a l) :
  (m.mutexUnlock j).IsSem i a
  := by
  rw [mutexUnlock]
  have hset (count : Int) (owner : Option TaskRef) : (m.setMutexLock j count owner).IsSem i a :=
    ⟨h.isSem.count, h.isSem.waiting⟩
  have hlist (count : Int) (owner : Option TaskRef) :
      ((m.setMutexLock j count owner).mutex j).waitList = (m.mutex j).waitList := by
    rw [setMutexLock_mutex]
  by_cases howner : (m.mutex j).owner = some m.currTask
  · rw [if_pos howner]
    dsimp only
    rw [hlist]
    rcases hwaiting : l.waiting with _ | ⟨t, ts⟩
    · have hempty : ¬ (m.mutex j).waitList.count ≠ 0 := by
        rw [h.isLock.waitList_count]
        exact fun hne => hne hwaiting
      rw [if_neg hempty]
      split_ifs <;> apply hset
    · have hfirst := h.isLock.waiting
      rw [hwaiting, ← hlist ((m.mutex j).lockedCount - 1) none] at hfirst
      by_cases hcount : (m.mutex j).lockedCount - 1 = 0
      · rw [if_pos hcount,
          if_pos (by rw [h.isLock.waitList_count, hwaiting]; exact List.cons_ne_nil t ts),
          deleteFirst_of_isList (p := .mutex j) hfirst]
        apply IsSem.dispatch
        have hdeleted : (((m.setMutexLock j ((m.mutex j).lockedCount - 1) none).delete
            (.mutex j) t).taskSetReady t).IsSem i a := by
          apply IsSem.taskSetReady
          refine ⟨h.isSem.count, ?_⟩
          have hrest := isList_delete_of_ne (mutex_ne_sem i j).symm List.mem_cons_self hfirst
            (hset ((m.mutex j).lockedCount - 1) none).waiting (by rw [← hwaiting]; exact h.disjoint)
          exact hrest
        exact ⟨hdeleted.count, hdeleted.waiting⟩
      · rw [if_neg hcount]
        apply hset
  · rw [if_neg howner]
    apply h.isSem

/-! ### The calls on both -/

theorem Blocks.semWait (h : m.Blocks i j a l) (ha : m.currTask ∉ a.waiting)
    (hl : m.currTask ∉ l.waiting) :
  (m.semWait i).Blocks i j (a.wait m.currTask ha) l
  := by
  refine ⟨h.isSem.semWait ha, h.isLock_semWait hl, ?_⟩
  intro t ht
  rcases Semaphore.mem_wait ha ht with ht | rfl
  · apply h.disjoint t ht
  · apply hl

theorem Blocks.semNotify (h : m.Blocks i j a l) :
  (m.semNotify i).Blocks i j a.notify l
  := by
  refine ⟨h.isSem.semNotify, h.isLock_semNotify, ?_⟩
  intro t ht
  apply h.disjoint t (Semaphore.mem_notify ht)

theorem Blocks.mutexLock (h : m.Blocks i j a l) (ha : m.currTask ∉ a.waiting)
    (hl : m.currTask ∉ l.waiting) :
  (m.mutexLock j).Blocks i j a (l.acquire m.currTask hl)
  := by
  refine ⟨h.isSem_mutexLock ha, h.isLock.lock hl, ?_⟩
  intro t ht hin
  rcases Lock.mem_acquire hl hin with hin | rfl
  · apply h.disjoint t ht hin
  · apply ha ht

theorem Blocks.mutexUnlock (h : m.Blocks i j a l) :
  (m.mutexUnlock j).Blocks i j a (l.release m.currTask)
  := by
  refine ⟨h.isSem_mutexUnlock, h.isLock.unlock, ?_⟩
  intro t ht hin
  apply h.disjoint t ht (Lock.mem_release hin)

end Dmos.TaskManager
