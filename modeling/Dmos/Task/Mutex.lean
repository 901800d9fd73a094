import Dmos.Library.FifoLock
import Dmos.Library.Transition
import Dmos.Task.Machine

/-!
# The mutex

A mutex of `mutex.c` is a recursive lock with a queue (`IsLock`), whatever the scheduler does
with the tasks in between: `mutexLock` and `mutexUnlock` do to it what a task does to such a
lock (`IsLock.lock`, `IsLock.unlock`).

The calls on one mutex, by the tasks that are current one after the other, make up a
transition system (`mutexCalls`).  Its states also tell what has happened: which calls of
`mutexLock` have not returned, in which order tasks blocked and were let in, and what the
owner has called since it acquired the mutex.
-/

open LinkedList FifoLock TransitionSystem

namespace Dmos

namespace TaskManager

variable {m m' : TaskManager} {i : Nat} {l : Lock TaskRef}

/-! ### The part of the state a mutex depends on -/

/-- The mutex `i` and the links of the tasks that wait are the same in both states. -/
structure SameMutex (i : Nat) (m m' : TaskManager) : Prop where
  mutex : m'.mutex i = m.mutex i
  node : ∀ t ∈ m.linked (.mutex i), m'.node .waitNode t = m.node .waitNode t

/-- Scheduling leaves all mutexes and the links of waiting tasks alone. -/
theorem mutex_taskSetReady (t : TaskRef) :
  (m.taskSetReady t).mutex = m.mutex ∧ (m.taskSetReady t).node .waitNode = m.node .waitNode
  := by
  rw [taskSetReady]
  split_ifs <;> exact ⟨rfl, rfl⟩

theorem mutex_taskSetBlock (t : TaskRef) :
  (m.taskSetBlock t).mutex = m.mutex ∧ (m.taskSetBlock t).node .waitNode = m.node .waitNode
  := by
  rw [taskSetBlock]
  split_ifs <;> exact ⟨rfl, rfl⟩

theorem mutex_taskDispatch :
  m.taskDispatch.mutex = m.mutex ∧ m.taskDispatch.node = m.node
  := by
  rw [taskDispatch]
  cases m.taskNextRun with
  | none => exact ⟨rfl, rfl⟩
  | some t =>
      dsimp only
      split_ifs <;> exact ⟨rfl, rfl⟩

/-! ### What a mutex represents -/

/-- The mutex `i` is the lock `l`. -/
structure IsLock (m : TaskManager) (i : Nat) (l : Lock TaskRef) : Prop where
  owner : (m.mutex i).owner = l.owner
  count : (m.mutex i).lockedCount = l.depth
  waiting : IsList (m.node .waitNode) (m.mutex i).waitList l.waiting

theorem IsLock.linked (h : IsLock m i l) :
  m.linked (.mutex i) = l.waiting
  := h.waiting.nodes

theorem IsLock.congr (h : IsLock m i l) (hmutex : m'.mutex i = m.mutex i)
    (hnode : ∀ t ∈ l.waiting, m'.node .waitNode t = m.node .waitNode t) :
  IsLock m' i l
  := by
  constructor
  · rw [hmutex]
    apply h.owner
  · rw [hmutex]
    apply h.count
  · rw [hmutex]
    apply h.waiting.congr hnode

theorem IsLock.dispatch (h : IsLock m i l) :
  IsLock m.taskDispatch i l
  := by
  apply h.congr
  · rw [mutex_taskDispatch.1]
  · intro t _
    rw [mutex_taskDispatch.2]

theorem setMutexLock_mutex (count : Int) (owner : Option TaskRef) :
  (m.setMutexLock i count owner).mutex i
    = { m.mutex i with lockedCount := count, owner := owner }
  := Function.update_self _ _ _

/-! ### The calls -/

/-- A task that finds the mutex held joins the queue. -/
theorem IsLock.wait {h : FifoLock.Held TaskRef} {t : TaskRef} (hm : IsLock m i (some h))
    (howner : t ≠ h.owner) (ht : t ∉ h.waiting) :
  IsLock (m.insertLast (.mutex i) t) i (some (h.wait t howner ht))
  := by
  have hmutex : (m.insertLast (.mutex i) t).mutex i
      = { m.mutex i with
          waitList := (listInsertLast (m.node .waitNode) (m.mutex i).waitList t).2 } :=
    Function.update_self _ _ _
  have hnode : (m.insertLast (.mutex i) t).node .waitNode
      = (listInsertLast (m.node .waitNode) (m.mutex i).waitList t).1 := by
    rw [insertLast, setList_node, setNode_node]
    exact Function.update_self _ _ _
  constructor
  · rw [hmutex]
    apply hm.owner
  · rw [hmutex]
    apply hm.count
  · rw [hmutex, hnode]
    apply hm.waiting.insertLast ht

theorem IsLock.lock (hm : IsLock m i l) (ht : m.currTask ∉ l.waiting) :
  IsLock (m.mutexLock i) i (l.acquire m.currTask ht)
  := by
  rw [mutexLock]
  cases l with
  | none =>
      have hcount : (m.mutex i).lockedCount = 0 := hm.count
      rw [if_pos hcount]
      constructor
      · rw [setMutexLock_mutex]
        rfl
      · rw [setMutexLock_mutex]
        rfl
      · rw [setMutexLock_mutex]
        apply hm.waiting
  | some h =>
      have hcount : (m.mutex i).lockedCount = h.depth := hm.count
      have hpos := h.depth_pos
      have howner : (m.mutex i).owner = some h.owner := hm.owner
      rw [if_neg (by omega)]
      by_cases hcurr : m.currTask = h.owner
      · rw [if_pos (by rw [howner, hcurr]), Lock.acquire_again hcurr]
        constructor
        · rw [setMutexLock_mutex]
          apply howner
        · rw [setMutexLock_mutex, hcount]
          rfl
        · rw [setMutexLock_mutex]
          apply hm.waiting
      · rw [if_neg (by rw [howner, Option.some.injEq]; exact Ne.symm hcurr),
          Lock.acquire_wait hcurr]
        have hblocked : IsLock (m.taskSetBlock m.currTask) i (some h) := by
          apply hm.congr
          · rw [(mutex_taskSetBlock _).1]
          · intro t _
            rw [(mutex_taskSetBlock _).2]
        apply (hblocked.wait hcurr ht).dispatch

theorem IsLock.waitList_count (hm : IsLock m i l) :
  (m.mutex i).waitList.count ≠ 0 ↔ l.waiting ≠ []
  := by
  rw [hm.waiting.count, ne_eq, ne_eq, Int.natCast_eq_zero, List.length_eq_zero_iff]

/-- The first task that waits leaves the queue. -/
theorem IsLock.deleteFirst {t : TaskRef} {ts : List TaskRef}
    (hlist : IsList (m.node .waitNode) (m.mutex i).waitList (t :: ts)) :
  (m.deleteFirst (.mutex i)).1 = some t
    ∧ IsList ((m.deleteFirst (.mutex i)).2.node .waitNode)
        ((m.deleteFirst (.mutex i)).2.mutex i).waitList ts
  := by
  have hlist' : IsList (m.node (ListRef.mutex i).node) (m.list (.mutex i)) (t :: ts) := hlist
  rw [deleteFirst_of_isList hlist']
  use rfl
  apply isList_deleteFirst hlist'

theorem IsLock.unlock (hm : IsLock m i l) :
  IsLock (m.mutexUnlock i) i (l.release m.currTask)
  := by
  rw [mutexUnlock]
  cases l with
  | none =>
      have howner : (m.mutex i).owner = none := hm.owner
      rw [if_neg (by rw [howner]; simp)]
      apply hm
  | some h =>
      have howner : (m.mutex i).owner = some h.owner := hm.owner
      have hcount : (m.mutex i).lockedCount = h.depth := hm.count
      have hpos := h.depth_pos
      rw [Lock.release]
      by_cases hcurr : m.currTask = h.owner
      · rw [if_pos (by rw [howner, hcurr]), if_pos hcurr, hcount]
        dsimp only
        by_cases hdepth : 1 < h.depth
        · rw [if_neg (by omega), FifoLock.Held.release, dif_pos hdepth]
          constructor
          · rw [setMutexLock_mutex]
            apply howner
          · rw [setMutexLock_mutex]
            change (h.depth : Int) - 1 = ((h.depth - 1 : Nat) : Int)
            omega
          · rw [setMutexLock_mutex]
            apply hm.waiting
        · rw [if_pos (by omega)]
          have hlist : IsList (m.node .waitNode) (m.mutex i).waitList h.waiting := hm.waiting
          have hfree := setMutexLock_mutex (m := m) (i := i) ((h.depth : Int) - 1) none
          rcases hwaiting : h.waiting with _ | ⟨t, ts⟩
          · rw [hwaiting] at hlist
            rw [hfree, if_neg (by rw [hlist.count]; simp), FifoLock.Held.release_last hdepth hwaiting]
            constructor
            · rw [hfree]
              rfl
            · rw [hfree]
              change (h.depth : Int) - 1 = 0
              omega
            · rw [hfree]
              apply hlist
          · rw [hwaiting] at hlist
            obtain ⟨howner', hdepth', hwaiting'⟩ := FifoLock.Held.release_next hdepth hwaiting
            have hlist' : IsList ((m.setMutexLock i ((h.depth : Int) - 1) none).node .waitNode)
                ((m.setMutexLock i ((h.depth : Int) - 1) none).mutex i).waitList (t :: ts) := by
              rw [hfree]
              apply hlist
            obtain ⟨hfirst, hrest⟩ := IsLock.deleteFirst hlist'
            rw [hfree, if_pos (by rw [hlist.count, List.length_cons]; omega)]
            rcases hdelete : (m.setMutexLock i ((h.depth : Int) - 1) none).deleteFirst (.mutex i)
              with ⟨first, m'⟩
            rw [hdelete] at hfirst hrest
            dsimp only at hfirst hrest
            subst hfirst
            apply IsLock.dispatch
            constructor
            · rw [setMutexLock_mutex, howner']
            · rw [setMutexLock_mutex, hdepth']
              rfl
            · rw [setMutexLock_mutex, (mutex_taskSetReady t).1, hwaiting']
              change IsList ((m'.taskSetReady t).node .waitNode) _ _
              rw [(mutex_taskSetReady t).2]
              apply hrest
      · rw [if_neg (by rw [howner, Option.some.injEq]; exact Ne.symm hcurr), if_neg hcurr]
        apply hm

/-- A call of `mutexUnlock` by another task than the owner changes nothing. -/
theorem mutexUnlock_of_not_owner (h : (m.mutex i).owner ≠ some m.currTask) :
  m.mutexUnlock i = m
  := if_neg h

end TaskManager

/-! ### Runs of calls -/

/-- A call that was granted to the owner of the mutex. -/
inductive MutexCall where
  | lock
  | unlock
  deriving DecidableEq

/-- The tasks and the mutexes, with what has happened to one of the mutexes. -/
structure MutexRun where
  tasks : TaskManager
  /-- The tasks whose call of `mutexLock` blocked and has not returned. -/
  pending : TaskRef → Bool
  /-- The tasks in the order in which they blocked. -/
  blocked : List TaskRef
  /-- The tasks in the order in which the mutex was handed over to them. -/
  granted : List TaskRef
  /-- The calls of the owner since it acquired the mutex, that for acquiring it included. -/
  calls : List MutexCall

inductive MutexEvent where
  | lock
  | unlock
  | ret (t : TaskRef)
  | other (m : TaskManager)

namespace MutexRun

variable {i : Nat} {s : MutexRun} {l : Lock TaskRef}

/-- The current task makes no call before an earlier one has returned; a call that blocked
returns some time after the task has left the queue; and everything but the mutex changes
as it may. -/
def Enabled (i : Nat) (s : MutexRun) : MutexEvent → Prop
  | .lock => s.pending s.tasks.currTask = false
  | .unlock => s.pending s.tasks.currTask = false
  | .ret t => s.pending t = true ∧ t ∉ s.tasks.linked (.mutex i)
  | .other m => s.tasks.SameMutex i m

def next (i : Nat) (s : MutexRun) : MutexEvent → MutexRun
  | .lock =>
      let m := s.tasks.mutexLock i
      if s.tasks.currTask ∈ m.linked (.mutex i) then
        { s with
          tasks := m
          pending := Function.update s.pending s.tasks.currTask true
          blocked := s.blocked ++ [s.tasks.currTask] }
      else if (m.mutex i).owner = (s.tasks.mutex i).owner then
        { s with tasks := m, calls := s.calls ++ [.lock] }
      else { s with tasks := m, calls := [.lock] }
  | .unlock =>
      let m := s.tasks.mutexUnlock i
      if (s.tasks.mutex i).owner = some s.tasks.currTask then
        match (m.mutex i).owner with
        | none => { s with tasks := m, calls := [] }
        | some t =>
            if t = s.tasks.currTask then { s with tasks := m, calls := s.calls ++ [.unlock] }
            else { s with tasks := m, granted := s.granted ++ [t], calls := [.lock] }
      else { s with tasks := m }
  | .ret t => { s with pending := Function.update s.pending t false }
  | .other m => { s with tasks := m }

end MutexRun

/-- The calls on the mutex `i`, from `mutex_init` on. -/
def mutexCalls (i : Nat) : TransitionSystem MutexRun MutexEvent where
  init s := s.tasks.mutex i = TaskManager.mutexInit ∧ s.pending = (fun _ => false) ∧
    s.blocked = [] ∧ s.granted = [] ∧ s.calls = []
  step s e s' := s.Enabled i e ∧ s' = s.next i e

namespace MutexRun

variable {i : Nat} {s : MutexRun} {l : Lock TaskRef}

/-- The mutex is the lock `l`, in agreement with what has happened. -/
structure Keeps (s : MutexRun) (i : Nat) (l : Lock TaskRef) : Prop where
  isLock : s.tasks.IsLock i l
  waiting : ∀ t ∈ l.waiting, s.pending t = true
  woken : ∀ t, s.pending t = true → t ∉ l.waiting → l.owner = some t ∧ l.depth = 1
  fifo : s.blocked = s.granted ++ l.waiting
  calls : (l.depth : Int) = s.calls.count .lock - s.calls.count .unlock

theorem Keeps.init (h : (mutexCalls i).init s) :
  s.Keeps i none
  := by
  obtain ⟨hmutex, hpending, hblocked, hgranted, hcalls⟩ := h
  constructor
  · constructor
    · rw [hmutex]
      rfl
    · rw [hmutex]
      rfl
    · rw [hmutex]
      apply isList_init
  · intro t ht
    cases ht
  · intro t ht
    rw [hpending] at ht
    cases ht
  · rw [hblocked, hgranted]
    rfl
  · rw [hcalls]
    rfl

/-- A task that may call does not wait, and if it was woken its call has returned. -/
theorem Keeps.not_waiting (h : s.Keeps i l) (hcurr : s.pending s.tasks.currTask = false) :
  s.tasks.currTask ∉ l.waiting
  := by
  intro ht
  rw [h.waiting _ ht] at hcurr
  cases hcurr

theorem Keeps.lock (h : s.Keeps i l) (hcurr : s.pending s.tasks.currTask = false) :
  (s.next i .lock).Keeps i (l.acquire s.tasks.currTask (h.not_waiting hcurr))
  := by
  have ht := h.not_waiting hcurr
  have hlock := h.isLock.lock ht
  have hlinked := hlock.linked
  have howner := hlock.owner
  rw [next]
  rw [hlinked, howner, h.isLock.owner]
  cases l with
  | none =>
      rw [if_neg (by exact List.not_mem_nil), if_neg (by simp [Lock.owner, Lock.acquire])]
      refine ⟨hlock, h.waiting, ?_, h.fifo, rfl⟩
      intro t hp _
      cases (h.woken t hp List.not_mem_nil).1
  | some a =>
      by_cases hown : s.tasks.currTask = a.owner
      · rw [Lock.acquire_again hown] at hlock ⊢
        have hnot : s.tasks.currTask ∉ Lock.waiting (some a.again) := ht
        have hsame : Lock.owner (some a.again) = Lock.owner (some a) := rfl
        rw [if_neg hnot, if_pos hsame]
        refine ⟨hlock, h.waiting, ?_, h.fifo, ?_⟩
        · intro t hp hwaiting
          have hfirst := (h.woken t hp hwaiting).1
          rw [Lock.owner, Option.map_some, Option.some.injEq, ← hown] at hfirst
          rw [hfirst, hp] at hcurr
          cases hcurr
        · have hcalls := h.calls
          rw [List.count_append, List.count_append]
          change ((a.depth + 1 : Nat) : Int) = _
          change (a.depth : Int) = _ at hcalls
          simp
          omega
      · rw [Lock.acquire_wait hown] at hlock ⊢
        have hin : s.tasks.currTask ∈ Lock.waiting (some (a.wait s.tasks.currTask hown ht)) :=
          List.mem_append_right _ (List.mem_singleton_self _)
        rw [if_pos hin]
        refine ⟨hlock, ?_, ?_, ?_, h.calls⟩
        · intro t ht'
          dsimp only
          rw [Function.update_apply]
          split_ifs with heq
          · rfl
          · apply h.waiting
            rcases List.mem_append.mp ht' with hin | hin
            · apply hin
            · cases heq (List.mem_singleton.mp hin)
        · intro t hp hwaiting
          dsimp only at hp
          have hne : t ≠ s.tasks.currTask := by
            rintro rfl
            apply hwaiting (List.mem_append_right _ (List.mem_singleton_self _))
          rw [Function.update_of_ne hne] at hp
          apply h.woken t hp
          intro hin
          apply hwaiting (List.mem_append_left _ hin)
        · change s.blocked ++ [s.tasks.currTask] = s.granted ++ (a.waiting ++ [s.tasks.currTask])
          rw [h.fifo, List.append_assoc]
          rfl

theorem Keeps.unlock (h : s.Keeps i l) (hcurr : s.pending s.tasks.currTask = false) :
  (s.next i .unlock).Keeps i (l.release s.tasks.currTask)
  := by
  have ht := h.not_waiting hcurr
  have hlock := h.isLock.unlock
  have howner := hlock.owner
  -- no call of the owner is pending when the owner calls
  have hnone : l.owner = some s.tasks.currTask → ∀ t, s.pending t = true → t ∈ l.waiting := by
    intro hown t hp
    by_contra hwaiting
    have hfirst := (h.woken t hp hwaiting).1
    rw [hown, Option.some.injEq] at hfirst
    rw [hfirst, hp] at hcurr
    cases hcurr
  rw [next]
  by_cases hown : (s.tasks.mutex i).owner = some s.tasks.currTask
  · rw [if_pos hown]
    rw [h.isLock.owner] at hown
    have hnone := hnone hown
    cases l with
    | none => cases hown
    | some a =>
        rw [Lock.owner, Option.map_some, Option.some.injEq] at hown
        have hcalls := h.calls
        have hfifo := h.fifo
        change (a.depth : Int) = _ at hcalls
        change s.blocked = s.granted ++ a.waiting at hfifo
        rw [Lock.release, if_pos hown.symm] at hlock howner ⊢
        by_cases hdepth : 1 < a.depth
        · rw [FifoLock.Held.release, dif_pos hdepth] at hlock howner ⊢
          rw [howner, ← hown]
          dsimp only [Lock.owner, Option.map_some]
          rw [if_pos rfl]
          refine ⟨hlock, h.waiting, fun t hp hwaiting => absurd (hnone t hp) hwaiting, hfifo, ?_⟩
          rw [List.count_append, List.count_append]
          change ((a.depth - 1 : Nat) : Int) = _
          simp
          omega
        · rcases hwaiting : a.waiting with _ | ⟨u, us⟩
          · rw [FifoLock.Held.release_last hdepth hwaiting] at hlock howner ⊢
            rw [howner]
            dsimp only [Lock.owner, Option.map_none]
            refine ⟨hlock, fun t ht => (by cases ht), ?_, ?_, rfl⟩
            · intro t hp _
              have hin := hnone t hp
              rw [show Lock.waiting (some a) = [] from hwaiting] at hin
              cases hin
            · rw [hfifo, hwaiting]
              rfl
          · obtain ⟨howner', hdepth', hwaiting'⟩ := FifoLock.Held.release_next hdepth hwaiting
            have hu : u ≠ s.tasks.currTask := by
              rintro rfl
              apply ht
              change s.tasks.currTask ∈ a.waiting
              rw [hwaiting]
              apply List.mem_cons_self
            have hsub : ∀ t, t ∈ us → t ∈ Lock.waiting (some a) := by
              intro t ht
              change t ∈ a.waiting
              rw [hwaiting]
              apply List.mem_cons_of_mem _ ht
            rw [howner, howner']
            dsimp only
            rw [if_neg hu]
            refine ⟨hlock, ?_, ?_, ?_, ?_⟩
            · intro t ht
              rw [hwaiting'] at ht
              apply h.waiting t (hsub t ht)
            · intro t hp hnot
              rw [hwaiting'] at hnot
              have hin : t ∈ a.waiting := hnone t hp
              rw [hwaiting, List.mem_cons] at hin
              rcases hin with rfl | hin
              · exact ⟨howner', hdepth'⟩
              · cases hnot hin
            · rw [hwaiting']
              change s.blocked = s.granted ++ [u] ++ us
              rw [hfifo, hwaiting, List.append_assoc, List.singleton_append]
            · rw [hdepth']
              rfl
  · rw [if_neg hown]
    have hrelease : l.release s.tasks.currTask = l := by
      rw [h.isLock.owner] at hown
      cases l with
      | none => rfl
      | some a =>
          rw [Lock.release, if_neg]
          rintro heq
          apply hown
          rw [heq]
          rfl
    rw [hrelease] at hlock ⊢
    exact ⟨hlock, h.waiting, h.woken, h.fifo, h.calls⟩

theorem Keeps.next (h : s.Keeps i l) {e : MutexEvent} (he : s.Enabled i e) :
  ∃ l', (s.next i e).Keeps i l'
  := by
  cases e with
  | lock => exact ⟨_, h.lock he⟩
  | unlock => exact ⟨_, h.unlock he⟩
  | ret t =>
      obtain ⟨-, hnot⟩ := he
      rw [h.isLock.linked] at hnot
      refine ⟨l, h.isLock, ?_, ?_, h.fifo, h.calls⟩
      · intro t' ht'
        have hne : t' ≠ t := by
          rintro rfl
          apply hnot ht'
        change Function.update s.pending t false t' = true
        rw [Function.update_of_ne hne]
        apply h.waiting t' ht'
      · intro t' hp hwaiting
        change Function.update s.pending t false t' = true at hp
        rw [Function.update_apply] at hp
        split_ifs at hp
        apply h.woken t' hp hwaiting
  | other m =>
      refine ⟨l, ?_, h.waiting, h.woken, h.fifo, h.calls⟩
      apply h.isLock.congr he.mutex
      intro t ht
      apply he.node
      rw [h.isLock.linked]
      apply ht

/-- What a mutex guarantees. -/
structure Fifo (s : MutexRun) (i : Nat) : Prop where
  owner : (s.tasks.mutex i).owner = none ↔ (s.tasks.mutex i).lockedCount = 0
  free : (s.tasks.mutex i).owner = none → s.tasks.linked (.mutex i) = []
  /-- The links of the queue lead through the waiting tasks, which its count counts. -/
  isList : IsList (s.tasks.node .waitNode) (s.tasks.mutex i).waitList
    (s.tasks.linked (.mutex i))
  owner_not_waiting : ∀ t, (s.tasks.mutex i).owner = some t → t ∉ s.tasks.linked (.mutex i)
  nodup : (s.tasks.linked (.mutex i)).Nodup
  /-- The count is that of the owner's calls since it acquired the mutex. -/
  count : (s.tasks.mutex i).lockedCount = s.calls.count .lock - s.calls.count .unlock
  /-- From the moment a blocked task leaves the queue until its call returns, the mutex is
  locked by it, once. -/
  completes : ∀ t, s.pending t = true → t ∉ s.tasks.linked (.mutex i) →
    (s.tasks.mutex i).owner = some t ∧ (s.tasks.mutex i).lockedCount = 1
  /-- Those who blocked have been let in, in this order, and the others wait, in this
  order. -/
  fifo : s.blocked = s.granted ++ s.tasks.linked (.mutex i)

theorem Keeps.fifo_mutex (h : s.Keeps i l) :
  s.Fifo i
  := by
  have hlinked := h.isLock.linked
  have howner := h.isLock.owner
  have hcount := h.isLock.count
  constructor
  · rw [howner, hcount, l.owner_eq_none_iff, Int.natCast_eq_zero]
  · intro hfree
    rw [hlinked]
    rw [howner] at hfree
    apply Lock.waiting_of_free hfree
  · rw [hlinked]
    apply h.isLock.waiting
  · intro t ht
    rw [hlinked]
    rw [howner] at ht
    apply Lock.owner_not_waiting ht
  · rw [hlinked]
    apply l.nodup
  · rw [hcount]
    apply h.calls
  · intro t hp hnot
    rw [hlinked] at hnot
    obtain ⟨hown, hdepth⟩ := h.woken t hp hnot
    rw [howner, hcount, hdepth]
    exact ⟨hown, rfl⟩
  · rw [hlinked]
    apply h.fifo

/-- In every run of calls the mutex is a recursive lock with a queue, and a task that does
not own it cannot unlock it. -/
theorem fifo_of_reachable {s : MutexRun} (h : (mutexCalls i).Reachable (fun _ => True) s) :
  s.Fifo i
    ∧ ((s.tasks.mutex i).owner ≠ some s.tasks.currTask → s.tasks.mutexUnlock i = s.tasks)
  := by
  have hkeeps : ∃ l, s.Keeps i l := by
    apply h.invariant (I := fun s => ∃ l, s.Keeps i l)
    · intro s hinit
      exact ⟨none, Keeps.init hinit⟩
    · rintro s e _ ⟨l, hl⟩ - ⟨he, rfl⟩
      apply hl.next he
  obtain ⟨l, hl⟩ := hkeeps
  use hl.fifo_mutex
  apply TaskManager.mutexUnlock_of_not_owner

/-- The calls on a mutex from the start of the scheduler on. -/
def started : MutexRun where
  tasks := Machine.started.tasks
  pending _ := false
  blocked := []
  granted := []
  calls := []

/-- The first task locks the mutex twice. -/
def lockedTwice : MutexRun :=
  (started.next 0 .lock).next 0 .lock

/-- Another task starts and runs. -/
def switched : MutexRun :=
  lockedTwice.next 0
    (.other { lockedTwice.tasks.taskStart (.slot 0) with currTask := .slot 0 })

/-- It finds the mutex locked. -/
def waits : MutexRun :=
  switched.next 0 .lock

/-- The first task unlocks the mutex twice, and the call of the other one returns. -/
def handedOver : MutexRun :=
  ((waits.next 0 .unlock).next 0 .unlock).next 0 (.ret (.slot 0))

theorem fifo_started_lock :
  waits.tasks.linked (.mutex 0) = [.slot 0] ∧ (handedOver.tasks.mutex 0).owner = some (.slot 0)
    ∧ handedOver.granted = [.slot 0] ∧ handedOver.Fifo 0
    ∧ ((handedOver.tasks.mutex 0).owner ≠ some handedOver.tasks.currTask →
      handedOver.tasks.mutexUnlock 0 = handedOver.tasks)
  := by
  have hinit : (mutexCalls 0).Reachable (fun _ => True) started :=
    Reachable.init ⟨rfl, rfl, rfl, rfl, rfl⟩
  have hlocked : (mutexCalls 0).Reachable (fun _ => True) lockedTwice :=
    .step (a := .lock) (.step (a := .lock) hinit trivial ⟨rfl, rfl⟩) trivial ⟨rfl, rfl⟩
  have hswitched : (mutexCalls 0).Reachable (fun _ => True) switched :=
    .step (a := .other { lockedTwice.tasks.taskStart (.slot 0) with currTask := .slot 0 }) hlocked
      trivial ⟨⟨rfl, fun _ _ => rfl⟩, rfl⟩
  have hwaits : (mutexCalls 0).Reachable (fun _ => True) waits :=
    .step (a := .lock) hswitched trivial ⟨rfl, rfl⟩
  have hunlocked : (mutexCalls 0).Reachable (fun _ => True)
      ((waits.next 0 .unlock).next 0 .unlock) :=
    .step (a := .unlock) (.step (a := .unlock) hwaits trivial ⟨rfl, rfl⟩) trivial ⟨rfl, rfl⟩
  have hret : (mutexCalls 0).Reachable (fun _ => True) handedOver :=
    .step (a := .ret (.slot 0)) hunlocked trivial ⟨⟨rfl, by decide⟩, rfl⟩
  exact ⟨rfl, rfl, rfl, fifo_of_reachable hret⟩

end MutexRun

end Dmos
