import Dmos.Task.Invariant

/-!
# The states the operations write

The operations of the scheduler write the state of a task beside the list they link it in.
What the states then say about the lists is kept by each of them (`Labelled`): the tasks of
the sleep list are asleep, those of the ready list behind its first are ready, and those that
have exited are zombies.  The first ready task and the tasks that wait are running or ready,
as they were before.
-/

open LinkedList Queues

namespace Dmos

namespace TaskManager

variable {m m' : TaskManager} {life : TaskRef → Life} {q q' : Queues ListRef TaskRef}
  {p : ListRef} {t : TaskRef}

/-- The lists hold started tasks, with the states the operations left them in. -/
structure Labelled (m : TaskManager) (life : TaskRef → Life) (q : Queues ListRef TaskRef) :
    Prop where
  holds : Holds m q
  idle : life .idleTask = .created
  member : ∀ p t, t ∈ q p → life t = .started ∧ t ≠ .idleTask
  ready : ∀ t ∈ (q .ready).tail, (m.task t).state = .ready
  sleep : ∀ t ∈ q .sleep, (m.task t).state = .sleep
  awake : ∀ p, p ≠ .sleep → ∀ t ∈ q p,
    (m.task t).state = .running ∨ (m.task t).state = .ready
  exited : ∀ t, life t = .exited → (m.task t).state = .zombie

/-! ### Parts of operations -/

theorem Holds.unique (h : Holds m q) (h' : Holds m q') :
  q' = q
  := by
  funext p
  rw [← h.linked, ← h'.linked]

theorem Labelled.congr (hl : Labelled m life q) (hnode : m'.node = m.node)
    (hlist : ∀ p, m'.list p = m.list p) (hstate : ∀ t, (m'.task t).state = (m.task t).state) :
  Labelled m' life q
  := by
  refine ⟨hl.holds.congr hnode hlist, hl.idle, hl.member, ?_, ?_, ?_, ?_⟩
  · intro t ht
    rw [hstate]
    apply hl.ready t ht
  · intro t ht
    rw [hstate]
    apply hl.sleep t ht
  · intro p hp t ht
    rw [hstate]
    apply hl.awake p hp t ht
  · intro t ht
    rw [hstate]
    apply hl.exited t ht

theorem Labelled.setTask (hl : Labelled m life q) (task : Task)
    (hstate : task.state = (m.task t).state) :
  Labelled (m.setTask t task) life q
  := by
  have hother (t' : TaskRef) : ((m.setTask t task).task t').state = (m.task t').state :=
    field_setTask (f := Task.state) (.inr hstate)
  exact hl.congr rfl (fun p => list_setTask m p t task) hother

/-- What is left of a queue behind its first item, when an item was taken out. -/
theorem mem_tail_remove {p' : ListRef} {t' : TaskRef} (h : t' ∈ (q.remove p t p').tail) :
  t' ∈ (q p').tail
  := by
  by_cases hp : p' = p
  · subst hp
    rw [remove_self] at h
    apply List.erase_sublist.tail.subset h
  · rw [remove_of_ne hp] at h
    apply h

theorem Labelled.delete (hl : Labelled m life q) (ht : t ∈ q p) :
  Labelled (m.delete p t) life (q.remove p t)
  := by
  have hmem {p' : ListRef} {t' : TaskRef} (h : t' ∈ q.remove p t p') : t' ∈ q p' :=
    ((hl.holds.exclusive.mem_remove ht).mp h).1
  refine ⟨hl.holds.delete ht, hl.idle, fun p' t' h => hl.member p' t' (hmem h), ?_, ?_, ?_, ?_⟩
  · intro t' ht'
    rw [delete_task]
    apply hl.ready t' (mem_tail_remove ht')
  · intro t' ht'
    rw [delete_task]
    apply hl.sleep t' (hmem ht')
  · intro p' hp' t' ht'
    rw [delete_task]
    apply hl.awake p' hp' t' (hmem ht')
  · rw [delete_task]
    apply hl.exited

theorem Labelled.taskSetBlock (hl : Labelled m life q) (ht : t ∈ q .ready) :
  Labelled (m.taskSetBlock t) life (q.remove .ready t)
  := by
  rw [TaskManager.taskSetBlock, if_neg (hl.member _ _ ht).2]
  apply hl.delete ht

theorem mem_tail_push {p' : ListRef} {t' : TaskRef} (h : t' ∈ (q.push p t p').tail) :
  t' ∈ (q p').tail ∨ (p' = p ∧ t' = t)
  := by
  by_cases hp : p' = p
  · subst hp
    rw [push_self] at h
    cases hq : q p' with
    | nil =>
        rw [hq] at h
        cases h
    | cons x xs =>
        rw [hq, List.cons_append, List.tail_cons, List.mem_append, List.mem_singleton] at h
        exact h.imp_right (fun h => ⟨rfl, h⟩)
  · rw [push_of_ne hp] at h
    exact .inl h

/-- A started task goes into a list, with the state of the tasks there. -/
theorem Labelled.push (hl : Labelled m life q) (habsent : Absent q t)
    (hlife : life t = .started) (hidle : t ≠ .idleTask) (hholds : Holds m' (q.push p t))
    (hother : ∀ t', t' ≠ t → (m'.task t').state = (m.task t').state)
    (hready : p = .ready → (m'.task t).state = .ready)
    (hsleep : p = .sleep → (m'.task t).state = .sleep)
    (hwait : p ≠ .sleep → (m'.task t).state = .running ∨ (m'.task t).state = .ready) :
  Labelled m' life (q.push p t)
  := by
  have hne {p' : ListRef} {t' : TaskRef} (h : t' ∈ q p') : t' ≠ t := by
    rintro rfl
    apply habsent p' h
  refine ⟨hholds, hl.idle, ?_, ?_, ?_, ?_, ?_⟩
  · intro p' t' ht'
    rw [mem_push] at ht'
    rcases ht' with ht' | ⟨-, rfl⟩
    · apply hl.member _ _ ht'
    · use hlife
  · intro t' ht'
    rcases mem_tail_push ht' with ht' | ⟨hp, rfl⟩
    · rw [hother _ (hne (List.mem_of_mem_tail ht'))]
      apply hl.ready t' ht'
    · apply hready hp.symm
  · intro t' ht'
    rw [mem_push] at ht'
    rcases ht' with ht' | ⟨hp, rfl⟩
    · rw [hother _ (hne ht')]
      apply hl.sleep t' ht'
    · apply hsleep hp.symm
  · intro p' hp' t' ht'
    rw [mem_push] at ht'
    rcases ht' with ht' | ⟨rfl, rfl⟩
    · rw [hother _ (hne ht')]
      apply hl.awake p' hp' t' ht'
    · apply hwait hp'
  · intro t' ht'
    rw [hother _ (by rintro rfl; rw [hlife] at ht'; cases ht')]
    apply hl.exited t' ht'

theorem state_taskSetReady (hidle : t ≠ .idleTask) (t' : TaskRef) :
  ((m.taskSetReady t).task t').state = if t' = t then .ready else (m.task t').state
  := by
  rw [TaskManager.taskSetReady, if_neg hidle, setState, setTask_task, insertLast_task]
  split_ifs <;> rfl

theorem state_taskSetReady_of_ne {t' : TaskRef} (hne : t' ≠ t) :
  ((m.taskSetReady t).task t').state = (m.task t').state
  := by
  by_cases hidle : t = .idleTask
  · rw [TaskManager.taskSetReady, if_pos hidle]
  · rw [state_taskSetReady hidle, if_neg hne]

theorem Labelled.taskSetReady (hl : Labelled m life q) (habsent : Absent q t)
    (hlife : life t = .started) (hidle : t ≠ .idleTask) :
  Labelled (m.taskSetReady t) life (q.push .ready t)
  := by
  apply hl.push habsent hlife hidle
  · rw [TaskManager.taskSetReady, if_neg hidle]
    exact (hl.holds.insertLast .ready habsent).congr rfl (fun p => list_setTask _ p t _)
  · intro t' hne
    rw [state_taskSetReady hidle, if_neg hne]
  · intro _
    rw [state_taskSetReady hidle, if_pos rfl]
  · intro h
    cases h
  · intro _
    rw [state_taskSetReady hidle, if_pos rfl]
    exact .inr rfl

theorem Labelled.taskDispatch (hl : Labelled m life q) :
  Labelled m.taskDispatch life q
  := by
  rw [TaskManager.taskDispatch, taskNextRun_eq hl.holds]
  dsimp only
  split_ifs with hne
  · -- the task dispatched is the idle task or the first of the ready list
    have hnext : ∀ t, t = (q .ready).head?.getD .idleTask → t = .idleTask
        ∨ (t ∈ q .ready ∧ t ∉ (q .ready).tail) := by
      have hnodup := hl.holds.exclusive.nodup .ready
      rintro t rfl
      cases hq : q .ready with
      | nil => exact .inl rfl
      | cons x xs =>
          rw [hq, List.nodup_cons] at hnodup
          exact .inr ⟨List.mem_cons_self, hnodup.1⟩
    refine ⟨?_, hl.idle, hl.member, ?_, ?_, ?_, ?_⟩
    · exact hl.holds.congr rfl (fun p => by cases p <;> rfl)
    · intro t ht
      rw [setState, setTask_task, if_neg]
      · apply hl.ready t ht
      · intro heq
        rcases hnext t heq with h | h
        · apply (hl.member .ready t (List.mem_of_mem_tail ht)).2 h
        · apply h.2 ht
    · intro t ht
      rw [setState, setTask_task, if_neg]
      · apply hl.sleep t ht
      · intro heq
        rcases hnext t heq with h | h
        · apply (hl.member .sleep t ht).2 h
        · cases hl.holds.exclusive.unique ht h.1
    · intro p hp t ht
      rw [setState, setTask_task]
      split_ifs
      · exact .inl rfl
      · apply hl.awake p hp t ht
    · intro t ht
      rw [setState, setTask_task, if_neg]
      · apply hl.exited t ht
      · intro heq
        rcases hnext t heq with h | h
        · rw [h, hl.idle] at ht
          cases ht
        · rw [(hl.member .ready t h.1).1] at ht
          cases ht
  · apply hl

/-- A task of one list becomes ready. -/
theorem Labelled.wake (hl : Labelled m life q) (ht : t ∈ q p) :
  Labelled ((m.delete p t).taskSetReady t) life ((q.remove p t).push .ready t)
  := by
  apply (hl.delete ht).taskSetReady (hl.holds.exclusive.absent_remove ht)
  · apply (hl.member _ _ ht).1
  · apply (hl.member _ _ ht).2

/-- A task out of the ready list and back to its end. -/
theorem Labelled.requeue (hl : Labelled m life q) (ht : t ∈ q .ready) :
  Labelled ((m.taskSetBlock t).taskSetReady t) life ((q.remove .ready t).push .ready t)
  := by
  apply (hl.taskSetBlock ht).taskSetReady (hl.holds.exclusive.absent_remove ht)
  · apply (hl.member _ _ ht).1
  · apply (hl.member _ _ ht).2

/-! ### Operations -/

theorem Labelled.sysYield (hl : Labelled m life q) (hr : Running m q)
    (hc : m.currTask ≠ .idleTask) :
  ∃ q', Labelled m.sysYield life q'
  := by
  rw [TaskManager.sysYield]
  split_ifs
  · exact ⟨_, (hl.requeue (hr.mem hc)).taskDispatch⟩
  · exact ⟨q, hl⟩

theorem Labelled.taskSetSleep (hl : Labelled m life q) (habsent : Absent q t)
    (hlife : life t = .started) (hidle : t ≠ .idleTask) (ticks : UInt32) :
  ∃ q', Labelled (m.taskSetSleep t ticks) life q' ∧ q' .ready = q .ready
  := by
  rw [TaskManager.taskSetSleep]
  split_ifs
  · exact ⟨q, hl, rfl⟩
  · refine ⟨q.push .sleep t, ?_, push_of_ne (by simp)⟩
    have hholds : Holds (m.setTask t
        { m.task t with sleepTicks := asInt ticks.toNat, state := .sleep }) q :=
      hl.holds.congr rfl (fun p => list_setTask m p t _)
    apply hl.push habsent hlife hidle (hholds.insertLast .sleep habsent)
    · intro t' hne
      rw [insertLast_task, setTask_task, if_neg hne]
    · intro h
      cases h
    · intro _
      rw [insertLast_task, setTask_task_self]
    · intro h
      cases h rfl

theorem Labelled.sysSleep (hl : Labelled m life q) (hr : Running m q)
    (hc : m.currTask ≠ .idleTask) (ms : UInt32) :
  ∃ q', Labelled (m.sysSleep ms) life q'
  := by
  have ht := hr.mem hc
  obtain ⟨q', hl', -⟩ := (hl.taskSetBlock ht).taskSetSleep
    (hl.holds.exclusive.absent_remove ht) (hl.member _ _ ht).1 (hl.member _ _ ht).2
    (ms / osTickMs)
  exact ⟨q', hl'.taskDispatch⟩

theorem Labelled.slice (hl : Labelled m life q) (hr : Running m q) :
  ∃ q', Labelled (taskTimeTick.slice m) life q'
  := by
  have hset (ticks : Int) :
      Labelled (m.setTask m.currTask { m.task m.currTask with sliceTicks := ticks }) life q :=
    hl.setTask _ rfl
  rw [taskTimeTick.slice]
  dsimp only
  split_ifs
  · rw [setTask_setTask, setTask_task_self]
    by_cases hc : m.currTask = .idleTask
    · rw [TaskManager.taskSetReady, if_pos hc, TaskManager.taskSetBlock, if_pos hc]
      exact ⟨q, (hset _).taskDispatch⟩
    · exact ⟨_, ((hset _).requeue (hr.mem hc)).taskDispatch⟩
  · exact ⟨q, hset _⟩

/-- A task of the sleep list is decremented; the tasks after it stay. -/
theorem Labelled.sleeper (hl : Labelled m life q) {ts us : List TaskRef}
    (h : q .sleep = ts ++ t :: us) :
  ∃ q' ts', Labelled (taskTimeTick.wake m t) life q' ∧ q' .sleep = ts' ++ us
  := by
  have ht : t ∈ q .sleep := by
    rw [h]
    simp
  have hts : t ∉ ts := by
    have hnodup := hl.holds.exclusive.nodup .sleep
    rw [h, List.nodup_append] at hnodup
    intro hts
    apply hnodup.2.2 t hts t List.mem_cons_self rfl
  have hset : Labelled
      (m.setTask t { m.task t with sleepTicks := (m.task t).sleepTicks - 1 }) life q :=
    hl.setTask _ rfl
  rw [taskTimeTick.wake]
  dsimp only
  split_ifs
  · refine ⟨_, ts, hset.wake ht, ?_⟩
    rw [push_of_ne (by simp), remove_self, h, List.erase_append_right _ hts,
      List.erase_cons_head]
  · refine ⟨q, ts ++ [t], hset, ?_⟩
    rw [h, List.append_assoc, List.singleton_append]

/-- A tick writes the states of no other tasks than those it wakes. -/
theorem state_wake {t' : TaskRef} (hne : t' ≠ t) :
  ((taskTimeTick.wake m t).task t').state = (m.task t').state
  := by
  rw [taskTimeTick.wake]
  dsimp only
  split_ifs
  · rw [state_taskSetReady_of_ne hne, taskSetWakeup, delete_task, setTask_task, if_neg hne]
  · rw [setTask_task, if_neg hne]

theorem Labelled.walk (hl : Labelled m life q) {ts us : List TaskRef}
    (h : q .sleep = ts ++ us) (fuel : Nat) :
  (∃ q', Labelled (taskTimeTick.walk m fuel us.head?).2 life q')
    ∧ ∀ t ∉ us, ((taskTimeTick.walk m fuel us.head?).2.task t).state = (m.task t).state
  := by
  induction fuel generalizing m q ts us with
  | zero => exact ⟨⟨q, hl⟩, fun _ _ => rfl⟩
  | succ fuel ih =>
      cases us with
      | nil => exact ⟨⟨q, hl⟩, fun _ _ => rfl⟩
      | cons t us =>
          have hnext : (m.node .runNode t).next = us.head? := by
            have hlist := hl.holds.isList .sleep
            rw [h] at hlist
            rw [show m.node .runNode t = _ from hlist.links]
          obtain ⟨q₁, ts₁, hl₁, h₁⟩ := hl.sleeper h
          rw [List.head?_cons, taskTimeTick.walk, hnext]
          obtain ⟨hl₂, hstate⟩ := ih hl₁ h₁
          use hl₂
          intro t' ht'
          rw [List.mem_cons, not_or] at ht'
          rw [hstate t' ht'.2, state_wake ht'.1]

theorem Labelled.rest (hl : Labelled m life q) :
  ∃ q', Labelled (taskTimeTick.rest m) life q'
  := by
  have hfirst : m.sleepList.first = (q .sleep).head? := (hl.holds.isList .sleep).first
  obtain ⟨⟨q', hl'⟩, -⟩ := hl.walk (List.nil_append (q .sleep)).symm m.sleepList.count.toNat
  rw [← hfirst] at hl'
  exact ⟨q', hl'.taskDispatch⟩

theorem Labelled.taskTimeTick (hl : Labelled m life q) (hr : Running m q) :
  ∃ q', Labelled (taskTimeTick m).2 life q'
  := by
  obtain ⟨q₁, hl₁⟩ := hl.slice hr
  rw [TaskManager.taskTimeTick]
  split_ifs
  · apply hl₁.rest
  · exact ⟨q₁, hl₁⟩

/-- The current task waits in a list. -/
theorem Labelled.wait (hl : Labelled m life q) (hr : Running m q)
    (hc : m.currTask ≠ .idleTask) (hp : p.node = .waitNode) :
  ∃ q', Labelled ((m.taskSetBlock m.currTask).insertLast p m.currTask).taskDispatch life q'
  := by
  have ht := hr.mem hc
  have hblocked := hl.taskSetBlock ht
  have habsent := hl.holds.exclusive.absent_remove ht
  have hinsert : Labelled ((m.taskSetBlock m.currTask).insertLast p m.currTask) life
      ((q.remove .ready m.currTask).push p m.currTask) := by
    apply hblocked.push habsent (hl.member _ _ ht).1 (hl.member _ _ ht).2
      (hblocked.holds.insertLast p habsent)
    · intro t' _
      rw [insertLast_task]
    · rintro rfl
      cases hp
    · rintro rfl
      cases hp
    · intro _
      rw [insertLast_task, taskSetBlock_task]
      apply hl.awake .ready (by simp) _ ht
  exact ⟨_, hinsert.taskDispatch⟩

theorem Labelled.semWait (hl : Labelled m life q) (hr : Running m q)
    (hc : m.currTask ≠ .idleTask) (i : Nat) :
  ∃ q', Labelled (m.semWait i) life q'
  := by
  rw [TaskManager.semWait]
  split_ifs
  · exact ⟨q, hl.congr rfl (list_setSemCount i _) (fun _ => rfl)⟩
  · apply hl.wait hr hc rfl

theorem Labelled.mutexLock (hl : Labelled m life q) (hr : Running m q)
    (hc : m.currTask ≠ .idleTask) (i : Nat) :
  ∃ q', Labelled (m.mutexLock i) life q'
  := by
  rw [TaskManager.mutexLock]
  split_ifs
  · exact ⟨q, hl.congr rfl (list_setMutexLock i _ _) (fun _ => rfl)⟩
  · exact ⟨q, hl.congr rfl (list_setMutexLock i _ _) (fun _ => rfl)⟩
  · apply hl.wait hr hc rfl

theorem Labelled.semNotify (hl : Labelled m life q) (i : Nat) :
  ∃ q', Labelled (m.semNotify i) life q'
  := by
  rw [TaskManager.semNotify]
  split_ifs with hcount
  · obtain ⟨t, ts, h⟩ := hl.holds.exists_first (p := .sem i) hcount
    have ht : t ∈ q (.sem i) := by
      rw [h]
      apply List.mem_cons_self
    rw [hl.holds.deleteFirst h]
    exact ⟨_, (hl.wake ht).taskDispatch⟩
  · exact ⟨q, hl.congr rfl (list_setSemCount i _) (fun _ => rfl)⟩

theorem Labelled.mutexUnlock (hl : Labelled m life q) (i : Nat) :
  ∃ q', Labelled (m.mutexUnlock i) life q'
  := by
  have hset (count : Int) (owner : Option TaskRef) :
      Labelled (m.setMutexLock i count owner) life q :=
    hl.congr rfl (list_setMutexLock i _ _) (fun _ => rfl)
  rw [TaskManager.mutexUnlock]
  split_ifs with howner
  · dsimp only
    split_ifs with hzero hcount
    · have hl' := hset ((m.mutex i).lockedCount - 1) none
      obtain ⟨t, ts, h⟩ := hl'.holds.exists_first (p := .mutex i) hcount
      have ht : t ∈ q (.mutex i) := by
        rw [h]
        apply List.mem_cons_self
      rw [hl'.holds.deleteFirst h]
      have hlocked : Labelled (TaskManager.setMutexLock _ i 1 (some t)) life _ :=
        (hl'.wake ht).congr rfl (list_setMutexLock i _ _) (fun _ => rfl)
      exact ⟨_, hlocked.taskDispatch⟩
    · exact ⟨q, hset _ _⟩
    · exact ⟨q, hset _ _⟩
  · exact ⟨q, hl⟩

theorem delete_setTask (task : Task) :
  (m.setTask t task).delete p t = (m.delete p t).setTask t task
  := by
  have hnode : (m.setTask t task).node = m.node := rfl
  rw [TaskManager.delete, TaskManager.delete, list_setTask, hnode]
  rcases listDelete (m.node p.node) (m.list p) t with ⟨h, l⟩
  cases p <;> rfl

/-- The current task ends and leaves the ready list. -/
theorem Labelled.exit (hl : Labelled m life q) (hr : Running m q)
    (hc : m.currTask ≠ .idleTask) (status : Int) :
  Labelled ((m.setTask m.currTask
      { m.task m.currTask with status := status, state := .zombie }).taskSetBlock m.currTask)
    (Function.update life m.currTask .exited) (q.remove .ready m.currTask)
  := by
  have ht := hr.mem hc
  have habsent := hl.holds.exclusive.absent_remove ht
  have hne {p : ListRef} {t : TaskRef} (h : t ∈ q.remove .ready m.currTask p) :
      t ≠ m.currTask := by
    rintro rfl
    apply habsent p h
  have hdelete := hl.delete ht
  rw [TaskManager.taskSetBlock, if_neg hc, delete_setTask]
  constructor
  · exact hdelete.holds.congr rfl (fun p => list_setTask _ p _ _)
  · rw [Function.update_of_ne (Ne.symm hc)]
    apply hl.idle
  · intro p t ht'
    rw [Function.update_of_ne (hne ht')]
    apply hdelete.member p t ht'
  · intro t ht'
    rw [setTask_task, if_neg (hne (List.mem_of_mem_tail ht'))]
    apply hdelete.ready t ht'
  · intro t ht'
    rw [setTask_task, if_neg (hne ht')]
    apply hdelete.sleep t ht'
  · intro p hp t ht'
    rw [setTask_task, if_neg (hne ht')]
    apply hdelete.awake p hp t ht'
  · intro t ht'
    rw [setTask_task]
    split_ifs with heq
    · rfl
    · rw [Function.update_of_ne heq] at ht'
      apply hdelete.exited t ht'

theorem Labelled.sysExit (hl : Labelled m life q) (hr : Running m q)
    (hc : m.currTask ≠ .idleTask) (status : Int) :
  ∃ q', Labelled (m.sysExit status) (Function.update life m.currTask .exited) q'
  := ⟨_, (hl.exit hr hc status).taskDispatch⟩

theorem Labelled.taskInit (hl : Labelled m life q) (hs : Settled m life q)
    (ht : life t = .unborn) (name : List UInt8) (tss : Tss) (tssSel : Nat) :
  Labelled (m.taskInit t name tss tssSel) (Function.update life t .created) q
  := by
  have hinit := hs.taskInit ht name tss tssSel
  have hne {p : ListRef} {t' : TaskRef} (h : t' ∈ q p) : t' ≠ t := by
    rintro rfl
    rw [(hl.member p t' h).1] at ht
    cases ht
  refine ⟨hinit.holds, hinit.idle, hinit.member, ?_, ?_, ?_, ?_⟩
  · intro t' ht'
    rw [task_taskInit _ _ _ (hne (List.mem_of_mem_tail ht'))]
    apply hl.ready t' ht'
  · intro t' ht'
    rw [task_taskInit _ _ _ (hne ht')]
    apply hl.sleep t' ht'
  · intro p hp t' ht'
    rw [task_taskInit _ _ _ (hne ht')]
    apply hl.awake p hp t' ht'
  · intro t' ht'
    by_cases heq : t' = t
    · rw [heq, Function.update_self] at ht'
      cases ht'
    · rw [Function.update_of_ne heq] at ht'
      rw [task_taskInit _ _ _ heq]
      apply hl.exited t' ht'

theorem Labelled.taskStart (hl : Labelled m life q) (ht : life t = .created)
    (hidle : t ≠ .idleTask) :
  Labelled (m.taskStart t) (Function.update life t .started) (q.push .ready t)
  := by
  have habsent : Absent q t := by
    intro p h
    rw [(hl.member p t h).1] at ht
    cases ht
  have hstarted : Labelled m (Function.update life t .started) q := {
    holds := hl.holds
    idle := by
      rw [Function.update_of_ne (Ne.symm hidle)]
      apply hl.idle
    member := by
      intro p t' ht'
      rw [Function.update_of_ne (by rintro rfl; apply habsent p ht')]
      apply hl.member p t' ht'
    ready := hl.ready
    sleep := hl.sleep
    awake := hl.awake
    exited := by
      intro t' ht'
      by_cases heq : t' = t
      · rw [heq, Function.update_self] at ht'
        cases ht'
      · rw [Function.update_of_ne heq] at ht'
        apply hl.exited t' ht' }
  apply hstarted.taskSetReady habsent (Function.update_self _ _ _) hidle

end TaskManager

end Dmos
