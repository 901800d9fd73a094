import Dmos.Task.Lists

/-!
# Fields of the tasks

What the operations of the scheduler leave alone in the tasks.  All of them write the state of
a task, so the facts here are about a field `f` that does not depend on it.  Apart from that
only `sysSleep` and ticks write the ticks of sleep, only `sysExit` the status, and only ticks
the ticks left in a time slice.
-/

open LinkedList

namespace Dmos

namespace TaskManager

variable {α : Type} {f : Task → α} {m : TaskManager} {t t' : TaskRef}

theorem setTask_task (task : Task) (t' : TaskRef) :
  (m.setTask t task).task t' = if t' = t then task else m.task t'
  := Function.update_apply _ _ _ _

@[simp]
theorem setTask_task_self (task : Task) :
  (m.setTask t task).task t = task
  := Function.update_self _ _ _

theorem setTask_setTask (task task' : Task) :
  (m.setTask t task).setTask t task' = m.setTask t task'
  := by
  rw [TaskManager.setTask, TaskManager.setTask, TaskManager.setTask, Function.update_idem]

theorem field_setTask {task : Task} (h : t' ≠ t ∨ f task = f (m.task t)) :
  f ((m.setTask t task).task t') = f (m.task t')
  := by
  rw [setTask_task]
  split_ifs with heq
  · rw [h.resolve_left (not_not.mpr heq), heq]
  · rfl

theorem taskSetBlock_task :
  (m.taskSetBlock t).task = m.task
  := by
  rw [TaskManager.taskSetBlock]
  split_ifs
  · rfl
  · apply delete_task

theorem deleteFirst_task (p : ListRef) :
  (m.deleteFirst p).2.task = m.task
  := by
  rw [deleteFirst]
  apply setList_task

section State

variable (hf : ∀ task state, f { task with state := state } = f task)

include hf

theorem field_taskSetReady :
  f ((m.taskSetReady t).task t') = f (m.task t')
  := by
  rw [TaskManager.taskSetReady]
  split_ifs
  · rfl
  · rw [setState, field_setTask (.inr (hf _ _)), insertLast_task]

theorem field_taskDispatch :
  f (m.taskDispatch.task t') = f (m.task t')
  := by
  rw [TaskManager.taskDispatch]
  split
  · rfl
  · split_ifs
    · rw [setState, field_setTask (.inr (hf _ _))]
    · rfl

/-- The task `t` goes to the end of the ready list and the first one is dispatched. -/
theorem field_requeue :
  f (((m.taskSetBlock t).taskSetReady t).taskDispatch.task t') = f (m.task t')
  := by rw [field_taskDispatch hf, field_taskSetReady hf, taskSetBlock_task]

theorem field_sysYield :
  f (m.sysYield.task t') = f (m.task t')
  := by
  rw [TaskManager.sysYield]
  split_ifs
  · apply field_requeue hf
  · rfl

theorem field_wait (p : ListRef) :
  f ((((m.taskSetBlock t).insertLast p t).taskDispatch).task t') = f (m.task t')
  := by rw [field_taskDispatch hf, insertLast_task, taskSetBlock_task]

theorem field_semWait (i : Nat) :
  f ((m.semWait i).task t') = f (m.task t')
  := by
  rw [TaskManager.semWait]
  split_ifs
  · rfl
  · apply field_wait hf

theorem field_semNotify (i : Nat) :
  f ((m.semNotify i).task t') = f (m.task t')
  := by
  have htask := deleteFirst_task (m := m) (.sem i)
  rw [TaskManager.semNotify]
  split_ifs
  · split
    next t m' h =>
      rw [h] at htask
      rw [field_taskDispatch hf, field_taskSetReady hf, htask]
    next m' h =>
      rw [h] at htask
      rw [htask]
  · rfl

theorem field_mutexLock (i : Nat) :
  f ((m.mutexLock i).task t') = f (m.task t')
  := by
  rw [TaskManager.mutexLock]
  split_ifs
  · rfl
  · rfl
  · apply field_wait hf

theorem field_mutexUnlock (i : Nat) :
  f ((m.mutexUnlock i).task t') = f (m.task t')
  := by
  have htask := deleteFirst_task (m := m.setMutexLock i ((m.mutex i).lockedCount - 1) none)
    (.mutex i)
  rw [TaskManager.mutexUnlock]
  split_ifs
  · dsimp only
    split_ifs
    · split
      next t m' h =>
        rw [h] at htask
        rw [field_taskDispatch hf]
        exact (field_taskSetReady hf).trans (by rw [htask]; rfl)
      next m' h =>
        rw [h] at htask
        rw [htask]
        rfl
    · rfl
    · rfl
  · rfl

/-- `sysSleep` writes the ticks of sleep of the current task. -/
theorem field_sysSleep (ms : UInt32)
    (h : t' ≠ m.currTask ∨ ∀ task ticks, f { task with sleepTicks := ticks } = f task) :
  f ((m.sysSleep ms).task t') = f (m.task t')
  := by
  rw [TaskManager.sysSleep, field_taskDispatch hf, TaskManager.taskSetSleep]
  split_ifs
  · rw [taskSetBlock_task]
  · rw [insertLast_task, field_setTask (f := f), taskSetBlock_task]
    apply h.imp_right
    intro h
    have hset (task : Task) (ticks : Int) :
        f { task with sleepTicks := ticks, state := .sleep } = f task :=
      (hf { task with sleepTicks := ticks } .sleep).trans (h task ticks)
    apply hset

/-- `sysExit` writes the status of the current task. -/
theorem field_sysExit (status : Int)
    (h : t' ≠ m.currTask ∨ ∀ task status, f { task with status := status } = f task) :
  f ((m.sysExit status).task t') = f (m.task t')
  := by
  rw [TaskManager.sysExit, field_taskDispatch hf, taskSetBlock_task, field_setTask (f := f)]
  apply h.imp_right
  intro h
  exact (hf { m.task m.currTask with status := status } .zombie).trans (h _ status)

/-- A tick of a sleeping task writes its ticks of sleep. -/
theorem field_wake (h : t' ≠ t ∨ ∀ task ticks, f { task with sleepTicks := ticks } = f task) :
  f ((taskTimeTick.wake m t).task t') = f (m.task t')
  := by
  have hset : f ((m.setTask t { m.task t with sleepTicks := (m.task t).sleepTicks - 1 }).task t')
      = f (m.task t') := field_setTask (h.imp_right (fun h => h _ _))
  rw [taskTimeTick.wake]
  dsimp only
  split_ifs
  · rw [field_taskSetReady hf, taskSetWakeup, delete_task, hset]
  · apply hset

section Rest

variable (hsleep : ∀ task ticks, f { task with sleepTicks := ticks } = f task)

include hsleep

theorem field_walk (fuel : Nat) (t : Option TaskRef) :
  f ((taskTimeTick.walk m fuel t).2.task t') = f (m.task t')
  := by
  induction fuel generalizing m t with
  | zero => rfl
  | succ fuel ih =>
      cases t with
      | none => rfl
      | some t =>
          rw [taskTimeTick.walk, ih, field_wake hf (.inr hsleep)]

theorem field_rest :
  f ((taskTimeTick.rest m).task t') = f (m.task t')
  := by rw [taskTimeTick.rest, field_taskDispatch hf, field_walk hf hsleep]

end Rest

end State

/-- The first part of a tick writes the ticks of the current task's time slice. -/
theorem field_slice (hf : ∀ task state, f { task with state := state } = f task)
    (h : t' ≠ m.currTask ∨ ∀ task ticks, f { task with sliceTicks := ticks } = f task) :
  f ((taskTimeTick.slice m).task t') = f (m.task t')
  := by
  rw [taskTimeTick.slice]
  dsimp only
  split_ifs
  · rw [field_requeue hf, field_setTask (f := f), field_setTask (f := f)]
    · exact h.imp_right (fun h => h _ _)
    · rw [setTask_task, if_pos rfl]
      exact h.imp_right (fun h => (h _ _).trans (h _ _).symm)
  · exact field_setTask (h.imp_right (fun h => h _ _))

theorem field_taskTimeTick (hf : ∀ task state, f { task with state := state } = f task)
    (hsleep : ∀ task ticks, f { task with sleepTicks := ticks } = f task)
    (h : t' ≠ m.currTask ∨ ∀ task ticks, f { task with sliceTicks := ticks } = f task) :
  f ((taskTimeTick m).2.task t') = f (m.task t')
  := by
  rw [taskTimeTick]
  split_ifs
  · rw [field_rest hf hsleep, field_slice hf h]
  · apply field_slice hf h

end TaskManager

end Dmos
