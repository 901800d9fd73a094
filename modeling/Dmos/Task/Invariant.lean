import Dmos.Task.Fields

/-!
# What the scheduler maintains

Between two operations the scheduler is settled: its lists hold started tasks, none of
them twice, and the current task is the first of the ready ones (`Settled`).  Within an
operation, from the moment the current task leaves the ready list to the call of
`taskDispatch`, all of this but the choice of the current task holds (`Scheduled`).

Each operation of the scheduler takes a settled state to a settled one.
-/

open LinkedList Queues

namespace Dmos

/-- What has become of a task. -/
inductive Life where
  | unborn
  | created
  | started
  | exited
  deriving DecidableEq

namespace TaskManager

/-- The lists hold started tasks, whose counts of ticks are in range. -/
structure Scheduled (m : TaskManager) (life : TaskRef → Life) (q : Queues ListRef TaskRef) :
    Prop where
  holds : Holds m q
  idle : life .idleTask = .created
  member : ∀ p t, t ∈ q p → life t = .started ∧ t ≠ .idleTask
  sleepTicks : ∀ t ∈ q .sleep, 1 ≤ (m.task t).sleepTicks
  slice : ∀ t, life t ≠ .unborn →
    1 ≤ (m.task t).sliceTicks ∧ (m.task t).sliceTicks ≤ (m.task t).timeTicks

/-- The current task is the first ready one, and the idle task when there is none. -/
def Running (m : TaskManager) (q : Queues ListRef TaskRef) : Prop :=
  m.currTask = (q .ready).head?.getD .idleTask

structure Settled (m : TaskManager) (life : TaskRef → Life) (q : Queues ListRef TaskRef) : Prop
    extends Scheduled m life q where
  running : Running m q

variable {m m' : TaskManager} {life : TaskRef → Life} {q : Queues ListRef TaskRef} {p : ListRef}
  {t : TaskRef}

/-! ### Parts of operations -/

theorem Scheduled.congr (hs : Scheduled m life q) (hnode : m'.node = m.node)
    (hlist : ∀ p, m'.list p = m.list p) (htask : m'.task = m.task) :
  Scheduled m' life q
  := by
  constructor
  · apply hs.holds.congr hnode hlist
  · apply hs.idle
  · apply hs.member
  · rw [htask]
    apply hs.sleepTicks
  · rw [htask]
    apply hs.slice

theorem Scheduled.setTask (hs : Scheduled m life q) (task : Task)
    (hsleep : t ∈ q .sleep → 1 ≤ task.sleepTicks)
    (hslice : life t ≠ .unborn → 1 ≤ task.sliceTicks ∧ task.sliceTicks ≤ task.timeTicks) :
  Scheduled (m.setTask t task) life q
  := by
  constructor
  · exact hs.holds.congr rfl (fun p => list_setTask m p t task)
  · apply hs.idle
  · apply hs.member
  · intro t' ht'
    rw [setTask_task]
    split_ifs with heq
    · subst heq
      apply hsleep ht'
    · apply hs.sleepTicks t' ht'
  · intro t' ht'
    rw [setTask_task]
    split_ifs with heq
    · subst heq
      apply hslice ht'
    · apply hs.slice t' ht'

theorem Scheduled.setState (hs : Scheduled m life q) (state : TaskState) :
  Scheduled (m.setState t state) life q
  := by
  apply hs.setTask
  · apply hs.sleepTicks t
  · apply hs.slice t

theorem Scheduled.insertLast (hs : Scheduled m life q) (ht : Absent q t)
    (hlife : life t = .started) (hidle : t ≠ .idleTask)
    (hsleep : p = .sleep → 1 ≤ (m.task t).sleepTicks) :
  Scheduled (m.insertLast p t) life (q.push p t)
  := by
  constructor
  · apply hs.holds.insertLast p ht
  · apply hs.idle
  · intro p' t' ht'
    rw [mem_push] at ht'
    rcases ht' with ht' | ⟨-, rfl⟩
    · apply hs.member _ _ ht'
    · use hlife
  · intro t' ht'
    rw [insertLast_task]
    rw [mem_push] at ht'
    rcases ht' with ht' | ⟨hp, rfl⟩
    · apply hs.sleepTicks t' ht'
    · apply hsleep hp.symm
  · rw [insertLast_task]
    apply hs.slice

theorem Scheduled.delete (hs : Scheduled m life q) (ht : t ∈ q p) :
  Scheduled (m.delete p t) life (q.remove p t)
  := by
  constructor
  · apply hs.holds.delete ht
  · apply hs.idle
  · intro p' t' ht'
    rw [hs.holds.exclusive.mem_remove ht] at ht'
    apply hs.member _ _ ht'.1
  · intro t' ht'
    rw [hs.holds.exclusive.mem_remove ht] at ht'
    rw [delete_task]
    apply hs.sleepTicks t' ht'.1
  · rw [delete_task]
    apply hs.slice

theorem Scheduled.taskSetReady (hs : Scheduled m life q) (ht : Absent q t)
    (hlife : life t = .started) (hidle : t ≠ .idleTask) :
  Scheduled (m.taskSetReady t) life (q.push .ready t)
  := by
  rw [TaskManager.taskSetReady, if_neg hidle]
  apply Scheduled.setState
  apply hs.insertLast ht hlife hidle
  intro h
  cases h

theorem Scheduled.taskSetBlock (hs : Scheduled m life q) (ht : t ∈ q .ready) :
  Scheduled (m.taskSetBlock t) life (q.remove .ready t)
  := by
  rw [TaskManager.taskSetBlock, if_neg (hs.member _ _ ht).2]
  apply hs.delete ht

/-- A task out of the ready list and back to its end. -/
theorem Scheduled.requeue (hs : Scheduled m life q) (ht : t ∈ q .ready) :
  Scheduled ((m.taskSetBlock t).taskSetReady t) life ((q.remove .ready t).push .ready t)
  := by
  apply (hs.taskSetBlock ht).taskSetReady (hs.holds.exclusive.absent_remove ht)
  · apply (hs.member _ _ ht).1
  · apply (hs.member _ _ ht).2

@[simp]
theorem taskSetReady_currTask :
  (m.taskSetReady t).currTask = m.currTask
  := by
  rw [TaskManager.taskSetReady]
  split_ifs
  · rfl
  · apply insertLast_currTask

@[simp]
theorem taskSetBlock_currTask :
  (m.taskSetBlock t).currTask = m.currTask
  := by
  rw [TaskManager.taskSetBlock]
  split_ifs
  · rfl
  · apply delete_currTask

theorem taskNextRun_eq (hm : Holds m q) :
  m.taskNextRun = some ((q .ready).head?.getD .idleTask)
  := by
  have hlist := hm.isList .ready
  have hcount : m.readyList.count = (q .ready).length := hlist.count
  have hfirst : m.readyList.first = (q .ready).head? := hlist.first
  rw [taskNextRun, hcount, hfirst]
  cases h : q .ready with
  | nil => simp
  | cons t ts =>
      rw [if_neg]
      · rfl
      · rw [List.length_cons]
        omega

/-- After a dispatch the current task is the first ready one. -/
theorem Scheduled.taskDispatch (hs : Scheduled m life q) :
  Settled m.taskDispatch life q
  := by
  rw [TaskManager.taskDispatch, taskNextRun_eq hs.holds]
  dsimp only
  split_ifs with hne
  · have hs' : Scheduled { m with currTask := (q .ready).head?.getD .idleTask } life q :=
      hs.congr rfl (fun p => by cases p <;> rfl) rfl
    use hs'.setState .running
    rfl
  · rw [not_not] at hne
    use hs
    rw [Running, hne]

/-! ### The current task -/

theorem Running.head (hr : Running m q) (hc : m.currTask ≠ .idleTask) :
  ∃ ts, q .ready = m.currTask :: ts
  := by
  rw [Running] at hr
  cases h : q .ready with
  | nil =>
      rw [h] at hr
      cases hc hr
  | cons t ts =>
      rw [h] at hr
      use ts
      rw [hr]
      rfl

theorem Running.mem (hr : Running m q) (hc : m.currTask ≠ .idleTask) :
  m.currTask ∈ q .ready
  := by
  obtain ⟨ts, h⟩ := hr.head hc
  rw [h]
  apply List.mem_cons_self

/-- The current task stays the first when others come after it. -/
theorem Running.push (hr : Running m q) (hc : m.currTask ≠ .idleTask)
    (hcurr : m'.currTask = m.currTask) :
  Running m' (q.push .ready t)
  := by
  obtain ⟨ts, h⟩ := hr.head hc
  rw [Running, hcurr, push_self, h]
  rfl

theorem Settled.currTask_life (hs : Settled m life q) :
  life m.currTask ≠ .unborn
  := by
  by_cases hc : m.currTask = .idleTask
  · rw [hc, hs.idle]
    intro h
    cases h
  · rw [(hs.member _ _ (hs.running.mem hc)).1]
    intro h
    cases h

/-- What an operation does to the queues when no task is started, goes to sleep, wakes up or
ends: tasks change places, and the ready list advances. -/
structure Moves (q q' : Queues ListRef TaskRef) : Prop where
  items : SameItems q q'
  ready : Advances (q .ready) (q' .ready)
  sleep : q' .sleep = q .sleep

theorem Moves.refl (q : Queues ListRef TaskRef) :
  Moves q q
  := ⟨SameItems.refl q, Advances.refl _, rfl⟩

theorem Running.remove (hr : Running m q) (hc : m.currTask ≠ .idleTask) :
  q.remove .ready m.currTask .ready = (q .ready).tail
  := by
  obtain ⟨ts, h⟩ := hr.head hc
  rw [remove_head h, h]
  rfl

/-- The current task goes to the end of the ready list. -/
theorem Settled.moves_requeue (hs : Settled m life q) (hc : m.currTask ≠ .idleTask) :
  Moves q ((q.remove .ready m.currTask).push .ready m.currTask)
  := by
  refine ⟨hs.holds.exclusive.sameItems_move (hs.running.mem hc), ⟨[m.currTask], .inr ?_⟩, rfl⟩
  rw [push_self, hs.running.remove hc]

/-- The current task goes to another list. -/
theorem Settled.moves_block (hs : Settled m life q) (hc : m.currTask ≠ .idleTask)
    (hready : p ≠ .ready) (hsleep : p ≠ .sleep) :
  Moves q ((q.remove .ready m.currTask).push p m.currTask)
  := by
  refine ⟨hs.holds.exclusive.sameItems_move (hs.running.mem hc), ⟨[], .inr ?_⟩, ?_⟩
  · rw [push_of_ne hready.symm, hs.running.remove hc, List.append_nil]
  · rw [push_of_ne hsleep.symm]
    rfl

/-- A task of another list becomes ready. -/
theorem Scheduled.moves_wake (hs : Scheduled m life q) (ht : t ∈ q p) (hready : p ≠ .ready)
    (hsleep : p ≠ .sleep) :
  Moves q ((q.remove p t).push .ready t)
  := by
  refine ⟨hs.holds.exclusive.sameItems_move ht, ⟨[t], .inl ?_⟩, ?_⟩
  · rw [push_self, remove_of_ne hready.symm]
  · rw [push_of_ne (by simp), remove_of_ne hsleep.symm]

/-! ### Operations -/

theorem Settled.sysYield (hs : Settled m life q) (hc : m.currTask ≠ .idleTask) :
  ∃ q', Settled m.sysYield life q' ∧ Moves q q'
  := by
  rw [TaskManager.sysYield]
  split_ifs
  · have ht := hs.running.mem hc
    exact ⟨_, (hs.requeue ht).taskDispatch, hs.moves_requeue hc⟩
  · exact ⟨q, hs, Moves.refl q⟩

theorem asInt_pos {ticks : UInt32} (h : ¬ ticks ≤ 0) (hlt : ticks.toNat < 2 ^ 31) :
  1 ≤ asInt ticks.toNat
  := by
  rw [asInt, if_pos hlt]
  rw [UInt32.le_iff_toNat_le, UInt32.toNat_zero] at h
  omega

theorem ticks_lt (ms : UInt32) :
  (ms / osTickMs).toNat < 2 ^ 31
  := by
  have hlt := ms.toNat_lt
  have hdiv : (ms / osTickMs).toNat = ms.toNat / 10 := UInt32.toNat_div _ _
  omega

theorem ticks_pos_iff (ms : UInt32) :
  ms / osTickMs ≤ 0 ↔ ms < osTickMs
  := by
  have hdiv : (ms / osTickMs).toNat = ms.toNat / 10 := UInt32.toNat_div _ _
  have hten : osTickMs.toNat = 10 := rfl
  rw [UInt32.le_iff_toNat_le, UInt32.lt_iff_toNat_lt, hdiv, hten, UInt32.toNat_zero]
  omega

/-- The current task goes to sleep, or, for less than a tick, out of all lists. -/
theorem Settled.sysSleep (hs : Settled m life q) (hc : m.currTask ≠ .idleTask) (ms : UInt32) :
  ∃ q', Settled (m.sysSleep ms) life q' ∧ (osTickMs ≤ ms → SameItems q q')
    ∧ (ms < osTickMs → Absent q' m.currTask) ∧ q' .ready = (q .ready).tail
    ∧ q' .sleep = if ms < osTickMs then q .sleep else q .sleep ++ [m.currTask]
  := by
  have ht := hs.running.mem hc
  have hblocked := hs.taskSetBlock ht
  rw [TaskManager.sysSleep, TaskManager.taskSetSleep]
  have habsent := hs.holds.exclusive.absent_remove ht
  by_cases hms : ms < osTickMs
  · rw [if_pos ((ticks_pos_iff ms).mpr hms), if_pos hms]
    refine ⟨_, hblocked.taskDispatch, ?_, fun _ => habsent, hs.running.remove hc, rfl⟩
    intro h
    cases UInt32.not_lt.mpr h hms
  · have hticks := hms
    rw [← ticks_pos_iff] at hticks
    rw [if_neg hticks, if_neg hms]
    have hset := hblocked.setTask (t := m.currTask)
      { (m.taskSetBlock m.currTask).task m.currTask with
        sleepTicks := asInt (ms / osTickMs).toNat, state := .sleep }
      (fun h => absurd h (habsent _)) (hblocked.slice _)
    have hinsert := hset.insertLast (p := .sleep) habsent (hs.member _ _ ht).1 (hs.member _ _ ht).2 (by
      intro
      rw [setTask_task, if_pos rfl]
      apply asInt_pos hticks (ticks_lt ms))
    refine ⟨_, hinsert.taskDispatch, fun _ => hs.holds.exclusive.sameItems_move ht,
      fun h => absurd h hms, ?_, rfl⟩
    rw [push_of_ne (by simp), hs.running.remove hc]

theorem Settled.sysExit (hs : Settled m life q) (hc : m.currTask ≠ .idleTask) (status : Int) :
  ∃ q', Settled (m.sysExit status) (Function.update life m.currTask .exited) q'
    ∧ (∀ t, Absent q' t ↔ Absent q t ∨ t = m.currTask) ∧ q' .ready = (q .ready).tail
    ∧ q' .sleep = q .sleep
  := by
  have ht := hs.running.mem hc
  have hset := hs.setTask (t := m.currTask)
    { m.task m.currTask with status := status, state := .zombie }
    (hs.sleepTicks _) (hs.slice _)
  have hblocked := hset.taskSetBlock ht
  have hexited : Scheduled _ (Function.update life m.currTask .exited)
      (q.remove .ready m.currTask) := {
    holds := hblocked.holds
    idle := by
      rw [Function.update_of_ne (Ne.symm hc)]
      apply hs.idle
    member := by
      intro p t ht'
      rw [hs.holds.exclusive.mem_remove ht] at ht'
      rw [Function.update_of_ne ht'.2]
      apply hs.member _ _ ht'.1
    sleepTicks := hblocked.sleepTicks
    slice := by
      intro t hlife
      apply hblocked.slice
      by_cases heq : t = m.currTask
      · rw [heq, (hs.member _ _ ht).1]
        intro h
        cases h
      · rwa [Function.update_of_ne heq] at hlife }
  refine ⟨_, hexited.taskDispatch, ?_, hs.running.remove hc, rfl⟩
  intro t
  apply hs.holds.exclusive.absent_remove_iff ht

/-- The current task waits in a list of another kind. -/
theorem Settled.wait (hs : Settled m life q) (hc : m.currTask ≠ .idleTask) (hready : p ≠ .ready)
    (hsleep : p ≠ .sleep) :
  ∃ q', Settled ((m.taskSetBlock m.currTask).insertLast p m.currTask).taskDispatch life q'
    ∧ Moves q q'
  := by
  have ht := hs.running.mem hc
  have hinsert := (hs.taskSetBlock ht).insertLast (p := p) (hs.holds.exclusive.absent_remove ht)
    (hs.member _ _ ht).1 (hs.member _ _ ht).2 (fun h => absurd h hsleep)
  exact ⟨_, hinsert.taskDispatch, hs.moves_block hc hready hsleep⟩

theorem Settled.congr (hs : Settled m life q) (hnode : m'.node = m.node)
    (hlist : ∀ p, m'.list p = m.list p) (htask : m'.task = m.task)
    (hcurr : m'.currTask = m.currTask) :
  Settled m' life q
  := by
  use hs.toScheduled.congr hnode hlist htask
  rw [Running, hcurr]
  apply hs.running

theorem list_setSemCount (i : Nat) (count : Int) (p : ListRef) :
  (m.setSemCount i count).list p = m.list p
  := by
  cases p with
  | sem j =>
      by_cases hij : j = i
      · subst hij
        simp [list, setSemCount]
      · simp [list, setSemCount, hij]
  | _ => rfl

theorem list_setMutexLock (i : Nat) (count : Int) (owner : Option TaskRef) (p : ListRef) :
  (m.setMutexLock i count owner).list p = m.list p
  := by
  cases p with
  | mutex j =>
      by_cases hij : j = i
      · subst hij
        simp [list, setMutexLock]
      · simp [list, setMutexLock, hij]
  | _ => rfl

theorem Settled.semWait (hs : Settled m life q) (hc : m.currTask ≠ .idleTask) (i : Nat) :
  ∃ q', Settled (m.semWait i) life q' ∧ Moves q q'
  := by
  rw [TaskManager.semWait]
  split_ifs
  · exact ⟨q, hs.congr rfl (list_setSemCount i _) rfl rfl, Moves.refl q⟩
  · apply hs.wait hc <;> simp

theorem Settled.mutexLock (hs : Settled m life q) (hc : m.currTask ≠ .idleTask) (i : Nat) :
  ∃ q', Settled (m.mutexLock i) life q' ∧ Moves q q'
  := by
  rw [TaskManager.mutexLock]
  split_ifs
  · exact ⟨q, hs.congr rfl (list_setMutexLock i _ _) rfl rfl, Moves.refl q⟩
  · exact ⟨q, hs.congr rfl (list_setMutexLock i _ _) rfl rfl, Moves.refl q⟩
  · apply hs.wait hc <;> simp

/-- The first task of a list becomes ready. -/
theorem Scheduled.wake (hs : Scheduled m life q) (ht : t ∈ q p) :
  Scheduled ((m.delete p t).taskSetReady t) life ((q.remove p t).push .ready t)
  := by
  apply (hs.delete ht).taskSetReady (hs.holds.exclusive.absent_remove ht)
  · apply (hs.member _ _ ht).1
  · apply (hs.member _ _ ht).2

/-- A list with a count above zero has a first task. -/
theorem Holds.exists_first (hm : Holds m q) (h : (m.list p).count ≠ 0) :
  ∃ t ts, q p = t :: ts
  := by
  rw [(hm.isList p).count] at h
  cases hq : q p with
  | nil =>
      rw [hq] at h
      cases h rfl
  | cons t ts => exact ⟨t, ts, rfl⟩

theorem Settled.semNotify (hs : Settled m life q) (i : Nat) :
  ∃ q', Settled (m.semNotify i) life q' ∧ Moves q q'
  := by
  rw [TaskManager.semNotify]
  split_ifs with hcount
  · obtain ⟨t, ts, h⟩ := hs.holds.exists_first (p := .sem i) hcount
    have ht : t ∈ q (.sem i) := by
      rw [h]
      apply List.mem_cons_self
    rw [hs.holds.deleteFirst h]
    exact ⟨_, (hs.wake ht).taskDispatch, hs.moves_wake ht (by simp) (by simp)⟩
  · exact ⟨q, hs.congr rfl (list_setSemCount i _) rfl rfl, Moves.refl q⟩

theorem Settled.mutexUnlock (hs : Settled m life q) (i : Nat) :
  ∃ q', Settled (m.mutexUnlock i) life q' ∧ Moves q q'
  := by
  rw [TaskManager.mutexUnlock]
  split_ifs with howner
  · dsimp only
    split_ifs with hzero hcount
    · have hs' : Settled (m.setMutexLock i ((m.mutex i).lockedCount - 1) none) life q :=
        hs.congr rfl (list_setMutexLock i _ _) rfl rfl
      obtain ⟨t, ts, h⟩ := hs'.holds.exists_first (p := .mutex i) hcount
      have ht : t ∈ q (.mutex i) := by
        rw [h]
        apply List.mem_cons_self
      rw [hs'.holds.deleteFirst h]
      have hlocked : Scheduled (TaskManager.setMutexLock _ i 1 (some t)) life _ :=
        (hs'.wake ht).congr rfl (list_setMutexLock i _ _) rfl
      exact ⟨_, hlocked.taskDispatch, hs.moves_wake ht (by simp) (by simp)⟩
    · exact ⟨q, hs.congr rfl (list_setMutexLock i _ _) rfl rfl, Moves.refl q⟩
    · exact ⟨q, hs.congr rfl (list_setMutexLock i _ _) rfl rfl, Moves.refl q⟩
  · exact ⟨q, hs, Moves.refl q⟩

/-! ### New tasks -/

theorem list_taskInit (name : List UInt8) (tss : Tss) (tssSel : Nat) (p : ListRef) :
  (m.taskInit t name tss tssSel).list p = m.list p
  := by
  simp only [taskInit, taskInitFields, list_insertTaskList, list_setNode, list_setTask]

/-- In the lists a task can wait in, only the links of the new task itself change. -/
theorem node_taskInit (name : List UInt8) (tss : Tss) (tssSel : Nat) (p : ListRef) :
  (m.taskInit t name tss tssSel).node p.node = listNodeInit (m.node p.node) t
  := by
  rw [taskInit, taskInitFields]
  dsimp only
  rw [insertTaskList_node]
  cases p <;> simp [setNode, setTask, ListRef.node]

theorem task_taskInit (name : List UInt8) (tss : Tss) (tssSel : Nat) {t' : TaskRef}
    (hne : t' ≠ t) :
  (m.taskInit t name tss tssSel).task t' = m.task t'
  := by
  rw [taskInit, taskInitFields]
  simp [setTask, setNode, hne]

theorem ticks_taskInit (name : List UInt8) (tss : Tss) (tssSel : Nat) :
  ((m.taskInit t name tss tssSel).task t).sliceTicks = taskTimeSliceDefault
    ∧ ((m.taskInit t name tss tssSel).task t).timeTicks = taskTimeSliceDefault
  := by
  rw [taskInit, taskInitFields]
  simp [setTask, setNode]

theorem currTask_taskInit (name : List UInt8) (tss : Tss) (tssSel : Nat) :
  (m.taskInit t name tss tssSel).currTask = m.currTask
  := by
  rw [taskInit, taskInitFields]
  simp [setTask, setNode]

theorem Scheduled.taskInit (hs : Scheduled m life q) (ht : life t = .unborn)
    (name : List UInt8) (tss : Tss) (tssSel : Nat) :
  Scheduled (m.taskInit t name tss tssSel) (Function.update life t .created) q
  := by
  have hne : ∀ {p t'}, t' ∈ q p → t' ≠ t := by
    rintro p t' ht' rfl
    rw [(hs.member p t' ht').1] at ht
    cases ht
  constructor
  · constructor
    · intro p
      rw [list_taskInit, node_taskInit]
      apply (hs.holds.isList p).congr
      intro x hx
      apply listNodeInit_of_ne (hne hx)
    · apply hs.holds.exclusive
  · rw [Function.update_of_ne]
    · apply hs.idle
    · rintro rfl
      rw [hs.idle] at ht
      cases ht
  · intro p t' ht'
    rw [Function.update_of_ne (hne ht')]
    apply hs.member p t' ht'
  · intro t' ht'
    rw [task_taskInit _ _ _ (hne ht')]
    apply hs.sleepTicks t' ht'
  · intro t' hlife
    by_cases heq : t' = t
    · subst heq
      rw [(ticks_taskInit name tss tssSel).1, (ticks_taskInit name tss tssSel).2]
      decide
    · rw [task_taskInit _ _ _ heq]
      rw [Function.update_of_ne heq] at hlife
      apply hs.slice t' hlife

theorem Settled.taskInit (hs : Settled m life q) (ht : life t = .unborn)
    (name : List UInt8) (tss : Tss) (tssSel : Nat) :
  Settled (m.taskInit t name tss tssSel) (Function.update life t .created) q
  := by
  use hs.toScheduled.taskInit ht name tss tssSel
  rw [Running, currTask_taskInit]
  apply hs.running

theorem Scheduled.absent_of_created (hs : Scheduled m life q) (ht : life t = .created) :
  Absent q t
  := by
  intro p hp
  rw [(hs.member p t hp).1] at ht
  cases ht

theorem Scheduled.taskStart (hs : Scheduled m life q) (ht : life t = .created)
    (hidle : t ≠ .idleTask) :
  Scheduled (m.taskStart t) (Function.update life t .started) (q.push .ready t)
  := by
  have habsent := hs.absent_of_created ht
  have hstarted : Scheduled m (Function.update life t .started) q := {
    holds := hs.holds
    idle := by
      rw [Function.update_of_ne (Ne.symm hidle)]
      apply hs.idle
    member := by
      intro p t' ht'
      rw [Function.update_of_ne (by rintro rfl; apply habsent p ht')]
      apply hs.member p t' ht'
    sleepTicks := hs.sleepTicks
    slice := by
      intro t' hlife
      apply hs.slice
      by_cases heq : t' = t
      · rw [heq, ht]
        intro h
        cases h
      · rwa [Function.update_of_ne heq] at hlife }
  apply hstarted.taskSetReady habsent (Function.update_self _ _ _) hidle

theorem Settled.taskStart (hs : Settled m life q) (hc : m.currTask ≠ .idleTask)
    (ht : life t = .created) (hidle : t ≠ .idleTask) :
  Settled (m.taskStart t) (Function.update life t .started) (q.push .ready t)
  := ⟨hs.toScheduled.taskStart ht hidle, hs.running.push hc taskSetReady_currTask⟩

/-- The state `first_task_init` leaves is settled, with the first task ready. -/
theorem settled_boot (layout : TaskLayout) (appCodeSel appDataSel : Nat) (count : Nat → Int)
    (heap : Nat) (idleTss firstTss : Tss) (idleSel firstSel : Nat) :
  Settled
    ((taskManagerInit layout appCodeSel appDataSel count idleTss idleSel).firstTaskInit heap
      firstTss firstSel)
    (Function.update (Function.update (Function.update (fun _ => .unborn) .idleTask .created)
      .firstTask .created) .firstTask .started)
    (Queues.push (fun _ => []) .ready .firstTask)
  := by
  have hmanager : Scheduled
      (taskManagerInit layout appCodeSel appDataSel count idleTss idleSel)
      (Function.update (fun _ => .unborn) .idleTask .created) (fun _ => []) := by
    rw [taskManagerInit, TaskManager.taskStart, TaskManager.taskSetReady, if_pos rfl]
    constructor
    · constructor
      · intro p
        rw [list_taskInit]
        cases p <;> apply isList_init
      · constructor
        · intro p
          apply List.nodup_nil
        · intro p p' t ht
          cases ht
    · apply Function.update_self
    · intro p t ht
      cases ht
    · intro t ht
      cases ht
    · intro t hlife
      by_cases heq : t = .idleTask
      · subst heq
        rw [(ticks_taskInit _ _ _).1, (ticks_taskInit _ _ _).2]
        decide
      · rw [Function.update_of_ne heq] at hlife
        cases hlife rfl
  have hfirst := hmanager.taskInit (t := .firstTask) rfl
    [102, 105, 114, 115, 116, 32, 116, 97, 115, 107] firstTss firstSel
  have hheap := hfirst.setTask (t := .firstTask)
    { ((taskManagerInit layout appCodeSel appDataSel count idleTss idleSel).taskInit .firstTask
        [102, 105, 114, 115, 116, 32, 116, 97, 115, 107] firstTss firstSel).task .firstTask with
      heapStart := heap, heapEnd := heap }
    (hfirst.sleepTicks _) (hfirst.slice _)
  use hheap.taskStart rfl (by intro h; cases h)
  rw [Running, firstTaskInit, TaskManager.taskStart, taskSetReady_currTask]
  rfl

/-! ### Ticks -/

/-- At the end of its time slice the current task goes to the end of the ready list. -/
theorem Settled.timeSlice (hs : Settled m life q) :
  ∃ q', Settled (taskTimeTick.slice m) life q' ∧ SameItems q q'
    ∧ (q' .ready = if (m.task m.currTask).sliceTicks = 1 ∧ m.currTask ≠ .idleTask then
        (q .ready).tail ++ [m.currTask] else q .ready)
    ∧ q' .sleep = q .sleep
  := by
  obtain ⟨hslice, htime⟩ := hs.toScheduled.slice m.currTask hs.currTask_life
  rw [taskTimeTick.slice]
  dsimp only
  by_cases hzero : (m.task m.currTask).sliceTicks - 1 = 0
  · rw [if_pos hzero, setTask_setTask, setTask_task, if_pos rfl]
    have hset := hs.setTask (t := m.currTask)
      { m.task m.currTask with sliceTicks := (m.task m.currTask).timeTicks }
      (hs.sleepTicks _) (fun _ => ⟨le_trans hslice htime, le_refl _⟩)
    by_cases hc : m.currTask = .idleTask
    · rw [TaskManager.taskSetReady, if_pos hc, TaskManager.taskSetBlock, if_pos hc]
      refine ⟨q, hset.taskDispatch, SameItems.refl q, ?_, rfl⟩
      rw [if_neg (fun h => h.2 hc)]
    · have ht := hs.running.mem hc
      refine ⟨_, (hset.requeue ht).taskDispatch, hs.holds.exclusive.sameItems_move ht, ?_, rfl⟩
      rw [if_pos ⟨by omega, hc⟩, push_self, hs.running.remove hc]
  · rw [if_neg hzero, if_neg (fun h => hzero (by omega))]
    refine ⟨q, ⟨hs.setTask _ (hs.sleepTicks _) ?_, hs.running⟩, SameItems.refl q, rfl, rfl⟩
    intro
    dsimp only
    omega

/-- The task sleeps for its last tick. -/
def Wakes (m : TaskManager) (t : TaskRef) : Bool :=
  (m.task t).sleepTicks = 1

theorem sleepTicks_wake (t' : TaskRef) :
  ((taskTimeTick.wake m t).task t').sleepTicks
    = if t' = t then (m.task t').sleepTicks - 1 else (m.task t').sleepTicks
  := by
  split_ifs with heq
  · rw [heq, taskTimeTick.wake]
    dsimp only
    split_ifs
    · rw [field_taskSetReady (f := Task.sleepTicks) (fun _ _ => rfl), taskSetWakeup, delete_task,
        setTask_task, if_pos rfl]
    · rw [setTask_task, if_pos rfl]
  · apply field_wake (f := Task.sleepTicks) (fun _ _ => rfl) (.inl heq)

/-- A task of the sleep list is decremented, and becomes ready at zero; the tasks before and
after it stay. -/
theorem Scheduled.sleeper (hs : Scheduled m life q) {ts us : List TaskRef}
    (h : q .sleep = ts ++ t :: us) :
  ∃ q', Scheduled (taskTimeTick.wake m t) life q' ∧ SameItems q q'
    ∧ q' .sleep = ts ++ [t].filter (fun t => !m.Wakes t) ++ us
    ∧ q' .ready = q .ready ++ [t].filter m.Wakes
  := by
  have ht : t ∈ q .sleep := by
    rw [h]
    simp
  have hne : life t ≠ .unborn := by
    rw [(hs.member _ _ ht).1]
    intro h
    cases h
  have hsleep := hs.sleepTicks t ht
  have hts : t ∉ ts := by
    have hnodup := hs.holds.exclusive.nodup .sleep
    rw [h, List.nodup_append] at hnodup
    intro hts
    apply hnodup.2.2 t hts t List.mem_cons_self rfl
  rw [taskTimeTick.wake]
  dsimp only
  rw [setTask_task, if_pos rfl]
  by_cases hzero : (m.task t).sleepTicks - 1 = 0
  · -- the decremented task keeps no promise until it has left the list
    have hdelete : Scheduled ((m.setTask t _).delete .sleep t) life (q.remove .sleep t) := {
      holds := by
        have hset : Holds (m.setTask t
            { m.task t with sleepTicks := (m.task t).sleepTicks - 1 }) q :=
          hs.holds.congr rfl (fun p => list_setTask m p t _)
        apply hset.delete ht
      idle := hs.idle
      member := (hs.delete ht).member
      sleepTicks := by
        intro t' ht'
        rw [hs.holds.exclusive.mem_remove ht] at ht'
        rw [delete_task, setTask_task, if_neg ht'.2]
        apply hs.sleepTicks t' ht'.1
      slice := by
        intro t' hlife
        rw [delete_task, setTask_task]
        split_ifs with heq
        · apply hs.slice t hne
        · apply hs.slice t' hlife }
    have hwakes : m.Wakes t = true := by
      rw [Wakes, decide_eq_true_iff]
      omega
    rw [if_pos hzero]
    refine ⟨_, hdelete.taskSetReady (hs.holds.exclusive.absent_remove ht)
      (hs.member _ _ ht).1 (hs.member _ _ ht).2, hs.holds.exclusive.sameItems_move ht, ?_, ?_⟩
    · rw [push_of_ne (by simp), remove_self, h, List.erase_append_right _ hts,
        List.erase_cons_head]
      simp [hwakes]
    · rw [push_self, remove_of_ne (by simp)]
      simp [hwakes]
  · have hwakes : m.Wakes t = false := by
      rw [Wakes, decide_eq_false_iff_not]
      omega
    rw [if_neg hzero]
    refine ⟨q, hs.setTask _ ?_ (fun _ => hs.slice t hne), SameItems.refl q, ?_, ?_⟩
    · intro
      dsimp only at hzero ⊢
      omega
    · rw [h]
      simp [hwakes]
    · simp [hwakes]

/-- The walk from any place of the sleep list reaches its end.  It decrements the tasks from
there on, and makes ready those that sleep for their last tick. -/
theorem Scheduled.walk (hs : Scheduled m life q) {ts us : List TaskRef}
    (h : q .sleep = ts ++ us) {fuel : Nat} (hfuel : us.length ≤ fuel) :
  (taskTimeTick.walk m fuel us.head?).1 = none
    ∧ (∀ t ∈ us, ((taskTimeTick.walk m fuel us.head?).2.task t).sleepTicks
      = (m.task t).sleepTicks - 1)
    ∧ (∀ t ∉ us, ((taskTimeTick.walk m fuel us.head?).2.task t).sleepTicks
      = (m.task t).sleepTicks)
    ∧ ∃ q', Scheduled (taskTimeTick.walk m fuel us.head?).2 life q' ∧ SameItems q q'
      ∧ q' .sleep = ts ++ us.filter (fun t => !m.Wakes t)
      ∧ q' .ready = q .ready ++ us.filter m.Wakes
  := by
  induction us generalizing m q ts fuel with
  | nil =>
      have hend : taskTimeTick.walk m fuel ([] : List TaskRef).head? = (none, m) := by
        cases fuel <;> rfl
      rw [hend]
      refine ⟨rfl, ?_, fun t _ => rfl, q, hs, SameItems.refl q, h, ?_⟩
      · intro t ht
        cases ht
      · rw [List.filter_nil, List.append_nil]
  | cons t us ih =>
      rw [List.length_cons] at hfuel
      obtain ⟨fuel, rfl⟩ := Nat.exists_eq_add_of_le' (Nat.le_of_add_left_le hfuel)
      have hnext : (m.node .runNode t).next = us.head? := by
        have hlist := hs.holds.isList .sleep
        rw [h] at hlist
        rw [show m.node .runNode t = _ from hlist.links]
      have ht : t ∉ us := by
        have hnodup := hs.holds.exclusive.nodup .sleep
        rw [h, List.nodup_append, List.nodup_cons] at hnodup
        apply hnodup.2.1.1
      have hticks : ∀ t' ∈ us, ((taskTimeTick.wake m t).task t').sleepTicks
          = (m.task t').sleepTicks := by
        intro t' ht'
        rw [sleepTicks_wake, if_neg (by rintro rfl; apply ht ht')]
      have hwakes : ∀ t' ∈ us, (taskTimeTick.wake m t).Wakes t' = m.Wakes t' := by
        intro t' ht'
        rw [Wakes, hticks t' ht', Wakes]
      obtain ⟨q₁, hs₁, hsame₁, h₁, hready₁⟩ := hs.sleeper h
      obtain ⟨hend, hmem, hnot, q₂, hs₂, hsame₂, h₂, hready₂⟩ :=
        ih hs₁ h₁ (Nat.le_of_add_le_add_right hfuel)
      rw [List.head?_cons, taskTimeTick.walk, hnext]
      refine ⟨hend, ?_, ?_, q₂, hs₂, hsame₁.trans hsame₂, ?_, ?_⟩
      · intro t' ht'
        rw [List.mem_cons] at ht'
        rcases ht' with rfl | ht'
        · rw [hnot t' ht, sleepTicks_wake, if_pos rfl]
        · rw [hmem t' ht', hticks t' ht']
      · intro t' ht'
        rw [List.mem_cons, not_or] at ht'
        rw [hnot t' ht'.2, sleepTicks_wake, if_neg ht'.1]
      · rw [h₂, List.filter_congr (fun t' ht' => congrArg not (hwakes t' ht')),
          List.append_assoc, ← List.filter_append, List.singleton_append]
      · rw [hready₂, hready₁, List.filter_congr hwakes, List.append_assoc,
          ← List.filter_append, List.singleton_append]

theorem Scheduled.rest (hs : Scheduled m life q) :
  ∃ q', Settled (taskTimeTick.rest m) life q' ∧ SameItems q q'
    ∧ (∀ t ∈ q .sleep, ((taskTimeTick.rest m).task t).sleepTicks = (m.task t).sleepTicks - 1)
    ∧ q' .sleep = (q .sleep).filter (fun t => !m.Wakes t)
    ∧ q' .ready = q .ready ++ (q .sleep).filter m.Wakes
  := by
  have hlist := hs.holds.isList .sleep
  have hcount : m.sleepList.count.toNat = (q .sleep).length := by
    have hc : m.sleepList.count = (q .sleep).length := hlist.count
    rw [hc, Int.toNat_natCast]
  have hfirst : m.sleepList.first = (q .sleep).head? := hlist.first
  obtain ⟨-, hticks, -, q', hs', hsame, hsleep, hready⟩ :=
    hs.walk (List.nil_append (q .sleep)).symm (le_of_eq hcount.symm)
  rw [← hfirst] at hs' hticks
  refine ⟨q', hs'.taskDispatch, hsame, ?_, hsleep, hready⟩
  intro t ht
  rw [taskTimeTick.rest, field_taskDispatch (f := Task.sleepTicks) (fun _ _ => rfl), hticks t ht]

/-- A task switched out in a tick leaves the ticks of sleep as they are. -/
theorem sleepTicks_switched (h : (taskTimeTick m).1 = true) :
  ((taskTimeTick m).2.task t).sleepTicks = (m.task t).sleepTicks
  := by
  rw [TaskManager.taskTimeTick] at h ⊢
  split_ifs at h ⊢
  apply field_slice (f := Task.sleepTicks) (fun _ _ => rfl) (.inr (fun _ _ => rfl))

theorem Settled.taskTimeTick (hs : Settled m life q) :
  ∃ q', Settled (taskTimeTick m).2 life q' ∧ SameItems q q'
    ∧ (if (m.task m.currTask).sliceTicks = 1 ∧ m.currTask ≠ .idleTask then
        (q .ready).tail ++ [m.currTask] else q .ready) <+: q' .ready
    ∧ ((taskTimeTick m).1 = true → q' .sleep = q .sleep)
    ∧ ((taskTimeTick m).1 = false →
      q' .sleep = (q .sleep).filter (fun t => !m.Wakes t)
        ∧ (q .sleep).filter m.Wakes ⊆ q' .ready
        ∧ ∀ t ∈ q .sleep, ((taskTimeTick m).2.task t).sleepTicks = (m.task t).sleepTicks - 1)
  := by
  have hticks (t : TaskRef) :
      ((taskTimeTick.slice m).task t).sleepTicks = (m.task t).sleepTicks :=
    field_slice (f := Task.sleepTicks) (fun _ _ => rfl) (.inr (fun _ _ => rfl))
  obtain ⟨q₁, hs₁, hsame₁, hready₁, hsleep₁⟩ := hs.timeSlice
  rw [← hready₁, TaskManager.taskTimeTick]
  split_ifs
  · have hwakes : (taskTimeTick.slice m).Wakes = m.Wakes := by
      funext t
      rw [Wakes, hticks, Wakes]
    obtain ⟨q₂, hs₂, hsame₂, hticks₂, hsleep₂, hready₂⟩ := hs₁.rest
    rw [hsleep₁] at hticks₂
    rw [hsleep₁, hwakes] at hsleep₂ hready₂
    refine ⟨q₂, hs₂, hsame₁.trans hsame₂, ?_, ?_, fun _ => ⟨hsleep₂, ?_, ?_⟩⟩
    · rw [hready₂]
      apply List.prefix_append
    · intro h
      cases h
    · rw [hready₂]
      apply List.subset_append_right
    · intro t ht
      rw [hticks₂ t ht, hticks]
  · refine ⟨q₁, hs₁, hsame₁, List.prefix_refl _, fun _ => hsleep₁, ?_⟩
    intro h
    cases h

end TaskManager

end Dmos
