import Dmos.Task.Labels
import Dmos.Task.Machine

/-!
# The states of the tasks

The state of a task says in which list it is linked, whether it is the current one and
whether it has exited (`StatesAgree`), as long as no task waits for a semaphore or a mutex
and the current task was dispatched: no operation writes the state of a task that waits, and
a task that goes to the end of a ready list with no other task in it stays the current one
without being dispatched.  A run of events that avoid both (`Proper`) agrees after each of
them.
-/

open LinkedList Queues TransitionSystem

namespace Dmos

namespace TaskManager

variable {m m' : TaskManager} {life : TaskRef → Life} {q q' : Queues ListRef TaskRef}
  {p : ListRef} {t : TaskRef}

/-! ### The tasks that wait -/

/-- The lists of the semaphores and the mutexes are the same. -/
structure SameWaits (m m' : TaskManager) : Prop where
  node : m'.node .waitNode = m.node .waitNode
  list : ∀ p, p.node = .waitNode → m'.list p = m.list p

theorem SameWaits.refl (m : TaskManager) :
  SameWaits m m
  := ⟨rfl, fun _ _ => rfl⟩

theorem SameWaits.trans {m₁ m₂ m₃ : TaskManager} (h : SameWaits m₁ m₂) (h' : SameWaits m₂ m₃) :
  SameWaits m₁ m₃
  := ⟨h'.node.trans h.node, fun p hp => (h'.list p hp).trans (h.list p hp)⟩

theorem SameWaits.linked (h : SameWaits m m') (hp : p.node = .waitNode) :
  m'.linked p = m.linked p
  := by rw [TaskManager.linked, TaskManager.linked, hp, h.node, h.list p hp]

theorem sameWaits_setTask (m : TaskManager) (t : TaskRef) (task : Task) :
  SameWaits m (m.setTask t task)
  := ⟨rfl, fun p _ => list_setTask m p t task⟩

/-- The lists that link tasks by `run_node`. -/
theorem sameWaits_setList (m : TaskManager) (h : Heap TaskRef) (l : ListHead TaskRef)
    (hp : p.node = .runNode) :
  SameWaits m ((m.setNode p.node h).setList p l)
  := by
  constructor
  · rw [setList_node, setNode_node, hp]
    apply Function.update_of_ne
    simp
  · intro p' hp'
    rw [list_setList_of_ne, list_setNode]
    rintro rfl
    rw [hp] at hp'
    cases hp'

theorem sameWaits_insertLast (m : TaskManager) (t : TaskRef) (hp : p.node = .runNode) :
  SameWaits m (m.insertLast p t)
  := by
  rw [insertLast]
  apply sameWaits_setList m _ _ hp

theorem sameWaits_delete (m : TaskManager) (t : TaskRef) (hp : p.node = .runNode) :
  SameWaits m (m.delete p t)
  := by
  rw [delete]
  apply sameWaits_setList m _ _ hp

theorem sameWaits_taskSetReady (m : TaskManager) (t : TaskRef) :
  SameWaits m (m.taskSetReady t)
  := by
  rw [TaskManager.taskSetReady]
  split_ifs
  · apply SameWaits.refl
  · exact (sameWaits_insertLast m t rfl).trans (sameWaits_setTask _ _ _)

theorem sameWaits_taskSetBlock (m : TaskManager) (t : TaskRef) :
  SameWaits m (m.taskSetBlock t)
  := by
  rw [TaskManager.taskSetBlock]
  split_ifs
  · apply SameWaits.refl
  · apply sameWaits_delete m t rfl

theorem sameWaits_taskDispatch (m : TaskManager) :
  SameWaits m m.taskDispatch
  := by
  rw [TaskManager.taskDispatch]
  split
  · apply SameWaits.refl
  · split_ifs
    · exact ⟨rfl, fun p _ => by cases p <;> rfl⟩
    · apply SameWaits.refl

theorem sameWaits_requeue (m : TaskManager) (t : TaskRef) :
  SameWaits m ((m.taskSetBlock t).taskSetReady t).taskDispatch
  := (sameWaits_taskSetBlock m t).trans
    ((sameWaits_taskSetReady _ _).trans (sameWaits_taskDispatch _))

theorem sameWaits_sysYield (m : TaskManager) :
  SameWaits m m.sysYield
  := by
  rw [TaskManager.sysYield]
  split_ifs
  · apply sameWaits_requeue
  · apply SameWaits.refl

theorem sameWaits_sysSleep (m : TaskManager) (ms : UInt32) :
  SameWaits m (m.sysSleep ms)
  := by
  have hsleep (m : TaskManager) (t : TaskRef) (ticks : UInt32) :
      SameWaits m (m.taskSetSleep t ticks) := by
    rw [TaskManager.taskSetSleep]
    split_ifs
    · apply SameWaits.refl
    · exact (sameWaits_setTask m _ _).trans (sameWaits_insertLast _ _ rfl)
  exact (sameWaits_taskSetBlock m _).trans ((hsleep _ _ _).trans (sameWaits_taskDispatch _))

theorem sameWaits_sysExit (m : TaskManager) (status : Int) :
  SameWaits m (m.sysExit status)
  := (sameWaits_setTask m _ _).trans
    ((sameWaits_taskSetBlock _ _).trans (sameWaits_taskDispatch _))

theorem sameWaits_slice (m : TaskManager) :
  SameWaits m (taskTimeTick.slice m)
  := by
  rw [taskTimeTick.slice]
  dsimp only
  split_ifs
  · exact (sameWaits_setTask m _ _).trans
      ((sameWaits_setTask _ _ _).trans (sameWaits_requeue _ _))
  · apply sameWaits_setTask

theorem sameWaits_walk (m : TaskManager) (fuel : Nat) (t : Option TaskRef) :
  SameWaits m (taskTimeTick.walk m fuel t).2
  := by
  induction fuel generalizing m t with
  | zero => apply SameWaits.refl
  | succ fuel ih =>
      cases t with
      | none => apply SameWaits.refl
      | some t =>
          have hwake : SameWaits m (taskTimeTick.wake m t) := by
            rw [taskTimeTick.wake]
            dsimp only
            split_ifs
            · exact (sameWaits_setTask m _ _).trans
                ((sameWaits_delete _ _ rfl).trans (sameWaits_taskSetReady _ _))
            · apply sameWaits_setTask
          rw [taskTimeTick.walk]
          apply hwake.trans (ih _ _)

theorem sameWaits_rest (m : TaskManager) :
  SameWaits m (taskTimeTick.rest m)
  := (sameWaits_walk m _ _).trans (sameWaits_taskDispatch _)

theorem sameWaits_taskTimeTick (m : TaskManager) :
  SameWaits m (taskTimeTick m).2
  := by
  rw [TaskManager.taskTimeTick]
  split_ifs
  · exact (sameWaits_slice m).trans (sameWaits_rest _)
  · apply sameWaits_slice

/-- No task waits for a semaphore or a mutex. -/
def NoneWaits (m : TaskManager) : Prop :=
  ∀ p, p.node = .waitNode → m.linked p = []

theorem NoneWaits.congr (h : NoneWaits m) (hsame : SameWaits m m') :
  NoneWaits m'
  := by
  intro p hp
  rw [hsame.linked hp]
  apply h p hp

/-! ### The current task -/

/-- The current task is in the state a dispatch leaves it in. -/
def Dispatched (m : TaskManager) : Prop :=
  m.currTask ≠ .idleTask → (m.task m.currTask).state = .running

theorem dispatched_congr (hcurr : m'.currTask = m.currTask)
    (hstate : (m'.task m.currTask).state = (m.task m.currTask).state) :
  m'.Dispatched ↔ m.Dispatched
  := by rw [TaskManager.Dispatched, TaskManager.Dispatched, hcurr, hstate]

theorem taskDispatch_of_eq (h : m.taskDispatch.currTask = m.currTask) :
  m.taskDispatch = m
  := by
  rw [TaskManager.taskDispatch] at h ⊢
  split at h
  next => rfl
  next next hnext =>
    split_ifs at h ⊢ with hne
    · cases hne h
    · rfl

theorem dispatched_of_ne (h : m.taskDispatch.currTask ≠ m.currTask) :
  m.taskDispatch.Dispatched
  := by
  rw [TaskManager.taskDispatch] at h ⊢
  split at h
  next => cases h rfl
  next next hnext =>
    split_ifs at h ⊢ with hne
    · intro _
      apply congrArg Task.state (setTask_task_self _)
    · cases h rfl

theorem currTask_taskDispatch (hm : Holds m q) :
  m.taskDispatch.currTask = (q .ready).head?.getD .idleTask
  := by
  rw [TaskManager.taskDispatch, taskNextRun_eq hm]
  dsimp only
  split_ifs with hne
  · rfl
  · rw [not_not] at hne
    apply hne.symm

/-- A task that has left the ready list is not current after the dispatch. -/
theorem Labelled.dispatched_of_not_mem (hl : Labelled m life q) (hc : m.currTask ≠ .idleTask)
    (hnot : m.currTask ∉ q .ready) :
  m.taskDispatch.Dispatched
  := by
  apply dispatched_of_ne
  rw [currTask_taskDispatch hl.holds]
  intro h
  cases hq : q .ready with
  | nil =>
      rw [hq] at h
      apply hc h.symm
  | cons t ts =>
      rw [hq] at h hnot
      apply hnot
      rw [← h]
      apply List.mem_cons_self

/-- A task that goes to the end of the ready list is dispatched again only from behind
another one. -/
theorem Labelled.dispatched_requeue (hl : Labelled m life q) (hr : Running m q)
    (hc : m.currTask ≠ .idleTask) :
  ((m.taskSetBlock m.currTask).taskSetReady m.currTask).taskDispatch.Dispatched
    ↔ 1 < m.readyList.count
  := by
  obtain ⟨ts, hq⟩ := hr.head hc
  have hcount : m.readyList.count = (q .ready).length := (hl.holds.isList .ready).count
  have hqueue : ((q.remove .ready m.currTask).push .ready m.currTask) .ready
      = ts ++ [m.currTask] := by
    rw [push_self, remove_head hq]
  have hcurr := currTask_taskDispatch (hl.requeue (hr.mem hc)).holds
  rw [hqueue] at hcurr
  cases ts with
  | nil =>
      rw [hcount, hq]
      refine iff_of_false ?_ (by simp)
      rw [taskDispatch_of_eq (hcurr.trans (by simp)), Dispatched, taskSetReady_currTask,
        taskSetBlock_currTask, state_taskSetReady hc, if_pos rfl]
      intro h
      cases h hc
  | cons t ts =>
      rw [hcount, hq]
      refine iff_of_true ?_ (by simp)
      have hnodup := hl.holds.exclusive.nodup .ready
      rw [hq, List.nodup_cons] at hnodup
      apply dispatched_of_ne
      rw [hcurr, taskSetReady_currTask, taskSetBlock_currTask]
      intro h
      apply hnodup.1
      rw [← h]
      apply List.mem_cons_self

theorem Labelled.dispatched_sysYield (hl : Labelled m life q) (hr : Running m q)
    (hc : m.currTask ≠ .idleTask) :
  m.sysYield.Dispatched ↔ m.Dispatched ∨ 1 < m.readyList.count
  := by
  rw [TaskManager.sysYield]
  split_ifs with hcount
  · rw [or_iff_right_of_imp (fun _ => hcount)]
    apply hl.dispatched_requeue hr hc
  · rw [or_iff_left hcount]

theorem Labelled.dispatched_sysSleep (hl : Labelled m life q) (hr : Running m q)
    (hc : m.currTask ≠ .idleTask) (ms : UInt32) :
  (m.sysSleep ms).Dispatched
  := by
  have ht := hr.mem hc
  have habsent := hl.holds.exclusive.absent_remove ht
  obtain ⟨q', hl', hready⟩ := (hl.taskSetBlock ht).taskSetSleep habsent (hl.member _ _ ht).1
    (hl.member _ _ ht).2 (ms / osTickMs)
  have hcurr : ((m.taskSetBlock m.currTask).taskSetSleep m.currTask (ms / osTickMs)).currTask
      = m.currTask := by
    rw [TaskManager.taskSetSleep]
    split_ifs
    · apply taskSetBlock_currTask
    · rw [insertLast_currTask]
      apply taskSetBlock_currTask
  apply hl'.dispatched_of_not_mem
  · rw [hcurr]
    apply hc
  · rw [hcurr, hready]
    apply habsent

theorem Labelled.dispatched_sysExit (hl : Labelled m life q) (hr : Running m q)
    (hc : m.currTask ≠ .idleTask) (status : Int) :
  (m.sysExit status).Dispatched
  := by
  apply (hl.exit hr hc status).dispatched_of_not_mem
  · rw [taskSetBlock_currTask]
    apply hc
  · rw [taskSetBlock_currTask]
    apply hl.holds.exclusive.absent_remove (hr.mem hc)

/-- The time slice of the current task ends with this tick. -/
def SliceEnds (m : TaskManager) : Prop :=
  (m.task m.currTask).sliceTicks = 1 ∧ m.currTask ≠ .idleTask

theorem Labelled.dispatched_slice (hl : Labelled m life q) (hr : Running m q) :
  (taskTimeTick.slice m).Dispatched
    ↔ (m.SliceEnds → 1 < m.readyList.count) ∧ (m.SliceEnds ∨ m.Dispatched)
  := by
  have hset (ticks : Int) :
      Labelled (m.setTask m.currTask { m.task m.currTask with sliceTicks := ticks }) life q :=
    hl.setTask _ rfl
  have hsame (ticks : Int) :
      (m.setTask m.currTask { m.task m.currTask with sliceTicks := ticks }).Dispatched
        ↔ m.Dispatched :=
    dispatched_congr rfl (by rw [setTask_task_self])
  rw [taskTimeTick.slice]
  dsimp only
  by_cases hc : m.currTask = .idleTask
  · have hends : ¬ m.SliceEnds := fun h => h.2 hc
    have hidle : m.Dispatched := fun h => absurd hc h
    refine iff_of_true ?_ ⟨fun h => absurd h hends, .inr hidle⟩
    split_ifs
    · rw [setTask_setTask, setTask_task_self, TaskManager.taskSetReady, if_pos hc,
        TaskManager.taskSetBlock, if_pos hc, taskDispatch_of_eq, hsame]
      · apply hidle
      · rw [currTask_taskDispatch (hset _).holds, ← show m.currTask = _ from hr]
        rfl
    · rw [hsame]
      apply hidle
  · by_cases hzero : (m.task m.currTask).sliceTicks - 1 = 0
    · have hends : m.SliceEnds := ⟨by omega, hc⟩
      rw [if_pos hzero, setTask_setTask, setTask_task_self]
      rw [show ((m.SliceEnds → 1 < m.readyList.count) ∧ (m.SliceEnds ∨ m.Dispatched))
        ↔ 1 < m.readyList.count from ⟨fun h => h.1 hends, fun h => ⟨fun _ => h, .inl hends⟩⟩]
      exact (hset _).dispatched_requeue hr hc
    · have hends : ¬ m.SliceEnds := fun h => hzero (by rw [h.1]; rfl)
      rw [if_neg hzero, hsame]
      exact ⟨fun h => ⟨fun h' => absurd h' hends, .inr h⟩, fun h => h.2.resolve_left hends⟩

theorem currTask_walk (fuel : Nat) (t : Option TaskRef) :
  (taskTimeTick.walk m fuel t).2.currTask = m.currTask
  := by
  induction fuel generalizing m t with
  | zero => rfl
  | succ fuel ih =>
      cases t with
      | none => rfl
      | some t =>
          rw [taskTimeTick.walk, ih, taskTimeTick.wake]
          dsimp only
          split_ifs
          · rw [taskSetReady_currTask, taskSetWakeup, delete_currTask]
            rfl
          · rfl

theorem Labelled.dispatched_rest (hl : Labelled m life q) (hs : Settled m life q) :
  (taskTimeTick.rest m).Dispatched ↔ m.Dispatched
  := by
  have hwalk := currTask_walk (m := m) m.sleepList.count.toNat m.sleepList.first
  have hrest : (taskTimeTick.rest m).currTask ≠ m.currTask → (taskTimeTick.rest m).Dispatched := by
    intro h
    apply dispatched_of_ne
    rw [hwalk]
    apply h
  by_cases hc : m.currTask = .idleTask
  · refine iff_of_true ?_ (fun h => absurd hc h)
    by_cases h : (taskTimeTick.rest m).currTask = m.currTask
    · intro hne
      cases hne (h.trans hc)
    · apply hrest h
  · obtain ⟨q', hs', -, -, -, hready⟩ := hs.rest
    have hcurr : (taskTimeTick.rest m).currTask = m.currTask := by
      obtain ⟨ts, hq⟩ := hs.running.head hc
      rw [show (taskTimeTick.rest m).currTask = _ from hs'.running, hready, hq]
      rfl
    have hsame : taskTimeTick.rest m
        = (taskTimeTick.walk m m.sleepList.count.toNat m.sleepList.first).2 := by
      apply taskDispatch_of_eq
      rw [hwalk]
      apply hcurr
    rw [hsame]
    apply dispatched_congr hwalk
    have hfirst : m.sleepList.first = (q .sleep).head? := (hl.holds.isList .sleep).first
    rw [hfirst]
    apply (hl.walk (List.nil_append (q .sleep)).symm _).2
    intro hsleep
    cases hl.holds.exclusive.unique (hs.running.mem hc) hsleep

theorem Labelled.dispatched_taskTimeTick (hl : Labelled m life q) (hs : Settled m life q) :
  m.taskTimeTick.2.Dispatched
    ↔ (m.SliceEnds → 1 < m.readyList.count) ∧ (m.SliceEnds ∨ m.Dispatched)
  := by
  rw [← hl.dispatched_slice hs.running, TaskManager.taskTimeTick]
  split_ifs
  · obtain ⟨q₁, hs₁, -⟩ := hs.timeSlice
    obtain ⟨q₂, hl₂⟩ := hl.slice hs.running
    obtain rfl := hs₁.holds.unique hl₂.holds
    apply hl₂.dispatched_rest hs₁
  · apply Iff.rfl

/-- The other ready tasks are behind the current one. -/
theorem Running.mem_tail (hr : Running m q) (ht : t ∈ q .ready) (hne : t ≠ m.currTask) :
  t ∈ (q .ready).tail
  := by
  rw [Running] at hr
  cases hq : q .ready with
  | nil =>
      rw [hq] at ht
      cases ht
  | cons x xs =>
      rw [hq] at hr ht
      rw [hr] at hne
      apply List.mem_of_ne_of_mem hne ht

/-- The current task is linked in the list it goes to wait in. -/
theorem Labelled.mem_wait (hl : Labelled m life q) (hr : Running m q)
    (hc : m.currTask ≠ .idleTask) (hp : p.node = .waitNode) :
  m.currTask ∈ ((m.taskSetBlock m.currTask).insertLast p m.currTask).taskDispatch.linked p
  := by
  have ht := hr.mem hc
  rw [(sameWaits_taskDispatch _).linked hp,
    ((hl.taskSetBlock ht).holds.insertLast p (hl.holds.exclusive.absent_remove ht)).linked,
    push_self]
  apply List.mem_append_right _ (List.mem_singleton_self _)

theorem Labelled.not_noneWaits (hl : Labelled m life q) (hr : Running m q)
    (hc : m.currTask ≠ .idleTask) (hp : p.node = .waitNode) :
  ¬ NoneWaits ((m.taskSetBlock m.currTask).insertLast p m.currTask).taskDispatch
  := by
  intro h
  have hmem := hl.mem_wait hr hc hp
  rw [h p hp] at hmem
  cases hmem

theorem NoneWaits.count (h : NoneWaits m) (hm : Holds m q) (hp : p.node = .waitNode) :
  (m.list p).count = 0
  := by
  rw [(hm.isList p).count, ← hm.linked, h p hp]
  rfl

theorem sameWaits_setSemCount (m : TaskManager) (i : Nat) (count : Int) :
  SameWaits m (m.setSemCount i count)
  := ⟨rfl, fun p _ => list_setSemCount i count p⟩

theorem sameWaits_setMutexLock (m : TaskManager) (i : Nat) (count : Int)
    (owner : Option TaskRef) :
  SameWaits m (m.setMutexLock i count owner)
  := ⟨rfl, fun p _ => list_setMutexLock i count owner p⟩

/-- A notification nobody waits for. -/
theorem NoneWaits.semNotify (h : NoneWaits m) (hm : Holds m q) (i : Nat) :
  m.semNotify i = m.setSemCount i ((m.sem i).count + 1)
  := by
  rw [TaskManager.semNotify, if_neg]
  rw [not_not]
  apply h.count (p := .sem i) hm rfl

/-- An unlocking nobody waits for. -/
theorem NoneWaits.mutexUnlock (h : NoneWaits m) (hm : Holds m q) (i : Nat) :
  m.mutexUnlock i = m ∨ ∃ count owner, m.mutexUnlock i = m.setMutexLock i count owner
  := by
  have hcount (count : Int) (owner : Option TaskRef) :
      ¬ ((m.setMutexLock i count owner).mutex i).waitList.count ≠ 0 := by
    rw [not_not]
    have hlist := list_setMutexLock (m := m) i count owner (.mutex i)
    exact (congrArg ListHead.count hlist).trans (h.count (p := .mutex i) hm rfl)
  rw [TaskManager.mutexUnlock]
  dsimp only
  rw [if_neg (hcount _ _)]
  split_ifs
  · exact .inr ⟨_, _, rfl⟩
  · exact .inr ⟨_, _, rfl⟩
  · exact .inl rfl

end TaskManager

namespace Machine

open TaskManager

variable {s : Machine} {e : Event} {q : Queues ListRef TaskRef} {t : TaskRef}

/-- An event keeps what the states say about the lists. -/
theorem labelled_next (hs : s.tasks.Settled s.life q) (hl : s.tasks.Labelled s.life q)
    (he : s.Enabled e) :
  ∃ q', (s.next e).tasks.Labelled (s.next e).life q'
  := by
  cases e with
  | create t name tss tssSel => exact ⟨q, hl.taskInit hs he.2 name tss tssSel⟩
  | start t => exact ⟨_, hl.taskStart he.2.1 he.2.2⟩
  | yield => apply hl.sysYield hs.running he.1
  | sleep ms => apply hl.sysSleep hs.running he.1
  | tick => apply hl.taskTimeTick hs.running
  | resume => apply hl.rest
  | semWait i => apply hl.semWait hs.running he.1
  | semNotify i => apply hl.semNotify
  | mutexLock i => apply hl.mutexLock hs.running he.1
  | mutexUnlock i => apply hl.mutexUnlock
  | exit status => apply hl.sysExit hs.running he.1

theorem labelled_boot (h : scheduler.init s) :
  ∃ q, s.tasks.Labelled s.life q ∧ s.tasks.NoneWaits
  := by
  obtain ⟨hboot, hlife, hready⟩ := settled_init h
  refine ⟨_, ⟨hboot.holds, hboot.idle, hboot.member, ?_, ?_, ?_, ?_⟩, ?_⟩
  · intro t ht
    rw [push_self] at ht
    cases ht
  · intro t ht
    rw [push_of_ne (by simp)] at ht
    cases ht
  · intro p _ t ht
    rw [mem_push] at ht
    rcases ht with ht | ⟨rfl, rfl⟩
    · cases ht
    · exact .inr hready
  · intro t ht
    rw [hlife] at ht
    cases t <;> cases ht
  · intro p hp
    apply (hboot.holds.linked p).trans
    apply push_of_ne
    rintro rfl
    cases hp

/-! ### The states and the lists -/

/-- The state of a task says where the task is. -/
structure StateAgrees (s : Machine) (t : TaskRef) : Prop where
  running : (s.tasks.task t).state = .running ↔ t = s.tasks.currTask
  ready : (s.tasks.task t).state = .ready
    ↔ t ∈ s.tasks.linked .ready ∧ t ≠ s.tasks.currTask
  sleep : (s.tasks.task t).state = .sleep ↔ t ∈ s.tasks.linked .sleep
  /-- The lists of semaphores and mutexes link tasks by `wait_node`. -/
  waiting : (s.tasks.task t).state = .waiting
    ↔ ∃ p : ListRef, p.node = .waitNode ∧ t ∈ s.tasks.linked p
  zombie : (s.tasks.task t).state = .zombie ↔ s.life t = .exited

/-- The states of all tasks that were started, but for the idle task. -/
def StatesAgree (s : Machine) : Prop :=
  ∀ t, t ≠ .idleTask → (s.life t = .started ∨ s.life t = .exited) → s.StateAgrees t

/-- The states agree when no task waits and the current task was dispatched. -/
theorem statesAgree_iff (hs : s.tasks.Settled s.life q) (hlinked : s.Linked q)
    (hl : s.tasks.Labelled s.life q) :
  s.StatesAgree ↔ s.tasks.NoneWaits ∧ s.tasks.Dispatched
  := by
  constructor
  · intro h
    constructor
    · intro p hp
      rw [List.eq_nil_iff_forall_not_mem]
      intro t ht
      have hmem := ht
      rw [hl.holds.linked] at hmem
      have hwaiting := (h t (hl.member p t hmem).2 (.inl (hl.member p t hmem).1)).waiting.mpr
        ⟨p, hp, ht⟩
      have hne : p ≠ .sleep := by
        rintro rfl
        cases hp
      rcases hl.awake p hne t hmem with hstate | hstate
      · rw [hstate] at hwaiting
        cases hwaiting
      · rw [hstate] at hwaiting
        cases hwaiting
    · intro hc
      apply (h _ hc (.inl (hl.member _ _ (hs.running.mem hc)).1)).running.mpr rfl
  · rintro ⟨hwaits, hdispatched⟩ t hidle hlife
    have hnot (p : ListRef) (hp : p.node = .waitNode) : t ∉ s.tasks.linked p := by
      rw [hwaits p hp]
      apply List.not_mem_nil
    have hcurr : s.life t = .exited → t ≠ s.tasks.currTask := by
      rintro hexited rfl
      rw [(hl.member _ _ (hs.running.mem hidle)).1] at hexited
      cases hexited
    have hwaiting : ¬ ∃ p : ListRef, p.node = .waitNode ∧ t ∈ s.tasks.linked p := by
      rintro ⟨p, hp, ht⟩
      apply hnot p hp ht
    rcases hlife with hstarted | hexited
    · have hexited : s.life t ≠ .exited := by
        rw [hstarted]
        simp
      obtain ⟨p, ht⟩ := not_forall_not.mp (hlinked t hstarted)
      have hin := ht
      rw [← hl.holds.linked] at hin
      have hother (p' : ListRef) (hp : p' ≠ p) : t ∉ s.tasks.linked p' := by
        rw [hl.holds.linked]
        intro h
        apply hp (hl.holds.exclusive.unique h ht)
      cases p with
      | ready =>
          have hsleep := hother .sleep (by simp)
          by_cases heq : t = s.tasks.currTask
          · have hstate : (s.tasks.task t).state = .running := by
              rw [heq]
              apply hdispatched (heq ▸ hidle)
            constructor <;> rw [hstate] <;> simp [heq ▸ hsleep, heq ▸ hwaiting, heq ▸ hexited, heq]
          · have hstate := hl.ready t (hs.running.mem_tail ht heq)
            constructor <;> rw [hstate] <;> simp [hin, hsleep, hwaiting, hexited, heq]
      | sleep =>
          have hready := hother .ready (by simp)
          have hstate := hl.sleep t ht
          have hne : t ≠ s.tasks.currTask := by
            rintro rfl
            apply hready
            rw [hl.holds.linked]
            apply hs.running.mem hidle
          constructor <;> rw [hstate] <;> simp [hin, hready, hwaiting, hexited, hne]
      | sem i => cases hnot _ rfl hin
      | mutex i => cases hnot _ rfl hin
    · have hout (p : ListRef) : t ∉ s.tasks.linked p := by
        rw [hl.holds.linked]
        intro h
        rw [(hl.member p t h).1] at hexited
        cases hexited
      have hstate := hl.exited t hexited
      constructor <;> rw [hstate] <;> simp [hout, hexited, hcurr hexited]

/-! ### Runs in which the states agree -/

/-- The event leaves the states in agreement with the lists: nobody has to wait, and the
current task either leaves the processor to another one or was dispatched itself. -/
def Proper (s : Machine) : Event → Prop
  | .sleep _ => True
  | .exit _ => True
  | .yield => s.tasks.Dispatched ∨ 1 < s.tasks.readyList.count
  | .tick => (s.tasks.SliceEnds → 1 < s.tasks.readyList.count)
      ∧ (s.tasks.SliceEnds ∨ s.tasks.Dispatched)
  | .semWait i => s.tasks.Dispatched ∧ 0 < (s.tasks.sem i).count
  | .mutexLock i => s.tasks.Dispatched
      ∧ ((s.tasks.mutex i).lockedCount = 0 ∨ (s.tasks.mutex i).owner = some s.tasks.currTask)
  | _ => s.tasks.Dispatched

instance (m : TaskManager) : Decidable m.Dispatched :=
  inferInstanceAs (Decidable (_ → _))

instance (m : TaskManager) : Decidable m.SliceEnds :=
  inferInstanceAs (Decidable (_ ∧ _))

instance (s : Machine) : (e : Event) → Decidable (s.Proper e)
  | .sleep _ | .exit _ => isTrue trivial
  | .yield => inferInstanceAs (Decidable (_ ∨ _))
  | .tick | .semWait _ | .mutexLock _ => inferInstanceAs (Decidable (_ ∧ _))
  | .create _ _ _ _ | .start _ | .resume | .semNotify _ | .mutexUnlock _ =>
      inferInstanceAs (Decidable s.tasks.Dispatched)

/-- One event, when no task waits. -/
theorem agrees_next (hs : s.tasks.Settled s.life q) (hl : s.tasks.Labelled s.life q)
    (hwaits : s.tasks.NoneWaits) (he : s.Enabled e) :
  (s.next e).tasks.NoneWaits ∧ (s.next e).tasks.Dispatched ↔ s.Proper e
  := by
  -- events that leave the waiting tasks alone
  have hsame {m : TaskManager} {P : Prop} (hsame : SameWaits s.tasks m)
      (h : m.Dispatched ↔ P) : m.NoneWaits ∧ m.Dispatched ↔ P := by
    rw [h]
    exact and_iff_right (hwaits.congr hsame)
  cases e with
  | create t name tss tssSel =>
      have hne : s.tasks.currTask ≠ t := by
        intro h
        apply hs.currTask_life
        rw [h]
        apply he.2
      have hwaits' : (s.tasks.taskInit t name tss tssSel).NoneWaits := by
        intro p hp
        rw [(hs.taskInit he.2 name tss tssSel).holds.linked, ← hs.holds.linked, hwaits p hp]
      apply (and_iff_right hwaits').trans
      apply dispatched_congr (currTask_taskInit name tss tssSel)
      exact congrArg Task.state (task_taskInit name tss tssSel hne)
  | start t =>
      have hne : s.tasks.currTask ≠ t := by
        intro h
        have hlife := he.2.1
        rw [← h, (hl.member _ _ (hs.running.mem he.1.1)).1] at hlife
        cases hlife
      apply hsame (sameWaits_taskSetReady _ _)
      apply dispatched_congr taskSetReady_currTask (state_taskSetReady_of_ne hne)
  | yield =>
      apply hsame (sameWaits_sysYield _)
      apply hl.dispatched_sysYield hs.running he.1
  | sleep ms =>
      apply hsame (sameWaits_sysSleep _ _)
      apply iff_true_intro (hl.dispatched_sysSleep hs.running he.1 ms)
  | tick =>
      apply hsame (sameWaits_taskTimeTick _)
      apply hl.dispatched_taskTimeTick hs
  | resume =>
      apply hsame (sameWaits_rest _)
      apply hl.dispatched_rest hs
  | semWait i =>
      by_cases hcount : 0 < (s.tasks.sem i).count
      · have hnext : s.tasks.semWait i
            = s.tasks.setSemCount i ((s.tasks.sem i).count - 1) := by
          rw [TaskManager.semWait, if_pos hcount]
        rw [Machine.next, hnext]
        apply hsame (sameWaits_setSemCount _ _ _)
        exact (and_iff_left hcount).symm
      · have hnext : s.tasks.semWait i = ((s.tasks.taskSetBlock s.tasks.currTask).insertLast
            (.sem i) s.tasks.currTask).taskDispatch := by
          rw [TaskManager.semWait, if_neg hcount]
        rw [Machine.next, hnext]
        refine iff_of_false ?_ (fun h => hcount h.2)
        rintro ⟨h, -⟩
        apply hl.not_noneWaits (p := .sem i) hs.running he.1 rfl h
  | semNotify i =>
      rw [Machine.next, hwaits.semNotify hl.holds]
      apply hsame (sameWaits_setSemCount _ _ _)
      apply Iff.rfl
  | mutexLock i =>
      by_cases hfree : (s.tasks.mutex i).lockedCount = 0
          ∨ (s.tasks.mutex i).owner = some s.tasks.currTask
      · have hnext : ∃ count owner, s.tasks.mutexLock i
            = s.tasks.setMutexLock i count owner := by
          rw [TaskManager.mutexLock]
          split_ifs with hzero howner
          · exact ⟨_, _, rfl⟩
          · exact ⟨_, _, rfl⟩
          · cases hfree.elim hzero howner
        obtain ⟨count, owner, hnext⟩ := hnext
        rw [Machine.next, hnext]
        apply hsame (sameWaits_setMutexLock _ _ _ _)
        exact (and_iff_left hfree).symm
      · have hnext : s.tasks.mutexLock i = ((s.tasks.taskSetBlock s.tasks.currTask).insertLast
            (.mutex i) s.tasks.currTask).taskDispatch := by
          rw [not_or] at hfree
          rw [TaskManager.mutexLock, if_neg hfree.1, if_neg hfree.2]
        rw [Machine.next, hnext]
        refine iff_of_false ?_ (fun h => hfree h.2)
        rintro ⟨h, -⟩
        apply hl.not_noneWaits (p := .mutex i) hs.running he.1 rfl h
  | mutexUnlock i =>
      rw [Machine.next]
      rcases hwaits.mutexUnlock hl.holds i with h | ⟨count, owner, h⟩
      · rw [h]
        apply hsame (SameWaits.refl _)
        apply Iff.rfl
      · rw [h]
        apply hsame (sameWaits_setMutexLock _ _ _ _)
        apply Iff.rfl
  | exit status =>
      apply hsame (sameWaits_sysExit _ _)
      apply iff_true_intro (hl.dispatched_sysExit hs.running he.1 status)

/-- What a run of proper events maintains. -/
structure Agreeing (s : Machine) (q : Queues ListRef TaskRef) : Prop where
  settled : s.tasks.Settled s.life q
  linked : s.Linked q
  labelled : s.tasks.Labelled s.life q
  noneWaits : s.tasks.NoneWaits

/-- A state is in agreement after an event when the event was proper. -/
theorem Agreeing.next (h : s.Agreeing q) (hticks : WholeTicks e) (he : s.Enabled e) :
  ((s.next e).StatesAgree ↔ s.Proper e)
    ∧ (s.Proper e → ∃ q', (s.next e).Agreeing q')
  := by
  obtain ⟨q', hs', hlinked⟩ := settled_next h.settled he
  obtain ⟨q'', hl'⟩ := labelled_next h.settled h.labelled he
  obtain rfl := hs'.holds.unique hl'.holds
  have hagrees := statesAgree_iff hs' (hlinked hticks h.linked) hl'
  rw [agrees_next h.settled h.labelled h.noneWaits he] at hagrees
  use hagrees
  intro hproper
  have hnext := (agrees_next h.settled h.labelled h.noneWaits he).mpr hproper
  exact ⟨_, hs', hlinked hticks h.linked, hl', hnext.1⟩

theorem agreeing_boot (h : scheduler.init s) :
  ∃ q, s.Agreeing q
  := by
  obtain ⟨q, hs, hlinked⟩ := settled_boot h
  obtain ⟨q', hl, hwaits⟩ := labelled_boot h
  obtain rfl := hs.holds.unique hl.holds
  exact ⟨_, hs, hlinked, hl, hwaits⟩

/-- In a run of proper events the state fields agree with the lists after every event, and
no other event leaves them in agreement. -/
theorem statesAgree_of_reachable (h : (scheduler.restrict Proper).Reachable WholeTicks s) :
  (scheduler.init s ∨ s.StatesAgree)
    ∧ ∀ e s', WholeTicks e → scheduler.step s e s' → (s'.StatesAgree ↔ s.Proper e)
  := by
  have hinv : (scheduler.init s ∨ s.StatesAgree) ∧ ∃ q, s.Agreeing q := by
    apply h.invariant
    · intro s hinit
      exact ⟨.inl hinit, agreeing_boot hinit⟩
    · rintro s e _ ⟨-, q, hs⟩ hticks ⟨hproper, he, rfl⟩
      obtain ⟨hiff, hnext⟩ := hs.next hticks he
      exact ⟨.inr (hiff.mpr hproper), hnext hproper⟩
  obtain ⟨hagree, q, hs⟩ := hinv
  use hagree
  rintro e _ hticks ⟨he, rfl⟩
  apply (hs.next hticks he).1

/-- The first task sleeps for two ticks and is dispatched again. -/
def woken : Machine :=
  started.nexts [.sleep 20, .tick, .tick]

theorem statesAgree_woken :
  (scheduler.init woken ∨ woken.StatesAgree)
    ∧ ∀ e s', WholeTicks e → scheduler.step woken e s' → (s'.StatesAgree ↔ woken.Proper e)
  := by
  apply statesAgree_of_reachable
  have hsleep : WholeTicks (.sleep 20) := by
    rintro ms ⟨⟩
    decide
  have hasleep : (scheduler.restrict Proper).Reachable WholeTicks (started.next (.sleep 20)) :=
    Reachable.step (Reachable.init init_started) hsleep ⟨trivial, by decide, rfl⟩
  have htick : WholeTicks .tick := nofun
  have hticked := Reachable.step hasleep htick ⟨by decide, by decide, rfl⟩
  exact Reachable.step hticked htick ⟨by decide, by decide, rfl⟩

/-- Woken, the first task waits for a semaphore without permits and stays in the state it
ran in. -/
theorem not_statesAgree_semWait :
  ¬ ∀ s e s', scheduler.Reachable WholeTicks s → WholeTicks e → scheduler.step s e s' →
    s'.StatesAgree
  := by
  intro h
  have hsleep : WholeTicks (.sleep 20) := by
    rintro ms ⟨⟩
    decide
  have htick : WholeTicks .tick := nofun
  have hasleep : scheduler.Reachable WholeTicks (started.next (.sleep 20)) :=
    Reachable.step (Reachable.init init_started) hsleep ⟨by decide, rfl⟩
  have hticked := Reachable.step hasleep htick ⟨by decide, rfl⟩
  have hwoken : scheduler.Reachable WholeTicks woken :=
    Reachable.step hticked htick ⟨by decide, rfl⟩
  have hagree := h woken (.semWait 0) _ hwoken nofun ⟨by decide, rfl⟩ .firstTask (by decide)
    (.inl rfl)
  have hlinked : TaskRef.firstTask ∈ (woken.next (.semWait 0)).tasks.linked (.sem 0) := by
    decide
  have hwaiting := hagree.waiting.mpr ⟨.sem 0, rfl, hlinked⟩
  cases hwaiting

end Machine

end Dmos
