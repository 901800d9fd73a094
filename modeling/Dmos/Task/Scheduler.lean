import Dmos.Task.Task
import Dmos.Library.Queues

/-!
# The scheduler

The functions of `task.c`, `sem.c` and `mutex.c` that move tasks between the lists they are
linked in (`ListRef`).  All of them run with interrupts off.

A call of `taskDispatch` switches to another task by `far_jump`, and what follows it in the
calling function runs when the caller is switched back.  Only `taskTimeTick` has such a
rest, so it is cut there (`taskTimeTick.slice`, `taskTimeTick.rest`) and tells whether it was
switched out in between.
-/

open LinkedList

namespace Dmos

/-- The lists a task waits in for the processor, for a tick, or for another task. -/
inductive ListRef where
  | ready
  | sleep
  | sem (i : Nat)
  | mutex (i : Nat)
  deriving DecidableEq

/-- The member of `task_t` linked in a list. -/
def ListRef.node : ListRef → ListNode
  | .ready => .runNode
  | .sleep => .runNode
  | .sem _ => .waitNode
  | .mutex _ => .waitNode

namespace TaskManager

/-! ### Lists -/

def list (m : TaskManager) : ListRef → ListHead TaskRef
  | .ready => m.readyList
  | .sleep => m.sleepList
  | .sem i => (m.sem i).waitList
  | .mutex i => (m.mutex i).waitList

def setList (m : TaskManager) (p : ListRef) (l : ListHead TaskRef) : TaskManager :=
  match p with
  | .ready => { m with readyList := l }
  | .sleep => { m with sleepList := l }
  | .sem i => { m with sem := Function.update m.sem i { m.sem i with waitList := l } }
  | .mutex i => { m with mutex := Function.update m.mutex i { m.mutex i with waitList := l } }

/-- `list_insert_last` on a list, with the node of a task that is linked in it. -/
def insertLast (m : TaskManager) (p : ListRef) (t : TaskRef) : TaskManager :=
  match listInsertLast (m.node p.node) (m.list p) t with
  | (h, l) => (m.setNode p.node h).setList p l

/-- `list_delete` from a list. -/
def delete (m : TaskManager) (p : ListRef) (t : TaskRef) : TaskManager :=
  match listDelete (m.node p.node) (m.list p) t with
  | (h, l) => (m.setNode p.node h).setList p l

/-- `list_delete_first` from a list. -/
def deleteFirst (m : TaskManager) (p : ListRef) : Option TaskRef × TaskManager :=
  match listDeleteFirst (m.node p.node) (m.list p) with
  | (t, h, l) => (t, (m.setNode p.node h).setList p l)

/-- The tasks linked in a list, read off the links. -/
def linked (m : TaskManager) (p : ListRef) : List TaskRef :=
  listNodes (m.node p.node) (m.list p)

/-! ### Ready tasks -/

def setState (m : TaskManager) (t : TaskRef) (state : TaskState) : TaskManager :=
  m.setTask t { m.task t with state := state }

def taskSetReady (m : TaskManager) (t : TaskRef) : TaskManager :=
  if t = .idleTask then m else (m.insertLast .ready t).setState t .ready

def taskSetBlock (m : TaskManager) (t : TaskRef) : TaskManager :=
  if t = .idleTask then m else m.delete .ready t

def taskStart (m : TaskManager) (t : TaskRef) : TaskManager :=
  m.taskSetReady t

/-- The task to run next; `none` is the null pointer. -/
def taskNextRun (m : TaskManager) : Option TaskRef :=
  if m.readyList.count = 0 then some .idleTask else m.readyList.first

def taskDispatch (m : TaskManager) : TaskManager :=
  match m.taskNextRun with
  | none => m
  | some next =>
      if next ≠ m.currTask then { m with currTask := next }.setState next .running else m

def sysYield (m : TaskManager) : TaskManager :=
  if 1 < m.readyList.count then
    let curr := m.currTask
    ((m.taskSetBlock curr).taskSetReady curr).taskDispatch
  else m

/-! ### Sleeping and ticks -/

def taskSetSleep (m : TaskManager) (t : TaskRef) (ticks : UInt32) : TaskManager :=
  if ticks ≤ 0 then m
  else
    (m.setTask t
      { m.task t with sleepTicks := asInt ticks.toNat, state := .sleep }).insertLast .sleep t

def taskSetWakeup (m : TaskManager) (t : TaskRef) : TaskManager :=
  m.delete .sleep t

def sysSleep (m : TaskManager) (ms : UInt32) : TaskManager :=
  let curr := m.currTask
  ((m.taskSetBlock curr).taskSetSleep curr (ms / osTickMs)).taskDispatch

/-- The first part of `task_time_tick`: the time slice of the current task. -/
def taskTimeTick.slice (m : TaskManager) : TaskManager :=
  let curr := m.currTask
  let slice := (m.task curr).sliceTicks - 1
  let m := m.setTask curr { m.task curr with sliceTicks := slice }
  -- the address `&ready_list.count` is always above zero
  if slice = 0 then
    let m := m.setTask curr { m.task curr with sliceTicks := (m.task curr).timeTicks }
    ((m.taskSetBlock curr).taskSetReady curr).taskDispatch
  else m

/-- One sleeping task in a tick. -/
def taskTimeTick.wake (m : TaskManager) (t : TaskRef) : TaskManager :=
  let m := m.setTask t { m.task t with sleepTicks := (m.task t).sleepTicks - 1 }
  if (m.task t).sleepTicks = 0 then (m.taskSetWakeup t).taskSetReady t else m

/-- The walk through the sleeping tasks, from a node on, for at most `fuel` of them: the
node it stopped at, which is not null only when fuel ran out, and the state. -/
def taskTimeTick.walk (m : TaskManager) (fuel : Nat) (t : Option TaskRef) :
    Option TaskRef × TaskManager :=
  match fuel, t with
  | 0, t => (t, m)
  | _, none => (none, m)
  | fuel + 1, some t => walk (taskTimeTick.wake m t) fuel (m.node .runNode t).next

/-- The second part of `task_time_tick`: the sleeping tasks. -/
def taskTimeTick.rest (m : TaskManager) : TaskManager :=
  (taskTimeTick.walk m m.sleepList.count.toNat m.sleepList.first).2.taskDispatch

/-- The tick, and whether the current task was switched out between its two parts. -/
def taskTimeTick (m : TaskManager) : Bool × TaskManager :=
  let m' := taskTimeTick.slice m
  if m'.currTask = m.currTask then (false, taskTimeTick.rest m') else (true, m')

/-- The end of a task, after its files have been closed. -/
def sysExit (m : TaskManager) (status : Int) : TaskManager :=
  let curr := m.currTask
  let m := m.setTask curr { m.task curr with status := status, state := .zombie }
  (m.taskSetBlock curr).taskDispatch

/-! ### Semaphores and mutexes -/

def setSemCount (m : TaskManager) (i : Nat) (count : Int) : TaskManager :=
  { m with sem := Function.update m.sem i { m.sem i with count := count } }

def setMutexLock (m : TaskManager) (i : Nat) (count : Int) (owner : Option TaskRef) :
    TaskManager :=
  { m with
    mutex := Function.update m.mutex i { m.mutex i with lockedCount := count, owner := owner } }

def semWait (m : TaskManager) (i : Nat) : TaskManager :=
  if 0 < (m.sem i).count then m.setSemCount i ((m.sem i).count - 1)
  else
    let curr := m.currTask
    ((m.taskSetBlock curr).insertLast (.sem i) curr).taskDispatch

def semNotify (m : TaskManager) (i : Nat) : TaskManager :=
  if (m.sem i).waitList.count ≠ 0 then
    match m.deleteFirst (.sem i) with
    | (some t, m) => (m.taskSetReady t).taskDispatch
    | (none, m) => m
  else m.setSemCount i ((m.sem i).count + 1)

def mutexLock (m : TaskManager) (i : Nat) : TaskManager :=
  let curr := m.currTask
  if (m.mutex i).lockedCount = 0 then m.setMutexLock i 1 (some curr)
  else if (m.mutex i).owner = some curr then
    m.setMutexLock i ((m.mutex i).lockedCount + 1) (m.mutex i).owner
  else ((m.taskSetBlock curr).insertLast (.mutex i) curr).taskDispatch

def mutexUnlock (m : TaskManager) (i : Nat) : TaskManager :=
  if (m.mutex i).owner = some m.currTask then
    let count := (m.mutex i).lockedCount - 1
    if count = 0 then
      let m := m.setMutexLock i count none
      if (m.mutex i).waitList.count ≠ 0 then
        match m.deleteFirst (.mutex i) with
        | (some t, m) => ((m.taskSetReady t).setMutexLock i 1 (some t)).taskDispatch
        | (none, m) => m
      else m
    else m.setMutexLock i count (m.mutex i).owner
  else m

/-! ### Boot -/

/-- A semaphore and a mutex no task has used. -/
def semInit (count : Int) : Sem :=
  { count := count, waitList := listInit }

def mutexInit : Mutex :=
  { lockedCount := 0, owner := none, waitList := listInit }

/-- `task_init` of a task for which `tss_init` has set up the segment `tss` with the
selector `tssSel`. -/
def taskInit (m : TaskManager) (t : TaskRef) (name : List UInt8) (tss : Tss) (tssSel : Nat) :
    TaskManager :=
  (m.setTask t { m.task t with tss := tss, tssSel := tssSel }).taskInitFields t name

/-- `task_manager_init`, with all memory of the kernel zeroed before it. -/
def taskManagerInit (layout : TaskLayout) (appCodeSel appDataSel : Nat) (count : Nat → Int)
    (tss : Tss) (tssSel : Nat) : TaskManager :=
  let m : TaskManager :=
    { layout := layout
      currTask := .firstTask
      readyList := listInit
      sleepList := listInit
      taskList := listInit
      task := fun _ => {}
      node := fun _ _ => ⟨none, none⟩
      appCodeSel := appCodeSel
      appDataSel := appDataSel
      sem := fun i => semInit (count i)
      mutex := fun _ => mutexInit }
  -- "idle  task"
  (m.taskInit .idleTask [105, 100, 108, 101, 32, 32, 116, 97, 115, 107] tss tssSel).taskStart
    .idleTask

/-- `first_task_init`, for the task linked at `entry` with a heap from `heap` on. -/
def firstTaskInit (m : TaskManager) (heap : Nat) (tss : Tss) (tssSel : Nat) : TaskManager :=
  -- "first task"
  let m := m.taskInit .firstTask [102, 105, 114, 115, 116, 32, 116, 97, 115, 107] tss tssSel
  let m := m.setTask .firstTask
    { m.task .firstTask with heapStart := heap, heapEnd := heap }
  m.taskStart .firstTask

end TaskManager

end Dmos
