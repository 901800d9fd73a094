import Dmos.Kernel.List
import Dmos.Kernel.Mem
import Mathlib.Data.Fintype.Basic

/-!
# Tasks

The data of `task.h`, `sem.h` and `mux.h`: the tasks, the task manager with its lists, and
the semaphores and mutexes tasks wait on.

The nodes through which a task is linked are members of `task_t`; their links are kept in
one heap for each member (`ListNode`).  The table of open files and the stack pointer of a
task, which neither scheduling nor forking reads, are left out.
-/

open LinkedList

namespace Dmos

/-! ### Data -/

/-- A pointer to a task: a task of the task manager or an entry of `g_task_table`. -/
inductive TaskRef where
  | firstTask
  | idleTask
  | slot (i : Fin 128)
  deriving DecidableEq

instance neZero_slots : NeZero 128 := ⟨by decide⟩

instance : Fintype TaskRef where
  elems := insert .firstTask (insert .idleTask (Finset.univ.image .slot))
  complete t := by cases t <;> simp

/-- The members of `task_t` by which tasks are linked. -/
inductive ListNode where
  | runNode
  | allNode
  | waitNode
  deriving DecidableEq

inductive TaskState where
  | created
  | running
  | sleep
  | ready
  | waiting
  | zombie
  deriving DecidableEq

/-- The task state segment. -/
structure Tss where
  preLink : Nat := 0
  esp0 : Nat := 0
  ss0 : Nat := 0
  esp1 : Nat := 0
  ss1 : Nat := 0
  esp2 : Nat := 0
  ss2 : Nat := 0
  cr3 : Nat := 0
  eip : Nat := 0
  eflags : Nat := 0
  eax : Nat := 0
  ecx : Nat := 0
  edx : Nat := 0
  ebx : Nat := 0
  esp : Nat := 0
  ebp : Nat := 0
  esi : Nat := 0
  edi : Nat := 0
  es : Nat := 0
  cs : Nat := 0
  ss : Nat := 0
  ds : Nat := 0
  fs : Nat := 0
  gs : Nat := 0
  ldt : Nat := 0
  iomap : Nat := 0

/-- A task.  Its name is the string in the array, up to the null byte. -/
structure Task where
  state : TaskState := .created
  name : List UInt8 := []
  pid : Int := 0
  parent : Option TaskRef := none
  heapStart : Nat := 0
  heapEnd : Nat := 0
  sliceTicks : Int := 0
  timeTicks : Int := 0
  sleepTicks : Int := 0
  status : Int := 0
  tss : Tss := {}
  tssSel : Nat := 0

structure Sem where
  count : Int
  waitList : ListHead TaskRef

structure Mutex where
  lockedCount : Int
  owner : Option TaskRef
  waitList : ListHead TaskRef

/-- Where the linker put the tasks, below the memory the allocator manages. -/
structure TaskLayout where
  gTaskManager : Nat
  gTaskTable : Nat
  gTaskManager_aligned : gTaskManager % 4 = 0
  gTaskTable_aligned : gTaskTable % 4 = 0
  gTaskManager_pos : 0 < gTaskManager
  gTaskTable_pos : 0 < gTaskTable
  gTaskManager_end : gTaskManager + 1480 ≤ memExtStart
  gTaskTable_end : gTaskTable + 128 * 716 ≤ memExtStart

/-- The tasks in the lowest 256 kB. -/
def TaskLayout.low : TaskLayout where
  gTaskManager := 65536
  gTaskTable := 131072
  gTaskManager_aligned := by decide
  gTaskTable_aligned := by decide
  gTaskManager_pos := by decide
  gTaskTable_pos := by decide
  gTaskManager_end := by decide
  gTaskTable_end := by decide

/-- The state of `task.c`, with the semaphores and the mutexes of the kernel. -/
structure TaskManager where
  layout : TaskLayout
  currTask : TaskRef
  readyList : ListHead TaskRef
  sleepList : ListHead TaskRef
  taskList : ListHead TaskRef
  task : TaskRef → Task
  node : ListNode → Heap TaskRef
  appCodeSel : Nat
  appDataSel : Nat
  sem : Nat → Sem
  mutex : Nat → Mutex

abbrev taskTimeSliceDefault : Int := 10
abbrev taskNameSize : Int := 32
abbrev osTickMs : UInt32 := 10

/-- The address of a task. -/
def TaskLayout.address (l : TaskLayout) : TaskRef → Nat
  | .firstTask => l.gTaskManager + 40
  | .idleTask => l.gTaskManager + 756
  | .slot i => l.gTaskTable + 716 * i

/-! ### Names -/

/-- The loop of `kStrncpy`: the bytes copied and the size when it stops. -/
def kStrncpy.loop : List UInt8 → Int → List UInt8 × Int
  | [], size => ([], size - 1)
  | c :: src, size =>
      if 0 < size then
        match kStrncpy.loop src (size - 1) with
        | (copied, size) => (c :: copied, size)
      else ([], size - 1)

/-- The string `k_strncpy` leaves in its destination. -/
def kStrncpy (src : List UInt8) (size : Int) : List UInt8 :=
  match kStrncpy.loop src size with
  | (copied, size) => if size = 0 then copied.dropLast else copied

namespace TaskManager

/-! ### Creation -/

def setTask (m : TaskManager) (t : TaskRef) (task : Task) : TaskManager :=
  { m with task := Function.update m.task t task }

/-- `k_strncpy` to the name of a task.  The null byte after a name that fills the array falls
on the first byte of the process id. -/
def setName (m : TaskManager) (t : TaskRef) (name : List UInt8) : TaskManager :=
  let pid := (m.task t).pid
  m.setTask t
    { m.task t with
      name := kStrncpy name taskNameSize
      pid := if 32 ≤ name.length then pid / 256 * 256 else pid }

def setNode (m : TaskManager) (n : ListNode) (h : Heap TaskRef) : TaskManager :=
  { m with node := Function.update m.node n h }

/-- `list_insert_last` on the list of all tasks. -/
def insertTaskList (m : TaskManager) (t : TaskRef) : TaskManager :=
  match listInsertLast (m.node .allNode) m.taskList t with
  | (h, l) => { m.setNode .allNode h with taskList := l }

/-- What `task_init` does after `tss_init`. -/
def taskInitFields (m : TaskManager) (t : TaskRef) (name : List UInt8) : TaskManager :=
  let m := m.setTask t
    { m.task t with
      name := kStrncpy name taskNameSize
      state := .created
      timeTicks := taskTimeSliceDefault
      sliceTicks := taskTimeSliceDefault
      sleepTicks := 0
      parent := none
      heapStart := 0
      heapEnd := 0
      status := 0
      pid := asInt (m.layout.address t) }
  let m := m.setNode .allNode (listNodeInit (m.node .allNode) t)
  let m := m.setNode .runNode (listNodeInit (m.node .runNode) t)
  let m := m.setNode .waitNode (listNodeInit (m.node .waitNode) t)
  m.insertTaskList t

end TaskManager

end Dmos
