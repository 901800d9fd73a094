import Dmos.Fs.TempFile
import Dmos.Task.Gdt
import Dmos.Task.Scheduler

/-!
# Forking

`sys_fork` of `task.c` with what it calls, on memory, descriptors and tasks together
(`Os`).  The calls of `irq_enter_proection` and the mutexes, which no other task holds in
these functions, leave no trace in the state.
-/

open LinkedList

namespace Dmos

/-- The kernel with its file buffer, its descriptors and its tasks. -/
structure Os where
  kernel : Kernel
  fs : TempFile
  gdt : Gdt
  tasks : TaskManager

/-- The words of the frame of a system call that `sys_fork` reads. -/
structure SyscallFrame where
  eflags : Nat
  gs : Nat
  fs : Nat
  es : Nat
  ds : Nat
  edi : Nat
  esi : Nat
  ebp : Nat
  ebx : Nat
  edx : Nat
  ecx : Nat
  eip : Nat
  cs : Nat
  esp : Nat

abbrev taskFlagsSystem : Nat := 1 <<< 0

abbrev eflagsDefault : Nat := 1 <<< 1

abbrev eflagsIf : Nat := 1 <<< 9

abbrev syscallParamCount : Nat := 5

namespace TaskManager

/-- The first entry of `g_task_table` without a name. -/
def allocTask (m : TaskManager) : Option TaskRef :=
  ((List.finRange 128).find? fun i => (m.task (.slot i)).name = []).map .slot

def freeTask (m : TaskManager) (t : TaskRef) : TaskManager :=
  m.setTask t { m.task t with name := [] }

/-- `k_memset` of a task to zero. -/
def clearTask (m : TaskManager) (t : TaskRef) : TaskManager :=
  let m := m.setTask t {}
  let m := m.setNode .runNode (listNodeInit (m.node .runNode) t)
  let m := m.setNode .allNode (listNodeInit (m.node .allNode) t)
  m.setNode .waitNode (listNodeInit (m.node .waitNode) t)

def setTss (m : TaskManager) (t : TaskRef) (tss : Tss) : TaskManager :=
  m.setTask t { m.task t with tss := tss }

end TaskManager

namespace Kernel

/-- The frame at an address of the kernel. -/
def syscallFrame (s : Kernel) (frame : Nat) : SyscallFrame where
  eflags := s.load frame
  gs := s.load (frame + 4)
  fs := s.load (frame + 8)
  es := s.load (frame + 12)
  ds := s.load (frame + 16)
  edi := s.load (frame + 20)
  esi := s.load (frame + 24)
  ebp := s.load (frame + 28)
  ebx := s.load (frame + 36)
  edx := s.load (frame + 40)
  ecx := s.load (frame + 44)
  eip := s.load (frame + 52)
  cs := s.load (frame + 56)
  esp := s.load (frame + 80)

end Kernel

namespace Os

def setTss (s : Os) (t : TaskRef) (tss : Tss) : Os :=
  { s with tasks := s.tasks.setTss t tss }

/-- The page directory of the current task. -/
def currPageDir (s : Os) : Nat :=
  (s.tasks.task s.tasks.currTask).tss.cr3

/-- The label `tss_init_failed`. -/
def tssInitFailed (s : Os) (tssSel kernelStack : Nat) : Int × Os :=
  let s := { s with gdt := gdtFreeSel s.gdt tssSel }
  if kernelStack ≠ 0 then
    (-1, { s with kernel := s.kernel.memoryFreePage s.currPageDir kernelStack })
  else (-1, s)

def tssInit (s : Os) (t : TaskRef) (flag entry esp : Nat) : Int × Os :=
  let tssSel := gdtAllocDesc s.gdt
  -- the segment is the member `tss` of the task
  let s := { s with
    gdt := segmentDescSet s.gdt tssSel (s.tasks.layout.address t + 608) 104
      (segPPresent ||| segDpl0 ||| segTypeTss) }
  let s := s.setTss t {}
  match s.kernel.memoryAllocPage with
  | (kernelStack, kernel) =>
      let s := { s with kernel := kernel }
      if kernelStack = 0 then s.tssInitFailed tssSel kernelStack
      else
        let system := flag &&& taskFlagsSystem ≠ 0
        let codeSel := if system then kernelSelectorCs else s.tasks.appCodeSel ||| segRpl3
        let dataSel := if system then kernelSelectorDs else s.tasks.appDataSel ||| segRpl3
        let tss : Tss :=
          { eip := entry
            esp := esp
            esp0 := u32 (kernelStack + memPageSize)
            ss := dataSel
            ss0 := kernelSelectorDs
            es := dataSel
            ds := dataSel
            fs := dataSel
            gs := dataSel
            cs := codeSel
            eflags := eflagsDefault ||| eflagsIf }
        let s := s.setTss t tss
        match s.kernel.memoryCreateUvm with
        | (pageDir, kernel) =>
            let s := { s with kernel := kernel }
            if pageDir = 0 then s.tssInitFailed tssSel kernelStack
            else
              let s := s.setTss t { tss with cr3 := pageDir }
              (0, { s with
                tasks := s.tasks.setTask t { s.tasks.task t with tssSel := tssSel } })

def taskInit (s : Os) (t : TaskRef) (name : List UInt8) (flag entry esp : Nat) : Int × Os :=
  match s.tssInit t flag entry esp with
  | (err, s) =>
      if err = -1 then (-1, s) else (0, { s with tasks := s.tasks.taskInitFields t name })

def taskUninit (s : Os) (t : TaskRef) : Os :=
  let task := s.tasks.task t
  let s := if task.tssSel ≠ 0 then { s with gdt := gdtFreeSel s.gdt task.tssSel } else s
  -- the page below the user's stack pointer, not the kernel stack
  let s :=
    if task.tss.esp0 ≠ 0 then
      { s with
        kernel := s.kernel.memoryFreePage s.currPageDir (u32Sub task.tss.esp memPageSize) }
    else s
  let s :=
    if task.tss.cr3 ≠ 0 then { s with kernel := s.kernel.memoryDestoryUvm task.tss.cr3 } else s
  { s with tasks := s.tasks.clearTask t }

/-- The label `fork_failed`, with a child. -/
def forkFailed (s : Os) (child : TaskRef) : Int × Os :=
  let s := s.taskUninit child
  (-1, { s with tasks := s.tasks.freeTask child })

/-- The registers of the child, from the frame of the parent's system call. -/
def forkRegisters (tss : Tss) (frame : SyscallFrame) : Tss :=
  { tss with
    eax := 0
    ebx := frame.ebx
    ecx := frame.ecx
    edx := frame.edx
    esi := frame.esi
    edi := frame.edi
    ebp := frame.ebp
    cs := frame.cs
    ds := frame.ds
    es := frame.es
    fs := frame.fs
    gs := frame.gs
    eflags := frame.eflags }

/-- The address of the frame of a task's system call, at the end of its kernel stack. -/
def frameAddr (s : Os) (t : TaskRef) : Nat :=
  u32Sub (s.tasks.task t).tss.esp0 88

/-- The first part of `sys_fork`: the child up to the copy of the address space. -/
def sysFork.init (s : Os) (parent child : TaskRef) : Int × Os :=
  let frame := s.frameAddr parent
  match s.taskInit child (s.tasks.task parent).name 0 (s.kernel.syscallFrame frame).eip
      (u32 ((s.kernel.syscallFrame frame).esp + 4 * syscallParamCount)) with
  | (err, s) =>
      if err < 0 then (err, s)
      else
        let task := s.tasks.task child
        (err, { s with
          tasks := s.tasks.setTask child
            { task with
              tss := forkRegisters task.tss (s.kernel.syscallFrame frame)
              parent := some parent } })

/-- The value returned with the state, or the state of a page fault. -/
def sysFork (s : Os) : Except Os (Int × Os) :=
  let parent := s.tasks.currTask
  match s.tasks.allocTask with
  | none => .ok (-1, s)
  | some child =>
      match sysFork.init s parent child with
      | (err, s) =>
          if err < 0 then .ok (s.forkFailed child)
          else
            match s.kernel.memoryCopyUvm (s.tasks.task parent).tss.cr3 with
            | .error kernel => .error { s with kernel := kernel }
            | .ok (cr3, kernel) =>
                let s := { s with kernel := kernel }
                let s := s.setTss child { (s.tasks.task child).tss with cr3 := cr3 }
                -- a number without a sign is never below zero
                if cr3 < 0 then .ok (s.forkFailed child)
                else
                  let s := { s with tasks := s.tasks.taskStart child }
                  .ok ((s.tasks.task child).pid, s)

end Os

end Dmos
