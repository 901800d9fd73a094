import Dmos.Task.Fields
import Dmos.Task.Fork
import Mathlib.Tactic.SplitIfs

/-!
# Creating tasks

The outcomes of `tss_init` and `task_init`: without a frame for the kernel stack, without one
for the page directory, and with both.
-/

namespace Dmos

namespace Os

open TaskManager

variable {s : Os} {t : TaskRef} {flag entry esp : Nat}

/-- The descriptors with that of the task's segment. -/
def tssDesc (s : Os) (t : TaskRef) : Gdt :=
  segmentDescSet s.gdt (gdtAllocDesc s.gdt) (s.tasks.layout.address t + 608) 104
    (segPPresent ||| segDpl0 ||| segTypeTss)

/-- The segment with which a task starts, without its page directory. -/
def startTss (s : Os) (flag entry esp kernelStack : Nat) : Tss :=
  let system := flag &&& taskFlagsSystem ≠ 0
  let codeSel := if system then kernelSelectorCs else s.tasks.appCodeSel ||| segRpl3
  let dataSel := if system then kernelSelectorDs else s.tasks.appDataSel ||| segRpl3
  { eip := entry
    esp := esp
    esp0 := u32 (kernelStack + memPageSize)
    ss := dataSel
    ss0 := kernelSelectorDs
    es := dataSel
    ds := dataSel
    fs := dataSel
    gs := dataSel
    cs := codeSel
    eflags := eflagsDefault ||| eflagsIf }

theorem tssInit_eq (s : Os) (t : TaskRef) (flag entry esp : Nat) :
  s.tssInit t flag entry esp =
    match s.kernel.memoryAllocPage with
    | (kernelStack, kernel) =>
        if kernelStack = 0 then
          (-1, { s with
            kernel := kernel
            gdt := gdtFreeSel (s.tssDesc t) (gdtAllocDesc s.gdt)
            tasks := s.tasks.setTss t {} })
        else
          let tss := s.startTss flag entry esp kernelStack
          match kernel.memoryCreateUvm with
          | (pageDir, kernel) =>
              if pageDir = 0 then
                (-1, { s with
                  kernel := kernel.memoryFreePage (s.setTss t tss).currPageDir kernelStack
                  gdt := gdtFreeSel (s.tssDesc t) (gdtAllocDesc s.gdt)
                  tasks := s.tasks.setTss t tss })
              else
                (0, { s with
                  kernel := kernel
                  gdt := s.tssDesc t
                  tasks := s.tasks.setTask t { s.tasks.task t with
                    tss := { tss with cr3 := pageDir }, tssSel := gdtAllocDesc s.gdt } })
  := by
  rw [tssInit]
  dsimp only [setTss, TaskManager.setTss]
  by_cases hstack : s.kernel.memoryAllocPage.1 = 0
  · rw [if_pos hstack, if_pos hstack, tssInitFailed, if_neg (not_not.mpr hstack)]
    rfl
  · rw [if_neg hstack, if_neg hstack]
    by_cases hdir : s.kernel.memoryAllocPage.2.memoryCreateUvm.1 = 0
    · rw [if_pos hdir, if_pos hdir, tssInitFailed, if_pos hstack]
      simp only [setTask_task_self, setTask_setTask, currPageDir]
      rfl
    · rw [if_neg hdir, if_neg hdir]
      simp only [setTask_task_self, setTask_setTask]
      rfl

/-- The kernel with the address space `cr3` for the child, and the child started. -/
def forked (s : Os) (child : TaskRef) (cr3 : Nat) (kernel : Kernel) : Os :=
  { s with
    kernel := kernel
    tasks := (s.tasks.setTss child { (s.tasks.task child).tss with cr3 := cr3 }).taskStart child }

theorem pid_forked (child : TaskRef) (cr3 : Nat) (kernel : Kernel) :
  ((s.forked child cr3 kernel).tasks.task child).pid = (s.tasks.task child).pid
  := by
  rw [forked, taskStart, field_taskSetReady (f := Task.pid) (fun _ _ => rfl), TaskManager.setTss,
    setTask_task_self]

/-- Whatever value the copy of the address space returns, the child is started. -/
theorem sysFork_of_copied {child : TaskRef} {err : Int} {s₁ : Os} {cr3 : Nat} {kernel : Kernel}
    (hchild : s.tasks.allocTask = some child)
    (hinit : sysFork.init s s.tasks.currTask child = (err, s₁)) (herr : 0 ≤ err)
    (hcopy : s₁.kernel.memoryCopyUvm (s₁.tasks.task s.tasks.currTask).tss.cr3 = .ok (cr3, kernel)) :
  s.sysFork = .ok ((s₁.tasks.task child).pid, s₁.forked child cr3 kernel)
  := by
  rw [sysFork, hchild]
  dsimp only
  rw [hinit]
  dsimp only
  rw [if_neg (by omega), hcopy]
  dsimp only
  rw [if_neg (Nat.not_lt_zero cr3), ← pid_forked child cr3 kernel]
  rfl

theorem sysFork_of_failed {child : TaskRef} {err : Int} {s₁ : Os}
    (hchild : s.tasks.allocTask = some child)
    (hinit : sysFork.init s s.tasks.currTask child = (err, s₁)) (herr : err < 0) :
  s.sysFork = .ok (s₁.forkFailed child)
  := by
  rw [sysFork, hchild]
  dsimp only
  rw [hinit]
  dsimp only
  rw [if_pos herr]

/-- How `sys_fork` can return, once it has an entry for the child: the child is not made, or it
is started. -/
theorem sysFork_cases {s' : Os} {r : Int} {child : TaskRef} (h : s.sysFork = .ok (r, s'))
    (hchild : s.tasks.allocTask = some child) :
  ∃ err s₁, sysFork.init s s.tasks.currTask child = (err, s₁)
    ∧ (err < 0 ∧ s₁.forkFailed child = (r, s')
      ∨ 0 ≤ err ∧ ∃ cr3 kernel,
        s₁.kernel.memoryCopyUvm (s₁.tasks.task s.tasks.currTask).tss.cr3 = .ok (cr3, kernel)
          ∧ r = (s₁.tasks.task child).pid ∧ s' = s₁.forked child cr3 kernel)
  := by
  generalize hinit : sysFork.init s s.tasks.currTask child = p
  obtain ⟨err, s₁⟩ := p
  refine ⟨err, s₁, rfl, ?_⟩
  by_cases hneg : err < 0
  · rw [sysFork_of_failed hchild hinit hneg] at h
    exact .inl ⟨hneg, Except.ok.inj h⟩
  · right
    refine ⟨by omega, ?_⟩
    cases hcopy : s₁.kernel.memoryCopyUvm (s₁.tasks.task s.tasks.currTask).tss.cr3 with
    | error kernel =>
        rw [sysFork, hchild] at h
        dsimp only at h
        rw [hinit] at h
        dsimp only at h
        rw [if_neg hneg, hcopy] at h
        cases h
    | ok p =>
        obtain ⟨cr3, kernel⟩ := p
        rw [sysFork_of_copied hchild hinit (by omega) hcopy] at h
        obtain ⟨rfl, rfl⟩ := Prod.mk.injEq _ _ _ _ ▸ Except.ok.inj h
        exact ⟨cr3, kernel, rfl, rfl, rfl⟩

end Os

end Dmos
