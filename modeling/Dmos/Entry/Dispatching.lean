import Dmos.Entry.Forking
import Dmos.Entry.Interrupt

/-!
# Dispatching

Functions of the scheduler may switch to another task (`Os.taskSwitchFromTo`); what is left of them
runs when one of the other tasks switches back (`Os.Dispatches`).  In a tick this may happen twice:
where the time slice has run out, and at the end (`Os.HandleTime`).

The other tasks leave the kernel stack of the one that waits alone, and its address space
(`Os.Executes.dispatches`); so the program of the task finds its memory as it was
(`Cpu.back_user`).
-/

open ByteMemory

namespace Dmos

namespace Os

open Kernel TaskManager

variable {s t : Os} {live : Set Nat} {users : Set TaskRef} {x : TaskRef} {bound : Nat}
  {m : TaskManager} {p q : Os × Set TaskRef}

/-! ### Functions that switch -/

/-- `task_switch_from_to` when the dispatcher has made `m` of the tasks.  If the current task is
another one than before, the processor saves the registers `r` of the kernel's code in the old one's
segment, and loads the page directory of the new one. -/
def taskSwitchFromTo (s : Os) (r : Registers) (m : TaskManager) : Os :=
  if m.currTask = s.tasks.currTask then { s with tasks := m }
  else
    { s with
      kernel := s.kernel.mmuSetPageDir (m.task m.currTask).tss.cr3
      tasks := m.setTss s.tasks.currTask ((m.task s.tasks.currTask).tss.save r) }

/-- This is the switch of the processor. -/
theorem os_switchTask {c : Cpu} (hne : c.os.tasks.currTask ≠ x) :
  (c.switchTask x).os = c.os.taskSwitchFromTo c.regs { c.os.tasks with currTask := x }
  := by
  rw [taskSwitchFromTo, if_neg (fun h => hne h.symm), Cpu.switchTask]
  dsimp only
  rw [TaskManager.setTss, setTask_task, if_neg hne.symm]
  rfl

/-- The kernel's functions have their frames on the kernel stack of the task `x`, below `bound`. -/
def OnStack (s : Os) (x : TaskRef) (bound : Nat) (t : Os) : Prop :=
  ∃ mem, (∀ a, a + memPageSize < (s.tasks.task x).tss.esp0 ∨ bound ≤ a → mem a = s.kernel.mem a)
    ∧ t = { s with kernel := s.kernel.setMem mem }

/-- A dispatch in the task `x` has left the system and its tasks in `p`.  It returns in `q`: at once
when no other task was found, and else when another task, after the others have run, dispatches
`x`. -/
inductive Resumed (x : TaskRef) : Os × Set TaskRef → Os × Set TaskRef → Prop where
  | same {p : Os × Set TaskRef} : p.1.tasks.currTask = x → Resumed x p p
  | dispatched {p q : Os × Set TaskRef} {r : Registers} : p.1.tasks.currTask ≠ x →
      ((userTasks p.1 p.2).restrict (Others x)).Reachable (fun _ => True) q →
      q.1.tasks.currTask ≠ x → q.1.tasks.taskDispatch.currTask = x →
      Resumed x p (q.1.taskSwitchFromTo r q.1.tasks.taskDispatch, q.2)

/-- The task `x` calls a function of the scheduler that makes `m` of the tasks, and it returns. -/
def Dispatches (x : TaskRef) (bound : Nat) (m : TaskManager) (p q : Os × Set TaskRef) : Prop :=
  ∃ s r t, p.1.OnStack x bound s ∧ Resumed x (s.taskSwitchFromTo r m, p.2) (t, q.2)
    ∧ t.OnStack x bound q.1

/-- `handle_time` in the task `x`; the counter of ticks is not read, and the end of the interrupt
goes to a port. -/
def HandleTime (x : TaskRef) (bound : Nat) (p q : Os × Set TaskRef) : Prop :=
  ∃ p', Dispatches x bound (taskTimeTick.slice p.1.tasks) p p'
    ∧ Dispatches x bound (taskTimeTick.rest p'.1.tasks) p' q

/-! ### What the task that waits finds -/

/-- The task `x` is the current one among tasks that are kept apart, in its own directory. -/
structure Executes (s : Os) (live : Set Nat) (users : Set TaskRef) (x : TaskRef) : Prop extends
    Apart s live users where
  user : x ∈ users
  currTask : s.tasks.currTask = x
  cr3 : s.kernel.cr3 = s.cr3 x

/-- The address space stays as it is, and so do the bytes of the kernel stack from `bound` on. -/
structure Resumes (s : Os) (x : TaskRef) (bound : Nat) (t : Os) : Prop extends
    SpaceKept s t x where
  esp0 : (t.tasks.task x).tss.esp0 = (s.tasks.task x).tss.esp0
  stack : ∀ a, bound ≤ a → a < (s.tasks.task x).tss.esp0 → t.kernel.mem a = s.kernel.mem a

theorem Resumes.trans {u : Os} (h : Resumes s x bound t) (h' : Resumes t x bound u) :
  Resumes s x bound u
  := ⟨h.toSpaceKept.trans h'.toSpaceKept, h'.esp0.trans h.esp0, fun a ha ha' =>
    (h'.stack a ha (h.esp0 ▸ ha')).trans (h.stack a ha ha')⟩

/-- The tasks stay apart, and `x` keeps its address space and its stack. -/
structure Waited (s : Os) (live : Set Nat) (x : TaskRef) (bound : Nat) (t : Os) (live' : Set Nat)
    (users' : Set TaskRef) : Prop extends Resumes s x bound t where
  spares : Spares s.kernel live t.kernel live'
  apart : Apart t live' users'
  user : x ∈ users'

theorem Waited.refl (h : Apart s live users) (hx : x ∈ users) (bound : Nat) :
  Waited s live x bound s live users
  := ⟨⟨⟨rfl, fun _ _ _ _ _ _ => rfl⟩, rfl, fun _ _ _ => rfl⟩, .refl _ _, h, hx⟩

theorem Waited.trans {u : Os} {live' live'' : Set Nat} {users' users'' : Set TaskRef}
    (h : Waited s live x bound t live' users') (h' : Waited t live' x bound u live'' users'') :
  Waited s live x bound u live'' users''
  := ⟨h.toResumes.trans h'.toResumes, h.spares.trans h'.spares, h'.apart, h'.user⟩

theorem Waited.mono {b : Nat} {live' : Set Nat} {users' : Set TaskRef}
    (h : Waited s live x bound t live' users') (hle : bound ≤ b) :
  Waited s live x b t live' users'
  := ⟨⟨h.toSpaceKept, h.esp0, fun a ha => h.stack a (hle.trans ha)⟩, h.spares, h.apart, h.user⟩

section Switch

variable (r : Registers) (htss : ∀ y, (m.task y).tss = (s.tasks.task y).tss)

theorem mem_taskSwitchFromTo : (s.taskSwitchFromTo r m).kernel.mem = s.kernel.mem
  := by
  rw [taskSwitchFromTo]
  split_ifs <;> rfl

include htss

theorem tss_taskSwitchFromTo (y : TaskRef) :
  (s.taskSwitchFromTo r m).cr3 y = s.cr3 y
    ∧ ((s.taskSwitchFromTo r m).tasks.task y).tss.esp0 = (s.tasks.task y).tss.esp0
  := by
  rw [cr3, cr3, taskSwitchFromTo, ← htss]
  split_ifs
  · exact ⟨rfl, rfl⟩
  · rw [TaskManager.setTss, setTask_task]
    split_ifs with hy
    · rw [hy]
      exact ⟨rfl, rfl⟩
    · exact ⟨rfl, rfl⟩

/-- A switch writes no memory. -/
theorem Apart.taskSwitchFromTo (h : Apart s live users) (hx : x ∈ users) (bound : Nat) :
  Waited s live x bound (s.taskSwitchFromTo r m) live users
  := by
  have hkernel : ∃ d, (s.taskSwitchFromTo r m).kernel = s.kernel.mmuSetPageDir d := by
    rw [Os.taskSwitchFromTo]
    split_ifs
    · exact ⟨s.kernel.cr3, rfl⟩
    · exact ⟨_, rfl⟩
  have hfs : (s.taskSwitchFromTo r m).fs = s.fs := by
    rw [Os.taskSwitchFromTo]
    split_ifs <;> rfl
  have hmem := s.mem_taskSwitchFromTo (m := m) r
  obtain ⟨d, hkernel⟩ := hkernel
  have hspares : Spares s.kernel live (s.taskSwitchFromTo r m).kernel live := by
    rw [hkernel]
    exact (Spares.refl s.kernel live).mmuSetPageDir d
  have hguarded : Guarded (s.taskSwitchFromTo r m).kernel live := by
    rw [hkernel]
    exact h.toGuarded.mmuSetPageDir d
  have hcr3 (y : TaskRef) : ((s.taskSwitchFromTo r m).tasks.task y).tss.cr3
      = (s.tasks.task y).tss.cr3 := (tss_taskSwitchFromTo r htss y).1
  have hesp0 (y : TaskRef) := (tss_taskSwitchFromTo r htss y).2
  refine ⟨⟨⟨hcr3 x, fun _ _ _ _ _ _ => congrFun hmem _⟩, hesp0 x, fun _ _ _ => congrFun hmem _⟩,
    hspares, ⟨h.toUsers.replace hspares hguarded (congrArg _ hfs) (fun y _ => hesp0 y) ?_ ?_, ?_⟩,
    hx⟩
  · intro y hy
    rw [hcr3]
    exact h.dir y hy
  · intro y hy z hz
    rw [hcr3, hcr3]
    exact h.own y hy z hz
  · intro y hy z hz
    rw [hesp0, hesp0]
    exact h.ownStack y hy z hz

end Switch

theorem currTask_taskSwitchFromTo (r : Registers) :
  (s.taskSwitchFromTo r m).tasks.currTask = m.currTask
  := by
  rw [taskSwitchFromTo]
  split_ifs <;> rfl

/-- The directory of the task that is switched to is loaded. -/
theorem loaded_taskSwitchFromTo (r : Registers) (htss : ∀ y, (m.task y).tss = (s.tasks.task y).tss)
    (hcr3 : m.currTask = s.tasks.currTask → s.kernel.cr3 = s.cr3 m.currTask) :
  (s.taskSwitchFromTo r m).kernel.cr3 = (s.taskSwitchFromTo r m).cr3 m.currTask
  := by
  rw [(tss_taskSwitchFromTo r htss _).1, taskSwitchFromTo]
  split_ifs with h
  · exact hcr3 h
  · exact congrArg Tss.cr3 (htss _)

/-- The task goes on. -/
theorem Executes.runs (h : Executes s live users x) (hruns : Runs s x t) :
  Spares s.kernel live t.kernel live ∧ Executes t live users x
  := by
  obtain ⟨hspares, husers⟩ := h.toUsers.runs h.user hruns
  refine ⟨hspares, ⟨husers, ?_⟩, h.user, hruns.currTask, ?_⟩
  · intro y hy z hz
    rw [hruns.esp0, hruns.esp0]
    exact h.ownStack y hy z hz
  · rw [hruns.kernel]
    exact (hruns.cr3 x).symm

theorem Executes.runs_onStack (h : Executes s live users x) (ht : s.OnStack x bound t)
    (hbound : bound ≤ (s.tasks.task x).tss.esp0) :
  Runs s x t
  := by
  obtain ⟨mem, hmem, rfl⟩ := ht
  refine ⟨h.currTask, ?_, ?_, rfl, fun _ => rfl, fun _ => rfl, fun _ => rfl, fun _ => rfl,
    fun _ => rfl⟩
  · change s.kernel.setMem mem = { s.kernel.setMem mem with cr3 := s.cr3 x }
    rw [← h.cr3]
    rfl
  · intro a ha
    apply hmem
    by_contra hin
    apply ha
    refine .inr (.inl ?_)
    unfold memPageSize at *
    omega

/-- Frames on the kernel stack are in no page of the task. -/
theorem Executes.onStack (h : Executes s live users x) (ht : s.OnStack x bound t)
    (hbound : bound ≤ (s.tasks.task x).tss.esp0) :
  Waited s live x bound t live users ∧ Executes t live users x
  := by
  obtain ⟨hspares, hexecutes⟩ := h.runs (h.runs_onStack ht hbound)
  obtain ⟨mem, hmem, rfl⟩ := ht
  obtain ⟨stack, hstack, hreserved, -⟩ := h.stack x h.user
  have hstack_bounds := hreserved.bounds h.toFrames
  refine ⟨⟨⟨⟨rfl, ?_⟩, rfl, fun a ha _ => hmem a (.inr ha)⟩, hspares, hexecutes.toApart, h.user⟩,
    hexecutes⟩
  intro place g hown a ha ha'
  obtain ⟨-, hown⟩ := owns_of_singleton (h.dir x h.user) hown
  have hframe := h.range.marked_bounds (h.exclusive.used_of_owns hown)
  have hne : g ≠ stack := fun heq => hreserved.unowned place (heq ▸ hown)
  apply hmem
  unfold memPageSize at *
  omega

section Waits

variable (hbound : (p.1.tasks.task x).tss.esp0 ≤ bound + memPageSize)

include hbound

/-- The other tasks leave the task that waits alone. -/
theorem Apart.resumed (h : Apart p.1 live p.2) (hx : x ∈ p.2)
    (hcr3 : p.1.tasks.currTask = x → p.1.kernel.cr3 = p.1.cr3 x) (hresumed : Resumed x p q) :
  ∃ live', Waited p.1 live x bound q.1 live' q.2 ∧ Executes q.1 live' q.2 x
  := by
  cases hresumed with
  | same hcurr =>
      exact ⟨live, .refl h hx bound, h, hx, hcurr, hcr3 hcurr⟩
  | @dispatched q r _ hreachable hne hcurr =>
      obtain ⟨live', hspares, hapart, hx', hkept⟩ := h.kept_of_reachable hx hreachable
      have htss (y : TaskRef) : (q.1.tasks.taskDispatch.task y).tss = (q.1.tasks.task y).tss :=
        field_taskDispatch (fun _ _ => rfl)
      have hwaited : Waited p.1 live x bound q.1 live' q.2 := by
        obtain ⟨stack, hstack, -⟩ := h.stack x hx
        refine ⟨⟨hkept.toSpaceKept, hkept.esp0, fun a ha ha' => ?_⟩, hspares, hapart, hx'⟩
        exact hkept.stack stack hstack a (by omega) (by unfold memPageSize at *; omega)
      have hall := hwaited.trans (hapart.taskSwitchFromTo r htss hx' bound)
      have hloaded := loaded_taskSwitchFromTo (s := q.1) r htss fun heq =>
        absurd (heq.symm.trans hcurr) hne
      rw [hcurr] at hloaded
      exact ⟨live', hall, hall.apart, hx', (currTask_taskSwitchFromTo r).trans hcurr, hloaded⟩

/-- The task that has called the dispatcher finds its address space and its kernel stack as they
were. -/
theorem Executes.dispatches (h : Executes p.1 live p.2 x)
    (hle : bound ≤ (p.1.tasks.task x).tss.esp0)
    (htss : ∀ y, (m.task y).tss = (p.1.tasks.task y).tss) (hdispatches : Dispatches x bound m p q) :
  ∃ live', Waited p.1 live x bound q.1 live' q.2 ∧ Executes q.1 live' q.2 x
  := by
  obtain ⟨s, r, t, hstart, hresumed, hend⟩ := hdispatches
  obtain ⟨hcall, hexecutes⟩ := h.onStack hstart hle
  have htasks : s.tasks = p.1.tasks := by
    obtain ⟨mem, -, rfl⟩ := hstart
    rfl
  rw [← htasks] at htss
  have hswitch := hexecutes.toApart.taskSwitchFromTo r htss h.user bound
  have hbound' : ((s.taskSwitchFromTo r m).tasks.task x).tss.esp0 ≤ bound + memPageSize := by
    rw [(hcall.trans hswitch).esp0]
    exact hbound
  have hloaded (hcurr : (s.taskSwitchFromTo r m).tasks.currTask = x) :
      (s.taskSwitchFromTo r m).kernel.cr3 = (s.taskSwitchFromTo r m).cr3 x := by
    rw [currTask_taskSwitchFromTo] at hcurr
    rw [← hcurr]
    apply loaded_taskSwitchFromTo r htss
    intro _
    rw [hcurr]
    exact hexecutes.cr3
  obtain ⟨live', hwaits, hback⟩ :=
    Apart.resumed (p := (s.taskSwitchFromTo r m, p.2)) hbound' hswitch.apart h.user hloaded hresumed
  have hall := (hcall.trans hswitch).trans hwaits
  obtain ⟨hreturn, hexecutes'⟩ := hback.onStack hend (hall.esp0.symm ▸ hle)
  exact ⟨live', hall.trans hreturn, hexecutes'⟩

theorem Executes.handleTime (h : Executes p.1 live p.2 x)
    (hle : bound ≤ (p.1.tasks.task x).tss.esp0) (htime : HandleTime x bound p q) :
  ∃ live', Waited p.1 live x bound q.1 live' q.2 ∧ Executes q.1 live' q.2 x
  := by
  obtain ⟨p', hslice, hrest⟩ := htime
  obtain ⟨live₁, hwaited, hexecutes⟩ := h.dispatches hbound hle
    (fun _ => field_slice (fun _ _ => rfl) (.inr fun _ _ => rfl)) hslice
  obtain ⟨live', hwaited', hexecutes'⟩ := hexecutes.dispatches (hwaited.esp0.symm ▸ hbound)
    (hwaited.esp0.symm ▸ hle) (fun _ => field_rest (fun _ _ => rfl) fun _ _ => rfl) hrest
  exact ⟨live', hwaited.trans hwaited', hexecutes'⟩

end Waits

end Os

namespace Cpu

open Kernel Os

variable {c : Cpu} {live : Set Nat} {users users' : Set TaskRef} {kcode : KernelCode} {next : Nat}

/-- A program of one of the tasks `users`. -/
structure Running (c : Cpu) (live : Set Nat) (users : Set TaskRef) : Prop extends
    Executes c.os live users c.os.tasks.currTask where
  cpl : c.cpl = 3
  kernelOnly : c.os.kernel.KernelOnly

/-- A program that waits in the kernel is back: it reaches the same memory, with the same bytes. -/
theorem back_user {s t : Os} {x : TaskRef} {bound v : Nat} {live' : Set Nat}
    (h : Executes s live users x) (hkernel : s.kernel.KernelOnly)
    (hwaited : Waited s live x bound t live' users') (hback : Executes t live' users' x)
    (hv : v < 2 ^ 32) :
  t.kernel.userTranslate t.kernel.cr3 v = s.kernel.userTranslate s.kernel.cr3 v
    ∧ t.userByte x v = s.userByte x v
  := by
  have hdir : s.cr3 x ∈ live' := by
    rw [← hwaited.cr3]
    exact hback.dir _ hback.user
  rw [h.cr3, hback.cr3]
  exact hwaited.toSpaceKept.user h.toFrames hback.toFrames (h.dir _ h.user) hdir hkernel
    (KernelOnly.of_spares hkernel hwaited.spares) hv

theorem top_of_program (hcpl : c.cpl = 3) :
  c.top = c.esp0
  := by
  rw [top, if_neg]
  rw [hcpl]
  decide

/-- What is pushed when a program is interrupted is on the kernel stack of its task. -/
theorem InInterrupt.onStack {code : ExceptionCode} {vector errCode : Nat} {m : Memory}
    (hm : c.InInterrupt code vector errCode m) (hcpl : c.cpl = 3) :
  c.os.OnStack c.os.tasks.currTask c.esp0 (c.osWith m)
  := by
  have houter := length_outerWords_le c.regs
  refine ⟨m, fun a ha => ?_, rfl⟩
  apply hm.unchanged
  rw [frameAt, top_of_program hcpl]
  change a + memPageSize < c.esp0 ∨ c.esp0 ≤ a at ha
  unfold memPageSize at *
  omega

/-- The arguments of a call are written to the stacks of its task. -/
theorem Running.inSyscall {args : SyscallArg} {m : Memory} (h : c.Running live users)
    (hu : c.User kcode) (hm : c.InSyscall kcode args next m) :
  Runs c.os c.os.tasks.currTask (c.osWith m)
  := by
  obtain ⟨stack, hstack, -⟩ := h.stack _ h.user
  have hesp0 : c.esp0 = stack + memPageSize := hstack
  refine ⟨rfl, ?_, ?_, rfl, fun _ => rfl, fun _ => rfl, fun _ => rfl, fun _ => rfl, fun _ => rfl⟩
  · change c.os.kernel.setMem m
      = { c.os.kernel.setMem m with cr3 := c.os.cr3 c.os.tasks.currTask }
    rw [← h.cr3]
    rfl
  · intro a ha
    apply hm.unchanged
    · by_contra hin
      apply ha
      refine .inr (.inl ?_)
      rw [hstack]
      unfold memPageSize at *
      omega
    · rintro ⟨v, ⟨hv, hv'⟩, hle, hlt⟩
      have huser := hu.stack.user
      have hend := hu.stack.end_le
      have hpresent := hu.stack.present v ⟨hv, hv'⟩
      unfold memoryTaskBase at huser
      rw [h.cr3] at hpresent hle hlt
      exact ha (.inl ⟨v, by omega, by omega, hpresent, hle, hlt⟩)

end Cpu

/-! ### A program and its child -/

namespace TaskManager

/-- The first task runs for the last tick of its time slice, and `slot 0` is ready. -/
def pair (m : TaskManager) : TaskManager :=
  ({ m with
    currTask := .firstTask
    readyList := listInit
    sleepList := listInit
    node := fun _ _ => ⟨none, none⟩
    task := fun y =>
      { tss := (m.task y).tss
        sliceTicks := 1
        timeTicks := taskTimeSliceDefault } }.taskStart .firstTask).taskStart (.slot 0)

theorem tss_pair (m : TaskManager) (y : TaskRef) :
  (m.pair.task y).tss = (m.task y).tss
  := by
  rw [pair, taskStart, taskStart]
  exact (field_taskSetReady (f := Task.tss) fun _ _ => rfl).trans
    (field_taskSetReady (f := Task.tss) fun _ _ => rfl)

end TaskManager

namespace Os

open Kernel TaskManager

variable {s t : Os} {live : Set Nat} {users : Set TaskRef} {m : TaskManager} {r : Registers}

/-- The first task and a child of it, both with the first user page. -/
structure WithChild (s : Os) (live : Set Nat) (users : Set TaskRef) : Prop extends
    Executes s live users .firstTask where
  child : .slot 0 ∈ users
  page : Present (pteAt s.kernel.mem (s.cr3 .firstTask) 524288)
  childPage : Present (pteAt s.kernel.mem (s.cr3 (.slot 0)) 524288)

/-- The address of the child's page. -/
abbrev childFrame (s : Os) : Nat :=
  frameAt s.kernel.mem (s.cr3 (.slot 0)) 524288

theorem WithChild.runs (h : WithChild s live users) (hruns : Runs s .firstTask t) :
  WithChild t live users ∧ t.childFrame = s.childFrame
  := by
  obtain ⟨stack, hstack, hreserved, -⟩ := h.stack _ h.user
  have hmem := hruns.mem
  rw [hstack, Nat.add_sub_cancel] at hmem
  have hpte {y : TaskRef} (hy : y ∈ users) :
      pteAt t.kernel.mem (t.cr3 y) 524288 = pteAt s.kernel.mem (s.cr3 y) 524288 := by
    rw [cr3, hruns.cr3]
    exact pteAt_of_harmless h.toFrames (h.dir _ h.user) hreserved hmem (h.dir y hy) (by decide)
      (by decide)
  refine ⟨⟨(h.toExecutes.runs hruns).2, h.child, ?_, ?_⟩, congrArg ptePaddr (hpte h.child)⟩
  · rw [hpte h.user]
    exact h.page
  · rw [hpte h.child]
    exact h.childPage

/-- The kernel stack of the first task is not in the child's page. -/
theorem WithChild.childFrame_stack (h : WithChild s live users) :
  s.childFrame + memPageSize < (s.tasks.task .firstTask).tss.esp0
    ∨ (s.tasks.task .firstTask).tss.esp0 ≤ s.childFrame
  := by
  obtain ⟨stack, hstack, hreserved, -⟩ := h.stack _ h.user
  have hown : Owns 512 s.kernel.mem live (.page (s.cr3 (.slot 0)) 524288) s.childFrame :=
    ⟨h.dir _ h.child, by decide, by decide, h.childPage, rfl⟩
  have hpage := h.range.marked_bounds (h.exclusive.used_of_owns hown)
  have hbounds := hreserved.bounds h.toFrames
  have hne : s.childFrame ≠ stack := fun heq => hreserved.unowned _ (heq ▸ hown)
  unfold memPageSize at *
  omega

/-- The child runs, writes a byte to its page, and goes to the end of the ready list. -/
def childWrote (s : Os) (b : UInt8) : Os :=
  { s with
    kernel := (s.kernel.setMem (store8 s.kernel.mem s.childFrame b)).mmuSetPageDir
      (s.cr3 (.slot 0))
    tasks :=
      { (s.tasks.taskSetBlock (.slot 0)).taskSetReady (.slot 0) with currTask := .slot 0 } }

theorem runs_childWrote (s : Os) (b : UInt8)
    (hpage : Present (pteAt s.kernel.mem (s.cr3 (.slot 0)) 524288)) :
  Runs s (.slot 0) (s.childWrote b)
  := by
  have hkeeps {α : Type} {f : Task → α} (hf : ∀ task state, f { task with state := state } = f task)
      (y : TaskRef) : f ((s.childWrote b).tasks.task y) = f (s.tasks.task y) := by
    dsimp only [childWrote]
    rw [field_taskSetReady hf, taskSetBlock_task]
  refine ⟨rfl, rfl, ?_, rfl, hkeeps (fun _ _ => rfl), hkeeps (f := fun task => task.tss.cr3) ?_,
    hkeeps (f := fun task => task.tss.esp0) ?_, hkeeps (fun _ _ => rfl), hkeeps (fun _ _ => rfl)⟩
  · intro a ha
    apply store8_of_ne
    rintro rfl
    exact ha (.inl ⟨524288, by decide, by decide, hpage, le_rfl,
      Nat.lt_add_of_pos_right (by decide)⟩)
  · exact fun _ _ => rfl
  · exact fun _ _ => rfl

/-- The first task is switched out when `m` has been made of the tasks, the child runs, and the
first task is dispatched again. -/
def childRuns (s : Os) (r : Registers) (m : TaskManager) (b : UInt8) : Os :=
  let s := (s.taskSwitchFromTo r m).childWrote b
  s.taskSwitchFromTo r s.tasks.taskDispatch

theorem OnStack.refl (s : Os) (x : TaskRef) (bound : Nat) :
  s.OnStack x bound s
  := ⟨s.kernel.mem, fun _ _ => rfl, rfl⟩

theorem WithChild.dispatches (h : WithChild s live users) (b : UInt8) (bound : Nat)
    (htss : ∀ y, (m.task y).tss = (s.tasks.task y).tss) (hto : m.currTask = .slot 0)
    (hback : ((s.taskSwitchFromTo r m).childWrote b).tasks.taskDispatch.currTask = .firstTask) :
  Dispatches .firstTask bound m (s, users) (s.childRuns r m b, users)
    ∧ (s.childRuns r m b).kernel.mem s.childFrame = b
  := by
  have hcr3 := (tss_taskSwitchFromTo r htss (.slot 0)).1
  have hmem := s.mem_taskSwitchFromTo (m := m) r
  have hpage : Present (pteAt (s.taskSwitchFromTo r m).kernel.mem
      ((s.taskSwitchFromTo r m).cr3 (.slot 0)) 524288) := by
    rw [hmem, hcr3]
    exact h.childPage
  have hruns := runs_childWrote _ b hpage
  constructor
  · have hrun : ((userTasks (s.taskSwitchFromTo r m) users).restrict (Others .firstTask)).Reachable
        (fun _ => True) ((s.taskSwitchFromTo r m).childWrote b, users) :=
      .step (a := .run (.slot 0)) (.init rfl) trivial
        ⟨⟨trivial, show TaskRef.firstTask ≠ .slot 0 by decide⟩, .run h.child hruns⟩
    have hresumed :
        Resumed .firstTask (s.taskSwitchFromTo r m, users) (s.childRuns r m b, users) := by
      apply Resumed.dispatched (q := ((s.taskSwitchFromTo r m).childWrote b, users)) _ hrun _ hback
      · rw [currTask_taskSwitchFromTo, hto]
        decide
      · change TaskRef.slot 0 ≠ _
        decide
    exact ⟨s, r, _, .refl _ _ _, hresumed, .refl _ _ _⟩
  · rw [childRuns, mem_taskSwitchFromTo]
    change store8 _ (frameAt (s.taskSwitchFromTo r m).kernel.mem
      ((s.taskSwitchFromTo r m).cr3 (.slot 0)) 524288) b _ = b
    rw [hmem, hcr3]
    apply store8_same

/-- A tick in which the child runs when the time slice of the first task has run out. -/
def ticked (s : Os) (r : Registers) (b : UInt8) : Os :=
  let s := s.childRuns r (taskTimeTick.slice s.tasks) b
  s.taskSwitchFromTo r (taskTimeTick.rest s.tasks)

theorem WithChild.handleTime (h : WithChild s live users) (b : UInt8) (bound : Nat)
    (hto : (taskTimeTick.slice s.tasks).currTask = .slot 0)
    (hback : ((s.taskSwitchFromTo r (taskTimeTick.slice s.tasks)).childWrote
      b).tasks.taskDispatch.currTask = .firstTask)
    (hrest : (taskTimeTick.rest
      (s.childRuns r (taskTimeTick.slice s.tasks) b).tasks).currTask = .firstTask) :
  HandleTime .firstTask bound (s, users) (s.ticked r b, users)
    ∧ (s.ticked r b).kernel.mem s.childFrame = b
  := by
  obtain ⟨hslice, hbyte⟩ := h.dispatches b bound
    (fun _ => field_slice (fun _ _ => rfl) (.inr fun _ _ => rfl)) hto hback
  refine ⟨⟨_, hslice, _, r, _, .refl _ _ _, .same ?_, .refl _ _ _⟩, ?_⟩
  · exact (currTask_taskSwitchFromTo r).trans hrest
  · rw [ticked, mem_taskSwitchFromTo, hbyte]

end Os

namespace Cpu

open Kernel Os

-- the kernel of the program is not to be evaluated
attribute [local irreducible] stackKernel

theorem executes_caller :
  Executes caller.os {0x102000} {.firstTask} .firstTask
  where
  toUsers := users_caller
  ownStack := by
    rintro x rfl y rfl _
    rfl
  user := rfl
  currTask := rfl
  cr3 := cr3_caller

theorem running_caller :
  caller.Running {0x102000} {.firstTask}
  where
  toExecutes := executes_caller
  cpl := rfl
  kernelOnly := kernelOnly_withStack

/-- The program has forked. -/
theorem withChild_caller :
  ∃ t live users, WithChild t live users ∧ t.kernel.KernelOnly
    ∧ (t.tasks.task .firstTask).tss = (caller.os.tasks.task .firstTask).tss
  := by
  obtain ⟨m, hm, -⟩ := sysCall_reaches user_caller
    (show ∀ w ∈ (LibCall.fork.args ⟨0, 0, 0, 0, 0⟩).words, w < 2 ^ 32 by decide)
    (show 0x80000100 < 2 ^ 32 by decide) (fun _ => handleFork) caller.regs
  obtain ⟨hspares, hexecutes⟩ := executes_caller.runs (running_caller.inSyscall user_caller hm)
  have hchild : caller.os.tasks.allocTask = some (.slot 0) := allocTask_firstUser
  obtain ⟨hfork, t, hok, hforked⟩ := hm.sysFork user_caller users_caller rfl cr3_caller rfl
    hchild (by decide) enough_caller
  let users : Set TaskRef := {.firstTask} ∪ (caller.osWith m).children
    (asInt (caller.os.tasks.layout.address (.slot 0)))
  have hstep : TaskStep (caller.osWith m, {.firstTask}) .fork (t, users) :=
    .fork ⟨rfl, cr3_caller⟩ hok
  have hinside : CallInside (caller.osWith m, {TaskRef.firstTask}) .fork := hfork
  obtain ⟨live, hspares', hapart, hsub, -⟩ := hexecutes.toApart.step hinside hstep
  obtain ⟨-, hsame⟩ := hm.spaces user_caller cr3_caller users_caller rfl
  have hcr3 : t.cr3 .firstTask = caller.os.currPageDir := congrArg Tss.cr3 hforked.caller
  have hpage : Present (pteAt t.kernel.mem (t.cr3 .firstTask) 524288) := by
    have hparent : userPages t.kernel.mem caller.os.currPageDir
        = userPages m caller.os.currPageDir := hforked.parent
    have hmem : 524288 ∈ userPages t.kernel.mem caller.os.currPageDir := by
      rw [hparent]
      apply mem_presentPages.mpr
      refine ⟨by decide, ?_⟩
      rw [hsame _ currPageDir_caller _ (by decide) (by decide)]
      exact present_caller
    rw [hcr3]
    exact (mem_presentPages.mp hmem).2
  refine ⟨t, live, users, ⟨⟨hapart, hsub rfl, hforked.currTask, ?_⟩, .inr ⟨hchild,
    asInt_address_ne hchild⟩, hpage, ?_⟩, KernelOnly.of_spares kernelOnly_withStack
      (hspares.trans hspares'), hforked.caller⟩
  · rw [hcr3]
    exact hforked.cr3.trans cr3_caller
  · rw [hcr3] at hpage
    exact (hforked.pages _ (by decide) (by decide)).1.mpr hpage

/-- Both are ready, and the first task runs. -/
def pair (t : Os) : Cpu :=
  { caller with os := { t with gdt := caller.os.gdt, tasks := t.tasks.pair } }

theorem withChild_pair {t : Os} (h : WithChild t live users) :
  WithChild (pair t).os live users
  := by
  have hcr3 (y : TaskRef) : (pair t).os.cr3 y = t.cr3 y := congrArg Tss.cr3 (t.tasks.tss_pair y)
  have hesp0 (y : TaskRef) : ((pair t).os.tasks.task y).tss.esp0 = (t.tasks.task y).tss.esp0 :=
    congrArg Tss.esp0 (t.tasks.tss_pair y)
  refine ⟨⟨⟨h.toUsers.keep (.refl _ _) h.toGuarded rfl fun y _ => t.tasks.tss_pair y, ?_⟩, h.user,
    rfl, ?_⟩, h.child, ?_, ?_⟩
  · intro y hy z hz
    rw [hesp0, hesp0]
    exact h.ownStack y hy z hz
  · rw [hcr3]
    exact h.cr3
  · rw [hcr3]
    exact h.page
  · rw [hcr3]
    exact h.childPage

theorem esp0_pair {t : Os}
    (htss : (t.tasks.task .firstTask).tss = (caller.os.tasks.task .firstTask).tss) :
  (pair t).esp0 = 0x102000
  := by
  rw [← esp0_caller]
  exact (congrArg Tss.esp0 (t.tasks.tss_pair _)).trans (congrArg Tss.esp0 htss)

theorem user_pair {t : Os} (h : WithChild t live users)
    (htss : (t.tasks.task .firstTask).tss = (caller.os.tasks.task .firstTask).tss) :
  (pair t).User callerCode
  := by
  have hpair := withChild_pair h
  have hcaller := user_caller
  refine ⟨rfl, hcaller.words, hcaller.descs, ?_, ?_, ?_⟩
  · rw [hpair.cr3]
    apply hpair.toFrames.window (hpair.dir _ hpair.user)
    · exact show memoryTaskBase ≤ caller.regs.esp - 20 by decide
    · exact show caller.regs.esp - 20 + 20 ≤ 2 ^ 32 by decide
    · rintro v ⟨hle, hlt⟩
      have hlast : (pair t).regs.esp = 0x80001000 := rfl
      rw [hlast] at hle hlt
      rw [show v = 524288 by omega]
      exact hpair.page
  · rw [esp0_pair htss]
    decide
  · rw [esp0_pair htss]
    decide

theorem interruptible_pair {t : Os}
    (htss : (t.tasks.task .firstTask).tss = (caller.os.tasks.task .firstTask).tss) :
  (pair t).Interruptible
  := by
  have htop : (pair t).top = 0x102000 := by
    rw [top_of_program rfl, esp0_pair htss]
  refine ⟨interruptible_caller.words, interruptible_caller.dpl, ?_, ?_⟩
  · rw [htop]
    decide
  · rw [htop]
    decide

end Cpu

end Dmos
