import Dmos.Kernel.Frames
import Dmos.Library.Transition
import Dmos.Task.Machine
import Dmos.Task.Renaming

/-!
# Occupied entries

An entry of `g_task_table` is occupied as long as its task has a name.  `sys_fork` names the
child after its parent and `sys_execve` names the task after the program, for as long as the
path does not end in a separator: then the name is empty, and the entry of the task looks
free.  In runs without such paths `alloc_task` never returns the entry of a task that has
been started (`notStarted_of_reachable`).
-/

open FirstFree TransitionSystem

namespace Dmos

/-- The machine, and the tasks that have been started. -/
structure Occupied where
  os : Os
  started : TaskRef → Prop

inductive OccupiedEvent where
  /-- `sys_fork`, and what it returns. -/
  | fork (r : Int)
  /-- `sys_execve` for the path at an address, and what it returns. -/
  | execve (l : Locals) (tty : Tty) (name argv : Nat) (path : List UInt8) (r : Int)
  /-- Anything else: programs run, and the scheduler chooses among the tasks. -/
  | other

namespace Occupied

/-- The tasks that make calls. -/
def Live (s : Occupied) (t : TaskRef) : Prop :=
  t = .firstTask ∨ s.started t

/-- The path of an `execve` does not end in a separator. -/
def Named : OccupiedEvent → Prop
  | .execve _ _ _ _ path _ => ¬ Kernel.EndsInSeparator path
  | _ => True

/-- The calls that return, one at a time. -/
inductive Step (s : Occupied) : OccupiedEvent → Occupied → Prop
  | fork {r : Int} {os : Os} : s.Live s.os.tasks.currTask → s.os.sysFork = .ok (r, os) →
      s.Step (.fork r) ⟨os, fun t => s.started t ∨ r ≠ -1 ∧ s.os.tasks.allocTask = some t⟩
  | execve {l : Locals} {tty : Tty} {name argv : Nat} {path : List UInt8} {r : Int} {os : Os} :
      s.Live s.os.tasks.currTask → Kernel.IsString s.os.kernel name path →
      path.head? = some 47 → name + path.length < 2 ^ 32 →
      s.os.sysExecve l tty name argv = .ok (r, os) →
      s.Step (.execve l tty name argv path r) { s with os := os }
  | other {os : Os} : (∀ t, (os.tasks.task t).name = (s.os.tasks.task t).name) →
      s.Step .other { s with os := os }

end Occupied

/-- The runs, from any table on; the first task has a name. -/
def occupied : TransitionSystem Occupied OccupiedEvent where
  init s := (∀ t, ¬ s.started t) ∧ (s.os.tasks.task .firstTask).name ≠ []
  step s e s' := s.Step e s'

namespace Occupied

open TaskManager

variable {s s' : Occupied} {e : OccupiedEvent} {t : TaskRef}

/-- The tasks that make calls have names. -/
theorem live_name_of_reachable (hs : occupied.Reachable Named s) (ht : s.Live t) :
  (s.os.tasks.task t).name ≠ []
  := by
  revert t
  apply hs.invariant (I := fun s => ∀ t, s.Live t → (s.os.tasks.task t).name ≠ [])
  · rintro s ⟨hnone, hfirst⟩ t (rfl | ht)
    · apply hfirst
    · cases hnone t ht
  · rintro s e s' hs hnamed hstep t ht
    cases hstep with
    | @fork r os hcurr hfork =>
        cases hchild : s.os.tasks.allocTask with
        | none =>
            rw [Os.sysFork, hchild] at hfork
            obtain rfl : s.os = os := congrArg Prod.snd (Except.ok.inj hfork)
            apply hs
            simpa [Live, hchild] using ht
        | some child =>
            obtain ⟨hother, hname⟩ := Os.otherNames_sysFork hfork hchild
            by_cases heq : t = child
            · subst heq
              -- a free entry belongs to no task
              have hfree : ¬ s.Live t := fun hlive => hs t hlive (name_of_allocTask hchild)
              have hr : r ≠ -1 := by
                rcases ht with rfl | ht | ⟨hr, -⟩
                · cases hfree (.inl rfl)
                · cases hfree (.inr ht)
                · apply hr
              rw [hname.resolve_left hr, ne_eq, kStrncpy_taskName_eq_nil_iff]
              apply hs _ hcurr
            · rw [hother.name t heq]
              apply hs
              simpa [Live, hchild, Ne.symm heq] using ht
    | @execve l tty name argv path r os hcurr hpath hhead hend hexec =>
        obtain ⟨s₁, hname, hsame⟩ := Os.sameNames_sysExecve hexec
        rw [hsame.name]
        by_cases heq : t = s.os.tasks.currTask
        · rw [heq]
          apply Os.setFileName_name hpath hhead hend hnamed hname
        · rw [Os.setFileName_of_ne hname heq]
          apply hs t ht
    | other hnames =>
        rw [hnames]
        apply hs t ht

/-- In runs whose paths do not end in a separator, the entry that `alloc_task` returns does
not belong to a task that has been started. -/
theorem notStarted_of_reachable (hs : occupied.Reachable Named s) :
  ∀ t, s.os.tasks.allocTask = some t → ¬ s.started t
  := by
  intro t hfree ht
  apply live_name_of_reachable hs (.inr ht) (name_of_allocTask hfree)

/-- Two free frames, and no task but the first. -/
def booted : Occupied where
  os :=
    { kernel := Kernel.boot 2
      fs := .low fun _ => 0
      gdt := fun _ => {}
      tasks := Machine.started.tasks }
  started _ := False

theorem init_booted :
  occupied.init booted
  := by
  constructor
  · intro t
    apply not_false
  · decide

/-- The state in which a call returned. -/
def returned : Except Os (Int × Os) → Os
  | .ok (_, os) => os
  | .error os => os

theorem eq_returned {x : Except Os (Int × Os)} {r : Int}
    (h : (x.map Prod.fst).toOption = some r) :
  x = .ok (r, returned x)
  := by
  cases x with
  | error os => cases h
  | ok p =>
      obtain ⟨r', os⟩ := p
      cases h
      rfl

/-- The first task has a child. -/
def child : Occupied where
  os := returned booted.os.sysFork
  started t := booted.started t ∨ (131072 : Int) ≠ -1 ∧ booted.os.tasks.allocTask = some t

theorem step_fork_booted :
  occupied.step booted (.fork 131072) child
  := by
  apply Step.fork (.inl rfl) (eq_returned _)
  decide +kernel

theorem notStarted_child :
  child.os.tasks.allocTask = some (.slot 1) ∧ ¬ child.started (.slot 1)
  := by
  have hfree : child.os.tasks.allocTask = some (.slot 1) := by decide +kernel
  use hfree
  apply notStarted_of_reachable _ _ hfree
  apply Reachable.step (a := .fork 131072) (Reachable.init init_booted) trivial step_fork_booted

/-- The child runs, with the path "/" at an address and no free frames. -/
def pathGiven : Occupied where
  os :=
    { child.os with
      kernel := { Kernel.boot 0 with mem := fun a => if a = 4096 then 47 else 0 }
      tasks := { child.os.tasks with currTask := .slot 0 } }
  started := child.started

/-- The locals of the call. -/
def locals : Locals :=
  ⟨0x90000, 0x90100, 0x90200⟩

/-- The child has executed "/". -/
def executed : Occupied where
  os := returned (pathGiven.os.sysExecve locals ⟨0, 0, []⟩ 4096 0)
  started := pathGiven.started

theorem started_pathGiven :
  pathGiven.started (.slot 0)
  := .inr ⟨by decide, by decide⟩

theorem step_execve_pathGiven :
  occupied.step pathGiven (.execve locals ⟨0, 0, []⟩ 4096 0 [47] (-1)) executed
  := by
  refine Step.execve (.inr started_pathGiven) ?_ rfl (by decide) (eq_returned ?_)
  · rw [Kernel.isString_cons_iff, Kernel.isString_nil_iff]
    decide
  · decide +kernel

/-- A child that executes "/" loses its name, and the next fork gets its entry. -/
theorem not_notStarted_of_reachable :
  ¬ ∀ s, occupied.Reachable (fun _ => True) s →
    ∀ t, s.os.tasks.allocTask = some t → ¬ s.started t
  := by
  intro h
  have hchild : occupied.Reachable (fun _ => True) child :=
    Reachable.step (Reachable.init init_booted) trivial step_fork_booted
  have hgiven : occupied.Reachable (fun _ => True) pathGiven :=
    Reachable.step (a := .other) hchild trivial (Step.other fun _ => rfl)
  have hexecuted : occupied.Reachable (fun _ => True) executed :=
    Reachable.step hgiven trivial step_execve_pathGiven
  apply h _ hexecuted (.slot 0) _ started_pathGiven
  decide +kernel

end Occupied

end Dmos
