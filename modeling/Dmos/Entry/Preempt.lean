import Dmos.Entry.Dispatching

/-!
# Preemption

A program goes on after a tick as if it had not been interrupted (`preempted_returns`), and behind a
call that gives the processor away as if the call had come back at once (`blocked_returns`).
-/

open ByteMemory

namespace Dmos

/-- What is made of the tasks by a call that only gives the processor away. -/
def LibCall.schedule (m : TaskManager) : LibCall → Option TaskManager
  | .yield => some m.sysYield
  | .msleep ms => some (m.sysSleep (.ofNat ms))
  | _ => none

/-- The calls leave the segments of the tasks alone. -/
theorem LibCall.tss_schedule {m m' : TaskManager} {call : LibCall} (h : call.schedule m = some m')
    (y : TaskRef) :
  (m'.task y).tss = (m.task y).tss
  := by
  cases call with
  | yield =>
      cases h
      exact TaskManager.field_sysYield (fun _ _ => rfl)
  | msleep ms =>
      cases h
      exact TaskManager.field_sysSleep (fun _ _ => rfl) _ (.inr fun _ _ => rfl)
  | _ => cases h

namespace Cpu

open Kernel Os

variable {c : Cpu} {live : Set Nat} {users : Set TaskRef} {kcode : KernelCode} {next : Nat}

-- the kernel of the program is not to be evaluated
attribute [local irreducible] stackKernel

/-- The timer takes the processor from a program.  It goes on with all registers and all of its
memory as they were, whatever other tasks have done in the meantime. -/
theorem preempted_returns (idt : Idt) (h : c.Running live users) (hc : c.Interruptible)
    (code : ExceptionCode) (handlers : ExceptionName → Os → Nat → Option Os)
    (scratch : Registers) :
  ∃ m, c.InInterrupt code 0x20 0 m ∧
    ∀ os users', handlers .time (c.osWith m) c.frameAt = some os →
    HandleTime c.os.tasks.currTask (c.frameAt - 8) (c.osWith m, users) (os, users') →
    c.takeInterrupt code (idtBooted idt code.entry) handlers 0x20 0 scratch
        = some { regs := c.regs, os := os }
      ∧ os.tasks.currTask = c.os.tasks.currTask ∧ os.kernel.cr3 = c.os.kernel.cr3
      ∧ ∀ v < 2 ^ 32, os.kernel.userTranslate os.kernel.cr3 v
          = c.os.kernel.userTranslate c.os.kernel.cr3 v
        ∧ os.userByte os.tasks.currTask v = c.os.userByte c.os.tasks.currTask v
  := by
  have hm := inInterrupt_pushWords code 0x20 hc (show 0 < 2 ^ 32 by decide)
  refine ⟨_, hm, ?_⟩
  intro os users' hhandler htime
  have hkept := takeInterrupt_kept idt hc (show 0x20 < idtTableNr by decide)
    (show 0 < 2 ^ 32 by decide) scratch hhandler
  generalize pushWords c.mem c.top (c.interruptWords code 0x20 0) = m at hm htime hkept
  have htop := top_of_program h.cpl
  have houter := length_outerWords_le c.regs
  have hlow : c.esp0 ≤ c.frameAt - 8 + memPageSize := by
    rw [frameAt, htop]
    unfold memPageSize
    omega
  have hhigh : c.frameAt - 8 ≤ c.esp0 := by
    rw [frameAt, htop]
    omega
  obtain ⟨hentered, hexecutes⟩ := h.toExecutes.onStack (hm.onStack h.cpl) le_rfl
  obtain ⟨live', hwaited, hback⟩ := hexecutes.handleTime hlow hhigh htime
  have hall := hentered.trans (hwaited.mono hhigh)
  refine ⟨hkept fun a ha ha' => hwaited.stack a ha (show a < c.esp0 from htop ▸ ha'),
    hback.currTask, ?_, ?_⟩
  · rw [hback.cr3, hall.cr3, h.cr3]
  · intro v hv
    rw [hback.currTask]
    exact back_user h.toExecutes h.kernelOnly hall hback hv

/-- The time slice of the program has run out, and its child runs and writes a byte. -/
theorem preempted_returns_pair :
  ∃ c : Cpu, ∀ b, ∃ os, c.takeInterrupt callerExceptions
      (idtBooted (fun _ => gateDescSet 0 0 0) callerExceptions.entry)
      (fun name s _ => if name = .time then some (s.ticked caller.regs b) else none) 0x20 0
      caller.regs = some { regs := c.regs, os := os }
    ∧ os.kernel.mem c.os.childFrame = b
    ∧ os.userByte os.tasks.currTask 0x80000000 = c.os.userByte c.os.tasks.currTask 0x80000000
  := by
  obtain ⟨t, live, users, h, hkernel, htss⟩ := withChild_caller
  have hpair := withChild_pair h
  have hrunning : (pair t).Running live users := ⟨hpair.toExecutes, rfl, hkernel⟩
  use pair t
  intro b
  obtain ⟨m, hm, hreturns⟩ := preempted_returns (fun _ => gateDescSet 0 0 0) hrunning
    (interruptible_pair htss) callerExceptions
    (fun name s _ => if name = .time then some (s.ticked caller.regs b) else none) caller.regs
  obtain ⟨hentered, hframe⟩ :=
    hpair.runs (hpair.runs_onStack (hm.onStack rfl) le_rfl)
  obtain ⟨htime, hbyte⟩ :=
    hentered.handleTime (r := caller.regs) b ((pair t).frameAt - 8) rfl rfl rfl
  obtain ⟨htake, -, -, huser⟩ := hreturns _ _ rfl htime
  rw [hframe] at hbyte
  exact ⟨_, htake, hbyte, (huser 0x80000000 (by decide)).2⟩

/-- A program that gives the processor away goes on behind the call with the value returned, and
with the memory it had when it entered the kernel, whatever other tasks have done in the
meantime. -/
theorem blocked_returns (h : c.Running live users) (hu : c.User kcode) (call : LibCall)
    (henters : call.Enters) {tasks : TaskManager}
    (hschedule : call.schedule c.os.tasks = some tasks) (args : SyscallArg)
    (hargs : ∀ w ∈ (call.args args).words, w < 2 ^ 32) (hnext : next < 2 ^ 32)
    (handlers : SysFunc → SysHandle) (scratch : Registers) :
  ∃ m a₀ a₁ a₂ a₃, c.InSyscall kcode (call.args args) next m ∧ call.params <+: [a₀, a₁, a₂, a₃] ∧
    ∀ ret os users', handlers call.func a₀ a₁ a₂ a₃ (c.osWith m) = some (ret, os) → ret < 2 ^ 32 →
    Dispatches c.os.tasks.currTask (c.esp0 - 96) tasks (c.osWith m, users) (os, users') →
    ∃ t, c.libCall kcode handlers call args next scratch
        = some { regs := { c.regs with eax := ret, eip := next }, os := t }
      ∧ os.OnStack c.os.tasks.currTask c.esp0 t
      ∧ t.tasks.currTask = c.os.tasks.currTask ∧ t.kernel.cr3 = c.os.kernel.cr3
      ∧ ∀ v < 2 ^ 32, t.userByte t.tasks.currTask v
        = (c.osWith m).userByte c.os.tasks.currTask v
  := by
  obtain ⟨m, hm, hreaches⟩ := sysCall_reaches hu hargs hnext handlers scratch
  refine ⟨m, _, _, _, _, hm, call.params_prefix args, ?_⟩
  intro ret os users' hhandler hret hdispatches
  have hlow := hu.esp0_low
  obtain ⟨hspares, hexecutes⟩ := h.toExecutes.runs (h.inSyscall hu hm)
  obtain ⟨live', hwaited, hback⟩ :=
    hexecutes.dispatches (show c.esp0 ≤ c.esp0 - 96 + memPageSize by unfold memPageSize; omega)
      (Nat.sub_le _ _) (LibCall.tss_schedule hschedule) hdispatches
  have hcall := sysCall_returns hu hm hreaches hret hwaited.stack (by
    rw [doHandlerSyscall_eq handlers (s := c.osWith m) hm.frame, call.sysTable_args args]
    dsimp only
    rw [hhandler]
    rfl)
  -- the value goes to the kernel stack
  have hstored : os.OnStack c.os.tasks.currTask c.esp0
      { os with kernel := os.kernel.store (c.esp0 - 40) ret } := by
    refine ⟨_, fun a ha => ?_, rfl⟩
    rw [hwaited.esp0] at ha
    change a + memPageSize < c.esp0 ∨ c.esp0 ≤ a at ha
    unfold memPageSize at ha
    exact store32_of_disjoint _ _ (by omega)
  obtain ⟨hleft, hleft_executes⟩ := hback.onStack hstored hwaited.esp0.ge
  have hall := (hwaited.mono (Nat.sub_le c.esp0 96)).trans hleft
  refine ⟨{ os with kernel := os.kernel.store (c.esp0 - 40) ret },
    by rw [libCall, if_pos henters]; exact hcall, hstored, hback.currTask, ?_, ?_⟩
  · rw [hleft_executes.cr3, hall.cr3]
    exact h.cr3.symm
  · intro v hv
    rw [hleft_executes.currTask]
    exact (back_user hexecutes (KernelOnly.of_spares h.kernelOnly hspares) hall hleft_executes hv).2

/-- The program yields, and its child runs and writes a byte. -/
theorem blocked_returns_pair :
  ∃ c : Cpu, ∀ b, ∃ t, c.libCall callerCode
      (fun _ _ _ _ _ s => some (0, s.childRuns caller.regs s.tasks.sysYield b)) .yield
      ⟨0, 0, 0, 0, 0⟩ 0x80000100 caller.regs
    = some { regs := { c.regs with eax := 0, eip := 0x80000100 }, os := t }
    ∧ t.kernel.mem c.os.childFrame = b
    ∧ ∃ m, c.InSyscall callerCode (LibCall.yield.args ⟨0, 0, 0, 0, 0⟩) 0x80000100 m ∧
      ∀ v < 2 ^ 32, t.userByte t.tasks.currTask v = (c.osWith m).userByte c.os.tasks.currTask v
  := by
  obtain ⟨t, live, users, h, hkernel, htss⟩ := withChild_caller
  have hpair := withChild_pair h
  have hrunning : (pair t).Running live users := ⟨hpair.toExecutes, rfl, hkernel⟩
  use pair t
  intro b
  obtain ⟨m, _, _, _, _, hm, -, hreturns⟩ := blocked_returns hrunning (user_pair h htss) .yield
    trivial rfl ⟨0, 0, 0, 0, 0⟩ (by decide) (show 0x80000100 < 2 ^ 32 by decide)
    (fun _ _ _ _ _ s => some (0, s.childRuns caller.regs s.tasks.sysYield b)) caller.regs
  obtain ⟨hentered, hframe⟩ := hpair.runs (hrunning.inSyscall (user_pair h htss) hm)
  obtain ⟨hyield, hbyte⟩ := hentered.dispatches (r := caller.regs) (m := (pair t).os.tasks.sysYield)
    b ((pair t).esp0 - 96) (fun _ => TaskManager.field_sysYield fun _ _ => rfl) rfl rfl
  obtain ⟨_, hwaited, -⟩ := hentered.toExecutes.dispatches
    (show (pair t).esp0 ≤ (pair t).esp0 - 96 + memPageSize by unfold memPageSize; omega)
    (Nat.sub_le _ _) (fun _ => TaskManager.field_sysYield fun _ _ => rfl) hyield
  obtain ⟨t', hcall, ⟨mem, hmem, rfl⟩, -, -, huser⟩ := hreturns 0 _ _ rfl (by decide) hyield
  refine ⟨_, hcall, ?_, m, hm, huser⟩
  rw [← hframe]
  refine (hmem _ ?_).trans hbyte
  have hapart := hentered.childFrame_stack
  rw [← hwaited.esp0] at hapart
  exact hapart.imp_right (le_trans hwaited.esp0.le)

end Cpu

end Dmos
