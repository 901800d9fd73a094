import Dmos.Entry.Cpu
import Dmos.Task.Isolation

/-!
# System calls

A program calls the system by `sys_call` of `lib_syscall.c`: the arguments are pushed and a far
call leads through the gate to `exception_handle_syscall` of `kernel.S`, which completes the frame
of the call on the stack of the kernel and calls `do_handler_syscall`.  On the way back the
registers are those of the frame.

The functions of the system are those of a table (`SysFunc`); what they do is a parameter here.
-/

open ByteMemory AddressSpace

namespace Dmos

/-! ### Functions of the system -/

inductive SysFunc where
  | sleep
  | getpid
  | printMsg
  | fork
  | execve
  | yield
  | «open»
  | read
  | write
  | close
  | lseek
  | isatty
  | sbrk
  | fstat
  | dup
  | exit
  deriving DecidableEq

/-- `sys_table`, up to the bound that is checked. -/
def sysTable : Nat → Option SysFunc
  | 0 => some .sleep
  | 1 => some .getpid
  | 2 => some .printMsg
  | 3 => some .fork
  | 4 => some .execve
  | 5 => some .yield
  | 6 => some .exit
  | 50 => some .open
  | 51 => some .read
  | 52 => some .write
  | 53 => some .close
  | 54 => some .lseek
  | 55 => some .isatty
  | 56 => some .sbrk
  | 57 => some .fstat
  | 58 => some .dup
  | _ => none

/-- A function of the system on its four arguments: the value returned with the state, if it
returns. -/
abbrev SysHandle : Type :=
  Nat → Nat → Nat → Nat → Os → Option (Nat × Os)

/-- `do_handler_syscall`, with the frame at an address of the kernel. -/
def doHandlerSyscall (handlers : SysFunc → SysHandle) (s : Os) (frame : Nat) : Option Os :=
  match sysTable (s.kernel.load (frame + 60)) with
  | some f => do
      let (ret, s) ← handlers f (s.kernel.load (frame + 64)) (s.kernel.load (frame + 68))
        (s.kernel.load (frame + 72)) (s.kernel.load (frame + 76)) s
      some { s with kernel := s.kernel.store (frame + 48) ret }
  | none => some { s with kernel := s.kernel.store (frame + 48) errorWord }

/-! ### Calls of programs -/

structure SyscallArg where
  id : Nat
  arg0 : Nat
  arg1 : Nat
  arg2 : Nat
  arg3 : Nat

/-- The words of a call, as the program pushes them. -/
def SyscallArg.words (args : SyscallArg) : List Nat :=
  [args.id, args.arg0, args.arg1, args.arg2, args.arg3]

/-- The functions of `lib_syscall.c`, with the words they are given. -/
inductive LibCall where
  | msleep (ms : Nat)
  | getpid
  | printMsg (fmt arg : Nat)
  | fork
  | execve (name argv env : Nat)
  | yield
  | «open» (name flags : Nat)
  | read (file ptr len : Nat)
  | write (file ptr len : Nat)
  | close (file : Nat)
  | lseek (file ptr dir : Nat)
  | isatty (file : Nat)
  | fstat (file st : Nat)
  | sbrk (incr : Nat)
  | dup (fd : Nat)
  | exit (status : Nat)

namespace LibCall

/-- The variable `args` when `sys_call` is called; what it held before is `args`. -/
def args (args : SyscallArg) : LibCall → SyscallArg
  | .msleep ms => { args with id := 0, arg0 := ms }
  | .getpid => { args with id := 1 }
  | .printMsg fmt arg => { args with id := 2, arg0 := fmt, arg1 := arg }
  | .fork => { args with id := 3 }
  | .execve name argv env => { args with id := 4, arg0 := name, arg1 := argv, arg2 := env }
  | .yield => { args with id := 5 }
  | .open name flags => { args with id := 50, arg0 := name, arg1 := flags }
  | .read file ptr len => { args with id := 51, arg0 := file, arg1 := ptr, arg2 := len }
  | .write file ptr len => { args with id := 52, arg0 := file, arg1 := ptr, arg2 := len }
  | .close file => { args with id := 53, arg0 := file }
  | .lseek file ptr dir => { args with id := 54, arg0 := file, arg1 := ptr, arg2 := dir }
  | .isatty file => { args with id := 55, arg0 := file }
  | .fstat file st => { args with id := 57, arg0 := file, arg1 := st }
  | .sbrk incr => { args with id := 56, arg0 := incr }
  | .dup fd => { args with id := 58, arg0 := fd }
  | .exit status => { args with id := 6, arg0 := status }

/-- `msleep` returns at once unless it is given a positive number. -/
def Enters : LibCall → Prop
  | .msleep ms => 0 < asInt ms
  | _ => True

instance (call : LibCall) : Decidable call.Enters :=
  match call with
  | .msleep ms => inferInstanceAs (Decidable (0 < asInt ms))
  | .getpid | .printMsg _ _ | .fork | .execve _ _ _ | .yield | .open _ _ | .read _ _ _
  | .write _ _ _ | .close _ | .lseek _ _ _ | .isatty _ | .fstat _ _ | .sbrk _ | .dup _
  | .exit _ => .isTrue trivial

/-- The function of the system that a call is meant for. -/
def func : LibCall → SysFunc
  | .msleep _ => .sleep
  | .getpid => .getpid
  | .printMsg _ _ => .printMsg
  | .fork => .fork
  | .execve _ _ _ => .execve
  | .yield => .yield
  | .open _ _ => .open
  | .read _ _ _ => .read
  | .write _ _ _ => .write
  | .close _ => .close
  | .lseek _ _ _ => .lseek
  | .isatty _ => .isatty
  | .fstat _ _ => .fstat
  | .sbrk _ => .sbrk
  | .dup _ => .dup
  | .exit _ => .exit

/-- The words a call is given, in the order of its parameters. -/
def params : LibCall → List Nat
  | .msleep ms => [ms]
  | .getpid => []
  | .printMsg fmt arg => [fmt, arg]
  | .fork => []
  | .execve name argv env => [name, argv, env]
  | .yield => []
  | .open name flags => [name, flags]
  | .read file ptr len => [file, ptr, len]
  | .write file ptr len => [file, ptr, len]
  | .close file => [file]
  | .lseek file ptr dir => [file, ptr, dir]
  | .isatty file => [file]
  | .fstat file st => [file, st]
  | .sbrk incr => [incr]
  | .dup fd => [fd]
  | .exit status => [status]

variable (call : LibCall) (args : SyscallArg)

/-- The number of a call is the one of its function. -/
theorem sysTable_args :
  sysTable (call.args args).id = some call.func
  := by cases call <;> rfl

/-- The words a call is given are its first arguments. -/
theorem params_prefix :
  call.params <+: [(call.args args).arg0, (call.args args).arg1, (call.args args).arg2,
    (call.args args).arg3]
  := by cases call <;> exact ⟨_, rfl⟩

end LibCall

/-! ### The way into the kernel and back -/

/-- Addresses in the code of the kernel. -/
structure KernelCode where
  exceptionHandleSyscall : Nat
  exceptionHandleSyscall_lt : exceptionHandleSyscall < 2 ^ 32
  /-- The instruction behind the call of `do_handler_syscall`. -/
  handled : Nat
  handled_lt : handled < 2 ^ 32

namespace Cpu

/-- A call of a function with one parameter, which has been pushed.  The function may leave other
values in the registers that `scratch` tells; it returns if its return address is kept. -/
def call (c : Cpu) (f : Os → Nat → Option Os) (ret : Nat) (scratch : Registers) : Option Cpu := do
  let c ← c.push ret
  let arg ← c.os.kernel.readWord (u32 (c.regs.esp + 4))
  let os ← f c.os arg
  let c : Cpu :=
    { regs := { c.regs with
        eax := scratch.eax
        ecx := scratch.ecx
        edx := scratch.edx
        eflags := scratch.eflags }
      os := os }
  let (eip, c) ← c.pop
  if eip = ret then some c else none

/-- The first part of `exception_handle_syscall`, up to the call of `do_handler_syscall`. -/
def exceptionHandleSyscall.enter (c : Cpu) : Option Cpu := do
  let r := c.regs
  let c ← c.pusha
  let c ← c.pushAll [r.ds, r.es, r.fs, r.gs, r.eflags]
  some { c with regs := { c.regs with eax := c.regs.esp } }

/-- The last part of `exception_handle_syscall`. -/
def exceptionHandleSyscall.leave (c : Cpu) : Option Cpu := do
  let (eflags, c) ← c.pop
  let (gs, c) ← c.pop
  let (fs, c) ← c.pop
  let (es, c) ← c.pop
  let (ds, c) ← c.pop
  let c : Cpu :=
    { c with regs := { c.regs with eflags := eflags, gs := gs, fs := fs, es := es, ds := ds } }
  let c ← c.popa
  c.farReturn (4 * syscallParamCount)

def exceptionHandleSyscall (c : Cpu) (code : KernelCode) (handlers : SysFunc → SysHandle)
    (scratch : Registers) : Option Cpu := do
  let c ← exceptionHandleSyscall.enter c
  let c ← c.push c.regs.eax
  let c ← c.call (doHandlerSyscall handlers) code.handled scratch
  exceptionHandleSyscall.leave { c with regs := { c.regs with esp := u32 (c.regs.esp + 4) } }

/-- The instructions of `sys_call` before the far call. -/
def sysCall.pushArgs (c : Cpu) (args : SyscallArg) : Option Cpu :=
  c.pushAll [args.arg3, args.arg2, args.arg1, args.arg0, args.id]

/-- The instructions of `sys_call`, `next` being the address behind them. -/
def sysCall (c : Cpu) (code : KernelCode) (handlers : SysFunc → SysHandle) (args : SyscallArg)
    (next : Nat) (scratch : Registers) : Option Cpu := do
  let c ← sysCall.pushArgs c args
  let c ← c.callGate selectorSyscall next
  if c.regs.eip = code.exceptionHandleSyscall then
    c.exceptionHandleSyscall code handlers scratch
  else none

end Cpu

/-- All registers. -/
def Registers.words (r : Registers) : List Nat :=
  [r.eax, r.ecx, r.edx, r.ebx, r.esp, r.ebp, r.esi, r.edi, r.eip, r.eflags, r.cs, r.ss, r.ds, r.es,
    r.fs, r.gs]

/-! ### Frames -/

/-- The frame of a system call, by the registers that it brings back. -/
def frameWords (r : Registers) (dummy : Nat) (args : SyscallArg) : List Nat :=
  [r.eflags, r.gs, r.fs, r.es, r.ds, r.edi, r.esi, r.ebp, dummy, r.ebx, r.edx, r.ecx, r.eax, r.eip,
    r.cs, args.id, args.arg0, args.arg1, args.arg2, args.arg3, r.esp, r.ss]

section Frame

variable {r : Registers} {dummy : Nat} {args : SyscallArg} {s : Os} {frame : Nat}

theorem length_frameWords (r : Registers) (dummy : Nat) (args : SyscallArg) :
  (frameWords r dummy args).length = 22
  := rfl

theorem frameWords_lt {next esp : Nat} (hr : ∀ w ∈ r.words, w < 2 ^ 32)
    (hargs : ∀ w ∈ args.words, w < 2 ^ 32)
    (hdummy : dummy < 2 ^ 32) (hnext : next < 2 ^ 32) (hesp : esp < 2 ^ 32) :
  ∀ w ∈ frameWords { r with eip := next, esp := esp } dummy args, w < 2 ^ 32
  := by
  simp only [Registers.words, List.forall_mem_cons] at hr
  simp only [SyscallArg.words, List.forall_mem_cons] at hargs
  simp only [frameWords, List.forall_mem_cons]
  tauto

/-- A word of a frame. -/
theorem load_frame (h : WordsAt s.kernel.mem frame (frameWords r dummy args)) {i : Nat}
    (hi : i < 22) :
  s.kernel.load (frame + 4 * i) = (frameWords r dummy args)[i]
  := h.get hi

/-- The members of a frame. -/
theorem syscallFrame_eq (h : WordsAt s.kernel.mem frame (frameWords r dummy args)) :
  s.kernel.syscallFrame frame =
    { eflags := r.eflags
      gs := r.gs
      fs := r.fs
      es := r.es
      ds := r.ds
      edi := r.edi
      esi := r.esi
      ebp := r.ebp
      ebx := r.ebx
      edx := r.edx
      ecx := r.ecx
      eip := r.eip
      cs := r.cs
      esp := r.esp }
  := by
  have hload {i : Nat} (hi : i < 22) := load_frame h hi
  rw [Kernel.syscallFrame]
  simp only [SyscallFrame.mk.injEq]
  exact ⟨hload (i := 0) (by decide), hload (i := 1) (by decide), hload (i := 2) (by decide),
    hload (i := 3) (by decide), hload (i := 4) (by decide), hload (i := 5) (by decide),
    hload (i := 6) (by decide), hload (i := 7) (by decide), hload (i := 9) (by decide),
    hload (i := 10) (by decide), hload (i := 11) (by decide), hload (i := 13) (by decide),
    hload (i := 14) (by decide), hload (i := 20) (by decide)⟩

/-- The function of the system and its arguments are those in the frame. -/
theorem doHandlerSyscall_eq (handlers : SysFunc → SysHandle)
    (h : WordsAt s.kernel.mem frame (frameWords r dummy args)) :
  doHandlerSyscall handlers s frame
    = match sysTable args.id with
      | some f => (handlers f args.arg0 args.arg1 args.arg2 args.arg3 s).map fun (ret, s) =>
          { s with kernel := s.kernel.store (frame + 48) ret }
      | none => some { s with kernel := s.kernel.store (frame + 48) errorWord }
  := by
  have hid : s.kernel.load (frame + 60) = args.id := load_frame h (i := 15) (by decide)
  have h₀ : s.kernel.load (frame + 64) = args.arg0 := load_frame h (i := 16) (by decide)
  have h₁ : s.kernel.load (frame + 68) = args.arg1 := load_frame h (i := 17) (by decide)
  have h₂ : s.kernel.load (frame + 72) = args.arg2 := load_frame h (i := 18) (by decide)
  have h₃ : s.kernel.load (frame + 76) = args.arg3 := load_frame h (i := 19) (by decide)
  rw [doHandlerSyscall, hid, h₀, h₁, h₂, h₃]
  cases sysTable args.id with
  | none => rfl
  | some f =>
      dsimp only
      cases handlers f args.arg0 args.arg1 args.arg2 args.arg3 s with
      | none => rfl
      | some result => rfl

end Frame

namespace Cpu

variable {c : Cpu} {r : Registers} {dummy : Nat} {args : SyscallArg}

/-- The registers come back from the frame, and the arguments are dropped. -/
theorem leave_setEsp {frame : Nat} (h : WordsAt c.mem frame (frameWords r dummy args))
    (hhigh : frame + 88 ≤ memoryTaskBase) (hcpl : c.cpl < r.cs % 4) :
  exceptionHandleSyscall.leave (c.setEsp frame)
    = some { regs := { r with esp := u32 (r.esp + 20) }, os := c.os }
  := by
  have hsplit : frameWords r dummy args
      = [r.eflags, r.gs, r.fs, r.es, r.ds]
        ++ ([r.edi, r.esi, r.ebp, dummy, r.ebx, r.edx, r.ecx, r.eax]
          ++ ([r.eip, r.cs] ++ [args.id, args.arg0, args.arg1, args.arg2, args.arg3]
            ++ [r.esp, r.ss])) := rfl
  rw [hsplit] at h
  obtain ⟨hsegs, hrest⟩ := wordsAt_append.mp h
  obtain ⟨hgeneral, hreturn⟩ := wordsAt_append.mp hrest
  rw [exceptionHandleSyscall.leave, pop_setEsp hsegs (by omega)]
  simp only [Option.bind_eq_bind, Option.bind_some]
  rw [pop_setEsp hsegs.2 (by omega)]
  simp only [Option.bind_some]
  rw [pop_setEsp hsegs.2.2 (by omega)]
  simp only [Option.bind_some]
  rw [pop_setEsp hsegs.2.2.2 (by omega)]
  simp only [Option.bind_some]
  rw [pop_setEsp hsegs.2.2.2.2 (by omega)]
  simp only [Option.bind_some]
  let d : Cpu := { c with
    regs := { c.regs with eflags := r.eflags, gs := r.gs, fs := r.fs, es := r.es, ds := r.ds } }
  have hd : WordsAt d.mem (frame + 20) [r.edi, r.esi, r.ebp, dummy, r.ebx, r.edx, r.ecx, r.eax] :=
    hgeneral
  change (d.setEsp (frame + 20)).popa.bind _ = _
  rw [popa_setEsp hd (by omega), Option.bind_some]
  let e : Cpu := { d with
    regs := { d.regs with
      edi := r.edi
      esi := r.esi
      ebp := r.ebp
      ebx := r.ebx
      edx := r.edx
      ecx := r.ecx
      eax := r.eax } }
  have hfar := farReturn_setEsp (c := e) hreturn (by simp only [List.length]; omega) hcpl
  rw [show [args.id, args.arg0, args.arg1, args.arg2, args.arg3].length = 5 from rfl] at hfar
  exact hfar

/-! ### Entering the kernel -/

/-- The end of the kernel stack of the current task. -/
abbrev esp0 (c : Cpu) : Nat :=
  (c.os.tasks.task c.os.tasks.currTask).tss.esp0

/-- The code of the kernel has all privileges. -/
theorem segDpl_kernel {gdt : Gdt} {entry : Nat} (h : KernelDescs gdt entry) :
  segDpl (gdt 1) = 0
  := by
  have hattr : segAttr (BitFields.ofBytes (gdt 1).bytes) = 0xC09A := h.code.attr
  have hlow := BitFields.field_lt (BitFields.ofBytes (gdt 1).bytes) 40 8
  have htype := BitFields.field_lt (BitFields.ofBytes (gdt 1).bytes) 40 5
  have hdpl := BitFields.field_lt (BitFields.ofBytes (gdt 1).bytes) 45 2
  have hsplit := BitFields.field_add (BitFields.ofBytes (gdt 1).bytes) 40 5 3
  have hsplit' := BitFields.field_add (BitFields.ofBytes (gdt 1).bytes) 45 2 1
  rw [segAttr] at hattr
  rw [segDpl]
  simp only [Nat.reduceAdd] at hsplit hsplit'
  omega

/-- A call through the gate of the system calls. -/
theorem callGate_eq {entry : Nat} {ps : List Nat} (next : Nat) (hdescs : KernelDescs c.os.gdt entry)
    (hcpl : c.cpl = 3) (hps : c.os.kernel.readWords c.regs.esp syscallParamCount = some ps)
    (hlow : 4 * (4 + ps.length) ≤ c.esp0) (hhigh : c.esp0 ≤ memoryTaskBase) :
  c.callGate selectorSyscall next = some
    (({ c with regs := { c.regs with
        ss := (c.os.tasks.task c.os.tasks.currTask).tss.ss0
        cs := kernelSelectorCs
        eip := entry } } : Cpu).setStack (c.esp0 - 4 * (4 + ps.length))
      (pushWords c.mem c.esp0
        ([c.regs.ss, c.regs.esp] ++ ps.reverse ++ [c.regs.cs, next])))
  := by
  have hgate : gateAt c.os.gdt (selectorSyscall / 8) = syscallGate entry := hdescs.gate
  have hallowed : (syscallGate entry).present = 1 ∧ (syscallGate entry).type = 0xC
      ∧ c.cpl ≤ (syscallGate entry).dpl ∧ selectorSyscall % 4 ≤ (syscallGate entry).dpl
      ∧ segDpl (c.os.gdt ((syscallGate entry).selector / 8)) < c.cpl := by
    have hselector : (syscallGate entry).selector = 8 := rfl
    rw [hcpl, hselector, Nat.div_self (by decide), segDpl_kernel hdescs]
    exact ⟨rfl, rfl, le_refl 3, Nat.zero_le 3, by decide⟩
  have hlength : ([c.regs.ss, c.regs.esp] ++ ps.reverse ++ [c.regs.cs, next]).length
      = 4 + ps.length := by
    simp only [List.length_append, List.length_cons, List.length_nil, List.length_reverse]
    omega
  rw [callGate]
  dsimp only
  rw [hgate, if_pos hallowed,
    show (syscallGate entry).paramCount = syscallParamCount from rfl, hps, Option.bind_eq_bind,
    Option.bind_some]
  let d : Cpu := { c with
    regs := { c.regs with ss := (c.os.tasks.task c.os.tasks.currTask).tss.ss0 } }
  have hroom : 4 * ([c.regs.ss, c.regs.esp] ++ ps.reverse ++ [c.regs.cs, next]).length
      ≤ c.esp0 := by
    rw [hlength]
    exact hlow
  have hpush := pushAll_setStack (c := d) (m := c.mem) _ hroom hhigh
  rw [hlength] at hpush
  change (((d.setStack c.esp0 c.mem).pushAll _).bind _) = _
  rw [hpush, Option.bind_some]
  rfl

theorem enter_setStack {esp : Nat} {m : Memory} (hlow : 52 ≤ esp) (hhigh : esp ≤ memoryTaskBase) :
  exceptionHandleSyscall.enter (c.setStack esp m) = some
    (({ c with regs := { c.regs with eax := esp - 52 } } : Cpu).setStack (esp - 52)
      (pushWords m esp (generalWords c.regs esp
        ++ [c.regs.ds, c.regs.es, c.regs.fs, c.regs.gs, c.regs.eflags])))
  := by
  have hsegs : [c.regs.ds, c.regs.es, c.regs.fs, c.regs.gs, c.regs.eflags].length = 5 := rfl
  have hgeneral : (generalWords c.regs esp).length = 8 := rfl
  rw [exceptionHandleSyscall.enter]
  dsimp only
  rw [pusha_setStack (by omega) hhigh, Option.bind_eq_bind, Option.bind_some, setStack_regs,
    pushAll_setStack _ (by simp only [List.length]; omega) (by omega), Option.bind_some, hsegs,
    pushWords_append, hgeneral, show esp - 32 - 4 * 5 = esp - 52 by omega,
    show esp - 4 * 8 = esp - 32 by omega]
  rfl

/-! ### The call of the handler -/

/-- The system with another memory. -/
abbrev osWith (c : Cpu) (m : Memory) : Os :=
  { c.os with kernel := c.os.kernel.setMem m }

theorem call_setStack {esp ret : Nat} {m : Memory} {f : Os → Nat → Option Os} {os : Os}
    (scratch : Registers) (hlow : 4 ≤ esp) (hhigh : esp + 4 ≤ memoryTaskBase)
    (hf : f (c.osWith (store32 m (esp - 4) ret)) (load32 m esp) = some os)
    (hkept : load32 os.kernel.mem (esp - 4) = ret) :
  (c.setStack esp m).call f ret scratch = some
    { regs := { c.regs with
        eax := scratch.eax
        ecx := scratch.ecx
        edx := scratch.edx
        eflags := scratch.eflags
        esp := esp }
      os := os }
  := by
  have harg : (c.osWith (store32 m (esp - 4) ret)).kernel.readWord (esp - 4 + 4)
      = some (load32 m esp) := by
    rw [Kernel.readWord_identity _ (by omega), show esp - 4 + 4 = esp by omega]
    exact congrArg some (load32_store32_of_disjoint m ret (by omega))
  have hlt : u32 (esp - 4 + 4) = esp - 4 + 4 := by
    unfold memoryTaskBase at hhigh
    rw [u32_of_lt (by omega)]
  rw [call, push_setStack ret hlow (by omega), Option.bind_eq_bind, Option.bind_some]
  dsimp only
  rw [setStack_regs]
  dsimp only
  rw [hlt]
  change ((c.osWith (store32 m (esp - 4) ret)).kernel.readWord (esp - 4 + 4)).bind _ = _
  rw [harg, Option.bind_some]
  change (f (c.osWith (store32 m (esp - 4) ret)) (load32 m esp)).bind _ = _
  rw [hf, Option.bind_some]
  let d : Cpu :=
    { regs := { c.regs with
        eax := scratch.eax
        ecx := scratch.ecx
        edx := scratch.edx
        eflags := scratch.eflags }
      os := os }
  have hpop : (d.setEsp (esp - 4)).pop = some (ret, d.setEsp (esp - 4 + 4)) :=
    pop_setEsp (show WordsAt d.mem (esp - 4) [ret] from ⟨hkept, trivial⟩) (by omega)
  change ((d.setEsp (esp - 4)).pop.bind _) = _
  rw [hpop, Option.bind_some, if_pos rfl, show esp - 4 + 4 = esp by omega]
  rfl

/-! ### The way through the kernel -/

/-- A program runs on a stack with room for the arguments, and the kernel is set up for its
calls. -/
structure User (c : Cpu) (code : KernelCode) : Prop where
  cpl : c.cpl = 3
  words : ∀ w ∈ c.regs.words, w < 2 ^ 32
  descs : KernelDescs c.os.gdt code.exceptionHandleSyscall
  stack : Kernel.Window c.os.kernel c.os.kernel.cr3 (c.regs.esp - 20) 20
  esp0_low : 96 ≤ c.esp0
  esp0_high : c.esp0 ≤ memoryTaskBase

/-- The memory when the handler of a call starts. -/
structure InSyscall (c : Cpu) (code : KernelCode) (args : SyscallArg) (next : Nat) (m : Memory) :
    Prop where
  frame : WordsAt m (c.esp0 - 88)
    (frameWords { c.regs with eip := next, esp := c.regs.esp - 20 } (c.esp0 - 36) args)
  call : WordsAt m (c.esp0 - 96) [code.handled, c.esp0 - 88]
  unchanged : ∀ x, x < c.esp0 - 96 ∨ c.esp0 ≤ x →
    ¬ c.os.kernel.InFrames c.os.kernel.cr3 (c.regs.esp - 20) 20 x → m x = c.mem x

variable {code : KernelCode} {next : Nat} {m : Memory}

/-- The words of a call that the processor and `exception_handle_syscall` push. -/
def pushed (c : Cpu) (code : KernelCode) (args : SyscallArg) (next : Nat) : List Nat :=
  (frameWords { c.regs with eip := next, esp := c.regs.esp - 20 } (c.esp0 - 36) args).reverse
    ++ [c.esp0 - 88, code.handled]

theorem inSyscall_pushWords (hu : c.User code)
    (hargs : ∀ w ∈ args.words, w < 2 ^ 32)
    (hnext : next < 2 ^ 32)
    (hm : c.os.kernel.Agrees c.os.kernel.cr3 (c.regs.esp - 20) 20 m) :
  c.InSyscall code args next (pushWords m c.esp0 (c.pushed code args next))
  := by
  have hlow := hu.esp0_low
  have hhigh := hu.esp0_high
  have hlength : (c.pushed code args next).length = 24 := rfl
  have hlt : ∀ w ∈ c.pushed code args next, w < 2 ^ 32 := by
    have hesp : c.regs.esp < 2 ^ 32 := hu.words _ (by simp [Registers.words])
    unfold memoryTaskBase at hhigh
    intro w hw
    rcases List.mem_append.mp hw with hw | hw
    · exact frameWords_lt hu.words hargs (by omega) hnext (by omega) w (List.mem_reverse.mp hw)
    · have hhandled := code.handled_lt
      simp only [List.mem_cons, List.not_mem_nil, or_false] at hw
      omega
  have hroom : 4 * (c.pushed code args next).length ≤ c.esp0 := by
    rw [hlength]
    exact hlow
  have hall := wordsAt_pushWords m hroom hlt
  rw [hlength, pushed, List.reverse_append, List.reverse_reverse, wordsAt_append, ← pushed,
    show 4 * 24 = 96 from rfl] at hall
  have hframe := hall.2
  rw [show c.esp0 - 96 + 4 * [c.esp0 - 88, code.handled].reverse.length = c.esp0 - 88 by
    rw [List.length_reverse, show [c.esp0 - 88, code.handled].length = 2 from rfl]
    omega] at hframe
  refine ⟨hframe, hall.1, ?_⟩
  intro x hx hout
  rw [pushWords_outside _ hroom (by rw [hlength]; omega), hm x hout]

/-- The processor when `exception_handle_syscall` starts. -/
def atEntry (c : Cpu) (code : KernelCode) : Cpu :=
  { c with regs := { c.regs with
      ss := (c.os.tasks.task c.os.tasks.currTask).tss.ss0
      cs := kernelSelectorCs
      eip := code.exceptionHandleSyscall } }

/-- The words that the far call pushes. -/
def gateWords (c : Cpu) (args : SyscallArg) (next : Nat) : List Nat :=
  [c.regs.ss, c.regs.esp - 20] ++ [args.id, args.arg0, args.arg1, args.arg2, args.arg3].reverse
    ++ [c.regs.cs, next]

/-- The user's part of a call. -/
theorem sysCall_start (hu : c.User code)
    (hargs : ∀ w ∈ args.words, w < 2 ^ 32) (next : Nat) :
  ∃ m, c.os.kernel.Agrees c.os.kernel.cr3 (c.regs.esp - 20) 20 m
    ∧ (sysCall.pushArgs c args).bind (fun c => c.callGate selectorSyscall next)
      = some ((c.atEntry code).setStack (c.esp0 - 36)
        (pushWords m c.esp0 (c.gateWords args next)))
  := by
  have huser := hu.stack.user
  have hesp : c.regs.esp < 2 ^ 32 := hu.words _ (by simp [Registers.words])
  have hstart : c.os.kernel.Agrees c.os.kernel.cr3 (c.regs.esp - 20) 20 c.mem := fun _ _ => rfl
  obtain ⟨m, hpush, hm, hview⟩ := pushAll_window
    [args.arg3, args.arg2, args.arg1, args.arg0, args.id] hu.stack hstart (le_refl 20) (le_refl 20)
  have hback : c.regs.esp - 20 + 20 = c.regs.esp := by
    unfold memoryTaskBase at huser
    omega
  rw [hback] at hpush
  have hpushed : sysCall.pushArgs c args = some (c.setStack (c.regs.esp - 20) m) := hpush
  have hwords : WordsAt (c.os.kernel.view c.os.kernel.cr3 (c.regs.esp - 20) m) 0
      [args.id, args.arg0, args.arg1, args.arg2, args.arg3] := by
    have hlt : ∀ w ∈ [args.arg3, args.arg2, args.arg1, args.arg0, args.id], w < 2 ^ 32 :=
      fun w hw => hargs w (List.mem_reverse.mpr hw)
    have hall := wordsAt_pushWords (c.os.kernel.view c.os.kernel.cr3 (c.regs.esp - 20) c.mem)
      (le_refl 20) hlt
    apply WordsAt.congr hall
    intro x _ hx
    apply hview x hx
  have hps : (c.setStack (c.regs.esp - 20) m).os.kernel.readWords (c.regs.esp - 20 + 0)
      syscallParamCount = some [args.id, args.arg0, args.arg1, args.arg2, args.arg3] :=
    readWords_window hu.stack hm hwords (le_refl 20) (by omega)
  refine ⟨m, hm, ?_⟩
  have hroom := hu.esp0_low
  have hgate := callGate_eq (c := c.setStack (c.regs.esp - 20) m) next hu.descs hu.cpl hps
    (show 4 * 9 ≤ c.esp0 by omega) hu.esp0_high
  rw [hpushed, Option.bind_some, hgate]
  rfl

/-- The words that `exception_handle_syscall` pushes, from the stack pointer on. -/
def handlerWords (c : Cpu) (code : KernelCode) (esp : Nat) : List Nat :=
  generalWords c.regs esp ++ [c.regs.ds, c.regs.es, c.regs.fs, c.regs.gs, c.regs.eflags]
    ++ [esp - 52, code.handled]

/-- The kernel's part of a call. -/
theorem exceptionHandleSyscall_setStack {esp : Nat} {handlers : SysFunc → SysHandle} {os : Os}
    {args' : SyscallArg} (scratch : Registers) (hlow : 60 ≤ esp) (hhigh : esp + 36 ≤ memoryTaskBase)
    (hcpl : c.cpl = 0)
    (hdo : doHandlerSyscall handlers (c.osWith (pushWords m esp (c.handlerWords code esp)))
      (esp - 52) = some os)
    (hcall : WordsAt os.kernel.mem (esp - 60) [code.handled, esp - 52])
    (hframe : WordsAt os.kernel.mem (esp - 52) (frameWords r dummy args')) (hcs : r.cs % 4 = 3) :
  (c.setStack esp m).exceptionHandleSyscall code handlers scratch
    = some { regs := { r with esp := u32 (r.esp + 20) }, os := os }
  := by
  have hframe_lt : esp - 52 < 2 ^ 32 := by
    unfold memoryTaskBase at hhigh
    omega
  let m₁ := pushWords m esp (generalWords c.regs esp
    ++ [c.regs.ds, c.regs.es, c.regs.fs, c.regs.gs, c.regs.eflags])
  let m₂ := store32 m₁ (esp - 52 - 4) (esp - 52)
  have hm : store32 m₂ (esp - 52 - 4 - 4) code.handled
      = pushWords m esp (c.handlerWords code esp) := by
    rw [handlerWords, pushWords_append m esp (generalWords c.regs esp ++ _),
      show 4 * (generalWords c.regs esp
        ++ [c.regs.ds, c.regs.es, c.regs.fs, c.regs.gs, c.regs.eflags]).length = 52 from rfl]
    rfl
  have harg : load32 m₂ (esp - 52 - 4) = esp - 52 := load32_store32 m₁ _ hframe_lt
  let d : Cpu := { c with regs := { c.regs with eax := esp - 52 } }
  have hcallHandler : (d.setStack (esp - 52 - 4) m₂).call (doHandlerSyscall handlers) code.handled
      scratch = some
        { regs := { d.regs with
            eax := scratch.eax
            ecx := scratch.ecx
            edx := scratch.edx
            eflags := scratch.eflags
            esp := esp - 52 - 4 }
          os := os } := by
    apply call_setStack scratch (by omega) (by omega)
    · rw [hm, harg]
      exact hdo
    · rw [show esp - 52 - 4 - 4 = esp - 60 by omega]
      exact hcall.1
  rw [exceptionHandleSyscall, enter_setStack (by omega) (by omega), Option.bind_eq_bind,
    Option.bind_some, push_setStack _ (by omega) (by omega), Option.bind_some]
  change ((d.setStack (esp - 52 - 4) m₂).call (doHandlerSyscall handlers) code.handled
    scratch).bind _ = _
  rw [hcallHandler, Option.bind_some]
  dsimp only
  rw [show esp - 52 - 4 + 4 = esp - 52 by omega, u32_of_lt hframe_lt]
  let e : Cpu :=
    { regs := { c.regs with
        eax := scratch.eax
        ecx := scratch.ecx
        edx := scratch.edx
        eflags := scratch.eflags }
      os := os }
  change exceptionHandleSyscall.leave (e.setEsp (esp - 52)) = _
  apply leave_setEsp hframe (by omega)
  rw [show e.cpl = c.cpl from rfl, hcpl, hcs]
  decide

/-- A call reaches the handler, and leaves by what is in the frame then. -/
theorem sysCall_reaches (hu : c.User code)
    (hargs : ∀ w ∈ args.words, w < 2 ^ 32)
    (hnext : next < 2 ^ 32) (handlers : SysFunc → SysHandle) (scratch : Registers) :
  ∃ m, c.InSyscall code args next m ∧ ∀ {os : Os} {r : Registers} {dummy : Nat} {args' : SyscallArg},
    doHandlerSyscall handlers (c.osWith m) (c.esp0 - 88) = some os →
    WordsAt os.kernel.mem (c.esp0 - 96) [code.handled, c.esp0 - 88] →
    WordsAt os.kernel.mem (c.esp0 - 88) (frameWords r dummy args') → r.cs % 4 = 3 →
    c.sysCall code handlers args next scratch
      = some { regs := { r with esp := u32 (r.esp + 20) }, os := os }
  := by
  have hlow := hu.esp0_low
  have hhigh := hu.esp0_high
  obtain ⟨m, hm, hstart⟩ := c.sysCall_start hu hargs next
  refine ⟨pushWords m c.esp0 (c.pushed code args next), inSyscall_pushWords hu hargs hnext hm, ?_⟩
  intro os r dummy args' hdo hcall hframe hcs
  obtain ⟨c₁, hargs', hgate⟩ := Option.bind_eq_some_iff.mp hstart
  have hwords : pushWords (pushWords m c.esp0 (c.gateWords args next)) (c.esp0 - 36)
      ((c.atEntry code).handlerWords code (c.esp0 - 36))
      = pushWords m c.esp0 (c.pushed code args next) := by
    rw [pushed, handlerWords, show c.esp0 - 36 - 52 = c.esp0 - 88 by omega]
    exact (pushWords_append m c.esp0 (c.gateWords args next) _).symm
  rw [sysCall, hargs', Option.bind_eq_bind, Option.bind_some, hgate, Option.bind_some]
  rw [show ((c.atEntry code).setStack (c.esp0 - 36)
    (pushWords m c.esp0 (c.gateWords args next))).regs.eip = code.exceptionHandleSyscall from rfl,
    if_pos rfl]
  have hcpl : (c.atEntry code).cpl = 0 := show kernelSelectorCs % 4 = 0 by decide
  apply exceptionHandleSyscall_setStack scratch (by omega) (by omega) hcpl
  · rw [hwords, show c.esp0 - 36 - 52 = c.esp0 - 88 by omega]
    exact hdo
  · rw [show c.esp0 - 36 - 60 = c.esp0 - 96 by omega,
      show c.esp0 - 36 - 52 = c.esp0 - 88 by omega]
    exact hcall
  · rw [show c.esp0 - 36 - 52 = c.esp0 - 88 by omega]
    exact hframe
  · apply hcs

/-- A function of the library: `msleep` may return without a call. -/
def libCall (c : Cpu) (code : KernelCode) (handlers : SysFunc → SysHandle) (call : LibCall)
    (args : SyscallArg) (next : Nat) (scratch : Registers) : Option Cpu :=
  if call.Enters then c.sysCall code handlers (call.args args) next scratch
  else some { c with regs := { c.regs with eax := 0, eip := next } }

/-- The bytes of the kernel stack that belong to the call are the same. -/
def StackKept (c : Cpu) (m m' : Memory) : Prop :=
  ∀ x, c.esp0 - 96 ≤ x → x < c.esp0 → m' x = m x

theorem InSyscall.kept {m' : Memory} (h : c.InSyscall code args next m) (hu : c.User code)
    (hkept : c.StackKept m m') :
  WordsAt m' (c.esp0 - 96) [code.handled, c.esp0 - 88] ∧ WordsAt m' (c.esp0 - 88)
    (frameWords { c.regs with eip := next, esp := c.regs.esp - 20 } (c.esp0 - 36) args)
  := by
  have hlow := hu.esp0_low
  constructor
  · apply h.call.congr
    intro x hx hx'
    rw [show [code.handled, c.esp0 - 88].length = 2 from rfl] at hx'
    apply hkept x hx (by omega)
  · apply h.frame.congr
    intro x hx hx'
    rw [length_frameWords] at hx'
    apply hkept x (by omega) (by omega)

/-- A call whose handler keeps the frame up to the value returned. -/
theorem sysCall_returns {ret : Nat} {os : Os} {handlers : SysFunc → SysHandle}
    {scratch : Registers} (hu : c.User code) (hm : c.InSyscall code args next m)
    (hreaches : ∀ {os : Os} {r : Registers} {dummy : Nat} {args' : SyscallArg},
      doHandlerSyscall handlers (c.osWith m) (c.esp0 - 88) = some os →
      WordsAt os.kernel.mem (c.esp0 - 96) [code.handled, c.esp0 - 88] →
      WordsAt os.kernel.mem (c.esp0 - 88) (frameWords r dummy args') → r.cs % 4 = 3 →
      c.sysCall code handlers args next scratch
        = some { regs := { r with esp := u32 (r.esp + 20) }, os := os })
    (hret : ret < 2 ^ 32) (hkept : c.StackKept m os.kernel.mem)
    (hdo : doHandlerSyscall handlers (c.osWith m) (c.esp0 - 88)
      = some { os with kernel := os.kernel.store (c.esp0 - 88 + 48) ret }) :
  c.sysCall code handlers args next scratch = some
    { regs := { c.regs with eax := ret, eip := next }
      os := { os with kernel := os.kernel.store (c.esp0 - 40) ret } }
  := by
  have hlow := hu.esp0_low
  have huser := hu.stack.user
  unfold memoryTaskBase at huser
  have hesp : c.regs.esp < 2 ^ 32 := hu.words _ (by simp [Registers.words])
  obtain ⟨hcall, hframe⟩ := hm.kept hu hkept
  have hcall' : WordsAt (store32 os.kernel.mem (c.esp0 - 88 + 48) ret) (c.esp0 - 96)
      [code.handled, c.esp0 - 88] := by
    apply hcall.congr
    intro x _ hx
    rw [show [code.handled, c.esp0 - 88].length = 2 from rfl] at hx
    apply store32_of_disjoint
    omega
  have hframe' : WordsAt (store32 os.kernel.mem (c.esp0 - 88 + 48) ret) (c.esp0 - 88)
      (frameWords { c.regs with eip := next, esp := c.regs.esp - 20, eax := ret } (c.esp0 - 36)
        args) :=
    hframe.set (i := 12) (by rw [length_frameWords]; decide) hret
  rw [hreaches hdo hcall' hframe' hu.cpl, show c.esp0 - 88 + 48 = c.esp0 - 40 by omega]
  dsimp only
  rw [Nat.sub_add_cancel (by omega), u32_of_lt hesp]

/-- A call of the library runs the function of the system that it is meant for, with the words it
was given, and the program goes on behind the call with the value returned; its other registers
are as they were. -/
theorem libCall_returns (hu : c.User code) (call : LibCall) (henters : call.Enters)
    (args : SyscallArg) (hargs : ∀ w ∈ (call.args args).words, w < 2 ^ 32) (hnext : next < 2 ^ 32)
    (handlers : SysFunc → SysHandle) (scratch : Registers) :
  ∃ m a₀ a₁ a₂ a₃, c.InSyscall code (call.args args) next m ∧ call.params <+: [a₀, a₁, a₂, a₃] ∧
    ∀ ret os, handlers call.func a₀ a₁ a₂ a₃ (c.osWith m) = some (ret, os) → ret < 2 ^ 32 →
    c.StackKept m os.kernel.mem →
    c.libCall code handlers call args next scratch = some
      { regs := { c.regs with eax := ret, eip := next }
        os := { os with kernel := os.kernel.store (c.esp0 - 40) ret } }
  := by
  obtain ⟨m, hm, hreaches⟩ := sysCall_reaches hu hargs hnext handlers scratch
  refine ⟨m, _, _, _, _, hm, call.params_prefix args, ?_⟩
  intro ret os hhandler hret hkept
  rw [libCall, if_pos henters]
  apply sysCall_returns hu hm hreaches hret hkept
  have hdo := doHandlerSyscall_eq handlers (s := c.osWith m) hm.frame
  rw [hdo, call.sysTable_args args]
  dsimp only
  rw [hhandler]
  rfl

end Cpu

/-! ### A program to start with -/

-- the kernel of the program is not to be evaluated
attribute [local irreducible] Kernel.stackKernel

/-- A program of the first task, with its stack in the page. -/
def caller : Cpu where
  regs :=
    { eax := 1
      ecx := 2
      edx := 3
      ebx := 4
      esp := 0x80001000
      ebp := 5
      esi := 6
      edi := 7
      eip := 0x80000000
      eflags := 0x202
      cs := 3
      ss := 3
      ds := 3
      es := 3
      fs := 3
      gs := 3 }
  os := { Os.withStack with gdt := gdtInit (fun _ => {}) 0x10000 }

def callerCode : KernelCode where
  exceptionHandleSyscall := 0x10000
  exceptionHandleSyscall_lt := by decide
  handled := 0x10010
  handled_lt := by decide

namespace Cpu

open Kernel

theorem users_caller :
  Os.Users caller.os {0x102000} {.firstTask}
  := by
  have husers := Os.users_withStack
  exact husers.keep (.refl _ _) husers.toGuarded rfl fun _ _ => rfl

theorem currPageDir_caller :
  caller.os.currPageDir = 0x102000
  := by
  change (Os.firstUser.tasks.task .firstTask).tss.cr3 = _
  rw [Os.tss_firstUser]

theorem cr3_caller :
  caller.os.kernel.cr3 = caller.os.currPageDir
  := by
  rw [currPageDir_caller, show caller.os.kernel = stackKernel from rfl, built_stackKernel.1.cr3]
  rfl

theorem esp0_caller :
  caller.esp0 = 0x102000
  := by
  change (Os.firstUser.tasks.task .firstTask).tss.esp0 = _
  rw [Os.tss_firstUser]

theorem present_caller :
  Present (pteAt caller.mem caller.os.currPageDir 524288)
  := by
  have hmem : 524288 ∈ userPages stackKernel.mem 0x102000 := by
    rw [built_stackKernel.2.1]
    exact List.mem_cons_self
  rw [currPageDir_caller]
  exact (mem_presentPages.mp hmem).2

theorem user_caller :
  caller.User callerCode
  := by
  constructor
  · rfl
  · decide
  · exact kernelDescs_gdtInit (fun _ => {}) (show 0x10000 < 2 ^ 32 by decide)
  · rw [cr3_caller]
    apply users_caller.toFrames.window currPageDir_caller
    · decide
    · decide
    · intro v hv
      obtain ⟨hle, hlt⟩ := hv
      have hlast : caller.regs.esp = 0x80001000 := rfl
      rw [hlast] at hle hlt
      rw [show v = 524288 by omega]
      exact present_caller
  · rw [esp0_caller]
    decide
  · rw [esp0_caller]
    decide

/-- The program writes three bytes to a file. -/
theorem libCall_write_caller :
  ∃ os, caller.libCall callerCode (fun _ _ _ len _ s => some (len, s)) (.write 1 0x80000000 3)
    ⟨0, 0, 0, 0, 0⟩ 0x80000100 caller.regs
      = some { regs := { caller.regs with eax := 3, eip := 0x80000100 }, os := os }
  := by
  obtain ⟨m, a₀, a₁, a₂, a₃, -, hparams, hcall⟩ := libCall_returns user_caller (.write 1 0x80000000 3)
    trivial ⟨0, 0, 0, 0, 0⟩ (by decide) (show 0x80000100 < 2 ^ 32 by decide)
    (fun _ _ _ len _ s => some (len, s)) caller.regs
  obtain ⟨l, hl⟩ := hparams
  obtain rfl : 3 = a₂ := (List.cons.inj (List.cons.inj (List.cons.inj hl).2).2).1
  exact ⟨_, hcall 3 _ rfl (by decide) fun _ _ _ => rfl⟩

end Cpu

end Dmos
