import Dmos.Entry.Syscall

/-!
# Exceptions and interrupts

The table of gates that `irq_init` sets up, with the gates of the timer and of the keyboard that
are installed later, leads every vector to a piece of `kernel.S` (the macro `exception_handler`),
which completes a frame on the stack of the kernel and calls a function in C.  A function that
keeps the frame returns to the code that was interrupted, in a program or in the kernel, with all
registers as they were (`interrupt_returns`).
-/

open ByteMemory BitFields

namespace Dmos

/-! ### The table of gates -/

/-- The names that the macro `exception_handler` is used with. -/
inductive ExceptionName where
  | unknown
  | divider
  | debug
  | nmi
  | breakpoint
  | overflow
  | boundRange
  | invalidOpcode
  | deviceUnavailable
  | doubleFault
  | invalidTss
  | segmentNotPresent
  | stackSegmentFault
  | generalProtection
  | pageFault
  | fpuError
  | alignmentCheck
  | machineCheck
  | smdException
  | virtualException
  | time
  | kbd
  deriving DecidableEq

namespace ExceptionName

/-- The second argument of the macro, as a word. -/
def num : ExceptionName → Nat
  | .unknown => errorWord
  | .divider => 0
  | .debug => 1
  | .nmi => 2
  | .breakpoint => 3
  | .overflow => 4
  | .boundRange => 5
  | .invalidOpcode => 6
  | .deviceUnavailable => 7
  | .doubleFault => 8
  | .invalidTss => 10
  | .segmentNotPresent => 11
  | .stackSegmentFault => 12
  | .generalProtection => 13
  | .pageFault => 14
  | .fpuError => 16
  | .alignmentCheck => 17
  | .machineCheck => 18
  | .smdException => 19
  | .virtualException => 20
  | .time => 0x20
  | .kbd => 0x21

/-- The third argument of the macro. -/
def withErrorCode : ExceptionName → Bool
  | .doubleFault | .invalidTss | .segmentNotPresent | .stackSegmentFault | .generalProtection
  | .pageFault | .alignmentCheck => true
  | _ => false

/-- The words that the macro pushes first: an error code if the processor has pushed none. -/
def words (name : ExceptionName) : List Nat :=
  (if name.withErrorCode then [] else [0]) ++ [name.num]

end ExceptionName

abbrev idtTableNr : Nat := 128

/-- The gates at all vectors; those below `idtTableNr` are the table. -/
abbrev Idt : Type :=
  Nat → GateDesc

abbrev gateAttrIdt : Nat := gatePPresent ||| gateDpl0 ||| gateTypeIdt

def irqInstall (idt : Idt) (irqNum handler : Nat) : Idt :=
  if idtTableNr ≤ irqNum then idt
  else Function.update idt irqNum (gateDescSet kernelSelectorCs handler gateAttrIdt)

/-- The names that `irq_init` installs, in its order. -/
def exceptionNames : List ExceptionName :=
  [.divider, .debug, .nmi, .breakpoint, .overflow, .boundRange, .invalidOpcode,
    .deviceUnavailable, .doubleFault, .invalidTss, .segmentNotPresent, .stackSegmentFault,
    .generalProtection, .pageFault, .fpuError, .alignmentCheck, .machineCheck, .smdException,
    .virtualException]

/-- `irq_init` with the addresses of the pieces of code. -/
def irqInit (idt : Idt) (entry : ExceptionName → Nat) : Idt :=
  let idt := (List.range idtTableNr).foldl (fun idt i =>
    Function.update idt i (gateDescSet kernelSelectorCs (entry .unknown) gateAttrIdt)) idt
  exceptionNames.foldl (fun idt name => irqInstall idt name.num (entry name)) idt

/-- With the gates that `pit_init` and `kbd_init` install. -/
def idtBooted (idt : Idt) (entry : ExceptionName → Nat) : Idt :=
  irqInstall (irqInstall (irqInit idt entry) ExceptionName.time.num (entry .time))
    ExceptionName.kbd.num (entry .kbd)

/-- All names that are installed. -/
def installedNames : List ExceptionName :=
  exceptionNames ++ [.time, .kbd]

/-- The name that a vector leads to. -/
def exceptionName (vector : Nat) : ExceptionName :=
  (installedNames.find? fun name => name.num = vector).getD .unknown

/-! ### What is installed -/

variable {entry : ExceptionName → Nat} {vector : Nat}

theorem irqInstall_apply (idt : Idt) {irqNum : Nat} (handler : Nat) (h : irqNum < idtTableNr) :
  irqInstall idt irqNum handler vector
    = if vector = irqNum then gateDescSet kernelSelectorCs handler gateAttrIdt else idt vector
  := by rw [irqInstall, if_neg (by omega), Function.update_apply]

theorem unknown_foldl (idt : Idt) (n : Nat) (h : vector < n) :
  (List.range n).foldl (fun idt i =>
    Function.update idt i (gateDescSet kernelSelectorCs (entry .unknown) gateAttrIdt)) idt vector
    = gateDescSet kernelSelectorCs (entry .unknown) gateAttrIdt
  := by
  induction n with
  | zero => cases h
  | succ n ih =>
      rw [List.range_succ, List.foldl_append, List.foldl_cons, List.foldl_nil,
        Function.update_apply]
      split_ifs with heq
      · rfl
      · apply ih (by omega)

/-- Installing names one after the other. -/
theorem install_foldl (idt : Idt) {names : List ExceptionName}
    (hdistinct : (names.map ExceptionName.num).Nodup)
    (hnum : ∀ name ∈ names, name.num < idtTableNr) :
  names.foldl (fun idt name => irqInstall idt name.num (entry name)) idt vector
    = match names.find? fun name => name.num = vector with
      | some name => gateDescSet kernelSelectorCs (entry name) gateAttrIdt
      | none => idt vector
  := by
  induction names generalizing idt with
  | nil => rfl
  | cons name names ih =>
      rw [List.map_cons, List.nodup_cons] at hdistinct
      rw [List.foldl_cons, ih _ hdistinct.2 fun name hname =>
        hnum name (List.mem_cons_of_mem _ hname), List.find?_cons,
        irqInstall_apply _ _ (hnum name List.mem_cons_self)]
      by_cases heq : name.num = vector
      · have hnone : names.find? (fun name => name.num = vector) = none := by
          rw [List.find?_eq_none]
          intro name' hname' heq'
          apply hdistinct.1
          rw [heq, ← of_decide_eq_true heq']
          exact List.mem_map_of_mem hname'
        rw [hnone, decide_eq_true heq, if_pos heq.symm]
      · rw [decide_eq_false heq, if_neg (fun h => heq h.symm)]

theorem idtBooted_apply (idt : Idt) (h : vector < idtTableNr) :
  idtBooted idt entry vector
    = gateDescSet kernelSelectorCs (entry (exceptionName vector)) gateAttrIdt
  := by
  have hbooted : idtBooted idt entry = installedNames.foldl
      (fun idt name => irqInstall idt name.num (entry name))
      ((List.range idtTableNr).foldl (fun idt i =>
        Function.update idt i (gateDescSet kernelSelectorCs (entry .unknown) gateAttrIdt)) idt) := by
    rw [installedNames, List.foldl_append]
    rfl
  rw [hbooted, install_foldl _ (by decide) (by decide), exceptionName, unknown_foldl idt _ h]
  cases installedNames.find? fun name => name.num = vector with
  | none => rfl
  | some name => rfl

/-! ### Entering and leaving -/

/-- The vectors at which the processor pushes an error code. -/
def pushesErrorCode (vector : Nat) : Bool :=
  vector = 8 ∨ (10 ≤ vector ∧ vector ≤ 14) ∨ vector = 17

/-- The flags that an interrupt clears: IF, and TF, NT, RF and VM. -/
abbrev interruptFlags : Nat := eflagsIf ||| 0x34100

/-- The pieces of code that the macro makes, and where each goes on after the call in it. -/
structure ExceptionCode where
  entry : ExceptionName → Nat
  entry_lt : ∀ name, entry name < 2 ^ 32
  name : Nat → Option ExceptionName
  name_entry : ∀ n, name (entry n) = some n
  handled : ExceptionName → Nat
  handled_lt : ∀ name, handled name < 2 ^ 32

/-- The pieces of code, one after the other. -/
def callerExceptions : ExceptionCode where
  entry name := 0x20000 + 64 * (name.num % 64)
  entry_lt name := by cases name <;> decide
  name n := (.unknown :: installedNames).find? fun name => 0x20000 + 64 * (name.num % 64) = n
  name_entry name := by cases name <;> rfl
  handled name := 0x20020 + 64 * (name.num % 64)
  handled_lt name := by cases name <;> decide

namespace Cpu

/-- An exception or an interrupt, through the gate at its vector. -/
def interrupt (c : Cpu) (idt : Idt) (vector errCode : Nat) : Option Cpu :=
  let gate := Gate.ofWord (ofBytes (idt vector).bytes)
  let tss := (c.os.tasks.task c.os.tasks.currTask).tss
  if gate.present = 1 ∧ gate.type = 0xE then do
    let old := c.regs
    let c ← if segDpl (c.os.gdt (gate.selector / 8)) < c.cpl then
        ({ c with regs := { c.regs with ss := tss.ss0, esp := tss.esp0 } } : Cpu).pushAll
          [old.ss, old.esp]
      else some c
    let c ← c.pushAll
      ([old.eflags, old.cs, old.eip] ++ if pushesErrorCode vector then [errCode] else [])
    some { c with regs := { c.regs with
      cs := gate.selector
      eip := gate.offset
      eflags := old.eflags &&& (0xFFFFFFFF ^^^ interruptFlags) } }
  else none

/-- The macro `exception_handler` up to the call. -/
def exceptionHandler.enter (c : Cpu) (name : ExceptionName) : Option Cpu := do
  let c ← c.pushAll name.words
  let r := c.regs
  let c ← c.pusha
  let c ← c.pushAll [r.ds, r.es, r.fs, r.gs]
  c.push c.regs.esp

/-- The macro `exception_handler` from the call on. -/
def exceptionHandler.leave (c : Cpu) : Option Cpu := do
  let (gs, c) ← c.pop
  let (fs, c) ← c.pop
  let (es, c) ← c.pop
  let (ds, c) ← c.pop
  let c : Cpu := { c with regs := { c.regs with gs := gs, fs := fs, es := es, ds := ds } }
  let c ← c.popa
  iret { c with regs := { c.regs with esp := u32 (c.regs.esp + 2 * 4) } }

def exceptionHandler (c : Cpu) (name : ExceptionName) (code : ExceptionCode)
    (handle : Os → Nat → Option Os) (scratch : Registers) : Option Cpu := do
  let c ← exceptionHandler.enter c name
  let c ← c.call handle (code.handled name) scratch
  exceptionHandler.leave { c with regs := { c.regs with esp := u32 (c.regs.esp + 1 * 4) } }

/-- An interrupt up to the return from it. -/
def takeInterrupt (c : Cpu) (code : ExceptionCode) (idt : Idt)
    (handlers : ExceptionName → Os → Nat → Option Os) (vector errCode : Nat)
    (scratch : Registers) : Option Cpu := do
  let c ← c.interrupt idt vector errCode
  let name ← code.name c.regs.eip
  c.exceptionHandler name code (handlers name) scratch

/-! ### Frames -/

/-- The words of the stack pointer and its segment, in the frame of a program that was
interrupted. -/
def outerWords (r : Registers) : List Nat :=
  if r.cs % 4 = 0 then [] else [r.esp, r.ss]

/-- `exception_frame_t`, by the registers that it brings back. -/
def exceptionWords (r : Registers) (dummy num errCode : Nat) : List Nat :=
  [r.gs, r.fs, r.es, r.ds, r.edi, r.esi, r.ebp, dummy, r.ebx, r.edx, r.ecx, r.eax, num, errCode,
    r.eip, r.cs, r.eflags] ++ outerWords r

variable {c : Cpu} {r : Registers} {dummy num errCode errCode' frame : Nat}

/-- A return to a program. -/
theorem iret_outer {esp : Nat}
    (h : WordsAt c.mem esp [r.eip, r.cs, r.eflags, r.esp, r.ss])
    (hhigh : esp + 20 ≤ memoryTaskBase) (hcpl : c.cpl < r.cs % 4) :
  (c.setEsp esp).iret = some { c with
    regs := { c.regs with
      eip := r.eip
      cs := r.cs
      eflags := r.eflags
      esp := r.esp
      ss := r.ss } }
  := by
  rw [iret, pop_setEsp h (by omega)]
  simp only [Option.bind_eq_bind, Option.bind_some]
  rw [pop_setEsp h.2 (by omega)]
  simp only [Option.bind_some]
  rw [pop_setEsp h.2.2 (by omega)]
  simp only [Option.bind_some]
  let d : Cpu :=
    { c with regs := { c.regs with eip := r.eip, cs := r.cs, eflags := r.eflags } }
  have hd : WordsAt d.mem (esp + 4 + 4 + 4) [r.esp, r.ss] := h.2.2.2
  rw [show (c.setEsp esp).cpl = c.cpl from rfl, if_pos hcpl]
  change (d.setEsp (esp + 4 + 4 + 4)).pop.bind _ = _
  rw [pop_setEsp hd (by omega)]
  simp only [Option.bind_some]
  rw [pop_setEsp hd.2 (by omega)]
  rfl

/-- A return to the kernel. -/
theorem iret_inner {esp : Nat} (h : WordsAt c.mem esp [r.eip, r.cs, r.eflags])
    (hhigh : esp + 12 ≤ memoryTaskBase) (hcpl : r.cs % 4 = 0) :
  (c.setEsp esp).iret = some { c with
    regs := { c.regs with eip := r.eip, cs := r.cs, eflags := r.eflags, esp := esp + 12 } }
  := by
  rw [iret, pop_setEsp h (by omega)]
  simp only [Option.bind_eq_bind, Option.bind_some]
  rw [pop_setEsp h.2 (by omega)]
  simp only [Option.bind_some]
  rw [pop_setEsp h.2.2 (by omega)]
  simp only [Option.bind_some]
  rw [if_neg (by omega)]
  rfl

/-- The registers come back from the frame. -/
theorem leaveException_setEsp (h : WordsAt c.mem frame (exceptionWords r dummy num errCode))
    (hhigh : frame + 68 + 4 * (outerWords r).length ≤ memoryTaskBase) (hcpl : c.cpl = 0) :
  exceptionHandler.leave (c.setEsp frame) = some
    { regs := { r with
        esp := if r.cs % 4 = 0 then frame + 68 else r.esp
        ss := if r.cs % 4 = 0 then c.regs.ss else r.ss }
      os := c.os }
  := by
  have hsplit : exceptionWords r dummy num errCode
      = [r.gs, r.fs, r.es, r.ds]
        ++ ([r.edi, r.esi, r.ebp, dummy, r.ebx, r.edx, r.ecx, r.eax]
          ++ ([num, errCode] ++ ([r.eip, r.cs, r.eflags] ++ outerWords r))) := rfl
  rw [hsplit] at h
  obtain ⟨hsegs, hrest⟩ := wordsAt_append.mp h
  obtain ⟨hgeneral, hrest⟩ := wordsAt_append.mp hrest
  have hreturn : WordsAt c.mem (frame + 56) ([r.eip, r.cs, r.eflags] ++ outerWords r) :=
    (wordsAt_append.mp hrest).2
  rw [exceptionHandler.leave, pop_setEsp hsegs (by omega)]
  simp only [Option.bind_eq_bind, Option.bind_some]
  rw [pop_setEsp hsegs.2 (by omega)]
  simp only [Option.bind_some]
  rw [pop_setEsp hsegs.2.2 (by omega)]
  simp only [Option.bind_some]
  rw [pop_setEsp hsegs.2.2.2 (by omega)]
  simp only [Option.bind_some]
  let d : Cpu := { c with
    regs := { c.regs with gs := r.gs, fs := r.fs, es := r.es, ds := r.ds } }
  have hd : WordsAt d.mem (frame + 16) [r.edi, r.esi, r.ebp, dummy, r.ebx, r.edx, r.ecx, r.eax] :=
    hgeneral
  change (d.setEsp (frame + 16)).popa.bind _ = _
  rw [popa_setEsp hd (by omega), Option.bind_some]
  dsimp only
  rw [u32_of_lt (by unfold memoryTaskBase at hhigh; omega)]
  let e : Cpu := { d with
    regs := { d.regs with
      edi := r.edi
      esi := r.esi
      ebp := r.ebp
      ebx := r.ebx
      edx := r.edx
      ecx := r.ecx
      eax := r.eax } }
  change (e.setEsp (frame + 56)).iret = _
  have he : e.cpl = 0 := hcpl
  by_cases hcs : r.cs % 4 = 0
  · rw [iret_inner (c := e) (wordsAt_append.mp hreturn).1 (by omega) hcs, if_pos hcs, if_pos hcs]
  · have hwords : WordsAt e.mem (frame + 56) [r.eip, r.cs, r.eflags, r.esp, r.ss] := by
      rw [outerWords, if_neg hcs] at hreturn
      exact hreturn
    rw [outerWords, if_neg hcs] at hhigh
    rw [iret_outer hwords (by simp only [List.length] at hhigh; omega) (by omega), if_neg hcs,
      if_neg hcs]

/-! ### The way into the kernel -/

/-- Where the kernel's stack ends when an interrupt comes: a program has the whole stack of its
task. -/
def top (c : Cpu) : Nat :=
  if c.cpl = 0 then c.regs.esp else c.esp0

/-- The processor on that stack. -/
def onKernelStack (c : Cpu) : Cpu :=
  if c.cpl = 0 then c
  else { c with regs := { c.regs with ss := (c.os.tasks.task c.os.tasks.currTask).tss.ss0 } }

/-- Room on the stack, and the kernel's code at its privilege. -/
structure Interruptible (c : Cpu) : Prop where
  words : ∀ w ∈ c.regs.words, w < 2 ^ 32
  dpl : segDpl (c.os.gdt 1) = 0
  top_low : 84 ≤ c.top
  top_high : c.top ≤ memoryTaskBase

/-- The error code in a frame. -/
def frameError (vector errCode : Nat) : Nat :=
  if pushesErrorCode vector then errCode else 0

/-- The frame of an interrupt. -/
def frameAt (c : Cpu) : Nat :=
  c.top - (68 + 4 * (outerWords c.regs).length)

/-- The words of the processor, the first one first. -/
def processorWords (c : Cpu) (vector errCode : Nat) : List Nat :=
  (outerWords c.regs).reverse ++ ([c.regs.eflags, c.regs.cs, c.regs.eip]
    ++ if pushesErrorCode vector then [errCode] else [])

/-- The words of the macro up to the call, from the stack pointer on. -/
def macroWords (r : Registers) (name : ExceptionName) (esp : Nat) : List Nat :=
  name.words ++ generalWords r (esp - 4 * name.words.length) ++ [r.ds, r.es, r.fs, r.gs]

variable {code : ExceptionCode} {vector : Nat} {m : Memory}

/-- The macro pushes an error code where the processor does not. -/
theorem withErrorCode_exceptionName :
  ∀ v < idtTableNr, (exceptionName v).withErrorCode = pushesErrorCode v
  := by decide +kernel

theorem length_outerWords_le (r : Registers) :
  (outerWords r).length ≤ 2
  := by
  unfold outerWords
  split_ifs
  · exact Nat.zero_le 2
  · exact le_refl 2

theorem pushAll_append (c : Cpu) (ws ws' : List Nat) :
  c.pushAll (ws ++ ws') = (c.pushAll ws).bind fun c => c.pushAll ws'
  := by
  induction ws generalizing c with
  | nil => rfl
  | cons w ws ih =>
      rw [List.cons_append, pushAll, pushAll, Option.bind_assoc]
      congr 1
      funext c
      apply ih

/-- The processor when the code at the gate starts. -/
def atHandler (c : Cpu) (entry : Nat) : Cpu :=
  { c.onKernelStack with
    regs := { c.onKernelStack.regs with
      cs := kernelSelectorCs
      eip := entry
      eflags := c.regs.eflags &&& (0xFFFFFFFF ^^^ interruptFlags) } }

theorem length_processorWords (c : Cpu) (vector errCode : Nat) :
  (c.processorWords vector errCode).length
    = (outerWords c.regs).length + 3 + if pushesErrorCode vector then 1 else 0
  := by
  rw [processorWords, List.length_append, List.length_append, List.length_reverse, Nat.add_assoc]
  cases pushesErrorCode vector <;> rfl

/-- An interrupt through a gate of the kernel. -/
theorem interrupt_eq {idt : Idt} {entry errCode : Nat} (hc : c.Interruptible)
    (hgate : idt vector = gateDescSet kernelSelectorCs entry gateAttrIdt)
    (hentry : entry < 2 ^ 32) :
  c.interrupt idt vector errCode = some ((c.atHandler entry).setStack
    (c.top - 4 * (c.processorWords vector errCode).length)
    (pushWords c.mem c.top (c.processorWords vector errCode)))
  := by
  have hlow := hc.top_low
  have hlength : 4 * (c.processorWords vector errCode).length ≤ c.top := by
    have houter := length_outerWords_le c.regs
    rw [length_processorWords]
    split_ifs <;> omega
  have hword : Gate.ofWord (ofBytes (idt vector).bytes) =
      { offset := entry, selector := kernelSelectorCs, paramCount := 0, type := 0xE, dpl := 0,
        present := 1 } := by
    rw [hgate, gate_gateDescSet (by decide) hentry (by decide)]
    rfl
  have hpush := pushAll_setStack (c := c.onKernelStack) (m := c.mem) _ hlength hc.top_high
  have hcpl : c.cpl = c.regs.cs % 4 := rfl
  rw [interrupt]
  dsimp only
  rw [hword, if_pos ⟨rfl, rfl⟩, show kernelSelectorCs / 8 = 1 from rfl, hc.dpl]
  by_cases h : c.cpl = 0
  · have hwords : c.processorWords vector errCode = [c.regs.eflags, c.regs.cs, c.regs.eip]
        ++ if pushesErrorCode vector then [errCode] else [] := by
      rw [processorWords, outerWords, if_pos (hcpl ▸ h)]
      rfl
    rw [if_neg (by omega), Option.bind_eq_bind, Option.bind_some, ← hwords]
    rw [top, if_pos h, onKernelStack, if_pos h] at hpush
    change ((c.setStack c.regs.esp c.mem).pushAll _).bind _ = _
    rw [hpush, Option.bind_some, top, if_pos h, atHandler, onKernelStack, if_pos h]
    rfl
  · have hwords : c.processorWords vector errCode = [c.regs.ss, c.regs.esp]
        ++ ([c.regs.eflags, c.regs.cs, c.regs.eip]
          ++ if pushesErrorCode vector then [errCode] else []) := by
      rw [processorWords, outerWords, if_neg (hcpl ▸ h)]
      rfl
    rw [if_pos (by omega), Option.bind_eq_bind]
    rw [top, if_neg h, onKernelStack, if_neg h] at hpush
    rw [hwords, pushAll_append, ← hwords] at hpush
    rw [← Option.bind_assoc]
    let d : Cpu :=
      { c with regs := { c.regs with ss := (c.os.tasks.task c.os.tasks.currTask).tss.ss0 } }
    change (((d.setStack c.esp0 c.mem).pushAll [c.regs.ss, c.regs.esp]).bind _).bind _ = _
    rw [hpush, Option.bind_some, top, if_neg h, atHandler, onKernelStack, if_neg h]
    rfl

theorem length_words (name : ExceptionName) :
  name.words.length = 1 + if name.withErrorCode then 0 else 1
  := by
  unfold ExceptionName.words
  cases name.withErrorCode <;> rfl

theorem length_macroWords (r : Registers) (name : ExceptionName) (esp : Nat) :
  (macroWords r name esp).length = name.words.length + 12
  := by
  rw [macroWords, List.length_append, List.length_append]
  rfl

theorem enterException_setStack {esp : Nat} (name : ExceptionName) (hlow : 60 ≤ esp)
    (hhigh : esp ≤ memoryTaskBase) :
  exceptionHandler.enter (c.setStack esp m) name = some
    (c.setStack (esp - 4 * (macroWords c.regs name esp).length - 4)
      (pushWords m esp (macroWords c.regs name esp
        ++ [esp - 4 * (macroWords c.regs name esp).length])))
  := by
  have hle : name.words.length ≤ 2 := by
    rw [length_words]
    split_ifs <;> omega
  have hgeneral : (generalWords c.regs (esp - 4 * name.words.length)).length = 8 := rfl
  have hsegs : [c.regs.ds, c.regs.es, c.regs.fs, c.regs.gs].length = 4 := rfl
  have hend : esp - 4 * name.words.length - 32 - 4 * 4 = esp - 4 * (name.words.length + 12) := by
    omega
  rw [length_macroWords, exceptionHandler.enter, Option.bind_eq_bind,
    pushAll_setStack _ (by omega) hhigh, Option.bind_some]
  dsimp only
  rw [pusha_setStack (by omega) (by omega), Option.bind_some, setStack_regs,
    pushAll_setStack _ (by simp only [List.length]; omega) (by omega), Option.bind_some,
    hsegs, setStack_regs]
  dsimp only
  rw [hend, push_setStack _ (by omega) (by omega), pushWords_append _ _ (macroWords c.regs name esp),
    length_macroWords, macroWords, pushWords_append, pushWords_append, List.length_append, hgeneral,
    show esp - 4 * (name.words.length + 8) = esp - 4 * name.words.length - 32 by omega]
  rfl

/-- The words of the processor and of the macro are those of the frame. -/
theorem processorWords_macroWords {name : ExceptionName} (entry : Nat)
    (hname : name.withErrorCode = pushesErrorCode vector) (errCode : Nat) :
  c.processorWords vector errCode ++ macroWords (c.atHandler entry).regs name
      (c.top - 4 * (c.processorWords vector errCode).length)
    = (exceptionWords c.regs (c.top - 4 * ((outerWords c.regs).length + 5)) name.num
      (frameError vector errCode)).reverse
  := by
  have hregs : (macroWords (c.atHandler entry).regs name
      (c.top - 4 * (c.processorWords vector errCode).length))
      = macroWords c.regs name (c.top - 4 * (c.processorWords vector errCode).length) := by
    unfold atHandler onKernelStack
    split_ifs <;> rfl
  rw [hregs, length_processorWords, processorWords, macroWords, ExceptionName.words, hname,
    exceptionWords, frameError, List.reverse_append]
  cases pushesErrorCode vector with
  | true =>
      rw [List.append_assoc]
      rfl
  | false =>
      rw [List.append_assoc]
      rfl

/-- The memory when the handler of an interrupt starts. -/
structure InInterrupt (c : Cpu) (code : ExceptionCode) (vector errCode : Nat) (m : Memory) :
    Prop where
  frame : WordsAt m c.frameAt (exceptionWords c.regs (c.top - 4 * ((outerWords c.regs).length + 5))
    (exceptionName vector).num (frameError vector errCode))
  call : WordsAt m (c.frameAt - 8) [code.handled (exceptionName vector), c.frameAt]
  unchanged : ∀ x, x < c.frameAt - 8 ∨ c.top ≤ x → m x = c.mem x

/-- The bytes of the kernel's stack that belong to an interrupt are the same. -/
def FrameKept (c : Cpu) (m m' : Memory) : Prop :=
  ∀ x, c.frameAt - 8 ≤ x → x < c.top → m' x = m x

/-- All words of an interrupt up to the handler. -/
def interruptWords (c : Cpu) (code : ExceptionCode) (vector errCode : Nat) : List Nat :=
  (exceptionWords c.regs (c.top - 4 * ((outerWords c.regs).length + 5))
    (exceptionName vector).num (frameError vector errCode)).reverse
    ++ [c.frameAt, code.handled (exceptionName vector)]

theorem length_exceptionWords (r : Registers) (dummy num errCode : Nat) :
  (exceptionWords r dummy num errCode).length = 17 + (outerWords r).length
  := by
  rw [exceptionWords, List.length_append]
  rfl

theorem exceptionWords_lt (hr : ∀ w ∈ r.words, w < 2 ^ 32) (hdummy : dummy < 2 ^ 32)
    (hnum : num < 2 ^ 32) (herr : errCode < 2 ^ 32) :
  ∀ w ∈ exceptionWords r dummy num errCode, w < 2 ^ 32
  := by
  simp only [Registers.words, List.forall_mem_cons] at hr
  intro w hw
  rw [exceptionWords, List.mem_append] at hw
  rcases hw with hw | hw
  · revert w
    simp only [List.forall_mem_cons]
    tauto
  · unfold outerWords at hw
    split_ifs at hw
    · cases hw
    · rcases List.mem_cons.mp hw with rfl | hw
      · tauto
      · obtain rfl := List.mem_singleton.mp hw
        tauto

theorem num_lt (name : ExceptionName) :
  name.num < 2 ^ 32
  := by cases name <;> decide

theorem inInterrupt_pushWords {errCode : Nat} (code : ExceptionCode) (vector : Nat)
    (hc : c.Interruptible) (herr : errCode < 2 ^ 32) :
  c.InInterrupt code vector errCode (pushWords c.mem c.top (c.interruptWords code vector errCode))
  := by
  have hlow := hc.top_low
  have hhigh := hc.top_high
  have houter := length_outerWords_le c.regs
  have hlength : (c.interruptWords code vector errCode).length
      = 19 + (outerWords c.regs).length := by
    rw [interruptWords, List.length_append, List.length_reverse, length_exceptionWords,
      show [c.frameAt, code.handled (exceptionName vector)].length = 2 from rfl]
    omega
  have hlt : ∀ w ∈ c.interruptWords code vector errCode, w < 2 ^ 32 := by
    unfold memoryTaskBase at hhigh
    intro w hw
    rcases List.mem_append.mp hw with hw | hw
    · apply exceptionWords_lt hc.words (by omega) (num_lt _) _ w (List.mem_reverse.mp hw)
      unfold frameError
      split_ifs
      · exact herr
      · decide
    · have hhandled := code.handled_lt (exceptionName vector)
      simp only [frameAt, List.mem_cons, List.not_mem_nil, or_false] at hw
      omega
  have hroom : 4 * (c.interruptWords code vector errCode).length ≤ c.top := by omega
  have hall := wordsAt_pushWords c.mem hroom hlt
  have hstart : c.top - 4 * (c.interruptWords code vector errCode).length = c.frameAt - 8 := by
    rw [hlength, frameAt]
    omega
  have hback : c.frameAt - 8 + 4 * 2 = c.frameAt := by
    unfold frameAt
    omega
  rw [hstart, interruptWords, List.reverse_append, List.reverse_reverse, wordsAt_append,
    ← interruptWords, List.length_reverse,
    show [c.frameAt, code.handled (exceptionName vector)].length = 2 from rfl, hback] at hall
  refine ⟨hall.2, hall.1, ?_⟩
  intro x hx
  apply pushWords_outside _ hroom (by omega)

theorem os_atHandler (c : Cpu) (entry : Nat) :
  (c.atHandler entry).os = c.os
  := by
  unfold atHandler onKernelStack
  split_ifs <;> rfl

theorem ss_atHandler (c : Cpu) (entry : Nat) (h : c.cpl = 0) :
  (c.atHandler entry).regs.ss = c.regs.ss
  := by
  unfold atHandler onKernelStack
  rw [if_pos h]

/-- The words of the processor leave the macro at the frame. -/
theorem top_sub_words (entry errCode : Nat) {name : ExceptionName} (hc : c.Interruptible)
    (hname : name.withErrorCode = pushesErrorCode vector) :
  4 * (c.processorWords vector errCode).length + 60 ≤ c.top
    ∧ c.top - 4 * (c.processorWords vector errCode).length
      - 4 * (macroWords (c.atHandler entry).regs name
        (c.top - 4 * (c.processorWords vector errCode).length)).length = c.frameAt
  := by
  have hlow := hc.top_low
  have houter := length_outerWords_le c.regs
  rw [length_macroWords, length_words, hname, length_processorWords, frameAt]
  cases pushesErrorCode vector
  · simp only [Bool.false_eq_true, if_false]
    omega
  · simp only [if_true]
    omega

/-- The handler that a vector leads to is called with the frame, and if the frame is kept the
interrupted code goes on. -/
theorem takeInterrupt_eq {handlers : ExceptionName → Os → Nat → Option Os} {os : Os}
    (idt : Idt) (hc : c.Interruptible) (hv : vector < idtTableNr) (scratch : Registers)
    (hhandler : handlers (exceptionName vector)
      (c.osWith (pushWords c.mem c.top (c.interruptWords code vector errCode))) c.frameAt = some os)
    (hcall : WordsAt os.kernel.mem (c.frameAt - 8)
      [code.handled (exceptionName vector), c.frameAt])
    (hframe : WordsAt os.kernel.mem c.frameAt (exceptionWords c.regs dummy num errCode')) :
  c.takeInterrupt code (idtBooted idt code.entry) handlers vector errCode scratch
    = some { regs := c.regs, os := os }
  := by
  let name := exceptionName vector
  have hname : name.withErrorCode = pushesErrorCode vector := withErrorCode_exceptionName vector hv
  have hlow := hc.top_low
  have hhigh := hc.top_high
  have houter := length_outerWords_le c.regs
  let d := c.atHandler (code.entry name)
  let esp := c.top - 4 * (c.processorWords vector errCode).length
  let m₁ := pushWords c.mem c.top (c.processorWords vector errCode)
  let m₂ := pushWords m₁ esp (macroWords d.regs name esp ++ [c.frameAt])
  obtain ⟨hroom, hframeAt⟩ := top_sub_words (code.entry name) errCode hc hname
  change esp - 4 * (macroWords d.regs name esp).length = c.frameAt at hframeAt
  have hframe_lt : c.frameAt < 2 ^ 32 := by
    unfold frameAt
    unfold memoryTaskBase at hhigh
    omega
  have hm₂ : m₂ = store32 (pushWords m₁ esp (macroWords d.regs name esp)) (c.frameAt - 4)
      c.frameAt := by
    unfold m₂
    rw [pushWords_append, hframeAt]
    rfl
  have hm : store32 m₂ (c.frameAt - 4 - 4) (code.handled name)
      = pushWords c.mem c.top (c.interruptWords code vector errCode) := by
    rw [interruptWords, ← processorWords_macroWords (code.entry name) hname,
      List.append_assoc, pushWords_append, pushWords_append, hm₂]
    change _ = pushWords (pushWords m₁ esp (macroWords d.regs name esp))
      (esp - 4 * (macroWords d.regs name esp).length) _
    rw [hframeAt]
    rfl
  have hos : d.os = c.os := os_atHandler c _
  have hcallHandler : (d.setStack (c.frameAt - 4) m₂).call (handlers name) (code.handled name)
      scratch = some
        { regs := { d.regs with
            eax := scratch.eax
            ecx := scratch.ecx
            edx := scratch.edx
            eflags := scratch.eflags
            esp := c.frameAt - 4 }
          os := os } := by
    have hle : 8 ≤ c.frameAt ∧ c.frameAt ≤ memoryTaskBase := by
      unfold frameAt
      omega
    apply call_setStack scratch (by omega) (by omega)
    · rw [hm, osWith, hos, hm₂, load32_store32 _ _ hframe_lt]
      exact hhandler
    · rw [show c.frameAt - 4 - 4 = c.frameAt - 8 by omega]
      exact hcall.1
  rw [takeInterrupt, interrupt_eq hc (idtBooted_apply idt hv) (code.entry_lt _),
    Option.bind_eq_bind, Option.bind_some]
  change ((code.name (code.entry name)).bind fun name =>
    (d.setStack esp m₁).exceptionHandler name code (handlers name) scratch) = _
  rw [code.name_entry, Option.bind_some, exceptionHandler,
    enterException_setStack name (by omega) (by omega), Option.bind_eq_bind, Option.bind_some,
    hframeAt]
  change ((d.setStack (c.frameAt - 4) m₂).call (handlers name) (code.handled name)
    scratch).bind _ = _
  rw [hcallHandler, Option.bind_some]
  dsimp only
  rw [show c.frameAt - 4 + 1 * 4 = c.frameAt by unfold frameAt; omega, u32_of_lt hframe_lt]
  let e : Cpu :=
    { regs := { d.regs with
        eax := scratch.eax
        ecx := scratch.ecx
        edx := scratch.edx
        eflags := scratch.eflags }
      os := os }
  change exceptionHandler.leave (e.setEsp c.frameAt) = _
  have hcpl : c.cpl = c.regs.cs % 4 := rfl
  have hback : c.frameAt + 68 + 4 * (outerWords c.regs).length = c.top := by
    unfold frameAt
    omega
  rw [leaveException_setEsp hframe (by omega) (show kernelSelectorCs % 4 = 0 by decide)]
  by_cases h : c.cpl = 0
  · have hss : e.regs.ss = c.regs.ss := ss_atHandler c (code.entry name) h
    have hesp : c.frameAt + 68 = c.regs.esp := by
      rw [outerWords, if_pos (hcpl ▸ h), top, if_pos h] at hback
      exact hback
    rw [if_pos (hcpl ▸ h), if_pos (hcpl ▸ h), hss, hesp]
  · rw [if_neg (hcpl ▸ h), if_neg (hcpl ▸ h)]

/-- The frame is kept. -/
theorem takeInterrupt_kept {handlers : ExceptionName → Os → Nat → Option Os} {os : Os}
    (idt : Idt) (hc : c.Interruptible) (hv : vector < idtTableNr) (herr : errCode < 2 ^ 32)
    (scratch : Registers)
    (hhandler : handlers (exceptionName vector)
      (c.osWith (pushWords c.mem c.top (c.interruptWords code vector errCode))) c.frameAt = some os)
    (hkept : c.FrameKept (pushWords c.mem c.top (c.interruptWords code vector errCode))
      os.kernel.mem) :
  c.takeInterrupt code (idtBooted idt code.entry) handlers vector errCode scratch
    = some { regs := c.regs, os := os }
  := by
  have hlow := hc.top_low
  have hm := inInterrupt_pushWords code vector hc herr
  have houter := length_outerWords_le c.regs
  have htop : c.frameAt + 4 * (17 + (outerWords c.regs).length) = c.top := by
    unfold frameAt
    omega
  apply takeInterrupt_eq idt hc hv scratch hhandler
  · apply hm.call.congr
    intro x hx hx'
    rw [show [code.handled (exceptionName vector), c.frameAt].length = 2 from rfl] at hx'
    apply hkept x hx (by omega)
  · apply hm.frame.congr
    intro x hx hx'
    rw [length_exceptionWords] at hx'
    apply hkept x (by omega) (by omega)

/-- Below the table's end every vector leads to the handler of its name, with the number and the
error code in the frame; if the handler keeps the frame, the code that was interrupted, of a
program or of the kernel, goes on with all registers as they were. -/
theorem interrupt_returns (idt : Idt) (hc : c.Interruptible) (hv : vector < idtTableNr)
    (herr : errCode < 2 ^ 32) (code : ExceptionCode)
    (handlers : ExceptionName → Os → Nat → Option Os) (scratch : Registers) :
  ∃ m, c.InInterrupt code vector errCode m ∧
    ∀ os, handlers (exceptionName vector) (c.osWith m) c.frameAt = some os →
    c.FrameKept m os.kernel.mem →
    c.takeInterrupt code (idtBooted idt code.entry) handlers vector errCode scratch
      = some { regs := c.regs, os := os }
  := ⟨_, inInterrupt_pushWords code vector hc herr, fun _ hhandler hkept =>
    takeInterrupt_kept idt hc hv herr scratch hhandler hkept⟩

theorem interruptible_caller :
  caller.Interruptible
  := by
  have htop : caller.top = 0x102000 := by
    rw [top, if_neg (by decide), esp0_caller]
  constructor
  · exact user_caller.words
  · exact segDpl_kernel user_caller.descs
  · rw [htop]
    decide
  · rw [htop]
    decide

/-- The timer interrupts the program. -/
theorem interrupt_returns_caller :
  ∃ os, caller.takeInterrupt callerExceptions
      (idtBooted (fun _ => gateDescSet 0 0 0) callerExceptions.entry)
      (fun name s _ => if name = .time then some s else none) 0x20 0 caller.regs
    = some { regs := caller.regs, os := os }
  := by
  obtain ⟨m, -, hreturns⟩ := interrupt_returns (fun _ => gateDescSet 0 0 0) interruptible_caller
    (show 0x20 < idtTableNr by decide) (show 0 < 2 ^ 32 by decide) callerExceptions
    (fun name s _ => if name = .time then some s else none) caller.regs
  exact ⟨_, hreturns _ rfl fun _ _ _ => rfl⟩

end Cpu

end Dmos
