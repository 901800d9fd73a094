import Dmos.Task.Fork

/-!
# Executing programs

`sys_execve` of `task.c` with what it calls.  The local variables that the callees fill in
lie on the kernel stack of the caller (`Locals`), and their members are read from memory where
the code reads them.
-/

open ByteMemory Loop

namespace Dmos

/-- The addresses of the local variables `elf_hdr`, `elf_phdr` and `task_args`. -/
structure Locals where
  elfHdr : Nat
  elfPhdr : Nat
  taskArgs : Nat

abbrev elfMagic : UInt8 := 0x7F

abbrev ptLoad : Nat := 1

abbrev sizeofElf32Ehdr : Nat := 52

abbrev sizeofElf32Phdr : Nat := 32

abbrev sizeofTaskArgs : Nat := 12

abbrev memTaskStackTop : Nat := 0xE0000000

abbrev memTaskStackSize : Nat := memPageSize * 500

abbrev memTaskArgSize : Nat := memPageSize * 16

namespace Kernel

/-! ### Names -/

/-- The second loop of `getFileName`, from the address `p` back. -/
def getFileName.back (s : Kernel) (name p : Nat) (fuel : Nat) : Option Nat :=
  match fuel with
  | 0 => none
  | fuel + 1 =>
      match s.readByte p with
      | none => none
      | some c =>
          -- '\' and '/'
          if c ≠ 92 ∧ c ≠ 47 ∧ name ≤ p then back s name (u32Sub p 1) fuel
          else some (u32 (p + 1))

def getFileName (s : Kernel) (name : Nat) : Option Nat :=
  match s.string name with
  | none => none
  | some path => getFileName.back s name (u32 (name + path.length)) (2 ^ 32)

/-! ### Headers -/

def load16 (s : Kernel) (a : Nat) : Nat :=
  (s.mem a).toNat + 256 * (s.mem (a + 1)).toNat

def elfIdentOk (s : Kernel) (elfHdr : Nat) : Bool :=
  -- "ELF" after the magic number
  s.mem elfHdr = elfMagic ∧ s.mem (elfHdr + 1) = 69 ∧ s.mem (elfHdr + 2) = 76
    ∧ s.mem (elfHdr + 3) = 70

def eEntry (s : Kernel) (elfHdr : Nat) : Nat :=
  s.load (elfHdr + 24)

def ePhoff (s : Kernel) (elfHdr : Nat) : Nat :=
  s.load (elfHdr + 28)

def ePhnum (s : Kernel) (elfHdr : Nat) : Nat :=
  s.load16 (elfHdr + 44)

def pType (s : Kernel) (phdr : Nat) : Nat :=
  s.load phdr

def pOffset (s : Kernel) (phdr : Nat) : Nat :=
  s.load (phdr + 4)

def pVaddr (s : Kernel) (phdr : Nat) : Nat :=
  s.load (phdr + 8)

def pFilesz (s : Kernel) (phdr : Nat) : Nat :=
  s.load (phdr + 16)

def pMemsz (s : Kernel) (phdr : Nat) : Nat :=
  s.load (phdr + 20)

/-! ### Segments -/

/-- The loop of `loadPhdr`, for at most `fuel` bytes. -/
def loadPhdr.loop (s : Kernel) (f : TempFile) (tty : Tty) (file : Int) (pageDir vaddr size : Nat)
    (fuel : Nat) : Except Kernel (Int × Kernel × TempFile) :=
  match fuel with
  | 0 => .ok (0, s, f)
  | fuel + 1 =>
      if size = 0 then .ok (0, s, f)
      else
        let currSize := if memPageSize < size then memPageSize else size
        let paddr := s.memoryGetPaddr pageDir vaddr
        match s.sysRead f tty file paddr currSize with
        | .error s => .error s
        | .ok (cnt, s, f) =>
            if cnt < currSize then .ok (-1, s, f)
            else loop s f tty file pageDir (u32 (vaddr + currSize)) (size - currSize) fuel

/-- The value returned with the state, or the state in which the call never returns. -/
def loadPhdr (s : Kernel) (f : TempFile) (tty : Tty) (file : Int) (phdr pageDir : Nat) :
    Except Kernel (Int × Kernel × TempFile) :=
  match s.memoryAllocForPageDir pageDir (s.pVaddr phdr) (s.pMemsz phdr) (pteP ||| pteU ||| pteW)
    with
  | (err, s) =>
      if asInt err < 0 then .ok (-1, s, f)
      else
        match sysLseek f file (s.pOffset phdr) with
        | none => .error s
        | some (ret, f) =>
            if ret < 0 then .ok (-1, s, f)
            else
              loadPhdr.loop s f tty file pageDir (s.pVaddr phdr) (s.pFilesz phdr)
                (s.pFilesz phdr)

/-! ### Arguments -/

/-- One pass of the loop of `copyArgs`, on `dest_arg` and the state. -/
def copyArgs.pass (pageDir argv destArgvTb i : Nat) : Nat × Kernel → Except Kernel (Nat × Kernel)
  | (destArg, s) =>
      match s.readWord (u32 (argv + 4 * i)) with
      | none => .error s
      | some src =>
          match s.kStrlen src with
          | none => .error s
          | some strlen =>
              let len := strlen + 1
              match s.memoryCopyUvmData destArg pageDir src len with
              | .error s => .error s
              | .ok (_, s) =>
                  match s.writeWord (u32 (destArgvTb + 4 * i)) destArg with
                  | none => .error s
                  | some s => .ok (u32 (destArg + len), s)

/-- The value returned with the state, or the state of a page fault. -/
def copyArgs (s : Kernel) (taskArgs dest pageDir argc argv : Nat) : Except Kernel (Int × Kernel) :=
  let table := u32 (dest + sizeofTaskArgs)
  let s := (s.store (taskArgs + 4) argc).store (taskArgs + 8) table
  let destArg := u32 (dest + sizeofTaskArgs + 4 * (argc + 1))
  let destArgvTb := s.memoryGetPaddr pageDir table
  match forLoop (copyArgs.pass pageDir argv destArgvTb) 0 argc (destArg, s) with
  | .error s => .error s
  | .ok (_, s) =>
      if argc ≠ 0 then
        match s.writeWord (u32 (destArgvTb + 4 * argc)) 0 with
        | none => .error s
        | some s => s.memoryCopyUvmData dest pageDir taskArgs sizeofTaskArgs
      else s.memoryCopyUvmData dest pageDir taskArgs sizeofTaskArgs

end Kernel

namespace Os

/-- The loop of `loadElfFile`, from the header `i` on, for at most `fuel` of them: whether it
came to its end, with the state; or the state in which it never does. -/
def loadElfFile.loop (s : Os) (l : Locals) (tty : Tty) (file : Int) (t : TaskRef)
    (pageDir phoff i : Nat) (fuel : Nat) : Except Os (Bool × Os) :=
  match fuel with
  | 0 => .ok (true, s)
  | fuel + 1 =>
      if s.kernel.ePhnum l.elfHdr ≤ i then .ok (true, s)
      else
        match Kernel.sysLseek s.fs file phoff with
        | none => .error s
        | some (ret, fs) =>
            let s := { s with fs := fs }
            if ret < 0 then .ok (false, s)
            else
              match s.kernel.sysRead s.fs tty file l.elfPhdr sizeofElf32Phdr with
              | .error kernel => .error { s with kernel := kernel }
              | .ok (cnt, kernel, fs) =>
                  let s := { s with kernel := kernel, fs := fs }
                  -- as numbers without a sign
                  if 0 ≤ cnt ∧ cnt < sizeofElf32Phdr then .ok (false, s)
                  else if s.kernel.pType l.elfPhdr ≠ ptLoad
                      ∨ s.kernel.pVaddr l.elfPhdr < memoryTaskBase then
                    loop s l tty file t pageDir phoff (i + 1) fuel
                  else
                    match s.kernel.loadPhdr s.fs tty file l.elfPhdr pageDir with
                    | .error kernel => .error { s with kernel := kernel }
                    | .ok (err, kernel, fs) =>
                        let s := { s with kernel := kernel, fs := fs }
                        if err < 0 then .ok (false, s)
                        else
                          let heap := u32 (s.kernel.pVaddr l.elfPhdr + s.kernel.pMemsz l.elfPhdr)
                          let s := { s with
                            tasks := s.tasks.setTask t
                              { s.tasks.task t with heapStart := heap, heapEnd := heap } }
                          loop s l tty file t pageDir phoff (i + 1) fuel

/-- The value returned with the state, or the state in which the call never returns. -/
def loadElfFile (s : Os) (l : Locals) (tty : Tty) (t : TaskRef) (name : List UInt8)
    (pageDir : Nat) : Except Os (Nat × Os) :=
  match s.kernel.sysOpen s.fs tty name with
  | (file, kernel, fs) =>
      let s := { s with kernel := kernel, fs := fs }
      if file < 0 then .ok (0, s)
      else
        match s.kernel.sysRead s.fs tty file l.elfHdr sizeofElf32Ehdr with
        | .error kernel => .error { s with kernel := kernel }
        | .ok (cnt, kernel, fs) =>
            let s := { s with kernel := kernel, fs := fs }
            -- as numbers without a sign
            if 0 ≤ cnt ∧ cnt < sizeofElf32Ehdr then .ok (0, s)
            else if s.kernel.elfIdentOk l.elfHdr = false then .ok (0, s)
            else
              -- the number of headers is a half-word
              match loadElfFile.loop s l tty file t pageDir (s.kernel.ePhoff l.elfHdr) 0 (2 ^ 16)
                with
              | .error s => .error s
              | .ok (false, s) => .ok (0, s)
              | .ok (true, s) => .ok (s.kernel.eEntry l.elfHdr, s)

/-- The name of a program becomes that of the task. -/
def setFileName (s : Os) (t : TaskRef) (name : Nat) : Option Os :=
  match s.kernel.getFileName name with
  | none => none
  | some fileName =>
      if fileName = 0 then some s
      else
        match s.kernel.string fileName with
        | none => none
        | some src => some { s with tasks := s.tasks.setName t src }

/-- The frame of the system call, set up for the start of a program. -/
def setFrame (s : Kernel) (frame entry esp : Nat) : Kernel :=
  let s := s.store (frame + 52) entry
  let s := s.store (frame + 36) 0
  let s := s.store (frame + 40) 0
  let s := s.store (frame + 44) 0
  let s := s.store (frame + 48) 0
  let s := s.store (frame + 20) 0
  let s := s.store (frame + 24) 0
  let s := s.store (frame + 28) 0
  let s := s.store frame (eflagsDefault ||| eflagsIf)
  s.store (frame + 80) esp

def setCr3 (s : Os) (t : TaskRef) (cr3 : Nat) : Os :=
  { s.setTss t { (s.tasks.task t).tss with cr3 := cr3 } with
    kernel := s.kernel.mmuSetPageDir cr3 }

/-- The label `exec_failed`. -/
def execFailed (s : Os) (t : TaskRef) (oldPageDir newPageDir : Nat) : Int × Os :=
  if newPageDir ≠ 0 then
    let s := s.setCr3 t oldPageDir
    (-1, { s with kernel := s.kernel.memoryDestoryUvm newPageDir })
  else (-1, s)

/-- The last part of `sysExecve`, with the program loaded. -/
def sysExecve.start (s : Os) (l : Locals) (argv oldPageDir newPageDir entry : Nat) :
    Except Os (Int × Os) :=
  let curr := s.tasks.currTask
  let stackTop := memTaskStackTop - memTaskArgSize
  match s.kernel.memoryAllocForPageDir newPageDir (memTaskStackTop - memTaskStackSize)
      memTaskStackSize (pteP ||| pteU ||| pteW) with
  | (err, kernel) =>
      let s := { s with kernel := kernel }
      if asInt err < 0 then .ok (s.execFailed curr oldPageDir newPageDir)
      else
        match s.kernel.stringsCount argv with
        | none => .error s
        | some argc =>
            match s.kernel.copyArgs l.taskArgs stackTop newPageDir argc argv with
            | .error kernel => .error { s with kernel := kernel }
            | .ok (err, kernel) =>
                let s := { s with kernel := kernel }
                if err < 0 then .ok (s.execFailed curr oldPageDir newPageDir)
                else
                  let kernel := setFrame s.kernel (s.frameAddr curr) entry
                    (stackTop - 4 * syscallParamCount)
                  let s := { s with kernel := kernel }
                  let s := s.setCr3 curr newPageDir
                  .ok (0, { s with kernel := s.kernel.memoryDestoryUvm oldPageDir })

/-- The value returned with the state, or the state in which the call never returns.  The path
and the arguments are at addresses of the caller. -/
def sysExecve (s : Os) (l : Locals) (tty : Tty) (name argv : Nat) : Except Os (Int × Os) :=
  let curr := s.tasks.currTask
  match s.setFileName curr name with
  | none => .error s
  | some s =>
      let oldPageDir := (s.tasks.task curr).tss.cr3
      match s.kernel.memoryCreateUvm with
      | (newPageDir, kernel) =>
          let s := { s with kernel := kernel }
          if newPageDir = 0 then .ok (s.execFailed curr oldPageDir newPageDir)
          else
            match s.kernel.string name with
            | none => .error s
            | some path =>
                match s.loadElfFile l tty curr path newPageDir with
                | .error s => .error s
                | .ok (entry, s) =>
                    if entry = 0 then .ok (s.execFailed curr oldPageDir newPageDir)
                    else sysExecve.start s l argv oldPageDir newPageDir entry

end Os

end Dmos
