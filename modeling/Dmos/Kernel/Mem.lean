import Dmos.Kernel.AddrAlloc
import Dmos.Kernel.Mmu
import Dmos.Library.Loop

/-!
# The memory manager

The functions of `mem.c` on the state of the machine: physical memory, the page
directory register and the page allocator `g_paddr_alloc`.

The kernel runs on an identity mapping: an address below `memoryTaskBase` is the physical
address of the same number, so the entries of directories and tables, which the code
reaches through such addresses, are read and written in physical memory directly.  The
mapping that `create_kernel_table` makes ends at `MEM_EXT_END` and has gaps below 1 MB; the
frames of the allocator and the objects of the kernel are taken to lie in it.  An address
from `memoryTaskBase` on is translated by the directory in `cr3`.
A page fault inside the kernel never returns (`handle_page_fault` halts), so a function
that can fault has the state it stopped in as its result.

The mutex of the allocator and the log output change none of this state and are left
out.
-/

open ByteMemory Loop

namespace Dmos

/-- Where the linker put the kernel's objects, below the memory the allocator manages. -/
structure Layout where
  gKernelPageDir : Nat
  gKernelPageDir_aligned : gKernelPageDir % 4096 = 0
  gKernelPageDir_end : gKernelPageDir + 4096 ≤ memExtStart

/-- The directory in the sixth page. -/
def Layout.low : Layout :=
  ⟨0x5000, by decide, by decide⟩

/-- The state of the machine as `mem.c` sees it. -/
structure Kernel where
  layout : Layout
  mem : Memory
  cr3 : Nat
  gPaddrAlloc : AddrAlloc

/-- `(uint32_t)-1`. -/
abbrev errorWord : Nat := 0xFFFFFFFF

/-- A 32-bit word read as a signed number. -/
def asInt (w : Nat) : Int :=
  if w < 2 ^ 31 then w else (w : Int) - 2 ^ 32

namespace Kernel

/-! ### Allocator and memory -/

def addrAllocPage (s : Kernel) (pageCount : Nat) : Nat × Kernel :=
  match Dmos.addrAllocPage s.gPaddrAlloc pageCount with
  | (addr, alloc) => (addr, { s with gPaddrAlloc := alloc })

def addrFreePage (s : Kernel) (addr pageCount : Nat) : Kernel :=
  { s with gPaddrAlloc := Dmos.addrFreePage s.gPaddrAlloc addr pageCount }

/-- The state with another allocator. -/
def setAlloc (s : Kernel) (alloc : AddrAlloc) : Kernel :=
  { s with gPaddrAlloc := alloc }

@[simp]
theorem setAlloc_mem (s : Kernel) (alloc : AddrAlloc) :
  (s.setAlloc alloc).mem = s.mem
  := rfl

@[simp]
theorem setAlloc_layout (s : Kernel) (alloc : AddrAlloc) :
  (s.setAlloc alloc).layout = s.layout
  := rfl

@[simp]
theorem setAlloc_cr3 (s : Kernel) (alloc : AddrAlloc) :
  (s.setAlloc alloc).cr3 = s.cr3
  := rfl

theorem addrFreePage_eq (s : Kernel) (addr pageCount : Nat) :
  s.addrFreePage addr pageCount = s.setAlloc (Dmos.addrFreePage s.gPaddrAlloc addr pageCount)
  := rfl

/-- The word at a physical address. -/
def load (s : Kernel) (a : Nat) : Nat :=
  load32 s.mem a

/-- A word written to a physical address. -/
def store (s : Kernel) (a v : Nat) : Kernel :=
  { s with mem := store32 s.mem a v }

@[simp]
theorem store_mem (s : Kernel) (a v : Nat) :
  (s.store a v).mem = store32 s.mem a v
  := rfl

def kMemset (s : Kernel) (dest : Nat) (v : UInt8) (size : Nat) : Kernel :=
  if dest = 0 ∨ size = 0 then s else { s with mem := fill s.mem dest v size }

/-- The physical address the processor translates `vaddr` to, by the directory in
`cr3`. -/
def translate (s : Kernel) (vaddr : Nat) : Option Nat :=
  let pde := s.load (pdePaddr s.cr3 + 4 * pdeIndex vaddr)
  if Present pde then
    let pte := s.load (pdePaddr pde + 4 * pteIndex vaddr)
    if Present pte then some (ptePaddr pte + vaddr % memPageSize) else none
  else none

/-- The physical address behind an address used by the kernel, if that below `memoryTaskBase` is
mapped. -/
def kernelAddr (s : Kernel) (addr : Nat) : Option Nat :=
  if addr < memoryTaskBase then some addr else s.translate addr

/-- The loop of `kMemcpy`: the number of bytes left when it stops, which is not `0` only
after a page fault. -/
def kMemcpy.loop (s : Kernel) (dest src : Nat) (size : Nat) : Nat × Kernel :=
  match size with
  | 0 => (0, s)
  | size + 1 =>
      match s.kernelAddr src, s.kernelAddr dest with
      | some from', some to' =>
          loop { s with mem := store8 s.mem to' (s.mem from') } (u32 (dest + 1)) (u32 (src + 1))
            size
      | _, _ => (size + 1, s)

def kMemcpy (s : Kernel) (dest src size : Nat) : Nat × Kernel :=
  if dest = 0 ∨ src = 0 ∨ size = 0 then (0, s) else kMemcpy.loop s dest src size

/-- Load the page directory register. -/
def mmuSetPageDir (s : Kernel) (paddr : Nat) : Kernel :=
  { s with cr3 := paddr }

/-! ### Page tables -/

/-- The address of the entry for `vaddr`, or `0`. -/
def findPte (s : Kernel) (pageDir vaddr : Nat) (alloc : Int) : Nat × Kernel :=
  let pde := pageDir + 4 * pdeIndex vaddr
  if Present (s.load pde) then (pdePaddr (s.load pde) + 4 * pteIndex vaddr, s)
  else if alloc = 0 then (0, s)
  else
    match s.addrAllocPage 1 with
    | (pgPaddr, s) =>
        if pgPaddr = 0 then (0, s)
        else
          let s := s.store pde (pgPaddr ||| pdeP ||| pdeW ||| pdeU)
          let s := s.kMemset pgPaddr 0 memPageSize
          (pgPaddr + 4 * pteIndex vaddr, s)

def memoryCreateMap (s : Kernel) (pageDir vaddr paddr : Nat) (count : Nat) (perm : Nat) :
    Int × Kernel :=
  match count with
  | 0 => (0, s)
  | count + 1 =>
      match s.findPte pageDir vaddr 1 with
      | (pte, s) =>
          if pte = 0 then (-1, s)
          else
            let s := s.store pte (paddr ||| perm ||| pteP)
            memoryCreateMap s pageDir (u32 (vaddr + memPageSize)) (u32 (paddr + memPageSize))
              count perm

def memoryCreateUvm (s : Kernel) : Nat × Kernel :=
  match s.addrAllocPage 1 with
  | (pageDir, s) =>
      if pageDir = 0 then (0, s)
      else
        let s := s.kMemset pageDir 0 memPageSize
        let userPdeStart := pdeIndex memoryTaskBase
        let s := forEach
          (fun i s => s.store (pageDir + 4 * i) (s.load (s.layout.gKernelPageDir + 4 * i)))
          0 userPdeStart s
        (pageDir, s)

/-- One pass of the loop of `memoryAllocForPageDir`, on `curr_vaddr` and the state; on
leaving, the value returned and the state. -/
def memoryAllocForPageDir.pass (pageDir base perm i : Nat) :
    Nat × Kernel → Except (Nat × Kernel) (Nat × Kernel)
  | (currVaddr, s) =>
      match s.addrAllocPage 1 with
      | (paddr, s) =>
          if paddr = 0 then .error (0, s)
          else
            match s.memoryCreateMap pageDir currVaddr paddr 1 perm with
            | (err, s) =>
                if err < 0 then .error (errorWord, s.addrFreePage base (i + 1))
                else .ok (u32 (currVaddr + memPageSize), s)

def memoryAllocForPageDir (s : Kernel) (pageDir vaddr size perm : Nat) : Nat × Kernel :=
  let pageCount := up2 size memPageSize / memPageSize
  let base := down2 vaddr memPageSize
  match forLoop (memoryAllocForPageDir.pass pageDir base perm) 0 pageCount (vaddr, s) with
  | .ok (_, s) => (0, s)
  | .error r => r

def memoryAllocPage (s : Kernel) : Nat × Kernel :=
  s.addrAllocPage 1

/-- `currPageDir` is the directory of the current task.  The entry of an address without
a table is taken at address `0`, as the code does. -/
def memoryFreePage (s : Kernel) (currPageDir addr : Nat) : Kernel :=
  if addr < memoryTaskBase then s.addrFreePage addr 1
  else
    let pte := (s.findPte currPageDir addr 0).1
    let s := s.addrFreePage (ptePaddr (s.load pte)) 1
    s.store pte 0

def memoryGetPaddr (s : Kernel) (pageDir vaddr : Nat) : Nat :=
  let pte := (s.findPte pageDir vaddr 0).1
  if pte = 0 then 0 else ptePaddr (s.load pte) + (vaddr &&& (memPageSize - 1))

def memoryDestoryUvm (s : Kernel) (pageDir : Nat) : Kernel :=
  let userPdeStart := pdeIndex memoryTaskBase
  let s := forEach
    (fun i s =>
      let pde := s.load (pageDir + 4 * i)
      if Present pde then
        let s := forEach
          (fun j s =>
            let pte := s.load (pdePaddr pde + 4 * j)
            if Present pte then s.addrFreePage (ptePaddr pte) 1 else s)
          0 pteCnt s
        s.addrFreePage (pdePaddr pde) 1
      else s)
    userPdeStart (pdeCnt - userPdeStart) s
  s.addrFreePage pageDir 1

/-- How the loops of `memoryCopyUvm` are left early. -/
inductive CopyExit where
  /-- `goto copy_uvm_failed`. -/
  | failed (s : Kernel)
  /-- A page fault. -/
  | fault (s : Kernel)

/-- One pass of the inner loop of `memoryCopyUvm`, for entry `j` of the table at
`table`. -/
def memoryCopyUvm.pass (toPageDir table i j : Nat) (s : Kernel) : Except CopyExit Kernel :=
  let pte := s.load (table + 4 * j)
  if Present pte then
    match s.addrAllocPage 1 with
    | (page, s) =>
        if page = 0 then .error (.failed s)
        else
          let vaddr := (i <<< 22) ||| (j <<< 12)
          match s.memoryCreateMap toPageDir vaddr page 1 (getPtePerm pte) with
          | (err, s) =>
              if err < 0 then .error (.failed s)
              else
                match s.kMemcpy page vaddr memPageSize with
                | (0, s) => .ok s
                | (_, s) => .error (.fault s)
  else .ok s

/-- The result is the value returned with the state, or the state of a page fault. -/
def memoryCopyUvm (s : Kernel) (pageDir : Nat) : Except Kernel (Nat × Kernel) :=
  match s.memoryCreateUvm with
  | (toPageDir, s) =>
      if toPageDir = 0 then .ok (errorWord, s)
      else
        let userPdeStart := pdeIndex memoryTaskBase
        let copied := forLoop
          (fun i s =>
            let pde := s.load (pageDir + 4 * i)
            if Present pde then forLoop (memoryCopyUvm.pass toPageDir (pdePaddr pde) i) 0 pteCnt s
            else .ok s)
          userPdeStart (pdeCnt - userPdeStart) s
        match copied with
        | .ok s => .ok (toPageDir, s)
        | .error (.failed s) => .ok (errorWord, s.memoryDestoryUvm toPageDir)
        | .error (.fault s) => .error s

end Kernel

end Dmos
