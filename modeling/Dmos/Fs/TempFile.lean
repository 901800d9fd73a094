import Dmos.Kernel.UserData

/-!
# The temporary file

Files are read from one buffer in the kernel, `TEMP_ADDR`: `sysOpen` fills its first half
from the disk, whatever the name, and `sysRead` copies from where `temp_pos` points.  All
tasks share the buffer and the position.

A name that begins like `tty` opens a terminal.  What a terminal answers is an argument
(`Tty`); `sys_lseek` returns no value for a terminal, so it has no result here.
-/

open ByteMemory

namespace Dmos

/-- The buffer `TEMP_ADDR`, the pointer `temp_pos`, and the disk behind them. -/
structure TempFile where
  tempAddr : Nat
  tempAddr_pos : 0 < tempAddr
  tempAddr_end : tempAddr + 100 * 1024 ≤ memExtStart
  tempPos : Nat
  disk : Nat → UInt8

/-- The buffer in front of the pages, and nothing read from it. -/
def TempFile.low (disk : Nat → UInt8) : TempFile :=
  ⟨0x60000, by decide, by decide, 0x60000, disk⟩

/-- What opening and reading a terminal gives. -/
structure Tty where
  fd : Int
  count : Int
  bytes : List UInt8

abbrev tempFileId : Int := 12

abbrev sectorSize : Nat := 512

/-- `k_strncmp`; the size, which the loop does not change, is not zero. -/
def kStrncmp : List UInt8 → List UInt8 → Int
  | c :: s₁, c' :: s₂ => if c = c' then kStrncmp s₁ s₂ else 1
  | _, _ => 0

namespace Kernel

/-- `read_disk` into the kernel. -/
def readDisk (s : Kernel) (disk : Nat → UInt8) (sector sectorCount buf : Nat) : Kernel :=
  { s with
    mem := fun x =>
      if buf ≤ x ∧ x < buf + sectorCount * sectorSize then disk (sector * sectorSize + (x - buf))
      else s.mem x }

def sysOpen (s : Kernel) (f : TempFile) (tty : Tty) (name : List UInt8) :
    Int × Kernel × TempFile :=
  -- "tty"
  if kStrncmp name [116, 116, 121] = 0 then (if name = [] then -1 else tty.fd, s, f)
  -- "/"
  else if name.head? = some 47 then
    (tempFileId, s.readDisk f.disk 5000 100 f.tempAddr, { f with tempPos := f.tempAddr })
  else (-1, s, f)

/-- Bytes written one after the other. -/
def writeBytes (s : Kernel) (addr : Nat) : List UInt8 → Option Kernel
  | [] => some s
  | b :: bs =>
      match s.writeByte addr b with
      | none => none
      | some s => writeBytes s (u32 (addr + 1)) bs

/-- The value returned with the state, or the state of a page fault. -/
def sysRead (s : Kernel) (f : TempFile) (tty : Tty) (file : Int) (ptr len : Nat) :
    Except Kernel (Int × Kernel × TempFile) :=
  if file = tempFileId then
    match s.kMemcpy ptr f.tempPos len with
    | (0, s) => .ok (len, s, { f with tempPos := u32 (f.tempPos + len) })
    | (_, s) => .error s
  else
    match s.writeBytes ptr (tty.bytes.take len) with
    | some s => .ok (tty.count, s, f)
    | none => .error s

/-- The value returned with the position, or `none` where no value is returned. -/
def sysLseek (f : TempFile) (file : Int) (ptr : Nat) : Option (Int × TempFile) :=
  if file = tempFileId then some (0, { f with tempPos := u32 (f.tempAddr + ptr) }) else none

variable {s : Kernel} {dest src size : Nat}

/-! ### Copies inside the kernel -/

/-- A byte inside the kernel is copied. -/
theorem kMemcpy_loop_succ (hdest : dest < memoryTaskBase) (hsrc : src < memoryTaskBase) :
  kMemcpy.loop s dest src (size + 1)
    = kMemcpy.loop { s with mem := store8 s.mem dest (s.mem src) } (dest + 1) (src + 1) size
  := by
  rw [kMemcpy.loop, kernelAddr, kernelAddr, if_pos hsrc, if_pos hdest]
  unfold memoryTaskBase at hdest hsrc
  dsimp only
  rw [u32_of_lt (by omega), u32_of_lt (by omega)]

theorem kMemcpy_loop_identity (hdest : dest + size ≤ memoryTaskBase)
    (hsrc : src + size ≤ memoryTaskBase) (hdisjoint : src + size ≤ dest ∨ dest + size ≤ src) :
  kMemcpy.loop s dest src size = (0, { s with mem := copy s.mem dest src size })
  := by
  induction size generalizing s dest src with
  | zero =>
      have hcopy : copy s.mem dest src 0 = s.mem := by
        funext x
        apply copy_outside
        omega
      rw [hcopy]
      rfl
  | succ size ih =>
      rw [kMemcpy_loop_succ (by omega) (by omega), ih (by omega) (by omega) (by omega)]
      dsimp only
      rw [copy_succ _ hdisjoint]

/-- A copy between ranges of the kernel. -/
theorem kMemcpy_identity (hdest : dest + size ≤ memoryTaskBase)
    (hsrc : src + size ≤ memoryTaskBase) (hdisjoint : src + size ≤ dest ∨ dest + size ≤ src)
    (hdest' : dest ≠ 0) (hsrc' : src ≠ 0) :
  s.kMemcpy dest src size = (0, { s with mem := copy s.mem dest src size })
  := by
  rw [kMemcpy]
  by_cases hsize : size = 0
  · have hcopy : copy s.mem dest src size = s.mem := by
      funext x
      apply copy_outside
      omega
    rw [if_pos (.inr (.inr hsize)), hcopy]
  · rw [if_neg (by tauto), kMemcpy_loop_identity hdest hsrc hdisjoint]

theorem kMemcpy_loop_outside {x : Nat} (hdest : dest + size ≤ memoryTaskBase)
    (hx : x < dest ∨ dest + size ≤ x) :
  (kMemcpy.loop s dest src size).2.mem x = s.mem x
  := by
  induction size generalizing s dest src with
  | zero => rfl
  | succ size ih =>
      have hto : s.kernelAddr dest = some dest := by
        rw [kernelAddr, if_pos (by omega)]
      rw [kMemcpy.loop, hto]
      cases s.kernelAddr src with
      | none => rfl
      | some a =>
          dsimp only
          have hnext : u32 (dest + 1) = dest + 1 := by
            apply u32_of_lt
            unfold memoryTaskBase at hdest
            omega
          rw [hnext, ih (by omega) (by omega)]
          apply store8_of_ne
          omega

/-- A copy to a range of the kernel writes nothing else, wherever it reads. -/
theorem kMemcpy_outside {x : Nat} (hdest : dest + size ≤ memoryTaskBase)
    (hx : x < dest ∨ dest + size ≤ x) :
  (s.kMemcpy dest src size).2.mem x = s.mem x
  := by
  rw [kMemcpy]
  split_ifs
  · rfl
  · apply kMemcpy_loop_outside hdest hx

/-! ### Reads and positions -/

variable {f : TempFile} {tty : Tty} {ptr len : Nat}

/-- A path is no name of a terminal. -/
theorem kStrncmp_of_path {name : List UInt8} (h : name.head? = some 47) :
  kStrncmp name [116, 116, 121] ≠ 0
  := by
  cases name with
  | nil => cases h
  | cons c name =>
      cases h
      rw [kStrncmp, if_neg (by decide)]
      decide

theorem sysOpen_path {name : List UInt8} (h : name.head? = some 47) :
  s.sysOpen f tty name
    = (tempFileId, s.readDisk f.disk 5000 100 f.tempAddr, { f with tempPos := f.tempAddr })
  := by rw [sysOpen, if_pos h, if_neg (kStrncmp_of_path h)]

/-- A read of the temporary file, from and to ranges of the kernel. -/
theorem sysRead_identity (hptr : ptr + len ≤ memoryTaskBase)
    (hpos : f.tempPos + len ≤ memoryTaskBase)
    (hdisjoint : f.tempPos + len ≤ ptr ∨ ptr + len ≤ f.tempPos) (hptr' : ptr ≠ 0)
    (hpos' : f.tempPos ≠ 0) :
  s.sysRead f tty tempFileId ptr len
    = .ok (len, { s with mem := copy s.mem ptr f.tempPos len },
        { f with tempPos := u32 (f.tempPos + len) })
  := by
  rw [sysRead, if_pos rfl, kMemcpy_identity hptr hpos hdisjoint hptr' hpos']
  rfl

/-- A read to a range of the kernel writes nothing else, and moves the position on. -/
theorem sysRead_outside {r : Int} {s' : Kernel} {f' : TempFile} (hptr : ptr + len ≤ memoryTaskBase)
    (h : s.sysRead f tty tempFileId ptr len = .ok (r, s', f')) :
  (∀ x, x < ptr ∨ ptr + len ≤ x → s'.mem x = s.mem x)
    ∧ f' = { f with tempPos := u32 (f.tempPos + len) }
  := by
  rw [sysRead, if_pos rfl] at h
  have houtside (x : Nat) (hx : x < ptr ∨ ptr + len ≤ x) :
      (s.kMemcpy ptr f.tempPos len).2.mem x = s.mem x :=
    kMemcpy_outside hptr hx
  generalize s.kMemcpy ptr f.tempPos len = p at h houtside
  obtain ⟨_ | n, s₁⟩ := p
  · cases h
    exact ⟨houtside, rfl⟩
  · cases h

end Kernel

end Dmos
