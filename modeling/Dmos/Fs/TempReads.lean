import Dmos.Fs.TempFile
import Dmos.Kernel.Frames
import Dmos.Library.Transition

/-!
# Reads of the temporary file

`sys_lseek` puts `temp_pos` anywhere, and `sys_read` copies as many bytes from there as it is
asked for, and returns their number.  Neither looks at the end of the buffer, so a read stays in
it exactly when the calls since the file was opened have left room for it
(`readInside_of_reachable`).
-/

open ByteMemory TransitionSystem

namespace Dmos

/-- The size of `TEMP_ADDR`. -/
abbrev tempSize : Nat := 100 * 1024

namespace Kernel

/-- The addresses of `size` bytes from `src` on. -/
def addresses (src : Nat) : Nat → List Nat
  | 0 => []
  | size + 1 => src :: addresses (u32 (src + 1)) size

/-- The bytes at some addresses, copied to `dest` one after the other: the number of bytes left
when a page fault stops the copy, and the state. -/
def copyFrom (s : Kernel) (dest : Nat) : List Nat → Nat × Kernel
  | [] => (0, s)
  | src :: srcs =>
      match s.kernelAddr src, s.kernelAddr dest with
      | some from', some to' =>
          copyFrom { s with mem := store8 s.mem to' (s.mem from') } (u32 (dest + 1)) srcs
      | _, _ => ((src :: srcs).length, s)

theorem length_addresses (src size : Nat) :
  (addresses src size).length = size
  := by
  induction size generalizing src with
  | zero => rfl
  | succ size ih => rw [addresses, List.length_cons, ih]

theorem kMemcpy_loop_eq (s : Kernel) (dest src size : Nat) :
  kMemcpy.loop s dest src size = copyFrom s dest (addresses src size)
  := by
  induction size generalizing s dest src with
  | zero => rfl
  | succ size ih =>
      rw [kMemcpy.loop, addresses, copyFrom, List.length_cons, length_addresses]
      cases s.kernelAddr src with
      | none => rfl
      | some from' =>
          cases s.kernelAddr dest with
          | none => rfl
          | some to' => apply ih

theorem mem_addresses {src size a : Nat} (hend : src + size ≤ 2 ^ 32) (ha : a ∈ addresses src size) :
  src ≤ a ∧ a < src + size
  := by
  induction size generalizing src with
  | zero => cases ha
  | succ size ih =>
      rw [addresses] at ha
      rcases List.mem_cons.mp ha with rfl | ha
      · omega
      · cases size with
        | zero => cases ha
        | succ size =>
            rw [u32_of_lt (by omega)] at ha
            have hrange := ih (by omega) ha
            omega

end Kernel

namespace TempFile

/-- The addresses whose bytes a read delivers. -/
def sources (f : TempFile) (ptr len : Nat) : List Nat :=
  if ptr = 0 ∨ f.tempPos = 0 ∨ len = 0 then [] else Kernel.addresses f.tempPos len

/-- How many bytes of the buffer are left. -/
def remaining (f : TempFile) : Nat :=
  if f.tempAddr ≤ f.tempPos then f.tempAddr + tempSize - f.tempPos else 0

/-- A read delivers bytes of the buffer only, and returns no more than are left there. -/
structure ReadInside (f : TempFile) (ptr len : Nat) (r : Int) : Prop where
  sources : ∀ a ∈ f.sources ptr len, f.tempAddr ≤ a ∧ a < f.tempAddr + tempSize
  count : r ≤ f.remaining

end TempFile

/-- A read copies the bytes of its sources. -/
theorem Kernel.sysRead_eq_copyFrom (s : Kernel) (f : TempFile) (tty : Tty) (ptr len : Nat) :
  s.sysRead f tty tempFileId ptr len
    = match s.copyFrom ptr (f.sources ptr len) with
      | (0, s) => .ok (len, s, { f with tempPos := u32 (f.tempPos + len) })
      | (_, s) => .error s
  := by
  have hcopy : s.kMemcpy ptr f.tempPos len = s.copyFrom ptr (f.sources ptr len) := by
    rw [kMemcpy, TempFile.sources]
    split_ifs
    · rfl
    · apply kMemcpy_loop_eq
  rcases hresult : s.copyFrom ptr (f.sources ptr len) with ⟨_ | n, t⟩
  · simp only [sysRead, ↓reduceIte, hcopy, hresult]
  · simp only [sysRead, ↓reduceIte, hcopy, hresult]

/-- The machine, with the position that the calls on the file have set. -/
structure TempReads where
  kernel : Kernel
  fs : TempFile
  pos : Nat

inductive TempEvent where
  | sysOpen
  | sysLseek (ptr : Nat)
  /-- A read, and what it returns. -/
  | sysRead (ptr len : Nat) (r : Int)
  /-- Anything else; it does not touch the position. -/
  | other

namespace TempReads

/-- The calls on the file, each with the descriptor that `sys_open` returns. -/
inductive Step (s : TempReads) : TempEvent → TempReads → Prop
  | sysOpen {tty : Tty} {name : List UInt8} {file : Int} {kernel : Kernel} {fs : TempFile} :
      name.head? = some 47 → s.kernel.sysOpen s.fs tty name = (file, kernel, fs) →
      s.Step .sysOpen ⟨kernel, fs, 0⟩
  | sysLseek {ptr : Nat} {ret : Int} {fs : TempFile} :
      Kernel.sysLseek s.fs tempFileId ptr = some (ret, fs) →
      s.Step (.sysLseek ptr) { s with fs := fs, pos := ptr }
  | sysRead {tty : Tty} {ptr len : Nat} {r : Int} {kernel : Kernel} {fs : TempFile} :
      s.kernel.sysRead s.fs tty tempFileId ptr len = .ok (r, kernel, fs) →
      s.Step (.sysRead ptr len r) ⟨kernel, fs, s.pos + len⟩
  | other {kernel : Kernel} : s.Step .other { s with kernel := kernel }

/-- The position leaves room for a read in the buffer. -/
def HasRoom (s : TempReads) (len : Nat) : Prop :=
  len = 0 ∨ u32 s.pos + len ≤ tempSize

end TempReads

/-- The calls after the file has been opened. -/
def tempReads : TransitionSystem TempReads TempEvent where
  init s := ∃ s₀ : TempReads, s₀.Step .sysOpen s
  step s e s' := s.Step e s'

namespace TempReads

variable {s s' : TempReads} {e : TempEvent}

/-- `temp_pos` is where the calls have set it. -/
def Positioned (s : TempReads) : Prop :=
  s.fs.tempPos = u32 (s.fs.tempAddr + s.pos)

theorem Positioned.opened {s₀ : TempReads} (h : s₀.Step .sysOpen s) :
  s.Positioned
  := by
  cases h with
  | sysOpen hname hopen =>
      rw [Kernel.sysOpen_path hname] at hopen
      cases hopen
      have hend := s₀.fs.tempAddr_end
      unfold memExtStart at hend
      rw [Positioned]
      dsimp only
      rw [Nat.add_zero, u32_of_lt (by omega)]

theorem Positioned.step (hs : s.Positioned) (hstep : s.Step e s') :
  s'.Positioned
  := by
  cases hstep with
  | sysOpen hname hopen =>
      have hstep : s.Step .sysOpen _ := .sysOpen hname hopen
      apply Positioned.opened hstep
  | sysLseek hlseek =>
      rw [Kernel.sysLseek, if_pos rfl] at hlseek
      cases hlseek
      rfl
  | @sysRead tty ptr len r kernel fs hread =>
      rw [Kernel.sysRead_eq_copyFrom] at hread
      rw [Positioned] at hs ⊢
      split at hread
      · cases hread
        dsimp only
        rw [hs, Kernel.u32_add, Nat.add_assoc]
      · cases hread
  | other => exact hs

theorem Positioned.readInside_iff (hs : s.Positioned) (ptr len : Nat) :
  s.fs.ReadInside ptr len len ↔ s.HasRoom len
  := by
  have hend := s.fs.tempAddr_end
  unfold memExtStart at hend
  rw [Positioned] at hs
  have hremaining : s.fs.remaining
      = if s.fs.tempAddr ≤ s.fs.tempPos then s.fs.tempAddr + tempSize - s.fs.tempPos else 0 := rfl
  have hpos : s.fs.tempPos = (s.fs.tempAddr + s.pos) % 2 ^ 32 := hs
  have hroom : s.HasRoom len ↔ len = 0 ∨ s.pos % 2 ^ 32 + len ≤ tempSize := Iff.rfl
  unfold tempSize at hremaining hroom
  rw [hroom]
  constructor
  · rintro ⟨-, hcount⟩
    split_ifs at hremaining <;> omega
  · intro h
    constructor
    · intro a ha
      rw [TempFile.sources] at ha
      split_ifs at ha with hnone
      · cases ha
      · have hrange := Kernel.mem_addresses (by omega) ha
        unfold tempSize
        omega
    · split_ifs at hremaining <;> omega

/-- After the file has been opened, whatever calls there have been, a read stays in the buffer
exactly when the position leaves room for it. -/
theorem readInside_of_reachable (h : tempReads.Reachable (fun _ => True) s) {ptr len : Nat} {r : Int}
    (hstep : tempReads.step s (.sysRead ptr len r) s') :
  s.fs.ReadInside ptr len r ↔ s.HasRoom len
  := by
  have hpositioned : s.Positioned := by
    apply h.invariant
    · rintro s ⟨s₀, hopen⟩
      exact Positioned.opened hopen
    · intro s e s' hs _ hstep
      exact hs.step hstep
  obtain rfl : r = len := by
    cases hstep with
    | sysRead hread =>
        rw [Kernel.sysRead_eq_copyFrom] at hread
        split at hread
        · cases hread
          rfl
        · cases hread
  apply hpositioned.readInside_iff

/-- The file has been opened. -/
def opened : TempReads :=
  ⟨(Kernel.boot 0).readDisk (fun i => .ofNat i) 5000 100 0x60000,
    .low (fun i => .ofNat i), 0⟩

theorem opened_reachable :
  tempReads.Reachable (fun _ => True) opened
  := by
  apply Reachable.init
  refine ⟨⟨Kernel.boot 0, opened.fs, 0⟩, ?_⟩
  have hopen : (Kernel.boot 0).sysOpen opened.fs ⟨0, 0, []⟩ [47] = _ := Kernel.sysOpen_path rfl
  exact Step.sysOpen (by rfl) hopen

theorem readInside_opened :
  opened.fs.ReadInside 4096 1 1
  := by
  have hread : opened.kernel.sysRead opened.fs ⟨0, 0, []⟩ tempFileId 4096 1 = _ :=
    Kernel.sysRead_identity (by decide) (by decide) (by decide) (by decide) (by decide)
  have hstep : tempReads.step opened (.sysRead 4096 1 1) _ := Step.sysRead hread
  apply (readInside_of_reachable opened_reachable hstep).mpr
  right
  decide

/-- The file has been opened and the position set to the end of the buffer. -/
def atEnd : TempReads :=
  { opened with fs := { opened.fs with tempPos := 0x79000 }, pos := 102400 }

/-- A read at the end of the buffer returns a byte that is not in it. -/
theorem not_readInside_atEnd :
  tempReads.Reachable (fun _ => True) atEnd
    ∧ (∃ s', tempReads.step atEnd (.sysRead 4096 1 1) s')
    ∧ ¬ atEnd.fs.ReadInside 4096 1 1
  := by
  have hread : atEnd.kernel.sysRead atEnd.fs ⟨0, 0, []⟩ tempFileId 4096 1 = _ :=
    Kernel.sysRead_identity (by decide) (by decide) (by decide) (by decide) (by decide)
  refine ⟨?_, ⟨_, Step.sysRead hread⟩, ?_⟩
  · exact opened_reachable.step (a := .sysLseek 102400) trivial (Step.sysLseek rfl)
  · intro h
    have hcount := h.count
    revert hcount
    decide

end TempReads

end Dmos
