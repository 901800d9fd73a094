import Dmos.Fs.TempFile
import Dmos.Kernel.Frames
import Dmos.Library.Transition

/-!
# Concurrent loads

Tasks open, seek and read the temporary file, each through the descriptor it was given, and
their calls interleave.  Beside the machine a state records where each task would read next
if it were alone.  A task that reads right after a call of its own gets the bytes of the file
from there (`delivers_of_reachable`); after a call of another task the shared position is the
other's.
-/

open ByteMemory TransitionSystem

namespace Dmos

/-- The bytes of the file that `sysOpen` reads into the buffer. -/
abbrev fileSize : Nat := 100 * sectorSize

/-- A byte of the file. -/
def TempFile.byte (f : TempFile) (i : Nat) : UInt8 :=
  f.disk (5000 * sectorSize + i)

/-- The descriptor a task was given, and where it would read next if it were alone. -/
structure Cursor where
  file : Int
  pos : Nat

/-- The machine, the cursors of the tasks, and the task that called last. -/
structure Loads (T : Type) where
  kernel : Kernel
  fs : TempFile
  cursor : T → Option Cursor
  last : Option T

inductive LoadEvent (T : Type) where
  | sysOpen (x : T) (tty : Tty) (name : List UInt8)
  | sysLseek (x : T) (ptr : Nat)
  /-- A read, and what it returns. -/
  | sysRead (x : T) (tty : Tty) (ptr len : Nat) (r : Int)
  /-- Anything else; it leaves the buffer alone. -/
  | other

namespace Loads

variable {T : Type} [DecidableEq T]

def setCursor (s : Loads T) (x : T) (c : Cursor) : Loads T :=
  { s with cursor := Function.update s.cursor x (some c), last := some x }

/-- The calls of the tasks, each on its own descriptor.  A task reads into the kernel, outside
of the buffer, as the loader does. -/
inductive Step (s : Loads T) : LoadEvent T → Loads T → Prop
  | sysOpen {x : T} {tty : Tty} {name : List UInt8} {file : Int} {kernel : Kernel} {fs : TempFile} :
      name.head? = some 47 → s.kernel.sysOpen s.fs tty name = (file, kernel, fs) →
      s.Step (.sysOpen x tty name)
        (setCursor { s with kernel := kernel, fs := fs } x { file := file, pos := 0 })
  | sysLseek {x : T} {ptr : Nat} {c : Cursor} {ret : Int} {fs : TempFile} :
      s.cursor x = some c → Kernel.sysLseek s.fs c.file ptr = some (ret, fs) →
      s.Step (.sysLseek x ptr) (setCursor { s with fs := fs } x { c with pos := ptr })
  | sysRead {x : T} {tty : Tty} {ptr len : Nat} {c : Cursor} {r : Int} {kernel : Kernel}
      {fs : TempFile} :
      s.cursor x = some c → ptr ≠ 0 → ptr + len ≤ memoryTaskBase →
      ptr + len ≤ s.fs.tempAddr ∨ s.fs.tempAddr + fileSize ≤ ptr →
      s.kernel.sysRead s.fs tty c.file ptr len = .ok (r, kernel, fs) →
      s.Step (.sysRead x tty ptr len r)
        (setCursor { s with kernel := kernel, fs := fs } x { c with pos := c.pos + len })
  | other {kernel : Kernel} :
      (∀ i < fileSize, kernel.mem (s.fs.tempAddr + i) = s.kernel.mem (s.fs.tempAddr + i)) →
      s.Step .other { s with kernel := kernel }

/-- A read is made by a task whose cursor is where that of the last caller is; this task is
itself the last caller, or the two are there by chance. -/
def Undisturbed (s : Loads T) : LoadEvent T → Prop
  | .sysRead x _ _ _ _ =>
      ∀ y, s.last = some y → (s.cursor y).map Cursor.pos = (s.cursor x).map Cursor.pos
  | _ => True

/-- A read inside the file delivers its bytes from the task's own cursor on. -/
def Delivers (s s' : Loads T) : LoadEvent T → Prop
  | .sysRead x _ ptr len r =>
      ∀ c, s.cursor x = some c → c.pos + len ≤ fileSize →
        r = len ∧ ∀ j < len, s'.kernel.mem (ptr + j) = s.fs.byte (c.pos + j)
  | _ => True

end Loads

/-- The calls, from any machine on. -/
def loads (T : Type) [DecidableEq T] : TransitionSystem (Loads T) (LoadEvent T) where
  init s := (∀ x, s.cursor x = none) ∧ s.last = none
  step s e s' := s.Step e s'

namespace Loads

variable {T : Type} [DecidableEq T] {s s' : Loads T} {e : LoadEvent T}

/-- The file is in the buffer, and the shared position is that of the last caller. -/
structure Consistent (s : Loads T) : Prop where
  file : ∀ x c, s.cursor x = some c → c.file = tempFileId
  buffer : ∀ x c, s.cursor x = some c →
    ∀ i < fileSize, s.kernel.mem (s.fs.tempAddr + i) = s.fs.byte i
  last : ∀ x c, s.cursor x = some c → ∃ y c', s.last = some y ∧ s.cursor y = some c'
    ∧ s.fs.tempPos = u32 (s.fs.tempAddr + c'.pos)

/-- A call of `x` leaves its cursor where the shared position is. -/
theorem Consistent.setCursor {kernel : Kernel} {fs : TempFile} {x : T} {c : Cursor}
    (hs : s.Consistent) (hfile : c.file = tempFileId) (htemp : fs.tempAddr = s.fs.tempAddr)
    (hdisk : fs.disk = s.fs.disk)
    (hbuffer : ∀ i < fileSize, kernel.mem (s.fs.tempAddr + i) = s.fs.byte i)
    (hpos : fs.tempPos = u32 (s.fs.tempAddr + c.pos)) :
  (Loads.setCursor { s with kernel := kernel, fs := fs } x c).Consistent
  := by
  constructor
  · intro y c' hc'
    by_cases hy : y = x
    · subst hy
      obtain rfl : c = c' := by simpa [Loads.setCursor] using hc'
      apply hfile
    · apply hs.file y
      simpa [Loads.setCursor, hy] using hc'
  · intro y c' _ i hi
    change kernel.mem (fs.tempAddr + i) = fs.disk (5000 * sectorSize + i)
    rw [htemp, hdisk]
    apply hbuffer i hi
  · intro y c' _
    refine ⟨x, c, rfl, Function.update_self _ _ _, ?_⟩
    change fs.tempPos = u32 (fs.tempAddr + c.pos)
    rw [htemp]
    apply hpos

omit [DecidableEq T] in
/-- The shared position before a read that no other task has disturbed. -/
theorem Consistent.tempPos (hs : s.Consistent) {x : T} {tty : Tty} {ptr len : Nat} {r : Int}
    {c : Cursor} (hc : s.cursor x = some c)
    (hundisturbed : s.Undisturbed (.sysRead x tty ptr len r)) :
  s.fs.tempPos = u32 (s.fs.tempAddr + c.pos)
  := by
  obtain ⟨y, c', hlast, hc', hpos⟩ := hs.last x c hc
  have hsame := hundisturbed y hlast
  rw [hc, hc', Option.map_some, Option.map_some, Option.some_inj] at hsame
  rw [hpos, hsame]

theorem Consistent.step (hs : s.Consistent) (hundisturbed : s.Undisturbed e)
    (hstep : s.Step e s') :
  s'.Consistent
  := by
  cases hstep with
  | sysOpen hname hopen =>
      rw [Kernel.sysOpen_path hname] at hopen
      cases hopen
      refine hs.setCursor rfl rfl rfl ?_ ?_
      · intro i hi
        unfold fileSize at hi
        dsimp only [Kernel.readDisk]
        rw [if_pos (by omega), Nat.add_sub_cancel_left]
        rfl
      · rw [Nat.add_zero, u32_of_lt]
        have hend := s.fs.tempAddr_end
        unfold memExtStart at hend
        omega
  | @sysLseek x ptr c ret fs hc hlseek =>
      rw [Kernel.sysLseek, if_pos (hs.file x c hc)] at hlseek
      cases hlseek
      exact hs.setCursor (hs.file x c hc) rfl rfl (hs.buffer x c hc) rfl
  | @sysRead x tty ptr len c r kernel fs hc _ hptr hdisjoint hread =>
      rw [hs.file x c hc] at hread
      obtain ⟨houtside, rfl⟩ := Kernel.sysRead_outside hptr hread
      have hpos := hs.tempPos hc hundisturbed
      refine hs.setCursor (hs.file x c hc) rfl rfl ?_ ?_
      · intro i hi
        rw [houtside _ (by omega)]
        apply hs.buffer x c hc i hi
      · dsimp only
        rw [hpos, Kernel.u32_add, Nat.add_assoc]
  | other hbuffer =>
      constructor
      · apply hs.file
      · intro x c hc i hi
        rw [hbuffer i hi]
        apply hs.buffer x c hc i hi
      · apply hs.last

theorem Consistent.delivers (hs : s.Consistent) (hundisturbed : s.Undisturbed e)
    (hstep : s.Step e s') :
  s.Delivers s' e
  := by
  cases hstep with
  | @sysRead x tty ptr len c r kernel fs hc hptr' hptr hdisjoint hread =>
      intro c' hc' hlen
      obtain rfl : c = c' := Option.some.inj (hc.symm.trans hc')
      have hend := s.fs.tempAddr_end
      have hstart := s.fs.tempAddr_pos
      have hpos := hs.tempPos hc hundisturbed
      unfold fileSize sectorSize at hlen hdisjoint
      unfold memExtStart at hend
      rw [u32_of_lt (by omega)] at hpos
      rw [hs.file x c hc, Kernel.sysRead_identity hptr (by unfold memoryTaskBase; omega) (by omega)
        hptr' (by omega)] at hread
      cases hread
      refine ⟨rfl, ?_⟩
      intro j hj
      change copy s.kernel.mem ptr s.fs.tempPos len (ptr + j) = _
      rw [copy_inside _ _ hj, hpos, Nat.add_assoc]
      apply hs.buffer x c hc
      unfold fileSize sectorSize
      omega
  | sysOpen => trivial
  | sysLseek => trivial
  | other => trivial

/-- In runs whose reads are undisturbed, each read delivers the bytes of the file. -/
theorem delivers_of_reachable
    (hs : ((loads T).restrict Undisturbed).Reachable (fun _ => True) s) :
  ∀ e s', s.Undisturbed e → (loads T).step s e s' → s.Delivers s' e
  := by
  have hconsistent : s.Consistent := by
    apply hs.invariant
    · rintro s ⟨hcursor, -⟩
      constructor
      · intro x c hc
        rw [hcursor x] at hc
        cases hc
      · intro x c hc
        rw [hcursor x] at hc
        cases hc
      · intro x c hc
        rw [hcursor x] at hc
        cases hc
    · rintro s e s' hs - ⟨hundisturbed, hstep⟩
      apply hs.step hundisturbed hstep
  intro e s' hundisturbed hstep
  apply hconsistent.delivers hundisturbed hstep

/-- No file is open yet; the bytes of the disk count up. -/
def booted : Loads Bool where
  kernel := Kernel.boot 0
  fs := .low fun i => .ofNat i
  cursor _ := none
  last := none

theorem init_booted :
  (loads Bool).init booted
  := ⟨fun _ => rfl, rfl⟩

/-- A task has opened the file. -/
def opened (s : Loads Bool) (x : Bool) : Loads Bool :=
  setCursor
    { s with
      kernel := s.kernel.readDisk s.fs.disk 5000 100 s.fs.tempAddr
      fs := { s.fs with tempPos := s.fs.tempAddr } }
    x ⟨tempFileId, 0⟩

theorem step_opened (s : Loads Bool) (x : Bool) :
  (loads Bool).step s (.sysOpen x ⟨0, 0, []⟩ [47]) (s.opened x)
  := Step.sysOpen rfl (Kernel.sysOpen_path rfl)

/-- A task has moved to a position. -/
def moved (s : Loads Bool) (x : Bool) (ptr : Nat) : Loads Bool :=
  setCursor { s with fs := { s.fs with tempPos := u32 (s.fs.tempAddr + ptr) } } x ⟨tempFileId, ptr⟩

theorem step_moved {s : Loads Bool} {x : Bool} {pos : Nat}
    (h : s.cursor x = some ⟨tempFileId, pos⟩) (ptr : Nat) :
  (loads Bool).step s (.sysLseek x ptr) (s.moved x ptr)
  := Step.sysLseek h rfl

/-- A task has read one byte to the address 4096. -/
def readOne (s : Loads Bool) (x : Bool) (pos : Nat) : Loads Bool :=
  setCursor
    { s with
      kernel := { s.kernel with mem := copy s.kernel.mem 4096 s.fs.tempPos 1 }
      fs := { s.fs with tempPos := u32 (s.fs.tempPos + 1) } }
    x ⟨tempFileId, pos + 1⟩

theorem step_readOne {s : Loads Bool} {x : Bool} {pos : Nat}
    (h : s.cursor x = some ⟨tempFileId, pos⟩) (htemp : s.fs.tempAddr = 0x60000)
    (hpos : 4097 ≤ s.fs.tempPos ∧ s.fs.tempPos < memoryTaskBase) :
  (loads Bool).step s (.sysRead x ⟨0, 0, []⟩ 4096 1 1) (s.readOne x pos)
  := by
  apply Step.sysRead h
  · decide
  · decide
  · rw [htemp]
    decide
  · apply Kernel.sysRead_identity
    · decide
    · omega
    · omega
    · decide
    · omega

/-- A task has opened the file and read the byte at 7. -/
def loaded : Loads Bool :=
  ((booted.opened true).moved true 7).readOne true 7

/-- Another task does so with the byte at 9. -/
theorem delivers_booted :
  ((booted.opened true).moved true 7).Delivers loaded (.sysRead true ⟨0, 0, []⟩ 4096 1 1)
    ∧ ((loaded.opened false).moved false 9).Delivers
      (((loaded.opened false).moved false 9).readOne false 9) (.sysRead false ⟨0, 0, []⟩ 4096 1 1)
  := by
  have hopened : ((loads Bool).restrict Undisturbed).Reachable (fun _ => True)
      (booted.opened true) :=
    Reachable.step (a := .sysOpen true ⟨0, 0, []⟩ [47]) (Reachable.init init_booted) trivial
      ⟨trivial, step_opened _ _⟩
  have hmoved : ((loads Bool).restrict Undisturbed).Reachable (fun _ => True)
      ((booted.opened true).moved true 7) :=
    Reachable.step (a := .sysLseek true 7) hopened trivial ⟨trivial, step_moved rfl 7⟩
  have hundisturbed : ((booted.opened true).moved true 7).Undisturbed
      (.sysRead true ⟨0, 0, []⟩ 4096 1 1) := by
    rintro _ ⟨⟩
    rfl
  have hread : (loads Bool).step ((booted.opened true).moved true 7)
      (.sysRead true ⟨0, 0, []⟩ 4096 1 1) loaded := step_readOne rfl rfl (by decide)
  have hloaded := hmoved.step trivial ⟨hundisturbed, hread⟩
  have hsecond : ((loads Bool).restrict Undisturbed).Reachable (fun _ => True)
      (loaded.opened false) :=
    Reachable.step (a := .sysOpen false ⟨0, 0, []⟩ [47]) hloaded trivial
      ⟨trivial, step_opened _ _⟩
  have hboth : ((loads Bool).restrict Undisturbed).Reachable (fun _ => True)
      ((loaded.opened false).moved false 9) :=
    Reachable.step (a := .sysLseek false 9) hsecond trivial ⟨trivial, step_moved rfl 9⟩
  constructor
  · apply delivers_of_reachable hmoved _ _ hundisturbed hread
  · apply delivers_of_reachable hboth
    · rintro _ ⟨⟩
      rfl
    · apply step_readOne rfl rfl
      decide

/-- Both tasks have moved, and the first has read one byte. -/
theorem not_delivers_of_reachable :
  ¬ ∀ s, (loads Bool).Reachable (fun _ => True) s →
    ∀ e s', (loads Bool).step s e s' → s.Delivers s' e
  := by
  intro h
  have hopened : (loads Bool).Reachable (fun _ => True) (booted.opened true) :=
    Reachable.step (Reachable.init init_booted) trivial (step_opened _ _)
  have hboth : (loads Bool).Reachable (fun _ => True) ((booted.opened true).opened false) :=
    Reachable.step hopened trivial (step_opened _ _)
  have hmoved : (loads Bool).Reachable (fun _ => True)
      (((booted.opened true).opened false).moved true 7) :=
    Reachable.step hboth trivial (step_moved rfl 7)
  have hdisturbed : (loads Bool).Reachable (fun _ => True)
      ((((booted.opened true).opened false).moved true 7).moved false 9) :=
    Reachable.step hmoved trivial (step_moved rfl 9)
  have hdelivers := h _ hdisturbed _ _ (step_readOne (x := true) rfl rfl (by decide))
  have hbyte := (hdelivers ⟨tempFileId, 7⟩ rfl (by decide)).2 0 (by decide)
  revert hbyte
  decide

end Loads

end Dmos
