import Dmos.Dev.Fifo
import Dmos.Task.Semaphore

/-!
# The terminal

The data of a terminal, and `tty_open`.  The semaphores of a terminal are told by their places
among the semaphores of the kernel.
-/

namespace Dmos

abbrev ttyObufSize : Int := 512
abbrev ttyIbufSize : Int := 512

abbrev ttyOcrlf : Nat := 1
abbrev ttyInclr : Nat := 1
abbrev ttyIecho : Nat := 2

structure TtyDev where
  ififo : TtyFifo
  ofifo : TtyFifo
  osem : Nat
  isem : Nat
  iflags : Nat
  oflags : Nat
  consoleIdx : Int

/-- `sem_init` on a semaphore of the kernel. -/
def TaskManager.semInitAt (m : TaskManager) (i : Nat) (count : Int) : TaskManager :=
  { m with sem := Function.update m.sem i (TaskManager.semInit count) }

/-- The value returned, the semaphores and the terminal; the buffers are those of the terminal.
The keyboard and the console are initialised beside it. -/
def ttyOpen (m : TaskManager) (tty : TtyDev) (minor : Int) : Int × TaskManager × TtyDev :=
  if minor < 0 ∨ 8 ≤ minor then (-1, m, tty)
  else
    (0, (m.semInitAt tty.osem ttyObufSize).semInitAt tty.isem 0,
      { tty with
        ififo := ttyFifoInit tty.ififo.buf ttyIbufSize
        ofifo := ttyFifoInit tty.ofifo.buf ttyObufSize
        oflags := ttyOcrlf
        iflags := ttyIecho
        consoleIdx := minor })

/-- What an opened terminal has. -/
structure Opened (m : TaskManager) (tty : TtyDev) : Prop where
  osem : m.sem tty.osem = TaskManager.semInit ttyObufSize
  isem : m.sem tty.isem = TaskManager.semInit 0
  ofifo : ∃ buf, tty.ofifo = ttyFifoInit buf ttyObufSize
  ififo : ∃ buf, tty.ififo = ttyFifoInit buf ttyIbufSize

theorem opened_ttyOpen {m m' : TaskManager} {tty tty' : TtyDev} {minor : Int}
    (hsem : tty.osem ≠ tty.isem) (h : ttyOpen m tty minor = (0, m', tty')) :
  Opened m' tty'
  := by
  rw [ttyOpen] at h
  split_ifs at h
  · cases h
  · rw [Prod.mk.injEq, Prod.mk.injEq] at h
    obtain ⟨-, rfl, rfl⟩ := h
    refine ⟨?_, ?_, ⟨_, rfl⟩, ⟨_, rfl⟩⟩
    · change Function.update (Function.update m.sem tty.osem _) tty.isem _ tty.osem = _
      rw [Function.update_of_ne hsem, Function.update_self]
    · exact Function.update_self _ _ _

/-- A terminal before it is opened, with the first two semaphores. -/
def TtyDev.closed : TtyDev where
  ififo := ttyFifoInit (fun _ => 0) 0
  ofifo := ttyFifoInit (fun _ => 0) 0
  osem := 0
  isem := 1
  iflags := 0
  oflags := 0
  consoleIdx := 0

end Dmos
