import Dmos.Dev.EscParam
import Dmos.Dev.Tty
import Dmos.Library.Tally
import Dmos.Task.Blocking

/-!
# Writing to a terminal

Any number of tasks run `tty_write` and `console_write` on one terminal.  Each task is somewhere
in these functions (`WritePc`), and whichever task is current takes the next step; a step is a
call on the semaphore or on the mutex of the console, one of the two parts of `tty_fifo_put`,
a call of `tty_fifo_get`, or the drawing of a character.

A place of the output buffer is free, holds a character, or is the permit of a task between its
request and its insertion, or of one between its removal and its return of the permit.  Their
number stays that of the places (`conserved_of_reachable`), so there is always room for a
character a task has a permit for, and what comes out is what went in.
-/

open LinkedList FifoLock TransitionSystem

namespace Dmos

/-! ### The functions, step by step -/

/-- A character a task is about to write, with the rest of its buffer, how much it has written,
and whether `\r` goes first. -/
structure Writing where
  cr : Bool
  c : UInt8
  rest : List UInt8
  len : Int

/-- The character that goes to the buffer. -/
def Writing.char (x : Writing) : UInt8 :=
  -- '\r'
  if x.cr then 13 else x.c

/-- Where a task is: outside of `tty_write`, with the value it returned, or in front of one of
the steps. -/
inductive WritePc where
  | ret (len : Int)
  /-- `sem_wait` on the permits. -/
  | wait (x : Writing)
  /-- The look for room in `tty_fifo_put`. -/
  | check (x : Writing)
  /-- The protected part of `tty_fifo_put`. -/
  | put (x : Writing)
  /-- `mutex_lock` in `console_write`. -/
  | lock (rest : List UInt8) (len : Int)
  /-- `tty_fifo_get`. -/
  | get (rest : List UInt8) (len : Int)
  /-- `sem_notify` for a character taken out. -/
  | notify (ch : UInt8) (rest : List UInt8) (len : Int)
  /-- The drawing of the character. -/
  | draw (ch : UInt8) (rest : List UInt8) (len : Int)
  /-- `mutex_unlock` in `console_write`. -/
  | unlock (rest : List UInt8) (len : Int)

/-- The loop of `tty_write` with `len` characters written. -/
def ttyWrite.loop (oflags : Nat) (len : Int) : List UInt8 → WritePc
  | [] => .ret len
  -- '\n'
  | c :: rest => .wait ⟨decide (c = 10 ∧ oflags &&& ttyOcrlf ≠ 0), c, rest, len⟩

/-- The start of `tty_write` for the first `size` characters of a buffer. -/
def ttyWrite (oflags : Nat) (buf : List UInt8) (size : Int) : WritePc :=
  if size < 0 then .ret (-1) else ttyWrite.loop oflags 0 (buf.take size.toNat)

/-- The tasks, the terminal and its console, where the tasks are, and the characters that have
been inserted and taken out so far. -/
structure OutputRun where
  tasks : TaskManager
  tty : TtyDev
  console : Console
  pc : TaskRef → WritePc
  inserted : List UInt8
  taken : List UInt8

inductive OutputEvent where
  | call (buf : List UInt8) (size : Int)
  | step
  | other (m : TaskManager)

namespace OutputRun

def setPc (s : OutputRun) (p : WritePc) : OutputRun :=
  { s with pc := Function.update s.pc s.tasks.currTask p }

/-- The step of the current task, with `mutex` for the mutex of the console. -/
def step (mutex : Nat) (s : OutputRun) : Option OutputRun :=
  match s.pc s.tasks.currTask with
  | .ret _ => none
  | .wait x => some { s.setPc (.check x) with tasks := s.tasks.semWait s.tty.osem }
  | .check x =>
      if s.tty.ofifo.size ≤ s.tty.ofifo.count then some (s.setPc (.ret x.len))
      else some (s.setPc (.put x))
  | .put x =>
      let next := if x.cr then .wait { x with cr := false } else .lock x.rest (x.len + 1)
      some
        { s.setPc next with
          tty := { s.tty with ofifo := TtyFifo.ttyFifoPut.insert s.tty.ofifo x.char }
          inserted := s.inserted ++ [x.char] }
  | .lock rest len =>
      some { s.setPc (.get rest len) with tasks := s.tasks.mutexLock mutex }
  | .get rest len =>
      match s.tty.ofifo.ttyFifoGet 0 with
      | (err, ch, ofifo) =>
          if err < 0 then some (s.setPc (.unlock rest len))
          else
            some
              { s.setPc (.notify ch rest len) with
                tty := { s.tty with ofifo := ofifo }
                taken := s.taken ++ [ch] }
  | .notify ch rest len =>
      some { s.setPc (.draw ch rest len) with tasks := s.tasks.semNotify s.tty.osem }
  | .draw ch rest len =>
      match Console.consoleWrite.char s.console ch with
      | none => none
      | some console => some { s.setPc (.get rest len) with console := console }
  | .unlock rest len =>
      some
        { s.setPc (ttyWrite.loop s.tty.oflags len rest) with
          tasks := s.tasks.mutexUnlock mutex }

/-- The current task waits for a permit or for the console. -/
def Blocked (mutex : Nat) (s : OutputRun) : Prop :=
  s.tasks.currTask ∈ s.tasks.linked (.sem s.tty.osem)
    ∨ s.tasks.currTask ∈ s.tasks.linked (.mutex mutex)

end OutputRun

/-- The tasks that write to an opened terminal.  A blocked task does nothing until it is woken;
between the steps everything but the semaphore and the mutex changes as it may. -/
def ttyWrites (mutex : Nat) : TransitionSystem OutputRun OutputEvent where
  init s := Opened s.tasks s.tty ∧ s.tasks.mutex mutex = TaskManager.mutexInit ∧
    (∀ t, ∃ len, s.pc t = .ret len) ∧ s.inserted = [] ∧ s.taken = []
  step s e s' :=
    match e with
    | .call buf size =>
        ¬ s.Blocked mutex ∧ (∃ len, s.pc s.tasks.currTask = .ret len) ∧
          s' = s.setPc (ttyWrite s.tty.oflags buf size)
    | .step => ¬ s.Blocked mutex ∧ s.step mutex = some s'
    | .other m =>
        s.tasks.SameSem s.tty.osem m ∧ s.tasks.SameMutex mutex m ∧ s' = { s with tasks := m }

/-! ### Permits -/

/-- The permits a task has, once it does not wait any more. -/
def WritePc.permits : WritePc → Nat
  | .check _ => 1
  | .put _ => 1
  | .notify _ _ _ => 1
  | _ => 0

/-- The task is in `tty_fifo_put`. -/
def WritePc.inserting : WritePc → Bool
  | .check _ => true
  | .put _ => true
  | _ => false

/-- The task is about to return a permit. -/
def WritePc.returning : WritePc → Bool
  | .notify _ _ _ => true
  | _ => false

/-- The permits a task has, when the tasks `ws` wait. -/
def permitsOf (ws : List TaskRef) (pc : TaskRef → WritePc) (t : TaskRef) : Nat :=
  if t ∈ ws then 0 else (pc t).permits

section Permits

variable {ws : List TaskRef} {pc : TaskRef → WritePc} {t u : TaskRef} {p : WritePc}

theorem permitsOf_of_waiting (h : t ∈ ws) :
  permitsOf ws pc t = 0
  := if_pos h

theorem permitsOf_of_not_waiting (h : t ∉ ws) :
  permitsOf ws pc t = (pc t).permits
  := if_neg h

/-- A task that does not wait goes on. -/
theorem total_permitsOf_update (pc : TaskRef → WritePc) (p : WritePc) (ht : t ∉ ws) :
  Tally.total (permitsOf ws (Function.update pc t p)) + (pc t).permits
    = Tally.total (permitsOf ws pc) + p.permits
  := by
  have htotal := Tally.total_add_of_eq_off (f := permitsOf ws pc)
    (g := permitsOf ws (Function.update pc t p)) (t := t) (by
      intro u hu
      rw [permitsOf, permitsOf, Function.update_of_ne hu])
  rw [permitsOf_of_not_waiting ht, permitsOf_of_not_waiting ht, Function.update_self] at htotal
  exact htotal

/-- A task begins to wait. -/
theorem total_permitsOf_wait (pc : TaskRef → WritePc) (p : WritePc) (ht : t ∉ ws)
    (hpc : (pc t).permits = 0) :
  Tally.total (permitsOf (ws ++ [t]) (Function.update pc t p)) = Tally.total (permitsOf ws pc)
  := by
  have htotal := Tally.total_add_of_eq_off (f := permitsOf ws pc)
    (g := permitsOf (ws ++ [t]) (Function.update pc t p)) (t := t) (by
      intro u hu
      rw [permitsOf, permitsOf, Function.update_of_ne hu]
      simp [hu])
  rwa [permitsOf_of_not_waiting ht, permitsOf_of_waiting (by simp), hpc, Nat.add_zero,
    Nat.add_zero] at htotal

/-- The first task that waits is granted a permit. -/
theorem total_permitsOf_wake (pc : TaskRef → WritePc) (ht : t ∉ ws) :
  Tally.total (permitsOf ws pc) = Tally.total (permitsOf (t :: ws) pc) + (pc t).permits
  := by
  have htotal := Tally.total_add_of_eq_off (f := permitsOf (t :: ws) pc) (g := permitsOf ws pc)
    (t := t) (by
      intro u hu
      rw [permitsOf, permitsOf]
      simp [hu])
  rwa [permitsOf_of_not_waiting ht, permitsOf_of_waiting List.mem_cons_self, Nat.add_zero]
    at htotal

end Permits

namespace OutputRun

variable {mutex : Nat} {s s' : OutputRun} {a : Semaphore TaskRef} {l : Lock TaskRef}

/-! ### What every step preserves -/

/-- The permits are the semaphore `a`, the mutex is the lock `l`, and the characters are in
order. -/
structure Keeps (s : OutputRun) (mutex : Nat) (a : Semaphore TaskRef) (l : Lock TaskRef) :
    Prop where
  blocks : s.tasks.Blocks s.tty.osem mutex a l
  forPermit : ∀ t ∈ a.waiting, ∃ x, s.pc t = .check x
  forConsole : ∀ t ∈ l.waiting, ∃ rest len, s.pc t = .get rest len
  ofifo : s.tty.ofifo.WellFormed ttyObufSize
  permits : a.count + s.tty.ofifo.count + Tally.total (permitsOf a.waiting s.pc) = ttyObufSize
  order : s.inserted = s.taken ++ s.tty.ofifo.contents

theorem Keeps.init (h : (ttyWrites mutex).init s) :
  s.Keeps mutex (Semaphore.init 512) none
  := by
  obtain ⟨hopened, hmutex, hpc, hinserted, htaken⟩ := h
  obtain ⟨buf, hofifo⟩ := hopened.ofifo
  constructor
  · constructor
    · constructor
      · rw [hopened.osem]
        rfl
      · rw [hopened.osem]
        apply isList_init
    · constructor
      · rw [hmutex]
        rfl
      · rw [hmutex]
        rfl
      · rw [hmutex]
        apply isList_init
    · intro t ht
      cases ht
  · intro t ht
    cases ht
  · intro t ht
    cases ht
  · rw [hofifo]
    apply TtyFifo.wellFormed_ttyFifoInit
    decide
  · rw [Tally.total_eq_zero, hofifo]
    · rfl
    · intro t
      obtain ⟨len, hlen⟩ := hpc t
      rw [permitsOf, hlen]
      split_ifs <;> rfl
  · rw [hinserted, htaken, hofifo, TtyFifo.contents_ttyFifoInit]
    rfl

/-- The current task moves on, with as many permits as before or with others that were there. -/
theorem Keeps.setPc (h : s.Keeps mutex a l) (ha : s.tasks.currTask ∉ a.waiting)
    (hl : s.tasks.currTask ∉ l.waiting) {p : WritePc}
    (hp : p.permits = (s.pc s.tasks.currTask).permits) :
  (s.setPc p).Keeps mutex a l
  := by
  have htotal := total_permitsOf_update s.pc p ha
  refine ⟨h.blocks, ?_, ?_, h.ofifo, ?_, h.order⟩
  · intro t ht
    obtain ⟨x, hx⟩ := h.forPermit t ht
    refine ⟨x, ?_⟩
    rw [← hx]
    apply Function.update_of_ne
    rintro rfl
    apply ha ht
  · intro t ht
    obtain ⟨rest, len, hget⟩ := h.forConsole t ht
    refine ⟨rest, len, ?_⟩
    rw [← hget]
    apply Function.update_of_ne
    rintro rfl
    apply hl ht
  · have hpermits := h.permits
    change _ + s.tty.ofifo.count + (Tally.total (permitsOf a.waiting
      (Function.update s.pc s.tasks.currTask p)) : Nat) = ttyObufSize
    omega

/-- Where the tasks that wait for a permit are, when the current task has moved. -/
theorem Keeps.forPermit_update (h : s.Keeps mutex a l) {ws : List TaskRef} {p : WritePc}
    (hws : ∀ t ∈ ws, t ∈ a.waiting ∧ t ≠ s.tasks.currTask) :
  ∀ t ∈ ws, ∃ x, Function.update s.pc s.tasks.currTask p t = .check x
  := by
  intro t ht
  obtain ⟨hin, hne⟩ := hws t ht
  obtain ⟨x, hx⟩ := h.forPermit t hin
  exact ⟨x, by rw [Function.update_of_ne hne, hx]⟩

theorem Keeps.forConsole_update (h : s.Keeps mutex a l) {ws : List TaskRef} {p : WritePc}
    (hws : ∀ t ∈ ws, t ∈ l.waiting ∧ t ≠ s.tasks.currTask) :
  ∀ t ∈ ws, ∃ rest len, Function.update s.pc s.tasks.currTask p t = .get rest len
  := by
  intro t ht
  obtain ⟨hin, hne⟩ := hws t ht
  obtain ⟨rest, len, hget⟩ := h.forConsole t hin
  exact ⟨rest, len, by rw [Function.update_of_ne hne, hget]⟩

section Step

variable (h : s.Keeps mutex a l) (ha : s.tasks.currTask ∉ a.waiting)
  (hl : s.tasks.currTask ∉ l.waiting)

include h ha hl

theorem Keeps.wait {x : Writing} (hpc : s.pc s.tasks.currTask = .wait x) :
  Keeps { s.setPc (.check x) with tasks := s.tasks.semWait s.tty.osem } mutex
    (a.wait s.tasks.currTask ha) l
  := by
  have hblocks := h.blocks.semWait ha hl
  have hconsole : ∀ t ∈ l.waiting, t ∈ l.waiting ∧ t ≠ s.tasks.currTask := by
    intro t ht
    use ht
    rintro rfl
    apply hl ht
  have hpermit : ∀ t ∈ a.waiting, t ∈ a.waiting ∧ t ≠ s.tasks.currTask := by
    intro t ht
    use ht
    rintro rfl
    apply ha ht
  have hpermits := h.permits
  by_cases hcount : 0 < a.count
  · obtain ⟨hcount', hwaiting⟩ := Semaphore.wait_granted ha hcount
    refine ⟨hblocks, ?_, h.forConsole_update hconsole, h.ofifo, ?_, h.order⟩
    · rw [hwaiting]
      exact h.forPermit_update hpermit
    · have htotal := total_permitsOf_update s.pc (.check x) ha
      rw [hpc] at htotal
      change _ + 0 = _ + 1 at htotal
      rw [hwaiting, hcount']
      change (a.count - 1 : Nat) + s.tty.ofifo.count + (Tally.total (permitsOf a.waiting
        (Function.update s.pc s.tasks.currTask (.check x))) : Nat) = ttyObufSize
      omega
  · obtain ⟨hcount', hwaiting⟩ := Semaphore.wait_blocked ha hcount
    refine ⟨hblocks, ?_, h.forConsole_update hconsole, h.ofifo, ?_, h.order⟩
    · rw [hwaiting]
      intro t ht
      rcases List.mem_append.mp ht with ht | ht
      · exact h.forPermit_update hpermit t ht
      · rw [List.mem_singleton] at ht
        subst ht
        exact ⟨x, Function.update_self _ _ _⟩
    · have htotal := total_permitsOf_wait s.pc (.check x) ha (by rw [hpc]; rfl)
      rw [hwaiting, hcount']
      change a.count + s.tty.ofifo.count + (Tally.total (permitsOf (a.waiting
        ++ [s.tasks.currTask]) (Function.update s.pc s.tasks.currTask (.check x))) : Nat) = ttyObufSize
      omega

omit hl in
/-- A task with a permit finds room. -/
theorem Keeps.room (hpc : (s.pc s.tasks.currTask).permits = 1) :
  s.tty.ofifo.count < s.tty.ofifo.size
  := by
  have hpermits := h.permits
  have hle := Tally.le_total (permitsOf a.waiting s.pc) s.tasks.currTask
  rw [permitsOf_of_not_waiting ha, hpc] at hle
  rw [h.ofifo.size_eq]
  omega

theorem Keeps.put {x : Writing} (hpc : s.pc s.tasks.currTask = .put x) {p : WritePc}
    (hp : p.permits = 0) :
  Keeps
    { s.setPc p with
      tty := { s.tty with ofifo := TtyFifo.ttyFifoPut.insert s.tty.ofifo x.char }
      inserted := s.inserted ++ [x.char] } mutex a l
  := by
  have hroom := h.room ha (by rw [hpc]; rfl)
  rw [h.ofifo.size_eq] at hroom
  obtain ⟨hformed, hcontents⟩ := h.ofifo.insert (c := x.char) hroom
  have htotal := total_permitsOf_update s.pc p ha
  rw [hpc, hp] at htotal
  change _ + 1 = _ + 0 at htotal
  have hpermits := h.permits
  refine ⟨h.blocks, h.forPermit_update ?_, h.forConsole_update ?_, hformed, ?_, ?_⟩
  · intro t ht
    use ht
    rintro rfl
    apply ha ht
  · intro t ht
    use ht
    rintro rfl
    apply hl ht
  · change a.count + (s.tty.ofifo.count + 1) + (Tally.total (permitsOf a.waiting
      (Function.update s.pc s.tasks.currTask p)) : Nat) = ttyObufSize
    omega
  · change s.inserted ++ [x.char] = s.taken ++ (TtyFifo.ttyFifoPut.insert s.tty.ofifo x.char).contents
    rw [hcontents, h.order, List.append_assoc]

theorem Keeps.lock {rest : List UInt8} {len : Int}
    (hpc : s.pc s.tasks.currTask = .lock rest len) :
  Keeps { s.setPc (.get rest len) with tasks := s.tasks.mutexLock mutex } mutex a
    (l.acquire s.tasks.currTask hl)
  := by
  have hnext := h.setPc ha hl (p := .get rest len) (by rw [hpc]; rfl)
  refine ⟨h.blocks.mutexLock ha hl, hnext.forPermit, ?_, h.ofifo, hnext.permits, h.order⟩
  intro t ht
  rcases Lock.mem_acquire hl ht with ht | rfl
  · apply hnext.forConsole t ht
  · exact ⟨rest, len, Function.update_self _ _ _⟩

theorem Keeps.get {rest : List UInt8} {len : Int} (hpc : s.pc s.tasks.currTask = .get rest len)
    (hcount : 0 < s.tty.ofifo.count) :
  Keeps
    { s.setPc (.notify (TtyFifo.ttyFifoGet.remove s.tty.ofifo).1 rest len) with
      tty := { s.tty with ofifo := (TtyFifo.ttyFifoGet.remove s.tty.ofifo).2 }
      taken := s.taken ++ [(TtyFifo.ttyFifoGet.remove s.tty.ofifo).1] } mutex a l
  := by
  obtain ⟨hformed, hcontents⟩ := h.ofifo.remove hcount
  have htotal := total_permitsOf_update s.pc
    (.notify (TtyFifo.ttyFifoGet.remove s.tty.ofifo).1 rest len) ha
  rw [hpc] at htotal
  change _ + 0 = _ + 1 at htotal
  have hpermits := h.permits
  refine ⟨h.blocks, h.forPermit_update ?_, h.forConsole_update ?_, hformed, ?_, ?_⟩
  · intro t ht
    use ht
    rintro rfl
    apply ha ht
  · intro t ht
    use ht
    rintro rfl
    apply hl ht
  · change a.count + (s.tty.ofifo.count - 1) + (Tally.total (permitsOf a.waiting
      (Function.update s.pc s.tasks.currTask _)) : Nat) = ttyObufSize
    omega
  · change s.inserted = s.taken ++ [(TtyFifo.ttyFifoGet.remove s.tty.ofifo).1]
      ++ (TtyFifo.ttyFifoGet.remove s.tty.ofifo).2.contents
    rw [h.order, hcontents, List.append_assoc, List.singleton_append]

theorem Keeps.notify {ch : UInt8} {rest : List UInt8} {len : Int}
    (hpc : s.pc s.tasks.currTask = .notify ch rest len) :
  Keeps { s.setPc (.draw ch rest len) with tasks := s.tasks.semNotify s.tty.osem } mutex a.notify l
  := by
  have htotal := total_permitsOf_update s.pc (.draw ch rest len) ha
  rw [hpc] at htotal
  change _ + 1 = _ + 0 at htotal
  have hpermits := h.permits
  have hpermit : ∀ t ∈ a.notify.waiting, t ∈ a.waiting ∧ t ≠ s.tasks.currTask := by
    intro t ht
    have hin := Semaphore.mem_notify ht
    use hin
    rintro rfl
    apply ha hin
  refine ⟨h.blocks.semNotify, h.forPermit_update hpermit, h.forConsole_update ?_, h.ofifo, ?_,
    h.order⟩
  · intro t ht
    use ht
    rintro rfl
    apply hl ht
  · change (a.notify.count : Nat) + s.tty.ofifo.count + (Tally.total (permitsOf a.notify.waiting
      (Function.update s.pc s.tasks.currTask (.draw ch rest len))) : Nat) = ttyObufSize
    rcases hwaiting : a.waiting with _ | ⟨t, ts⟩
    · obtain ⟨hcount', hwaiting'⟩ := Semaphore.notify_idle hwaiting
      rw [hwaiting] at htotal hpermits
      rw [hcount', hwaiting']
      omega
    · -- the permit goes to the first task that waits, which is at the look for room
      obtain ⟨hcount', hwaiting'⟩ := Semaphore.notify_waiting hwaiting
      have hnodup := a.nodup
      have hin : t ∈ a.waiting := by
        rw [hwaiting]
        apply List.mem_cons_self
      have hne : t ≠ s.tasks.currTask := by
        rintro rfl
        apply ha hin
      rw [hwaiting, List.nodup_cons] at hnodup
      obtain ⟨x, hx⟩ := h.forPermit t hin
      have hwake := total_permitsOf_wake
        (Function.update s.pc s.tasks.currTask (.draw ch rest len)) hnodup.1
      rw [Function.update_of_ne hne, hx] at hwake
      change _ = _ + 1 at hwake
      rw [hwaiting] at htotal hpermits
      rw [hcount', hwaiting']
      omega

theorem Keeps.unlock {rest : List UInt8} {len : Int} {p : WritePc}
    (hpc : s.pc s.tasks.currTask = .unlock rest len) (hp : p.permits = 0) :
  Keeps { s.setPc p with tasks := s.tasks.mutexUnlock mutex } mutex a
    (l.release s.tasks.currTask)
  := by
  have hnext := h.setPc ha hl (p := p) (by rw [hpc, hp]; rfl)
  refine ⟨h.blocks.mutexUnlock, hnext.forPermit, ?_, h.ofifo, hnext.permits, h.order⟩
  intro t ht
  apply hnext.forConsole t (Lock.mem_release ht)

end Step

theorem permits_loop (oflags : Nat) (len : Int) (buf : List UInt8) :
  (ttyWrite.loop oflags len buf).permits = 0
  := by cases buf <;> rfl

theorem permits_ttyWrite (oflags : Nat) (buf : List UInt8) (size : Int) :
  (ttyWrite oflags buf size).permits = 0
  := by
  rw [ttyWrite]
  split_ifs
  · rfl
  · apply permits_loop

theorem Keeps.not_waiting (h : s.Keeps mutex a l) (hblocked : ¬ s.Blocked mutex) :
  s.tasks.currTask ∉ a.waiting ∧ s.tasks.currTask ∉ l.waiting
  := by
  rw [Blocked, h.blocks.isSem.linked, h.blocks.isLock.linked, not_or] at hblocked
  exact hblocked

theorem Keeps.step (h : s.Keeps mutex a l) (hblocked : ¬ s.Blocked mutex)
    (hstep : s.step mutex = some s') :
  ∃ a' l', s'.Keeps mutex a' l'
  := by
  obtain ⟨ha, hl⟩ := h.not_waiting hblocked
  rw [OutputRun.step] at hstep
  cases hpc : s.pc s.tasks.currTask with
  | ret len =>
      rw [hpc] at hstep
      cases hstep
  | wait x =>
      rw [hpc] at hstep
      cases hstep
      exact ⟨_, _, h.wait ha hl hpc⟩
  | check x =>
      rw [hpc] at hstep
      have hroom := h.room ha (by rw [hpc]; rfl)
      dsimp only at hstep
      rw [if_neg (by omega)] at hstep
      cases hstep
      exact ⟨_, _, h.setPc ha hl (by rw [hpc]; rfl)⟩
  | put x =>
      rw [hpc] at hstep
      cases hstep
      exact ⟨_, _, h.put ha hl hpc (by split_ifs <;> rfl)⟩
  | lock rest len =>
      rw [hpc] at hstep
      cases hstep
      exact ⟨_, _, h.lock ha hl hpc⟩
  | get rest len =>
      rw [hpc] at hstep
      dsimp only at hstep
      by_cases hcount : 0 < s.tty.ofifo.count
      · rw [TtyFifo.ttyFifoGet_of_pos hcount] at hstep
        cases hstep
        exact ⟨_, _, h.get ha hl hpc hcount⟩
      · rw [TtyFifo.ttyFifoGet_of_empty (by omega)] at hstep
        cases hstep
        exact ⟨_, _, h.setPc ha hl (by rw [hpc]; rfl)⟩
  | notify ch rest len =>
      rw [hpc] at hstep
      cases hstep
      exact ⟨_, _, h.notify ha hl hpc⟩
  | draw ch rest len =>
      rw [hpc] at hstep
      dsimp only at hstep
      cases hchar : Console.consoleWrite.char s.console ch with
      | none =>
          rw [hchar] at hstep
          cases hstep
      | some console =>
          rw [hchar] at hstep
          cases hstep
          have hnext := h.setPc ha hl (p := .get rest len) (by rw [hpc]; rfl)
          exact ⟨a, l, hnext.blocks, hnext.forPermit, hnext.forConsole, hnext.ofifo, hnext.permits,
            hnext.order⟩
  | unlock rest len =>
      rw [hpc] at hstep
      cases hstep
      exact ⟨_, _, h.unlock ha hl hpc (permits_loop _ _ _)⟩

/-! ### What holds in every run -/

/-- The writers that have been granted a permit and have not inserted yet. -/
def granted (s : OutputRun) : Finset TaskRef :=
  Finset.univ.filter fun t =>
    (s.pc t).inserting = true ∧ t ∉ s.tasks.linked (.sem s.tty.osem)

/-- The tasks that have taken out a character whose permit is not yet returned. -/
def returning (s : OutputRun) : Finset TaskRef :=
  Finset.univ.filter fun t => (s.pc t).returning = true

/-- No character is lost, duplicated or reordered. -/
structure Conserved (s : OutputRun) : Prop where
  permits : s.tasks.semCount s.tty.osem + s.tty.ofifo.count + s.granted.card + s.returning.card
    = ttyObufSize
  put : ∀ t ∈ s.granted, ∀ c, (s.tty.ofifo.ttyFifoPut c).1 = 0
  count : 0 ≤ s.tty.ofifo.count ∧ s.tty.ofifo.count ≤ ttyObufSize
  order : s.taken ++ s.tty.ofifo.contents = s.inserted

theorem Keeps.conserved (h : s.Keeps mutex a l) :
  s.Conserved
  := by
  have hlinked := h.blocks.isSem.linked
  have htotal : Tally.total (permitsOf a.waiting s.pc) = s.granted.card + s.returning.card := by
    apply Tally.total_eq_card_add_card
    intro t
    rw [hlinked]
    by_cases ht : t ∈ a.waiting
    · obtain ⟨x, hx⟩ := h.forPermit t ht
      rw [permitsOf_of_waiting ht, if_neg (fun h => h.2 ht), hx]
      rfl
    · rw [permitsOf_of_not_waiting ht]
      cases s.pc t <;> simp [WritePc.permits, WritePc.inserting, WritePc.returning, ht]
  have hpermits := h.permits
  refine ⟨?_, ?_, h.ofifo.count, h.order.symm⟩
  · rw [TaskManager.semCount, h.blocks.isSem.count]
    omega
  · intro t ht c
    have hpos : 0 < s.granted.card := Finset.card_pos.mpr ⟨t, ht⟩
    have hsize := h.ofifo.size_eq
    rw [TtyFifo.ttyFifoPut_of_room (by omega)]

/-- In every run the places of the buffer are accounted for, an insertion always finds room, and
what has been taken out and what is still there is what has been inserted. -/
theorem conserved_of_reachable (h : (ttyWrites mutex).Reachable (fun _ => True) s) :
  s.Conserved
  := by
  have hkeeps : ∃ a l, s.Keeps mutex a l := by
    apply h.invariant (I := fun s => ∃ a l, s.Keeps mutex a l)
    · intro s hinit
      exact ⟨_, _, Keeps.init hinit⟩
    · rintro s e s' ⟨a, l, hs⟩ - hstep
      cases e with
      | call buf size =>
          obtain ⟨hblocked, ⟨len, hlen⟩, rfl⟩ := hstep
          obtain ⟨ha, hl⟩ := hs.not_waiting hblocked
          refine ⟨a, l, hs.setPc ha hl ?_⟩
          rw [hlen, permits_ttyWrite]
          rfl
      | step => exact hs.step hstep.1 hstep.2
      | other m =>
          obtain ⟨hsem, hmutex, rfl⟩ := hstep
          exact ⟨a, l, hs.blocks.congr hsem hmutex, hs.forPermit, hs.forConsole, hs.ofifo,
            hs.permits, hs.order⟩
  obtain ⟨a, l, hs⟩ := hkeeps
  apply hs.conserved

/-- An opened terminal, before anything is written to it. -/
def opened : OutputRun where
  tasks := (ttyOpen Machine.started.tasks TtyDev.closed 0).2.1
  tty := (ttyOpen Machine.started.tasks TtyDev.closed 0).2.2
  console := Console.blank
  pc _ := .ret 0
  inserted := []
  taken := []

theorem opened_init :
  (ttyWrites 0).init opened
  := by
  have hopen : ttyOpen Machine.started.tasks TtyDev.closed 0 = (0, opened.tasks, opened.tty) := rfl
  exact ⟨opened_ttyOpen (by decide) hopen, rfl, fun _ => ⟨0, rfl⟩, rfl, rfl⟩

instance (mutex : Nat) (s : OutputRun) : Decidable (s.Blocked mutex) :=
  inferInstanceAs (Decidable (_ ∨ _))

/-- A call with one character, after some steps. -/
def written : Nat → OutputRun
  | 0 => opened.setPc (ttyWrite opened.tty.oflags [72] 1)
  | n + 1 => ((written n).step 0).getD (written n)

theorem reachable_written {n : Nat}
    (h : ∀ k < n, ¬ (written k).Blocked 0 ∧ ((written k).step 0).isSome = true) :
  (ttyWrites 0).Reachable (fun _ => True) (written n)
  := by
  induction n with
  | zero =>
      apply Reachable.step (a := .call [72] 1) (.init opened_init) trivial
      refine ⟨?_, ⟨0, rfl⟩, rfl⟩
      rintro (h | h) <;> cases h
  | succ n ih =>
      obtain ⟨hblocked, hsome⟩ := h n (Nat.lt_add_one n)
      obtain ⟨s, hs⟩ := Option.isSome_iff_exists.mp hsome
      apply Reachable.step (a := .step) (ih fun k hk => h k (by omega)) trivial
      refine ⟨hblocked, ?_⟩
      rw [written, hs]
      rfl

/-- The character is inserted, taken out and drawn, and its permit is returned. -/
theorem conserved_opened :
  ((written 3).inserted = [72] ∧ (written 5).taken = [72])
    ∧ ((written 3).tasks.semCount (written 3).tty.osem = 511
      ∧ (written 9).tasks.semCount (written 9).tty.osem = 512)
    ∧ (written 3).Conserved ∧ (written 5).Conserved ∧ (written 9).Conserved
  := by
  have hsteps : ∀ k < 9, ¬ (written k).Blocked 0 ∧ ((written k).step 0).isSome = true := by
    decide +kernel
  have hconserved (n : Nat) (hn : n ≤ 9) : (written n).Conserved :=
    conserved_of_reachable (reachable_written fun k hk => hsteps k (by omega))
  refine ⟨by decide +kernel, by decide +kernel, ?_, ?_, ?_⟩
  · apply hconserved 3 (by decide)
  · apply hconserved 5 (by decide)
  · apply hconserved 9 (by decide)

end OutputRun

end Dmos
