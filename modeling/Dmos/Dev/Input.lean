import Dmos.Dev.Tty

/-!
# Reading from a terminal

The keyboard interrupt puts a character in the input buffer of the current terminal and gives a
permit for it; a task in `tty_read` takes a permit and then a character.  The interrupt looks for
room at the permits, though, and between the two steps of the reader there is one permit less than
there are characters.  A character that comes then, to a full buffer, is lost, and its permit is
given all the same (`buffered_of_reachable`).
-/

open LinkedList TransitionSystem

namespace Dmos

/-! ### The functions, step by step -/

/-- `tty_in` on the current terminal. -/
def ttyIn (m : TaskManager) (tty : TtyDev) (ch : UInt8) : TaskManager × TtyDev :=
  if ttyIbufSize ≤ m.semCount tty.isem then (m, tty)
  else (m.semNotify tty.isem, { tty with ififo := (tty.ififo.ttyFifoPut ch).2 })

/-- A call of `tty_read`: the size of its buffer, and what it has read. -/
structure Reading where
  size : Int
  len : Int
  buf : List UInt8

/-- Where the reader is: outside of `tty_read`, with the value it returned, or in front of one
of the steps. -/
inductive ReadPc where
  | ret (len : Int) (buf : List UInt8)
  /-- `sem_wait` on the permits. -/
  | wait (x : Reading)
  /-- `tty_fifo_get`. -/
  | get (x : Reading)
  /-- `tty_write` of the character. -/
  | echo (ch : UInt8) (x : Reading)

/-- The loop of `tty_read`. -/
def ttyRead.loop (x : Reading) : ReadPc :=
  if x.len < x.size then .wait x else .ret x.len x.buf

/-- The start of `tty_read`. -/
def ttyRead (size : Int) : ReadPc :=
  if size < 0 then .ret (-1) [] else ttyRead.loop ⟨size, 0, []⟩

/-- A character goes to the buffer of the reader. -/
def ttyRead.store (iflags : Nat) (x : Reading) (ch : UInt8) : Reading :=
  -- '\n', '\r'
  if ch = 10 ∧ iflags &&& ttyInclr ≠ 0 ∧ x.len < x.size - 1 then
    { x with len := x.len + 2, buf := x.buf ++ [13, 10] }
  else { x with len := x.len + 1, buf := x.buf ++ [ch] }

/-- The end of an iteration. -/
def ttyRead.next (x : Reading) (ch : UInt8) : ReadPc :=
  if ch = 10 ∨ ch = 13 then .ret x.len x.buf else ttyRead.loop x

/-- The tasks, the terminal and where the reader is. -/
structure InputRun where
  tasks : TaskManager
  tty : TtyDev
  pc : ReadPc

inductive InputEvent where
  | interrupt (ch : UInt8)
  | call (size : Int)
  | wait
  /-- The local `ch` of `tty_read` has some value before. -/
  | get (ch : UInt8)
  | echoed
  | other (m : TaskManager)

namespace InputRun

/-- The reader runs, and does not wait for a permit. -/
def Running (reader : TaskRef) (s : InputRun) : Prop :=
  s.tasks.currTask = reader ∧ reader ∉ s.tasks.linked (.sem s.tty.isem)

def afterGet (s : InputRun) (x : Reading) (ch : UInt8) (ififo : TtyFifo) : InputRun :=
  let x := ttyRead.store s.tty.iflags x ch
  { s with
    tty := { s.tty with ififo := ififo }
    pc := if s.tty.iflags &&& ttyIecho ≠ 0 then .echo ch x else ttyRead.next x ch }

/-- The steps.  The echo leaves the input alone. -/
inductive Step (reader : TaskRef) : InputRun → InputEvent → InputRun → Prop
  | interrupt (s : InputRun) (ch : UInt8) :
      Step reader s (.interrupt ch)
        { s with tasks := (ttyIn s.tasks s.tty ch).1, tty := (ttyIn s.tasks s.tty ch).2 }
  | call (s : InputRun) (size : Int) {len : Int} {buf : List UInt8} :
      s.pc = .ret len buf → Step reader s (.call size) { s with pc := ttyRead size }
  | wait (s : InputRun) {x : Reading} : s.Running reader → s.pc = .wait x →
      Step reader s .wait { s with tasks := s.tasks.semWait s.tty.isem, pc := .get x }
  | get (s : InputRun) (ch : UInt8) {x : Reading} : s.Running reader → s.pc = .get x →
      Step reader s (.get ch)
        (s.afterGet x (s.tty.ififo.ttyFifoGet ch).2.1 (s.tty.ififo.ttyFifoGet ch).2.2)
  | echoed (s : InputRun) {ch : UInt8} {x : Reading} : s.pc = .echo ch x →
      Step reader s .echoed { s with pc := ttyRead.next x ch }
  | other (s : InputRun) (m : TaskManager) : s.tasks.SameSem s.tty.isem m →
      Step reader s (.other m) { s with tasks := m }

/-- The reader has been granted a permit that it has not used yet. -/
def granted (reader : TaskRef) (s : InputRun) : Nat :=
  match s.pc with
  | .get _ => if reader ∈ s.tasks.linked (.sem s.tty.isem) then 0 else 1
  | _ => 0

/-- Every permit stands for a character, and the reader finds one with its own. -/
structure Buffered (reader : TaskRef) (s : InputRun) : Prop where
  permits : s.tasks.semCount s.tty.isem + s.granted reader ≤ s.tty.ififo.count
  get : ∀ x, s.pc = .get x → reader ∉ s.tasks.linked (.sem s.tty.isem) →
    ∀ ch, (s.tty.ififo.ttyFifoGet ch).1 = 0

/-- An interrupt does not find the buffer full while there is a permit less. -/
def FindsRoom (s : InputRun) : InputEvent → Prop
  | .interrupt _ =>
      s.tasks.semCount s.tty.isem < ttyIbufSize → s.tty.ififo.count < s.tty.ififo.size
  | _ => True

end InputRun

/-- One reader and the keyboard, on an opened terminal. -/
def ttyReads (reader : TaskRef) : TransitionSystem InputRun InputEvent where
  init s := Opened s.tasks s.tty ∧ ∃ len buf, s.pc = .ret len buf
  step := InputRun.Step reader

namespace InputRun

variable {reader : TaskRef} {s s' : InputRun} {a : Semaphore TaskRef}

/-- The permits are the semaphore `a`, for which only the reader waits, and there is one for each
character. -/
structure Keeps (s : InputRun) (reader : TaskRef) (a : Semaphore TaskRef) : Prop where
  isSem : s.tasks.IsSem s.tty.isem a
  waiting : ∀ t ∈ a.waiting, t = reader ∧ ∃ x, s.pc = .get x
  ififo : s.tty.ififo.WellFormed ttyIbufSize
  permits : a.count + s.granted reader = s.tty.ififo.count

theorem Keeps.init (h : (ttyReads reader).init s) :
  s.Keeps reader (Semaphore.init 0)
  := by
  obtain ⟨hopened, len, buf, hpc⟩ := h
  obtain ⟨cells, hififo⟩ := hopened.ififo
  constructor
  · constructor
    · rw [hopened.isem]
      rfl
    · rw [hopened.isem]
      apply isList_init
  · intro t ht
    cases ht
  · rw [hififo]
    apply TtyFifo.wellFormed_ttyFifoInit
    decide
  · rw [granted, hpc, hififo]
    rfl

/-- The permit of the reader in front of `tty_fifo_get`. -/
theorem Keeps.granted_get (h : s.Keeps reader a) {x : Reading} (hpc : s.pc = .get x) :
  s.granted reader = if reader ∈ a.waiting then 0 else 1
  := by rw [granted, hpc, h.isSem.linked]

theorem granted_of_ne (reader : TaskRef) (hpc : ∀ x, s.pc ≠ .get x) :
  s.granted reader = 0
  := by
  unfold granted
  split
  next x hx => cases hpc x hx
  next => rfl

/-- The state after `tty_in` when there are fewer permits than places. -/
theorem ttyIn_of_lt {m : TaskManager} {tty : TtyDev} (ch : UInt8)
    (h : m.semCount tty.isem < ttyIbufSize) :
  ttyIn m tty ch = (m.semNotify tty.isem, { tty with ififo := (tty.ififo.ttyFifoPut ch).2 })
  := if_neg (Int.not_le.mpr h)

/-- The permits after an interrupt that gives one. -/
theorem Keeps.notify (h : s.Keeps reader a) (ififo : TtyFifo) :
  a.notify.count + granted reader
      { s with
        tasks := s.tasks.semNotify s.tty.isem
        tty := { s.tty with ififo := ififo } } = a.count + s.granted reader + 1
  := by
  have hsem := h.isSem.semNotify
  rcases hwaiting : a.waiting with _ | ⟨t, ts⟩
  · obtain ⟨hcount, hwaiting'⟩ := Semaphore.notify_idle hwaiting
    have hgranted : granted reader
        { s with
          tasks := s.tasks.semNotify s.tty.isem
          tty := { s.tty with ififo := ififo } } = s.granted reader := by
      unfold granted
      dsimp only
      rw [hsem.linked, h.isSem.linked, hwaiting, hwaiting']
    omega
  · -- the reader waits, so it is in front of `tty_fifo_get`
    obtain ⟨hcount, hwaiting'⟩ := Semaphore.notify_waiting hwaiting
    obtain ⟨rfl, x, hpc⟩ := h.waiting t (by rw [hwaiting]; exact List.mem_cons_self)
    have hnodup := a.nodup
    rw [hwaiting, List.nodup_cons] at hnodup
    have hbefore := h.granted_get hpc
    rw [hwaiting, if_pos List.mem_cons_self] at hbefore
    have hafter : granted t
        { s with
          tasks := s.tasks.semNotify s.tty.isem
          tty := { s.tty with ififo := ififo } } = 1 := by
      rw [granted]
      dsimp only
      rw [hpc]
      dsimp only
      rw [hsem.linked, hwaiting', if_neg hnodup.1]
    omega

theorem Keeps.interrupt (h : s.Keeps reader a) (ch : UInt8)
    (hroom : s.FindsRoom (.interrupt ch)) :
  ∃ a', Keeps { s with tasks := (ttyIn s.tasks s.tty ch).1, tty := (ttyIn s.tasks s.tty ch).2 }
    reader a'
  := by
  by_cases hlt : s.tasks.semCount s.tty.isem < ttyIbufSize
  · have hput := hroom hlt
    have hsize := h.ififo.size_eq
    obtain ⟨hformed, -⟩ := h.ififo.insert (c := ch) (by omega)
    have hnotify := h.notify (TtyFifo.ttyFifoPut.insert s.tty.ififo ch)
    rw [ttyIn_of_lt ch hlt, TtyFifo.ttyFifoPut_of_room hput]
    refine ⟨a.notify, h.isSem.semNotify, ?_, hformed, ?_⟩
    · intro t ht
      apply h.waiting t (Semaphore.mem_notify ht)
    · have hpermits := h.permits
      change _ = s.tty.ififo.count + 1
      dsimp only at hnotify ⊢
      omega
  · rw [ttyIn, if_pos (Int.not_lt.mp hlt)]
    exact ⟨a, h⟩

theorem loop_ne_get (x y : Reading) :
  ttyRead.loop x ≠ .get y
  := by
  rw [ttyRead.loop]
  split_ifs <;> nofun

theorem next_ne_get (x y : Reading) (ch : UInt8) :
  ttyRead.next x ch ≠ .get y
  := by
  rw [ttyRead.next]
  split_ifs
  · nofun
  · apply loop_ne_get

theorem ttyRead_ne_get (size : Int) (y : Reading) :
  ttyRead size ≠ .get y
  := by
  rw [ttyRead]
  split_ifs
  · nofun
  · apply loop_ne_get

/-- The reader moves outside of its two steps. -/
theorem Keeps.setPc (h : s.Keeps reader a) {p : ReadPc} (hpc : ∀ x, s.pc ≠ .get x)
    (hp : ∀ x, p ≠ .get x) :
  Keeps { s with pc := p } reader a
  := by
  have hbefore := granted_of_ne reader hpc
  have hafter : granted reader { s with pc := p } = 0 := granted_of_ne reader hp
  have hpermits := h.permits
  refine ⟨h.isSem, ?_, h.ififo, ?_⟩
  · intro t ht
    obtain ⟨-, x, hx⟩ := h.waiting t ht
    cases hpc x hx
  · rw [hafter]
    dsimp only
    omega

theorem Keeps.wait (h : s.Keeps reader a) (hrun : s.Running reader) {x : Reading}
    (hpc : s.pc = .wait x) :
  ∃ a', Keeps { s with tasks := s.tasks.semWait s.tty.isem, pc := .get x } reader a'
  := by
  obtain ⟨hcurr, hnot⟩ := hrun
  rw [h.isSem.linked] at hnot
  have ht : s.tasks.currTask ∉ a.waiting := by
    rw [hcurr]
    exact hnot
  have hsem := h.isSem.semWait ht
  have hbefore : s.granted reader = 0 := by
    apply granted_of_ne reader
    intro y hy
    rw [hpc] at hy
    cases hy
  have hafter : granted reader { s with tasks := s.tasks.semWait s.tty.isem, pc := .get x }
      = if reader ∈ (a.wait s.tasks.currTask ht).waiting then 0 else 1 := by
    rw [granted]
    dsimp only
    rw [hsem.linked]
  have hpermits := h.permits
  refine ⟨a.wait s.tasks.currTask ht, hsem, ?_, h.ififo, ?_⟩
  · intro t hin
    rcases Semaphore.mem_wait ht hin with hin | rfl
    · exact ⟨(h.waiting t hin).1, x, rfl⟩
    · exact ⟨hcurr, x, rfl⟩
  · rw [hafter]
    change _ = s.tty.ififo.count
    by_cases hcount : 0 < a.count
    · obtain ⟨hcount', hwaiting⟩ := Semaphore.wait_granted ht hcount
      rw [hwaiting, if_neg hnot, hcount']
      omega
    · obtain ⟨hcount', hwaiting⟩ := Semaphore.wait_blocked ht hcount
      rw [hwaiting, if_pos (by rw [hcurr]; simp), hcount']
      omega

theorem Keeps.get_pos (h : s.Keeps reader a) {x : Reading} (hpc : s.pc = .get x)
    (hnot : reader ∉ s.tasks.linked (.sem s.tty.isem)) :
  0 < s.tty.ififo.count
  := by
  have hgranted := h.granted_get hpc
  rw [h.isSem.linked] at hnot
  rw [if_neg hnot] at hgranted
  have hpermits := h.permits
  omega

theorem Keeps.get (h : s.Keeps reader a) (hrun : s.Running reader) {x : Reading}
    (hpc : s.pc = .get x) (ch : UInt8) :
  (s.afterGet x (s.tty.ififo.ttyFifoGet ch).2.1 (s.tty.ififo.ttyFifoGet ch).2.2).Keeps reader a
  := by
  have hpos := h.get_pos hpc hrun.2
  have hgranted := h.granted_get hpc
  have hnot := hrun.2
  rw [h.isSem.linked] at hnot
  rw [if_neg hnot] at hgranted
  have hpermits := h.permits
  have hafter (c : UInt8) (f : TtyFifo) : (s.afterGet x c f).granted reader = 0 := by
    apply granted_of_ne reader
    intro y
    rw [afterGet]
    dsimp only
    split_ifs
    · nofun
    · apply next_ne_get
  rw [TtyFifo.ttyFifoGet_of_pos hpos]
  refine ⟨h.isSem, ?_, (h.ififo.remove hpos).1, ?_⟩
  · intro t hin
    obtain ⟨rfl, -⟩ := h.waiting t hin
    cases hnot hin
  · rw [hafter]
    change (a.count : Int) + 0 = s.tty.ififo.count - 1
    omega

theorem Keeps.other (h : s.Keeps reader a) {m : TaskManager} (hsame : s.tasks.SameSem s.tty.isem m) :
  Keeps { s with tasks := m } reader a
  := by
  have hsem : m.IsSem s.tty.isem a := by
    apply h.isSem.congr hsame.sem
    intro t ht
    apply hsame.node
    rw [h.isSem.linked]
    apply ht
  have hgranted : granted reader { s with tasks := m } = s.granted reader := by
    unfold granted
    dsimp only
    rw [hsem.linked, h.isSem.linked]
  refine ⟨hsem, h.waiting, h.ififo, ?_⟩
  rw [hgranted]
  apply h.permits

theorem Keeps.step (h : s.Keeps reader a) {e : InputEvent} (hroom : s.FindsRoom e)
    (hstep : Step reader s e s') :
  ∃ a', s'.Keeps reader a'
  := by
  cases hstep with
  | interrupt ch => exact h.interrupt ch hroom
  | call size hpc =>
      refine ⟨a, h.setPc ?_ (ttyRead_ne_get size)⟩
      intro x hx
      rw [hpc] at hx
      cases hx
  | wait hrun hpc => exact h.wait hrun hpc
  | get ch hrun hpc => exact ⟨a, h.get hrun hpc ch⟩
  | echoed hpc =>
      refine ⟨a, h.setPc ?_ fun y => next_ne_get _ y _⟩
      intro x hx
      rw [hpc] at hx
      cases hx
  | other m hsame => exact ⟨a, h.other hsame⟩

theorem Keeps.buffered (h : s.Keeps reader a) :
  s.Buffered reader
  := by
  have hpermits := h.permits
  constructor
  · rw [TaskManager.semCount, h.isSem.count]
    omega
  · intro x hpc hnot ch
    rw [TtyFifo.ttyFifoGet_of_pos (h.get_pos hpc hnot)]

/-- A character that finds the buffer full is lost, and its permit stands for none. -/
theorem Keeps.not_buffered (h : s.Keeps reader a) {e : InputEvent} (hroom : ¬ s.FindsRoom e)
    (hstep : Step reader s e s') :
  ¬ s'.Buffered reader
  := by
  intro hbuffered
  have hpermits := h.permits
  have hcount := h.isSem.count
  cases hstep with
  | interrupt ch =>
      rw [FindsRoom, Classical.not_imp, Int.not_lt] at hroom
      obtain ⟨hlt, hfull⟩ := hroom
      have hnotify := h.notify s.tty.ififo
      have hle := hbuffered.permits
      rw [ttyIn_of_lt ch hlt, TtyFifo.ttyFifoPut_of_full hfull] at hle
      dsimp only at hle hnotify
      rw [TaskManager.semCount, h.isSem.semNotify.count] at hle
      omega
  | call size hpc => exact hroom trivial
  | wait hrun hpc => exact hroom trivial
  | get ch hrun hpc => exact hroom trivial
  | echoed hpc => exact hroom trivial
  | other m hsame => exact hroom trivial

theorem keeps_of_reachable
    (h : ((ttyReads reader).restrict FindsRoom).Reachable (fun _ => True) s) :
  ∃ a, s.Keeps reader a
  := by
  apply h.invariant (I := fun s => ∃ a, s.Keeps reader a)
  · intro s hinit
    exact ⟨_, Keeps.init hinit⟩
  · rintro s e s' ⟨a, hs⟩ - ⟨hroom, hstep⟩
    exact hs.step hroom hstep

/-- As long as every interrupt finds room or as many permits as places, every permit stands for a
character; and after the first one that does not, there is a permit too many. -/
theorem buffered_of_reachable
    (h : ((ttyReads reader).restrict FindsRoom).Reachable (fun _ => True) s) :
  s.Buffered reader ∧
    ∀ e s', (ttyReads reader).step s e s' → (s'.Buffered reader ↔ s.FindsRoom e)
  := by
  obtain ⟨a, hs⟩ := keeps_of_reachable h
  use hs.buffered
  intro e s' hstep
  constructor
  · intro hbuffered
    by_contra hroom
    exact hs.not_buffered hroom hstep hbuffered
  · intro hroom
    obtain ⟨a', hs'⟩ := hs.step hroom hstep
    exact hs'.buffered

/-- An opened terminal. -/
def opened : InputRun where
  tasks := (ttyOpen Machine.started.tasks TtyDev.closed 0).2.1
  tty := (ttyOpen Machine.started.tasks TtyDev.closed 0).2.2
  pc := .ret 0 []

theorem opened_init :
  (ttyReads .firstTask).init opened
  := by
  have hopen : ttyOpen Machine.started.tasks TtyDev.closed 0 = (0, opened.tasks, opened.tty) := rfl
  exact ⟨opened_ttyOpen (by decide) hopen, 0, [], rfl⟩

/-- A task calls for one character, and one comes. -/
def typed : InputRun :=
  { tasks := (ttyIn opened.tasks opened.tty 97).1
    tty := (ttyIn opened.tasks opened.tty 97).2
    pc := ttyRead 1 }

/-- The task takes the permit. -/
def permitted : InputRun :=
  { typed with tasks := typed.tasks.semWait typed.tty.isem, pc := .get ⟨1, 0, []⟩ }

/-- It takes the character, which it echoes. -/
def taken : InputRun :=
  permitted.afterGet ⟨1, 0, []⟩ (permitted.tty.ififo.ttyFifoGet 0).2.1
    (permitted.tty.ififo.ttyFifoGet 0).2.2

theorem buffered_opened :
  permitted.granted .firstTask = 1 ∧ permitted.tty.ififo.count = 1
    ∧ taken.pc = .echo 97 ⟨1, 1, [97]⟩ ∧ taken.tty.ififo.count = 0
    ∧ (permitted.Buffered .firstTask ∧
      ∀ e s', (ttyReads .firstTask).step permitted e s' →
        (s'.Buffered .firstTask ↔ permitted.FindsRoom e))
    ∧ taken.Buffered .firstTask ∧
      ∀ e s', (ttyReads .firstTask).step taken e s' →
        (s'.Buffered .firstTask ↔ taken.FindsRoom e)
  := by
  have hcalled : ((ttyReads .firstTask).restrict FindsRoom).Reachable (fun _ => True)
      { opened with pc := ttyRead 1 } :=
    .step (a := .call 1) (.init opened_init) trivial ⟨trivial, .call opened 1 rfl⟩
  have htyped : ((ttyReads .firstTask).restrict FindsRoom).Reachable (fun _ => True) typed :=
    .step (a := .interrupt 97) hcalled trivial ⟨fun _ => by decide +kernel, .interrupt _ 97⟩
  have hpermitted : ((ttyReads .firstTask).restrict FindsRoom).Reachable (fun _ => True)
      permitted :=
    .step (a := .wait) htyped trivial ⟨trivial, .wait typed ⟨rfl, by decide +kernel⟩ rfl⟩
  have htaken : ((ttyReads .firstTask).restrict FindsRoom).Reachable (fun _ => True) taken :=
    .step (a := .get 0) hpermitted trivial
      ⟨trivial, .get permitted 0 ⟨rfl, by decide +kernel⟩ rfl⟩
  exact ⟨by decide +kernel, by decide +kernel, rfl, by decide +kernel,
    buffered_of_reachable hpermitted, buffered_of_reachable htaken⟩

/-- The state after a character that finds room. -/
theorem Keeps.arrives (h : s.Keeps reader a) (hpc : ∀ x, s.pc ≠ .get x)
    (hlt : a.count < 512) :
  ∃ s' a', (ttyReads reader).step s (.interrupt 97) s' ∧ s'.Keeps reader a'
    ∧ a'.count = a.count + 1 ∧ s'.pc = s.pc
  := by
  have hgranted := granted_of_ne reader hpc
  have hpermits := h.permits
  have hsize := h.ififo.size_eq
  have hput : s.tty.ififo.count < s.tty.ififo.size := by
    unfold ttyIbufSize at hsize
    omega
  have hsem : s.tasks.semCount s.tty.isem < ttyIbufSize := by
    rw [TaskManager.semCount, h.isSem.count]
    unfold ttyIbufSize
    omega
  obtain ⟨a', h'⟩ := h.interrupt 97 fun _ => hput
  refine ⟨_, a', Step.interrupt s 97, h', ?_, rfl⟩
  have hgranted' := granted_of_ne reader (s :=
    { s with tasks := (ttyIn s.tasks s.tty 97).1, tty := (ttyIn s.tasks s.tty 97).2 }) hpc
  have hpermits' := h'.permits
  rw [hgranted', ttyIn_of_lt 97 hsem, TtyFifo.ttyFifoPut_of_room hput] at hpermits'
  change (a'.count : Int) + 0 = s.tty.ififo.count + 1 at hpermits'
  omega

/-- Nobody reads while `n` characters arrive. -/
theorem filled {n : Nat} (hn : n ≤ 512) :
  ∃ s a, (ttyReads .firstTask).Reachable (fun _ => True) s
    ∧ s.Keeps .firstTask a ∧ a.count = n ∧ s.pc = .ret 0 []
  := by
  induction n with
  | zero =>
      exact ⟨opened, _, Reachable.init opened_init, Keeps.init opened_init, rfl, rfl⟩
  | succ n ih =>
      obtain ⟨s, a, hreach, hs, hcount, hpc⟩ := ih (by omega)
      obtain ⟨s', a', hstep, hs', hcount', hpc'⟩ :=
        hs.arrives (by rw [hpc]; nofun) (by omega)
      refine ⟨s', a', Reachable.step hreach trivial hstep, hs', by omega, ?_⟩
      rw [hpc', hpc]

/-- The reader takes a permit of a full buffer, and a character comes before it takes its own. -/
theorem Keeps.loses (h : s.Keeps reader a) (hcurr : s.tasks.currTask = reader) {x : Reading}
    (hpc : s.pc = .wait x) (hcount : a.count = 512) :
  ∃ s₁ s₂, (ttyReads reader).step s .wait s₁ ∧ (ttyReads reader).step s₁ (.interrupt 97) s₂
    ∧ ¬ s₂.Buffered reader
  := by
  have hsize := h.ififo.size_eq
  have hpermits := h.permits
  rw [granted_of_ne reader (by rw [hpc]; nofun), hcount] at hpermits
  have hempty : a.waiting = [] := a.idle (by omega)
  have hrun : s.Running reader := by
    refine ⟨hcurr, ?_⟩
    rw [h.isSem.linked, hempty]
    apply List.not_mem_nil
  have hwait := Step.wait s hrun hpc
  obtain ⟨a', h'⟩ := h.wait hrun hpc
  -- one permit less than there are places
  have hlt : (s.tasks.semWait s.tty.isem).semCount s.tty.isem < ttyIbufSize := by
    have ht : s.tasks.currTask ∉ a.waiting := by
      rw [hempty]
      apply List.not_mem_nil
    rw [TaskManager.semCount, (h.isSem.semWait ht).count,
      (Semaphore.wait_granted ht (by omega)).1, hcount]
    decide
  have hfull : ¬ FindsRoom { s with tasks := s.tasks.semWait s.tty.isem, pc := .get x }
      (.interrupt 97) := by
    intro hroom
    have hput : s.tty.ififo.count < s.tty.ififo.size := hroom hlt
    unfold ttyIbufSize at hsize
    omega
  exact ⟨_, _, hwait, Step.interrupt _ 97, h'.not_buffered hfull (Step.interrupt _ 97)⟩

theorem not_buffered_full :
  ∃ s, (ttyReads .firstTask).Reachable (fun _ => True) s ∧ ¬ s.Buffered .firstTask
  := by
  obtain ⟨s, a, hreach, hs, hcount, hpc⟩ := filled (le_refl 512)
  have hsame : s.tasks.SameSem s.tty.isem { s.tasks with currTask := .firstTask } :=
    ⟨rfl, fun _ _ => rfl⟩
  have hother := hreach.step trivial (Step.other s _ hsame)
  have hcall := hother.step trivial (Step.call _ 1 hpc)
  have hcalled := (hs.other hsame).setPc (by rw [hpc]; nofun) (ttyRead_ne_get 1)
  obtain ⟨s₁, s₂, hwait, hinterrupt, hnot⟩ := hcalled.loses rfl rfl hcount
  exact ⟨s₂, (hcall.step trivial hwait).step trivial hinterrupt, hnot⟩

end InputRun

end Dmos
