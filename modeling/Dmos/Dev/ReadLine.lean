import Dmos.Dev.Input

/-!
# Reading a line from a terminal

A call of `tty_read` consumes the shortest beginning of its input that ends a line or fills the
buffer (`Line`).  The buffer holds its characters, with `\r\n` for `\n` where the terminal asks for
it and the buffer has room for both (`expandAll`).  An `InputLog` beside the run of the reader tells
what has come to the input buffer and where it went; the rest of the input is still there
(`readsLine_of_reachable`).
-/

open TransitionSystem

namespace Dmos

/-! ### Lines -/

/-- The bytes of a character in a buffer with `room` bytes left. -/
def expand (iflags : Nat) (room : Int) (ch : UInt8) : List UInt8 :=
  -- '\n'
  if ch = 10 ∧ iflags &&& ttyInclr ≠ 0 ∧ 2 ≤ room then [13, 10] else [ch]

/-- The bytes of characters in a buffer with `room` bytes left. -/
def expandAll (iflags : Nat) (room : Int) : List UInt8 → List UInt8
  | [] => []
  | ch :: chs =>
      expand iflags room ch ++ expandAll iflags (room - (expand iflags room ch).length) chs

/-- The characters end a line or fill a buffer of `size` bytes. -/
def Complete (iflags : Nat) (size : Int) (chs : List UInt8) : Prop :=
  -- '\n', '\r'
  chs.getLast? = some 10 ∨ chs.getLast? = some 13 ∨ size ≤ (expandAll iflags size chs).length

instance (iflags : Nat) (size : Int) (chs : List UInt8) : Decidable (Complete iflags size chs) :=
  inferInstanceAs (Decidable (_ ∨ _ ∨ _))

/-- The characters end a line or fill a buffer of `size` bytes, and no fewer of them do. -/
structure Line (iflags : Nat) (size : Int) (chs : List UInt8) : Prop where
  complete : Complete iflags size chs
  shortest : ∀ before, before <+: chs → before ≠ chs → ¬ Complete iflags size before

section Line

variable {iflags : Nat} {size room : Int} {input chs chs' : List UInt8} {ch : UInt8}

theorem length_expand (iflags : Nat) (room : Int) (ch : UInt8) :
  ((expand iflags room ch).length : Int) = 1 ∨ ((expand iflags room ch).length : Int) = 2 ∧ 2 ≤ room
  := by
  unfold expand
  split_ifs with h
  · exact .inr ⟨rfl, h.2.2⟩
  · exact .inl rfl

theorem expandAll_concat (iflags : Nat) (room : Int) (chs : List UInt8) (ch : UInt8) :
  expandAll iflags room (chs ++ [ch])
    = expandAll iflags room chs ++ expand iflags (room - (expandAll iflags room chs).length) ch
  := by
  induction chs generalizing room with
  | nil =>
      rw [List.nil_append, expandAll, expandAll, List.nil_append]
      simp [expandAll]
  | cons c cs ih =>
      rw [List.cons_append, expandAll, expandAll, ih, List.append_assoc, List.length_append]
      congr 3
      omega

/-- A character goes to a buffer that is not full. -/
theorem length_expandAll_concat (h : ((expandAll iflags size chs).length : Int) < size) :
  ((expandAll iflags size (chs ++ [ch])).length : Int) ≤ size
  := by
  rw [expandAll_concat, List.length_append]
  have := length_expand iflags (size - (expandAll iflags size chs).length) ch
  omega

theorem prefix_concat {before : List UInt8} (h : before <+: chs ++ [ch])
    (hne : before ≠ chs ++ [ch]) :
  before <+: chs
  := (List.prefix_concat_iff.mp h).resolve_left hne

theorem not_complete_iff (iflags : Nat) (size : Int) (chs : List UInt8) (ch : UInt8) :
  ¬ Complete iflags size (chs ++ [ch]) ↔
    (ch ≠ 10 ∧ ch ≠ 13) ∧ ((expandAll iflags size (chs ++ [ch])).length : Int) < size
  := by
  rw [Complete, List.getLast?_concat]
  simp only [Option.some.injEq, not_or, Int.not_le, and_assoc]

theorem Line.length_le (h : Line iflags size chs) (hsize : 0 ≤ size) :
  ((expandAll iflags size chs).length : Int) ≤ size
  := by
  rcases List.eq_nil_or_concat chs with rfl | ⟨before, ch, rfl⟩
  · exact hsize
  · rw [List.concat_eq_append] at h ⊢
    have hopen := h.shortest before (List.prefix_append _ _) (by simp)
    rw [Complete, not_or, not_or, Int.not_le] at hopen
    exact length_expandAll_concat hopen.2.2

/-- An input begins with one line at most. -/
theorem Line.unique (h : Line iflags size chs) (h' : Line iflags size chs')
    (hinput : chs <+: input) (hinput' : chs' <+: input) :
  chs = chs'
  := by
  by_contra hne
  rcases List.prefix_or_prefix_of_prefix hinput hinput' with hle | hle
  · exact h'.shortest chs hle hne h.complete
  · exact h.shortest chs' hle (Ne.symm hne) h'.complete

end Line

/-! ### What a call has done -/

/-- The size a call has been given, the characters it has consumed and those it has handed to
`tty_write`. -/
structure CallLog where
  size : Int
  consumed : List UInt8
  echoed : List UInt8

/-- The reader has the characters consumed in its buffer. -/
structure Holds (iflags : Nat) (c : CallLog) (x : Reading) : Prop where
  size : x.size = c.size
  buf : x.buf = expandAll iflags c.size c.consumed
  len : x.len = x.buf.length

/-- The characters do not end a line and leave room, and so did the ones before. -/
def Open (iflags : Nat) (c : CallLog) (chs : List UInt8) : Prop :=
  ∀ before, before <+: chs → ¬ Complete iflags c.size before

/-- The echo of characters. -/
def echoOf (iflags : Nat) (chs : List UInt8) : List UInt8 :=
  if iflags &&& ttyIecho ≠ 0 then chs else []

/-- What a call has done that has returned. -/
structure LineRead (iflags : Nat) (c : CallLog) (len : Int) (buf : List UInt8) : Prop where
  line : Line iflags c.size c.consumed
  buf_eq : buf = expandAll iflags c.size c.consumed
  len_eq : len = buf.length
  len_le : len ≤ c.size
  echoed : c.echoed = echoOf iflags c.consumed

/-- What a call has done so far. -/
def Progress (iflags : Nat) (c : CallLog) : ReadPc → Prop
  | .ret len buf => 0 ≤ c.size → LineRead iflags c len buf
  | .wait x => Holds iflags c x ∧ Open iflags c c.consumed ∧ c.echoed = echoOf iflags c.consumed
  | .get x => Holds iflags c x ∧ Open iflags c c.consumed ∧ c.echoed = echoOf iflags c.consumed
  | .echo ch x => Holds iflags c x ∧ iflags &&& ttyIecho ≠ 0 ∧
      ∃ chs, c.consumed = chs ++ [ch] ∧ Open iflags c chs ∧ c.echoed = chs

section Progress

variable {iflags : Nat} {c : CallLog} {x : Reading} {chs : List UInt8} {ch : UInt8}

theorem Open.concat (h : Open iflags c chs) (hch : ¬ Complete iflags c.size (chs ++ [ch])) :
  Open iflags c (chs ++ [ch])
  := by
  intro before hbefore
  rcases List.prefix_concat_iff.mp hbefore with rfl | hbefore
  · exact hch
  · exact h before hbefore

theorem Open.line (h : Open iflags c chs) (hch : Complete iflags c.size (chs ++ [ch])) :
  Line iflags c.size (chs ++ [ch])
  where
  complete := hch
  shortest before hbefore hne := h before (prefix_concat hbefore hne)

/-- The character is stored. -/
theorem Holds.store (h : Holds iflags c x) (ch : UInt8) :
  Holds iflags { c with consumed := c.consumed ++ [ch] } (ttyRead.store iflags x ch)
  := by
  obtain ⟨hsize, hbuf, hlen⟩ := h
  have hroom : x.len < x.size - 1 ↔ 2 ≤ c.size - (expandAll iflags c.size c.consumed).length := by
    rw [← hbuf]
    omega
  unfold ttyRead.store
  simp only [hroom]
  constructor
  · dsimp only
    split_ifs <;> exact hsize
  · dsimp only
    rw [expandAll_concat, expand, ← hbuf]
    split_ifs <;> rfl
  · split_ifs <;> simp only [List.length_append, List.length_cons, List.length_nil] <;> omega

/-- The call goes on or returns. -/
theorem progress_next (hx : Holds iflags c x) (hconsumed : c.consumed = chs ++ [ch])
    (hopen : Open iflags c chs) (hecho : c.echoed = echoOf iflags c.consumed) :
  Progress iflags c (ttyRead.next x ch)
  := by
  have hsize := hx.size
  have hlen : x.len = (expandAll iflags c.size (chs ++ [ch])).length := by
    rw [hx.len, hx.buf, hconsumed]
  by_cases hcomplete : Complete iflags c.size (chs ++ [ch])
  · have hline := hopen.line hcomplete
    have hret : ttyRead.next x ch = .ret x.len x.buf := by
      rw [ttyRead.next, ttyRead.loop]
      split_ifs with hend hroom
      · rfl
      · rw [Complete, List.getLast?_concat, Option.some.injEq, Option.some.injEq,
          ← or_assoc] at hcomplete
        have hfull := hcomplete.resolve_left hend
        omega
      · rfl
    rw [hret]
    intro hnonneg
    refine ⟨?_, hx.buf, hx.len, ?_, hecho⟩
    · rw [hconsumed]
      exact hline
    · rw [hlen]
      exact hline.length_le hnonneg
  · have hwait : ttyRead.next x ch = .wait x := by
      obtain ⟨hend, hroom⟩ := (not_complete_iff _ _ _ _).mp hcomplete
      rw [ttyRead.next, ttyRead.loop, if_neg (not_or.mpr hend), if_pos (by omega)]
    rw [hwait]
    refine ⟨hx, ?_, hecho⟩
    rw [hconsumed]
    exact hopen.concat hcomplete

/-- A call begins. -/
theorem progress_ttyRead (iflags : Nat) (size : Int) :
  Progress iflags ⟨size, [], []⟩ (ttyRead size)
  := by
  have hecho : echoOf iflags [] = [] := by
    rw [echoOf, ite_self]
  have hholds : Holds iflags ⟨size, [], []⟩ ⟨size, 0, []⟩ := ⟨rfl, rfl, rfl⟩
  have hnil : Complete iflags size [] ↔ size ≤ 0 := by
    simp [Complete, expandAll]
  rw [ttyRead, ttyRead.loop]
  dsimp only
  split_ifs with hneg hpos
  · intro hnonneg
    exact absurd hneg (Int.not_lt.mpr hnonneg)
  · refine ⟨hholds, ?_, hecho.symm⟩
    intro before hbefore
    rw [List.prefix_nil] at hbefore
    rw [hbefore, hnil]
    omega
  · intro hnonneg
    refine ⟨⟨hnil.mpr (by omega), ?_⟩, rfl, rfl, hnonneg, hecho.symm⟩
    intro before hbefore hne
    exact absurd (List.prefix_nil.mp hbefore) hne

end Progress

/-! ### Runs with their input -/

/-- The input of a terminal and where it went: the characters that have come to the input buffer,
those that earlier calls have consumed, and the last call. -/
structure InputLog where
  delivered : List UInt8
  before : List UInt8
  call : CallLog

/-- No call so far. -/
def InputLog.empty : InputLog where
  delivered := []
  before := []
  call := ⟨-1, [], []⟩

/-- What the last call was given to read, and what has come after. -/
def InputLog.input (l : InputLog) : List UInt8 :=
  l.delivered.drop l.before.length

/-- What an event adds to the log. -/
def InputLog.next (s : InputRun) (l : InputLog) : InputEvent → InputLog
  | .interrupt ch =>
      if ttyIbufSize ≤ s.tasks.semCount s.tty.isem then l
      else { l with delivered := l.delivered ++ [ch] }
  | .call size => { l with before := l.before ++ l.call.consumed, call := ⟨size, [], []⟩ }
  | .get ch =>
      let ch := (s.tty.ififo.ttyFifoGet ch).2.1
      { l with call := { l.call with consumed := l.call.consumed ++ [ch] } }
  | .echoed =>
      match s.pc with
      | .echo ch _ => { l with call := { l.call with echoed := l.call.echoed ++ [ch] } }
      | _ => l
  | .wait => l
  | .other _ => l

/-- One reader and the keyboard, with the log.  No character is lost. -/
def lineReads (reader : TaskRef) : TransitionSystem (InputRun × InputLog) InputEvent where
  init x := (ttyReads reader).init x.1 ∧ x.2 = .empty
  step x e x' := x.1.FindsRoom e ∧ (ttyReads reader).step x.1 e x'.1 ∧ x'.2 = x.2.next x.1 e

namespace InputRun

variable {reader : TaskRef} {s s' : InputRun} {l l' : InputLog} {a : Semaphore TaskRef}

/-- The characters that have come are those consumed and those in the buffer, and a call keeps to
its line. -/
structure Logged (s : InputRun) (l : InputLog) : Prop where
  stream : l.delivered = l.before ++ l.call.consumed ++ s.tty.ififo.contents
  progress : Progress s.tty.iflags l.call s.pc

theorem Logged.input (h : s.Logged l) :
  l.input = l.call.consumed ++ s.tty.ififo.contents
  := by rw [InputLog.input, h.stream, List.append_assoc, List.drop_left]

theorem Logged.init (h : (lineReads reader).init (s, l)) :
  s.Logged l
  := by
  obtain ⟨⟨hopened, len, buf, hpc⟩, rfl⟩ := h
  obtain ⟨cells, hififo⟩ := hopened.ififo
  constructor
  · dsimp only at hififo
    rw [hififo, TtyFifo.contents_ttyFifoInit]
    rfl
  · dsimp only at hpc
    rw [hpc]
    intro hnonneg
    cases hnonneg

/-- A step of the run keeps the log, when no character is lost. -/
theorem Logged.step (h : s.Logged l) (hs : s.Keeps reader a) {e : InputEvent}
    (hroom : s.FindsRoom e) (hstep : Step reader s e s') :
  s'.Logged (l.next s e)
  := by
  obtain ⟨hstream, hprogress⟩ := h
  cases hstep with
  | interrupt ch =>
      by_cases hfull : ttyIbufSize ≤ s.tasks.semCount s.tty.isem
      · rw [ttyIn, if_pos hfull, InputLog.next, if_pos hfull]
        exact ⟨hstream, hprogress⟩
      · have hput := hroom (Int.not_le.mp hfull)
        have hinsert := (hs.ififo.insert (c := ch) (by rw [← hs.ififo.size_eq]; exact hput)).2
        rw [ttyIn_of_lt ch (Int.not_le.mp hfull), TtyFifo.ttyFifoPut_of_room hput, InputLog.next,
          if_neg hfull]
        refine ⟨?_, hprogress⟩
        dsimp only
        rw [hinsert, hstream, List.append_assoc]
  | @call size len buf hpc =>
      constructor
      · dsimp only [InputLog.next]
        rw [List.append_nil]
        exact hstream
      · exact progress_ttyRead s.tty.iflags size
  | @wait x hrun hpc =>
      rw [hpc] at hprogress
      exact ⟨hstream, hprogress⟩
  | @get ch x hrun hpc =>
      rw [hpc] at hprogress
      obtain ⟨hholds, hopen, hecho⟩ := hprogress
      have hpos := hs.get_pos hpc hrun.2
      have hremove := (hs.ififo.remove hpos).2
      rw [InputLog.next, TtyFifo.ttyFifoGet_of_pos hpos]
      generalize TtyFifo.ttyFifoGet.remove s.tty.ififo = got at hremove ⊢
      obtain ⟨c, ififo⟩ := got
      constructor
      · change l.delivered = l.before ++ (l.call.consumed ++ [c]) ++ ififo.contents
        rw [hstream, hremove]
        simp only [List.append_assoc, List.singleton_append]
      · have hstore := hholds.store c
        rw [afterGet]
        dsimp only
        split_ifs with hiecho
        · refine ⟨hstore, hiecho, l.call.consumed, rfl, hopen, ?_⟩
          rw [echoOf, if_pos hiecho] at hecho
          exact hecho
        · apply progress_next hstore rfl hopen
          rw [echoOf, if_neg hiecho] at hecho ⊢
          exact hecho
  | @echoed ch x hpc =>
      rw [hpc] at hprogress
      obtain ⟨hholds, hiecho, chs, hconsumed, hopen, hecho⟩ := hprogress
      rw [InputLog.next]
      simp only [hpc]
      refine ⟨hstream, ?_⟩
      have hholds' : Holds s.tty.iflags { l.call with echoed := l.call.echoed ++ [ch] } x :=
        ⟨hholds.size, hholds.buf, hholds.len⟩
      apply progress_next hholds' hconsumed hopen
      rw [echoOf, if_pos hiecho, hecho, hconsumed]
  | other m hsame => exact ⟨hstream, hprogress⟩

theorem logged_of_reachable (h : (lineReads reader).Reachable (fun _ => True) (s, l)) :
  (∃ a, s.Keeps reader a) ∧ s.Logged l
  := by
  have hall := h.invariant
    (I := fun x : InputRun × InputLog => (∃ a, x.1.Keeps reader a) ∧ x.1.Logged x.2)
    (by
      rintro ⟨t, m⟩ hinit
      exact ⟨⟨_, Keeps.init hinit.1⟩, Logged.init hinit⟩)
    (by
      rintro ⟨t, m⟩ e ⟨t', m'⟩ ⟨⟨a, hkeeps⟩, hlogged⟩ - ⟨hroom, hstep, hnext⟩
      dsimp only at hroom hstep hnext
      rw [hnext]
      exact ⟨hkeeps.step hroom hstep, hlogged.step hkeeps hroom hstep⟩)
  exact hall

/-! ### The call returns -/

/-- The reader's own steps, and those of the scheduler. -/
def Own : InputEvent → Prop
  | .interrupt _ => False
  | .call _ => False
  | _ => True

theorem findsRoom_of_own {e : InputEvent} (h : Own e) (s : InputRun) :
  s.FindsRoom e
  := by
  cases e with
  | interrupt ch => cases h
  | _ => trivial

/-- The steps from a place to the next `tty_fifo_get`. -/
def stepsToGet : ReadPc → Nat
  | .ret _ _ => 0
  | .get _ => 0
  | .wait _ => 1
  | .echo _ _ => 2

/-- How far the reader is from the end of what has come. -/
def rank (s : InputRun) : Nat :=
  3 * s.tty.ififo.contents.length + stepsToGet s.pc

theorem stepsToGet_next (x : Reading) (ch : UInt8) :
  stepsToGet (ttyRead.next x ch) ≤ 1
  := by
  rw [ttyRead.next, ttyRead.loop]
  split_ifs
  · exact Nat.zero_le 1
  · exact le_refl 1
  · exact Nat.zero_le 1

/-- A reader that waits for a character finds one, when its line has come. -/
theorem Logged.contents_ne_nil (h : s.Logged l) {x : Reading} (hpc : s.pc = .get x)
    {chs : List UInt8} (hline : Line s.tty.iflags l.call.size chs) (hinput : chs <+: l.input) :
  s.tty.ififo.contents ≠ []
  := by
  intro hempty
  have hprogress := h.progress
  rw [hpc] at hprogress
  obtain ⟨-, hopen, -⟩ := hprogress
  rw [h.input, hempty, List.append_nil] at hinput
  exact hopen chs hinput hline.complete

/-- The reader in front of `tty_fifo_get` does not wait when there are characters. -/
theorem Keeps.not_linked (hs : s.Keeps reader a) {x : Reading} (hpc : s.pc = .get x)
    (hcontents : s.tty.ififo.contents ≠ []) :
  reader ∉ s.tasks.linked (.sem s.tty.isem)
  := by
  rw [hs.isSem.linked]
  intro hin
  have hlength := hs.ififo.length_contents
  have hpos := List.length_pos_iff.mpr hcontents
  have hpermits := hs.permits
  rw [hs.granted_get hpc, if_pos hin] at hpermits
  rw [a.idle (by omega)] at hin
  cases hin

/-- As long as what has come begins with a line, a call that has not returned goes on. -/
theorem Logged.goes_on (h : s.Logged l) (hs : s.Keeps reader a)
    (hcurr : s.tasks.currTask = reader) {chs : List UInt8}
    (hline : Line s.tty.iflags l.call.size chs) (hinput : chs <+: l.input)
    (hpc : ∀ len buf, s.pc ≠ .ret len buf) :
  ∃ e s', Own e ∧ Step reader s e s' ∧ s'.rank < s.rank ∧ s'.tty.iflags = s.tty.iflags ∧
    (l.next s e).input = l.input ∧ (l.next s e).call.size = l.call.size
  := by
  rcases hp : s.pc with ⟨len, buf⟩ | x | x | ⟨ch, x⟩
  · cases hpc len buf hp
  · have hrun : s.Running reader := by
      refine ⟨hcurr, ?_⟩
      rw [hs.isSem.linked]
      intro hin
      obtain ⟨-, y, hy⟩ := hs.waiting reader hin
      rw [hp] at hy
      cases hy
    refine ⟨.wait, _, trivial, .wait s hrun hp, ?_, rfl, rfl, rfl⟩
    rw [rank, rank, hp]
    dsimp only [stepsToGet]
    omega
  · have hcontents := h.contents_ne_nil hp hline hinput
    have hnot := hs.not_linked hp hcontents
    have hpos := hs.get_pos hp hnot
    have hremove := (hs.ififo.remove hpos).2
    refine ⟨.get 0, _, trivial, .get s 0 ⟨hcurr, hnot⟩ hp, ?_, rfl, rfl, rfl⟩
    rw [TtyFifo.ttyFifoGet_of_pos hpos, rank, rank, hremove, hp, List.length_cons, afterGet]
    dsimp only
    have hsteps : stepsToGet (if s.tty.iflags &&& ttyIecho ≠ 0
        then .echo (TtyFifo.ttyFifoGet.remove s.tty.ififo).1
          (ttyRead.store s.tty.iflags x (TtyFifo.ttyFifoGet.remove s.tty.ififo).1)
        else ttyRead.next (ttyRead.store s.tty.iflags x (TtyFifo.ttyFifoGet.remove s.tty.ififo).1)
          (TtyFifo.ttyFifoGet.remove s.tty.ififo).1) ≤ 2 := by
      split_ifs
      · exact le_refl 2
      · exact (stepsToGet_next _ _).trans (by decide)
    omega
  · refine ⟨.echoed, _, trivial, .echoed s hp, ?_, rfl, ?_, ?_⟩
    · rw [rank, rank, hp]
      dsimp only
      have hsteps := stepsToGet_next x ch
      have htwo : stepsToGet (.echo ch x) = 2 := rfl
      omega
    · rw [InputLog.next]
      simp only [hp]
      rfl
    · rw [InputLog.next]
      simp only [hp]

/-- The scheduler turns to the reader. -/
def scheduled (s : InputRun) (reader : TaskRef) : InputRun :=
  { s with tasks := { s.tasks with currTask := reader } }

theorem step_scheduled (s : InputRun) (reader : TaskRef) :
  Step reader s (.other (s.scheduled reader).tasks) (s.scheduled reader)
  := .other s _ ⟨rfl, fun _ _ => rfl⟩

/-- Without more input the reader returns with the line `chs`, and the rest of the input stays. -/
def Returns (reader : TaskRef) (s : InputRun) (l : InputLog) (chs : List UInt8) : Prop :=
  ∃ es s' l' len buf, (∀ e ∈ es, Own e) ∧ (lineReads reader).Run (s, l) es (s', l') ∧
    s'.pc = .ret len buf ∧ LineRead s.tty.iflags l'.call len buf ∧ l'.call.size = l.call.size ∧
    l'.call.consumed = chs ∧ l.input = chs ++ s'.tty.ififo.contents

theorem Returns.of_step {chs : List UInt8} (h : Returns reader s' l' chs) {e : InputEvent}
    (hstep : (lineReads reader).step (s, l) e (s', l')) (howns : Own e)
    (hiflags : s'.tty.iflags = s.tty.iflags) (hinput : l'.input = l.input)
    (hsize : l'.call.size = l.call.size) :
  Returns reader s l chs
  := by
  obtain ⟨es, t, m, len, buf, hes, hrun, hpc, hread, hsize', hchs, hrest⟩ := h
  refine ⟨e :: es, t, m, len, buf, ?_, hrun.cons hstep, hpc, ?_, ?_, hchs, ?_⟩
  · rintro e' (_ | ⟨_, he'⟩)
    · exact howns
    · exact hes e' he'
  · rw [← hiflags]
    exact hread
  · rw [hsize', hsize]
  · rw [← hinput, hrest]

/-- The reader gets to the end of its line. -/
theorem Logged.returns (h : s.Logged l) (hs : ∃ a, s.Keeps reader a) (hsize : 0 ≤ l.call.size)
    {chs : List UInt8} (hline : Line s.tty.iflags l.call.size chs) (hinput : chs <+: l.input) :
  Returns reader s l chs
  := by
  induction hn : s.rank using Nat.strong_induction_on generalizing s l with
  | h n ih =>
    by_cases hret : ∃ len buf, s.pc = .ret len buf
    · obtain ⟨len, buf, hpc⟩ := hret
      have hread := h.progress
      rw [hpc] at hread
      have hprefix : l.call.consumed <+: l.input := by
        rw [h.input]
        apply List.prefix_append
      have hchs : l.call.consumed = chs := (hread hsize).line.unique hline hprefix hinput
      refine ⟨[], s, l, len, buf, ?_, .nil, hpc, hread hsize, rfl, hchs, ?_⟩
      · intro e he
        cases he
      · rw [← hchs]
        exact h.input
    · obtain ⟨a, hk⟩ := hs
      have hother := s.step_scheduled reader
      have hlogged : (s.scheduled reader).Logged l := h.step hk (e := .other _) trivial hother
      obtain ⟨b, hkeeps⟩ := hk.step (e := .other _) trivial hother
      have hpc (len : Int) (buf : List UInt8) : s.pc ≠ .ret len buf := fun hp => hret ⟨len, buf, hp⟩
      obtain ⟨e, s₁, howns, hstep, hrank, hiflags, hinput₁, hsize₁⟩ :=
        hlogged.goes_on hkeeps rfl hline hinput hpc
      have hroom := findsRoom_of_own howns (s.scheduled reader)
      have hlogged₁ := hlogged.step hkeeps hroom hstep
      have hreturns : Returns reader s₁ (l.next (s.scheduled reader) e) chs := by
        rw [← hinput₁] at hinput
        rw [← hsize₁] at hsize
        apply ih s₁.rank (hn ▸ hrank) hlogged₁ (hkeeps.step hroom hstep) hsize _ hinput rfl
        rw [hiflags, hsize₁]
        exact hline
      have hnext : (lineReads reader).step (s.scheduled reader, l) e
          (s₁, l.next (s.scheduled reader) e) := ⟨hroom, hstep, rfl⟩
      have hscheduled := hreturns.of_step hnext howns hiflags hinput₁ hsize₁
      exact hscheduled.of_step (e := .other _) ⟨trivial, hother, rfl⟩ trivial rfl rfl rfl

/-- A call that has returned has consumed the shortest beginning of its input that ends a line or
fills its buffer, has put it there and has echoed it, and has left the rest of the input alone.  And
it returns, when such a beginning has come. -/
theorem readsLine_of_reachable (h : (lineReads reader).Reachable (fun _ => True) (s, l))
    (hsize : 0 ≤ l.call.size) :
  (∀ len buf, s.pc = .ret len buf → LineRead s.tty.iflags l.call len buf ∧
      l.input = l.call.consumed ++ s.tty.ififo.contents) ∧
    ∀ chs, Line s.tty.iflags l.call.size chs → chs <+: l.input → Returns reader s l chs
  := by
  obtain ⟨hkeeps, hlogged⟩ := logged_of_reachable h
  constructor
  · intro len buf hpc
    have hread := hlogged.progress
    rw [hpc] at hread
    exact ⟨hread hsize, hlogged.input⟩
  · intro chs hline hinput
    exact hlogged.returns hkeeps hsize hline hinput

/-- A call on the terminal that nobody reads. -/
theorem reachable_call (h : (lineReads reader).Reachable (fun _ => True) (s, l)) {len : Int}
    {buf : List UInt8} (hpc : s.pc = .ret len buf) (size : Int) :
  (lineReads reader).Reachable (fun _ => True)
    ({ s with pc := ttyRead size }, l.next s (.call size))
  := by
  have hstep : (lineReads reader).step (s, l) (.call size) (_, _) := ⟨trivial, .call s size hpc, rfl⟩
  exact h.step trivial hstep

/-- A character for a buffer of one byte. -/
theorem readsLine_of_reachable_opened :
  ∃ s l, (lineReads .firstTask).Reachable (fun _ => True) (s, l) ∧ l.call.size = 1 ∧
    Returns .firstTask s l [97]
  := by
  have hinit : (lineReads .firstTask).init (opened, .empty) := ⟨opened_init, rfl⟩
  have hroom : opened.FindsRoom (.interrupt 97) := fun _ => by decide
  have hstep : (lineReads .firstTask).step (opened, .empty) (.interrupt 97) (_, _) :=
    ⟨hroom, .interrupt opened 97, rfl⟩
  have hcall := reachable_call ((Reachable.init hinit).step trivial hstep) rfl 1
  have hline : Line ttyIecho 1 [97] := by
    constructor
    · decide
    · intro before hbefore hne
      rw [← List.nil_append [97]] at hbefore hne
      rw [List.prefix_nil.mp (prefix_concat hbefore hne)]
      decide
  have hreturns := (readsLine_of_reachable hcall (by decide)).2 [97] hline List.prefix_rfl
  exact ⟨_, _, hcall, rfl, hreturns⟩

end InputRun

end Dmos
