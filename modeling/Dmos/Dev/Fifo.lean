import Dmos.Library.RingBuffer
import Dmos.Library.Transition

/-!
# The FIFO of a terminal

A terminal keeps characters in circular buffers.  `TtyFifo.contents` is the list of characters
a FIFO holds, and `ttyFifoPut` and `ttyFifoGet` are the operations of a bounded queue on it, in
every state that calls of them lead to after `ttyFifoInit` (`boundedQueue_of_reachable`).

`tty_fifo_put` looks for room before the part that runs with interrupts off; the two steps are
kept apart (`ttyFifoPut.insert`).
-/

open RingBuffer TransitionSystem

namespace Dmos

structure TtyFifo where
  buf : Int → UInt8
  size : Int
  read : Int
  write : Int
  count : Int

def ttyFifoInit (buf : Int → UInt8) (size : Int) : TtyFifo where
  buf := buf
  size := size
  read := 0
  write := 0
  count := 0

namespace TtyFifo

/-- The protected part of `tty_fifo_get`: the character and the FIFO. -/
def ttyFifoGet.remove (f : TtyFifo) : UInt8 × TtyFifo :=
  let c := f.buf f.read
  let read := if f.size ≤ f.read + 1 then 0 else f.read + 1
  (c, { f with read := read, count := f.count - 1 })

/-- The value returned, what the variable `c` of the caller holds then, and the FIFO. -/
def ttyFifoGet (f : TtyFifo) (c : UInt8) : Int × UInt8 × TtyFifo :=
  if f.count ≤ 0 then (-1, c, f) else (0, ttyFifoGet.remove f)

/-- The protected part of `tty_fifo_put`. -/
def ttyFifoPut.insert (f : TtyFifo) (c : UInt8) : TtyFifo :=
  let buf := Function.update f.buf f.write c
  let write := if f.size ≤ f.write + 1 then 0 else f.write + 1
  { f with buf := buf, write := write, count := f.count + 1 }

def ttyFifoPut (f : TtyFifo) (c : UInt8) : Int × TtyFifo :=
  if f.size ≤ f.count then (-1, f) else (0, ttyFifoPut.insert f c)

/-- The characters in the FIFO, the oldest first. -/
def contents (f : TtyFifo) : List UInt8 :=
  RingBuffer.contents f.buf f.size f.read f.count.toNat

/-- A FIFO of `size` places, as the operations maintain it. -/
structure WellFormed (f : TtyFifo) (size : Int) : Prop where
  size_eq : f.size = size
  read : 0 ≤ f.read ∧ f.read < size
  count : 0 ≤ f.count ∧ f.count ≤ size
  write : f.write = index size f.read f.count

variable {f : TtyFifo} {size : Int} {c : UInt8}

theorem wellFormed_ttyFifoInit (buf : Int → UInt8) (h : 1 ≤ size) :
  WellFormed (ttyFifoInit buf size) size
  := by
  constructor
  · rfl
  · change 0 ≤ (0 : Int) ∧ 0 < size
    omega
  · change 0 ≤ (0 : Int) ∧ 0 ≤ size
    omega
  · change 0 = index size 0 0
    rw [index_zero (by omega)]

theorem contents_ttyFifoInit (buf : Int → UInt8) :
  (ttyFifoInit buf size).contents = []
  := rfl

theorem WellFormed.length_contents (h : f.WellFormed size) :
  (f.contents.length : Int) = f.count
  := by
  rw [contents, RingBuffer.length_contents]
  have := h.count
  omega

theorem WellFormed.write_range (h : f.WellFormed size) :
  0 ≤ f.write ∧ f.write < size
  := by
  rw [h.write]
  apply index_range h.read.1 h.read.2 h.count.1 h.count.2

/-! ### The operations -/

/-- An insertion, when there is room. -/
theorem WellFormed.insert (h : f.WellFormed size) (hcount : f.count < size) :
  (ttyFifoPut.insert f c).WellFormed size
    ∧ (ttyFifoPut.insert f c).contents = f.contents ++ [c]
  := by
  obtain ⟨hsize, hread, hcount', hwrite⟩ := h
  constructor
  · refine ⟨hsize, hread, ?_, ?_⟩
    · change 0 ≤ f.count + 1 ∧ f.count + 1 ≤ size
      omega
    · change advance f.size f.write = index size f.read (f.count + 1)
      rw [hsize, hwrite, advance_index hread.2 hcount]
  · obtain ⟨n, hn⟩ := Int.eq_ofNat_of_zero_le hcount'.1
    have hpush := contents_push f.buf hread.1 hread.2 (show (n : Int) < size by omega) c
    rw [← hn, ← hwrite] at hpush
    rw [contents, contents, hsize, show f.count.toNat = n by omega, ← hpush]
    change RingBuffer.contents (Function.update f.buf f.write c) f.size f.read (f.count + 1).toNat = _
    rw [hsize, show (f.count + 1).toNat = n + 1 by omega]

/-- A removal, when there is a character. -/
theorem WellFormed.remove (h : f.WellFormed size) (hcount : 0 < f.count) :
  (ttyFifoGet.remove f).2.WellFormed size
    ∧ f.contents = (ttyFifoGet.remove f).1 :: (ttyFifoGet.remove f).2.contents
  := by
  obtain ⟨hsize, hread, hcount', hwrite⟩ := h
  constructor
  · refine ⟨hsize, ?_, ?_, ?_⟩
    · change 0 ≤ advance f.size f.read ∧ advance f.size f.read < size
      rw [hsize]
      apply advance_range hread.1 hread.2
    · change 0 ≤ f.count - 1 ∧ f.count - 1 ≤ size
      omega
    · change f.write = index size (advance f.size f.read) (f.count - 1)
      rw [hsize, hwrite, index_advance hread.2 (by omega) (by omega), Int.sub_add_cancel]
  · obtain ⟨n, hn⟩ := Int.eq_ofNat_of_zero_le (show 0 ≤ f.count - 1 by omega)
    rw [contents, hsize, show f.count.toNat = n + 1 by omega,
      contents_pop f.buf hread.2 (by omega)]
    change _ = f.buf f.read
      :: RingBuffer.contents f.buf f.size (advance f.size f.read) (f.count - 1).toNat
    rw [hsize, show (f.count - 1).toNat = n by omega]

theorem ttyFifoPut_of_full (h : f.size ≤ f.count) :
  f.ttyFifoPut c = (-1, f)
  := if_pos h

theorem ttyFifoPut_of_room (h : f.count < f.size) :
  f.ttyFifoPut c = (0, ttyFifoPut.insert f c)
  := if_neg (Int.not_le.mpr h)

theorem ttyFifoGet_of_empty (h : f.count ≤ 0) :
  f.ttyFifoGet c = (-1, c, f)
  := if_pos h

theorem ttyFifoGet_of_pos (h : 0 < f.count) :
  f.ttyFifoGet c = (0, ttyFifoGet.remove f)
  := if_neg (Int.not_le.mpr h)

theorem WellFormed.ttyFifoPut (h : f.WellFormed size) (c : UInt8) :
  (f.ttyFifoPut c).2.WellFormed size
  := by
  by_cases hcount : f.count < f.size
  · rw [ttyFifoPut_of_room hcount]
    rw [h.size_eq] at hcount
    apply (h.insert hcount).1
  · rw [ttyFifoPut_of_full (by omega)]
    apply h

theorem WellFormed.ttyFifoGet (h : f.WellFormed size) (c : UInt8) :
  (f.ttyFifoGet c).2.2.WellFormed size
  := by
  by_cases hcount : 0 < f.count
  · rw [ttyFifoGet_of_pos hcount]
    apply (h.remove hcount).1
  · rw [ttyFifoGet_of_empty (by omega)]
    apply h

/-! ### Runs -/

/-- A call on a FIFO; `get` has what the variable for the character holds before it. -/
inductive Call where
  | put (c : UInt8)
  | get (c : UInt8)

def next (f : TtyFifo) : Call → TtyFifo
  | .put c => (f.ttyFifoPut c).2
  | .get c => (f.ttyFifoGet c).2.2

end TtyFifo

/-- The calls on a FIFO of `size` places. -/
def fifoCalls (size : Int) : TransitionSystem TtyFifo TtyFifo.Call where
  init f := ∃ buf, f = ttyFifoInit buf size
  step f e f' := f' = f.next e

namespace TtyFifo

variable {f : TtyFifo} {size : Int}

/-- What a bounded queue of `size` characters does. -/
structure BoundedQueue (f : TtyFifo) (size : Int) : Prop where
  length_le : f.contents.length ≤ size
  count : f.count = f.contents.length
  read : 0 ≤ f.read ∧ f.read < size
  write : 0 ≤ f.write ∧ f.write < size
  put_full : f.contents.length = size → ∀ c, f.ttyFifoPut c = (-1, f)
  put : f.contents.length ≠ size → ∀ c, (f.ttyFifoPut c).1 = 0
    ∧ (f.ttyFifoPut c).2.contents = f.contents ++ [c]
  get_empty : f.contents = [] → ∀ c, f.ttyFifoGet c = (-1, c, f)
  get : ∀ x xs, f.contents = x :: xs → ∀ c, (f.ttyFifoGet c).1 = 0
    ∧ (f.ttyFifoGet c).2.1 = x ∧ (f.ttyFifoGet c).2.2.contents = xs

theorem WellFormed.boundedQueue (h : f.WellFormed size) :
  f.BoundedQueue size
  := by
  have hlength := h.length_contents
  have hcount := h.count
  have hsize := h.size_eq
  constructor
  · omega
  · omega
  · apply h.read
  · apply h.write_range
  · intro hfull c
    apply ttyFifoPut_of_full
    omega
  · intro hroom c
    rw [ttyFifoPut_of_room (by omega)]
    exact ⟨rfl, (h.insert (by omega)).2⟩
  · intro hempty c
    apply ttyFifoGet_of_empty
    rw [hempty, List.length_nil] at hlength
    omega
  · intro x xs hcons c
    rw [hcons, List.length_cons] at hlength
    have hpos : 0 < f.count := by omega
    have hremove := (h.remove hpos).2
    rw [ttyFifoGet_of_pos hpos]
    rw [hcons, List.cons.injEq] at hremove
    exact ⟨rfl, hremove.1.symm, hremove.2.symm⟩

/-- A FIFO is an empty queue at first, and a bounded queue in every state of a run. -/
theorem boundedQueue_of_reachable (hsize : 1 ≤ size) :
  (∀ buf, (ttyFifoInit buf size).contents = [])
    ∧ ∀ f, (fifoCalls size).Reachable (fun _ => True) f → f.BoundedQueue size
  := by
  use contents_ttyFifoInit
  intro f h
  apply WellFormed.boundedQueue
  apply h.invariant (I := fun f => f.WellFormed size)
  · rintro _ ⟨buf, rfl⟩
    apply wellFormed_ttyFifoInit buf hsize
  · rintro f e _ hf - rfl
    cases e with
    | put c => apply hf.ttyFifoPut
    | get c => apply hf.ttyFifoGet

/-- Three places, after four characters, of which the last finds no room, and two more calls. -/
def wrapped : TtyFifo :=
  ([.put 1, .put 2, .put 3, .put 4, .get 0, .put 5] : List Call).foldl next
    (ttyFifoInit (fun _ => 0) 3)

/-- The last one has gone to the place of the first. -/
theorem boundedQueue_wrapped :
  (wrapped.read = 1 ∧ wrapped.write = 1) ∧ wrapped.contents = [2, 3, 5]
    ∧ wrapped.BoundedQueue 3 ∧ ∀ buf, (ttyFifoInit buf 3).contents = []
  := by
  obtain ⟨hinit, hruns⟩ := boundedQueue_of_reachable (show (1 : Int) ≤ 3 by decide)
  have hreachable : (fifoCalls 3).Reachable (fun _ => True) wrapped :=
    .step (a := .put 5) (.step (a := .get 0) (.step (a := .put 4) (.step (a := .put 3)
      (.step (a := .put 2) (.step (a := .put 1) (.init ⟨fun _ => 0, rfl⟩) trivial rfl) trivial rfl)
      trivial rfl) trivial rfl) trivial rfl) trivial rfl
  exact ⟨by decide, rfl, hruns wrapped hreachable, hinit⟩

end TtyFifo

end Dmos
