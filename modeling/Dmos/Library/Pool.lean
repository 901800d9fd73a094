import Dmos.Library.FirstFree
import Mathlib.Data.List.Nodup
import Mathlib.Order.Bounds.Basic

/-!
# Pools

A pool is a table of entries of which some are held.  The first entry that is not held can be
taken, and one that is held can be given back.  In a sorted table what is taken is the least
entry that is not held (`isLeast_take`).
-/

/-- The entries of a table that are held, in the order they were taken. -/
structure Pool (E : Type) (entries : List E) where
  held : List E
  nodup : held.Nodup
  mem_entries : ∀ e ∈ held, e ∈ entries

namespace Pool

variable {E : Type} [DecidableEq E] {entries : List E} {p : Pool E entries} {e : E}

/-- The pool of which nothing is held. -/
def empty (entries : List E) : Pool E entries where
  held := []
  nodup := List.nodup_nil
  mem_entries e he := by cases he

/-- The entry to be taken. -/
def next (p : Pool E entries) : Option E :=
  FirstFree.firstFree entries fun e => decide (e ∈ p.held)

theorem not_mem_of_next (h : p.next = some e) :
  e ∉ p.held
  := by simpa using FirstFree.marked_of_firstFree h

/-- An entry that is not held is taken. -/
def take (p : Pool E entries) (e : E) (hentry : e ∈ entries) (hnot : e ∉ p.held) :
    Pool E entries where
  held := e :: p.held
  nodup := List.nodup_cons.mpr ⟨hnot, p.nodup⟩
  mem_entries := by
    intro e' he'
    rcases List.mem_cons.mp he' with rfl | he'
    · exact hentry
    · exact p.mem_entries e' he'

/-- An entry is given back. -/
def release (p : Pool E entries) (e : E) : Pool E entries where
  held := p.held.erase e
  nodup := p.nodup.erase e
  mem_entries := fun e' he' => p.mem_entries e' (List.mem_of_mem_erase he')

theorem mem_release {e' : E} :
  e' ∈ (p.release e).held ↔ e' ∈ p.held ∧ e' ≠ e
  := by
  rw [release, p.nodup.mem_erase_iff]
  exact and_comm

theorem next_eq_none_iff :
  p.next = none ↔ ∀ e ∈ entries, e ∈ p.held
  := by
  constructor
  · intro h e he
    rw [next, FirstFree.firstFree, List.find?_eq_none] at h
    simpa using h e he
  · intro h
    rcases hnext : p.next with _ | e
    · rfl
    · cases not_mem_of_next hnext (h e (FirstFree.mem_of_firstFree hnext))

end Pool

/-- In a sorted table the least entry that is not held is taken next. -/
theorem Pool.isLeast_next {E : Type} [LinearOrder E] {entries : List E} {p : Pool E entries}
    {e : E} (hsorted : entries.Pairwise (· < ·)) (h : p.next = some e) :
  IsLeast { e | e ∈ entries ∧ e ∉ p.held } e
  := by
  constructor
  · exact ⟨FirstFree.mem_of_firstFree h, not_mem_of_next h⟩
  · rintro e' ⟨hentry, hnot⟩
    exact FirstFree.le_of_firstFree hsorted h hentry (decide_eq_false hnot)
