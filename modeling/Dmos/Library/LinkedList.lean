import Mathlib.Logic.Function.Basic
import Mathlib.Data.List.Nodup

/-!
# Doubly linked lists

A heap gives each node a link to its predecessor and one to its successor.  A heap holds
the nodes `xs` as a chain between `p` and `n` when the links of each of them point to its
neighbours in the sequence; the first has predecessor `p` and the last has successor `n`
(`Chain`).

A chain is cut into parts by `chain_append`, and depends on the links of its nodes only
(`Chain.congr`).
-/

namespace LinkedList

/-- The links of a node. -/
structure Link (α : Type) where
  pre : Option α
  next : Option α
  deriving DecidableEq

/-- The links of all nodes. -/
abbrev Heap (α : Type) : Type :=
  α → Link α

variable {α : Type}

/-- The nodes `xs` are linked in order, between `p` and `n`. -/
def Chain (h : Heap α) : Option α → List α → Option α → Prop
  | _, [], _ => True
  | p, x :: xs, n => (h x).pre = p ∧ (h x).next = xs.head?.or n ∧ Chain h (some x) xs n

/-- A chain depends on the links of its nodes. -/
theorem Chain.congr {h h' : Heap α} {p n : Option α} {xs : List α} (hc : Chain h p xs n)
    (heq : ∀ x ∈ xs, h' x = h x) :
  Chain h' p xs n
  := by
  induction xs generalizing p with
  | nil => trivial
  | cons x xs ih =>
      obtain ⟨hpre, hnext, hrest⟩ := hc
      unfold Chain
      rw [heq x List.mem_cons_self]
      use hpre, hnext
      apply ih hrest
      intro y hy
      apply heq y (List.mem_cons_of_mem _ hy)

/-- A chain of two parts is a chain of each, between their ends. -/
theorem chain_append {h : Heap α} {p n : Option α} {xs ys : List α} :
  Chain h p (xs ++ ys) n
    ↔ Chain h p xs (ys.head?.or n) ∧ Chain h (xs.getLast?.or p) ys n
  := by
  induction xs generalizing p with
  | nil => simp [Chain]
  | cons x xs ih =>
      rw [List.cons_append, Chain, Chain, ih, List.head?_append, Option.or_assoc]
      have hlast : (x :: xs).getLast?.or p = xs.getLast?.or (some x) := by
        rw [List.getLast?_cons]
        cases xs.getLast? <;> rfl
      rw [hlast]
      tauto

/-! ### Changes to the links -/

section Relink

variable [DecidableEq α]

def setPre (h : Heap α) (x : α) (p : Option α) : Heap α :=
  Function.update h x { h x with pre := p }

def setNext (h : Heap α) (x : α) (n : Option α) : Heap α :=
  Function.update h x { h x with next := n }

@[simp]
theorem setPre_of_ne (h : Heap α) {x y : α} (p : Option α) (hne : y ≠ x) :
  setPre h x p y = h y
  := Function.update_of_ne hne _ _

@[simp]
theorem setNext_of_ne (h : Heap α) {x y : α} (n : Option α) (hne : y ≠ x) :
  setNext h x n y = h y
  := Function.update_of_ne hne _ _

@[simp]
theorem setPre_self (h : Heap α) (x : α) (p : Option α) :
  setPre h x p x = ⟨p, (h x).next⟩
  := Function.update_self _ _ _

@[simp]
theorem setNext_self (h : Heap α) (x : α) (n : Option α) :
  setNext h x n x = ⟨(h x).pre, n⟩
  := Function.update_self _ _ _

/-- The heap in which the successor of `z`, if there is such a node, is `n`. -/
def relinkNext (h : Heap α) (z : Option α) (n : Option α) : Heap α :=
  match z with
  | some z => setNext h z n
  | none => h

/-- The heap in which the predecessor of `y`, if there is such a node, is `p`. -/
def relinkPre (h : Heap α) (y : Option α) (p : Option α) : Heap α :=
  match y with
  | some y => setPre h y p
  | none => h

theorem relinkNext_of_ne (h : Heap α) {z : Option α} (n : Option α) {x : α} (hne : some x ≠ z) :
  relinkNext h z n x = h x
  := by
  cases z with
  | none => rfl
  | some z =>
      apply setNext_of_ne
      rintro rfl
      apply hne rfl

theorem relinkPre_of_ne (h : Heap α) {y : Option α} (p : Option α) {x : α} (hne : some x ≠ y) :
  relinkPre h y p x = h x
  := by
  cases y with
  | none => rfl
  | some y =>
      apply setPre_of_ne
      rintro rfl
      apply hne rfl

/-- A chain gets another successor by a change to the link of its last node. -/
theorem Chain.relinkNext {h : Heap α} {p n : Option α} {xs : List α} (hc : Chain h p xs n)
    (hnodup : xs.Nodup) (n' : Option α) :
  Chain (relinkNext h xs.getLast? n') p xs n'
  := by
  rcases List.eq_nil_or_concat xs with rfl | ⟨ys, z, rfl⟩
  · trivial
  · rw [List.concat_eq_append] at hc hnodup ⊢
    rw [List.nodup_append] at hnodup
    obtain ⟨hys, hz⟩ := chain_append.mp hc
    rw [List.getLast?_append, List.getLast?_singleton, Option.some_or, chain_append]
    constructor
    · apply hys.congr
      intro y hy
      apply setNext_of_ne
      apply hnodup.2.2 y hy z (by simp)
    · simp only [LinkedList.relinkNext, Chain, setNext_self]
      use hz.1
      simp

/-- A chain gets another predecessor by a change to the link of its first node. -/
theorem Chain.relinkPre {h : Heap α} {p n : Option α} {xs : List α} (hc : Chain h p xs n)
    (hnodup : xs.Nodup) (p' : Option α) :
  Chain (relinkPre h xs.head? p') p' xs n
  := by
  cases xs with
  | nil => trivial
  | cons x xs =>
      rw [List.nodup_cons] at hnodup
      obtain ⟨-, hnext, hrest⟩ := hc
      simp only [List.head?_cons, LinkedList.relinkPre, Chain, setPre_self]
      refine ⟨trivial, hnext, ?_⟩
      apply hrest.congr
      intro y hy
      apply setPre_of_ne
      rintro rfl
      apply hnodup.1 hy

end Relink

/-- The nodes met on following the successors `n` times. -/
def follow (h : Heap α) : Nat → Option α → List α
  | 0, _ => []
  | _ + 1, none => []
  | n + 1, some x => x :: follow h n (h x).next

/-- Following the successors through a chain meets its nodes. -/
theorem Chain.follow {h : Heap α} {p n : Option α} {xs : List α} (hc : Chain h p xs n) :
  follow h xs.length (xs.head?.or n) = xs
  := by
  induction xs generalizing p with
  | nil => rfl
  | cons x xs ih =>
      obtain ⟨-, hnext, hrest⟩ := hc
      rw [List.length_cons, List.head?_cons, Option.some_or, LinkedList.follow, hnext, ih hrest]

end LinkedList
