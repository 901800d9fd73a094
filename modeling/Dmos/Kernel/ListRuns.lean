import Dmos.Kernel.List

/-!
# Calls on a list

A list and its links stand for the sequence of the nodes in it.  Each call of `lib/list.c` does
to the links what its counterpart does to the sequence (`ListOp.apply`), and it leaves the nodes
of other lists alone; so does every sequence of calls (`refines_of_isList`).
-/

open LinkedList

namespace Dmos

/-- The calls that change a list. -/
inductive ListOp (α : Type) where
  | insertFirst (node : α)
  | insertLast (node : α)
  | deleteFirst
  | delete (node : α)

namespace ListOp

variable {α : Type} [DecidableEq α]

/-- The node that is returned, the links and the head after a call. -/
def run (h : Heap α) (l : ListHead α) : ListOp α → Option α × Heap α × ListHead α
  | insertFirst node => (none, listInsertFirst h l node)
  | insertLast node => (none, listInsertLast h l node)
  | deleteFirst => listDeleteFirst h l
  | delete node => (some node, listDelete h l node)

/-- The call on a sequence. -/
def apply (xs : List α) : ListOp α → Option α × List α
  | insertFirst node => (none, node :: xs)
  | insertLast node => (none, xs ++ [node])
  | deleteFirst => (xs.head?, xs.tail)
  | delete node => (some node, xs.erase node)

/-- A node that is inserted is not in the list yet, and one that is deleted is. -/
def Allowed (xs : List α) : ListOp α → Prop
  | insertFirst node => node ∉ xs
  | insertLast node => node ∉ xs
  | deleteFirst => True
  | delete node => node ∈ xs

/-- The node that a call inserts. -/
def inserted : ListOp α → Option α
  | insertFirst node => some node
  | insertLast node => some node
  | deleteFirst => none
  | delete _ => none

/-- A call on the list of the nodes `xs` does what it does on the sequence.  It clears the links
of a node that it removes, and changes no node outside of the list but the one it inserts. -/
structure Refines (h : Heap α) (l : ListHead α) (xs : List α) (op : ListOp α) : Prop where
  returned : (op.run h l).1 = (op.apply xs).1
  isList : IsList (op.run h l).2.1 (op.run h l).2.2 (op.apply xs).2
  cleared : ∀ x, (op.run h l).1 = some x → (op.run h l).2.1 x = ⟨none, none⟩
  others : ∀ y, y ∉ xs → op.inserted ≠ some y → (op.run h l).2.1 y = h y

/-! ### One call -/

variable {h : Heap α} {l : ListHead α} {xs : List α} {x : α}

theorem listDelete_cleared (h : Heap α) (l : ListHead α) (x : α) :
  (listDelete h l x).1 x = ⟨none, none⟩
  := by
  rw [listDelete]
  dsimp only
  rw [listNodeInit, setNext_self, setPre_self]

theorem refines_delete (hl : IsList h l xs) (hx : x ∈ xs) :
  Refines h l xs (delete x)
  where
  returned := rfl
  isList := by
    obtain ⟨as, bs, rfl⟩ := List.append_of_mem hx
    have hxas : x ∉ as := by
      intro has
      have hnodup := hl.nodup
      rw [List.nodup_append] at hnodup
      apply hnodup.2.2 x has x List.mem_cons_self rfl
    rw [apply, List.erase_append_right _ hxas, List.erase_cons_head]
    apply hl.delete
  cleared := by
    rintro _ ⟨⟩
    apply listDelete_cleared
  others := by
    intro y hy _
    apply listDelete_of_not_mem hl hx hy

theorem refines_deleteFirst (hl : IsList h l xs) :
  Refines h l xs deleteFirst
  := by
  cases xs with
  | nil =>
      have hrun : run h l deleteFirst = (none, h, l) := by
        rw [run, listDeleteFirst, if_pos (hl.isEmpty.mpr rfl)]
      constructor
      · rw [hrun]
        rfl
      · rw [hrun]
        apply hl
      · rw [hrun]
        intro y hy
        cases hy
      · intro y _ _
        rw [hrun]
  | cons x xs =>
      have hdelete := refines_delete hl List.mem_cons_self
      have hrun : run h l deleteFirst = run h l (delete x) := by
        rw [run, hl.deleteFirst]
        rfl
      have happly : apply (x :: xs) deleteFirst = apply (x :: xs) (delete x) := by
        rw [apply, apply, List.erase_cons_head]
        rfl
      constructor
      · rw [hrun, happly]
        apply hdelete.returned
      · rw [hrun, happly]
        apply hdelete.isList
      · rw [hrun]
        apply hdelete.cleared
      · intro y hy _
        rw [hrun]
        apply hdelete.others y hy
        intro h
        cases h

theorem refines_of_allowed {op : ListOp α} (hl : IsList h l xs) (hop : op.Allowed xs) :
  Refines h l xs op
  := by
  cases op with
  | insertFirst node =>
      refine ⟨rfl, hl.insertFirst hop, nofun, ?_⟩
      intro y hy hne
      apply listInsertFirst_of_not_mem hl hy
      rintro rfl
      apply hne rfl
  | insertLast node =>
      refine ⟨rfl, hl.insertLast hop, nofun, ?_⟩
      intro y hy hne
      apply listInsertLast_of_not_mem hl hy
      rintro rfl
      apply hne rfl
  | deleteFirst => apply refines_deleteFirst hl
  | delete node => apply refines_delete hl hop

/-! ### Sequences of calls -/

/-- The nodes that the calls return, the links and the head after them. -/
def runs (h : Heap α) (l : ListHead α) : List (ListOp α) → List (Option α) × Heap α × ListHead α
  | [] => ([], h, l)
  | op :: ops =>
      match op.run h l with
      | (r, h, l) =>
          match runs h l ops with
          | (rs, h, l) => (r :: rs, h, l)

def applies (xs : List α) : List (ListOp α) → List (Option α) × List α
  | [] => ([], xs)
  | op :: ops =>
      match op.apply xs with
      | (r, xs) =>
          match applies xs ops with
          | (rs, xs) => (r :: rs, xs)

def AllAllowed (xs : List α) : List (ListOp α) → Prop
  | [] => True
  | op :: ops => op.Allowed xs ∧ AllAllowed (op.apply xs).2 ops

/-- Calls one after the other do what they do on the sequence, and change no node that is not
in the list at any time. -/
structure RunsRefine (h : Heap α) (l : ListHead α) (xs : List α) (ops : List (ListOp α)) :
    Prop where
  returned : (runs h l ops).1 = (applies xs ops).1
  isList : IsList (runs h l ops).2.1 (runs h l ops).2.2 (applies xs ops).2
  others : ∀ y, y ∉ xs → (∀ op ∈ ops, op.inserted ≠ some y) → (runs h l ops).2.1 y = h y

/-- A node that is not in the list, nor inserted, is not in it after the call. -/
theorem not_mem_apply {op : ListOp α} (hx : x ∉ xs) (hne : op.inserted ≠ some x) :
  x ∉ (op.apply xs).2
  := by
  cases op with
  | insertFirst node =>
      rw [apply, List.mem_cons, not_or]
      use fun heq => hne (congrArg some heq.symm)
  | insertLast node =>
      rw [apply, List.mem_append, List.mem_singleton, not_or]
      use hx
      rintro rfl
      apply hne rfl
  | deleteFirst => exact fun hmem => hx (List.mem_of_mem_tail hmem)
  | delete node => exact fun hmem => hx (List.mem_of_mem_erase hmem)

theorem runsRefine_of_allAllowed {ops : List (ListOp α)} (hl : IsList h l xs)
    (hops : AllAllowed xs ops) :
  RunsRefine h l xs ops
  := by
  induction ops generalizing h l xs with
  | nil => exact ⟨rfl, hl, fun _ _ _ => rfl⟩
  | cons op ops ih =>
      have hop := refines_of_allowed hl hops.1
      have hrest := ih hop.isList hops.2
      constructor
      · rw [runs, applies]
        dsimp only
        rw [hop.returned, hrest.returned]
      · apply hrest.isList
      · intro y hy hne
        have hy' := not_mem_apply hy (hne op List.mem_cons_self)
        change (runs (op.run h l).2.1 (op.run h l).2.2 ops).2.1 y = h y
        rw [hrest.others y hy' (fun op' hop' => hne op' (List.mem_cons_of_mem _ hop'))]
        apply hop.others y hy (hne op List.mem_cons_self)

/-- The calls on a list are the calls on the sequence of its nodes. -/
theorem refines_of_isList (hl : IsList h l xs) :
  (∀ op, Allowed xs op → Refines h l xs op)
    ∧ ∀ ops, AllAllowed xs ops → RunsRefine h l xs ops
  := by
  constructor
  · intro op hop
    apply refines_of_allowed hl hop
  · intro ops hops
    apply runsRefine_of_allAllowed hl hops

theorem refines_listInit :
  IsList (fun _ : Nat => ⟨none, none⟩) listInit []
    ∧ (∀ op, Allowed [] op → Refines (fun _ : Nat => ⟨none, none⟩) listInit [] op)
    ∧ ∀ ops, AllAllowed [] ops → RunsRefine (fun _ : Nat => ⟨none, none⟩) listInit [] ops
  := ⟨isList_init _, refines_of_isList (isList_init _)⟩

/-- `list_test`: five nodes go in at the end and come out at the front. -/
example :
    (runs (fun _ : Nat => ⟨none, none⟩) listInit
        ([insertLast 0, insertLast 1, insertLast 2, insertLast 3, insertLast 4]
          ++ List.replicate 5 deleteFirst)).1
      = [none, none, none, none, none, some 0, some 1, some 2, some 3, some 4] := by
  decide

end ListOp

end Dmos
