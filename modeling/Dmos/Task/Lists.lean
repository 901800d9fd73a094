import Dmos.Task.Scheduler

/-!
# The lists of the scheduler as queues

The lists of a task manager hold a family of queues of tasks (`Holds`), none of them twice.
A task that goes into a list or out of it moves in the family, and nothing else does.
-/

open LinkedList Queues

namespace Dmos.TaskManager

/-- The lists of `m` hold the queues `q`, no task twice. -/
structure Holds (m : TaskManager) (q : Queues ListRef TaskRef) : Prop where
  isList : ∀ p, IsList (m.node p.node) (m.list p) (q p)
  exclusive : Exclusive q

/-! ### Frames -/

section Frames

variable (m : TaskManager) (p p' : ListRef) (t t' : TaskRef) (l : ListHead TaskRef) (n : ListNode)
  (h : Heap TaskRef)

@[simp]
theorem setList_node :
  (m.setList p l).node = m.node
  := by cases p <;> rfl

@[simp]
theorem setList_task :
  (m.setList p l).task = m.task
  := by cases p <;> rfl

@[simp]
theorem setList_currTask :
  (m.setList p l).currTask = m.currTask
  := by cases p <;> rfl

@[simp]
theorem list_setList_self :
  (m.setList p l).list p = l
  := by cases p <;> simp [list, setList]

theorem setNode_node :
  (m.setNode n h).node = Function.update m.node n h
  := rfl

@[simp]
theorem list_setNode :
  (m.setNode n h).list p = m.list p
  := by cases p <;> rfl

@[simp]
theorem list_setTask (task : Task) :
  (m.setTask t task).list p = m.list p
  := by cases p <;> rfl

@[simp]
theorem insertLast_task :
  (m.insertLast p t).task = m.task
  := by simp [insertLast, setNode]

@[simp]
theorem insertLast_currTask :
  (m.insertLast p t).currTask = m.currTask
  := by simp [insertLast, setNode]

@[simp]
theorem delete_task :
  (m.delete p t).task = m.task
  := by simp [delete, setNode]

@[simp]
theorem delete_currTask :
  (m.delete p t).currTask = m.currTask
  := by simp [delete, setNode]

@[simp]
theorem list_insertTaskList :
  (m.insertTaskList t).list p = m.list p
  := by
  rw [insertTaskList]
  rcases listInsertLast (m.node .allNode) m.taskList t with ⟨h, l⟩
  cases p <;> rfl

@[simp]
theorem insertTaskList_task :
  (m.insertTaskList t).task = m.task
  := by
  rw [insertTaskList]
  rcases listInsertLast (m.node .allNode) m.taskList t with ⟨h, l⟩
  rfl

theorem insertTaskList_node :
  (m.insertTaskList t).node p.node = m.node p.node
  := by
  rw [insertTaskList]
  rcases listInsertLast (m.node .allNode) m.taskList t with ⟨h, l⟩
  cases p <;> rfl

@[simp]
theorem insertTaskList_currTask :
  (m.insertTaskList t).currTask = m.currTask
  := by
  rw [insertTaskList]
  rcases listInsertLast (m.node .allNode) m.taskList t with ⟨h, l⟩
  rfl

variable {m p p' l}

theorem list_setList_of_ne (hne : p' ≠ p) :
  (m.setList p l).list p' = m.list p'
  := by
  cases p <;> cases p' <;> simp_all [list, setList]

end Frames

/-! ### One list -/

section OneList

variable {m : TaskManager} {p q : ListRef} {t : TaskRef} {ts us : List TaskRef}

theorem isList_insertLast (hlist : IsList (m.node p.node) (m.list p) ts) (ht : t ∉ ts) :
  IsList ((m.insertLast p t).node p.node) ((m.insertLast p t).list p) (ts ++ [t])
  := by
  rw [insertLast, setList_node, setNode_node, list_setList_self, Function.update_self]
  apply hlist.insertLast ht

/-- The first task of a list goes out like any other. -/
theorem deleteFirst_of_isList (hlist : IsList (m.node p.node) (m.list p) (t :: ts)) :
  m.deleteFirst p = (some t, m.delete p t)
  := by
  rw [TaskManager.deleteFirst, hlist.deleteFirst]
  rfl

theorem isList_delete {us : List TaskRef}
    (hlist : IsList (m.node p.node) (m.list p) (ts ++ t :: us)) :
  IsList ((m.delete p t).node p.node) ((m.delete p t).list p) (ts ++ us)
  := by
  rw [delete, setList_node, setNode_node, list_setList_self, Function.update_self]
  apply hlist.delete

theorem isList_deleteFirst (hlist : IsList (m.node p.node) (m.list p) (t :: ts)) :
  IsList ((m.delete p t).node p.node) ((m.delete p t).list p) ts
  := by
  rw [← List.nil_append (t :: ts)] at hlist
  apply isList_delete hlist

/-- A list whose tasks are none of those of another keeps them when a task goes into the other. -/
theorem isList_insertLast_of_ne (hne : q ≠ p) (hlist : IsList (m.node p.node) (m.list p) ts)
    (hother : IsList (m.node q.node) (m.list q) us) (hdisjoint : ∀ u ∈ us, u ∉ ts)
    (ht : t ∉ us) :
  IsList ((m.insertLast p t).node q.node) ((m.insertLast p t).list q) us
  := by
  rw [insertLast, setList_node, setNode_node, list_setList_of_ne hne, list_setNode]
  by_cases hnode : q.node = p.node
  · rw [hnode] at hother ⊢
    rw [Function.update_self]
    apply hother.congr
    intro u hu
    apply listInsertLast_of_not_mem hlist (hdisjoint u hu)
    rintro rfl
    apply ht hu
  · rw [Function.update_of_ne hnode]
    apply hother

/-- The same when a task goes out of the other. -/
theorem isList_delete_of_ne (hne : q ≠ p) (ht : t ∈ ts)
    (hlist : IsList (m.node p.node) (m.list p) ts)
    (hother : IsList (m.node q.node) (m.list q) us) (hdisjoint : ∀ u ∈ us, u ∉ ts) :
  IsList ((m.delete p t).node q.node) ((m.delete p t).list q) us
  := by
  rw [delete, setList_node, setNode_node, list_setList_of_ne hne, list_setNode]
  by_cases hnode : q.node = p.node
  · rw [hnode] at hother ⊢
    rw [Function.update_self]
    apply hother.congr
    intro u hu
    apply listDelete_of_not_mem hlist ht (hdisjoint u hu)
  · rw [Function.update_of_ne hnode]
    apply hother

end OneList

/-! ### Moves -/

section Moves

variable {m m' : TaskManager} {q : Queues ListRef TaskRef} {p : ListRef} {t : TaskRef}

/-- The lists hold what they held when neither they nor the links have changed. -/
theorem Holds.congr (hm : Holds m q) (hnode : m'.node = m.node)
    (hlist : ∀ p, m'.list p = m.list p) :
  Holds m' q
  := by
  constructor
  · intro p
    rw [hnode, hlist]
    apply hm.isList
  · apply hm.exclusive

/-- The tasks of a list, read off the links. -/
theorem Holds.linked (hm : Holds m q) (p : ListRef) :
  m.linked p = q p
  := (hm.isList p).nodes

/-- Changing one list, with links that stay as they are for the tasks of the others. -/
theorem Holds.setList (hm : Holds m q) {h : Heap TaskRef} {l : ListHead TaskRef}
    {ts : List TaskRef} (hself : IsList h l ts)
    (hother : ∀ p', p' ≠ p → ∀ x ∈ q p', h x = m.node p.node x) (p' : ListRef) :
  IsList (((m.setNode p.node h).setList p l).node p'.node)
    (((m.setNode p.node h).setList p l).list p') (Function.update q p ts p')
  := by
  rw [setList_node, setNode_node]
  by_cases hp : p' = p
  · subst hp
    rw [list_setList_self, Function.update_self, Function.update_self]
    apply hself
  · rw [list_setList_of_ne hp, list_setNode, Function.update_of_ne hp]
    by_cases hnode : p'.node = p.node
    · rw [hnode, Function.update_self]
      apply (hm.isList p').congr
      intro x hx
      rw [hother p' hp x hx, hnode]
    · rw [Function.update_of_ne hnode]
      apply hm.isList

theorem Holds.insertLast (hm : Holds m q) (p : ListRef) (ht : Absent q t) :
  Holds (m.insertLast p t) (q.push p t)
  := by
  constructor
  · apply hm.setList ((hm.isList p).insertLast (ht p))
    intro p' hp x hx
    apply listInsertLast_of_not_mem (hm.isList p)
    · intro hx'
      apply hp (hm.exclusive.unique hx hx')
    · rintro rfl
      apply ht p' hx
  · apply hm.exclusive.push ht

theorem Holds.delete (hm : Holds m q) (ht : t ∈ q p) :
  Holds (m.delete p t) (q.remove p t)
  := by
  constructor
  · have hself : IsList (listDelete (m.node p.node) (m.list p) t).1
        (listDelete (m.node p.node) (m.list p) t).2 ((q p).erase t) := by
      have hlist := hm.isList p
      obtain ⟨as, bs, hsplit⟩ := List.append_of_mem ht
      have has : t ∉ as := by
        have hnodup := hm.exclusive.nodup p
        rw [hsplit, List.nodup_append] at hnodup
        intro has
        apply hnodup.2.2 t has t List.mem_cons_self rfl
      rw [hsplit] at hlist ⊢
      rw [List.erase_append_right _ has, List.erase_cons_head]
      apply hlist.delete
    apply hm.setList hself
    intro p' hp x hx
    apply listDelete_of_not_mem (hm.isList p) ht
    intro hx'
    apply hp (hm.exclusive.unique hx hx')
  · apply hm.exclusive.remove ht

/-- The first task of a list goes out like any other. -/
theorem Holds.deleteFirst (hm : Holds m q) {ts : List TaskRef} (h : q p = t :: ts) :
  m.deleteFirst p = (some t, m.delete p t)
  := by
  have hlist := hm.isList p
  rw [h] at hlist
  apply deleteFirst_of_isList hlist

end Moves

end Dmos.TaskManager
