import Dmos.Task.Machine

/-!
# The walk through the sleep list

A tick walks through the sleep list and takes out of it the very node it is at, by the link to
the next node it has read before.  From any two lists of tasks with no task in both
(`SleepReady`), the walk decrements each sleeping task once and moves those that reach zero to
the end of the ready list, in their order (`walk_sleepList`).
-/

open LinkedList

namespace Dmos.TaskManager

variable {m : TaskManager} {ts us ys : List TaskRef} {t : TaskRef}

/-- The sleep list holds `xs` and the ready list `ys`, no task is in both, and the idle task
does not sleep. -/
structure SleepReady (m : TaskManager) (xs ys : List TaskRef) : Prop where
  sleep : IsList (m.node .runNode) m.sleepList xs
  ready : IsList (m.node .runNode) m.readyList ys
  disjoint : ∀ t ∈ xs, t ∉ ys
  idle : .idleTask ∉ xs

theorem SleepReady.setTask (h : SleepReady m ts ys) (task : Task) :
  SleepReady (m.setTask t task) ts ys
  := ⟨h.sleep, h.ready, h.disjoint, h.idle⟩

theorem ready_ne_sleep :
  ListRef.ready ≠ .sleep
  := by
  intro h
  cases h

/-- A task of the sleep list goes to the end of the ready list. -/
theorem SleepReady.move (h : SleepReady m (ts ++ t :: us) ys) :
  SleepReady ((m.taskSetWakeup t).taskSetReady t) (ts ++ us) (ys ++ [t])
  := by
  have ht : t ∈ ts ++ t :: us := List.mem_append_right ts List.mem_cons_self
  have hrest : ∀ u ∈ ts ++ us, u ∈ ts ++ t :: us := by
    intro u hu
    rw [List.mem_append] at hu ⊢
    exact hu.imp_right (List.mem_cons_of_mem t)
  have hnew : t ∉ ts ++ us := by
    have hnodup := h.sleep.nodup
    rw [List.nodup_middle, List.nodup_cons] at hnodup
    apply hnodup.1
  have hidle : t ≠ .idleTask := by
    rintro rfl
    apply h.idle ht
  -- out of the sleep list
  have hsleep : IsList ((m.delete .sleep t).node .runNode) (m.delete .sleep t).sleepList
      (ts ++ us) := isList_delete (p := .sleep) h.sleep
  have hready : IsList ((m.delete .sleep t).node .runNode) (m.delete .sleep t).readyList ys :=
    isList_delete_of_ne ready_ne_sleep ht h.sleep h.ready
      fun u hu hmem => h.disjoint u hmem hu
  have hout : t ∉ ys := h.disjoint t ht
  rw [taskSetWakeup, taskSetReady, if_neg hidle]
  refine SleepReady.setTask ⟨?_, ?_, ?_, fun hmem => h.idle (hrest _ hmem)⟩ _
  · exact isList_insertLast_of_ne ready_ne_sleep.symm hready hsleep
      (fun u hu => h.disjoint u (hrest u hu)) hnew
  · exact isList_insertLast (p := .ready) hready hout
  · intro u hu hmem
    rw [List.mem_append, List.mem_singleton] at hmem
    rcases hmem with hmem | rfl
    · apply h.disjoint u (hrest u hu) hmem
    · apply hnew hu

theorem task_move (m : TaskManager) (hidle : t ≠ .idleTask) :
  ((m.taskSetWakeup t).taskSetReady t).task
    = Function.update m.task t { m.task t with state := .ready }
  := by
  rw [taskSetWakeup, taskSetReady, if_neg hidle, setState, TaskManager.setTask]
  dsimp only
  rw [insertLast_task, delete_task]

/-- What a tick makes of a sleeping task. -/
def ticked (m : TaskManager) (t : TaskRef) : Task :=
  { m.task t with
    sleepTicks := (m.task t).sleepTicks - 1
    state := if m.Wakes t then .ready else (m.task t).state }

/-- One task of the walk. -/
theorem SleepReady.wake (h : SleepReady m (ts ++ t :: us) ys) :
  SleepReady (taskTimeTick.wake m t) (ts ++ [t].filter (fun t => !m.Wakes t) ++ us)
      (ys ++ [t].filter m.Wakes) ∧
    (taskTimeTick.wake m t).task = Function.update m.task t (m.ticked t)
  := by
  have hidle : t ≠ .idleTask := by
    rintro rfl
    apply h.idle (List.mem_append_right ts List.mem_cons_self)
  have hset := h.setTask (t := t) { m.task t with sleepTicks := (m.task t).sleepTicks - 1 }
  rw [taskTimeTick.wake, ticked]
  dsimp only
  rw [setTask_task, if_pos rfl]
  by_cases hzero : (m.task t).sleepTicks - 1 = 0
  · have hwakes : m.Wakes t = true := by
      rw [Wakes, decide_eq_true_iff]
      omega
    rw [if_pos hzero, if_pos hwakes, List.filter_cons_of_pos hwakes,
      List.filter_cons_of_neg (by rw [hwakes]; decide), List.filter_nil, List.append_nil]
    refine ⟨hset.move, ?_⟩
    rw [task_move _ hidle, TaskManager.setTask]
    dsimp only
    rw [Function.update_idem, Function.update_self]
  · have hwakes : m.Wakes t = false := by
      rw [Wakes, decide_eq_false_iff_not]
      omega
    rw [if_neg hzero, hwakes, if_neg Bool.false_ne_true,
      List.filter_cons_of_pos (by rw [hwakes]; rfl), List.filter_cons_of_neg (by rw [hwakes]; decide),
      List.filter_nil, List.filter_nil, List.append_nil, List.append_assoc, List.singleton_append]
    exact ⟨hset, rfl⟩

/-- The walk from a place of the sleep list on. -/
theorem SleepReady.walk (h : SleepReady m (ts ++ us) ys) {fuel : Nat}
    (hfuel : us.length ≤ fuel) :
  (taskTimeTick.walk m fuel us.head?).1 = none ∧
    SleepReady (taskTimeTick.walk m fuel us.head?).2 (ts ++ us.filter fun t => !m.Wakes t)
      (ys ++ us.filter m.Wakes) ∧
    ∀ t, (taskTimeTick.walk m fuel us.head?).2.task t
      = if t ∈ us then m.ticked t else m.task t
  := by
  induction us generalizing m ts ys fuel with
  | nil =>
      have hend : taskTimeTick.walk m fuel ([] : List TaskRef).head? = (none, m) := by
        cases fuel <;> rfl
      rw [hend, List.filter_nil, List.filter_nil, List.append_nil ys]
      exact ⟨rfl, h, fun t => (if_neg List.not_mem_nil).symm⟩
  | cons t us ih =>
      rw [List.length_cons] at hfuel
      obtain ⟨fuel, rfl⟩ := Nat.exists_eq_add_of_le' (Nat.le_of_add_left_le hfuel)
      -- the link to the next task is read before the walk changes it
      have hnext : (m.node .runNode t).next = us.head? := by rw [h.sleep.links]
      have ht : t ∉ us := by
        have hnodup := h.sleep.nodup
        rw [List.nodup_append, List.nodup_cons] at hnodup
        apply hnodup.2.1.1
      obtain ⟨hstep, htask⟩ := h.wake
      have hother : ∀ u ∈ us, (taskTimeTick.wake m t).task u = m.task u := by
        intro u hu
        rw [htask, Function.update_of_ne]
        rintro rfl
        apply ht hu
      have hwakes : ∀ u ∈ us, (taskTimeTick.wake m t).Wakes u = m.Wakes u := by
        intro u hu
        rw [Wakes, hother u hu, Wakes]
      obtain ⟨hend, hlists, htasks⟩ := ih hstep (Nat.le_of_add_le_add_right hfuel)
      rw [List.head?_cons, taskTimeTick.walk, hnext]
      refine ⟨hend, ?_, ?_⟩
      · rw [List.filter_congr fun u hu => congrArg not (hwakes u hu), List.filter_congr hwakes,
          List.append_assoc, ← List.filter_append, List.append_assoc, ← List.filter_append]
          at hlists
        exact hlists
      · intro u
        rw [htasks u]
        by_cases hu : u ∈ us
        · rw [if_pos hu, if_pos (List.mem_cons_of_mem t hu), ticked, ticked, hwakes u hu,
            hother u hu]
        · rw [if_neg hu, htask]
          by_cases hut : u = t
          · rw [hut, Function.update_self, if_pos List.mem_cons_self]
          · rw [Function.update_of_ne hut, if_neg]
            rw [List.mem_cons, not_or]
            exact ⟨hut, hu⟩

/-- The walk with fuel for the tasks of the list. -/
theorem walk_sleepList {xs : List TaskRef} (h : SleepReady m xs ys) {fuel : Nat}
    (hfuel : xs.length ≤ fuel) :
  (taskTimeTick.walk m fuel m.sleepList.first).1 = none ∧
    SleepReady (taskTimeTick.walk m fuel m.sleepList.first).2 (xs.filter fun t => !m.Wakes t)
      (ys ++ xs.filter m.Wakes) ∧
    ∀ t, (taskTimeTick.walk m fuel m.sleepList.first).2.task t
      = if t ∈ xs then m.ticked t else m.task t
  := by
  rw [h.sleep.first]
  exact SleepReady.walk (show SleepReady m ([] ++ xs) ys from h) hfuel

/-- Three tasks sleep, the first and the last of them for one tick. -/
def threeSleeping : TaskManager :=
  ((Machine.started.tasks.taskSetSleep (.slot 0) 1).taskSetSleep (.slot 1) 2).taskSetSleep
    (.slot 2) 1

theorem sleepReady_threeSleeping :
  SleepReady threeSleeping [.slot 0, .slot 1, .slot 2] [.firstTask]
  := by
  refine ⟨⟨rfl, rfl, rfl, by decide, ?_⟩, ⟨rfl, rfl, rfl, by decide, ?_⟩, by simp, by decide⟩
  · exact ⟨rfl, rfl, rfl, rfl, rfl, rfl, trivial⟩
  · exact ⟨rfl, rfl, trivial⟩

theorem walk_threeSleeping :
  (taskTimeTick.walk threeSleeping 3 threeSleeping.sleepList.first).1 = none ∧
    SleepReady (taskTimeTick.walk threeSleeping 3 threeSleeping.sleepList.first).2
      [.slot 1] [.firstTask, .slot 0, .slot 2] ∧
    ∀ t, (taskTimeTick.walk threeSleeping 3 threeSleeping.sleepList.first).2.task t
      = if t ∈ [TaskRef.slot 0, .slot 1, .slot 2] then threeSleeping.ticked t
        else threeSleeping.task t
  := walk_sleepList sleepReady_threeSleeping (le_refl 3)

end Dmos.TaskManager
