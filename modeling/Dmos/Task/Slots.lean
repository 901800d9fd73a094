import Dmos.Library.Transition
import Dmos.Task.Machine
import Dmos.Task.Names

/-!
# Entries of the task table

Tasks fork, and other tasks run between the steps of a call: `alloc_task` finds an entry
without a name (it holds a mutex), and `task_init` gives the entry its name later.  A call
has its entry while it creates the child and while the child lives, and gives it up when it
fails.

No two calls have the same entry as long as at each call of `alloc_task` the entries not yet
named have a free one in front of them, and not a step longer (`exclusive_slot_of_reachable`).
-/

open FirstFree TransitionSystem

namespace Dmos

/-- What has become of a call of `sys_fork`. -/
inductive ForkCall where
  | idle
  /-- The entry of the child, the parent, and whether the child has got its name. -/
  | creating (i : Fin 128) (parent : TaskRef) (named : Bool)
  | running (i : Fin 128)
  deriving DecidableEq

/-- The task that waits for the call to return. -/
def ForkCall.caller : ForkCall → Option TaskRef
  | .creating _ parent _ => some parent
  | _ => none

/-- The tasks, and the calls of `sys_fork`. -/
structure Slots (C : Type) where
  tasks : TaskManager
  call : C → ForkCall

inductive SlotEvent (C : Type) where
  /-- `alloc_task`, in a call by `parent`. -/
  | alloc (c : C) (parent : TaskRef)
  /-- The `k_strncpy` of `task_init`. -/
  | name (c : C)
  /-- `task_start`. -/
  | start (c : C)
  /-- The label `fork_failed`. -/
  | fail (c : C)

namespace Slots

variable {C : Type} [DecidableEq C]

omit [DecidableEq C] in
/-- The first task and the children that run make calls. -/
def Live (s : Slots C) (t : TaskRef) : Prop :=
  t = .firstTask ∨ ∃ c i, s.call c = .running i ∧ t = .slot i

omit [DecidableEq C] in
def Enabled (s : Slots C) : SlotEvent C → Prop
  | .alloc c parent =>
      s.call c = .idle ∧ s.Live parent ∧ ∀ c', (s.call c').caller ≠ some parent
  | .name c => ∃ i parent, s.call c = .creating i parent false
  | .start c => ∃ i parent, s.call c = .creating i parent true
  | .fail c => ∃ i parent named, s.call c = .creating i parent named

def next (s : Slots C) : SlotEvent C → Slots C
  | .alloc c parent =>
      match s.tasks.allocTask with
      | some (.slot i) => { s with call := Function.update s.call c (.creating i parent false) }
      | _ => s
  | .name c =>
      match s.call c with
      | .creating i parent _ =>
          { tasks := s.tasks.setName (.slot i) (s.tasks.task parent).name
            call := Function.update s.call c (.creating i parent true) }
      | _ => s
  | .start c =>
      match s.call c with
      | .creating i _ _ => { s with call := Function.update s.call c (.running i) }
      | _ => s
  | .fail c =>
      match s.call c with
      | .creating i _ _ =>
          { tasks := (s.tasks.clearTask (.slot i)).freeTask (.slot i)
            call := Function.update s.call c .idle }
      | _ => s

/-- The call has the entry. -/
def Holds (s : Slots C) (c : C) (i : Fin 128) : Prop :=
  (∃ parent named, s.call c = .creating i parent named) ∨ s.call c = .running i

/-- No entry belongs to two calls. -/
def Exclusive (s : Slots C) : Prop :=
  FirstFree.Exclusive s.Holds

/-- When an entry is allocated, each one that a call has not named yet has a free one in
front. -/
def Spare (s : Slots C) (e : SlotEvent C) : Prop :=
  ∀ c parent, e = .alloc c parent → ∀ c' i parent', s.call c' = .creating i parent' false →
    ∃ j < i, (s.tasks.task (.slot j)).name = []

end Slots

/-- The calls, from any table on; the first task has a name. -/
def slots (C : Type) [DecidableEq C] : TransitionSystem (Slots C) (SlotEvent C) where
  init s := (∀ c, s.call c = .idle) ∧ (s.tasks.task .firstTask).name ≠ []
  step s e s' := s.Enabled e ∧ s' = s.next e

namespace Slots

variable {C : Type} [DecidableEq C] {s : Slots C} {e : SlotEvent C} {c c' : C} {i : Fin 128}
  {parent : TaskRef} {named : Bool}

/-- The calls have entries of their own, and the tasks that make calls have names. -/
structure Consistent (s : Slots C) : Prop where
  exclusive : s.Exclusive
  live : ∀ t, s.Live t → (s.tasks.task t).name ≠ []
  parent : ∀ c i parent named, s.call c = .creating i parent named → s.Live parent
  named : ∀ c i parent named, s.call c = .creating i parent named → s.tasks.named i = named

omit [DecidableEq C] in
/-- The condition of the library on the entries that are not marked. -/
theorem Consistent.spare_iff (hs : s.Consistent) :
  FirstFree.Spare (List.finRange 128) s.tasks.named s.Holds ↔ s.Spare (.alloc c parent)
  := by
  constructor
  · rintro hspare _ _ ⟨⟩ c' i parent' hcall
    obtain ⟨j, -, hlt, hmarked⟩ :=
      hspare c' i (.inl ⟨_, _, hcall⟩) (hs.named c' i parent' false hcall)
    rw [TaskManager.named_eq_false_iff] at hmarked
    exact ⟨j, hlt, hmarked⟩
  · rintro hspare c' i (⟨parent', named, hcall⟩ | hcall) hmarked
    · rw [hs.named c' i parent' named hcall] at hmarked
      subst hmarked
      obtain ⟨j, hlt, hname⟩ := hspare c parent rfl c' i parent' hcall
      exact ⟨j, List.mem_finRange j, hlt, TaskManager.named_eq_false_iff.mpr hname⟩
    · rw [TaskManager.named_eq_false_iff] at hmarked
      cases hs.live _ (.inr ⟨c', i, hcall, rfl⟩) hmarked

theorem next_alloc (s : Slots C) (c : C) (parent : TaskRef) :
  s.next (.alloc c parent) = match firstFree (List.finRange 128) s.tasks.named with
    | some i => { s with call := Function.update s.call c (.creating i parent false) }
    | none => s
  := by
  rw [next, TaskManager.allocTask_eq]
  cases firstFree (List.finRange 128) s.tasks.named <;> rfl

/-- An allocation keeps the entries apart exactly when it meets the condition. -/
theorem Consistent.exclusive_alloc_iff (hs : s.Consistent) (he : s.Enabled (.alloc c parent)) :
  (s.next (.alloc c parent)).Exclusive ↔ s.Spare (.alloc c parent)
  := by
  rw [← hs.spare_iff]
  have hnone : ∀ i, ¬ s.Holds c i := by
    rintro i (⟨parent', named, hcall⟩ | hcall)
    · rw [he.1] at hcall
      cases hcall
    · rw [he.1] at hcall
      cases hcall
  apply exclusive_take_iff (List.pairwise_lt_finRange 128) (fun _ i _ => List.mem_finRange i)
    hs.exclusive hnone
  · intro i
    rw [next_alloc]
    cases firstFree (List.finRange 128) s.tasks.named with
    | none => simp [hnone i]
    | some j => simp [Holds, eq_comm]
  · intro c' i hne
    rw [next_alloc]
    cases firstFree (List.finRange 128) s.tasks.named with
    | none => rfl
    | some j => simp [Holds, hne]

/-- What a step of the call `c`, which creates a child in the entry `i`, can leave. -/
structure Advanced (s : Slots C) (c : C) (i : Fin 128) (parent : TaskRef) (s' : Slots C) : Prop where
  other : ∀ c', c' ≠ c → s'.call c' = s.call c'
  name : ∀ t, t ≠ .slot i → (s'.tasks.task t).name = (s.tasks.task t).name
  call : s'.call c = .idle
    ∨ (s'.call c = .creating i parent true ∨ s'.call c = .running i) ∧ s'.tasks.named i = true

variable {s' : Slots C}

theorem Advanced.holds (h : s.Advanced c i parent s')
    (hcall : s.call c = .creating i parent named) {i' : Fin 128} (hholds : s'.Holds c' i') :
  s.Holds c' i'
  := by
  by_cases hc : c' = c
  · subst hc
    left
    refine ⟨parent, named, ?_⟩
    rcases h.call with hidle | ⟨hnew | hnew, -⟩
    · simp [Holds, hidle] at hholds
    · simp [Holds, hnew] at hholds
      rw [hcall, hholds]
    · simp [Holds, hnew] at hholds
      rw [hcall, hholds]
  · rwa [Holds, h.other c' hc] at hholds

omit [DecidableEq C] in
/-- A task that makes calls still does. -/
theorem Advanced.live (h : s.Advanced c i parent s')
    (hcall : s.call c = .creating i parent named) {t : TaskRef} (hlive : s.Live t) :
  s'.Live t
  := by
  rcases hlive with rfl | ⟨c', i', hrunning, rfl⟩
  · left
    rfl
  · have hc : c' ≠ c := by
      rintro rfl
      rw [hcall] at hrunning
      cases hrunning
    right
    refine ⟨c', i', ?_, rfl⟩
    rw [h.other c' hc, hrunning]

/-- A step of a call changes nothing for the others. -/
theorem Consistent.advanced (hs : s.Consistent) (hcall : s.call c = .creating i parent named)
    (h : s.Advanced c i parent s') :
  s'.Consistent
  := by
  have hne : ∀ c' i', c' ≠ c → s.Holds c' i' → i' ≠ i := by
    rintro c' i' hc hholds rfl
    apply hc (hs.exclusive c' c i' hholds (.inl ⟨_, _, hcall⟩))
  have hnamed : ∀ i', i' ≠ i → s'.tasks.named i' = s.tasks.named i' := by
    intro i' hi
    rw [TaskManager.named, h.name, TaskManager.named]
    rintro ⟨⟩
    apply hi rfl
  constructor
  · apply Exclusive.mono hs.exclusive
    intro c' i' hholds
    apply h.holds hcall hholds
  · rintro t (rfl | ⟨c', i', hrunning, rfl⟩)
    · rw [h.name _ (by simp)]
      apply hs.live _ (.inl rfl)
    · by_cases hc : c' = c
      · subst hc
        rcases h.call with hidle | ⟨hnew | hnew, hname⟩
        · rw [hrunning] at hidle
          cases hidle
        · rw [hrunning] at hnew
          cases hnew
        · rw [hrunning] at hnew
          cases hnew
          simpa [TaskManager.named] using hname
      · rw [h.other c' hc] at hrunning
        rw [h.name]
        · apply hs.live _ (.inr ⟨c', i', hrunning, rfl⟩)
        · rintro ⟨⟩
          apply hne c' i hc (.inr hrunning) rfl
  · intro c' i' parent' named' hcreating
    apply h.live hcall
    by_cases hc : c' = c
    · subst hc
      rcases h.call with hidle | ⟨hnew | hnew, -⟩
      · rw [hcreating] at hidle
        cases hidle
      · rw [hcreating] at hnew
        cases hnew
        apply hs.parent _ _ _ _ hcall
      · rw [hcreating] at hnew
        cases hnew
    · rw [h.other c' hc] at hcreating
      apply hs.parent _ _ _ _ hcreating
  · intro c' i' parent' named' hcreating
    by_cases hc : c' = c
    · subst hc
      rcases h.call with hidle | ⟨hnew | hnew, hname⟩
      · rw [hcreating] at hidle
        cases hidle
      · rw [hcreating] at hnew
        cases hnew
        apply hname
      · rw [hcreating] at hnew
        cases hnew
    · rw [h.other c' hc] at hcreating
      rw [hnamed i' (hne c' i' hc (.inl ⟨_, _, hcreating⟩))]
      apply hs.named _ _ _ _ hcreating

theorem Consistent.next (hs : s.Consistent) (he : s.Enabled e) (hspare : s.Spare e) :
  (s.next e).Consistent
  := by
  cases e with
  | alloc c parent =>
      have hexclusive := (hs.exclusive_alloc_iff he).mpr hspare
      rw [next_alloc] at hexclusive ⊢
      cases hfree : firstFree (List.finRange 128) s.tasks.named with
      | none => apply hs
      | some i =>
          rw [hfree] at hexclusive
          have hlive : ∀ t, Slots.Live
              { s with call := Function.update s.call c (.creating i parent false) } t ↔ s.Live t := by
            intro t
            rw [Slots.Live, Slots.Live]
            apply or_congr_right
            constructor
            · rintro ⟨c', i', hrunning, ht⟩
              refine ⟨c', i', ?_, ht⟩
              dsimp only at hrunning
              rw [Function.update_apply] at hrunning
              split_ifs at hrunning
              apply hrunning
            · rintro ⟨c', i', hrunning, ht⟩
              refine ⟨c', i', ?_, ht⟩
              dsimp only
              rw [Function.update_of_ne]
              · apply hrunning
              · rintro rfl
                rw [he.1] at hrunning
                cases hrunning
          constructor
          · apply hexclusive
          · intro t ht
            rw [hlive] at ht
            apply hs.live t ht
          · intro c' i' parent' named' hcreating
            rw [hlive]
            dsimp only at hcreating
            rw [Function.update_apply] at hcreating
            split_ifs at hcreating
            · cases hcreating
              apply he.2.1
            · apply hs.parent _ _ _ _ hcreating
          · intro c' i' parent' named' hcreating
            dsimp only at hcreating ⊢
            rw [Function.update_apply] at hcreating
            split_ifs at hcreating
            · cases hcreating
              apply marked_of_firstFree hfree
            · apply hs.named _ _ _ _ hcreating
  | name c =>
      obtain ⟨i, parent, hcall⟩ := he
      have hname := hs.live parent (hs.parent _ _ _ _ hcall)
      apply hs.advanced hcall
      rw [Slots.next, hcall]
      constructor
      · intro c' hc
        exact Function.update_of_ne hc _ _
      · intro t ht
        exact congrArg Task.name (TaskManager.setName_of_ne _ ht)
      · right
        constructor
        · left
          exact Function.update_self _ _ _
        · simp [TaskManager.named, kStrncpy_taskName_eq_nil_iff, hname]
  | start c =>
      obtain ⟨i, parent, hcall⟩ := he
      apply hs.advanced hcall
      rw [Slots.next, hcall]
      constructor
      · intro c' hc
        exact Function.update_of_ne hc _ _
      · intro t _
        rfl
      · right
        constructor
        · right
          exact Function.update_self _ _ _
        · apply hs.named _ _ _ _ hcall
  | fail c =>
      obtain ⟨i, parent, named, hcall⟩ := he
      apply hs.advanced hcall
      rw [Slots.next, hcall]
      constructor
      · intro c' hc
        exact Function.update_of_ne hc _ _
      · intro t ht
        simp [TaskManager.freeTask, TaskManager.clearTask, TaskManager.setTask,
          TaskManager.setNode, ht]
      · left
        exact Function.update_self _ _ _

/-- In runs that meet the condition no entry belongs to two calls, and a step that does not
meet it gives one to two. -/
theorem exclusive_slot_of_reachable (hs : ((slots C).restrict Spare).Reachable (fun _ => True) s) :
  s.Exclusive ∧ ∀ e s', (slots C).step s e s' → (s'.Exclusive ↔ s.Spare e)
  := by
  have hconsistent : s.Consistent := by
    apply hs.invariant
    · rintro s ⟨hidle, hfirst⟩
      constructor
      · rintro c c' i (⟨_, _, hcall⟩ | hcall)
        · rw [hidle] at hcall
          cases hcall
        · rw [hidle] at hcall
          cases hcall
      · rintro t (rfl | ⟨c, i, hcall, -⟩)
        · apply hfirst
        · rw [hidle] at hcall
          cases hcall
      · intro c i parent named hcall
        rw [hidle] at hcall
        cases hcall
      · intro c i parent named hcall
        rw [hidle] at hcall
        cases hcall
    · rintro s e _ hs - ⟨hspare, he, rfl⟩
      apply hs.next he hspare
  use hconsistent.exclusive
  rintro e _ ⟨he, rfl⟩
  cases e with
  | alloc c parent => apply hconsistent.exclusive_alloc_iff he
  | name c =>
      have hspare : s.Spare (.name c) := by
        rintro _ _ ⟨⟩
      exact iff_of_true (hconsistent.next he hspare).exclusive hspare
  | start c =>
      have hspare : s.Spare (.start c) := by
        rintro _ _ ⟨⟩
      exact iff_of_true (hconsistent.next he hspare).exclusive hspare
  | fail c =>
      have hspare : s.Spare (.fail c) := by
        rintro _ _ ⟨⟩
      exact iff_of_true (hconsistent.next he hspare).exclusive hspare

/-- The first state, with no calls. -/
def booted : Slots (Fin 3) where
  tasks := Machine.started.tasks
  call _ := .idle

theorem init_booted :
  (slots (Fin 3)).init booted
  := by
  constructor
  · intro c
    rfl
  · decide

theorem enabled_alloc_booted :
  booted.Enabled (.alloc 0 .firstTask)
  := ⟨rfl, .inl rfl, by decide⟩

/-- The first task has a child that runs. -/
def forked : Slots (Fin 3) :=
  ((booted.next (.alloc 0 .firstTask)).next (.name 0)).next (.start 0)

/-- The child has an entry that is not named yet, and a call of the first task has given up the
entry in front of it. -/
def givenUp : Slots (Fin 3) :=
  (((forked.next (.alloc 1 .firstTask)).next (.name 1)).next (.alloc 2 (.slot 0))).next (.fail 1)

omit [DecidableEq C] in
theorem spare_of_named (h : ∀ c i parent, s.call c ≠ .creating i parent false) (e : SlotEvent C) :
  s.Spare e
  := fun _ _ _ c i parent hcall => absurd hcall (h c i parent)

theorem reachable_next_spare (hs : ((slots C).restrict Spare).Reachable (fun _ => True) s)
    (e : SlotEvent C) (he : s.Enabled e) (hspare : s.Spare e) :
  ((slots C).restrict Spare).Reachable (fun _ => True) (s.next e)
  := Reachable.step hs trivial ⟨hspare, he, rfl⟩

theorem reachable_givenUp :
  ((slots (Fin 3)).restrict Spare).Reachable (fun _ => True) givenUp
  := by
  have hinit : ((slots (Fin 3)).restrict Spare).Reachable (fun _ => True) booted :=
    Reachable.init init_booted
  have halloc := reachable_next_spare hinit (.alloc 0 .firstTask) enabled_alloc_booted
    (spare_of_named (fun _ _ _ hcall => by cases hcall) _)
  have hname := reachable_next_spare halloc (.name 0) ⟨_, _, rfl⟩ (by rintro _ _ ⟨⟩)
  have hstart := reachable_next_spare hname (.start 0) ⟨_, _, rfl⟩ (by rintro _ _ ⟨⟩)
  have hnone (c : Fin 3) (i : Fin 128) (parent : TaskRef) :
      forked.call c ≠ .creating i parent false := by
    intro hcall
    match c with
    | 0 | 1 | 2 => cases hcall
  have hfirst := reachable_next_spare hstart (.alloc 1 .firstTask) ⟨rfl, .inl rfl, by decide⟩
    (spare_of_named hnone _)
  have hnamed := reachable_next_spare hfirst (.name 1) ⟨_, _, rfl⟩ (by rintro _ _ ⟨⟩)
  have hnone' (c : Fin 3) (i : Fin 128) (parent : TaskRef) :
      ((forked.next (.alloc 1 .firstTask)).next (.name 1)).call c ≠ .creating i parent false := by
    intro hcall
    match c with
    | 0 | 1 | 2 => cases hcall
  have hchild := reachable_next_spare hnamed (.alloc 2 (.slot 0))
    ⟨rfl, .inr ⟨0, 0, rfl, rfl⟩, by decide⟩ (spare_of_named hnone' _)
  exact reachable_next_spare hchild (.fail 1) ⟨_, _, _, rfl⟩ (by rintro _ _ ⟨⟩)

/-- The first task forks again while the entry of the child's call has no name. -/
theorem exclusive_slot_booted :
  givenUp.call 2 = .creating 2 (.slot 0) false ∧ (givenUp.next (.alloc 1 .firstTask)).Exclusive
  := by
  have hspare : givenUp.Spare (.alloc 1 .firstTask) := by
    rintro _ _ - c i parent hcall
    match c with
    | 0 | 1 => cases hcall
    | 2 =>
        cases hcall
        exact ⟨1, by decide, by decide⟩
  exact ⟨rfl, ((exclusive_slot_of_reachable reachable_givenUp).2 (.alloc 1 .firstTask) _
    ⟨⟨rfl, .inl rfl, by decide⟩, rfl⟩).mpr hspare⟩

theorem reachable_next (hs : (slots C).Reachable (fun _ => True) s) (e : SlotEvent C)
    (he : s.Enabled e) :
  (slots C).Reachable (fun _ => True) (s.next e)
  := Reachable.step hs trivial ⟨he, rfl⟩

theorem reachable_forked :
  (slots (Fin 3)).Reachable (fun _ => True) forked
  := by
  have hinit : (slots (Fin 3)).Reachable (fun _ => True) booted := Reachable.init init_booted
  have halloc := reachable_next hinit (.alloc 0 .firstTask) enabled_alloc_booted
  have hname := reachable_next halloc (.name 0) ⟨_, _, rfl⟩
  exact reachable_next hname (.start 0) ⟨_, _, rfl⟩

/-- The first task and its child fork, and both calls are given the same entry. -/
theorem not_exclusive_slot_of_reachable :
  ¬ ∀ s, (slots (Fin 3)).Reachable (fun _ => True) s → s.Exclusive
  := by
  intro h
  have hfirst := reachable_next reachable_forked (.alloc 1 .firstTask)
    ⟨rfl, .inl rfl, by decide⟩
  have hchild := reachable_next hfirst (.alloc 2 (.slot 0))
    ⟨rfl, .inr ⟨0, 0, rfl, rfl⟩, by decide⟩
  have heq := h _ hchild 1 2 1 (.inl ⟨_, _, rfl⟩) (.inl ⟨_, _, rfl⟩)
  revert heq
  decide

end Slots

end Dmos
