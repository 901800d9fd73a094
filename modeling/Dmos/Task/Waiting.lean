import Dmos.Task.Machine

/-!
# Waiting for the processor

A ready task waits for the time slices of the tasks ahead of it in the ready list
(`Machine.waiting`).  While it is not current no operation makes this time longer, and each
tick makes it shorter, so the task becomes current within a slice for each task ahead of it
(`boundedWaiting_of_reachable`).
-/

open Queues TransitionSystem

namespace Dmos

namespace TaskManager

variable {m : TaskManager}

/-- A tick counts in the slice of the current task only. -/
theorem sliceTicks_taskTimeTick {t : TaskRef} (h : t ≠ m.currTask) :
  ((taskTimeTick m).2.task t).sliceTicks = (m.task t).sliceTicks
  := field_taskTimeTick (f := Task.sliceTicks) (fun _ _ => rfl) (fun _ _ => rfl) (.inl h)

theorem timeTicks_taskTimeTick (t : TaskRef) :
  ((taskTimeTick m).2.task t).timeTicks = (m.task t).timeTicks
  := field_taskTimeTick (f := Task.timeTicks) (fun _ _ => rfl) (fun _ _ => rfl)
    (.inr (fun _ _ => rfl))

theorem sliceTicks_currTask (h : (m.task m.currTask).sliceTicks ≠ 1) :
  ((taskTimeTick m).2.task m.currTask).sliceTicks = (m.task m.currTask).sliceTicks - 1
  := by
  have hslice : ((taskTimeTick.slice m).task m.currTask).sliceTicks
      = (m.task m.currTask).sliceTicks - 1 := by
    rw [taskTimeTick.slice]
    dsimp only
    rw [if_neg (by omega), setTask_task, if_pos rfl]
  rw [taskTimeTick]
  split_ifs
  · rw [field_rest (f := Task.sliceTicks) (fun _ _ => rfl) (fun _ _ => rfl), hslice]
  · apply hslice

end TaskManager

namespace Machine

variable {s s' : Machine} {e : Event} {q q' : Queues ListRef TaskRef} {x : TaskRef}

/-- The ticks left to the tasks ahead of `x` in the ready list. -/
def waiting (s : Machine) (x : TaskRef) : Int :=
  weightBefore (fun t => (s.tasks.task t).sliceTicks) (s.tasks.linked .ready) x

/-- Every time slice has the default length. -/
def Quantum (s : Machine) : Prop :=
  ∀ t, s.life t ≠ .unborn → (s.tasks.task t).timeTicks = taskTimeSliceDefault

/-! ### One event -/

/-- In an event other than a tick the time slices stay, but for that of a new task. -/
theorem slices_next (he : s.Enabled e) (htick : e ≠ .tick) {t : TaskRef}
    (hlife : s.life t ≠ .unborn) :
  ((s.next e).tasks.task t).sliceTicks = (s.tasks.task t).sliceTicks
    ∧ ((s.next e).tasks.task t).timeTicks = (s.tasks.task t).timeTicks
  := by
  have hfield {α : Type} (f : Task → α) (hstate : ∀ task state, f { task with state := state }
      = f task) (hsleep : ∀ task ticks, f { task with sleepTicks := ticks } = f task)
      (hstatus : ∀ task status, f { task with status := status } = f task) :
      f ((s.next e).tasks.task t) = f (s.tasks.task t) := by
    cases e with
    | create t' name tss tssSel =>
        have hne : t ≠ t' := by
          rintro rfl
          apply hlife he.2
        rw [next, TaskManager.task_taskInit name tss tssSel hne]
    | start t' => apply TaskManager.field_taskSetReady hstate
    | yield => apply TaskManager.field_sysYield hstate
    | sleep ms => apply TaskManager.field_sysSleep hstate ms (.inr hsleep)
    | tick => cases htick rfl
    | resume => apply TaskManager.field_rest hstate hsleep
    | semWait i => apply TaskManager.field_semWait hstate
    | semNotify i => apply TaskManager.field_semNotify hstate
    | mutexLock i => apply TaskManager.field_mutexLock hstate
    | mutexUnlock i => apply TaskManager.field_mutexUnlock hstate
    | exit status => apply TaskManager.field_sysExit hstate status (.inr hstatus)
  constructor
  · apply hfield Task.sliceTicks <;> intros <;> rfl
  · apply hfield Task.timeTicks <;> intros <;> rfl

/-- A task is born by its creation only. -/
theorem life_next (hs : s.tasks.Settled s.life q) (he : s.Enabled e) {t : TaskRef}
    (hlife : (s.next e).life t ≠ .unborn) :
  s.life t ≠ .unborn ∨ ∃ name tss tssSel, e = .create t name tss tssSel
  := by
  cases e with
  | create t' name tss tssSel =>
      by_cases heq : t = t'
      · right
        rw [heq]
        exact ⟨name, tss, tssSel, rfl⟩
      · left
        change s.setLife t' .created t ≠ .unborn at hlife
        rwa [setLife_apply, if_neg heq] at hlife
  | start t' =>
      left
      change s.setLife t' .started t ≠ .unborn at hlife
      rw [setLife_apply] at hlife
      split_ifs at hlife with heq
      · rw [heq, he.2.1]
        intro h
        cases h
      · apply hlife
  | exit status =>
      left
      change s.setLife s.tasks.currTask .exited t ≠ .unborn at hlife
      rw [setLife_apply] at hlife
      split_ifs at hlife with heq
      · rw [heq]
        apply hs.currTask_life
      · apply hlife
  | yield | sleep | tick | resume | semWait | semNotify | mutexLock | mutexUnlock =>
      left
      apply hlife

theorem quantum_next (hs : s.tasks.Settled s.life q) (hquantum : s.Quantum)
    (he : s.Enabled e) :
  (s.next e).Quantum
  := by
  intro t hlife
  obtain hlife | ⟨name, tss, tssSel, rfl⟩ := life_next hs he hlife
  · by_cases htick : e = .tick
    · subst htick
      exact (TaskManager.timeTicks_taskTimeTick t).trans (hquantum t hlife)
    · rw [(slices_next he htick hlife).2, hquantum t hlife]
  · apply (TaskManager.ticks_taskInit name tss tssSel).2

/-- The ready list advances in every event. -/
theorem ready_next (hs : s.tasks.Settled s.life q) (he : s.Enabled e) :
  ∃ q', (s.next e).tasks.Settled (s.next e).life q' ∧ Advances (q .ready) (q' .ready)
  := by
  cases e with
  | create t name tss tssSel => exact ⟨q, hs.taskInit he.2 name tss tssSel, Advances.refl _⟩
  | start t =>
      refine ⟨_, hs.taskStart he.1.1 he.2.1 he.2.2, [t], .inl ?_⟩
      rw [push_self]
  | yield =>
      obtain ⟨q', hs', hmoves⟩ := hs.sysYield he.1
      exact ⟨q', hs', hmoves.ready⟩
  | sleep ms =>
      obtain ⟨q', hs', -, -, hready, -⟩ := hs.sysSleep he.1 ms
      refine ⟨q', hs', [], .inr ?_⟩
      rw [hready, List.append_nil]
  | tick =>
      obtain ⟨q', hs', -, ⟨us, hready⟩, -⟩ := hs.taskTimeTick
      refine ⟨q', hs', ?_⟩
      rw [← hready]
      split_ifs
      · refine ⟨s.tasks.currTask :: us, .inr ?_⟩
        rw [List.append_assoc, List.singleton_append]
      · exact ⟨us, .inl rfl⟩
  | resume =>
      obtain ⟨q', hs', -, -, -, hready⟩ := hs.rest
      exact ⟨q', hs', _, .inl hready⟩
  | semWait i =>
      obtain ⟨q', hs', hmoves⟩ := hs.semWait he.1 i
      exact ⟨q', hs', hmoves.ready⟩
  | semNotify i =>
      obtain ⟨q', hs', hmoves⟩ := hs.semNotify i
      exact ⟨q', hs', hmoves.ready⟩
  | mutexLock i =>
      obtain ⟨q', hs', hmoves⟩ := hs.mutexLock he.1 i
      exact ⟨q', hs', hmoves.ready⟩
  | mutexUnlock i =>
      obtain ⟨q', hs', hmoves⟩ := hs.mutexUnlock i
      exact ⟨q', hs', hmoves.ready⟩
  | exit status =>
      obtain ⟨q', hs', -, hready, -⟩ := hs.sysExit he.1 status
      refine ⟨q', hs', [], .inr ?_⟩
      rw [hready, List.append_nil]

theorem waiting_of_settled (hs : s.tasks.Settled s.life q) :
  s.waiting x = weightBefore (fun t => (s.tasks.task t).sliceTicks) (q .ready) x
  := by
  rw [waiting, hs.holds.linked]

/-- A ready task that is not current comes after the current one. -/
theorem ready_of_waiting (hs : s.tasks.Settled s.life q) (hx : x ∈ q .ready)
    (hcurr : x ≠ s.tasks.currTask) :
  ∃ ts, q .ready = s.tasks.currTask :: ts ∧ x ∈ ts
  := by
  have hc : s.tasks.currTask ≠ .idleTask := by
    intro hc
    have hrunning := hs.running
    cases hq : q .ready with
    | nil =>
        rw [hq] at hx
        cases hx
    | cons t ts =>
        rw [TaskManager.Running, hc, hq] at hrunning
        apply (hs.member .ready t _).2 hrunning.symm
        rw [hq]
        apply List.mem_cons_self
  obtain ⟨ts, hts⟩ := hs.running.head hc
  refine ⟨ts, hts, ?_⟩
  rw [hts, List.mem_cons] at hx
  apply hx.resolve_left hcurr

/-- A tick takes one from the time that the tasks after the current one wait. -/
theorem waiting_tick (hs : s.tasks.Settled s.life q) {ts : List TaskRef}
    (hready : q .ready = s.tasks.currTask :: ts) (hx : x ∈ ts) :
  (s.next .tick).waiting x = s.waiting x - 1
  := by
  obtain ⟨q', hs', -, ⟨us, hready'⟩, -⟩ := hs.taskTimeTick
  have hmem : s.tasks.currTask ∈ q .ready := by
    rw [hready]
    apply List.mem_cons_self
  have hnodup := hs.holds.exclusive.nodup .ready
  rw [hready, List.nodup_cons] at hnodup
  have hne : s.tasks.currTask ≠ x := by
    intro heq
    rw [heq] at hnodup
    apply hnodup.1 hx
  -- the slices of the tasks after the current one stay
  have hslices : weightBefore (fun t => ((s.next .tick).tasks.task t).sliceTicks) ts x
      = weightBefore (fun t => (s.tasks.task t).sliceTicks) ts x := by
    apply weightBefore_congr
    intro t ht
    apply TaskManager.sliceTicks_taskTimeTick
    rintro rfl
    apply hnodup.1 ht
  rw [waiting_of_settled (s := s.next .tick) hs', waiting_of_settled hs, ← hready', hready,
    weightBefore_cons hne]
  by_cases hslice : (s.tasks.task s.tasks.currTask).sliceTicks = 1
  · rw [if_pos ⟨hslice, (hs.member _ _ hmem).2⟩, List.tail_cons, List.append_assoc,
      weightBefore_append hx, hslices, hslice]
    omega
  · have hcurr : ((s.next .tick).tasks.task s.tasks.currTask).sliceTicks
        = (s.tasks.task s.tasks.currTask).sliceTicks - 1 :=
      TaskManager.sliceTicks_currTask hslice
    rw [if_neg (fun h => hslice h.1), weightBefore_append (List.mem_cons_of_mem _ hx),
      weightBefore_cons hne, hslices, hcurr]
    omega

/-- No event makes the time longer that a task waits. -/
theorem waiting_next (hs : s.tasks.Settled s.life q) (he : s.Enabled e) (hx : x ∈ q .ready)
    (hcurr : x ≠ s.tasks.currTask) :
  ∃ q', (s.next e).tasks.Settled (s.next e).life q' ∧ x ∈ q' .ready
    ∧ (s.next e).waiting x ≤ s.waiting x
    ∧ (e.isTick = true → (s.next e).waiting x < s.waiting x)
  := by
  obtain ⟨ts, hready, hts⟩ := ready_of_waiting hs hx hcurr
  obtain ⟨q', hs', hadvances⟩ := ready_next hs he
  rw [hready] at hadvances
  refine ⟨q', hs', hadvances.mem hts, ?_⟩
  by_cases htick : e = .tick
  · subst htick
    rw [waiting_tick hs hready hts]
    constructor
    · omega
    · intro
      omega
  · have hstarted : ∀ t ∈ q .ready, s.life t ≠ .unborn := by
      intro t ht h
      rw [(hs.member _ t ht).1] at h
      cases h
    have hslices : weightBefore (fun t => ((s.next e).tasks.task t).sliceTicks) (q .ready) x
        = weightBefore (fun t => (s.tasks.task t).sliceTicks) (q .ready) x := by
      apply weightBefore_congr
      intro t ht
      apply (slices_next he htick (hstarted t ht)).1
    constructor
    · rw [waiting_of_settled hs', waiting_of_settled hs, ← hslices, hready]
      apply hadvances.weightBefore_le hts (Ne.symm hcurr)
      rw [(slices_next he htick hs.currTask_life).1]
      have hpos := (hs.slice _ hs.currTask_life).1
      omega
    · intro h
      cases e <;> cases h
      cases htick rfl

/-! ### Every run -/

/-- A settled scheduler, with time slices of the default length, where `x` is ready. -/
def Awaits (x : TaskRef) (s : Machine) : Prop :=
  s.Quantum ∧ ∃ q, s.tasks.Settled s.life q ∧ x ∈ q .ready

theorem Awaits.waiting_nonneg (h : Awaits x s) :
  0 ≤ s.waiting x
  := by
  obtain ⟨-, q, hs, hx⟩ := h
  rw [waiting_of_settled hs]
  apply weightBefore_nonneg
  intro t ht
  have hslice := hs.slice t (by rw [(hs.member _ t ht).1]; intro h; cases h)
  omega

theorem Awaits.waiting_pos (h : Awaits x s) (hcurr : s.tasks.currTask ≠ x) :
  0 < s.waiting x
  := by
  obtain ⟨-, q, hs, hx⟩ := h
  obtain ⟨ts, hready, hts⟩ := ready_of_waiting hs hx (Ne.symm hcurr)
  rw [waiting_of_settled hs, hready, weightBefore_cons hcurr]
  have hcurrent := (hs.slice _ hs.currTask_life).1
  have hrest : 0 ≤ weightBefore (fun t => (s.tasks.task t).sliceTicks) ts x := by
    apply weightBefore_nonneg
    intro t ht
    have hmem : t ∈ q .ready := by
      rw [hready]
      apply List.mem_cons_of_mem _ ht
    have hslice := hs.slice t (by rw [(hs.member _ t hmem).1]; intro h; cases h)
    omega
  omega

theorem Awaits.waiting_le (h : Awaits x s) :
  s.waiting x ≤ taskTimeSliceDefault * (s.tasks.linked .ready).idxOf x
  := by
  obtain ⟨hquantum, q, hs, hx⟩ := h
  rw [waiting_of_settled hs, hs.holds.linked]
  apply weightBefore_le
  intro t ht
  have hlife : s.life t ≠ .unborn := by
    rw [(hs.member _ t ht).1]
    intro h
    cases h
  rw [← hquantum t hlife]
  apply (hs.slice t hlife).2

theorem quantum_boot (h : scheduler.init s) :
  s.Quantum
  := by
  obtain ⟨layout, appCodeSel, appDataSel, count, heap, idleTss, firstTss, idleSel, firstSel, rfl⟩
    := h
  intro t hlife
  cases t with
  | firstTask =>
      rw [boot, TaskManager.firstTaskInit, TaskManager.taskStart]
      rw [TaskManager.field_taskSetReady (f := Task.timeTicks) (fun _ _ => rfl),
        TaskManager.setTask_task, if_pos rfl]
      apply (TaskManager.ticks_taskInit _ _ _).2
  | idleTask =>
      have hne : TaskRef.idleTask ≠ .firstTask := by
        intro h
        cases h
      rw [boot, TaskManager.firstTaskInit, TaskManager.taskStart]
      rw [TaskManager.field_taskSetReady (f := Task.timeTicks) (fun _ _ => rfl),
        TaskManager.setTask_task, if_neg hne, TaskManager.task_taskInit _ _ _ hne,
        TaskManager.taskManagerInit, TaskManager.taskStart,
        TaskManager.field_taskSetReady (f := Task.timeTicks) (fun _ _ => rfl)]
      apply (TaskManager.ticks_taskInit _ _ _).2
  | slot i => cases hlife rfl

theorem awaits_of_reachable (h : scheduler.Reachable (fun _ => True) s)
    (hx : x ∈ s.tasks.linked .ready) :
  Awaits x s
  := by
  have hinv : ∃ q, s.tasks.Settled s.life q ∧ s.Quantum := by
    apply h.invariant (I := fun s : Machine => ∃ q, s.tasks.Settled s.life q ∧ s.Quantum)
    · intro s hinit
      obtain ⟨q, hs, -⟩ := settled_boot hinit
      exact ⟨q, hs, quantum_boot hinit⟩
    · rintro s e _ ⟨q, hs, hquantum⟩ - ⟨he, rfl⟩
      obtain ⟨q', hs', -⟩ := settled_next hs he
      exact ⟨q', hs', quantum_next hs hquantum he⟩
  obtain ⟨q, hs, hquantum⟩ := hinv
  rw [hs.holds.linked] at hx
  exact ⟨hquantum, q, hs, hx⟩

/-- The current task waits no longer. -/
theorem waiting_of_current (hs : s.tasks.Settled s.life q) (hcurr : x = s.tasks.currTask)
    (hidle : x ≠ .idleTask) :
  s.waiting x = 0
  := by
  subst hcurr
  obtain ⟨ts, hready⟩ := hs.running.head hidle
  rw [waiting_of_settled hs, hready, weightBefore_head]

theorem awaits_step (s : Machine) (e : Event) (s' : Machine) (h : Awaits x s)
    (hcurr : s.tasks.currTask ≠ x) (hstep : scheduler.step s e s') :
  Awaits x s' ∧ s'.waiting x ≤ s.waiting x ∧ (e.isTick = true → s'.waiting x < s.waiting x)
  := by
  obtain ⟨he, rfl⟩ := hstep
  obtain ⟨hquantum, q, hs, hx⟩ := h
  obtain ⟨q', hs', hx', hwaiting⟩ := waiting_next hs he hx (Ne.symm hcurr)
  exact ⟨⟨quantum_next hs hquantum he, q', hs', hx'⟩, hwaiting⟩

/-- In every state of every run, a ready task that is not current stays ready, and the time
it waits gets no longer in any event and shorter in each tick.  It is current within a
default time slice for each task ahead of it, in ticks, whatever the others do. -/
theorem boundedWaiting_of_reachable (h : scheduler.Reachable (fun _ => True) s)
    (hx : x ∈ s.tasks.linked .ready) :
  (∀ e, s.Enabled e → x ≠ s.tasks.currTask →
      x ∈ (s.next e).tasks.linked .ready ∧ (s.next e).waiting x ≤ s.waiting x
        ∧ (e.isTick = true → (s.next e).waiting x < s.waiting x))
    ∧ (∀ e, s.Enabled e → x = (s.next e).tasks.currTask →
      (s.next e).waiting x ≤ s.waiting x)
    ∧ ∀ es s', scheduler.Run s es s' →
      taskTimeSliceDefault * (s.tasks.linked .ready).idxOf x ≤ es.countP Event.isTick →
      ∃ es₁ es₂ s₁, es = es₁ ++ es₂ ∧ scheduler.Run s es₁ s₁ ∧ s₁.tasks.currTask = x
        ∧ es₁.countP Event.isTick ≤ taskTimeSliceDefault * (s.tasks.linked .ready).idxOf x
  := by
  have hawaits := awaits_of_reachable h hx
  refine ⟨?_, ?_, ?_⟩
  · intro e he hcurr
    obtain ⟨-, q, hs, hx'⟩ := hawaits
    obtain ⟨q', hs', hmem, hwaiting⟩ := waiting_next hs he hx' hcurr
    rw [hs'.holds.linked]
    exact ⟨hmem, hwaiting⟩
  · intro e he hcurr
    obtain ⟨-, q, hs, hx'⟩ := id hawaits
    obtain ⟨q', hs', -⟩ := settled_next hs he
    rw [waiting_of_current hs' hcurr (hs.member _ x hx').2]
    apply hawaits.waiting_nonneg
  · intro es s' hrun henough
    have hle := hawaits.waiting_le
    obtain ⟨es₁, es₂, s₁, hsplit, hrun₁, hgoal, hcount⟩ := hrun.reaches
      (fun s => s.tasks.currTask = x) (fun s => s.waiting x) Event.isTick
      (fun _ => Awaits.waiting_nonneg) (fun _ => Awaits.waiting_pos) awaits_step hawaits
      (le_trans hle henough)
    exact ⟨es₁, es₂, s₁, hsplit, hrun₁, hgoal, le_trans hcount hle⟩

/-- The first task and a second one, both ready. -/
def twoReady : Machine :=
  started.nexts [.create (.slot 0) [] {} 0, .start (.slot 0)]

theorem reachable_twoReady :
  scheduler.Reachable (fun _ => True) twoReady
  := reachable_nexts (Reachable.init init_started) (by decide)

theorem linked_twoReady :
  twoReady.tasks.linked .ready = [.firstTask, .slot 0]
  := rfl

theorem boundedWaiting_twoReady :
  (twoReady.next .tick).waiting (.slot 0) < twoReady.waiting (.slot 0)
  := by
  have hx : TaskRef.slot 0 ∈ twoReady.tasks.linked .ready := by
    rw [linked_twoReady]
    simp
  have hcurr : TaskRef.slot 0 ≠ twoReady.tasks.currTask := by
    intro h
    cases h
  exact ((boundedWaiting_of_reachable reachable_twoReady hx).1 .tick rfl hcurr).2.2 rfl

/-- When the current task yields its time to wait gets longer: it had none to wait. -/
theorem waiting_yield_twoReady :
  ¬ ∀ s : Machine, scheduler.Reachable (fun _ => True) s → ∀ e, s.Enabled e →
    ∀ x ∈ s.tasks.linked .ready, x ∈ (s.next e).tasks.linked .ready →
    (s.next e).waiting x ≤ s.waiting x
  := by
  intro h
  have henabled : twoReady.Enabled .yield := by decide
  have hx : TaskRef.firstTask ∈ twoReady.tasks.linked .ready := by
    rw [linked_twoReady]
    simp
  have hlinked : (twoReady.next .yield).tasks.linked .ready = [.slot 0, .firstTask] := rfl
  have hx' : TaskRef.firstTask ∈ (twoReady.next .yield).tasks.linked .ready := by
    rw [hlinked]
    simp
  have hle := h twoReady reachable_twoReady .yield henabled .firstTask hx hx'
  have hbefore : twoReady.waiting .firstTask = 0 := rfl
  have hafter : (twoReady.next .yield).waiting .firstTask = 10 := rfl
  rw [hbefore, hafter] at hle
  omega

end Machine

end Dmos
