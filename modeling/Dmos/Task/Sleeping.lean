import Dmos.Task.Machine

/-!
# Sleeping

A task sleeps for as many walks through the sleep list as `sysSleep` gave it ticks
(`sleeping_next`).  A tick makes its walk at once unless the end of a time slice switches the
current task out before it.  Then the walk waits until that task is current again, after
later ticks perhaps.  So a task wakes up on time in runs where this does not happen and no
earlier walk is made up for (`wakes_of_reachable`).
-/

open Queues TransitionSystem

namespace Dmos

namespace TaskManager

theorem sleepTicks_sysSleep {m : TaskManager} {ms : UInt32} (hms : osTickMs ≤ ms) :
  ((m.sysSleep ms).task m.currTask).sleepTicks = (ms / osTickMs).toNat
  := by
  have hticks : ¬ ms / osTickMs ≤ 0 := by
    rw [ticks_pos_iff]
    apply UInt32.not_lt.mpr hms
  rw [sysSleep, field_taskDispatch (f := Task.sleepTicks) (fun _ _ => rfl), taskSetSleep,
    if_neg hticks, insertLast_task, setTask_task, if_pos rfl]
  dsimp only
  rw [asInt, if_pos (ticks_lt ms)]

end TaskManager

namespace Machine

variable {s s' : Machine} {e : Event} {q q' : Queues ListRef TaskRef} {x : TaskRef}

/-- The event walks through the sleep list. -/
def Walks (s : Machine) : Event → Bool
  | .tick => !s.tasks.taskTimeTick.1
  | .resume => true
  | _ => false

/-! ### One event -/

/-- What an event does to a sleeping task. -/
structure Slept (s : Machine) (e : Event) (q' : Queues ListRef TaskRef) (x : TaskRef) : Prop where
  stays : s.Walks e = false →
    x ∈ q' .sleep ∧ ((s.next e).tasks.task x).sleepTicks = (s.tasks.task x).sleepTicks
  wakes : s.Walks e = true → s.tasks.Wakes x = true → x ∈ q' .ready
  sleeps : s.Walks e = true → s.tasks.Wakes x = false →
    x ∈ q' .sleep ∧ ((s.next e).tasks.task x).sleepTicks = (s.tasks.task x).sleepTicks - 1

theorem Slept.of_stays (hwalks : s.Walks e = false) (hx : x ∈ q' .sleep)
    (hticks : ((s.next e).tasks.task x).sleepTicks = (s.tasks.task x).sleepTicks) :
  Slept s e q' x
  := by
  constructor
  · intro
    use hx
  · rw [hwalks]
    intro h
    cases h
  · rw [hwalks]
    intro h
    cases h

theorem Slept.of_walk (hwalks : s.Walks e = true)
    (hsleep : q' .sleep = (q .sleep).filter (fun t => !s.tasks.Wakes t))
    (hready : (q .sleep).filter s.tasks.Wakes ⊆ q' .ready) (hx : x ∈ q .sleep)
    (hticks : ((s.next e).tasks.task x).sleepTicks = (s.tasks.task x).sleepTicks - 1) :
  Slept s e q' x
  := by
  constructor
  · rw [hwalks]
    intro h
    cases h
  · intro _ hwakes
    apply hready
    rw [List.mem_filter]
    use hx
  · intro _ hwakes
    refine ⟨?_, hticks⟩
    rw [hsleep, List.mem_filter, hwakes]
    use hx
    rfl

/-- A sleeping task loses a tick in each walk, and wakes up with the last one. -/
theorem sleeping_next (hs : s.tasks.Settled s.life q) (he : s.Enabled e) (hx : x ∈ q .sleep) :
  ∃ q', (s.next e).tasks.Settled (s.next e).life q' ∧ Slept s e q' x
  := by
  have hlife : s.life x = .started := (hs.member _ x hx).1
  have hf (task : Task) (state : TaskState) :
    Task.sleepTicks { task with state := state } = task.sleepTicks := rfl
  cases e with
  | create t name tss tssSel =>
      refine ⟨q, hs.taskInit he.2 name tss tssSel, Slept.of_stays rfl hx ?_⟩
      have hne : x ≠ t := by
        rintro rfl
        rw [he.2] at hlife
        cases hlife
      rw [next, TaskManager.task_taskInit name tss tssSel hne]
  | start t =>
      refine ⟨_, hs.taskStart he.1.1 he.2.1 he.2.2, Slept.of_stays rfl ?_ ?_⟩
      · rw [push_of_ne (by simp)]
        apply hx
      · apply TaskManager.field_taskSetReady hf
  | yield =>
      obtain ⟨q', hs', hmoves⟩ := hs.sysYield he.1
      exact ⟨q', hs', Slept.of_stays rfl (hmoves.sleep ▸ hx) (TaskManager.field_sysYield hf)⟩
  | sleep ms =>
      obtain ⟨q', hs', -, -, -, hsleep⟩ := hs.sysSleep he.1 ms
      have hne : x ≠ s.tasks.currTask := by
        rintro rfl
        cases hs.holds.exclusive.unique hx (hs.running.mem he.1)
      refine ⟨q', hs', Slept.of_stays rfl ?_ ?_⟩
      · rw [hsleep]
        split_ifs
        · apply hx
        · apply List.mem_append_left _ hx
      · apply TaskManager.field_sysSleep hf ms (.inl hne)
  | tick =>
      obtain ⟨q', hs', -, -, hswitched, hwalked⟩ := hs.taskTimeTick
      refine ⟨q', hs', ?_⟩
      cases hfst : s.tasks.taskTimeTick.1 with
      | true =>
          apply Slept.of_stays _ (hswitched hfst ▸ hx)
          · rw [next]
            apply TaskManager.sleepTicks_switched hfst
          · rw [Walks, hfst]
            rfl
      | false =>
          obtain ⟨hsleep, hready, hticks⟩ := hwalked hfst
          apply Slept.of_walk _ hsleep hready hx
          · apply hticks x hx
          · rw [Walks, hfst]
            rfl
  | resume =>
      obtain ⟨q', hs', -, hticks, hsleep, hready⟩ := hs.rest
      refine ⟨q', hs', Slept.of_walk rfl hsleep ?_ hx (hticks x hx)⟩
      rw [hready]
      apply List.subset_append_right
  | semWait i =>
      obtain ⟨q', hs', hmoves⟩ := hs.semWait he.1 i
      exact ⟨q', hs', Slept.of_stays rfl (hmoves.sleep ▸ hx) (TaskManager.field_semWait hf i)⟩
  | semNotify i =>
      obtain ⟨q', hs', hmoves⟩ := hs.semNotify i
      exact ⟨q', hs', Slept.of_stays rfl (hmoves.sleep ▸ hx) (TaskManager.field_semNotify hf i)⟩
  | mutexLock i =>
      obtain ⟨q', hs', hmoves⟩ := hs.mutexLock he.1 i
      exact ⟨q', hs', Slept.of_stays rfl (hmoves.sleep ▸ hx) (TaskManager.field_mutexLock hf i)⟩
  | mutexUnlock i =>
      obtain ⟨q', hs', hmoves⟩ := hs.mutexUnlock i
      exact ⟨q', hs', Slept.of_stays rfl (hmoves.sleep ▸ hx) (TaskManager.field_mutexUnlock hf i)⟩
  | exit status =>
      obtain ⟨q', hs', -, -, hsleep⟩ := hs.sysExit he.1 status
      refine ⟨q', hs', Slept.of_stays rfl (hsleep ▸ hx) ?_⟩
      apply TaskManager.field_sysExit hf status
        (.inr (fun _ _ => rfl))

/-! ### Punctual runs -/

/-- No task resumes inside of a tick, and a tick does not end the time slice of the current
task, or no other task is ready. -/
structure Punctual (s : Machine) (e : Event) : Prop where
  resumes : e ≠ .resume
  tick : e = .tick → (s.tasks.task s.tasks.currTask).sliceTicks ≠ 1
    ∨ (s.tasks.linked .ready).length ≤ 1

/-- A punctual tick walks through the sleep list. -/
theorem walks_tick (hs : s.tasks.Settled s.life q) (hpunctual : s.Punctual .tick) :
  s.Walks .tick = true
  := by
  obtain ⟨q₁, hs₁, -, hready, -⟩ := hs.timeSlice
  have hhead : (q₁ .ready).head? = (q .ready).head? := by
    rw [hready]
    split_ifs with hslice
    · obtain ⟨ts, hts⟩ := hs.running.head hslice.2
      have hlength := (hpunctual.tick rfl).resolve_left (not_not.mpr hslice.1)
      rw [hs.holds.linked, hts, List.length_cons] at hlength
      have hnil : ts = [] := List.eq_nil_of_length_eq_zero (by omega)
      rw [hts, hnil]
      rfl
    · rfl
  have hcurr : (TaskManager.taskTimeTick.slice s.tasks).currTask = s.tasks.currTask := by
    rw [hs₁.running, hhead, ← hs.running]
  rw [Walks, TaskManager.taskTimeTick, if_pos hcurr]
  rfl

/-- In a punctual run a sleeping task loses a tick of sleep in each tick. -/
theorem sleeping_run {es : List Event} (hrun : (scheduler.restrict Punctual).Run s es s')
    (hs : s.tasks.Settled s.life q) (hx : x ∈ q .sleep) {n : Nat} (hn : 1 ≤ n)
    (hticks : (s.tasks.task x).sleepTicks = n + es.countP Event.isTick) :
  (∃ q', s'.tasks.Settled s'.life q' ∧ x ∈ q' .sleep) ∧ (s'.tasks.task x).sleepTicks = n
  := by
  induction hrun generalizing q with
  | nil =>
      rw [List.countP_nil] at hticks
      exact ⟨⟨q, hs, hx⟩, by omega⟩
  | @cons s s₁ s' e es hstep hrun ih =>
      obtain ⟨hpunctual, he, rfl⟩ := hstep
      obtain ⟨q₁, hs₁, hslept⟩ := sleeping_next hs he hx
      rw [List.countP_cons] at hticks
      cases htick : e.isTick with
      | true =>
          have hwalks : s.Walks e = true := by
            cases e <;> cases htick
            apply walks_tick hs hpunctual
          rw [htick, if_pos rfl] at hticks
          have hwakes : s.tasks.Wakes x = false := by
            rw [TaskManager.Wakes, decide_eq_false_iff_not]
            omega
          obtain ⟨hx₁, hticks₁⟩ := hslept.sleeps hwalks hwakes
          apply ih hs₁ hx₁
          omega
      | false =>
          have hwalks : s.Walks e = false := by
            cases e with
            | tick => cases htick
            | resume => cases hpunctual.resumes rfl
            | _ => rfl
          obtain ⟨hx₁, hticks₁⟩ := hslept.stays hwalks
          apply ih hs₁ hx₁
          rw [htick, if_neg (by simp)] at hticks
          omega

/-- A task that goes to sleep for `k` ticks is asleep until the `k`-th tick of a punctual run
and ready after it. -/
theorem wakes_of_reachable (h : scheduler.Reachable (fun _ => True) s)
    {ms : UInt32} (he : s.Enabled (.sleep ms)) (hms : osTickMs ≤ ms) {es : List Event}
    (hrun : (scheduler.restrict Punctual).Run (s.next (.sleep ms)) es s')
    (hticks : es.countP Event.isTick < (ms / osTickMs).toNat) :
  s.tasks.currTask ∈ s'.tasks.linked .sleep
    ∧ (es.countP Event.isTick + 1 = (ms / osTickMs).toNat → s'.Enabled .tick →
      s'.Punctual .tick → s.tasks.currTask ∉ (s'.next .tick).tasks.linked .sleep
        ∧ s.tasks.currTask ∈ (s'.next .tick).tasks.linked .ready)
  := by
  obtain ⟨q, hs⟩ := settled_of_reachable h
  obtain ⟨q₁, hs₁, -, -, -, hsleep⟩ := hs.sysSleep he.1 ms
  have hx : s.tasks.currTask ∈ q₁ .sleep := by
    rw [hsleep, if_neg (UInt32.not_lt.mpr hms)]
    simp
  have hslept : ((s.next (.sleep ms)).tasks.task s.tasks.currTask).sleepTicks
      = ((ms / osTickMs).toNat - es.countP Event.isTick : Nat) + es.countP Event.isTick := by
    rw [next, TaskManager.sleepTicks_sysSleep hms]
    omega
  obtain ⟨⟨q', hs', hx'⟩, hticks'⟩ := sleeping_run hrun hs₁ hx (by omega) hslept
  rw [hs'.holds.linked]
  use hx'
  intro hlast henabled hpunctual
  obtain ⟨q₂, hs₂, hslept₂⟩ := sleeping_next hs' henabled hx'
  have hready := hslept₂.wakes (walks_tick hs' hpunctual) (by
    rw [TaskManager.Wakes, decide_eq_true_iff]
    omega)
  rw [hs₂.holds.linked, hs₂.holds.linked]
  refine ⟨?_, hready⟩
  intro hsleep₂
  cases hs₂.holds.exclusive.unique hready hsleep₂

/-- Three ready tasks; the first one is switched out inside the tick that ends its slice. -/
def preempted : Machine :=
  started.nexts ([.create (.slot 0) [] {} 0, .start (.slot 0), .create (.slot 1) [] {} 0,
    .start (.slot 1)] ++ List.replicate 10 .tick)

/-- The second task sleeps for two ticks, in the time slice of the third one. -/
theorem wakes_preempted :
  preempted.inTick .firstTask = true ∧ preempted.tasks.currTask = .slot 0
    ∧ .slot 0 ∈ (preempted.nexts [.sleep 20, .tick]).tasks.linked .sleep
    ∧ .slot 0 ∈ ((preempted.nexts [.sleep 20, .tick]).next .tick).tasks.linked .ready
  := by
  have hreachable : scheduler.Reachable (fun _ => True) preempted :=
    reachable_nexts (Reachable.init init_started) (by decide +kernel)
  have hsleep : preempted.Enabled (.sleep 20) := by decide +kernel
  have hms : osTickMs ≤ 20 := by decide
  have htick : (preempted.next (.sleep 20)).Enabled .tick := by decide +kernel
  have hpunctual (es : List Event) (hslice : ((preempted.nexts es).tasks.task
      (preempted.nexts es).tasks.currTask).sliceTicks ≠ 1) :
      (preempted.nexts es).Punctual .tick := ⟨Event.noConfusion, fun _ => .inl hslice⟩
  have hrun : (scheduler.restrict Punctual).Run (preempted.next (.sleep 20)) [.tick]
      (preempted.nexts [.sleep 20, .tick]) :=
    .cons ⟨hpunctual [.sleep 20] (by decide +kernel), htick, rfl⟩ .nil
  have hwakes := wakes_of_reachable hreachable hsleep hms hrun (by decide)
  have hcurr : preempted.tasks.currTask = .slot 0 := by decide +kernel
  rw [hcurr] at hwakes
  refine ⟨by decide +kernel, hcurr, hwakes.1, ?_⟩
  exact (hwakes.2 (by decide) (by decide +kernel)
    (hpunctual [.sleep 20, .tick] (by decide +kernel))).2

/-- Three ready tasks; the current one has just called and the next one has one tick left. -/
def threeReady : Machine :=
  started.nexts ([.create (.slot 0) [] {} 0, .start (.slot 0), .create (.slot 1) [] {} 0,
    .start (.slot 1)] ++ List.replicate 9 .tick ++ [.yield])

/-- The second task sleeps for one tick, and the third lets the first one run for its last
tick: in that tick the second task stays asleep. -/
theorem not_wakes_of_reachable :
  ¬ ∀ s : Machine, scheduler.Reachable (fun _ => True) s →
    ∀ ms, s.Enabled (.sleep ms) → osTickMs ≤ ms →
    ∀ es s', scheduler.Run (s.next (.sleep ms)) es s' →
    es.countP Event.isTick < (ms / osTickMs).toNat →
    s.tasks.currTask ∈ s'.tasks.linked .sleep
      ∧ (es.countP Event.isTick + 1 = (ms / osTickMs).toNat → s'.Enabled .tick →
        s.tasks.currTask ∉ (s'.next .tick).tasks.linked .sleep
          ∧ s.tasks.currTask ∈ (s'.next .tick).tasks.linked .ready)
  := by
  intro h
  have hreachable : scheduler.Reachable (fun _ => True) threeReady :=
    reachable_nexts (Reachable.init init_started) (by decide +kernel)
  have hsleep : threeReady.Enabled (.sleep 10) := by decide +kernel
  have hallowed : (threeReady.next (.sleep 10)).Allowed [.yield] := by decide +kernel
  have hwakes := (h threeReady hreachable 10 hsleep (by decide) [.yield] _
    (run_nexts hallowed) (by decide)).2
    (by decide) (by decide +kernel)
  revert hwakes
  decide +kernel

end Machine

end Dmos
