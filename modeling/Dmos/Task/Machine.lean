import Dmos.Library.Transition
import Dmos.Task.Invariant

/-!
# Runs of the scheduler

The operations of the scheduler as the events of a transition system (`scheduler`).  The
current task makes the calls; ticks and `semNotify` also come from interrupts, whatever task
is current.  A task that a tick switched out before the end of `task_time_tick` resumes
there once it is current again, before anything else happens (`resume`).

In every state that a run from boot reaches the scheduler is settled, so its lists
represent what they should (`represents_of_reachable`).  No task is lost by any
operation but one (`linkedOnce_of_reachable`): `sys_sleep` for less than a tick takes the
caller out of the ready list and puts it nowhere.
-/

open LinkedList Queues TransitionSystem

namespace Dmos

/-- The scheduler, what has become of the tasks, and the tasks switched out inside a tick. -/
structure Machine where
  tasks : TaskManager
  life : TaskRef → Life
  inTick : TaskRef → Bool

/-- The operations, with their arguments. -/
inductive Event where
  | create (t : TaskRef) (name : List UInt8) (tss : Tss) (tssSel : Nat)
  | start (t : TaskRef)
  | yield
  | sleep (ms : UInt32)
  | tick
  | resume
  | semWait (i : Nat)
  | semNotify (i : Nat)
  | mutexLock (i : Nat)
  | mutexUnlock (i : Nat)
  | exit (status : Int)

def Event.isTick : Event → Bool
  | .tick => true
  | _ => false

namespace Machine

/-- The current task, other than the idle task, is outside of `task_time_tick`. -/
def Calling (s : Machine) : Prop :=
  s.tasks.currTask ≠ .idleTask ∧ s.inTick s.tasks.currTask = false

/-- The events that can happen. -/
def Enabled (s : Machine) : Event → Prop
  | .create t _ _ _ => s.Calling ∧ s.life t = .unborn
  | .start t => s.Calling ∧ s.life t = .created ∧ t ≠ .idleTask
  | .tick => s.inTick s.tasks.currTask = false
  | .resume => s.inTick s.tasks.currTask = true
  | .semNotify _ => s.inTick s.tasks.currTask = false
  | _ => s.Calling

def setLife (s : Machine) (t : TaskRef) (life : Life) : TaskRef → Life :=
  Function.update s.life t life

def next (s : Machine) : Event → Machine
  | .create t name tss tssSel =>
      { s with tasks := s.tasks.taskInit t name tss tssSel, life := s.setLife t .created }
  | .start t => { s with tasks := s.tasks.taskStart t, life := s.setLife t .started }
  | .yield => { s with tasks := s.tasks.sysYield }
  | .sleep ms => { s with tasks := s.tasks.sysSleep ms }
  | .tick =>
      match s.tasks.taskTimeTick with
      | (switched, tasks) =>
          { s with tasks := tasks, inTick := Function.update s.inTick s.tasks.currTask switched }
  | .resume =>
      { s with
        tasks := TaskManager.taskTimeTick.rest s.tasks
        inTick := Function.update s.inTick s.tasks.currTask false }
  | .semWait i => { s with tasks := s.tasks.semWait i }
  | .semNotify i => { s with tasks := s.tasks.semNotify i }
  | .mutexLock i => { s with tasks := s.tasks.mutexLock i }
  | .mutexUnlock i => { s with tasks := s.tasks.mutexUnlock i }
  | .exit status =>
      { s with
        tasks := s.tasks.sysExit status
        life := s.setLife s.tasks.currTask .exited }

/-- The state after `first_task_init`. -/
def boot (layout : TaskLayout) (appCodeSel appDataSel : Nat) (count : Nat → Int)
    (heap : Nat) (idleTss firstTss : Tss) (idleSel firstSel : Nat) : Machine where
  tasks := (TaskManager.taskManagerInit layout appCodeSel appDataSel count idleTss
    idleSel).firstTaskInit heap firstTss firstSel
  life
    | .firstTask => .started
    | .idleTask => .created
    | .slot _ => .unborn
  inTick _ := false

end Machine

/-- The scheduler from boot on. -/
def scheduler : TransitionSystem Machine Event where
  init s := ∃ layout appCodeSel appDataSel count heap idleTss firstTss idleSel firstSel,
    s = Machine.boot layout appCodeSel appDataSel count heap idleTss firstTss idleSel firstSel
  step s e s' := s.Enabled e ∧ s' = s.next e

namespace Machine

/-! ### One event -/

/-- Every started task is in a queue. -/
def Linked (s : Machine) (q : Queues ListRef TaskRef) : Prop :=
  ∀ t, s.life t = .started → ¬ Absent q t

/-- The event is no sleep for less than a tick. -/
def WholeTicks (e : Event) : Prop :=
  ∀ ms, e = .sleep ms → osTickMs ≤ ms

theorem Linked.of_sameItems {s s' : Machine} {q q' : Queues ListRef TaskRef} (h : s.Linked q)
    (hlife : s'.life = s.life) (hsame : SameItems q q') :
  s'.Linked q'
  := by
  intro t ht
  rw [hsame t]
  rw [hlife] at ht
  apply h t ht

theorem setLife_apply (s : Machine) (t t' : TaskRef) (life : Life) :
  s.setLife t life t' = if t' = t then life else s.life t'
  := Function.update_apply _ _ _ _

/-- An event takes a settled scheduler to a settled one, and loses no task unless it is a
sleep for less than a tick. -/
theorem settled_next {s : Machine} {e : Event} {q : Queues ListRef TaskRef}
    (hs : s.tasks.Settled s.life q) (he : s.Enabled e) :
  ∃ q', (s.next e).tasks.Settled (s.next e).life q'
    ∧ (WholeTicks e → s.Linked q → (s.next e).Linked q')
  := by
  -- an event that leaves the lives of the tasks alone and moves them between the lists
  have hmove : (s.next e).life = s.life →
      (∃ q', (s.next e).tasks.Settled s.life q' ∧ (WholeTicks e → SameItems q q')) →
      ∃ q', (s.next e).tasks.Settled (s.next e).life q'
        ∧ (WholeTicks e → s.Linked q → (s.next e).Linked q') := by
    rintro hlife ⟨q', hs', hsame⟩
    rw [hlife]
    exact ⟨q', hs', fun hticks hlinked => hlinked.of_sameItems hlife (hsame hticks)⟩
  have hkeep : (s.next e).life = s.life →
      (∃ q', (s.next e).tasks.Settled s.life q' ∧ SameItems q q') →
      ∃ q', (s.next e).tasks.Settled (s.next e).life q'
        ∧ (WholeTicks e → s.Linked q → (s.next e).Linked q') := by
    rintro hlife ⟨q', hs', hsame⟩
    exact hmove hlife ⟨q', hs', fun _ => hsame⟩
  cases e with
  | create t name tss tssSel =>
      refine ⟨q, hs.taskInit he.2 name tss tssSel, ?_⟩
      intro _ hlinked t' ht'
      change s.setLife t .created t' = .started at ht'
      rw [setLife_apply] at ht'
      split_ifs at ht' with heq
      apply hlinked t' ht'
  | start t =>
      refine ⟨_, hs.taskStart he.1.1 he.2.1 he.2.2, ?_⟩
      intro _ hlinked t' ht'
      rw [absent_push]
      rintro ⟨habsent, hne⟩
      change s.setLife t .started t' = .started at ht'
      rw [setLife_apply, if_neg hne] at ht'
      apply hlinked t' ht' habsent
  | yield =>
      obtain ⟨q', hs', hmoves⟩ := hs.sysYield he.1
      exact hkeep rfl ⟨q', hs', hmoves.items⟩
  | sleep ms =>
      obtain ⟨q', hs', hsame, -⟩ := hs.sysSleep he.1 ms
      exact hmove rfl ⟨q', hs', fun hticks => hsame (hticks ms rfl)⟩
  | tick =>
      obtain ⟨q', hs', hsame, -⟩ := hs.taskTimeTick
      exact hkeep rfl ⟨q', hs', hsame⟩
  | resume =>
      obtain ⟨q', hs', hsame, -⟩ := hs.rest
      exact hkeep rfl ⟨q', hs', hsame⟩
  | semWait i =>
      obtain ⟨q', hs', hmoves⟩ := hs.semWait he.1 i
      exact hkeep rfl ⟨q', hs', hmoves.items⟩
  | semNotify i =>
      obtain ⟨q', hs', hmoves⟩ := hs.semNotify i
      exact hkeep rfl ⟨q', hs', hmoves.items⟩
  | mutexLock i =>
      obtain ⟨q', hs', hmoves⟩ := hs.mutexLock he.1 i
      exact hkeep rfl ⟨q', hs', hmoves.items⟩
  | mutexUnlock i =>
      obtain ⟨q', hs', hmoves⟩ := hs.mutexUnlock i
      exact hkeep rfl ⟨q', hs', hmoves.items⟩
  | exit status =>
      obtain ⟨q', hs', habsent, -⟩ := hs.sysExit he.1 status
      refine ⟨q', hs', ?_⟩
      intro _ hlinked t ht
      change s.setLife s.tasks.currTask .exited t = .started at ht
      rw [setLife_apply] at ht
      split_ifs at ht with heq
      rw [habsent]
      rintro (h | h)
      · apply hlinked t ht h
      · apply heq h

/-! ### Every run -/

/-- At the start the first task is ready, and there is the idle task. -/
theorem settled_init {s : Machine} (h : scheduler.init s) :
  s.tasks.Settled s.life (push (fun _ => []) .ready .firstTask)
    ∧ s.life = Function.update (Function.update (Function.update (fun _ => .unborn) .idleTask
      .created) .firstTask .created) .firstTask .started
    ∧ (s.tasks.task .firstTask).state = .ready
  := by
  obtain ⟨layout, appCodeSel, appDataSel, count, heap, idleTss, firstTss, idleSel, firstSel, rfl⟩
    := h
  have hlife : (boot layout appCodeSel appDataSel count heap idleTss firstTss idleSel firstSel).life
      = Function.update (Function.update (Function.update (fun _ => .unborn) .idleTask .created)
        .firstTask .created) .firstTask .started := by
    funext t
    cases t <;> rfl
  refine ⟨?_, hlife, rfl⟩
  rw [hlife]
  apply TaskManager.settled_boot

theorem settled_boot {s : Machine} (h : scheduler.init s) :
  ∃ q, s.tasks.Settled s.life q ∧ s.Linked q
  := by
  obtain ⟨hboot, hlife, -⟩ := settled_init h
  refine ⟨_, hboot, ?_⟩
  intro t ht
  rw [hlife] at ht
  cases t with
  | firstTask =>
      rw [absent_push]
      rintro ⟨-, hne⟩
      apply hne rfl
  | idleTask => cases ht
  | slot i => cases ht

/-- Every run leaves the scheduler settled. -/
theorem settled_of_reachable {s : Machine} (h : scheduler.Reachable (fun _ => True) s) :
  ∃ q, s.tasks.Settled s.life q
  := by
  apply h.invariant
  · intro s hinit
    obtain ⟨q, hs, -⟩ := settled_boot hinit
    exact ⟨q, hs⟩
  · rintro s e _ ⟨q, hs⟩ - ⟨he, rfl⟩
    obtain ⟨q', hs', -⟩ := settled_next hs he
    exact ⟨q', hs'⟩

/-- A run without sleeps for less than a tick loses no task. -/
theorem linked_of_wholeTicks {s : Machine} (h : scheduler.Reachable WholeTicks s) :
  ∃ q, s.tasks.Settled s.life q ∧ s.Linked q
  := by
  apply h.invariant
  · apply settled_boot
  · rintro s e _ ⟨q, hs, hlinked⟩ hticks ⟨he, rfl⟩
    obtain ⟨q', hs', hlinked'⟩ := settled_next hs he
    exact ⟨q', hs', hlinked' hticks hlinked⟩

/-- The first state, with the tasks at given addresses and no permits. -/
def started : Machine :=
  boot .low 0 0 (fun _ => 0) 0 {} {} 0 0

theorem init_started :
  scheduler.init started
  := ⟨_, _, _, _, _, _, _, _, _, rfl⟩

theorem calling_started :
  started.Calling
  := by
  constructor
  · intro h
    cases h
  · rfl

/-! ### Given events -/

instance (s : Machine) : Decidable s.Calling :=
  inferInstanceAs (Decidable (_ ∧ _))

instance (s : Machine) : (e : Event) → Decidable (s.Enabled e)
  | .create t _ _ _ => inferInstanceAs (Decidable (s.Calling ∧ s.life t = .unborn))
  | .start t => inferInstanceAs (Decidable (s.Calling ∧ s.life t = .created ∧ t ≠ .idleTask))
  | .tick | .semNotify _ => inferInstanceAs (Decidable (s.inTick s.tasks.currTask = false))
  | .resume => inferInstanceAs (Decidable (s.inTick s.tasks.currTask = true))
  | .yield | .sleep _ | .semWait _ | .mutexLock _ | .mutexUnlock _ | .exit _ =>
      inferInstanceAs (Decidable s.Calling)

/-- The state after some events. -/
def nexts (s : Machine) (es : List Event) : Machine :=
  es.foldl next s

/-- The events can happen one after the other. -/
def Allowed (s : Machine) : List Event → Prop
  | [] => True
  | e :: es => s.Enabled e ∧ (s.next e).Allowed es

instance Allowed.decidable (s : Machine) (es : List Event) : Decidable (s.Allowed es) :=
  match es with
  | [] => isTrue trivial
  | e :: es =>
      have := Allowed.decidable (s.next e) es
      inferInstanceAs (Decidable (_ ∧ _))

theorem run_nexts {s : Machine} {es : List Event} (h : s.Allowed es) :
  scheduler.Run s es (s.nexts es)
  := by
  induction es generalizing s with
  | nil => apply Run.nil
  | cons e es ih => exact Run.cons ⟨h.1, rfl⟩ (ih h.2)

theorem reachable_nexts {s : Machine} {es : List Event}
    (hs : scheduler.Reachable (fun _ => True) s) (h : s.Allowed es) :
  scheduler.Reachable (fun _ => True) (s.nexts es)
  := (run_nexts h).invariant (fun _ _ _ _ hs hstep => Reachable.step hs trivial hstep) hs

/-! ### What the lists represent -/

/-- What the lists and the tasks of a scheduler maintain. -/
structure Represents (s : Machine) : Prop where
  /-- The links of a list lead through the linked tasks, which its count counts. -/
  isList : ∀ p, IsList (s.tasks.node p.node) (s.tasks.list p) (s.tasks.linked p)
  /-- The current task is the head of the ready list. -/
  head : s.tasks.linked .ready ≠ [] → (s.tasks.linked .ready).head? = some s.tasks.currTask
  /-- The idle task runs when no task is ready. -/
  idle : s.tasks.currTask = .idleTask ↔ s.tasks.linked .ready = []
  /-- No task is linked twice in the ready list. -/
  nodup : (s.tasks.linked .ready).Nodup
  /-- The idle task is never ready. -/
  idle_not_ready : TaskRef.idleTask ∉ s.tasks.linked .ready
  /-- No sleeping task is ready. -/
  disjoint : ∀ t ∈ s.tasks.linked .ready, t ∉ s.tasks.linked .sleep
  sleepTicks : ∀ t ∈ s.tasks.linked .sleep, 1 ≤ (s.tasks.task t).sleepTicks
  /-- Every task that was created has ticks left in its time slice. -/
  slice : ∀ t, s.life t ≠ .unborn →
    1 ≤ (s.tasks.task t).sliceTicks ∧ (s.tasks.task t).sliceTicks ≤ (s.tasks.task t).timeTicks

theorem represents_of_settled {s : Machine} {q : Queues ListRef TaskRef}
    (hs : s.tasks.Settled s.life q) :
  s.Represents
  := by
  have hlinked := hs.holds.linked
  have hrunning := hs.running
  rw [TaskManager.Running] at hrunning
  constructor
  · intro p
    rw [hlinked]
    apply hs.holds.isList
  · intro hne
    rw [hlinked] at hne ⊢
    rw [hrunning]
    cases hq : q .ready with
    | nil => cases hne hq
    | cons t ts => rfl
  · rw [hlinked, hrunning]
    cases hq : q .ready with
    | nil => simp
    | cons t ts =>
        have ht : t ≠ .idleTask := by
          apply (hs.member .ready t _).2
          rw [hq]
          apply List.mem_cons_self
        simp [ht]
  · rw [hlinked]
    apply hs.holds.exclusive.nodup
  · rw [hlinked]
    intro hidle
    apply (hs.member _ _ hidle).2 rfl
  · intro t ht ht'
    rw [hlinked] at ht ht'
    cases hs.holds.exclusive.unique ht ht'
  · intro t ht
    rw [hlinked] at ht
    apply hs.sleepTicks t ht
  · apply hs.slice

/-- The scheduler in every state of every run. -/
theorem represents_of_reachable {s : Machine} (h : scheduler.Reachable (fun _ => True) s) :
  s.Represents
  := by
  obtain ⟨q, hs⟩ := settled_of_reachable h
  apply represents_of_settled hs

theorem represents_started_sleep :
  (started.next (.sleep 20)).Represents
  := by
  apply represents_of_reachable
  apply Reachable.step (a := .sleep 20) (Reachable.init init_started) trivial
  exact ⟨calling_started, rfl⟩

/-- The task is linked in exactly one list. -/
def LinkedOnce (s : Machine) (t : TaskRef) : Prop :=
  ∃! p, t ∈ s.tasks.linked p

/-- In a run without sleeps for less than a tick, each task that was started and has not
exited stays linked in exactly one list, and once in it. -/
theorem linkedOnce_of_reachable {s : Machine} (h : scheduler.Reachable WholeTicks s) :
  (∀ p, IsList (s.tasks.node p.node) (s.tasks.list p) (s.tasks.linked p))
    ∧ ∀ t, t ≠ .idleTask → s.life t = .started → s.LinkedOnce t
  := by
  obtain ⟨q, hs, hlinked⟩ := linked_of_wholeTicks h
  use (represents_of_settled hs).isList
  intro t _ ht
  have hmem := hlinked t ht
  rw [Absent, not_forall_not] at hmem
  obtain ⟨p, hp⟩ := hmem
  use p
  constructor
  · dsimp only
    rw [hs.holds.linked]
    apply hp
  · intro p' hp'
    rw [hs.holds.linked] at hp'
    apply hs.holds.exclusive.unique hp' hp

theorem linkedOnce_started_sleep :
  (∀ p, IsList ((started.next (.sleep 20)).tasks.node p.node)
      ((started.next (.sleep 20)).tasks.list p) ((started.next (.sleep 20)).tasks.linked p))
    ∧ (started.next (.sleep 20)).LinkedOnce .firstTask
  := by
  have hreachable : scheduler.Reachable WholeTicks (started.next (.sleep 20)) := by
    apply Reachable.step (a := .sleep 20) (Reachable.init init_started)
    · intro ms hms
      cases hms
      decide
    · exact ⟨calling_started, rfl⟩
  obtain ⟨hlists, hlinked⟩ := linkedOnce_of_reachable hreachable
  use hlists
  apply hlinked
  · intro h
    cases h
  · rfl

/-- A task that sleeps for less than a tick is linked nowhere. -/
theorem lost_of_sleep {s : Machine} (h : scheduler.Reachable (fun _ => True) s) (ms : UInt32)
    (he : s.Enabled (.sleep ms)) (hms : ms < osTickMs) (p : ListRef) :
  s.tasks.currTask ∉ (s.next (.sleep ms)).tasks.linked p
  := by
  obtain ⟨q, hs⟩ := settled_of_reachable h
  obtain ⟨q', hs', -, habsent, -⟩ := hs.sysSleep he.1 ms
  rw [Machine.next, hs'.holds.linked]
  apply habsent hms

/-- The first task sleeps for half a tick and is lost. -/
theorem not_linkedOnce_of_reachable :
  ¬ ∀ s : Machine, scheduler.Reachable (fun _ => True) s →
    ∀ t, t ≠ .idleTask → s.life t = .started → s.LinkedOnce t
  := by
  intro h
  have hinit : scheduler.Reachable (fun _ => True) started := Reachable.init init_started
  have hreachable : scheduler.Reachable (fun _ => True) (started.next (.sleep 5)) := by
    apply Reachable.step (a := .sleep 5) hinit trivial
    exact ⟨calling_started, rfl⟩
  obtain ⟨p, hp, -⟩ := h _ hreachable .firstTask (by intro h; cases h) rfl
  apply lost_of_sleep hinit 5 calling_started (by decide) p hp

end Machine

end Dmos
