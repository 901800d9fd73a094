import Dmos.Library.Semaphore
import Dmos.Library.Transition
import Dmos.Task.Machine

/-!
# The semaphore

A semaphore of `sem.c` is a counting semaphore with a queue (`IsSem`), whatever the scheduler
does with the tasks in between: `semWait` and `semNotify` do to it what a request and a return
of a permit do to such a semaphore (`IsSem.semWait`, `IsSem.semNotify`).

The calls on one semaphore, by tasks and by interrupt handlers, make up a transition system
(`semCalls`).  Its states also tell how many requests found a permit, how many permits were
given back, and in which order tasks blocked and were granted a permit after that.
-/

open LinkedList TransitionSystem

namespace Dmos

namespace TaskManager

variable {m m' : TaskManager} {i : Nat} {s : Semaphore TaskRef}

def semCount (m : TaskManager) (i : Nat) : Int :=
  (m.sem i).count

/-! ### The part of the state a semaphore depends on -/

/-- The semaphore `i` and the links of the tasks that wait are the same in both states. -/
structure SameSem (i : Nat) (m m' : TaskManager) : Prop where
  sem : m'.sem i = m.sem i
  node : ∀ t ∈ m.linked (.sem i), m'.node .waitNode t = m.node .waitNode t

/-- Scheduling leaves all semaphores and the links of waiting tasks alone. -/
theorem sem_taskSetReady (t : TaskRef) :
  (m.taskSetReady t).sem = m.sem ∧ (m.taskSetReady t).node .waitNode = m.node .waitNode
  := by
  rw [taskSetReady]
  split_ifs <;> exact ⟨rfl, rfl⟩

theorem sem_taskSetBlock (t : TaskRef) :
  (m.taskSetBlock t).sem = m.sem ∧ (m.taskSetBlock t).node .waitNode = m.node .waitNode
  := by
  rw [taskSetBlock]
  split_ifs <;> exact ⟨rfl, rfl⟩

theorem sem_taskDispatch :
  m.taskDispatch.sem = m.sem ∧ m.taskDispatch.node = m.node
  := by
  rw [taskDispatch]
  cases m.taskNextRun with
  | none => exact ⟨rfl, rfl⟩
  | some t =>
      dsimp only
      split_ifs <;> exact ⟨rfl, rfl⟩

theorem setSemCount_sem (count : Int) :
  (m.setSemCount i count).sem i = { m.sem i with count := count }
  := Function.update_self _ _ _

/-- A list operation on the queue of a semaphore leaves its count alone. -/
theorem count_setList (m : TaskManager) (i : Nat) (l : ListHead TaskRef) :
  ((m.setList (.sem i) l).sem i).count = (m.sem i).count
  := by simp [setList]

/-! ### What a semaphore represents -/

/-- The semaphore `i` is the semaphore `s`. -/
structure IsSem (m : TaskManager) (i : Nat) (s : Semaphore TaskRef) : Prop where
  count : (m.sem i).count = s.count
  waiting : IsList (m.node .waitNode) (m.sem i).waitList s.waiting

theorem IsSem.linked (h : IsSem m i s) :
  m.linked (.sem i) = s.waiting
  := h.waiting.nodes

theorem IsSem.congr (h : IsSem m i s) (hsem : m'.sem i = m.sem i)
    (hnode : ∀ t ∈ s.waiting, m'.node .waitNode t = m.node .waitNode t) :
  IsSem m' i s
  := by
  constructor
  · rw [hsem]
    apply h.count
  · rw [hsem]
    apply h.waiting.congr hnode

theorem IsSem.dispatch (h : IsSem m i s) :
  IsSem m.taskDispatch i s
  := by
  apply h.congr
  · rw [sem_taskDispatch.1]
  · intro t _
    rw [sem_taskDispatch.2]

theorem IsSem.waitList_count (h : IsSem m i s) :
  (m.sem i).waitList.count ≠ 0 ↔ s.waiting ≠ []
  := by
  rw [h.waiting.count, ne_eq, ne_eq, Int.natCast_eq_zero, List.length_eq_zero_iff]

/-! ### The calls -/

theorem IsSem.semWait (h : IsSem m i s) (ht : m.currTask ∉ s.waiting) :
  IsSem (m.semWait i) i (s.wait m.currTask ht)
  := by
  rw [TaskManager.semWait, h.count]
  by_cases hcount : 0 < s.count
  · obtain ⟨hcount', hwaiting⟩ := Semaphore.wait_granted ht hcount
    rw [if_pos (by omega)]
    constructor
    · rw [setSemCount_sem, hcount']
      dsimp only
      omega
    · rw [setSemCount_sem, hwaiting]
      apply h.waiting
  · obtain ⟨hcount', hwaiting⟩ := Semaphore.wait_blocked ht hcount
    rw [if_neg (by omega)]
    apply IsSem.dispatch
    have hblocked : IsSem (m.taskSetBlock m.currTask) i s := by
      apply h.congr
      · rw [(sem_taskSetBlock _).1]
      · intro t _
        rw [(sem_taskSetBlock _).2]
    constructor
    · rw [insertLast, count_setList, hcount']
      apply hblocked.count
    · rw [hwaiting]
      exact isList_insertLast hblocked.waiting ht

theorem IsSem.semNotify (h : IsSem m i s) :
  IsSem (m.semNotify i) i s.notify
  := by
  rw [TaskManager.semNotify]
  rcases hwaiting : s.waiting with _ | ⟨t, ts⟩
  · obtain ⟨hcount', hwaiting'⟩ := Semaphore.notify_idle hwaiting
    rw [if_neg (by rw [h.waitList_count]; exact fun hne => hne hwaiting)]
    constructor
    · rw [setSemCount_sem, hcount']
      dsimp only
      rw [h.count]
      rfl
    · rw [setSemCount_sem, hwaiting', ← hwaiting]
      apply h.waiting
  · obtain ⟨hcount', hwaiting'⟩ := Semaphore.notify_waiting hwaiting
    have hlist : IsList (m.node .waitNode) (m.sem i).waitList (t :: ts) := by
      rw [← hwaiting]
      apply h.waiting
    rw [if_pos (by rw [h.waitList_count, hwaiting]; exact List.cons_ne_nil t ts),
      deleteFirst_of_isList (p := .sem i) hlist]
    apply IsSem.dispatch
    constructor
    · rw [(sem_taskSetReady t).1, delete, count_setList, hcount']
      apply h.count
    · rw [(sem_taskSetReady t).1, (sem_taskSetReady t).2, hwaiting']
      exact isList_deleteFirst (p := .sem i) hlist

end TaskManager

/-! ### Runs of calls -/

/-- The tasks and the semaphores, with what has happened to one of the semaphores. -/
structure SemRun where
  tasks : TaskManager
  /-- How many calls of `semWait` found a permit. -/
  acquired : Nat
  /-- How many calls of `semNotify` there were. -/
  notifies : Nat
  /-- The tasks in the order in which they blocked. -/
  blocked : List TaskRef
  /-- The tasks in the order in which a permit completed their call. -/
  granted : List TaskRef

inductive SemEvent where
  | wait
  | notify
  | other (m : TaskManager)

namespace SemRun

/-- A blocked task makes no call until it is woken; permits are given back by tasks and by
interrupt handlers, whatever task is current; and everything but the semaphore changes as it
may. -/
def Enabled (i : Nat) (s : SemRun) : SemEvent → Prop
  | .wait => s.tasks.currTask ∉ s.tasks.linked (.sem i)
  | .notify => True
  | .other m => s.tasks.SameSem i m

def next (i : Nat) (s : SemRun) : SemEvent → SemRun
  | .wait =>
      let m := s.tasks.semWait i
      if s.tasks.currTask ∈ m.linked (.sem i) then
        { s with tasks := m, blocked := s.blocked ++ [s.tasks.currTask] }
      else { s with tasks := m, acquired := s.acquired + 1 }
  | .notify =>
      let m := s.tasks.semNotify i
      { s with
        tasks := m
        notifies := s.notifies + 1
        granted := s.granted
          ++ (s.tasks.linked (.sem i)).filter (fun t => t ∉ m.linked (.sem i)) }
  | .other m => { s with tasks := m }

/-- The calls that are completed. -/
def completed (s : SemRun) : Nat :=
  s.acquired + s.granted.length

end SemRun

/-- The calls on the semaphore `i`, from `sem_init` with `n` on. -/
def semCalls (i n : Nat) : TransitionSystem SemRun SemEvent where
  init s := s.tasks.sem i = TaskManager.semInit n ∧ s.acquired = 0 ∧ s.notifies = 0 ∧
    s.blocked = [] ∧ s.granted = []
  step s e s' := s.Enabled i e ∧ s' = s.next i e

namespace SemRun

variable {i n : Nat} {s : SemRun} {a : Semaphore TaskRef}

/-- The semaphore is the semaphore `a`, in agreement with what has happened. -/
structure Keeps (s : SemRun) (i n : Nat) (a : Semaphore TaskRef) : Prop where
  isSem : s.tasks.IsSem i a
  permits : s.completed + a.count = n + s.notifies
  fifo : s.blocked = s.granted ++ a.waiting

theorem Keeps.init (h : (semCalls i n).init s) :
  s.Keeps i n (Semaphore.init n)
  := by
  obtain ⟨hsem, hacquired, hnotifies, hblocked, hgranted⟩ := h
  constructor
  · constructor
    · rw [hsem]
      rfl
    · rw [hsem]
      apply isList_init
  · rw [completed, hacquired, hgranted, hnotifies]
    change 0 + 0 + n = n + 0
    omega
  · rw [hblocked, hgranted]
    rfl

theorem Keeps.wait (h : s.Keeps i n a) (ht : s.tasks.currTask ∉ a.waiting) :
  (s.next i .wait).Keeps i n (a.wait s.tasks.currTask ht)
  := by
  have hsem := h.isSem.semWait ht
  have hpermits := h.permits
  rw [completed] at hpermits
  rw [next, hsem.linked]
  by_cases hcount : 0 < a.count
  · obtain ⟨hcount', hwaiting⟩ := Semaphore.wait_granted ht hcount
    rw [if_neg (by rw [hwaiting]; exact ht)]
    refine ⟨hsem, ?_, ?_⟩
    · rw [completed, hcount']
      dsimp only
      omega
    · rw [hwaiting]
      apply h.fifo
  · obtain ⟨hcount', hwaiting⟩ := Semaphore.wait_blocked ht hcount
    rw [if_pos (by rw [hwaiting]; exact List.mem_append_right _ (List.mem_singleton_self _))]
    refine ⟨hsem, ?_, ?_⟩
    · rw [hcount']
      apply h.permits
    · rw [hwaiting]
      change s.blocked ++ [s.tasks.currTask] = s.granted ++ (a.waiting ++ [s.tasks.currTask])
      rw [h.fifo, List.append_assoc]

theorem Keeps.notify (h : s.Keeps i n a) :
  (s.next i .notify).Keeps i n a.notify
  := by
  have hsem := h.isSem.semNotify
  have hpermits := h.permits
  rw [completed] at hpermits
  rw [next, hsem.linked, h.isSem.linked]
  rcases hwaiting : a.waiting with _ | ⟨t, ts⟩
  · obtain ⟨hcount', hwaiting'⟩ := Semaphore.notify_idle hwaiting
    refine ⟨hsem, ?_, ?_⟩
    · rw [completed, hcount', List.filter_nil, List.append_nil]
      dsimp only
      omega
    · rw [hwaiting', List.filter_nil, List.append_nil, ← hwaiting]
      apply h.fifo
  · obtain ⟨hcount', hwaiting'⟩ := Semaphore.notify_waiting hwaiting
    -- the first task that waited is the only one that left the queue
    have hleft : (t :: ts).filter (fun u => u ∉ a.notify.waiting) = [t] := by
      have hnodup := a.nodup
      rw [hwaiting, List.nodup_cons] at hnodup
      rw [hwaiting', List.filter_cons_of_pos (by simpa using hnodup.1), List.filter_eq_nil_iff.mpr]
      intro u hu
      simpa using hu
    rw [hleft]
    refine ⟨hsem, ?_, ?_⟩
    · rw [completed, hcount', List.length_append, List.length_singleton]
      dsimp only
      omega
    · rw [hwaiting']
      change s.blocked = s.granted ++ [t] ++ ts
      rw [h.fifo, hwaiting, List.append_assoc, List.singleton_append]

theorem Keeps.next (h : s.Keeps i n a) {e : SemEvent} (he : s.Enabled i e) :
  ∃ a', (s.next i e).Keeps i n a'
  := by
  cases e with
  | wait =>
      rw [Enabled, h.isSem.linked] at he
      exact ⟨_, h.wait he⟩
  | notify => exact ⟨_, h.notify⟩
  | other m =>
      refine ⟨a, ?_, h.permits, h.fifo⟩
      apply h.isSem.congr he.sem
      intro t ht
      apply he.node
      rw [h.isSem.linked]
      apply ht

/-- What a semaphore initialised with `n` guarantees. -/
structure Conserves (s : SemRun) (i n : Nat) : Prop where
  nonneg : 0 ≤ s.tasks.semCount i
  idle : 0 < s.tasks.semCount i → s.tasks.linked (.sem i) = []
  /-- The links of the queue lead through the waiting tasks, which its count counts. -/
  isList : IsList (s.tasks.node .waitNode) (s.tasks.sem i).waitList (s.tasks.linked (.sem i))
  permits : s.completed + s.tasks.semCount i = n + s.notifies
  /-- Those who blocked have been granted a permit, in this order, and the others wait, in
  this order. -/
  fifo : s.blocked = s.granted ++ s.tasks.linked (.sem i)

/-- In every run of calls the permits are conserved. -/
theorem conserves_of_reachable {s : SemRun} (h : (semCalls i n).Reachable (fun _ => True) s) :
  s.Conserves i n
  := by
  have hkeeps : ∃ a, s.Keeps i n a := by
    apply h.invariant (I := fun s => ∃ a, s.Keeps i n a)
    · intro s hinit
      exact ⟨_, Keeps.init hinit⟩
    · rintro s e _ ⟨a, ha⟩ - ⟨he, rfl⟩
      apply ha.next he
  obtain ⟨a, ha⟩ := hkeeps
  have hcount := ha.isSem.count
  have hlinked := ha.isSem.linked
  have hpermits := ha.permits
  constructor
  · rw [TaskManager.semCount, hcount]
    apply Int.natCast_nonneg
  · intro hpos
    rw [TaskManager.semCount, hcount] at hpos
    rw [hlinked]
    apply a.idle
    omega
  · rw [hlinked]
    apply ha.isSem.waiting
  · rw [TaskManager.semCount, hcount]
    omega
  · rw [hlinked]
    apply ha.fifo

/-- The calls on a semaphore from the start of the scheduler on. -/
def started : SemRun where
  tasks := Machine.started.tasks
  acquired := 0
  notifies := 0
  blocked := []
  granted := []

/-- The first task does not block, as the semaphore has been notified. -/
def passed : SemRun :=
  (started.next 0 .notify).next 0 .wait

/-- Another task starts and runs. -/
def switched : SemRun :=
  passed.next 0 (.other { passed.tasks.taskStart (.slot 0) with currTask := .slot 0 })

/-- It blocks. -/
def waits : SemRun :=
  switched.next 0 .wait

theorem conserves_started_notify :
  waits.tasks.linked (.sem 0) = [.slot 0] ∧ (waits.next 0 .notify).granted = [.slot 0]
    ∧ (waits.next 0 .notify).Conserves 0 0
  := by
  have hinit : (semCalls 0 0).Reachable (fun _ => True) started :=
    Reachable.init ⟨rfl, rfl, rfl, rfl, rfl⟩
  have hpassed : (semCalls 0 0).Reachable (fun _ => True) passed :=
    .step (a := .wait) (.step (a := .notify) hinit trivial ⟨trivial, rfl⟩) trivial
      ⟨(nomatch ·), rfl⟩
  have hswitched : (semCalls 0 0).Reachable (fun _ => True) switched :=
    .step (a := .other { passed.tasks.taskStart (.slot 0) with currTask := .slot 0 }) hpassed trivial
      ⟨⟨rfl, fun _ _ => rfl⟩, rfl⟩
  have hwaits : (semCalls 0 0).Reachable (fun _ => True) waits :=
    .step (a := .wait) hswitched trivial ⟨(nomatch ·), rfl⟩
  have hnotified : (semCalls 0 0).Reachable (fun _ => True) (waits.next 0 .notify) :=
    .step (a := .notify) hwaits trivial ⟨trivial, rfl⟩
  exact ⟨rfl, rfl, conserves_of_reachable hnotified⟩

end SemRun

end Dmos
