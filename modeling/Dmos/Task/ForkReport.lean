import Dmos.Kernel.FreePage
import Dmos.Task.Creating
import Dmos.Task.Machine
import Dmos.Task.Names

/-!
# What forking reports

`sys_fork` needs a frame for the kernel stack and one for a page directory, and then copies the
address space.  `memory_copy_uvm` reports a failure by the word `(uint32_t)-1`, which is not
below zero, so that the child is started without an address space.  What `sys_fork` returns is
right exactly when the copy is not reached or has all the frames it asks for
(`forkReport_iff`).
-/

open LinkedList

namespace Dmos

namespace Os

open TaskManager

variable {s : Os} {live : Set Nat} {child : TaskRef}

/-! ### Up to the copy -/

/-- The stack pointer of the child. -/
def forkEsp (s : Os) : Nat :=
  u32 ((s.kernel.syscallFrame (s.frameAddr s.tasks.currTask)).esp + 4 * syscallParamCount)

/-- The segment of the child, with `kernelStack` below its kernel stack. -/
def forkTss (s : Os) (kernelStack : Nat) : Tss :=
  s.startTss 0 (s.kernel.syscallFrame (s.frameAddr s.tasks.currTask)).eip s.forkEsp kernelStack

/-- The tasks with a child that is not started. -/
structure ChildMade (m m' : TaskManager) (child : TaskRef) : Prop where
  layout : m'.layout = m.layout
  currTask : m'.currTask = m.currTask
  other : ∀ t, t ≠ child → m'.task t = m.task t
  pid : (m'.task child).pid = asInt (m.layout.address child)
  readyList : m'.readyList = m.readyList
  runNode : m'.node .runNode = listNodeInit (m.node .runNode) child

/-- How far `sys_fork` gets before the copy. -/
inductive ForkInit (s : Os) (child : TaskRef) : Int × Os → Prop
  /-- There is no frame for the kernel stack. -/
  | noStack : s.kernel.free = [] →
      ForkInit s child (-1, { s with
        gdt := gdtFreeSel (s.tssDesc child) (gdtAllocDesc s.gdt)
        tasks := s.tasks.setTss child {} })
  /-- There is no frame for the page directory. -/
  | noDir {f : Nat} : s.kernel.free = [f] →
      ForkInit s child (-1, { s with
        kernel := s.kernel.take.addrFreePage f 1
        gdt := gdtFreeSel (s.tssDesc child) (gdtAllocDesc s.gdt)
        tasks := s.tasks.setTss child (s.forkTss f) })
  | created {f c : Nat} {rest : List Nat} {kernel : Kernel} {m : TaskManager} :
      s.kernel.free = f :: c :: rest → Kernel.Created s.kernel.take kernel c →
      ChildMade s.tasks m child →
      ForkInit s child (0, { s with kernel := kernel, gdt := s.tssDesc child, tasks := m })

theorem childMade (m : TaskManager) (task : Task) (name : List UInt8) (f : Task → Task)
    (hpid : ∀ t, (f t).pid = t.pid) :
  ChildMade m
    (((m.setTask child task).taskInitFields child name).setTask child
      (f (((m.setTask child task).taskInitFields child name).task child))) child
  where
  layout := by
    simp [taskInitFields, insertTaskList, setNode, setTask]
  currTask := by
    simp [taskInitFields, insertTaskList, setNode, setTask]
  other t ht := by
    simp [taskInitFields, insertTaskList, setNode, setTask, ht]
  pid := by
    rw [setTask_task_self, hpid]
    simp [taskInitFields, insertTaskList, setNode, setTask]
  readyList := by
    simp [taskInitFields, insertTaskList, setNode, setTask]
  runNode := by
    simp [taskInitFields, insertTaskList, setNode, setTask]

theorem sysFork_init_of_failed {s₁ : Os}
    (h : s.tssInit child 0 (s.kernel.syscallFrame (s.frameAddr s.tasks.currTask)).eip s.forkEsp
      = (-1, s₁)) :
  sysFork.init s s.tasks.currTask child = (-1, s₁)
  := by
  unfold forkEsp at h
  rw [sysFork.init]
  dsimp only
  rw [taskInit, h]
  rfl

theorem sysFork_init_of_made {s₁ : Os}
    (h : s.tssInit child 0 (s.kernel.syscallFrame (s.frameAddr s.tasks.currTask)).eip s.forkEsp
      = (0, s₁)) :
  sysFork.init s s.tasks.currTask child = (0, { s₁ with
    tasks :=
      (s₁.tasks.taskInitFields child (s.tasks.task s.tasks.currTask).name).setTask child
        { (s₁.tasks.taskInitFields child (s.tasks.task s.tasks.currTask).name).task child with
          tss := forkRegisters
            ((s₁.tasks.taskInitFields child (s.tasks.task s.tasks.currTask).name).task child).tss
            (s₁.kernel.syscallFrame (s.frameAddr s.tasks.currTask))
          parent := some s.tasks.currTask } })
  := by
  unfold forkEsp at h
  rw [sysFork.init]
  dsimp only
  rw [taskInit, h]
  rfl

/-- All that happens before the copy. -/
theorem sysFork_init_cases (s : Os) (child : TaskRef) (hr : RangeWf s.kernel.gPaddrAlloc) :
  ForkInit s child (sysFork.init s s.tasks.currTask child)
  := by
  have hinit := s.tssInit_eq child 0 (s.kernel.syscallFrame (s.frameAddr s.tasks.currTask)).eip
    s.forkEsp
  have hpos : ∀ f ∈ s.kernel.free, f ≠ 0 ∧ f < memoryTaskBase := by
    intro f hf
    have hbounds := hr.free_bounds hf
    unfold memExtStart at hbounds
    constructor <;> omega
  rcases hfree : s.kernel.free with _ | ⟨f, rest⟩
  · rw [Kernel.memoryAllocPage, Kernel.addrAllocPage_of_full hfree] at hinit
    rw [sysFork_init_of_failed hinit]
    apply ForkInit.noStack hfree
  · have hf := hpos f (by rw [hfree]; apply List.mem_cons_self)
    have hrest := Kernel.free_take hr hfree
    rw [Kernel.memoryAllocPage, Kernel.addrAllocPage_of_free hr hfree] at hinit
    dsimp only at hinit
    rw [if_neg hf.1] at hinit
    rcases rest with _ | ⟨c, rest⟩
    · rw [Kernel.memoryCreateUvm_of_full hrest] at hinit
      dsimp only at hinit
      rw [if_pos rfl, Kernel.memoryFreePage_of_lt hf.2] at hinit
      rw [sysFork_init_of_failed hinit]
      apply ForkInit.noDir hfree
    · have hc := hpos c (by rw [hfree]; apply List.mem_cons_of_mem _ List.mem_cons_self)
      obtain ⟨kernel, hcreate, hcreated⟩ :=
        Kernel.memoryCreateUvm_of_free (Kernel.rangeWf_take hr) hrest
      rw [hcreate] at hinit
      dsimp only at hinit
      rw [if_neg hc.1] at hinit
      rw [sysFork_init_of_made hinit]
      apply ForkInit.created hfree hcreated
      apply childMade s.tasks _ _ (fun task => { task with
        tss := forkRegisters task.tss (kernel.syscallFrame (s.frameAddr s.tasks.currTask))
        parent := some s.tasks.currTask })
      intro task
      rfl

/-! ### The child -/

/-- The child runs in a directory of its own with all pages of the parent. -/
structure Copied (s t : Os) (child : TaskRef) : Prop where
  ready : child ∈ t.tasks.linked .ready
  dir : t.kernel.Marked (t.tasks.task child).tss.cr3
  mapped : ∀ v, 524288 ≤ v → v < 2 ^ 20 → Present (pteAt s.kernel.mem s.currPageDir v) →
    Present (pteAt t.kernel.mem (t.tasks.task child).tss.cr3 v)

/-- What `sys_fork` returned is right. -/
structure ForkReport (s : Os) (r : Int) (t : Os) : Prop where
  success : r ≠ -1 → ∃ child, s.tasks.allocTask = some child ∧ Copied s t child
  failure : r = -1 → t.tasks.linked .ready = s.tasks.linked .ready

theorem forked_cr3 {s₁ : Os} {cr3 : Nat} {kernel : Kernel} :
  ((s₁.forked child cr3 kernel).tasks.task child).tss.cr3 = cr3
  := by
  rw [forked, taskStart, field_taskSetReady (f := fun task => task.tss.cr3) (fun _ _ => rfl),
    TaskManager.setTss, setTask_task_self]

/-- The child is linked last. -/
theorem linked_forked {s₁ : Os} {l : List TaskRef} {cr3 : Nat} {kernel : Kernel}
    (hl : IsList (s₁.tasks.node .runNode) s₁.tasks.readyList l) (hchild : child ∉ l)
    (hidle : child ≠ .idleTask) :
  (s₁.forked child cr3 kernel).tasks.linked .ready = l ++ [child]
  := by
  rw [forked, taskStart, taskSetReady, if_neg hidle]
  have hlist := (hl.insertLast hchild).nodes
  rw [← hlist]
  simp [linked, setState, setTask, TaskManager.setTss, insertLast, setNode, setList, list,
    ListRef.node]

/-- The list of ready tasks does not change when the links of another task do. -/
theorem ready_of_runNode {m m' : TaskManager} {l : List TaskRef}
    (hl : IsList (m.node .runNode) m.readyList l) (hchild : child ∉ l)
    (hlist : m'.readyList = m.readyList)
    (hnode : m'.node .runNode = listNodeInit (m.node .runNode) child) :
  IsList (m'.node .runNode) m'.readyList l
  := by
  rw [hlist, hnode]
  apply hl.congr
  intro t ht
  apply listNodeInit_of_ne
  rintro rfl
  apply hchild ht

/-- A child that is given up leaves the list of ready tasks as it is. -/
theorem linked_forkFailed {s₁ : Os} {l : List TaskRef}
    (hl : IsList (s₁.tasks.node .runNode) s₁.tasks.readyList l) (hchild : child ∉ l) :
  (s₁.forkFailed child).2.tasks.linked .ready = l
  := by
  have htasks : (s₁.forkFailed child).2.tasks = (s₁.tasks.clearTask child).freeTask child := by
    simp only [forkFailed, taskUninit]
    split_ifs <;> rfl
  have hlist : IsList (((s₁.tasks.clearTask child).freeTask child).node .runNode)
      ((s₁.tasks.clearTask child).freeTask child).readyList l := by
    apply ready_of_runNode hl hchild
    · simp [TaskManager.freeTask, TaskManager.clearTask, setTask, setNode]
    · simp [TaskManager.freeTask, TaskManager.clearTask, setTask, setNode]
  rw [htasks]
  apply hlist.nodes

/-! ### Reports -/

theorem slot_of_allocTask (h : s.tasks.allocTask = some child) :
  ∃ i, child = .slot i
  := by
  rw [allocTask_eq, Option.map_eq_some_iff] at h
  obtain ⟨i, -, rfl⟩ := h
  use i

/-- The address of a child is no error. -/
theorem asInt_address_ne (h : s.tasks.allocTask = some child) :
  asInt (s.tasks.layout.address child) ≠ -1
  := by
  obtain ⟨i, rfl⟩ := slot_of_allocTask h
  have hend := s.tasks.layout.gTaskTable_end
  unfold memExtStart at hend
  rw [TaskLayout.address, asInt, if_pos (by omega)]
  omega

section Report

variable (hf : Kernel.Frames s.kernel live) (hp : s.currPageDir ∈ live)
  (hcr3 : s.kernel.cr3 = s.currPageDir) (hcurr : s.tasks.allocTask ≠ some s.tasks.currTask)

include hf hp hcr3 hcurr

/-- The copy for a child starts from the parent's pages, with two frames less. -/
theorem copy_of_created {f c : Nat} {rest : List Nat} {kernel : Kernel} {m : TaskManager}
    (hchild : s.tasks.allocTask = some child) (hfree : s.kernel.free = f :: c :: rest)
    (hcreated : Kernel.Created s.kernel.take kernel c) (hmade : ChildMade s.tasks m child) :
  Kernel.Frames kernel (insert c live) ∧ (m.task s.tasks.currTask).tss.cr3 = s.currPageDir
    ∧ kernel.cr3 = s.currPageDir ∧ kernel.free = rest
    ∧ Kernel.userPages kernel.mem s.currPageDir = Kernel.userPages s.kernel.mem s.currPageDir
  := by
  have htake := hf.take hfree
  have hrest := Kernel.free_take hf.range hfree
  refine ⟨htake.created hrest hcreated, ?_, ?_, hcreated.free htake.range hrest, ?_⟩
  · rw [hmade.other]
    · rfl
    · rintro heq
      apply hcurr
      rw [heq, hchild]
  · rw [hcreated.cr3, ← hcr3]
    rfl
  · apply Kernel.userPages_created hcreated htake hrest hp

/-- What `sys_fork` returns is right when there are frames for the copy, or too few to get
there. -/
theorem forkReport_of_frames {l : List TaskRef} {t : Os} {r : Int}
    (hready : IsList (s.tasks.node .runNode) s.tasks.readyList l)
    (hchild : s.tasks.allocTask = some child) (hlinked : child ∉ l)
    (hframes : s.kernel.free.length < 2
      ∨ 2 + (Kernel.copyAsks (Kernel.userPages s.kernel.mem s.currPageDir)).length
        ≤ s.kernel.free.length)
    (hfork : s.sysFork = .ok (r, t)) :
  ForkReport s r t
  := by
  obtain ⟨err, s₁, hinit, hcase⟩ := sysFork_cases hfork hchild
  have hcases := sysFork_init_cases s child hf.range
  rw [hinit] at hcases
  have hfailed {s₂ : Os} (heq : s₂.forkFailed child = (r, t))
      (hlist : IsList (s₂.tasks.node .runNode) s₂.tasks.readyList l) : ForkReport s r t := by
    obtain rfl : -1 = r := congrArg Prod.fst heq
    constructor
    · intro hne
      cases hne rfl
    · intro _
      obtain rfl : _ = t := congrArg Prod.snd heq
      rw [linked_forkFailed hlist hlinked]
      exact hready.nodes.symm
  cases hcases with
  | noStack hfree =>
      rcases hcase with ⟨-, heq⟩ | ⟨hneg, -⟩
      · apply hfailed heq hready
      · omega
  | noDir hfree =>
      rcases hcase with ⟨-, heq⟩ | ⟨hneg, -⟩
      · apply hfailed heq hready
      · omega
  | @created f c rest kernel m hfree hcreated hmade =>
      rcases hcase with ⟨hneg, -⟩ | ⟨-, cr3, kernel', hcopy, hr, rfl⟩
      · omega
      · obtain ⟨hf', hdir, hcr3', hrest, hpages⟩ :=
          copy_of_created hf hp hcr3 hcurr hchild hfree hcreated hmade
        have hp' : s.currPageDir ∈ insert c live := Set.mem_insert_of_mem c hp
        have hslot := slot_of_allocTask hchild
        dsimp only at hcopy hr
        rw [hdir] at hcopy
        have hlength : (Kernel.copyAsks (Kernel.userPages kernel.mem s.currPageDir)).length
            ≤ kernel.free.length := by
          rw [hfree, List.length_cons, List.length_cons] at hframes
          rw [hpages, hrest]
          omega
        obtain ⟨cr3', t, hcopy', -, hfaithful⟩ :=
          Kernel.memoryCopyUvm_of_enough hf' hp' hcr3' hlength
        have hne := hfaithful.ne_errorWord hf'.range
        rw [hcopy', Except.ok.injEq, Prod.mk.injEq] at hcopy
        obtain ⟨rfl, rfl⟩ := hcopy
        constructor
        · intro _
          use child, hchild
          constructor
          · obtain ⟨i, rfl⟩ := hslot
            rw [linked_forked (ready_of_runNode hready hlinked hmade.readyList hmade.runNode)
              hlinked (by simp)]
            simp
          · rw [forked_cr3]
            apply Kernel.marked_memoryCopyUvm hf' hp' (hcr3' ▸ hp') hcopy' hne
          · intro v hlo hv hpresent
            rw [forked_cr3]
            apply (hfaithful.present v hlo hv).mpr
            rw [hcreated.pteAt_live (hf.take hfree) (Kernel.free_take hf.range hfree) hp (by omega)
              hv]
            apply hpresent
        · intro heq
          cases asInt_address_ne hchild (hmade.pid.symm.trans (hr.symm.trans heq))

/-- Without the frames for the copy the child is started, and its directory is none. -/
theorem sysFork_of_short (hchild : s.tasks.allocTask = some child)
    (htwo : 2 ≤ s.kernel.free.length)
    (hshort : s.kernel.free.length
      < 2 + (Kernel.copyAsks (Kernel.userPages s.kernel.mem s.currPageDir)).length) :
  ∃ r t, s.sysFork = .ok (r, t) ∧ r ≠ -1 ∧ ¬ t.kernel.Marked (t.tasks.task child).tss.cr3
  := by
  have hcases := sysFork_init_cases s child hf.range
  generalize hinit : sysFork.init s s.tasks.currTask child = p at hcases
  cases hcases with
  | noStack hnone =>
      rw [hnone] at htwo
      cases htwo
  | noDir hone =>
      rw [hone, List.length_singleton] at htwo
      omega
  | @created f c rest kernel m hfree hcreated hmade =>
      obtain ⟨hf', hdir, hcr3', hrest, hpages⟩ :=
        copy_of_created hf hp hcr3 hcurr hchild hfree hcreated hmade
      have hlength : kernel.free.length
          < (Kernel.copyAsks (Kernel.userPages kernel.mem s.currPageDir)).length := by
        rw [hfree, List.length_cons, List.length_cons] at hshort
        rw [hpages, hrest]
        omega
      obtain ⟨kernel', hcopy, hrange⟩ :=
        Kernel.memoryCopyUvm_of_short hf' (Set.mem_insert_of_mem c hp) hcr3' hlength
      have hfork := sysFork_of_copied hchild hinit (le_refl 0)
        (show kernel.memoryCopyUvm (m.task s.tasks.currTask).tss.cr3 = _ by rw [hdir, hcopy])
      refine ⟨_, _, hfork, ?_, ?_⟩
      · rw [hmade.pid]
        apply asInt_address_ne hchild
      · rw [forked_cr3]
        intro hmarked
        cases (hrange.marked_bounds hmarked).1

/-- What `sys_fork` returned is right, whatever it returns, exactly when there is no entry for a
child, when it does not get to the copy, or when the copy has all the frames it asks for. -/
theorem forkReport_iff {l : List TaskRef}
    (hready : IsList (s.tasks.node .runNode) s.tasks.readyList l)
    (hlinked : ∀ t, s.tasks.allocTask = some t → t ∉ l) :
  (∀ r t, s.sysFork = .ok (r, t) → ForkReport s r t) ↔
    s.tasks.allocTask = none ∨ s.kernel.free.length < 2
      ∨ 2 + (Kernel.copyAsks (Kernel.userPages s.kernel.mem s.currPageDir)).length
        ≤ s.kernel.free.length
  := by
  rcases hchild : s.tasks.allocTask with _ | child
  · constructor
    · intro _
      exact .inl rfl
    · rintro - r t hfork
      rw [sysFork, hchild] at hfork
      cases hfork
      constructor
      · intro hne
        cases hne rfl
      · intro _
        rfl
  · constructor
    · intro hreport
      by_contra hnot
      simp only [not_or, Nat.not_lt, Nat.not_le] at hnot
      obtain ⟨-, htwo, hshort⟩ := hnot
      obtain ⟨r, t, hfork, hpid, hdir⟩ :=
        sysFork_of_short hf hp hcr3 hcurr hchild htwo hshort
      obtain ⟨child', hchild', hcopied⟩ := (hreport r t hfork).success hpid
      obtain rfl : child = child' := Option.some.inj (hchild.symm.trans hchild')
      apply hdir hcopied.dir
    · rintro (hnone | hframes) r t hfork
      · cases hnone
      · apply forkReport_of_frames hf hp hcr3 hcurr hready hchild (hlinked child hchild) hframes
          hfork

end Report

/-! ### A parent with one page -/

/-- The first task with one user page. -/
def onePage (pages : Nat) : Os where
  kernel := Kernel.bootPage pages
  fs := .low fun _ => 0
  gdt _ := {}
  tasks := Machine.started.tasks.setTss .firstTask { cr3 := 1024 * 1024 }

theorem allocTask_onePage (pages : Nat) :
  (onePage pages).tasks.allocTask = some (.slot 0)
  := by
  change (Machine.started.tasks.setTss .firstTask { cr3 := 1024 * 1024 }).allocTask = _
  decide +kernel

theorem currPageDir_onePage (pages : Nat) :
  (onePage pages).currPageDir = 1024 * 1024
  := by
  change (((Machine.started.tasks.setTss .firstTask { cr3 := 1024 * 1024 }).task
    .firstTask).tss.cr3) = _
  rw [TaskManager.setTss, setTask_task_self]

theorem allocTask_ne_onePage (pages : Nat) :
  (onePage pages).tasks.allocTask ≠ some (onePage pages).tasks.currTask
  := by
  rw [allocTask_onePage]
  change _ ≠ some TaskRef.firstTask
  decide

theorem ready_onePage (pages : Nat) :
  IsList ((onePage pages).tasks.node .runNode) (onePage pages).tasks.readyList [.firstTask]
  := by
  constructor
  · rfl
  · rfl
  · rfl
  · apply List.nodup_singleton
  · change Chain (Machine.started.tasks.node .runNode) none [.firstTask] none
    exact ⟨by decide, by decide, trivial⟩

theorem forkReport_onePage :
  (onePage 9).kernel.free.length = 6
    ∧ ∀ r t, (onePage 9).sysFork = .ok (r, t) → ForkReport (onePage 9) r t
  := by
  use Kernel.bootPage_free_length (by decide) (by decide)
  have hf : Kernel.Frames (onePage 9).kernel {1024 * 1024} :=
    Kernel.bootPage_frames (by decide) (by decide)
  apply (forkReport_iff hf (currPageDir_onePage 9) (currPageDir_onePage 9).symm
    (allocTask_ne_onePage 9) (ready_onePage 9) (by rw [allocTask_onePage]; rintro t ⟨⟩; decide)).mpr
  right
  right
  rw [currPageDir_onePage]
  dsimp only [onePage]
  rw [Kernel.bootPage_userPages (by decide) (by decide),
    Kernel.bootPage_free_length (by decide) (by decide)]
  decide

/-- With four frames the child of a task with one page is started without an address space. -/
theorem not_forkReport_onePage :
  ∃ r t, (onePage 7).sysFork = .ok (r, t) ∧ r ≠ -1
    ∧ ¬ t.kernel.Marked (t.tasks.task (.slot 0)).tss.cr3 ∧ ¬ ForkReport (onePage 7) r t
  := by
  have hf : Kernel.Frames (onePage 7).kernel {1024 * 1024} :=
    Kernel.bootPage_frames (by decide) (by decide)
  have hlength : (onePage 7).kernel.free.length = 4 :=
    Kernel.bootPage_free_length (by decide) (by decide)
  have hpages : Kernel.userPages (onePage 7).kernel.mem (1024 * 1024) = [524288] :=
    Kernel.bootPage_userPages (by decide) (by decide)
  obtain ⟨r, t, hfork, hr, hdir⟩ := sysFork_of_short hf (currPageDir_onePage 7)
    (currPageDir_onePage 7).symm (allocTask_ne_onePage 7) (allocTask_onePage 7)
    (by rw [hlength]; decide)
    (by rw [currPageDir_onePage, hpages, hlength]; decide)
  use r, t, hfork, hr, hdir
  intro hreport
  obtain ⟨child, hchild, hcopied⟩ := hreport.success hr
  rw [allocTask_onePage, Option.some.injEq] at hchild
  rw [← hchild] at hcopied
  apply hdir hcopied.dir

end Os

end Dmos
