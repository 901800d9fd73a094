import Dmos.Kernel.CreateMap
import Dmos.Task.UserFork

/-!
# The kernel half under system calls

Tasks run, call `sys_fork`, `sys_execve` and `sys_sbrk`, and their children do the same
(`userTasks`).  As long as the calls stay inside of the callers' address spaces (`CallInside`), the
entries for the addresses of the kernel are what they were (`kernelHalfKept_of_reachable`): the
induction is on the run, and carries a directory of its own for each task (`Users`).

A forked child does not stay inside: its heap starts at address zero.
-/

open ByteMemory AddressSpace

namespace Dmos

namespace Os

open Kernel

variable {s t : Os} {live : Set Nat} {users : Set TaskRef} {x : TaskRef}

/-! ### Runs -/

/-- The task `x` is dispatched and runs for a while: its own pages, its kernel stack and memory
below the frames may be written. -/
structure Runs (s : Os) (x : TaskRef) (t : Os) : Prop where
  currTask : t.tasks.currTask = x
  kernel : t.kernel = (s.kernel.setMem t.kernel.mem).mmuSetPageDir (s.tasks.task x).tss.cr3
  mem : ∀ y, ¬ s.kernel.Harmless (s.tasks.task x).tss.cr3
    ((s.tasks.task x).tss.esp0 - memPageSize) y → t.kernel.mem y = s.kernel.mem y
  tempAddr : t.fs.tempAddr = s.fs.tempAddr
  name : ∀ y, (t.tasks.task y).name = (s.tasks.task y).name
  cr3 : ∀ y, (t.tasks.task y).tss.cr3 = (s.tasks.task y).tss.cr3
  esp0 : ∀ y, (t.tasks.task y).tss.esp0 = (s.tasks.task y).tss.esp0
  heapStart : ∀ y, (t.tasks.task y).heapStart = (s.tasks.task y).heapStart
  heapEnd : ∀ y, (t.tasks.task y).heapEnd = (s.tasks.task y).heapEnd

theorem Users.runs (h : Users s live users) (hx : x ∈ users) (hruns : Runs s x t) :
  Spares s.kernel live t.kernel live ∧ Users t live users
  := by
  obtain ⟨stack, hstack, hreserved, hnot⟩ := h.stack x hx
  have hmem := hruns.mem
  rw [hstack, Nat.add_sub_cancel] at hmem
  have hspares := h.toGuarded.written (h.dir x hx) hreserved hmem hnot
  have hframes := frames_of_harmless h.toFrames (h.dir x hx) hreserved hmem
  have hguarded := (hspares.guarded h.toGuarded hframes).mmuSetPageDir (s.tasks.task x).tss.cr3
  have hall := hspares.mmuSetPageDir (s.tasks.task x).tss.cr3
  rw [← hruns.kernel] at hguarded hall
  use hall
  apply h.replace hall hguarded hruns.tempAddr
  · intro y _
    apply hruns.esp0
  · intro y hy
    rw [hruns.cr3]
    apply h.dir y hy
  · intro y hy z hz
    rw [hruns.cr3, hruns.cr3]
    apply h.own y hy z hz

/-- A task of `users` is in a system call. -/
structure InCall (s : Os) (users : Set TaskRef) : Prop where
  user : s.tasks.currTask ∈ users
  cr3 : s.kernel.cr3 = s.currPageDir

/-- What tasks do. -/
inductive TaskEvent where
  | run (x : TaskRef)
  | fork
  | execve (l : Locals) (tty : Tty) (name argv : Nat)
  | sbrk (incr : Nat)

/-- One thing that one of the tasks does, with the tasks there are after it: the tasks of before
and their children. -/
inductive TaskStep : Os × Set TaskRef → TaskEvent → Os × Set TaskRef → Prop where
  | run {s t : Os} {users : Set TaskRef} {x : TaskRef} : x ∈ users → s.Runs x t →
      TaskStep (s, users) (.run x) (t, users)
  | fork {s t : Os} {users : Set TaskRef} {r : Int} : s.InCall users → s.sysFork = .ok (r, t) →
      TaskStep (s, users) .fork (t, users ∪ s.children r)
  | execve {s t : Os} {users : Set TaskRef} {l : Locals} {tty : Tty} {name argv : Nat} {r : Int} :
      s.InCall users → l.On ((s.tasks.task s.tasks.currTask).tss.esp0 - memPageSize) →
      tty.fd ≠ tempFileId → s.sysExecve l tty name argv = .ok (r, t) →
      TaskStep (s, users) (.execve l tty name argv) (t, users)
  | sbrk {s t : Os} {users : Set TaskRef} {incr a : Nat} : s.InCall users → incr < 2 ^ 31 →
      s.sysSbrk incr = (a, t) → TaskStep (s, users) (.sbrk incr) (t, users)

/-- The runs of `users₀` and their children from `s₀` on. -/
def userTasks (s₀ : Os) (users₀ : Set TaskRef) : TransitionSystem (Os × Set TaskRef) TaskEvent where
  init p := p = (s₀, users₀)
  step := TaskStep

/-- A call has its frames, its program and its heap inside of the caller's address space. -/
def CallInside (p : Os × Set TaskRef) : TaskEvent → Prop
  | .run _ => True
  | .fork => p.1.ForkInside p.2
  | .execve _ _ name argv => p.1.ExecInside name argv
  | .sbrk incr => p.1.HeapInside incr

/-- The present entries for addresses of the kernel are as they were in `s₀`, in the kernel's
directory and in those of the tasks. -/
structure KernelHalfKept (s₀ : Os) (p : Os × Set TaskRef) : Prop where
  base : ∀ v < 2 ^ 19, Present (pteAt s₀.kernel.mem s₀.kernel.layout.gKernelPageDir v) →
    pteAt p.1.kernel.mem p.1.kernel.layout.gKernelPageDir v
      = pteAt s₀.kernel.mem s₀.kernel.layout.gKernelPageDir v
  dirs : ∀ x ∈ p.2, ∀ v < 2 ^ 19,
    Present (pteAt s₀.kernel.mem s₀.kernel.layout.gKernelPageDir v) →
    pteAt p.1.kernel.mem (p.1.tasks.task x).tss.cr3 v
      = pteAt s₀.kernel.mem s₀.kernel.layout.gKernelPageDir v

variable {s₀ : Os} {users₀ : Set TaskRef} {p p' : Os × Set TaskRef} {e : TaskEvent}

/-- One step keeps the address spaces apart and leaves the kernel half alone. -/
theorem Users.step (h : Users p.1 live p.2) (hinside : CallInside p e) (hstep : TaskStep p e p') :
  ∃ live', Spares p.1.kernel live p'.1.kernel live' ∧ Users p'.1 live' p'.2
  := by
  cases hstep with
  | run hx hruns => exact ⟨live, h.runs hx hruns⟩
  | fork hcall hfork => exact h.sysFork hcall.user hcall.cr3 hinside hfork
  | execve hcall hl hfd hexec =>
      apply h.sysExecve hcall.user _ hl hfd hinside hexec
      rw [hcall.cr3]
      apply h.dir _ hcall.user
  | sbrk hcall _ hsbrk => exact ⟨live, h.sysSbrk hcall.user hinside hsbrk⟩

/-- The address spaces are kept apart in all runs. -/
theorem Users.of_reachable (h : Users s₀ live users₀)
    (hp : ((userTasks s₀ users₀).restrict CallInside).Reachable (fun _ => True) p) :
  ∃ live', Spares s₀.kernel live p.1.kernel live' ∧ Users p.1 live' p.2
  := by
  apply hp.invariant (I := fun p => ∃ live', Spares s₀.kernel live p.1.kernel live'
    ∧ Users p.1 live' p.2)
  · rintro _ rfl
    exact ⟨live, Spares.refl _ _, h⟩
  · rintro p e p' ⟨live', hspares, husers⟩ - ⟨hinside, hstep⟩
    obtain ⟨live'', hspares', husers'⟩ := husers.step hinside hstep
    exact ⟨live'', hspares.trans hspares', husers'⟩

/-- In a run whose calls all stay inside, the entries of the kernel half stay as they are. -/
theorem kernelHalfKept_of_reachable (h : Users s₀ live users₀)
    (hp : ((userTasks s₀ users₀).restrict CallInside).Reachable (fun _ => True) p) :
  KernelHalfKept s₀ p
  := by
  obtain ⟨live', hspares, husers⟩ := h.of_reachable hp
  constructor
  · intro v hv _
    apply hspares.pteAt_eq hv
  · intro x hx v hv _
    rw [husers.toFrames.pteAt_kernel (husers.dir x hx) hv]
    apply hspares.pteAt_eq hv

end Os

/-! ### A first task -/

namespace Kernel

/-- A kernel that has mapped its first page. -/
def kernelPage : Kernel :=
  ((boot 12).memoryCreateMap 0x5000 0 0 1 pteW).2

theorem boot_free_cons :
  (boot 12).free = 0x100000 :: 0x101000 :: 0x102000
    :: (List.range 9).map fun i => 0x103000 + i * 4096
  := by
  rw [boot_free]
  rfl

theorem kernelPage_eq :
  kernelPage = ((boot 12).take.setMem (Nodes.install (boot 12).mem 0x5000 0 0x100000)).store
    0x100000 3
  := by
  have hnone : tableAt (boot 12).mem 0x5000 (0 / 4096 / 1024) = none := by
    rw [tableAt_eq_none_iff]
    decide
  rw [kernelPage, memoryCreateMap_one,
    findPte_of_free (boot_rangeWf (by decide)) hnone boot_free_cons]
  rfl

theorem kernelPage_free :
  kernelPage.free = 0x101000 :: 0x102000 :: (List.range 9).map fun i => 0x103000 + i * 4096
  := by
  rw [kernelPage_eq]
  exact free_take (boot_rangeWf (show 12 ≤ 1000 by decide)) boot_free_cons

/-- The table of the first page is the only one. -/
theorem tableAt_kernelPage {i : Nat} (hi : i < 1024) :
  tableAt kernelPage.mem 0x5000 i = if i = 0 then some 0x100000 else none
  := by
  have hmem : 0x100000 ∈ (boot 12).free := by
    rw [boot_free_cons]
    apply List.mem_cons_self
  have hsame : SameFrame (Nodes.install (boot 12).mem 0x5000 0 0x100000) kernelPage.mem 0x5000 := by
    rw [kernelPage_eq]
    exact sameFrame_store32 (f := 0x5000) (g := 0x100000) (k := 0) _ 3 (by decide) (by decide)
      (by decide) (by decide)
  rw [tableAt_congr hsame hi, (boot_distinct 12).tableAt_install rfl (by decide) (by decide)
    (by decide) hmem rfl hi]
  have hnone : tableAt (boot 12).mem 0x5000 i = none := by
    rw [tableAt_eq_none_iff]
    change ¬ Present 0
    decide
  simp [hnone]

theorem pteAt_kernelPage :
  pteAt kernelPage.mem 0x5000 0 = 3
  := by
  have htable := tableAt_kernelPage (i := 0 / 1024) (by decide)
  rw [if_pos (by decide)] at htable
  rw [pteAt_of_table htable, kernelPage_eq]
  apply load32_store32 _ _ (by decide)

theorem kernelPage_base :
  kernelPage.layout.gKernelPageDir = 0x5000
  := by
  rw [kernelPage_eq]
  rfl

theorem kernelTables_kernelPage {g : Nat} (hg : g ∈ kernelPage.kernelTables) :
  g = 0x100000
  := by
  obtain ⟨i, hi, ht⟩ := hg
  rw [kernelPage_base, tableAt_kernelPage (by omega)] at ht
  split_ifs at ht
  cases ht
  rfl

theorem guarded_kernelPage :
  Guarded kernelPage ∅
  := by
  have hrange : RangeWf kernelPage.gPaddrAlloc := by
    rw [kernelPage_eq]
    exact rangeWf_take (boot_rangeWf (show 12 ≤ 1000 by decide))
  refine ⟨Frames.empty hrange, ?_⟩
  intro g hg
  obtain rfl := kernelTables_kernelPage hg
  constructor
  · rw [kernelPage_eq]
    exact (marked_take (boot_rangeWf (by decide)) boot_free_cons _).mpr (.inr rfl)
  · rintro (d | ⟨d, i⟩ | ⟨d, v⟩) hq
    · cases hq.1
    · cases hq.1
    · cases hq.1

/-- With a kernel stack and a directory for a task. -/
def userKernel : Kernel :=
  kernelPage.take.memoryCreateUvm.2.mmuSetPageDir 0x102000

theorem userKernel_created :
  ∃ k, userKernel = k.mmuSetPageDir 0x102000 ∧ Created kernelPage.take k 0x102000
  := by
  have hrange := guarded_kernelPage.range
  have hrest := free_take hrange kernelPage_free
  obtain ⟨k, hcreate, hc⟩ := memoryCreateUvm_of_free (rangeWf_take hrange) hrest
  use k
  rw [userKernel, hcreate]
  exact ⟨rfl, hc⟩

theorem userKernel_base :
  userKernel.layout.gKernelPageDir = 0x5000
  := by
  obtain ⟨k, heq, hc⟩ := userKernel_created
  rw [heq]
  change k.layout.gKernelPageDir = _
  rw [hc.layout, take_layout, kernelPage_base]

theorem spares_userKernel :
  Spares kernelPage ∅ userKernel {0x102000} ∧ Guarded userKernel {0x102000}
    ∧ userKernel.Reserved {0x102000} 0x101000 ∧ 0x101000 ∉ userKernel.kernelTables
    ∧ userKernel.free = (List.range 9).map (fun i => 0x103000 + i * 4096)
    ∧ userPages userKernel.mem 0x102000 = []
  := by
  obtain ⟨k, heq, hc⟩ := userKernel_created
  have hg := guarded_kernelPage
  have hrest := free_take hg.range kernelPage_free
  obtain ⟨htake, hstack⟩ := hg.take kernelPage_free
  have hguarded := htake.guarded hg (hg.toFrames.take kernelPage_free)
  have hcreates := hguarded.created hrest hc
  have hguarded' := hcreates.guarded hguarded (hguarded.toFrames.created hrest hc)
  have hall := htake.trans hcreates
  have hreserved := hcreates.reserved _ hstack
  rw [insert_empty_eq] at hall hguarded' hreserved
  have hspares := hall.mmuSetPageDir 0x102000
  rw [heq]
  refine ⟨hspares, hguarded'.mmuSetPageDir _, ⟨hreserved.marked, hreserved.unowned⟩, ?_, ?_, ?_⟩
  · rw [hspares.kernelTables_eq]
    intro hin
    cases kernelTables_kernelPage hin
  · exact hc.free hguarded.range hrest
  · apply List.eq_nil_iff_forall_not_mem.mpr
    intro v hv
    obtain ⟨hrange, hpresent⟩ := mem_presentPages.mp hv
    rw [show (k.mmuSetPageDir 0x102000).mem = k.mem from rfl,
      hc.pteAt (by omega) (by omega)] at hpresent
    cases hpresent

end Kernel

namespace Os

open Kernel

/-- The first task over this kernel. -/
def firstUser : Os where
  kernel := userKernel
  fs := .low fun _ => 0
  gdt _ := {}
  tasks := Machine.started.tasks.setTss .firstTask { esp0 := 0x102000, cr3 := 0x102000 }

theorem tss_firstUser :
  (firstUser.tasks.task .firstTask).tss = { esp0 := 0x102000, cr3 := 0x102000 }
  := by
  change ((Machine.started.tasks.setTss .firstTask
    { esp0 := 0x102000, cr3 := 0x102000 }).task .firstTask).tss = _
  rw [TaskManager.setTss, TaskManager.setTask_task_self]

theorem currPageDir_firstUser :
  firstUser.currPageDir = 0x102000
  := by
  change (firstUser.tasks.task .firstTask).tss.cr3 = _
  rw [tss_firstUser]

theorem allocTask_firstUser :
  firstUser.tasks.allocTask = some (.slot 0)
  := by
  change (Machine.started.tasks.setTss .firstTask
    { esp0 := 0x102000, cr3 := 0x102000 }).allocTask = _
  decide +kernel

theorem users_firstUser :
  Users firstUser {0x102000} {.firstTask}
  := by
  obtain ⟨-, hguarded, hreserved, hnot, -, -⟩ := spares_userKernel
  refine ⟨hguarded, ?_, ⟨by decide, ?_⟩, ?_, ?_, ?_⟩
  · change memPageSize ≤ userKernel.layout.gKernelPageDir
    rw [userKernel_base]
    decide
  · change Separate (_, _) (userKernel.layout.gKernelPageDir, _)
    rw [userKernel_base]
    right
    decide
  · rintro x rfl
    rw [tss_firstUser]
    rfl
  · rintro x rfl y rfl _
    rfl
  · rintro x rfl
    refine ⟨0x101000, ?_, hreserved, hnot⟩
    rw [tss_firstUser]
    rfl

theorem forkInside_firstUser :
  firstUser.ForkInside {.firstTask}
  := by
  obtain ⟨-, -, -, -, hfree, hnone⟩ := spares_userKernel
  intro child hchild
  rw [allocTask_firstUser, Option.some.injEq] at hchild
  subst hchild
  refine ⟨by decide, .inr (.inr ?_)⟩
  rw [currPageDir_firstUser, show firstUser.kernel = userKernel from rfl, hnone, hfree]
  decide

/-- Its child, which may grow its heap. -/
theorem sysFork_firstUser :
  ∃ r t, firstUser.sysFork = .ok (r, t) ∧ r ≠ -1
    ∧ t.kernel.free = (List.range 6).map (fun i => 0x106000 + i * 4096)
    ∧ (t.tasks.task (.slot 0)).heapEnd = 0
  := by
  obtain ⟨-, hguarded, -, -, hfree, hnone⟩ := spares_userKernel
  have hframes : Frames firstUser.kernel {0x102000} := hguarded.toFrames
  apply sysFork_of_no_pages hframes currPageDir_firstUser currPageDir_firstUser.symm
    allocTask_firstUser
  · change TaskRef.firstTask ≠ _
    decide
  · rw [currPageDir_firstUser, show firstUser.kernel = userKernel from rfl, hnone]
  · rw [show firstUser.kernel = userKernel from rfl, hfree]
    rfl

theorem inCall_firstUser :
  InCall firstUser {.firstTask}
  := ⟨rfl, currPageDir_firstUser.symm⟩

theorem kernelHalfKept_firstUser :
  ∃ r t, firstUser.sysFork = .ok (r, t) ∧ r ≠ -1
    ∧ KernelHalfKept firstUser (t, {.firstTask} ∪ firstUser.children r)
  := by
  obtain ⟨r, t, hfork, hr, -⟩ := sysFork_firstUser
  refine ⟨r, t, hfork, hr, ?_⟩
  apply kernelHalfKept_of_reachable users_firstUser
  have hinit : ((userTasks firstUser {.firstTask}).restrict CallInside).Reachable (fun _ => True)
      (firstUser, {.firstTask}) := .init rfl
  apply hinit.step (a := .fork) trivial
  exact ⟨forkInside_firstUser, .fork inCall_firstUser hfork⟩

/-- The task `x` is dispatched. -/
def dispatched (s : Os) (x : TaskRef) : Os :=
  { s with
    kernel := s.kernel.mmuSetPageDir (s.tasks.task x).tss.cr3
    tasks := { s.tasks with currTask := x } }

theorem runs_dispatched (s : Os) (x : TaskRef) :
  Runs s x (s.dispatched x)
  := ⟨rfl, rfl, fun _ _ => rfl, rfl, fun _ => rfl, fun _ => rfl, fun _ => rfl, fun _ => rfl,
    fun _ => rfl⟩

/-- The first task and its child, which runs and has no heap yet. -/
theorem reachable_child :
  ∃ live users s, Spares kernelPage ∅ s.kernel live ∧ Users s live users
    ∧ s.tasks.currTask ∈ users ∧ s.kernel.cr3 = s.currPageDir ∧ s.heapEnd = 0
    ∧ s.kernel.free = (List.range 6).map (fun i => 0x106000 + i * 4096)
    ∧ (userTasks firstUser {.firstTask}).Reachable (fun _ => True) (s, users)
  := by
  obtain ⟨r, t, hfork, hr, hfree, hheap⟩ := sysFork_firstUser
  have hstep : TaskStep (firstUser, {.firstTask}) .fork (t, {.firstTask} ∪ firstUser.children r) :=
    .fork inCall_firstUser hfork
  have hinside : CallInside (firstUser, {TaskRef.firstTask}) .fork := forkInside_firstUser
  obtain ⟨live, hspares, husers⟩ := users_firstUser.step hinside hstep
  have hchild : TaskRef.slot 0 ∈ {.firstTask} ∪ firstUser.children r :=
    .inr ⟨allocTask_firstUser, hr⟩
  have hruns := runs_dispatched t (.slot 0)
  obtain ⟨hspares', husers'⟩ := husers.runs hchild hruns
  exact ⟨live, _, t.dispatched (.slot 0), (spares_userKernel.1.trans hspares).trans hspares',
    husers', hchild, rfl, hheap, hfree,
    .step (.step (.init rfl) trivial hstep) trivial (.run hchild hruns)⟩

/-- The child asks for a page of heap, and the entry of the kernel's first page goes to a frame of
its own. -/
theorem not_kernelHalfKept_firstUser :
  Users firstUser {0x102000} {.firstTask} ∧ ∃ p,
    (userTasks firstUser {.firstTask}).Reachable (fun _ => True) p ∧ ¬ KernelHalfKept firstUser p
  := by
  use users_firstUser
  obtain ⟨live, users, s, hspares, husers, hchild, hcr3, hzero, hfree, hreachable⟩ :=
    reachable_child
  have hentry : pteAt firstUser.kernel.mem firstUser.kernel.layout.gKernelPageDir 0 = 3 := by
    rw [show firstUser.kernel = userKernel from rfl, spares_userKernel.1.pteAt_eq (by decide),
      kernelPage_base, pteAt_kernelPage]
  have htable : tableAt s.kernel.mem s.kernel.layout.gKernelPageDir (s.heapEnd / 4096 / 1024)
      = some 0x100000 := by
    rw [hzero, hspares.layout, tableAt_congr hspares.base (by decide), kernelPage_base,
      tableAt_kernelPage (by decide), if_pos (by decide)]
  obtain ⟨t, hsbrk, hpte⟩ := husers.takesEntry hchild hfree (by rw [hzero]) (by rw [hzero]; decide)
    htable
  refine ⟨(t, users), hreachable.step trivial
    (.sbrk ⟨hchild, hcr3⟩ (show 4096 < 2 ^ 31 by decide) hsbrk), ?_⟩
  intro hkept
  have hsame := hkept.base 0 (by decide) (by rw [hentry]; decide)
  rw [hzero] at hpte
  rw [hentry, hpte] at hsame
  revert hsame
  decide

end Os

end Dmos
