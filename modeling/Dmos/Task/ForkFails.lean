import Dmos.Task.ForkReport

/-!
# What a failed fork leaves

When `sys_fork` fails it gives the child up with `task_uninit`, which releases what the fields
of the child name: a selector, the page below the user's stack pointer, and a directory.  The
page below the stack pointer is one of the parent's own; it is looked up in the parent's
directory, and neither it nor the selector has been allocated for the child.  A failed
`sys_fork` leaves everything as it was exactly when there is nothing to release
(`intact_iff`).
-/

open ByteMemory LinkedList

namespace Dmos

namespace Os

open TaskManager

variable {s : Os} {live : Set Nat} {child : TaskRef}

/-- What a failed `sys_fork` should leave as it was. -/
structure Intact (s t : Os) : Prop where
  pages : ∀ v, 524288 ≤ v → v < 2 ^ 20 → Present (pteAt s.kernel.mem s.currPageDir v) →
    pteAt t.kernel.mem s.currPageDir v = pteAt s.kernel.mem s.currPageDir v
  frames : ∀ g, t.kernel.Marked g ↔ s.kernel.Marked g
  descs : ∀ i, DescUsed t.gdt i ↔ DescUsed s.gdt i
  slots : ∀ i, t.tasks.named i = s.tasks.named i

/-- The entry for the child holds no selector in use, and, if there is a frame for the kernel
stack, the page below the stack pointer of the child is not in use. -/
structure NothingToRelease (s : Os) (child : TaskRef) : Prop where
  sel : (s.tasks.task child).tssSel = 0 ∨ ¬ DescUsed s.gdt ((s.tasks.task child).tssSel / 8)
  page : s.kernel.free ≠ [] →
    ¬ s.kernel.Marked (s.kernel.freedPage s.currPageDir (u32Sub s.forkEsp memPageSize))

/-! ### Giving the child up -/

/-- The child that is given up has no directory. -/
theorem forkFailed_eq {tss : Tss} (hne : s.tasks.currTask ≠ child) (hcr3 : tss.cr3 = 0)
    (kernel : Kernel) (gdt : Gdt) :
  forkFailed { s with kernel := kernel, gdt := gdt, tasks := s.tasks.setTss child tss } child
    = (-1, { s with
        kernel :=
          if tss.esp0 ≠ 0 then
            kernel.memoryFreePage s.currPageDir (u32Sub tss.esp memPageSize)
          else kernel
        gdt :=
          if (s.tasks.task child).tssSel ≠ 0 then gdtFreeSel gdt (s.tasks.task child).tssSel
          else gdt
        tasks := ((s.tasks.setTss child tss).clearTask child).freeTask child })
  := by
  have htss : ((s.tasks.setTss child tss).task child).tss = tss := by
    rw [TaskManager.setTss, setTask_task_self]
  have hdir (gdt : Gdt) : Os.currPageDir
      { s with kernel := kernel, gdt := gdt, tasks := s.tasks.setTss child tss } = s.currPageDir := by
    rw [currPageDir, currPageDir]
    apply congrArg (fun task : Task => task.tss.cr3)
    simp [TaskManager.setTss, setTask, hne]
  have hsel : ((s.tasks.setTss child tss).task child).tssSel = (s.tasks.task child).tssSel := by
    rw [TaskManager.setTss, setTask_task_self]
  rw [forkFailed, taskUninit]
  dsimp only
  rw [htss, hsel]
  by_cases hs : (s.tasks.task child).tssSel ≠ 0
  · by_cases he : tss.esp0 ≠ 0
    · rw [if_pos hs, if_pos he, if_pos hs, if_pos he, if_neg (not_not.mpr hcr3)]
      rw [hdir]
    · rw [if_pos hs, if_neg he, if_pos hs, if_neg he, if_neg (not_not.mpr hcr3)]
  · by_cases he : tss.esp0 ≠ 0
    · rw [if_neg hs, if_pos he, if_neg hs, if_pos he, if_neg (not_not.mpr hcr3)]
      rw [hdir]
    · rw [if_neg hs, if_neg he, if_neg hs, if_neg he, if_neg (not_not.mpr hcr3)]

/-- A child with a kernel stack has one that is given up. -/
theorem forkTss_esp0_ne {f : Nat} {rest : List Nat} (hr : RangeWf s.kernel.gPaddrAlloc)
    (hfree : s.kernel.free = f :: rest) :
  (s.forkTss f).esp0 ≠ 0
  := by
  have hmem : f ∈ s.kernel.free := by
    rw [hfree]
    apply List.mem_cons_self
  have hbounds := hr.free_bounds hmem
  have hstart : 1048576 ≤ f := hbounds.2.1
  have hend : f + 4096 ≤ 2147483648 := hbounds.2.2
  rw [forkTss, startTss]
  dsimp only
  rw [u32_of_lt (show f + 4096 < 2 ^ 32 by omega)]
  omega

/-- Releasing the selector in the entry of the child, after that of the child was freed. -/
theorem descUsed_failed_iff (s : Os) (child : TaskRef) {gdt : Gdt}
    (hgdt : ∀ i, DescUsed gdt i ↔ DescUsed s.gdt i) :
  (∀ i, DescUsed (if (s.tasks.task child).tssSel ≠ 0 then gdtFreeSel gdt (s.tasks.task child).tssSel
      else gdt) i ↔ DescUsed s.gdt i)
    ↔ (s.tasks.task child).tssSel = 0 ∨ ¬ DescUsed s.gdt ((s.tasks.task child).tssSel / 8)
  := by
  by_cases hsel : (s.tasks.task child).tssSel = 0
  · rw [if_neg (not_not.mpr hsel)]
    exact iff_of_true hgdt (.inl hsel)
  · rw [if_pos hsel]
    constructor
    · intro hsame
      right
      intro hused
      rw [← hsame, descUsed_freeSel] at hused
      apply hused.2 rfl
    · rintro (hzero | hunused) i
      · cases hsel hzero
      · rw [descUsed_freeSel, hgdt]
        constructor
        · intro hi
          apply hi.1
        · intro hi
          use hi
          rintro rfl
          apply hunused hi

/-- No entry of the table gets or loses a name. -/
theorem named_failed (hchild : s.tasks.allocTask = some child) (tss : Tss) (i : Fin 128) :
  (((s.tasks.setTss child tss).clearTask child).freeTask child).named i = s.tasks.named i
  := by
  have hname := name_of_allocTask hchild
  have hslot : ((((s.tasks.setTss child tss).clearTask child).freeTask child).task (.slot i)).name
      = (s.tasks.task (.slot i)).name := by
    by_cases heq : TaskRef.slot i = child
    · rw [heq, freeTask, setTask_task_self, hname]
    · simp [freeTask, clearTask, TaskManager.setTss, setTask, setNode, heq]
  simp only [named, hslot]

/-! ### Failures -/

section Failed

variable (hf : Kernel.Frames s.kernel live) (hp : s.currPageDir ∈ live)
  (hcurr : s.tasks.allocTask ≠ some s.tasks.currTask)

include hf hp hcurr

/-- What is left when `task_init` has failed. -/
theorem intact_forkFailed_iff {s₁ t : Os} (hchild : s.tasks.allocTask = some child)
    (hinit : ForkInit s child (-1, s₁)) (hfailed : s₁.forkFailed child = (-1, t)) :
  Intact s t ↔ NothingToRelease s child
  := by
  have hne : s.tasks.currTask ≠ child := by
    rintro heq
    apply hcurr
    rw [heq, hchild]
  cases hinit with
  | noStack hfree =>
      rw [forkFailed_eq hne rfl, if_neg (by simp), Prod.mk.injEq] at hfailed
      obtain ⟨-, rfl⟩ := hfailed
      have hdescs := descUsed_failed_iff s child
        (descUsed_freeSel_alloc s.gdt (s.tasks.layout.address child + 608) 104
          (segPPresent ||| segDpl0 ||| segTypeTss))
      constructor
      · intro hintact
        use hdescs.mp hintact.descs
        intro hnot
        cases hnot hfree
      · intro hnothing
        refine ⟨fun _ _ _ _ => rfl, fun _ => Iff.rfl, hdescs.mpr hnothing.sel, ?_⟩
        apply named_failed hchild
  | @noDir f hfree =>
      rw [forkFailed_eq hne rfl, if_pos (forkTss_esp0_ne hf.range hfree), show (s.forkTss f).esp = s.forkEsp from rfl,
        Prod.mk.injEq] at hfailed
      obtain ⟨-, rfl⟩ := hfailed
      have hdescs := descUsed_failed_iff s child
        (descUsed_freeSel_alloc s.gdt (s.tasks.layout.address child + 608) 104
          (segPPresent ||| segDpl0 ||| segTypeTss))
      have hesp : u32Sub s.forkEsp memPageSize < 2 ^ 32 := Nat.mod_lt _ (by decide)
      have hmem : (s.kernel.take.addrFreePage f 1).mem = s.kernel.mem := by
        rw [Kernel.addrFreePage_eq, Kernel.setAlloc_mem, Kernel.take_mem]
      have hmarked := Kernel.marked_giveBack hf.range hfree
      have hpage := Kernel.memoryFreePage_same_iff (hf.giveBack hfree) hp hesp
      rw [hmarked, Kernel.freedPage_congr hmem, hmem] at hpage
      constructor
      · intro hintact
        use hdescs.mp hintact.descs
        intro _
        apply hpage.mp
        use hintact.pages
        intro g
        have hframe := hintact.frames g
        dsimp only at hframe
        exact hframe.trans (hmarked g).symm
      · intro hnothing
        obtain ⟨hpages, hframes⟩ := hpage.mpr (hnothing.page (by simp [hfree]))
        refine ⟨hpages, ?_, hdescs.mpr hnothing.sel, ?_⟩
        · intro g
          dsimp only
          exact (hframes g).trans (hmarked g)
        · apply named_failed hchild

/-- Without the frames for `task_init`, `sys_fork` fails. -/
theorem sysFork_of_shortage (hchild : s.tasks.allocTask = some child)
    (hshort : s.kernel.free.length < 2) :
  ∃ t, s.sysFork = .ok (-1, t) ∧ (Intact s t ↔ NothingToRelease s child)
  := by
  have hinit := sysFork_init_cases s child hf.range
  obtain ⟨s₁, heq⟩ : ∃ s₁, sysFork.init s s.tasks.currTask child = (-1, s₁) := by
    generalize sysFork.init s s.tasks.currTask child = p at hinit
    cases hinit with
    | noStack hfree => exact ⟨_, rfl⟩
    | noDir hfree => exact ⟨_, rfl⟩
    | created hfree =>
        rw [hfree, List.length_cons, List.length_cons] at hshort
        omega
  rw [heq] at hinit
  have hfailed : s₁.forkFailed child = (-1, (s₁.forkFailed child).2) := rfl
  use (s₁.forkFailed child).2
  constructor
  · rw [sysFork_of_failed hchild heq (by decide), hfailed]
  · apply intact_forkFailed_iff hf hp hcurr hchild hinit hfailed

/-- A failed `sys_fork` leaves the parent, the frames, the descriptors and the entries as they
were exactly when it does not get as far as `task_init`, when `task_init` has its frames, or when
there is nothing to release for the child. -/
theorem intact_iff :
  (∀ t, s.sysFork = .ok (-1, t) → Intact s t)
    ↔ ∀ child, s.tasks.allocTask = some child → s.kernel.free.length < 2 →
        NothingToRelease s child
  := by
  constructor
  · intro hintact child hchild hshort
    obtain ⟨t, hfork, hiff⟩ := sysFork_of_shortage hf hp hcurr hchild hshort
    apply hiff.mp (hintact t hfork)
  · intro hnothing t hfork
    rcases hchild : s.tasks.allocTask with _ | child
    · rw [sysFork, hchild] at hfork
      cases hfork
      exact ⟨fun _ _ _ _ => rfl, fun _ => Iff.rfl, fun _ => Iff.rfl, fun _ => rfl⟩
    · obtain ⟨err, s₁, hinit, hcase⟩ := sysFork_cases hfork hchild
      have hcases := sysFork_init_cases s child hf.range
      rw [hinit] at hcases
      rcases hcase with ⟨hneg, hfailed⟩ | ⟨hpos, cr3, kernel, -, hpid, -⟩
      · obtain ⟨rfl, hshort⟩ : err = -1 ∧ s.kernel.free.length < 2 := by
          cases hcases with
          | noStack hfree => simp [hfree]
          | noDir hfree => simp [hfree]
          | created => omega
        apply (intact_forkFailed_iff hf hp hcurr hchild hcases hfailed).mpr
        apply hnothing child hchild hshort
      · cases hcases with
        | noStack => omega
        | noDir => omega
        | created hfree hcreated hmade =>
            cases asInt_address_ne hchild (hmade.pid.symm.trans hpid.symm)

end Failed

/-! ### A parent in its stack -/

/-- The first task with one user page and the given stack pointer in its system call. -/
def inCall (pages esp : Nat) : Os where
  kernel := (Kernel.bootPage pages).store (0x70000 + 80) esp
  fs := .low fun _ => 0
  gdt _ := {}
  tasks := Machine.started.tasks.setTss .firstTask { esp0 := 0x70000 + 88, cr3 := 1024 * 1024 }

theorem allocTask_inCall (pages esp : Nat) :
  (inCall pages esp).tasks.allocTask = some (.slot 0)
  := by
  change (Machine.started.tasks.setTss .firstTask
    { esp0 := 0x70000 + 88, cr3 := 1024 * 1024 }).allocTask = _
  decide +kernel

theorem allocTask_ne_inCall (pages esp : Nat) :
  (inCall pages esp).tasks.allocTask ≠ some (inCall pages esp).tasks.currTask
  := by
  rw [allocTask_inCall]
  change _ ≠ some TaskRef.firstTask
  decide

theorem currPageDir_inCall (pages esp : Nat) :
  (inCall pages esp).currPageDir = 1024 * 1024
  := by
  change ((Machine.started.tasks.setTss .firstTask
    { esp0 := 0x70000 + 88, cr3 := 1024 * 1024 }).task .firstTask).tss.cr3 = _
  rw [TaskManager.setTss, setTask_task_self]

theorem frames_inCall {pages : Nat} (esp : Nat) (hpos : 3 ≤ pages) (h : pages ≤ 1000) :
  Kernel.Frames (inCall pages esp).kernel {1024 * 1024}
  := by
  apply (Kernel.bootPage_frames hpos h).store_low (by decide)
  rw [Kernel.bootPage_base hpos h]
  right
  decide

theorem length_inCall {pages : Nat} (esp : Nat) (hpos : 3 ≤ pages) (h : pages ≤ 1000) :
  (inCall pages esp).kernel.free.length = pages - 3
  := Kernel.bootPage_free_length hpos h

theorem forkEsp_inCall {pages esp : Nat} (hesp : esp < 2 ^ 32) :
  (inCall pages esp).forkEsp = u32 (esp + 20)
  := by
  have hframe : (inCall pages esp).frameAddr (inCall pages esp).tasks.currTask = 0x70000 := by
    change u32Sub ((Machine.started.tasks.setTss .firstTask
      { esp0 := 0x70000 + 88, cr3 := 1024 * 1024 }).task .firstTask).tss.esp0 88 = _
    rw [TaskManager.setTss, setTask_task_self]
    decide
  have hload : load32 (inCall pages esp).kernel.mem (0x70000 + 80) = esp :=
    load32_store32 _ _ hesp
  rw [forkEsp, hframe, Kernel.syscallFrame]
  dsimp only
  rw [Kernel.load, hload]
  rfl

/-- Without a free frame `sys_fork` fails and changes nothing. -/
theorem intact_inCall :
  (∃ t, (inCall 3 0xDFFF0000).sysFork = .ok (-1, t))
    ∧ ∀ t, (inCall 3 0xDFFF0000).sysFork = .ok (-1, t) → Intact (inCall 3 0xDFFF0000) t
  := by
  have hf := frames_inCall 0xDFFF0000 (show 3 ≤ 3 by decide) (by decide)
  have hlength := length_inCall 0xDFFF0000 (show 3 ≤ 3 by decide) (by decide)
  have hp := currPageDir_inCall 3 0xDFFF0000
  have hcurr := allocTask_ne_inCall 3 0xDFFF0000
  have hchild := allocTask_inCall 3 0xDFFF0000
  constructor
  · obtain ⟨t, hfork, -⟩ := sysFork_of_shortage hf hp hcurr hchild (by rw [hlength]; decide)
    use t
  · apply (intact_iff hf hp hcurr).mpr
    intro child heq _
    rw [hchild, Option.some.injEq] at heq
    rw [← heq]
    constructor
    · left
      change ((Machine.started.tasks.setTss .firstTask
        { esp0 := 0x70000 + 88, cr3 := 1024 * 1024 }).task (.slot 0)).tssSel = 0
      decide +kernel
    · intro hfree
      cases hfree (List.length_eq_zero_iff.mp hlength)

/-- With one free frame, the page of the parent below its stack pointer is released. -/
theorem not_intact_inCall :
  ∃ t, (inCall 4 0x80001000).sysFork = .ok (-1, t) ∧ ¬ Intact (inCall 4 0x80001000) t
  := by
  have hf := frames_inCall 0x80001000 (show 3 ≤ 4 by decide) (by decide)
  have hlength := length_inCall 0x80001000 (show 3 ≤ 4 by decide) (by decide)
  have hp := currPageDir_inCall 4 0x80001000
  obtain ⟨t, hfork, hiff⟩ := sysFork_of_shortage hf hp (allocTask_ne_inCall 4 0x80001000)
    (allocTask_inCall 4 0x80001000) (by rw [hlength]; decide)
  use t, hfork
  rw [hiff]
  intro hnothing
  have hesp : u32Sub (inCall 4 0x80001000).forkEsp memPageSize = 0x80000014 := by
    rw [forkEsp_inCall (by decide)]
    decide
  have hpresent :
      Present (pteAt (inCall 4 0x80001000).kernel.mem (1024 * 1024) (0x80000014 / 4096)) := by
    have hboot := Kernel.bootPage_frames (show 3 ≤ 4 by decide) (by decide)
    have huser : 524288 ∈ Kernel.userPages (Kernel.bootPage 4).mem (1024 * 1024) := by
      rw [Kernel.bootPage_userPages (by decide) (by decide)]
      apply List.mem_singleton_self
    have hsame := hboot.pteAt_store_low rfl (show 0x70000 + 80 + 4 ≤ memExtStart by decide)
      0x80001000 (show 512 ≤ 0x80000014 / 4096 / 1024 by decide) (by decide)
    rw [inCall]
    dsimp only
    rw [hsame]
    apply (Kernel.mem_presentPages.mp huser).2
  apply hnothing.page
  · intro hnil
    rw [hnil] at hlength
    cases hlength
  · rw [hesp, hp, Kernel.freedPage_of_present (by decide) hpresent]
    apply hf.marked_page rfl (by decide) (by decide) hpresent

end Os

end Dmos
