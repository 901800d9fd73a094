import Dmos.Kernel.Ownership
import Dmos.Task.ForkReport

/-!
# The frame a child loses

A child is made in two stages.  `task_init` gives it a kernel stack and a page directory, and
`memory_copy_uvm` gives it another page directory, with copies of the parent's pages.  The second
directory takes the place of the first in `tss.cr3`, and nobody frees the first one: each
`sys_fork` that succeeds loses this frame, and no other (`lost_of_sysFork`).
-/

namespace Dmos

namespace Os

open TaskManager

variable {s t : Os} {live : Set Nat} {child : TaskRef} {r : Int}

/-- The frame has become used. -/
def Taken (s t : Os) (g : Nat) : Prop :=
  t.kernel.Marked g ∧ ¬ s.kernel.Marked g

/-- The frame is the kernel stack of the child, its page directory, or a user page table or a
page of this directory. -/
def OfChild (t : Os) (child : TaskRef) (g : Nat) : Prop :=
  g + memPageSize = (t.tasks.task child).tss.esp0
    ∨ ∃ a, Owns 512 t.kernel.mem {(t.tasks.task child).tss.cr3} a g

/-- All that has been taken is the child's. -/
def NoLeak (s t : Os) (child : TaskRef) : Prop :=
  ∀ g, Taken s t g → OfChild t child g

/-- The kernel stack and the page directory that `task_init` gives to the child. -/
theorem tss_sysFork_init {s₁ : Os} {f c : Nat} {rest : List Nat}
    (hr : RangeWf s.kernel.gPaddrAlloc) (hfree : s.kernel.free = f :: c :: rest)
    (h : sysFork.init s s.tasks.currTask child = (0, s₁)) :
  (s₁.tasks.task child).tss.esp0 = f + memPageSize ∧ (s₁.tasks.task child).tss.cr3 = c
  := by
  have hf := hr.free_bounds (f := f) (by rw [← Kernel.free, hfree]; apply List.mem_cons_self)
  have hc := hr.free_bounds (f := c) (by
    rw [← Kernel.free, hfree]
    apply List.mem_cons_of_mem _ List.mem_cons_self)
  unfold memExtStart memoryTaskBase at hf hc
  obtain ⟨kernel, hcreate, -⟩ := Kernel.memoryCreateUvm_of_free (Kernel.rangeWf_take hr)
    (Kernel.free_take hr hfree)
  have hmade := s.tssInit_eq child 0 (s.kernel.syscallFrame (s.frameAddr s.tasks.currTask)).eip
    s.forkEsp
  rw [Kernel.memoryAllocPage, Kernel.addrAllocPage_of_free hr hfree] at hmade
  dsimp only at hmade
  rw [if_neg (by omega), hcreate] at hmade
  dsimp only at hmade
  rw [if_neg (by omega)] at hmade
  rw [sysFork_init_of_made hmade, Prod.mk.injEq] at h
  obtain ⟨-, rfl⟩ := h
  have hesp0 : u32 (f + memPageSize) = f + memPageSize := u32_of_lt (by unfold memPageSize; omega)
  simp [forkRegisters, taskInitFields, insertTaskList, startTss, setNode, setTask, hesp0]

/-- The segment of a child that has been started. -/
theorem tss_forked (s₁ : Os) (child : TaskRef) (cr3 : Nat) (kernel : Kernel) :
  ((s₁.forked child cr3 kernel).tasks.task child).tss
    = { (s₁.tasks.task child).tss with cr3 := cr3 }
  := by
  rw [forked, taskStart, field_taskSetReady (f := Task.tss) (fun _ _ => rfl), TaskManager.setTss,
    setTask_task_self]

section Lost

variable (hf : Kernel.Frames s.kernel live)

include hf

/-- The frames that are in use after the two stages: those of before, the kernel stack, the
first directory, and what the second directory owns, which is not the first one. -/
theorem marked_of_stages {f c p cr3 : Nat} {rest : List Nat} {kernel kernel' : Kernel}
    (hfree : s.kernel.free = f :: c :: rest) (hcreated : Kernel.Created s.kernel.take kernel c)
    (hp : p ∈ insert c live) (hcr3 : kernel.cr3 ∈ live)
    (hcopy : kernel.memoryCopyUvm p = .ok (cr3, kernel')) (hne : cr3 ≠ errorWord) :
  kernel'.Marked c ∧ (∀ a, ¬ Owns 512 kernel'.mem {cr3} a c)
    ∧ ∀ g, kernel'.Marked g → ¬ s.kernel.Marked g →
      g = f ∨ g = c ∨ ∃ a, Owns 512 kernel'.mem {cr3} a g
  := by
  have htake := hf.take hfree
  have hrest := Kernel.free_take hf.range hfree
  have hf' := htake.created hrest hcreated
  have hcopied := hf'.copied hcopy
  rw [if_neg hne] at hcopied
  have hc : c ∈ insert cr3 (insert c live) := Set.mem_insert_of_mem cr3 (Set.mem_insert c live)
  refine ⟨hcopied.marked_dir hc, ?_, ?_⟩
  · have hdir := Kernel.dir_memoryCopyUvm hf' hp (Set.mem_insert_of_mem c hcr3) hcopy hne
    have hnodup := Kernel.free_nodup htake.range
    rw [hrest, List.nodup_cons] at hnodup
    rw [hcreated.free htake.range hrest] at hdir
    have hother : c ≠ cr3 := by
      rintro rfl
      apply hnodup.1 hdir
    intro a ha
    have hroot : a.root = cr3 := by
      cases a <;> exact ha.1
    have howns : Owns 512 kernel'.mem (insert cr3 (insert c live)) a c := by
      cases a <;> exact ⟨.inl ha.1, ha.2⟩
    have hplace := hcopied.exclusive.unique howns (q := .dir c) ⟨hc, rfl⟩
    rw [hplace] at hroot
    apply hother hroot
  · intro g hg hnot
    rcases Kernel.marked_copied hf' hp (Set.mem_insert_of_mem c hcr3) hcopy hne hg with
      hmarked | ⟨a, hroot, ha⟩
    · rw [hcreated.marked htake.range hrest, Kernel.marked_take hf.range hfree] at hmarked
      rcases hmarked with (hmarked | hmarked) | hmarked
      · cases hnot hmarked
      · exact .inl hmarked
      · exact .inr (.inl hmarked)
    · right
      right
      use a
      cases a with
      | dir d => exact ⟨hroot, ha.2⟩
      | table d i => exact ⟨hroot, ha.2⟩
      | page d v => exact ⟨hroot, ha.2⟩

variable (hp : s.currPageDir ∈ live) (hcr3 : s.kernel.cr3 ∈ live)

include hp hcr3

/-- The directory of `task_init` is lost, and no other frame. -/
theorem exists_lost (hchild : s.tasks.allocTask = some child) (hfork : s.sysFork = .ok (r, t))
    (hr : r ≠ -1) (hcopied : (t.tasks.task child).tss.cr3 ≠ errorWord) :
  ∃ c, Taken s t c ∧ ¬ OfChild t child c ∧ ∀ g, Taken s t g → g ≠ c → OfChild t child g
  := by
  obtain ⟨err, s₁, hinit, hcase⟩ := sysFork_cases hfork hchild
  have hcases := sysFork_init_cases s child hf.range
  rw [hinit] at hcases
  cases hcases with
  | noStack hfree =>
      rcases hcase with ⟨-, heq⟩ | ⟨hneg, -⟩
      · cases hr (congrArg Prod.fst heq).symm
      · omega
  | noDir hfree =>
      rcases hcase with ⟨-, heq⟩ | ⟨hneg, -⟩
      · cases hr (congrArg Prod.fst heq).symm
      · omega
  | @created f c rest kernel m hfree hcreated hmade =>
      rcases hcase with ⟨hneg, -⟩ | ⟨-, cr3, kernel', hcopy, -, rfl⟩
      · omega
      · obtain ⟨hesp0, hdir⟩ := tss_sysFork_init hf.range hfree hinit
        rw [tss_forked] at hcopied
        dsimp only at hcopy hesp0 hdir hcopied
        -- the parent is the child when a running task has no name
        have hsource : (m.task s.tasks.currTask).tss.cr3 ∈ insert c live := by
          by_cases hself : s.tasks.currTask = child
          · rw [hself, hdir]
            apply Set.mem_insert
          · rw [hmade.other _ hself]
            apply Set.mem_insert_of_mem c hp
        have hreg : kernel.cr3 ∈ live := by
          rw [hcreated.cr3]
          apply hcr3
        obtain ⟨hmarked, hnot, hall⟩ :=
          marked_of_stages hf hfree hcreated hsource hreg hcopy hcopied
        have hnodup := Kernel.free_nodup hf.range
        rw [hfree, List.nodup_cons, List.mem_cons, not_or] at hnodup
        have hunused : ∀ g ∈ s.kernel.free, ¬ s.kernel.Marked g :=
          fun g hg hused => hused.not_free hf.range hg
        refine ⟨c, ⟨hmarked, hunused c ?_⟩, ?_, ?_⟩
        · rw [hfree]
          apply List.mem_cons_of_mem _ List.mem_cons_self
        · rintro (hstack | ⟨a, ha⟩)
          · rw [tss_forked] at hstack
            dsimp only at hstack
            rw [hesp0] at hstack
            apply hnodup.1.1
            omega
          · rw [tss_forked] at ha
            apply hnot a ha
        · rintro g ⟨hused, hnew⟩ hgc
          rw [OfChild, tss_forked]
          dsimp only
          rcases hall g hused hnew with rfl | hg | hg
          · left
            rw [hesp0]
          · cases hgc hg
          · exact .inr hg

/-- A `sys_fork` that succeeds, with an address space for the child, loses one frame. -/
theorem lost_of_sysFork (hchild : s.tasks.allocTask = some child) (hfork : s.sysFork = .ok (r, t))
    (hr : r ≠ -1) (hcopied : (t.tasks.task child).tss.cr3 ≠ errorWord) :
  ¬ NoLeak s t child ∧ ∃ c, ∀ g, Taken s t g ∧ ¬ OfChild t child g ↔ g = c
  := by
  obtain ⟨c, htaken, hlost, hall⟩ := exists_lost hf hp hcr3 hchild hfork hr hcopied
  constructor
  · intro hnone
    apply hlost (hnone c htaken)
  · use c
    intro g
    constructor
    · rintro ⟨hg, hnot⟩
      by_contra hgc
      apply hnot (hall g hg hgc)
    · rintro rfl
      exact ⟨htaken, hlost⟩

omit hcr3 in
/-- With the frames that the stack, the directory and the copy ask for, `sys_fork` succeeds. -/
theorem sysFork_of_enough (hreg : s.kernel.cr3 = s.currPageDir)
    (hcurr : s.tasks.allocTask ≠ some s.tasks.currTask)
    (hchild : s.tasks.allocTask = some child)
    (hframes : 2 + (Kernel.copyAsks (Kernel.userPages s.kernel.mem s.currPageDir)).length
      ≤ s.kernel.free.length) :
  ∃ r t, s.sysFork = .ok (r, t) ∧ r ≠ -1 ∧ (t.tasks.task child).tss.cr3 ≠ errorWord
  := by
  have hcases := sysFork_init_cases s child hf.range
  generalize hinit : sysFork.init s s.tasks.currTask child = p at hcases
  cases hcases with
  | noStack hnone =>
      rw [hnone, List.length_nil] at hframes
      omega
  | noDir hone =>
      rw [hone, List.length_singleton] at hframes
      omega
  | @created f c rest kernel m hfree hcreated hmade =>
      obtain ⟨hf', hdir, hreg', hrest, hpages⟩ :=
        copy_of_created hf hp hreg hcurr hchild hfree hcreated hmade
      have hlength : (Kernel.copyAsks (Kernel.userPages kernel.mem s.currPageDir)).length
          ≤ kernel.free.length := by
        rw [hfree, List.length_cons, List.length_cons] at hframes
        rw [hpages, hrest]
        omega
      obtain ⟨cr3, kernel', hcopy, -, hfaithful⟩ :=
        Kernel.memoryCopyUvm_of_enough hf' (Set.mem_insert_of_mem c hp) hreg' hlength
      have hfork := sysFork_of_copied hchild hinit (le_refl 0)
        (show kernel.memoryCopyUvm (m.task s.tasks.currTask).tss.cr3 = _ by rw [hdir, hcopy])
      refine ⟨_, _, hfork, ?_, ?_⟩
      · rw [hmade.pid]
        apply asInt_address_ne hchild
      · rw [tss_forked]
        apply hfaithful.ne_errorWord hf'.range

end Lost

/-- The first task with one page, and frames enough for a child. -/
theorem sysFork_onePage :
  ∃ r t, (onePage 9).sysFork = .ok (r, t) ∧ r ≠ -1
    ∧ (t.tasks.task (.slot 0)).tss.cr3 ≠ errorWord
  := by
  have hf : Kernel.Frames (onePage 9).kernel {1024 * 1024} :=
    Kernel.bootPage_frames (by decide) (by decide)
  apply sysFork_of_enough hf (currPageDir_onePage 9) (currPageDir_onePage 9).symm
    (allocTask_ne_onePage 9) (allocTask_onePage 9)
  rw [currPageDir_onePage]
  dsimp only [onePage]
  rw [Kernel.bootPage_userPages (by decide) (by decide),
    Kernel.bootPage_free_length (by decide) (by decide)]
  decide

theorem lost_onePage :
  ∃ r t, (onePage 9).sysFork = .ok (r, t) ∧ r ≠ -1 ∧ ¬ NoLeak (onePage 9) t (.slot 0)
    ∧ ∃ c, ∀ g, Taken (onePage 9) t g ∧ ¬ OfChild t (.slot 0) g ↔ g = c
  := by
  obtain ⟨r, t, hfork, hr, hcopied⟩ := sysFork_onePage
  have hf : Kernel.Frames (onePage 9).kernel {1024 * 1024} :=
    Kernel.bootPage_frames (by decide) (by decide)
  exact ⟨r, t, hfork, hr, lost_of_sysFork hf (currPageDir_onePage 9) rfl (allocTask_onePage 9)
    hfork hr hcopied⟩

theorem not_noLeak_onePage :
  ∃ r t, (onePage 9).sysFork = .ok (r, t) ∧ r ≠ -1 ∧ ¬ NoLeak (onePage 9) t (.slot 0)
  := by
  obtain ⟨r, t, hfork, hr, hcopied⟩ := sysFork_onePage
  have hf : Kernel.Frames (onePage 9).kernel {1024 * 1024} :=
    Kernel.bootPage_frames (by decide) (by decide)
  obtain ⟨c, htaken, hlost, -⟩ := exists_lost hf (currPageDir_onePage 9) rfl
    (allocTask_onePage 9) hfork hr hcopied
  exact ⟨r, t, hfork, hr, fun hnone => hlost (hnone c htaken)⟩

end Os

end Dmos
