import Dmos.Task.ForkFails
import Dmos.Task.ForkLeak
import Dmos.Task.Sbrk
import Dmos.Task.UserExec

/-!
# Children and heaps

A child gets a directory of its own and a kernel stack when there are frames for them
(`ForkInside`), and a heap at user addresses grows in the caller's directory (`HeapInside`); both
leave the kernel half alone (`Users.sysFork`, `Users.sysSbrk`).

A child starts without a heap, whatever heap its parent has, and the end of no heap is address zero
(`heap_sysFork_init`).  There the pages are the kernel's, and growing the heap takes over their
entries in the tables that all directories share (`Users.takesEntry`).
-/

open ByteMemory AddressSpace Loop

namespace Dmos

namespace Os

open Kernel

-- the loops over directories are not to be unrolled by unification
attribute [local irreducible] Kernel.memoryDestoryUvm

variable {s s₁ t : Os} {live live' : Set Nat} {users : Set TaskRef} {r : Int} {stack : Nat}

/-! ### Forking -/

/-- There are frames for the child, or none at all, or a single one and what is given up then is a
page of the parent; and no entry of a task is given to a child. -/
def ForkInside (s : Os) (users : Set TaskRef) : Prop :=
  ∀ child, s.tasks.allocTask = some child → child ∉ users ∧ (s.kernel.free = []
    ∨ s.kernel.free.length = 1 ∧ s.kernel.ReleasesOwn s.currPageDir (u32Sub s.forkEsp memPageSize)
    ∨ 2 + (copyAsks (userPages s.kernel.mem s.currPageDir)).length ≤ s.kernel.free.length)

/-- The child of a `sys_fork` that has returned `r`. -/
def children (s : Os) (r : Int) : Set TaskRef :=
  { child | s.tasks.allocTask = some child ∧ r ≠ -1 }

/-- A child that was not made leaves the other tasks alone. -/
theorem task_failed {child y : TaskRef} (m : TaskManager) (tss : Tss) (hne : y ≠ child) :
  (((m.setTss child tss).clearTask child).freeTask child).task y = m.task y
  := by
  simp [TaskManager.freeTask, TaskManager.clearTask, TaskManager.setTss, TaskManager.setTask,
    TaskManager.setNode, hne]

/-- So does a child that is started. -/
theorem tss_forked_of_ne {child y : TaskRef} (s : Os) (cr3 : Nat) (kernel : Kernel)
    (hne : y ≠ child) :
  ((s.forked child cr3 kernel).tasks.task y).tss = (s.tasks.task y).tss
  := by
  rw [forked, TaskManager.taskStart,
    TaskManager.field_taskSetReady (f := Task.tss) (fun _ _ => rfl), TaskManager.setTss,
    TaskManager.setTask_task, if_neg hne]

/-- No child comes of a `sys_fork` that has failed. -/
theorem children_failed (s : Os) :
  s.children (-1) = ∅
  := by
  ext y
  simp [children]

/-- A child has been made or not: the tasks are in address spaces of their own, no frame in use has
been written but page tables of the caller, and the child has a kernel stack that was free. -/
structure Spawned (s : Os) (live : Set Nat) (users : Set TaskRef) (r : Int) (t : Os) : Prop where
  spaces : ∃ live', Spares s.kernel live t.kernel live' ∧ Users t live' (users ∪ s.children r)
  mem : ∀ g, s.kernel.Marked g →
    (∀ i, 512 ≤ i → i < 1024 → tableAt s.kernel.mem s.currPageDir i ≠ some g) →
    SameFrame s.kernel.mem t.kernel.mem g
  others : ∀ y ∈ users, (t.tasks.task y).tss = (s.tasks.task y).tss
  child : ∀ y ∈ s.children r, ∃ stack ∈ s.kernel.free,
    (t.tasks.task y).tss.esp0 = stack + memPageSize

/-- No child is made, and no frame is written but page tables of the caller. -/
theorem Users.spawned_none (hspares : Spares s.kernel live t.kernel live) (h : Users t live users)
    (hmem : ∀ g, s.kernel.Marked g →
      (∀ i, 512 ≤ i → i < 1024 → tableAt s.kernel.mem s.currPageDir i ≠ some g) →
      SameFrame s.kernel.mem t.kernel.mem g)
    (hothers : ∀ y ∈ users, (t.tasks.task y).tss = (s.tasks.task y).tss) :
  Spawned s live users (-1) t
  := by
  refine ⟨⟨live, hspares, ?_⟩, hmem, hothers, ?_⟩
  · rw [children_failed, Set.union_empty]
    exact h
  · rw [children_failed]
    rintro y ⟨⟩

/-- A child is given up, and the tasks keep their directories. -/
theorem Users.givenUp {child : TaskRef} {k : Kernel} (h : Users s live users)
    (hother : ∀ y ∈ users, y ≠ child) (hspares : Spares s.kernel live k live)
    (hguarded : Guarded k live) (gdt : Gdt) (tss : Tss) :
  Users { s with
      kernel := k
      gdt := gdt
      tasks := ((s.tasks.setTss child tss).clearTask child).freeTask child } live users
  := by
  refine h.keep hspares hguarded ?_ ?_
  · rfl
  · intro y hy
    rw [task_failed _ _ (hother y hy)]

/-- A child is started in the directory `cr3`, on the kernel stack `stack`. -/
theorem Users.started {child : TaskRef} {cr3 : Nat} {kernel : Kernel} (h : Users s live users)
    (hother : ∀ y ∈ users, y ≠ child) (hspares : Spares s.kernel live kernel live')
    (hguarded : Guarded kernel live') (hfile : s₁.fs = s.fs)
    (htasks : ∀ y ∈ users, (s₁.tasks.task y).tss = (s.tasks.task y).tss)
    (hlive : ∀ e ∈ live, e ∈ live') (hcr3 : cr3 ∈ live') (hnew : cr3 ∉ live)
    (hesp0 : (s₁.tasks.task child).tss.esp0 = stack + memPageSize)
    (hstack : kernel.Reserved live' stack) (hnot : stack ∉ s.kernel.kernelTables) :
  Users (s₁.forked child cr3 kernel) live' (insert child users)
  := by
  have hchild := tss_forked s₁ child cr3 kernel
  have htss {y : TaskRef} (hy : y ∈ users) :
      ((s₁.forked child cr3 kernel).tasks.task y).tss = (s.tasks.task y).tss := by
    rw [tss_forked_of_ne s₁ cr3 kernel (hother y hy), htasks y hy]
  have hne {y : TaskRef} (hy : y ∈ users) : (s.tasks.task y).tss.cr3 ≠ cr3 := by
    rintro rfl
    apply hnew (h.dir y hy)
  have hplaced := h.file
  refine ⟨hguarded, ?_, ⟨?_, ?_⟩, ?_, ?_, ?_⟩
  · rw [show (s₁.forked child cr3 kernel).kernel = kernel from rfl, hspares.layout]
    apply h.base_pos
  · rw [show (s₁.forked child cr3 kernel).fs = s₁.fs from rfl, hfile]
    apply hplaced.start
  · rw [show (s₁.forked child cr3 kernel).fs = s₁.fs from rfl,
      show (s₁.forked child cr3 kernel).kernel = kernel from rfl, hfile, hspares.layout]
    apply hplaced.separate
  · rintro y (rfl | hy)
    · rw [hchild]
      apply hcr3
    · rw [htss hy]
      apply hlive _ (h.dir y hy)
  · rintro y (rfl | hy) z (rfl | hz)
    · intro _
      rfl
    · rw [hchild, htss hz]
      intro hsame
      cases hne hz hsame.symm
    · rw [hchild, htss hy]
      intro hsame
      cases hne hy hsame
    · rw [htss hy, htss hz]
      apply h.own y hy z hz
  · rintro y (rfl | hy)
    · refine ⟨stack, ?_, hstack, ?_⟩
      · rw [hchild, hesp0]
      · rw [show (s₁.forked y cr3 kernel).kernel = kernel from rfl, hspares.kernelTables_eq]
        apply hnot
    · obtain ⟨stack, hstack, hreserved, hnot⟩ := h.stack y hy
      refine ⟨stack, ?_, hspares.reserved stack hreserved, ?_⟩
      · rw [htss hy, hstack]
      · rw [show (s₁.forked child cr3 kernel).kernel = kernel from rfl, hspares.kernelTables_eq]
        apply hnot

section Child

variable {child : TaskRef} (h : Users s live users) (hx : s.tasks.currTask ∈ users)
  (hother : ∀ y ∈ users, y ≠ child)

include h hx hother

/-- A fork that does not get to the copy. -/
theorem Users.notMade (hinit : ForkInit s child (-1, s₁)) (hfailed : s₁.forkFailed child = (r, t))
    (howns : ∀ f, s.kernel.free = [f] →
      s.kernel.ReleasesOwn s.currPageDir (u32Sub s.forkEsp memPageSize)) :
  Spawned s live users r t
  := by
  have hne := hother _ hx
  have hp : s.currPageDir ∈ live := h.dir _ hx
  cases hinit with
  | noStack hfree =>
      rw [forkFailed_eq hne rfl, if_neg (by simp), Prod.mk.injEq] at hfailed
      obtain ⟨rfl, rfl⟩ := hfailed
      refine Users.spawned_none (Spares.refl s.kernel live) ?_ ?_ ?_
      · apply h.givenUp hother (Spares.refl _ _) h.toGuarded
      · exact fun _ _ _ _ _ _ => rfl
      · intro y hy
        rw [task_failed _ _ (hother y hy)]
  | @noDir f hfree =>
      rw [forkFailed_eq hne rfl, if_pos (forkTss_esp0_ne h.range hfree),
        show (s.forkTss f).esp = s.forkEsp from rfl, Prod.mk.injEq] at hfailed
      obtain ⟨rfl, rfl⟩ := hfailed
      have hesp : u32Sub s.forkEsp memPageSize < 2 ^ 32 := Nat.mod_lt _ (by decide)
      obtain ⟨hback, hguarded⟩ := h.toGuarded.giveBack hfree
      obtain ⟨hspares, hguarded'⟩ := hguarded.freePage hp hesp
        (by rw [hback.layout]; apply h.base_pos) ((howns f hfree).giveBack h.range hfree)
      have hall := hback.trans hspares
      have hmem (g : Nat) (hg : s.kernel.Marked g)
          (htable : ∀ i, 512 ≤ i → i < 1024 → tableAt s.kernel.mem s.currPageDir i ≠ some g) :
          SameFrame s.kernel.mem ((s.kernel.take.addrFreePage f 1).memoryFreePage s.currPageDir
            (u32Sub s.forkEsp memPageSize)).mem g := by
        have hbounds := h.range.marked_bounds hg
        have hsame : (s.kernel.take.addrFreePage f 1).mem = s.kernel.mem := by
          rw [addrFreePage_eq, setAlloc_mem, take_mem]
        rw [← hsame] at htable ⊢
        unfold memExtStart at hbounds
        apply sameFrame_memoryFreePage hesp hbounds.1 (by unfold memPageSize; omega) htable
      generalize (s.kernel.take.addrFreePage f 1).memoryFreePage s.currPageDir
        (u32Sub s.forkEsp memPageSize) = k at hall hguarded' hmem ⊢
      apply Users.spawned_none hall
      · apply h.givenUp hother hall hguarded'
      · exact hmem
      · intro y hy
        rw [task_failed _ _ (hother y hy)]

/-- A fork that gets to the copy and has its frames: the kernel stack, the directory of `task_init`
and the copy come one after the other. -/
theorem Users.made {f c cr3 : Nat} {rest : List Nat} {kernel kernel' : Kernel} (s₁ : Os)
    (hcr3 : s.kernel.cr3 = s.currPageDir) (hchild : s.tasks.allocTask = some child)
    (hfree : s.kernel.free = f :: c :: rest) (hcreated : Created s.kernel.take kernel c)
    (hmade : ChildMade s.tasks s₁.tasks child) (hfs : s₁.fs = s.fs)
    (hesp0 : (s₁.tasks.task child).tss.esp0 = f + memPageSize)
    (hframes : 2 + (copyAsks (userPages s.kernel.mem s.currPageDir)).length
      ≤ s.kernel.free.length)
    (hcopy : kernel.memoryCopyUvm (s₁.tasks.task s.tasks.currTask).tss.cr3 = .ok (cr3, kernel')) :
  (∃ live', Spares s.kernel live kernel' live'
    ∧ Users (s₁.forked child cr3 kernel') live' (insert child users))
    ∧ ∀ g, s.kernel.Marked g → SameFrame s.kernel.mem kernel'.mem g
  := by
  have hp : s.currPageDir ∈ live := h.dir _ hx
  have hcurr : s.tasks.allocTask ≠ some s.tasks.currTask := by
    rw [hchild]
    intro heq
    exact hother _ hx (Option.some.inj heq).symm
  obtain ⟨hf', hdir, hcr3', hrest, hpages⟩ :=
    copy_of_created h.toFrames hp hcr3 hcurr hchild hfree hcreated hmade
  have hp' := Set.mem_insert_of_mem c hp
  have hlength : (copyAsks (userPages kernel.mem s.currPageDir)).length ≤ kernel.free.length := by
    rw [hfree, List.length_cons, List.length_cons] at hframes
    rw [hpages, hrest]
    omega
  obtain ⟨cr3', kernel₁, hcopy', -, hfaithful⟩ := memoryCopyUvm_of_enough hf' hp' hcr3' hlength
  have hnone := hfaithful.ne_errorWord hf'.range
  rw [hdir, hcopy'] at hcopy
  cases hcopy
  obtain ⟨htake, hstack⟩ := h.toGuarded.take hfree
  have hguarded := htake.guarded h.toGuarded (h.toFrames.take hfree)
  have hcreates := hguarded.created (free_take h.range hfree) hcreated
  have hguarded' := hcreates.guarded hguarded hf'
  have hcopies := hguarded'.copied hp' (hcr3' ▸ hp') hcopy'
  have hcopied := hf'.copied hcopy'
  rw [if_neg hnone] at hcopies hcopied
  have hall := (htake.trans hcreates).trans hcopies
  have hfresh := dir_memoryCopyUvm hf' hp' (hcr3' ▸ hp') hcopy' hnone
  refine ⟨⟨_, hall, h.started hother hall (hcopies.guarded hguarded' hcopied) hfs ?_ ?_
    (Set.mem_insert _ _) ?_ hesp0 ?_ ?_⟩, ?_⟩
  · intro y hy
    exact congrArg Task.tss (hmade.other y (hother y hy))
  · intro e he
    exact Set.mem_insert_of_mem _ (Set.mem_insert_of_mem _ he)
  · intro hlive
    apply (h.toFrames.marked_dir hlive).not_free h.range
    rw [hrest] at hfresh
    rw [hfree]
    exact List.mem_cons_of_mem _ (List.mem_cons_of_mem _ hfresh)
  · apply hcopies.reserved
    apply hcreates.reserved _ hstack
  · intro hin
    apply (h.tables f hin).not_free h.toFrames
    rw [hfree]
    apply List.mem_cons_self
  · -- what is written was free
    intro g hg
    have haligned := (h.range.marked_bounds hg).1
    have hgfree : g ∉ f :: c :: rest := by
      rw [← hfree]
      exact hg.not_free h.range
    have hc : c ∈ s.kernel.free := by
      rw [hfree]
      exact List.mem_cons_of_mem _ List.mem_cons_self
    have hne : g ≠ c := by
      rintro rfl
      exact hgfree (List.mem_cons_of_mem _ List.mem_cons_self)
    apply (hcreated.sameFrame (h.range.free_bounds hc).1 haligned hne).trans
    apply hfaithful.unchanged g haligned
    rw [hrest]
    intro hin
    exact hgfree (List.mem_cons_of_mem _ (List.mem_cons_of_mem _ hin))

end Child

/-- `sys_fork` leaves the other tasks alone. -/
theorem Users.spawned (h : Users s live users) (hx : s.tasks.currTask ∈ users)
    (hcr3 : s.kernel.cr3 = s.currPageDir) (hinside : s.ForkInside users)
    (hfork : s.sysFork = .ok (r, t)) :
  Spawned s live users r t
  := by
  rcases hchild : s.tasks.allocTask with _ | child
  · rw [Os.sysFork, hchild] at hfork
    cases hfork
    exact Users.spawned_none (Spares.refl _ _) h (fun _ _ _ _ _ _ => rfl) fun _ _ => rfl
  · obtain ⟨hnot, hframes⟩ := hinside child hchild
    obtain ⟨err, s₁, hinit, hcase⟩ := sysFork_cases hfork hchild
    have hcases := sysFork_init_cases s child h.range
    rw [hinit] at hcases
    have hother : ∀ y ∈ users, y ≠ child := by
      rintro y hy rfl
      apply hnot hy
    rcases hcase with ⟨hneg, hfailed⟩ | ⟨hpos, cr3, kernel', hcopy, rfl, rfl⟩
    · obtain rfl : err = -1 := by
        cases hcases with
        | noStack => rfl
        | noDir => rfl
        | created => cases hneg
      apply h.notMade hx hother hcases hfailed
      intro f hone
      rw [hone] at hframes
      rcases hframes with hnil | ⟨-, howns⟩ | hlength
      · cases hnil
      · apply howns
      · rw [List.length_singleton] at hlength
        omega
    · cases hcases with
      | noStack => cases hpos
      | noDir => cases hpos
      | @created f c rest kernel m hfree hcreated hmade =>
          have hpid := asInt_address_ne hchild
          rw [← hmade.pid] at hpid
          have hset : users ∪ s.children (m.task child).pid = insert child users := by
            ext y
            simp [children, hchild, hpid, eq_comm]
          have hesp0 := (tss_sysFork_init h.range hfree hinit).1
          obtain ⟨hspaces, hmem⟩ := h.made hx hother
            { s with kernel := kernel, gdt := s.tssDesc child, tasks := m } hcr3
            hchild hfree hcreated hmade rfl hesp0 (by
              rcases hframes with hnil | ⟨hone, -⟩ | hlength
              · rw [hfree] at hnil
                cases hnil
              · rw [hfree, List.length_cons, List.length_cons] at hone
                omega
              · apply hlength) hcopy
          refine ⟨hset ▸ hspaces, fun g hg _ => hmem g hg, ?_, ?_⟩
          · intro y hy
            rw [tss_forked_of_ne _ cr3 kernel' (hother y hy)]
            exact congrArg Task.tss (hmade.other y (hother y hy))
          · rintro y ⟨hy, -⟩
            obtain rfl : child = y := Option.some.inj (hchild.symm.trans hy)
            refine ⟨f, ?_, ?_⟩
            · rw [hfree]
              apply List.mem_cons_self
            · rw [tss_forked]
              exact hesp0

/-- `sys_fork` leaves the kernel half alone. -/
theorem Users.sysFork (h : Users s live users) (hx : s.tasks.currTask ∈ users)
    (hcr3 : s.kernel.cr3 = s.currPageDir) (hinside : s.ForkInside users)
    (hfork : s.sysFork = .ok (r, t)) :
  ∃ live', Spares s.kernel live t.kernel live' ∧ Users t live' (users ∪ s.children r)
  := (h.spawned hx hcr3 hinside hfork).spaces

/-! ### Growing the heap -/

/-- The end of the heap does not pass the last address, and the heap is at user addresses or gets
no page. -/
def HeapInside (s : Os) (incr : Nat) : Prop :=
  s.heapEnd + incr < 2 ^ 32 ∧ (memoryTaskBase ≤ s.heapEnd
    ∨ s.heapEnd + incr ≤ (s.heapEnd + 4095) / 4096 * 4096)

theorem setHeapEnd_tss (s : Os) (heapEnd : Nat) (y : TaskRef) :
  ((s.setHeapEnd heapEnd).tasks.task y).tss = (s.tasks.task y).tss
  := by
  rw [setHeapEnd, TaskManager.field_setTask (f := Task.tss)]
  exact .inr rfl

/-- `sys_sbrk` leaves the kernel half alone. -/
theorem Users.sysSbrk {incr a : Nat} (h : Users s live users) (hx : s.tasks.currTask ∈ users)
    (hinside : s.HeapInside incr) (hsbrk : s.sysSbrk incr = (a, t)) :
  Spares s.kernel live t.kernel live ∧ Users t live users
  := by
  have hp : s.currPageDir ∈ live := h.dir _ hx
  obtain ⟨hend, hbase | hfits⟩ := hinside
  · obtain ⟨q, k, hbuilt, hresult⟩ := sysSbrk_grow h.toFrames hp hbase hend
    have hspares := h.toGuarded.built hp hbuilt (words_mapsWith (show heapPerm < 4096 by decide))
    have hguarded := hspares.guarded h.toGuarded (h.toFrames.built hp hbuilt)
    rw [hresult] at hsbrk
    split_ifs at hsbrk
    · cases hsbrk
      exact ⟨hspares, h.keep hspares hguarded rfl fun _ _ => rfl⟩
    · cases hsbrk
      refine ⟨hspares, h.keep hspares hguarded rfl fun y _ => ?_⟩
      apply setHeapEnd_tss
  · rw [sysSbrk_of_fits hend hfits] at hsbrk
    cases hsbrk
    have hspares := Spares.refl s.kernel live
    refine ⟨hspares, h.keep hspares h.toGuarded rfl fun y _ => ?_⟩
    apply setHeapEnd_tss

/-! ### A heap in the kernel half -/

/-- A heap that ends at a page with a table in the kernel half gets a frame there. -/
theorem sysSbrk_page {f tbl : Nat} {rest : List Nat} (hr : RangeWf s.kernel.gPaddrAlloc)
    (hfree : s.kernel.free = f :: rest) (hpage : s.heapEnd % 4096 = 0)
    (hend : s.heapEnd + 4096 < 2 ^ 32)
    (htable : tableAt s.kernel.mem s.currPageDir (s.heapEnd / 4096 / 1024) = some tbl)
    (hne : tbl ≠ 0) :
  s.sysSbrk 4096 = (s.heapEnd,
    (s.setKernel (s.kernel.take.setMem (store32 s.kernel.mem
      (tbl + 4 * (s.heapEnd / 4096 % 1024)) (mapWord heapPerm f)))).setHeapEnd (s.heapEnd + 4096))
  := by
  have hmap : s.kernel.mapFresh s.currPageDir s.heapEnd heapPerm = (none, s.kernel.take.setMem
      (store32 s.kernel.mem (tbl + 4 * (s.heapEnd / 4096 % 1024)) (mapWord heapPerm f))) := by
    have hcases := mapFresh_cases s.currPageDir s.heapEnd heapPerm hr
      (by rw [htable]; rintro - t ⟨⟩; apply hne)
    generalize s.kernel.mapFresh s.currPageDir s.heapEnd heapPerm = q at hcases ⊢
    obtain ⟨q, k⟩ := q
    dsimp only at hcases
    cases hcases with
    | noPage hnone =>
        rw [hnone] at hfree
        cases hfree
    | mapped hfree' htable' =>
        rw [hfree] at hfree'
        rw [htable] at htable'
        cases hfree'
        cases htable'
        rfl
    | noTable _ htable' =>
        rw [htable] at htable'
        cases htable'
    | mappedNew _ htable' =>
        rw [htable] at htable'
        cases htable'
  have hend' : u32 (s.heapEnd + word 4096) = s.heapEnd + 4096 := by
    rw [show word 4096 = 4096 from rfl, u32_of_lt hend]
  have hsize : u32Sub (s.heapEnd + 4096) s.heapEnd = 4096 := by
    rw [u32Sub_of_le (by omega) hend]
    omega
  rw [sysSbrk, if_neg (by decide)]
  dsimp only
  rw [hend', if_neg (not_not.mpr hpage), sysSbrk.alloc, if_pos (by decide), memoryAllocPageFor,
    hsize, memoryAllocForPageDir, show up2 4096 memPageSize / memPageSize = 1 by decide]
  dsimp only
  rw [forLoop, pass_eq, hmap]
  rfl

/-- A heap in the kernel half takes over the entry of its next page, in the table that all
directories share. -/
theorem Users.takesEntry {f tbl : Nat} {rest : List Nat} (h : Users s live users)
    (hx : s.tasks.currTask ∈ users) (hfree : s.kernel.free = f :: rest)
    (hpage : s.heapEnd % 4096 = 0) (hkernel : s.heapEnd < memoryTaskBase)
    (htable : tableAt s.kernel.mem s.kernel.layout.gKernelPageDir (s.heapEnd / 4096 / 1024)
      = some tbl) :
  ∃ t, s.sysSbrk 4096 = (s.heapEnd, t)
    ∧ pteAt t.kernel.mem t.kernel.layout.gKernelPageDir (s.heapEnd / 4096) = mapWord heapPerm f
  := by
  unfold memoryTaskBase at hkernel
  have hreserved := h.tables tbl ⟨s.heapEnd / 4096 / 1024, by omega, htable⟩
  have hbounds := hreserved.bounds h.toFrames
  have hbase := gKernelPageDir_lt s.kernel.layout hbounds.2.1
  unfold memExtStart at hbounds
  have hshared : tableAt s.kernel.mem s.currPageDir (s.heapEnd / 4096 / 1024) = some tbl := by
    have hload := h.kernel _ (h.dir _ hx) (s.heapEnd / 4096 / 1024) (by omega)
    rw [currPageDir, ← htable]
    simp only [tableAt, hload]
  refine ⟨_, sysSbrk_page h.range hfree hpage (by omega) hshared (by omega), ?_⟩
  dsimp only [setHeapEnd_kernel, setKernel_kernel, setMem_mem, setMem_layout, take_layout]
  have hdir : SameFrame s.kernel.mem (store32 s.kernel.mem (tbl + 4 * (s.heapEnd / 4096 % 1024))
      (mapWord heapPerm f)) s.kernel.layout.gKernelPageDir := by
    apply sameFrame_store32 _ _ s.kernel.layout.gKernelPageDir_aligned hbounds.1 (by omega)
    omega
  rw [← tableAt_congr hdir (by omega)] at htable
  have hmem : f ∈ s.kernel.free := by
    rw [hfree]
    apply List.mem_cons_self
  have hframe := h.range.free_bounds hmem
  unfold memoryTaskBase at hframe
  rw [pteAt_of_table htable]
  apply load32_store32
  exact mapWord_lt hframe.1 (by decide) (by omega)

/-! ### A child without a heap -/

/-- A task starts without a heap. -/
theorem heap_taskInit {child : TaskRef} {name : List UInt8} {flag entry esp : Nat}
    (h : s.taskInit child name flag entry esp = (0, s₁)) :
  (s₁.tasks.task child).heapStart = 0 ∧ (s₁.tasks.task child).heapEnd = 0
  := by
  rw [taskInit] at h
  generalize s.tssInit child flag entry esp = p at h
  obtain ⟨err, s₂⟩ := p
  dsimp only at h
  split_ifs at h
  · cases h
  · cases h
    simp [TaskManager.taskInitFields, TaskManager.insertTaskList, TaskManager.setNode,
      TaskManager.setTask]

/-- And so does a child, whatever heap its parent has. -/
theorem heap_sysFork_init {child : TaskRef}
    (h : sysFork.init s s.tasks.currTask child = (0, s₁)) :
  (s₁.tasks.task child).heapStart = 0 ∧ (s₁.tasks.task child).heapEnd = 0
  := by
  rw [sysFork.init] at h
  dsimp only at h
  generalize htask : s.taskInit child (s.tasks.task s.tasks.currTask).name 0
    (s.kernel.syscallFrame (s.frameAddr s.tasks.currTask)).eip
    (u32 ((s.kernel.syscallFrame (s.frameAddr s.tasks.currTask)).esp + 4 * syscallParamCount)) = p
    at h
  obtain ⟨err, s₂⟩ := p
  dsimp only at h
  split_ifs at h with hneg
  · cases h
    cases hneg
  · cases h
    rw [TaskManager.setTask_task_self]
    apply heap_taskInit htask

theorem heap_forked (s : Os) (child : TaskRef) (cr3 : Nat) (kernel : Kernel) :
  ((s.forked child cr3 kernel).tasks.task child).heapEnd = (s.tasks.task child).heapEnd
  := by
  rw [forked, TaskManager.taskStart,
    TaskManager.field_taskSetReady (f := Task.heapEnd) (fun _ _ => rfl), TaskManager.setTss,
    TaskManager.setTask_task_self]

/-- A parent without user pages gets a child, with a frame for the stack and two for directories. -/
theorem sysFork_of_no_pages {child : TaskRef} {f c e : Nat} {rest : List Nat}
    (hf : Frames s.kernel live) (hp : s.currPageDir ∈ live) (hcr3 : s.kernel.cr3 = s.currPageDir)
    (hchild : s.tasks.allocTask = some child) (hne : s.tasks.currTask ≠ child)
    (hnone : userPages s.kernel.mem s.currPageDir = [])
    (hfree : s.kernel.free = f :: c :: e :: rest) :
  ∃ r t, s.sysFork = .ok (r, t) ∧ r ≠ -1 ∧ t.kernel.free = rest
    ∧ (t.tasks.task child).heapEnd = 0
  := by
  have hcurr : s.tasks.allocTask ≠ some s.tasks.currTask := by
    rw [hchild]
    rintro heq
    apply hne (Option.some.inj heq).symm
  have hcases := sysFork_init_cases s child hf.range
  generalize hinit : sysFork.init s s.tasks.currTask child = p at hcases
  cases hcases with
  | noStack hnil =>
      rw [hfree] at hnil
      cases hnil
  | noDir hone =>
      rw [hfree] at hone
      cases hone
  | @created f' c' rest' kernel m hfree' hcreated hmade =>
      rw [hfree] at hfree'
      cases hfree'
      obtain ⟨hf', hdir, hreg, hrest, hpages⟩ :=
        copy_of_created hf hp hcr3 hcurr hchild hfree hcreated hmade
      have hp' := Set.mem_insert_of_mem c hp
      rw [hnone] at hpages
      have hlength : (copyAsks (userPages kernel.mem s.currPageDir)).length
          ≤ kernel.free.length := by
        rw [hpages, hrest]
        simp [copyAsks, requests]
      obtain ⟨cr3, kernel', hcopy, -, hfaithful⟩ := memoryCopyUvm_of_enough hf' hp' hreg hlength
      have herror := hfaithful.ne_errorWord hf'.range
      have hfork := sysFork_of_copied hchild hinit (le_refl 0)
        (show kernel.memoryCopyUvm (m.task s.tasks.currTask).tss.cr3 = _ by rw [hdir, hcopy])
      refine ⟨_, _, hfork, ?_, ?_, ?_⟩
      · rw [hmade.pid]
        apply asInt_address_ne hchild
      · have hrun := memoryCopyUvm_cases hf' hp' (hreg ▸ hp')
        rw [hcopy] at hrun
        cases hrun with
        | noDir => cases herror rfl
        | failed => cases herror rfl
        | @copied _ rest' kernel₁ _ hfree₁ hcreated₁ hcopied =>
            have hpages₁ : presentPages kernel₁.mem s.currPageDir 524288 524288 = [] := by
              have hsame := userPages_created hcreated₁ hf' hfree₁ hp'
              rw [hpages] at hsame
              exact hsame
            have hspace := hcopied.built.space
            rw [hpages₁] at hspace
            have hkept : kernel'.free = kernel₁.free := by
              exact congrArg (fun p => p.2.free) hspace.symm
            rw [hrest] at hfree₁
            cases hfree₁
            change kernel'.free = rest
            rw [hkept]
            exact hcreated₁.free hf'.range hrest
      · rw [heap_forked]
        apply (heap_sysFork_init hinit).2

end Os

end Dmos
