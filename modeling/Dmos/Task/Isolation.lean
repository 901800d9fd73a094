import Dmos.Task.ForkLeak
import Dmos.Task.KernelHalf

/-!
# Isolation of tasks

A program reaches memory by the walk of the processor, which asks for the user bit of both entries
(`Kernel.userTranslate`).  In the runs of tasks that stay inside of their address spaces, what a
program reaches is its own: the addresses of the kernel are refused, the byte behind an address
belongs neither to the kernel nor to another program, nor has it another address
(`isolated_of_reachable`).

While other tasks run and call the system, a task keeps its address space, what is in it, and its
kernel stack (`untouched_of_reachable`).
-/

open ByteMemory AddressSpace

namespace Dmos

/-- The bit-field `user_mode_acc` of an entry. -/
def UserBit (e : Nat) : Prop :=
  e.testBit 2 = true

instance (e : Nat) : Decidable (UserBit e) :=
  inferInstanceAs (Decidable (e.testBit 2 = true))

/-- The byte is in the frame. -/
def InFrame (g a : Nat) : Prop :=
  g ≤ a ∧ a < g + 4096

namespace Kernel

variable {s t : Kernel} {live : Set Nat} {d g vaddr a : Nat}

/-- The physical address that a program with the directory `dir` reaches. -/
def userTranslate (s : Kernel) (dir vaddr : Nat) : Option Nat :=
  let pde := s.load (dir + 4 * pdeIndex vaddr)
  if Present pde ∧ UserBit pde then
    let pte := s.load (pdePaddr pde + 4 * pteIndex vaddr)
    if Present pte ∧ UserBit pte then some (ptePaddr pte + vaddr % memPageSize) else none
  else none

/-- No page of the kernel half is for programs. -/
def KernelOnly (s : Kernel) : Prop :=
  ∀ v < 2 ^ 19, Present (pteAt s.mem s.layout.gKernelPageDir v) →
    ¬ UserBit (pteAt s.mem s.layout.gKernelPageDir v)

/-- What a program reaches is behind a present entry for users. -/
theorem userTranslate_some (h : s.userTranslate d vaddr = some a) :
  Present (pteAt s.mem d (vaddr / 4096)) ∧ UserBit (pteAt s.mem d (vaddr / 4096))
    ∧ a = frameAt s.mem d (vaddr / 4096) + vaddr % 4096
  := by
  rw [userTranslate, pdeIndex_page, pteIndex_eq] at h
  dsimp only at h
  split_ifs at h with hpde hpte
  have htable : tableAt s.mem d (vaddr / 4096 / 1024)
      = some (pdePaddr (load32 s.mem (d + 4 * (vaddr / 4096 / 1024)))) := if_pos hpde.1
  rw [frameAt, pteAt_of_table htable]
  exact ⟨hpte.1, hpte.2, (Option.some.inj h).symm⟩

/-- The walk depends on the frames of the directory and of the table. -/
theorem userTranslate_congr (hv : vaddr < 2 ^ 32) (hd : SameFrame s.mem t.mem d)
    (ht : ∀ g, tableAt s.mem d (vaddr / 4096 / 1024) = some g → SameFrame s.mem t.mem g) :
  t.userTranslate d vaddr = s.userTranslate d vaddr
  := by
  have hpde : load32 t.mem (d + 4 * (vaddr / 4096 / 1024))
      = load32 s.mem (d + 4 * (vaddr / 4096 / 1024)) := hd.load32 (by omega)
  rw [userTranslate, userTranslate, pdeIndex_page, pteIndex_eq]
  simp only [load, hpde]
  by_cases hpresent : Present (load32 s.mem (d + 4 * (vaddr / 4096 / 1024)))
  · have htable := ht _ (if_pos hpresent)
    simp only [htable.load32 (show vaddr / 4096 % 1024 < 1024 by omega)]
    congr
  · simp only [hpresent, false_and, if_false]

section Frames

variable (hf : Frames s live) (hd : d ∈ live) (hkernel : s.KernelOnly) (hv : vaddr < 2 ^ 32)

include hf hd hkernel hv

/-- The addresses of the kernel are refused. -/
theorem userTranslate_kernel (hlow : vaddr < memoryTaskBase) :
  s.userTranslate d vaddr = none
  := by
  unfold memoryTaskBase at hlow
  rcases h : s.userTranslate d vaddr with _ | a
  · rfl
  · obtain ⟨hpresent, huser, -⟩ := userTranslate_some h
    rw [hf.pteAt_kernel hd (by omega)] at hpresent huser
    exact absurd huser (hkernel _ (by omega) hpresent)

/-- What a program reaches is in a page of its directory. -/
theorem userTranslate_owns (h : s.userTranslate d vaddr = some a) :
  memoryTaskBase ≤ vaddr
    ∧ Owns 512 s.mem live (.page d (vaddr / 4096)) (frameAt s.mem d (vaddr / 4096))
    ∧ a = frameAt s.mem d (vaddr / 4096) + vaddr % 4096
  := by
  obtain ⟨hpresent, -, ha⟩ := userTranslate_some h
  have hbase : memoryTaskBase ≤ vaddr := by
    by_contra hlow
    rw [userTranslate_kernel hf hd hkernel hv (by omega)] at h
    cases h
  refine ⟨hbase, ⟨hd, ?_, by omega, hpresent, rfl⟩, ha⟩
  unfold memoryTaskBase at hbase
  omega

end Frames

end Kernel

namespace Os

open Kernel

variable {s t u s₀ : Os} {live : Set Nat} {users users₀ : Set TaskRef} {x y : TaskRef} {g : Nat}
  {p p' : Os × Set TaskRef} {e : TaskEvent}

/-! ### What a program reaches -/

/-- The page directory of a task. -/
abbrev cr3 (s : Os) (x : TaskRef) : Nat :=
  (s.tasks.task x).tss.cr3

/-- The byte belongs to the kernel: it is below the frames, or in a frame that is free, that is a
page table of the kernel, or the directory, a page table or the kernel stack of a task. -/
inductive KernelByte (s : Os) (users : Set TaskRef) (a : Nat) : Prop where
  | low : a < memExtStart → KernelByte s users a
  | free {g : Nat} : g ∈ s.kernel.free → InFrame g a → KernelByte s users a
  | kernelTable {g : Nat} : g ∈ s.kernel.kernelTables → InFrame g a → KernelByte s users a
  | dir {x : TaskRef} : x ∈ users → InFrame (s.cr3 x) a → KernelByte s users a
  | table {x : TaskRef} {i g : Nat} : x ∈ users → 512 ≤ i → i < 1024 →
      tableAt s.kernel.mem (s.cr3 x) i = some g → InFrame g a → KernelByte s users a
  | stack {x : TaskRef} {g : Nat} : x ∈ users → (s.tasks.task x).tss.esp0 = g + memPageSize →
      InFrame g a → KernelByte s users a

/-- In a frame with a byte of it. -/
theorem eq_of_inFrame {f a k : Nat} (hg : g % 4096 = 0) (hf : f % 4096 = 0) (hk : k < 4096)
    (ha : a = f + k) (h : InFrame g a) :
  g = f
  := by
  unfold InFrame at h
  omega

/-- A page of a directory in use has no byte of the kernel. -/
theorem Users.not_kernelByte {d v f k : Nat} (h : Users s live users)
    (hown : Owns 512 s.kernel.mem live (.page d v) f) (hk : k < 4096) :
  ¬ KernelByte s users (f + k)
  := by
  have hmarked := h.exclusive.used_of_owns hown
  have hbounds := h.range.marked_bounds hmarked
  have hnode {q : Place} {g : Nat} (hq : OwnsNode 512 s.kernel.mem live q g)
      (hin : InFrame g (f + k)) : False := by
    have hg := h.range.marked_bounds (h.exclusive.used_of_owns hq.owns)
    obtain rfl := eq_of_inFrame hg.1 hbounds.1 hk rfl hin
    have hplace := h.exclusive.unique hown hq.owns
    subst hplace
    exact hq
  have hreserved {g : Nat} (hg : s.kernel.Reserved live g) (hin : InFrame g (f + k)) : False := by
    obtain rfl := eq_of_inFrame (hg.bounds h.toFrames).1 hbounds.1 hk rfl hin
    exact hg.unowned _ hown
  rintro (hlow | ⟨hg, hin⟩ | ⟨hg, hin⟩ | ⟨hx, hin⟩ | ⟨hx, hi, hi', ht, hin⟩ | ⟨hx, hstack, hin⟩)
  · omega
  · obtain rfl := eq_of_inFrame (h.range.free_bounds hg).1 hbounds.1 hk rfl hin
    exact hmarked.not_free h.range hg
  · exact hreserved (h.tables _ hg) hin
  · exact hnode (q := .dir _) ⟨h.dir _ hx, rfl⟩ hin
  · exact hnode (q := .table _ _) ⟨h.dir _ hx, hi, hi', ht⟩ hin
  · obtain ⟨g', hstack', hg', -⟩ := h.stack _ hx
    obtain rfl := Nat.add_right_cancel (hstack.symm.trans hstack')
    exact hreserved hg' hin

theorem KernelOnly.of_spares {s t : Kernel} {live' : Set Nat} (h : s.KernelOnly)
    (hspares : Spares s live t live') :
  t.KernelOnly
  := by
  intro v hv
  rw [hspares.pteAt_eq hv]
  exact h v hv

/-- In a run whose calls all stay inside, what a program reaches is at an address of the user and
belongs neither to the kernel nor to another address of a program. -/
theorem isolated_of_reachable (h : Users s₀ live users₀) (hkernel : s₀.kernel.KernelOnly)
    (hp : ((userTasks s₀ users₀).restrict CallInside).Reachable (fun _ => True) p) {v a : Nat}
    (hx : x ∈ p.2) (hv : v < 2 ^ 32) (ha : p.1.kernel.userTranslate (p.1.cr3 x) v = some a) :
  memoryTaskBase ≤ v ∧ ¬ KernelByte p.1 p.2 a ∧
    ∀ y ∈ p.2, ∀ w < 2 ^ 32, p.1.kernel.userTranslate (p.1.cr3 y) w = some a → y = x ∧ w = v
  := by
  obtain ⟨live', hspares, husers⟩ := h.of_reachable hp
  have hkernel' := KernelOnly.of_spares hkernel hspares
  have hdir : p.1.cr3 x ∈ live' := husers.dir x hx
  obtain ⟨hbase, hown, rfl⟩ := userTranslate_owns husers.toFrames hdir hkernel' hv ha
  refine ⟨hbase, husers.not_kernelByte hown (Nat.mod_lt _ (by decide)), ?_⟩
  intro y hy w hw hb
  have hdir' : p.1.cr3 y ∈ live' := husers.dir y hy
  obtain ⟨-, hown', hsame⟩ := userTranslate_owns husers.toFrames hdir' hkernel' hw hb
  have halign := (husers.range.marked_bounds (husers.exclusive.used_of_owns hown)).1
  have halign' := (husers.range.marked_bounds (husers.exclusive.used_of_owns hown')).1
  have hframe : frameAt p.1.kernel.mem (p.1.cr3 x) (v / 4096)
      = frameAt p.1.kernel.mem (p.1.cr3 y) (w / 4096) := by omega
  have hplace := husers.exclusive.unique hown (hframe ▸ hown')
  rw [Place.page.injEq] at hplace
  exact ⟨(husers.own x hx y hy hplace.1).symm, by omega⟩

/-! ### What other tasks leave alone -/

/-- The address spaces are apart, and so are the kernel stacks. -/
structure Apart (s : Os) (live : Set Nat) (users : Set TaskRef) : Prop
    extends Users s live users where
  ownStack : ∀ x ∈ users, ∀ y ∈ users,
    (s.tasks.task x).tss.esp0 = (s.tasks.task y).tss.esp0 → x = y

/-- The task has the same address space, with the same bytes. -/
structure SpaceKept (s t : Os) (x : TaskRef) : Prop where
  cr3 : t.cr3 x = s.cr3 x
  frames : ∀ q g, Owns 512 s.kernel.mem {s.cr3 x} q g → SameFrame s.kernel.mem t.kernel.mem g

/-- It has the same kernel stack too. -/
structure Kept (s t : Os) (x : TaskRef) : Prop extends SpaceKept s t x where
  esp0 : (t.tasks.task x).tss.esp0 = (s.tasks.task x).tss.esp0
  stack : ∀ g, (s.tasks.task x).tss.esp0 = g + memPageSize →
    SameFrame s.kernel.mem t.kernel.mem g

theorem Kept.refl (s : Os) (x : TaskRef) :
  Kept s s x
  := ⟨⟨rfl, fun _ _ _ _ _ _ => rfl⟩, rfl, fun _ _ _ _ _ => rfl⟩

namespace SpaceKept

variable (h : SpaceKept s t x)

include h

theorem tableAt_eq {i : Nat} (hi : i < 1024) :
  tableAt t.kernel.mem (s.cr3 x) i = tableAt s.kernel.mem (s.cr3 x) i
  := tableAt_congr (h.frames (.dir _) _ ⟨rfl, rfl⟩) hi

theorem pteAt_eq {v : Nat} (hlo : 512 ≤ v / 1024) (hv : v < 2 ^ 20) :
  pteAt t.kernel.mem (s.cr3 x) v = pteAt s.kernel.mem (s.cr3 x) v
  := by
  apply pteAt_congr (h.frames (.dir _) _ ⟨rfl, rfl⟩) hv
  intro g hg
  exact h.frames (.table _ (v / 1024)) g ⟨rfl, hlo, by omega, hg⟩

/-- It has the same frames. -/
theorem owns {q : Place} (hq : Owns 512 s.kernel.mem {s.cr3 x} q g) :
  Owns 512 t.kernel.mem {t.cr3 x} q g
  := by
  rw [h.cr3]
  refine Owns.of_entries ?_ ?_ hq
  · rintro d rfl i hi
    rw [h.tableAt_eq hi]
  · rintro d rfl v hlo hv
    rw [h.pteAt_eq hlo hv]

theorem trans (h' : SpaceKept t u x) :
  SpaceKept s u x
  := ⟨h'.cr3.trans h.cr3, fun q g hq => (h.frames q g hq).trans (h'.frames q g (h.owns hq))⟩

end SpaceKept

theorem Kept.trans (h : Kept s t x) (h' : Kept t u x) :
  Kept s u x
  := ⟨h.toSpaceKept.trans h'.toSpaceKept, h'.esp0.trans h.esp0, fun g hg =>
    (h.stack g hg).trans (h'.stack g (h.esp0.trans hg))⟩

/-- The frame is in use, but not by the task. -/
structure NotOf (s : Os) (live : Set Nat) (x : TaskRef) (g : Nat) : Prop where
  marked : s.kernel.Marked g
  unowned : ∀ q, q.root = s.cr3 x → ¬ Owns 512 s.kernel.mem live q g
  stack : (s.tasks.task x).tss.esp0 ≠ g + memPageSize

/-- The frames of one directory among those in use. -/
theorem owns_of_singleton {m : Memory} {d : Nat} {q : Place} (hd : d ∈ live)
    (hq : Owns 512 m {d} q g) :
  q.root = d ∧ Owns 512 m live q g
  := by
  cases q with
  | dir d' =>
      obtain ⟨rfl, hg⟩ := hq
      exact ⟨rfl, hd, hg⟩
  | table d' i =>
      obtain ⟨rfl, hg⟩ := hq
      exact ⟨rfl, hd, hg⟩
  | page d' v =>
      obtain ⟨rfl, hg⟩ := hq
      exact ⟨rfl, hd, hg⟩

section NotOf

variable (h : Apart s live users) (hx : x ∈ users) (hy : y ∈ users) (hne : y ≠ x)

include h hx hy hne

/-- No frame of a task belongs to another task. -/
theorem Apart.notOf_space {q : Place} (hq : Owns 512 s.kernel.mem {s.cr3 y} q g) :
  NotOf s live x g
  := by
  obtain ⟨stack, hstack, hreserved, -⟩ := h.stack x hx
  obtain ⟨hroot, hown⟩ := owns_of_singleton (h.dir y hy) hq
  refine ⟨h.exclusive.used_of_owns hown, ?_, ?_⟩
  · intro q' hq' hown'
    have hplace := congrArg Place.root (h.exclusive.unique hown hown')
    exact hne (h.own y hy x hx (hroot.symm.trans (hplace.trans hq')))
  · intro hsame
    apply hreserved.unowned q
    rw [Nat.add_right_cancel (hstack.symm.trans hsame)]
    exact hown

/-- Nor does its kernel stack. -/
theorem Apart.notOf_stack (hg : (s.tasks.task y).tss.esp0 = g + memPageSize) :
  NotOf s live x g
  := by
  obtain ⟨stack, hstack, hreserved, -⟩ := h.stack y hy
  obtain rfl := Nat.add_right_cancel (hg.symm.trans hstack)
  refine ⟨hreserved.marked, fun q _ => hreserved.unowned q, ?_⟩
  intro hsame
  apply hne
  apply h.ownStack y hy x hx
  rw [hstack, hsame]

end NotOf

/-- What an event leaves alone. -/
def LeavesAlone (s : Os) (live : Set Nat) (x : TaskRef) (t : Os) : Prop :=
  ∀ g, NotOf s live x g → SameFrame s.kernel.mem t.kernel.mem g

theorem Users.run_leavesAlone (h : Users s live users) (hx : x ∈ users) (hruns : Runs s x t) :
  LeavesAlone s live x t
  := by
  obtain ⟨stack, hstack, hreserved, -⟩ := h.stack x hx
  have hmem := hruns.mem
  rw [hstack, Nat.add_sub_cancel] at hmem
  intro g hg
  apply sameFrame_of_harmless h.toFrames (h.dir x hx) hreserved hmem hg.marked
  · rintro rfl
    exact hg.stack hstack
  · intro v
    exact hg.unowned (.page _ v) rfl

theorem Spawned.leavesAlone {r : Int} (h : Users s live users) (hx : s.tasks.currTask ∈ users)
    (hspawned : Spawned s live users r t) :
  LeavesAlone s live s.tasks.currTask t
  := by
  intro g hg
  apply hspawned.mem g hg.marked
  intro i hi hi' ht
  exact hg.unowned (.table _ i) rfl ⟨h.dir _ hx, hi, hi', ht⟩

theorem Executed.leavesAlone (h : Users s live users) (hx : s.tasks.currTask ∈ users)
    (hexecuted : Executed s live users
      ((s.tasks.task s.tasks.currTask).tss.esp0 - memPageSize) t) :
  LeavesAlone s live s.tasks.currTask t
  := by
  obtain ⟨stack, hstack, hreserved, -⟩ := h.stack _ hx
  have hmem := hexecuted.mem
  rw [hstack, Nat.add_sub_cancel] at hmem
  intro g hg a ha ha'
  have hbounds := h.range.marked_bounds hg.marked
  have hbounds' := hreserved.bounds h.toFrames
  apply hmem a (by omega)
  · rintro f hf ⟨hle, hlt⟩
    have hfree := h.range.free_bounds hf
    obtain rfl : f = g := by omega
    exact hg.marked.not_free h.range hf
  · rintro ⟨hle, hlt⟩
    obtain rfl : g = stack := by omega
    exact hg.stack hstack

theorem Users.sbrk_leavesAlone {incr a : Nat} (h : Users s live users)
    (hx : s.tasks.currTask ∈ users) (hinside : s.HeapInside incr)
    (hsbrk : s.sysSbrk incr = (a, t)) :
  LeavesAlone s live s.tasks.currTask t ∧ ∀ y, (t.tasks.task y).tss = (s.tasks.task y).tss
  := by
  have hp : s.currPageDir ∈ live := h.dir _ hx
  obtain ⟨hend, hbase | hfits⟩ := hinside
  · obtain ⟨q, k, hbuilt, hresult⟩ := sysSbrk_grow h.toFrames hp hbase hend
    have hleaves (g : Nat) (hg : NotOf s live s.tasks.currTask g) :
        SameFrame s.kernel.mem k.mem g := by
      apply hbuilt.frame g (h.range.marked_bounds hg.marked).1
      · rintro rfl
        exact hg.unowned (.dir _) rfl ⟨hp, rfl⟩
      · intro i hi hi' ht
        exact hg.unowned (.table _ i) rfl ⟨hp, hi, hi', ht⟩
      · exact hg.marked.not_free h.range
    rw [hresult] at hsbrk
    split_ifs at hsbrk
    · cases hsbrk
      exact ⟨hleaves, fun _ => rfl⟩
    · cases hsbrk
      exact ⟨hleaves, setHeapEnd_tss _ _⟩
  · rw [sysSbrk_of_fits hend hfits] at hsbrk
    cases hsbrk
    exact ⟨fun _ _ _ _ _ => rfl, setHeapEnd_tss _ _⟩

/-- The task that does something. -/
def actor (p : Os × Set TaskRef) : TaskEvent → TaskRef
  | .run x => x
  | .fork | .execve _ _ _ _ | .sbrk _ => p.1.tasks.currTask

theorem Apart.kept (h : Apart s live users) (hx : x ∈ users) (hy : y ∈ users) (hne : y ≠ x)
    (hleaves : LeavesAlone s live x t) (htss : t.cr3 y = s.cr3 y)
    (hesp0 : (t.tasks.task y).tss.esp0 = (s.tasks.task y).tss.esp0) :
  Kept s t y
  := ⟨⟨htss, fun _ g hq => hleaves g (h.notOf_space hx hy hne hq)⟩, hesp0,
    fun g hg => hleaves g (h.notOf_stack hx hy hne hg)⟩

/-- The kernel stack of a child is that of no other task. -/
theorem Spawned.ownStack {r : Int} (h : Apart s live users) (hspawned : Spawned s live users r t) :
  ∀ x ∈ users ∪ s.children r, ∀ y ∈ users ∪ s.children r,
    (t.tasks.task x).tss.esp0 = (t.tasks.task y).tss.esp0 → x = y
  := by
  have hnew {x y : TaskRef} (hx : x ∈ users) (hy : y ∈ s.children r) :
      (t.tasks.task x).tss.esp0 ≠ (t.tasks.task y).tss.esp0 := by
    obtain ⟨stack, hstack, hreserved, -⟩ := h.stack x hx
    obtain ⟨stack', hfree, hstack'⟩ := hspawned.child y hy
    rw [hspawned.others x hx, hstack, hstack']
    intro hsame
    obtain rfl := Nat.add_right_cancel hsame
    exact hreserved.not_free h.toFrames hfree
  rintro x (hx | hx) y (hy | hy)
  · rw [hspawned.others x hx, hspawned.others y hy]
    exact h.ownStack x hx y hy
  · exact fun hsame => absurd hsame (hnew hx hy)
  · exact fun hsame => absurd hsame.symm (hnew hy hx)
  · exact fun _ => Option.some.inj (hx.1.symm.trans hy.1)

/-- One step keeps the tasks apart, and the tasks that do not take it as they are. -/
theorem Apart.step (h : Apart p.1 live p.2) (hinside : CallInside p e) (hstep : TaskStep p e p') :
  ∃ live', Spares p.1.kernel live p'.1.kernel live' ∧ Apart p'.1 live' p'.2 ∧ p.2 ⊆ p'.2 ∧
    ∀ y ∈ p.2, y ≠ actor p e → Kept p.1 p'.1 y
  := by
  cases hstep with
  | run hx hruns =>
      obtain ⟨hspares, husers⟩ := h.runs hx hruns
      refine ⟨live, hspares, ⟨husers, ?_⟩, subset_rfl, fun y hy hne => ?_⟩
      · intro y hy z hz
        rw [hruns.esp0, hruns.esp0]
        exact h.ownStack y hy z hz
      · exact h.kept hx hy hne (h.run_leavesAlone hx hruns) (hruns.cr3 y) (hruns.esp0 y)
  | fork hcall hfork =>
      have hspawned := h.spawned hcall.user hcall.cr3 hinside hfork
      obtain ⟨live', hspares, husers⟩ := hspawned.spaces
      refine ⟨live', hspares, ⟨husers, hspawned.ownStack h⟩, Set.subset_union_left,
        fun y hy hne => ?_⟩
      have htss := hspawned.others y hy
      exact h.kept hcall.user hy hne (hspawned.leavesAlone h.toUsers hcall.user)
        (congrArg Tss.cr3 htss) (congrArg Tss.esp0 htss)
  | execve hcall hl hfd hexec =>
      have hexecuted := h.executed hcall.user (by rw [hcall.cr3]; exact h.dir _ hcall.user) hl hfd
        hinside hexec
      obtain ⟨live', hspares, husers⟩ := hexecuted.spaces
      refine ⟨live', hspares, ⟨husers, ?_⟩, subset_rfl, fun y hy hne => ?_⟩
      · intro y hy z hz
        rw [hexecuted.esp0, hexecuted.esp0]
        exact h.ownStack y hy z hz
      · exact h.kept hcall.user hy hne (hexecuted.leavesAlone h.toUsers hcall.user)
          (congrArg Tss.cr3 (hexecuted.others y hne)) (hexecuted.esp0 y)
  | sbrk hcall _ hsbrk =>
      obtain ⟨hspares, husers⟩ := h.sysSbrk hcall.user hinside hsbrk
      obtain ⟨hleaves, htss⟩ := h.sbrk_leavesAlone hcall.user hinside hsbrk
      refine ⟨live, hspares, ⟨husers, ?_⟩, subset_rfl, fun y hy hne => ?_⟩
      · intro y hy z hz
        rw [htss, htss]
        exact h.ownStack y hy z hz
      · exact h.kept hcall.user hy hne hleaves (congrArg Tss.cr3 (htss y))
          (congrArg Tss.esp0 (htss y))

/-- Calls stay inside, and `y` does nothing. -/
def Others (y : TaskRef) (p : Os × Set TaskRef) (e : TaskEvent) : Prop :=
  CallInside p e ∧ y ≠ actor p e

/-- In the runs of others. -/
theorem Apart.kept_of_reachable (h : Apart s₀ live users₀) (hy : y ∈ users₀)
    (hp : ((userTasks s₀ users₀).restrict (Others y)).Reachable (fun _ => True) p) :
  ∃ live', Spares s₀.kernel live p.1.kernel live' ∧ Apart p.1 live' p.2 ∧ y ∈ p.2
    ∧ Kept s₀ p.1 y
  := by
  apply hp.invariant (I := fun p => ∃ live', Spares s₀.kernel live p.1.kernel live'
    ∧ Apart p.1 live' p.2 ∧ y ∈ p.2 ∧ Kept s₀ p.1 y)
  · rintro _ rfl
    exact ⟨live, Spares.refl _ _, h, hy, Kept.refl _ _⟩
  · rintro p e p' ⟨live', hspares, hapart, hy', hkept⟩ - ⟨⟨hinside, hne⟩, hstep⟩
    obtain ⟨live'', hspares', hapart', hsub, hkept'⟩ := hapart.step hinside hstep
    exact ⟨live'', hspares.trans hspares', hapart', hsub hy', hkept.trans (hkept' y hy' hne)⟩

/-- The byte at an address of a program. -/
def userByte (s : Os) (x : TaskRef) (v : Nat) : Option UInt8 :=
  (s.kernel.userTranslate (s.cr3 x) v).map s.kernel.mem

/-- A task that is as before reaches the same memory, with the same bytes. -/
theorem SpaceKept.user {live' : Set Nat} {v : Nat} (hkept : SpaceKept s t x) (hf : Frames s.kernel live)
    (hf' : Frames t.kernel live') (hd : s.cr3 x ∈ live) (hd' : s.cr3 x ∈ live')
    (hk : s.kernel.KernelOnly) (hk' : t.kernel.KernelOnly) (hv : v < 2 ^ 32) :
  t.kernel.userTranslate (t.cr3 x) v = s.kernel.userTranslate (s.cr3 x) v
    ∧ t.userByte x v = s.userByte x v
  := by
  have hwalk : t.kernel.userTranslate (s.cr3 x) v = s.kernel.userTranslate (s.cr3 x) v := by
    by_cases hlow : v < memoryTaskBase
    · rw [userTranslate_kernel hf hd hk hv hlow, userTranslate_kernel hf' hd' hk' hv hlow]
    · unfold memoryTaskBase at hlow
      apply userTranslate_congr hv (hkept.frames (.dir _) _ ⟨rfl, rfl⟩)
      intro g hg
      exact hkept.frames (.table _ (v / 4096 / 1024)) g ⟨rfl, by omega, by omega, hg⟩
  rw [userByte, userByte, hkept.cr3, hwalk]
  use rfl
  rcases h : s.kernel.userTranslate (s.cr3 x) v with _ | a
  · rfl
  · obtain ⟨-, ⟨-, hlo, hlt, hpresent, -⟩, rfl⟩ := userTranslate_owns hf hd hk hv h
    have hbyte := hkept.frames (.page _ (v / 4096)) (frameAt s.kernel.mem (s.cr3 x) (v / 4096))
      ⟨rfl, hlo, hlt, hpresent, rfl⟩ _ (Nat.le_add_right _ _)
      (Nat.add_lt_add_left (Nat.mod_lt v (by decide)) _)
    rw [Option.map_some, Option.map_some, hbyte]

/-- While other tasks run, fork, execute programs and grow their heaps, all inside of their address
spaces, a task keeps its address space with all bytes, and its kernel stack. -/
theorem untouched_of_reachable (h : Apart s₀ live users₀) (hkernel : s₀.kernel.KernelOnly)
    (hy : y ∈ users₀)
    (hp : ((userTasks s₀ users₀).restrict (Others y)).Reachable (fun _ => True) p) :
  (∀ v < 2 ^ 32, p.1.kernel.userTranslate (p.1.cr3 y) v = s₀.kernel.userTranslate (s₀.cr3 y) v
      ∧ p.1.userByte y v = s₀.userByte y v)
    ∧ (p.1.tasks.task y).tss.esp0 = (s₀.tasks.task y).tss.esp0
    ∧ ∀ a, (s₀.tasks.task y).tss.esp0 ≤ a + memPageSize → a < (s₀.tasks.task y).tss.esp0 →
      p.1.kernel.mem a = s₀.kernel.mem a
  := by
  obtain ⟨live', hspares, hapart, hy', hkept⟩ := h.kept_of_reachable hy hp
  refine ⟨?_, hkept.esp0, ?_⟩
  · intro v hv
    apply hkept.user h.toFrames hapart.toFrames (h.dir y hy) _ hkernel
      (KernelOnly.of_spares hkernel hspares) hv
    rw [← hkept.cr3]
    exact hapart.dir y hy'
  · intro a ha ha'
    obtain ⟨stack, hstack, -⟩ := h.stack y hy
    unfold memPageSize at hstack ha
    exact hkept.stack stack hstack a (by omega) (by omega)

end Os

/-! ### A program to start with -/

namespace Kernel

/-- The first user page is mapped in a directory that has no page and no table for it. -/
theorem memoryAllocForPageDir_first {s : Kernel} {live : Set Nat} {d f g : Nat} {rest : List Nat}
    (hf : Frames s live) (hd : d ∈ live) (hnone : userPages s.mem d = [])
    (htable : tableAt s.mem d 512 = none) (hfree : s.free = f :: g :: rest) :
  ∃ t, s.memoryAllocForPageDir d 0x80000000 4096 7 = (0, t)
    ∧ Built 512 live s t d [(524288, mapWord 7)] none ∧ userPages t.mem d = [524288]
    ∧ t.free.length = rest.length
  := by
  obtain ⟨r, t, hb, hresult⟩ := memoryAllocForPageDir_spec (d := d) 512 hf.range hf.nodes hd
    (show 7 < 4096 by decide) (show memoryTaskBase ≤ 0x80000000 by decide) (by decide)
    (show ∀ v ∈ allocPages 0x80000000 4096, 512 ≤ v / 1024 by decide)
  have hpages : mapsWith 7 (allocPages 0x80000000 4096) = [(524288, mapWord 7)] := by
    rw [show allocPages 0x80000000 4096 = [524288] by decide]
    rfl
  rw [hpages] at hb
  have hentry : (s.space 512 d).table (tableIndex 524288) = none := by
    rw [space_table (by decide) (by decide)]
    exact htable
  have hmap := Space.map_of_new_table (v := 524288) hfree hentry (mapWord 7)
  have hspace := hb.space
  rw [Space.mapAll_cons_of_mapped hmap, Space.mapAll_nil, Prod.mk.injEq] at hspace
  obtain ⟨rfl, hspace⟩ := hspace
  obtain ⟨frame, hframe, -⟩ := Space.mapAll_entry_of_mapped (free_nodup hf.range) (by simp) hb.space
  obtain ⟨hin, hword⟩ := hframe 524288 (mapWord 7) List.mem_cons_self
  rw [space_entry (by decide) (by decide)] at hword
  have haligned := (hf.range.free_bounds hin).1
  refine ⟨t, hresult, hb, ?_, ?_⟩
  · have hfirst : presentPages t.mem d 524288 1 = [524288] := by
      rw [presentPages_one, hword, if_pos (mapWord_present haligned (by decide))]
    have hrest : presentPages t.mem d (524288 + 1) 524287 = [] := by
      apply List.eq_nil_iff_forall_not_mem.mpr
      intro v hv
      obtain ⟨hrange, hpresent⟩ := mem_presentPages.mp hv
      rw [hb.pteAt_of_not_mem (by omega) (by omega) (by simp; omega)] at hpresent
      have hold : v ∈ userPages s.mem d := mem_presentPages.mpr ⟨by omega, hpresent⟩
      rw [hnone] at hold
      cases hold
    rw [userPages, show 524288 = 1 + 524287 from rfl, presentPages_append,
      show 1 + 524287 = 524288 from rfl, hfirst, hrest]
    rfl
  · have hlength := congrArg (fun p => p.free.length) hspace
    exact hlength.symm

/-- The first task's kernel with a page at the first user address. -/
def stackKernel : Kernel :=
  (userKernel.memoryAllocForPageDir 0x102000 0x80000000 4096 7).2

theorem built_stackKernel :
  Built 512 {0x102000} userKernel stackKernel 0x102000 [(524288, mapWord 7)] none
    ∧ userPages stackKernel.mem 0x102000 = [524288] ∧ stackKernel.free.length = 7
  := by
  obtain ⟨-, hguarded, -, -, hfree, hnone⟩ := spares_userKernel
  obtain ⟨k, heq, hc⟩ := userKernel_created
  have htable : tableAt userKernel.mem 0x102000 512 = none := by
    rw [heq]
    exact hc.tableAt (by decide) (by decide)
  obtain ⟨t, hresult, hb, hpages, hlength⟩ := memoryAllocForPageDir_first hguarded.toFrames rfl hnone
    htable hfree
  rw [show stackKernel = t from congrArg Prod.snd hresult]
  exact ⟨hb, hpages, hlength⟩

theorem spares_stackKernel :
  Spares userKernel {0x102000} stackKernel {0x102000} ∧ Guarded stackKernel {0x102000}
  := by
  obtain ⟨-, hguarded, -⟩ := spares_userKernel
  obtain ⟨hb, -, -⟩ := built_stackKernel
  have hspares := hguarded.built rfl hb (by
    intro v e hin
    rw [List.mem_singleton, Prod.mk.injEq] at hin
    exact ⟨7, by decide, hin.2⟩)
  exact ⟨hspares, hspares.guarded hguarded (hguarded.toFrames.built rfl hb)⟩

theorem pteAt_kernelPage_eq {v : Nat} (hv : v < 2 ^ 20) :
  pteAt kernelPage.mem 0x5000 v = if v = 0 then 3 else 0
  := by
  by_cases h : v = 0
  · rw [if_pos h, h]
    exact pteAt_kernelPage
  · rw [if_neg h]
    have htable := tableAt_kernelPage (i := v / 1024) (by omega)
    split_ifs at htable with hfirst
    · have hmem : 0x100000 ∈ (boot 12).free := by
        rw [boot_free_cons]
        apply List.mem_cons_self
      have hnone : tableAt (boot 12).mem 0x5000 0 = none := by
        rw [tableAt_eq_none_iff]
        decide
      have hinstall := (boot_distinct 12).tableAt_install rfl (i := 0) (by decide)
        (show 0x100000 % 4096 = 0 by decide) (by decide) hmem rfl (show v / 1024 < 1024 by omega)
      rw [if_pos ⟨rfl, hfirst⟩] at hinstall
      have hentry := (boot_distinct 12).pteAt_install rfl (show 0 < 1024 by decide) hnone
        (show 0x100000 % 4096 = 0 by decide) (by decide) hmem rfl (Nat.zero_le _) hv
      rw [pteAt_of_table hinstall] at hentry
      rw [pteAt_of_table htable, kernelPage_eq]
      change load32 (store32 (Nodes.install (boot 12).mem 0x5000 0 0x100000) 0x100000 3) _ = 0
      rw [load32_store32_of_disjoint _ _ (by omega), hentry, pteAt_of_no_table (hfirst ▸ hnone)]
    · exact pteAt_of_no_table htable

theorem kernelOnly_kernelPage :
  kernelPage.KernelOnly
  := by
  intro v hv _
  rw [kernelPage_base, pteAt_kernelPage_eq (by omega)]
  split_ifs <;> decide

end Kernel

namespace Os

open Kernel

/-- The first task with this page. -/
def withStack : Os :=
  { firstUser with kernel := stackKernel }

theorem users_withStack :
  Users withStack {0x102000} {.firstTask}
  := users_firstUser.keep spares_stackKernel.1 spares_stackKernel.2 rfl fun _ _ => rfl

theorem kernelOnly_firstUser :
  firstUser.kernel.KernelOnly
  := KernelOnly.of_spares kernelOnly_kernelPage spares_userKernel.1

theorem kernelOnly_withStack :
  withStack.kernel.KernelOnly
  := KernelOnly.of_spares kernelOnly_firstUser spares_stackKernel.1

-- the kernel of the program is not to be evaluated
attribute [local irreducible] stackKernel

theorem currPageDir_withStack :
  withStack.currPageDir = 0x102000
  := by
  change (withStack.tasks.task .firstTask).tss.cr3 = _
  rw [show withStack.tasks = firstUser.tasks from rfl, tss_firstUser]

theorem cr3_withStack :
  withStack.kernel.cr3 = withStack.currPageDir
  := by
  rw [currPageDir_withStack]
  exact built_stackKernel.1.cr3

theorem sysFork_withStack :
  ∃ r t, withStack.sysFork = .ok (r, t) ∧ r ≠ -1 ∧ withStack.ForkInside {.firstTask}
  := by
  obtain ⟨-, hpages, hlength⟩ := built_stackKernel
  have hdir := currPageDir_withStack
  have hchild : withStack.tasks.allocTask = some (.slot 0) := allocTask_firstUser
  have henough : 2 + (copyAsks (userPages withStack.kernel.mem withStack.currPageDir)).length
      ≤ withStack.kernel.free.length := by
    rw [hdir, show withStack.kernel = stackKernel from rfl, hpages, hlength]
    decide
  have hcurr : withStack.tasks.allocTask ≠ some withStack.tasks.currTask := by
    rw [hchild]
    change some (TaskRef.slot 0) ≠ some .firstTask
    decide
  obtain ⟨r, t, hfork, hr, -⟩ := sysFork_of_enough users_withStack.toFrames
    (users_withStack.dir .firstTask rfl) cr3_withStack hcurr hchild henough
  refine ⟨r, t, hfork, hr, ?_⟩
  intro child hsame
  rw [hchild, Option.some.injEq] at hsame
  subst hsame
  exact ⟨by decide, .inr (.inr henough)⟩

/-- The program reaches its page.  It forks, and then neither reaches what the other one does. -/
theorem isolated_withStack :
  withStack.kernel.userTranslate (withStack.cr3 .firstTask) 0x80000000 = some 0x103000
    ∧ ¬ KernelByte withStack {.firstTask} 0x103000
    ∧ ∃ r t, withStack.sysFork = .ok (r, t) ∧ r ≠ -1 ∧ ∀ v < 2 ^ 32, ∀ a,
      t.kernel.userTranslate (t.cr3 (.slot 0)) v = some a → memoryTaskBase ≤ v
        ∧ ¬ KernelByte t ({.firstTask} ∪ withStack.children r) a
        ∧ ∀ w < 2 ^ 32, t.kernel.userTranslate (t.cr3 .firstTask) w ≠ some a
  := by
  have htranslate : withStack.kernel.userTranslate (withStack.cr3 .firstTask) 0x80000000
      = some 0x103000 := by
    rw [cr3, show withStack.tasks = firstUser.tasks from rfl, tss_firstUser]
    decide +kernel
  have hinit : ((userTasks withStack {.firstTask}).restrict CallInside).Reachable (fun _ => True)
      (withStack, {.firstTask}) := .init rfl
  obtain ⟨-, hnot, -⟩ := isolated_of_reachable users_withStack kernelOnly_withStack hinit
    (x := .firstTask) (v := 0x80000000) rfl (by decide) htranslate
  obtain ⟨r, t, hfork, hr, hinside⟩ := sysFork_withStack
  refine ⟨htranslate, hnot, r, t, hfork, hr, ?_⟩
  have hcall : CallInside (withStack, {TaskRef.firstTask}) .fork := hinside
  have hforked := hinit.step trivial ⟨hcall, .fork ⟨rfl, cr3_withStack⟩ hfork⟩
  intro v hv a ha
  obtain ⟨hbase, hkernel, halone⟩ := isolated_of_reachable users_withStack kernelOnly_withStack
    hforked (x := .slot 0) (.inr ⟨allocTask_firstUser, hr⟩) hv ha
  refine ⟨hbase, hkernel, ?_⟩
  intro w hw hparent
  cases (halone .firstTask (.inl rfl) w hw hparent).1

/-- The first task runs and writes a byte below the frames. -/
def wrote (s : Os) (b : UInt8) : Os :=
  { s with
    kernel := (s.kernel.setMem (store8 s.kernel.mem 0 b)).mmuSetPageDir (s.cr3 .firstTask)
    tasks := { s.tasks with currTask := .firstTask } }

/-- It leaves its child alone. -/
theorem untouched_firstUser :
  ∃ r t, firstUser.sysFork = .ok (r, t) ∧ r ≠ -1 ∧ ∀ b, ∀ v < 2 ^ 32,
    (t.wrote b).userByte (.slot 0) v = t.userByte (.slot 0) v
  := by
  obtain ⟨r, t, hfork, hr, -⟩ := sysFork_firstUser
  have hapart : Apart firstUser {0x102000} {.firstTask} := by
    use users_firstUser
    rintro x rfl y rfl _
    rfl
  have hstep : TaskStep (firstUser, {.firstTask}) .fork (t, {.firstTask} ∪ firstUser.children r) :=
    .fork inCall_firstUser hfork
  have hinside : CallInside (firstUser, {TaskRef.firstTask}) .fork := forkInside_firstUser
  obtain ⟨live, hspares, hapart', -⟩ := hapart.step hinside hstep
  have hkernel := KernelOnly.of_spares kernelOnly_firstUser hspares
  have hchild : TaskRef.slot 0 ∈ {.firstTask} ∪ firstUser.children r :=
    .inr ⟨allocTask_firstUser, hr⟩
  refine ⟨r, t, hfork, hr, ?_⟩
  intro b v hv
  have hruns : Runs t .firstTask (t.wrote b) := by
    refine ⟨rfl, rfl, ?_, rfl, fun _ => rfl, fun _ => rfl, fun _ => rfl, fun _ => rfl,
      fun _ => rfl⟩
    intro y hy
    apply store8_of_ne
    rintro rfl
    apply hy
    refine .inr (.inr ⟨by decide, ?_⟩)
    have hbase : memPageSize ≤ t.kernel.layout.gKernelPageDir := hapart'.base_pos
    unfold memPageSize at hbase
    omega
  have hinit : ((userTasks t ({.firstTask} ∪ firstUser.children r)).restrict
      (Others (.slot 0))).Reachable (fun _ => True) (t, {.firstTask} ∪ firstUser.children r) :=
    .init rfl
  exact ((untouched_of_reachable hapart' hkernel hchild (hinit.step (a := .run .firstTask) trivial
    ⟨⟨trivial, show TaskRef.slot 0 ≠ .firstTask by decide⟩, .run (.inl rfl) hruns⟩)).1 v hv).2

end Os

end Dmos
