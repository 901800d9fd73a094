import Dmos.Task.NewProgram

/-!
# Tasks in address spaces of their own

While tasks fork, execute programs and grow their heaps, each of them runs in a directory of its
own and on a kernel stack, and no directory in use owns a page table of the kernel (`Users`).  A
program that is executed stays inside of the caller's address space when there is room for what
is copied to it (`ExecInside`); then `sys_execve` gives the caller another directory and leaves the
kernel half alone (`Users.sysExecve`).
-/

open ByteMemory AddressSpace Loop

namespace Dmos

namespace Kernel

variable {s k t : Kernel} {live live' : Set Nat} {d stack : Nat}

/-- Which directory is loaded does not matter. -/
theorem Guarded.mmuSetPageDir (h : Guarded s live) (d : Nat) :
  Guarded (s.mmuSetPageDir d) live
  := ⟨Os.frames_mmuSetPageDir h.toFrames d, fun g hg => ⟨(h.tables g hg).marked,
    (h.tables g hg).unowned⟩⟩

theorem Spares.mmuSetPageDir (h : Spares s live t live') (d : Nat) :
  Spares s live (t.mmuSetPageDir d) live'
  := ⟨h.layout, fun g hg => ⟨(h.reserved g hg).marked, (h.reserved g hg).unowned⟩, h.base, h.tables⟩

/-- A directory is given up while another one is loaded. -/
theorem Guarded.destroyed (h : Guarded s live) (hd : d ∈ live) (cr3 : Nat) :
  Spares s live ((s.mmuSetPageDir cr3).memoryDestoryUvm d) (live \ {d})
    ∧ Guarded ((s.mmuSetPageDir cr3).memoryDestoryUvm d) (live \ {d})
  := by
  have hset := h.mmuSetPageDir cr3
  have hfreed := freed_memoryDestoryUvm hset.toFrames hd
  have hspares := Spares.freed hfreed
  exact ⟨((Spares.refl s live).mmuSetPageDir cr3).trans hspares,
    hspares.guarded hset (hset.toFrames.destroyed hfreed)⟩

theorem Guarded.mem_destroyed (h : Guarded s live) (hd : d ∈ live) (cr3 : Nat) :
  ((s.mmuSetPageDir cr3).memoryDestoryUvm d).mem = s.mem
  := (freed_memoryDestoryUvm (h.mmuSetPageDir cr3).toFrames hd).mem

/-- The frame of a system call is set up on the kernel stack. -/
theorem setFrame_mem {frame entry esp x : Nat} (h : ¬ (frame ≤ x ∧ x < frame + 88)) :
  (Os.setFrame s frame entry esp).mem x = s.mem x
  := by
  dsimp only [Os.setFrame, store_mem]
  repeat rw [store32_of_disjoint _ _ (by omega)]

theorem setFrame_eq (s : Kernel) (frame entry esp : Nat) :
  Os.setFrame s frame entry esp = s.setMem (Os.setFrame s frame entry esp).mem
  := rfl

end Kernel

namespace Os

open Kernel

-- the loops over directories are not to be unrolled by unification
attribute [local irreducible] Kernel.memoryDestoryUvm

/-- Each of the tasks `users` runs in a directory of its own, on a kernel stack, and no directory
in use owns a page table of the kernel. -/
structure Users (s : Os) (live : Set Nat) (users : Set TaskRef) : Prop
    extends Guarded s.kernel live where
  base_pos : memPageSize ≤ s.kernel.layout.gKernelPageDir
  file : s.fs.Placed s.kernel
  dir : ∀ x ∈ users, (s.tasks.task x).tss.cr3 ∈ live
  own : ∀ x ∈ users, ∀ y ∈ users, (s.tasks.task x).tss.cr3 = (s.tasks.task y).tss.cr3 → x = y
  stack : ∀ x ∈ users, ∃ stack, (s.tasks.task x).tss.esp0 = stack + memPageSize
    ∧ s.kernel.Reserved live stack ∧ stack ∉ s.kernel.kernelTables

variable {s s₁ t : Os} {live live' : Set Nat} {users : Set TaskRef} {x : TaskRef} {r : Int}
  {d stack : Nat} {l : Locals} {tty : Tty} {name argv : Nat}

/-- A task whose directory is not looked at by the others gets one, if it is one of `users`. -/
theorem Users.replace (h : Users s live users) (hspares : Spares s.kernel live t.kernel live')
    (hguarded : Guarded t.kernel live') (hfile : t.fs.tempAddr = s.fs.tempAddr)
    (hesp : ∀ y ∈ users, (t.tasks.task y).tss.esp0 = (s.tasks.task y).tss.esp0)
    (hdir : ∀ y ∈ users, (t.tasks.task y).tss.cr3 ∈ live')
    (hown : ∀ y ∈ users, ∀ z ∈ users, (t.tasks.task y).tss.cr3 = (t.tasks.task z).tss.cr3 → y = z) :
  Users t live' users
  where
  toGuarded := hguarded
  base_pos := by
    rw [hspares.layout]
    apply h.base_pos
  file := by
    have hplaced := h.file
    constructor
    · rw [hfile]
      apply hplaced.start
    · rw [hfile, hspares.layout]
      apply hplaced.separate
  dir := hdir
  own := hown
  stack y hy := by
    obtain ⟨stack, hstack, hreserved, hnot⟩ := h.stack y hy
    refine ⟨stack, ?_, hspares.reserved stack hreserved, ?_⟩
    · rw [hesp y hy, hstack]
    · rw [hspares.kernelTables_eq]
      apply hnot

/-- The tasks keep their directories. -/
theorem Users.keep (h : Users s live users) (hspares : Spares s.kernel live t.kernel live)
    (hguarded : Guarded t.kernel live) (hfile : t.fs.tempAddr = s.fs.tempAddr)
    (htasks : ∀ y ∈ users, (t.tasks.task y).tss = (s.tasks.task y).tss) :
  Users t live users
  := by
  apply h.replace hspares hguarded hfile
  · intro y hy
    rw [htasks y hy]
  · intro y hy
    rw [htasks y hy]
    apply h.dir y hy
  · intro y hy z hz heq
    rw [htasks y hy, htasks z hz] at heq
    apply h.own y hy z hz heq

theorem Users.hasStack (h : Users s live users) (hx : x ∈ users) :
  ∃ stack, (s.tasks.task x).tss.esp0 = stack + memPageSize ∧ s.kernel.HasStack live stack
  := by
  obtain ⟨stack, hstack, hreserved, hnot⟩ := h.stack x hx
  exact ⟨stack, hstack, h.toGuarded, hreserved, hnot, h.base_pos⟩

/-! ### Executing a program -/

/-- A program has been executed on the kernel stack `stack`: the tasks are still in address spaces
of their own, and what has been written lies in frames that were free before, in the kernel stack,
or below the frames. -/
structure Executed (s : Os) (live : Set Nat) (users : Set TaskRef) (stack : Nat) (t : Os) :
    Prop where
  spaces : ∃ live', Spares s.kernel live t.kernel live' ∧ Users t live' users
  mem : ∀ x, memExtStart ≤ x → (∀ g ∈ s.kernel.free, ¬ (g ≤ x ∧ x < g + 4096)) →
    ¬ (stack ≤ x ∧ x < stack + 4096) → t.kernel.mem x = s.kernel.mem x
  others : ∀ y, y ≠ s.tasks.currTask → (t.tasks.task y).tss = (s.tasks.task y).tss
  esp0 : ∀ y, (t.tasks.task y).tss.esp0 = (s.tasks.task y).tss.esp0

/-- The name of a program is all that changes. -/
theorem setFileName_sameSpaces (h : s.setFileName x name = some s₁) :
  SameSpaces s.tasks s₁.tasks ∧ s₁.kernel = s.kernel ∧ s₁.fs = s.fs
  := by
  rw [setFileName] at h
  split at h
  · cases h
  · split_ifs at h
    · cases h
      exact ⟨.refl _, rfl, rfl⟩
    · split at h
      · cases h
      · cases h
        refine ⟨?_, rfl, rfl⟩
        apply sameSpaces_setTask
        rfl

/-- The label `exec_failed` gives the new directory up, and the caller keeps its own. -/
theorem Users.execFailed (h : Users s live users) (s₁ : Os)
    (hd : d ∉ live) (hd' : d ≠ 0) (hprepares : Prepares s.kernel live d stack s₁.kernel)
    (hs : s.kernel.HasStack live stack) (htasks : SameSpaces s.tasks s₁.tasks)
    (hfile : s₁.fs.tempAddr = s.fs.tempAddr)
    (hresult : s₁.execFailed s.tasks.currTask s.currPageDir d = (r, t)) :
  Executed s live users stack t
  := by
  obtain ⟨hspares, hguarded⟩ :=
    (hprepares.guarded hs).destroyed (Set.mem_insert d live) s.currPageDir
  have hmem := (hprepares.guarded hs).mem_destroyed (Set.mem_insert d live) s.currPageDir
  rw [Set.insert_sdiff_self_of_notMem hd] at hspares hguarded
  have hcr3 : (s₁.tasks.task s.tasks.currTask).tss.cr3 = s.currPageDir := by
    rw [htasks.tss, currPageDir]
  rw [← hcr3, execFailed_eq hd', hcr3] at hresult
  cases hresult
  have hall := hprepares.spares.trans hspares
  refine ⟨⟨live, hall, h.keep hall hguarded hfile fun y _ => htasks.tss y⟩, ?_,
    fun y _ => htasks.tss y, fun y => congrArg Tss.esp0 (htasks.tss y)⟩
  rw [hmem]
  exact hprepares.mem

/-- The caller gets the new directory, and its own is given up. -/
theorem Users.exchange (h : Users s live users) (s₁ : Os) (hx : s.tasks.currTask ∈ users)
    (hd : d ∉ live) (hprepares : Prepares s.kernel live d stack s₁.kernel)
    (hs : s.kernel.HasStack live stack) (htasks : SameSpaces s.tasks s₁.tasks)
    (hfile : s₁.fs.tempAddr = s.fs.tempAddr) :
  Executed s live users stack { s₁.setCr3 s.tasks.currTask d with
    kernel := (s₁.kernel.mmuSetPageDir d).memoryDestoryUvm s.currPageDir }
  := by
  have hold : s.currPageDir ∈ live := h.dir _ hx
  obtain ⟨hspares, hguarded⟩ :=
    (hprepares.guarded hs).destroyed (Set.mem_insert_of_mem d hold) d
  have hmem := (hprepares.guarded hs).mem_destroyed (Set.mem_insert_of_mem d hold) d
  have hall := hprepares.spares.trans hspares
  generalize (s₁.kernel.mmuSetPageDir d).memoryDestoryUvm s.currPageDir = k at hall hguarded hmem ⊢
  have hself : ((s₁.setCr3 s.tasks.currTask d).tasks.task s.tasks.currTask).tss
      = { (s.tasks.task s.tasks.currTask).tss with cr3 := d } := by
    rw [← htasks.tss]
    exact congrArg Task.tss (TaskManager.setTask_task_self _)
  have hother (y : TaskRef) (hy : y ≠ s.tasks.currTask) :
      ((s₁.setCr3 s.tasks.currTask d).tasks.task y).tss = (s.tasks.task y).tss := by
    rw [← htasks.tss]
    exact congrArg Task.tss (Function.update_of_ne hy _ _)
  have hne (y : TaskRef) (hy : y ∈ users) : (s.tasks.task y).tss.cr3 ≠ d := by
    rintro rfl
    apply hd (h.dir y hy)
  have hesp0 (y : TaskRef) : ((s₁.setCr3 s.tasks.currTask d).tasks.task y).tss.esp0
      = (s.tasks.task y).tss.esp0 := by
    by_cases heq : y = s.tasks.currTask
    · rw [heq, hself]
    · rw [hother y heq]
  refine ⟨⟨_, hall, h.replace hall hguarded hfile ?_ ?_ ?_⟩, hmem ▸ hprepares.mem, hother, hesp0⟩
  · intro y _
    apply hesp0
  · intro y hy
    by_cases heq : y = s.tasks.currTask
    · rw [heq, hself]
      use Set.mem_insert d live
      rintro rfl
      apply hd hold
    · rw [hother y heq]
      use Set.mem_insert_of_mem d (h.dir y hy)
      intro hsame
      apply heq (h.own y hy _ hx hsame)
  · intro y hy z hz
    by_cases heq : y = s.tasks.currTask
    · by_cases heq' : z = s.tasks.currTask
      · intro _
        rw [heq, heq']
      · rw [heq, hself, hother z heq']
        intro hsame
        cases hne z hz hsame.symm
    · by_cases heq' : z = s.tasks.currTask
      · rw [heq', hself, hother y heq]
        intro hsame
        cases hne y hy hsame
      · rw [hother y heq, hother z heq']
        apply h.own y hy z hz

/-- The last part of `sys_execve`. -/
theorem Users.start {args : List Arg} {entry : Nat} (h : Users s live users)
    (hx : s.tasks.currTask ∈ users) (hcr3 : s.kernel.cr3 ∈ live) (hd : d ∉ live) (hd' : d ≠ 0)
    (hprepares : Prepares s.kernel live d stack s₁.kernel) (hs : s.kernel.HasStack live stack)
    (hstack : (s.tasks.task s.tasks.currTask).tss.esp0 = stack + memPageSize)
    (htasks : SameSpaces s.tasks s₁.tasks) (hfile : s₁.fs.tempAddr = s.fs.tempAddr)
    (hl : l.On stack) (hargs : ArgsInside s.kernel argv args)
    (hstart : sysExecve.start s₁ l argv s.currPageDir d entry = .ok (r, t)) :
  Executed s live users stack t
  := by
  have hbounds := hs.reserved.bounds hs.toFrames
  have hstop : stack + 4096 ≤ 2147483648 := hbounds.2.2
  obtain ⟨h₂, -⟩ := hprepares.alloc hs (show pteP ||| pteU ||| pteW < 4096 by decide)
    (show memoryTaskBase ≤ memTaskStackTop - memTaskStackSize by decide) (by decide)
    (show memTaskStackTop - memTaskStackSize + memTaskStackSize ≤ 2 ^ 32 by decide)
  rw [sysExecve.start] at hstart
  dsimp only at hstart
  rw [htasks.currTask] at hstart
  generalize s₁.kernel.memoryAllocForPageDir d (memTaskStackTop - memTaskStackSize)
    memTaskStackSize (pteP ||| pteU ||| pteW) = p at hstart h₂
  obtain ⟨err, k₂⟩ := p
  dsimp only at hstart h₂
  have hcount := (hargs.congr fun a huser hlt => h₂.readByte_eq hs hcr3 huser hlt).stringsCount_eq
  split_ifs at hstart
  · exact h.execFailed { s₁ with kernel := k₂ } hd hd' h₂ hs htasks hfile (Except.ok.inj hstart)
  · rw [hcount] at hstart
    dsimp only at hstart
    split at hstart
    · cases hstart
    next err k₃ hcopy =>
      have h₃ := h₂.copyArgs hs hcr3 hargs hl.taskArgs hl.taskArgs_end hcopy
      split_ifs at hstart
      · exact h.execFailed { s₁ with kernel := k₃ } hd hd' h₃ hs htasks hfile
          (Except.ok.inj hstart)
      · have hframe : ({ s₁ with kernel := k₃ } : Os).frameAddr s.tasks.currTask
            = stack + 4008 := by
          rw [frameAddr]
          dsimp only
          rw [htasks.tss, hstack, u32Sub_of_le (by unfold memPageSize; omega)
            (by unfold memPageSize; omega)]
          unfold memPageSize
          omega
        rw [hframe] at hstart
        have h₄ : Prepares s.kernel live d stack (setFrame k₃ (stack + 4008) entry
            (memTaskStackTop - memTaskArgSize - 4 * syscallParamCount)) := by
          rw [setFrame_eq]
          apply (h₃.write_stack hs (show stack ≤ stack + 4008 by omega)
            (show stack + 4008 + 88 ≤ stack + memPageSize by unfold memPageSize; omega) _).1
          intro y hy
          apply setFrame_mem hy
        generalize setFrame k₃ (stack + 4008) entry
          (memTaskStackTop - memTaskArgSize - 4 * syscallParamCount) = k₄ at hstart h₄
        have hexecuted := h.exchange { s₁ with kernel := k₄ } hx hd h₄ hs htasks hfile
        cases hstart
        exact hexecuted

/-- The string at `name` is in memory that no new directory takes. -/
structure PathAt (s : Kernel) (name : Nat) (path : List UInt8) : Prop where
  string : IsString s name path
  place : name + path.length < memExtStart ∨ memoryTaskBase ≤ name
  end_lt : name + path.length < 2 ^ 32

/-- A program that is executed stays inside of its address space: there is no frame for a
directory, nothing is opened, the file is not an image, or the arguments are at user addresses and
either a terminal is opened or the program and its stack end before the last address. -/
inductive ExecInside (s : Os) (name argv : Nat) : Prop where
  | noDir : s.kernel.free = [] → ExecInside s name argv
  | closed {path : List UInt8} : PathAt s.kernel name path → path.head? ≠ some 47 →
      kStrncmp path [116, 116, 121] ≠ 0 → ExecInside s name argv
  | rejected {path : List UInt8} : PathAt s.kernel name path → path.head? = some 47 →
      s.image.elfIdentOk s.fs.tempAddr = false → ExecInside s name argv
  | typed {path : List UInt8} {args : List Arg} : PathAt s.kernel name path →
      path.head? ≠ some 47 → ArgsInside s.kernel argv args → ExecInside s name argv
  | program {args : List Arg} : s.ProgramInside → ArgsInside s.kernel argv args →
      ExecInside s name argv

/-- The path is read as before when a directory has been created. -/
theorem PathAt.created {k : Kernel} {rest path : List UInt8} {c : Nat} {free : List Nat}
    (hs : Guarded s.kernel live) (hcr3 : s.kernel.cr3 ∈ live) (hfree : s.kernel.free = c :: free)
    (hc : Created s.kernel k c) (h : PathAt s.kernel name path)
    (hread : k.string name = some rest) :
  rest = path
  := by
  have hlt := h.end_lt
  have hbounds := hs.toFrames.range.free_bounds (f := c)
    (by rw [← Kernel.free, hfree]; apply List.mem_cons_self)
  have hplace : name + path.length < c ∨ c + 4096 ≤ name := by
    rcases h.place with hlow | huser
    · left
      omega
    · right
      omega
  have hstring := (string_eq_some_iff (by omega)).mpr
    ⟨by omega, h.string.created hs.toFrames hfree hc hcr3 hplace hlt⟩
  rw [hstring, Option.some.injEq] at hread
  exact hread.symm

/-- The program is inside of its address space when it is loaded, and so are the arguments when
there is an entry. -/
theorem ExecInside.loaded {o : Os} {path : List UInt8} {entry : Nat}
    (h : ExecInside s name argv) (hfree : s.kernel.free ≠ [])
    (hpath : ∀ {path'}, PathAt s.kernel name path' → path = path') (hfs : o.fs = s.fs)
    (hstart : memPageSize ≤ s.fs.tempAddr) (hlow : LowKept s.kernel o.kernel)
    (hl : l.Distinct o.kernel o.fs) (hload : o.loadElfFile l tty x path d = .ok (entry, t)) :
  (path.head? = some 47 → o.ProgramInside) ∧ (entry ≠ 0 → ∃ args, ArgsInside s.kernel argv args)
  := by
  cases h with
  | noDir hnone => cases hfree hnone
  | closed hat hhead htty =>
      obtain rfl := hpath hat
      refine ⟨fun hin => absurd hin hhead, ?_⟩
      rw [loadElfFile, sysOpen, if_neg htty, if_neg hhead] at hload
      cases hload
      intro hne
      cases hne rfl
  | rejected hat hhead hident =>
      obtain rfl := hpath hat
      have hident' : o.image.elfIdentOk o.fs.tempAddr = false := by
        have hend := s.fs.tempAddr_end
        unfold memExtStart at hend
        rw [← hident, hfs]
        apply (ehdr_of_bytes _).1
        intro j hj
        apply image_lowKept hfs hlow _ (by omega)
        unfold memExtStart
        omega
      refine ⟨fun _ => .inl hident', fun hne => ?_⟩
      obtain ⟨-, -, hentry | ⟨hok, -⟩⟩ := loadElfFile_path hl hhead (.inl hident') hload
      · cases hne hentry
      · cases hok hident'
  | typed hat hhead hargs =>
      obtain rfl := hpath hat
      exact ⟨fun hin => absurd hin hhead, fun _ => ⟨_, hargs⟩⟩
  | program hprogram hargs =>
      exact ⟨fun _ => hprogram.congr hfs hstart hlow, fun _ => ⟨_, hargs⟩⟩

/-- `sys_execve` leaves the other tasks alone. -/
theorem Users.executed (h : Users s live users) (hx : s.tasks.currTask ∈ users)
    (hcr3 : s.kernel.cr3 ∈ live)
    (hl : l.On ((s.tasks.task s.tasks.currTask).tss.esp0 - memPageSize))
    (hfd : tty.fd ≠ tempFileId) (hinside : ExecInside s name argv)
    (hexec : s.sysExecve l tty name argv = .ok (r, t)) :
  Executed s live users ((s.tasks.task s.tasks.currTask).tss.esp0 - memPageSize) t
  := by
  obtain ⟨stack, hstack, hs⟩ := h.hasStack hx
  rw [hstack, Nat.add_sub_cancel] at hl ⊢
  rw [Os.sysExecve] at hexec
  dsimp only at hexec
  split at hexec
  · cases hexec
  next s₁ hname =>
    obtain ⟨htasks, hkernel, hfs⟩ := setFileName_sameSpaces hname
    have hold : (s₁.tasks.task s.tasks.currTask).tss.cr3 = s.currPageDir := by
      rw [htasks.tss, currPageDir]
    rw [hold, hkernel] at hexec
    rcases hfree : s.kernel.free with _ | ⟨c, free⟩
    · rw [memoryCreateUvm_of_full hfree] at hexec
      dsimp only at hexec
      rw [if_pos rfl, Os.execFailed, if_neg (by decide)] at hexec
      cases hexec
      have hspares := Spares.refl s.kernel live
      refine ⟨⟨live, hspares, h.keep hspares h.toGuarded (by rw [hfs]) fun y _ => htasks.tss y⟩,
        fun _ _ _ _ => rfl, fun y _ => htasks.tss y, fun y => congrArg Tss.esp0 (htasks.tss y)⟩
    · obtain ⟨k, hcreate, hc⟩ := memoryCreateUvm_of_free h.range hfree
      have hfirst : c ∈ s.kernel.free := by
        rw [hfree]
        apply List.mem_cons_self
      have hbounds := h.range.free_bounds hfirst
      have hne : c ≠ 0 := by
        rintro rfl
        cases hbounds.2.1
      have hnot : c ∉ live := fun hlive => (h.toFrames.marked_dir hlive).not_free h.range hfirst
      have hprepares := Prepares.created h.toGuarded hfree hc stack
      rw [hcreate] at hexec
      dsimp only at hexec
      rw [if_neg hne] at hexec
      split at hexec
      · cases hexec
      next path hpath =>
        have hread {path' : List UInt8} (hat : PathAt s.kernel name path') : path = path' :=
          hat.created h.toGuarded hcr3 hfree hc hpath
        have hplaced : s₁.fs.Placed k := by
          rw [hfs]
          exact ⟨h.file.start, by rw [hc.layout]; apply h.file.separate⟩
        split at hexec
        · cases hexec
        next entry s₂ hload =>
          have hlow : LowKept s.kernel k := by
            intro y _ hy
            apply hc.outside
            omega
          have hbounds' := hs.reserved.bounds hs.toFrames
          have hdistinct := hl.distinct hbounds'.2.1 hbounds'.2.2 hplaced
          obtain ⟨hprogram, hargs⟩ := hinside.loaded (o := { s₁ with kernel := k })
            (by rw [hfree]; exact List.cons_ne_nil _ _) hread hfs h.file.start hlow hdistinct hload
          have hloader := loadElfFile_loads (o := { s₁ with kernel := k }) hprepares hs hl hplaced
            hfd hprogram hload
          have htasks₂ := htasks.trans hloader.tasks
          have hfile₂ : s₂.fs.tempAddr = s.fs.tempAddr := by
            rw [hloader.temp, hfs]
          by_cases hentry : entry = 0
          · rw [if_pos hentry] at hexec
            exact h.execFailed s₂ hnot hne hloader.prepares hs htasks₂ hfile₂
              (Except.ok.inj hexec)
          · rw [if_neg hentry] at hexec
            obtain ⟨args, hargs⟩ := hargs hentry
            exact h.start hx hcr3 hnot hne hloader.prepares hs hstack htasks₂ hfile₂ hl hargs hexec

/-- `sys_execve` leaves the kernel half alone. -/
theorem Users.sysExecve (h : Users s live users) (hx : s.tasks.currTask ∈ users)
    (hcr3 : s.kernel.cr3 ∈ live)
    (hl : l.On ((s.tasks.task s.tasks.currTask).tss.esp0 - memPageSize))
    (hfd : tty.fd ≠ tempFileId) (hinside : ExecInside s name argv)
    (hexec : s.sysExecve l tty name argv = .ok (r, t)) :
  ∃ live', Spares s.kernel live t.kernel live' ∧ Users t live' users
  := (h.executed hx hcr3 hl hfd hinside hexec).spaces

end Os

end Dmos
