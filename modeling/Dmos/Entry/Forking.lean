import Dmos.Entry.Syscall

/-!
# Calls of `fork`

A task is switched to by the processor: the registers go to the segment of the running task, and
those of the other task come from its segment, together with its page directory
(`Cpu.switchTask`).  A child that is switched to goes on where its parent called `fork`, with the
same registers except the value returned, and reads at every user address what its parent reads
(`libCall_fork`).
-/

open ByteMemory AddressSpace

namespace Dmos

/-! ### Switching -/

/-- The registers that a segment holds. -/
def Tss.registers (t : Tss) : Registers where
  eax := t.eax
  ecx := t.ecx
  edx := t.edx
  ebx := t.ebx
  esp := t.esp
  ebp := t.ebp
  esi := t.esi
  edi := t.edi
  eip := t.eip
  eflags := t.eflags
  cs := t.cs
  ss := t.ss
  ds := t.ds
  es := t.es
  fs := t.fs
  gs := t.gs

/-- A segment with other registers. -/
def Tss.save (t : Tss) (r : Registers) : Tss :=
  { t with
    eax := r.eax
    ecx := r.ecx
    edx := r.edx
    ebx := r.ebx
    esp := r.esp
    ebp := r.ebp
    esi := r.esi
    edi := r.edi
    eip := r.eip
    eflags := r.eflags
    cs := r.cs
    ss := r.ss
    ds := r.ds
    es := r.es
    fs := r.fs
    gs := r.gs }

/-- The switch to another task. -/
def Cpu.switchTask (c : Cpu) (t : TaskRef) : Cpu :=
  let tasks := c.os.tasks.setTss c.os.tasks.currTask
    ((c.os.tasks.task c.os.tasks.currTask).tss.save c.regs)
  { regs := (tasks.task t).tss.registers
    os := { c.os with
      kernel := c.os.kernel.mmuSetPageDir (tasks.task t).tss.cr3
      tasks := { tasks with currTask := t } } }

section Switch

variable {c : Cpu} {t : TaskRef} (hne : c.os.tasks.currTask ≠ t)

include hne

theorem Cpu.switchTask_regs :
  (c.switchTask t).regs = (c.os.tasks.task t).tss.registers
  := by
  rw [switchTask, TaskManager.setTss, TaskManager.setTask_task, if_neg hne.symm]

theorem Cpu.switchTask_kernel :
  (c.switchTask t).os.kernel = c.os.kernel.mmuSetPageDir (c.os.tasks.task t).tss.cr3
  := by
  rw [switchTask, TaskManager.setTss, TaskManager.setTask_task, if_neg hne.symm]

end Switch

/-- `sys_fork` as a function of the system: it ignores the arguments. -/
def handleFork : SysHandle :=
  fun _ _ _ _ s =>
    match s.sysFork with
    | .ok (pid, s) => some (word pid, s)
    | .error _ => none

theorem handleFork_eq {s t : Os} {pid : Int} (a₀ a₁ a₂ a₃ : Nat) (h : s.sysFork = .ok (pid, t)) :
  handleFork a₀ a₁ a₂ a₃ s = some (word pid, t)
  := by rw [handleFork, h]

namespace Os

open TaskManager

variable {s s₁ : Os} {child : TaskRef}

/-! ### The segment of a child -/

/-- The segment of a child before the copy. -/
theorem tss_eq_of_sysFork_init {f c : Nat} {rest : List Nat} (hr : RangeWf s.kernel.gPaddrAlloc)
    (hfree : s.kernel.free = f :: c :: rest)
    (h : sysFork.init s s.tasks.currTask child = (0, s₁)) :
  (s₁.tasks.task child).tss = forkRegisters { s.forkTss f with cr3 := c }
    (s₁.kernel.syscallFrame (s.frameAddr s.tasks.currTask))
  := by
  have hf := hr.free_bounds (f := f) (by rw [← Kernel.free, hfree]; apply List.mem_cons_self)
  have hc := hr.free_bounds (f := c) (by
    rw [← Kernel.free, hfree]
    apply List.mem_cons_of_mem _ List.mem_cons_self)
  unfold memExtStart memoryTaskBase at hf hc
  obtain ⟨kernel, hcreate, -⟩ := Kernel.memoryCreateUvm_of_free (Kernel.rangeWf_take hr)
    (Kernel.free_take hr hfree)
  have hmade := s.tssInit_eq child 0 (s.kernel.syscallFrame (s.frameAddr s.tasks.currTask)).eip
    s.forkEsp
  rw [Kernel.memoryAllocPage, Kernel.addrAllocPage_of_free hr hfree] at hmade
  dsimp only at hmade
  rw [if_neg (by omega), hcreate] at hmade
  dsimp only at hmade
  rw [if_neg (by omega)] at hmade
  rw [sysFork_init_of_made hmade, Prod.mk.injEq] at h
  obtain ⟨-, rfl⟩ := h
  rw [setTask_task_self]
  simp [taskInitFields, insertTaskList, setNode, setTask, forkTss]

/-- The child has the registers of the frame, except for the value returned. -/
theorem registers_sysFork_init {f c dummy : Nat} {rest : List Nat} {r : Registers}
    {args : SyscallArg} (hr : RangeWf s.kernel.gPaddrAlloc) (hfree : s.kernel.free = f :: c :: rest)
    (h : sysFork.init s s.tasks.currTask child = (0, s₁))
    (hframe : WordsAt s.kernel.mem (s.frameAddr s.tasks.currTask) (frameWords r dummy args))
    (hframe₁ : WordsAt s₁.kernel.mem (s.frameAddr s.tasks.currTask) (frameWords r dummy args))
    (hss : r.ss = s.tasks.appDataSel ||| segRpl3) :
  (s₁.tasks.task child).tss.registers = { r with eax := 0, esp := u32 (r.esp + 20) }
  := by
  rw [tss_eq_of_sysFork_init hr hfree h, syscallFrame_eq hframe₁, Tss.registers, forkTss, startTss,
    forkEsp, syscallFrame_eq hframe]
  simp [forkRegisters, taskFlagsSystem, hss, syscallParamCount]

/-! ### The child's address space -/

/-- Copying an address space keeps the current directory. -/
theorem cr3_memoryCopyUvm {k k' : Kernel} {p e : Nat} {live : Set Nat} (hf : Kernel.Frames k live)
    (hp : p ∈ live) (hcr3 : k.cr3 ∈ live) (hcopy : k.memoryCopyUvm p = .ok (e, k'))
    (hne : e ≠ errorWord) :
  k'.cr3 = k.cr3
  := by
  have hrun := Kernel.memoryCopyUvm_cases hf hp hcr3
  rw [hcopy] at hrun
  cases hrun with
  | noDir => cases hne rfl
  | failed => cases hne rfl
  | copied _ hc hcopied => exact hcopied.built.cr3.trans hc.cr3

/-- Both directories show the same bytes in the same pages. -/
def SamePages (m : ByteMemory.Memory) (d e : Nat) : Prop :=
  ∀ v, 524288 ≤ v → v < 2 ^ 20 → (Present (pteAt m e v) ↔ Present (pteAt m d v)) ∧
    (Present (pteAt m d v) → ∀ x < 4096,
      m (ptePaddr (pteAt m e v) + x) = m (ptePaddr (pteAt m d v) + x))

/-- A child is made and started, with the registers `r`, and the caller keeps its pages. -/
structure Forked (s t : Os) (child : TaskRef) (r : Registers) (stack : Nat) : Prop where
  registers : (t.tasks.task child).tss.registers = r
  caller : (t.tasks.task s.tasks.currTask).tss = (s.tasks.task s.tasks.currTask).tss
  currTask : t.tasks.currTask = s.tasks.currTask
  cr3 : t.kernel.cr3 = s.kernel.cr3
  kept : SameFrame s.kernel.mem t.kernel.mem stack
  parent : Kernel.userPages t.kernel.mem s.currPageDir
    = Kernel.userPages s.kernel.mem s.currPageDir
  pages : SamePages t.kernel.mem s.currPageDir (t.tasks.task child).tss.cr3

section Made

variable {live : Set Nat} {users : Set TaskRef} {stack dummy : Nat} {r : Registers}
  {args : SyscallArg}

section Faithful

variable {k k' : Kernel} {p e : Nat} (hp : p ∈ live) (hcopy : Kernel.FaithfulCopy k k' live p e)

include hp hcopy

/-- A directory that is copied keeps its entries. -/
theorem pteAt_of_faithful {v : Nat} (hlo : 524288 ≤ v) (hv : v < 2 ^ 20) :
  pteAt k'.mem p v = pteAt k.mem p v
  := by
  apply pteAt_congr (hcopy.source (.dir p) p rfl ⟨hp, rfl⟩) hv
  intro g hg
  exact hcopy.source (.table p (v / 1024)) g rfl ⟨hp, by omega, by omega, hg⟩

theorem userPages_of_faithful :
  Kernel.userPages k'.mem p = Kernel.userPages k.mem p
  := by
  apply List.filter_congr
  intro v hv
  rw [List.mem_range'_1] at hv
  rw [pteAt_of_faithful hp hcopy (by omega) (by omega)]

/-- The current directory and its copy show the same. -/
theorem samePages_of_faithful :
  SamePages k'.mem p e
  := by
  intro v hlo hv
  rw [pteAt_of_faithful hp hcopy hlo hv, hcopy.present v hlo hv]
  refine ⟨Iff.rfl, ?_⟩
  intro hpresent x hx
  have hown : Owns 512 k.mem live (.page p v) (ptePaddr (pteAt k.mem p v)) :=
    ⟨hp, by omega, hv, hpresent, rfl⟩
  rw [hcopy.content v hlo hv hpresent x hx]
  exact (hcopy.source (.page p v) _ rfl hown _ (by omega) (by omega)).symm

end Faithful

/-- With enough frames `sys_fork` makes a child. -/
theorem Users.sysFork_made (h : Users s live users) (hx : s.tasks.currTask ∈ users)
    (hcr3 : s.kernel.cr3 = s.currPageDir) (hchild : s.tasks.allocTask = some child)
    (hnot : child ∉ users)
    (henough : 2 + (Kernel.copyAsks (Kernel.userPages s.kernel.mem s.currPageDir)).length
      ≤ s.kernel.free.length)
    (hstack : s.frameAddr s.tasks.currTask + 88 = stack + memPageSize)
    (hreserved : s.kernel.Reserved live stack)
    (hframe : WordsAt s.kernel.mem (s.frameAddr s.tasks.currTask) (frameWords r dummy args))
    (hss : r.ss = s.tasks.appDataSel ||| segRpl3) :
  ∃ t, s.sysFork = .ok (asInt (s.tasks.layout.address child), t)
    ∧ Forked s t child { r with eax := 0, esp := u32 (r.esp + 20) } stack
  := by
  have hp : s.currPageDir ∈ live := h.dir _ hx
  have hne : s.tasks.currTask ≠ child := by
    rintro heq
    apply hnot (heq ▸ hx)
  have hcurr : s.tasks.allocTask ≠ some s.tasks.currTask := by
    rw [hchild]
    intro heq
    exact hne (Option.some.inj heq).symm
  have hcases := sysFork_init_cases s child h.range
  generalize hinit : sysFork.init s s.tasks.currTask child = p at hcases
  cases hcases with
  | noStack hnil =>
      rw [hnil] at henough
      simp at henough
  | noDir hone =>
      rw [hone, List.length_singleton] at henough
      omega
  | @created f c rest kernel m' hfree hcreated hmade =>
      obtain ⟨hf', hdir, hreg, hrest, hpages⟩ :=
        copy_of_created h.toFrames hp hcr3 hcurr hchild hfree hcreated hmade
      have hp' := Set.mem_insert_of_mem c hp
      have hlength : (Kernel.copyAsks (Kernel.userPages kernel.mem s.currPageDir)).length
          ≤ kernel.free.length := by
        rw [hfree, List.length_cons, List.length_cons] at henough
        rw [hpages, hrest]
        omega
      obtain ⟨e, kernel', hcopy, -, hfaithful⟩ :=
        Kernel.memoryCopyUvm_of_enough hf' hp' hreg hlength
      have hfork := sysFork_of_copied hchild hinit (le_refl 0)
        (show kernel.memoryCopyUvm (m'.task s.tasks.currTask).tss.cr3 = _ by rw [hdir, hcopy])
      rw [show (({ s with kernel := kernel, gdt := s.tssDesc child, tasks := m' } : Os).tasks.task
        child).pid = asInt (s.tasks.layout.address child) from hmade.pid] at hfork
      refine ⟨_, hfork, ?_⟩
      have hbounds := hreserved.bounds h.toFrames
      have hc : c ∈ s.kernel.free := by
        rw [hfree]
        apply List.mem_cons_of_mem _ List.mem_cons_self
      have hstack_ne : stack ≠ c := by
        rintro rfl
        exact hreserved.not_free h.toFrames hc
      have hcreated_kept : SameFrame s.kernel.mem kernel.mem stack :=
        hcreated.sameFrame (h.range.free_bounds hc).1 hbounds.1 hstack_ne
      have hnot_free : stack ∉ kernel.free := by
        rw [hrest]
        intro hin
        apply hreserved.not_free h.toFrames
        rw [hfree]
        exact List.mem_cons_of_mem _ (List.mem_cons_of_mem _ hin)
      have herror := hfaithful.ne_errorWord hf'.range
      constructor
      · rw [tss_forked]
        change (m'.task child).tss.registers = _
        have hframe₁ : WordsAt kernel.mem (s.frameAddr s.tasks.currTask)
            (frameWords r dummy args) := by
          apply hframe.congr
          intro x hx hx'
          rw [length_frameWords] at hx'
          unfold memPageSize at hstack
          apply hcreated_kept x (by omega) (by omega)
        apply registers_sysFork_init h.range hfree hinit hframe hframe₁ hss
      · rw [tss_forked_of_ne _ _ _ hne]
        exact congrArg Task.tss (hmade.other _ hne)
      · rw [forked, TaskManager.taskStart, taskSetReady_currTask]
        exact hmade.currTask
      · exact (cr3_memoryCopyUvm hf' hp' (hreg ▸ hp') hcopy herror).trans (hreg.trans hcr3.symm)
      · exact hcreated_kept.trans (hfaithful.unchanged stack hbounds.1 hnot_free)
      · exact (userPages_of_faithful hp' hfaithful).trans hpages
      · rw [tss_forked]
        exact samePages_of_faithful hp' hfaithful

end Made

end Os

/-! ### The kernel when the handler of a call starts -/

namespace Cpu

open Kernel

variable {c : Cpu} {code : KernelCode} {args : SyscallArg} {next stack : Nat} {m : Memory}
  {live : Set Nat} {users : Set TaskRef}

/-- The bytes of a window of a directory are in its pages. -/
theorem inPages_of_inFrames {s : Kernel} {d lo span x : Nat} (hw : Window s d lo span)
    (h : s.InFrames d lo span x) :
  s.InPages d x
  := by
  obtain ⟨v, hv, hx⟩ := h
  have huser := hw.user
  have hend := hw.end_le
  obtain ⟨hlo, hhi⟩ := id hv
  unfold memoryTaskBase at huser
  exact ⟨v, by omega, by omega, hw.present v hv, hx⟩

/-- A call writes to the stacks of the caller only. -/
theorem InSyscall.harmless (hm : c.InSyscall code args next m) (hu : c.User code)
    (hcr3 : c.os.kernel.cr3 = c.os.currPageDir) (hstack : c.esp0 = stack + memPageSize) :
  ∀ x, ¬ c.os.kernel.Harmless c.os.currPageDir stack x → m x = c.mem x
  := by
  have hlow := hu.esp0_low
  intro x hx
  rw [hstack] at hlow
  unfold memPageSize at hlow hstack
  apply hm.unchanged
  · by_contra hin
    apply hx
    right
    left
    omega
  · intro hin
    apply hx
    left
    have hw := hu.stack
    rw [hcr3] at hin hw
    apply inPages_of_inFrames hw hin

/-- The tasks have their address spaces when the handler starts. -/
theorem InSyscall.spaces (hm : c.InSyscall code args next m) (hu : c.User code)
    (hcr3 : c.os.kernel.cr3 = c.os.currPageDir) (h : Os.Users c.os live users)
    (hx : c.os.tasks.currTask ∈ users) :
  Os.Users (c.osWith m) live users ∧ ∀ e ∈ live, ∀ v, 512 ≤ v / 1024 → v < 2 ^ 20 →
    pteAt m e v = pteAt c.mem e v
  := by
  obtain ⟨stack, hstack, hreserved, hnot⟩ := h.stack _ hx
  have hharmless := hm.harmless hu hcr3 hstack
  have hdir : c.os.currPageDir ∈ live := h.dir _ hx
  have hspares := Guarded.written hdir hreserved hharmless h.toGuarded hnot
  have hframes := frames_of_harmless h.toFrames hdir hreserved hharmless
  constructor
  · exact h.keep hspares (hspares.guarded h.toGuarded hframes) rfl fun _ _ => rfl
  · intro e he v hlo hv
    exact pteAt_of_harmless h.toFrames hdir hreserved hharmless he hlo hv

/-! ### Reading -/

/-- What a task reads depends on the pages that its directory shows. -/
theorem readByte_of_samePages {k : Kernel} {e a : Nat} (hcr3 : k.cr3 % 4096 = 0)
    (he : e % 4096 = 0) (hsame : Os.SamePages k.mem k.cr3 e) (hlo : memoryTaskBase ≤ a)
    (ha : a < 2 ^ 32) :
  (k.mmuSetPageDir e).readByte a = k.readByte a
  := by
  unfold memoryTaskBase at hlo
  obtain ⟨hpresent, hcontent⟩ := hsame (a / 4096) (by omega) (by omega)
  have huser : ¬ a < memoryTaskBase := by
    unfold memoryTaskBase
    omega
  rw [readByte, readByte, kernelAddr, kernelAddr, if_neg huser, if_neg huser, translate_eq hcr3,
    translate_eq (s := k.mmuSetPageDir e) he]
  change Option.map k.mem (if Present (pteAt k.mem e (a / 4096)) then
    some (ptePaddr (pteAt k.mem e (a / 4096)) + a % 4096) else none) = _
  by_cases hp : Present (pteAt k.mem k.cr3 (a / 4096))
  · rw [if_pos hp, if_pos (hpresent.mpr hp)]
    exact congrArg some (hcontent hp (a % 4096) (by omega))
  · rw [if_neg hp, if_neg (mt hpresent.mp hp)]

/-- Two directories in use show different frames. -/
theorem translate_ne {k : Kernel} {e a b x : Nat} (hf : Frames k live) (hd : k.cr3 ∈ live)
    (he : e ∈ live) (hne : e ≠ k.cr3) (hlo : memoryTaskBase ≤ a) (ha : a < 2 ^ 32)
    (hlo' : memoryTaskBase ≤ b) (hb : b < 2 ^ 32) (hx : k.translate a = some x) :
  (k.mmuSetPageDir e).translate b ≠ some x
  := by
  unfold memoryTaskBase at hlo hlo'
  rw [translate_eq (hf.nodes.aligned _ hd)] at hx
  rw [translate_eq (s := k.mmuSetPageDir e) (hf.nodes.aligned _ he)]
  intro hy
  rw [Option.ite_none_right_eq_some] at hx hy
  obtain ⟨hp, hx⟩ := hx
  obtain ⟨hp', hy⟩ := hy
  have hown : Owns 512 k.mem live (.page k.cr3 (a / 4096)) (ptePaddr (pteAt k.mem k.cr3 (a / 4096))) :=
    ⟨hd, by omega, by omega, hp, rfl⟩
  have hown' : Owns 512 k.mem live (.page e (b / 4096)) (ptePaddr (pteAt k.mem e (b / 4096))) :=
    ⟨he, by omega, by omega, hp', rfl⟩
  have hframe := (hf.range.marked_bounds (hf.exclusive.used_of_owns hown)).1
  have hframe' := (hf.range.marked_bounds (hf.exclusive.used_of_owns hown')).1
  have hsame : ptePaddr (pteAt k.mem e (b / 4096)) = ptePaddr (pteAt k.mem k.cr3 (a / 4096)) := by
    have hx := Option.some.inj hx
    have hy := Option.some.inj hy
    change ptePaddr (pteAt k.mem e (b / 4096)) + b % 4096 = x at hy
    omega
  rw [hsame] at hown'
  apply hne
  exact congrArg Place.root (hf.exclusive.unique hown' hown)

/-! ### Both tasks -/

theorem harmless_store {k : Kernel} {d x v : Nat} (hlo : stack ≤ x) (hhi : x + 4 ≤ stack + 4096) :
  ∀ y, ¬ k.Harmless d stack y → store32 k.mem x v y = k.mem y
  := by
  intro y hy
  apply store32_of_disjoint
  by_contra hin
  apply hy
  right
  left
  omega

/-- A word of the kernel stack stored is not seen by the tasks. -/
theorem samePages_store {k : Kernel} {d e x v : Nat} (hf : Frames k live) (hd : d ∈ live)
    (he : e ∈ live) (hreserved : k.Reserved live stack) (hlo : stack ≤ x)
    (hhi : x + 4 ≤ stack + 4096) (hsame : Os.SamePages k.mem d e) :
  Os.SamePages (store32 k.mem x v) d e
  := by
  have hharmless : ∀ y, ¬ k.Harmless d stack y → store32 k.mem x v y = k.mem y :=
    harmless_store hlo hhi
  intro w hw hw'
  rw [pteAt_of_harmless hf hd hreserved hharmless he (by omega) hw',
    pteAt_of_harmless hf hd hreserved hharmless hd (by omega) hw']
  obtain ⟨hpresent, hcontent⟩ := hsame w hw hw'
  refine ⟨hpresent, ?_⟩
  intro hp y hy
  have hbounds := hreserved.bounds hf
  have hout {g : Nat} (hg : g ∈ live) (hp : Present (pteAt k.mem g w)) :
      store32 k.mem x v (ptePaddr (pteAt k.mem g w) + y)
        = k.mem (ptePaddr (pteAt k.mem g w) + y) := by
    have hown : Owns 512 k.mem live (.page g w) (ptePaddr (pteAt k.mem g w)) :=
      ⟨hg, by omega, hw', hp, rfl⟩
    have hframe := (hf.range.marked_bounds (hf.exclusive.used_of_owns hown)).1
    have hne : ptePaddr (pteAt k.mem g w) ≠ stack := by
      intro heq
      exact hreserved.unowned _ (heq ▸ hown)
    apply store32_of_disjoint
    omega
  rw [hout he (hpresent.mpr hp), hout hd hp, hcontent hp y hy]

/-- A call of `fork` has returned in the parent, and returns in the child when this is switched
to: the registers are the same except for the value returned, and both read the same at user
addresses, from frames of their own. -/
structure ReturnsTwice (c c' : Cpu) (child : TaskRef) (next : Nat) : Prop where
  parent : c'.regs = { c.regs with eax := c.os.tasks.layout.address child, eip := next }
  switched : (c'.switchTask child).regs = { c.regs with eax := 0, eip := next }
  reads : ∀ a, memoryTaskBase ≤ a → a < 2 ^ 32 →
    (c'.switchTask child).os.kernel.readByte a = c'.os.kernel.readByte a
  apart : ∀ a b x, memoryTaskBase ≤ a → a < 2 ^ 32 → memoryTaskBase ≤ b → b < 2 ^ 32 →
    c'.os.kernel.translate a = some x → (c'.switchTask child).os.kernel.translate b ≠ some x

/-- Parent and child after the value returned has been stored in the frame of the call. -/
theorem returnsTwice_of_forked {c' : Cpu} {s t : Os} {child : TaskRef} {x : Nat}
    (h : Os.Users t live users)
    (hparent : c'.regs = { c.regs with eax := c.os.tasks.layout.address child, eip := next })
    (hforked : s.Forked t child { c.regs with eax := 0, eip := next } stack)
    (hx : s.tasks.currTask ∈ users) (hy : child ∈ users) (hne : s.tasks.currTask ≠ child)
    (hcr3 : s.kernel.cr3 = s.currPageDir) (hreserved : t.kernel.Reserved live stack)
    (hos : c'.os = { t with kernel := t.kernel.store x (c.os.tasks.layout.address child) })
    (hlo : stack ≤ x) (hhi : x + 4 ≤ stack + 4096) :
  ReturnsTwice c c' child next
  := by
  have hcurr : c'.os.tasks.currTask = s.tasks.currTask := by
    rw [hos]
    exact hforked.currTask
  have hcurr_ne : c'.os.tasks.currTask ≠ child := by
    rw [hcurr]
    exact hne
  have hdir : t.kernel.cr3 = s.currPageDir := hforked.cr3.trans hcr3
  have hd : t.kernel.cr3 ∈ live := by
    have hlive := h.dir _ hx
    rw [hforked.caller] at hlive
    rw [hdir]
    exact hlive
  have he := h.dir _ hy
  have hapart : (t.tasks.task child).tss.cr3 ≠ t.kernel.cr3 := by
    rw [hdir]
    intro heq
    apply hne
    apply h.own _ hx _ hy
    rw [hforked.caller, heq]
    rfl
  have hpages : Os.SamePages (store32 t.kernel.mem x (c.os.tasks.layout.address child))
      t.kernel.cr3 (t.tasks.task child).tss.cr3 := by
    apply samePages_store h.toFrames hd he hreserved hlo hhi
    rw [hdir]
    exact hforked.pages
  have hframes : Frames (t.kernel.store x (c.os.tasks.layout.address child)) live :=
    frames_of_harmless h.toFrames hd hreserved (harmless_store hlo hhi)
  constructor
  · exact hparent
  · rw [switchTask_regs hcurr_ne, hos]
    exact hforked.registers
  · intro a ha ha'
    rw [switchTask_kernel hcurr_ne, hos]
    exact readByte_of_samePages (hframes.nodes.aligned _ hd) (hframes.nodes.aligned _ he) hpages ha
      ha'
  · intro a b y ha ha' hb hb' htranslate
    rw [hos] at htranslate
    rw [switchTask_kernel hcurr_ne, hos]
    exact translate_ne hframes hd he hapart ha ha' hb hb' htranslate

theorem word_asInt_address (l : TaskLayout) (t : TaskRef) :
  word (asInt (l.address t)) = l.address t
  := by
  have hlt : l.address t < 2 ^ 31 := by
    have hend := l.gTaskManager_end
    have hend' := l.gTaskTable_end
    unfold memExtStart at hend hend'
    cases t with
    | firstTask => exact lt_of_le_of_lt (show l.gTaskManager + 40 ≤ 1048576 by omega) (by decide)
    | idleTask => exact lt_of_le_of_lt (show l.gTaskManager + 756 ≤ 1048576 by omega) (by decide)
    | slot i => exact lt_of_le_of_lt (show l.gTaskTable + 716 * i ≤ 1048576 by omega) (by decide)
  rw [asInt, if_pos hlt, word_of_nat (by omega)]

/-- The call of `sys_fork` makes a child. -/
theorem InSyscall.sysFork {child : TaskRef} (hm : c.InSyscall code (LibCall.fork.args args) next m)
    (hu : c.User code) (hspaces : Os.Users c.os live users) (hx : c.os.tasks.currTask ∈ users)
    (hcr3 : c.os.kernel.cr3 = c.os.currPageDir)
    (hss : c.regs.ss = c.os.tasks.appDataSel ||| segRpl3)
    (hchild : c.os.tasks.allocTask = some child) (hnot : child ∉ users)
    (henough : 2 + (copyAsks (userPages c.mem c.os.currPageDir)).length
      ≤ c.os.kernel.free.length) :
  (c.osWith m).ForkInside users ∧ ∃ t,
    (c.osWith m).sysFork = .ok (asInt (c.os.tasks.layout.address child), t)
      ∧ (c.osWith m).Forked t child { c.regs with eax := 0, eip := next } (c.esp0 - memPageSize)
  := by
  obtain ⟨hspaces', hsame⟩ := hm.spaces hu hcr3 hspaces hx
  obtain ⟨stack, hstack, hreserved, -⟩ := hspaces'.stack _ hx
  have hstack : c.esp0 = stack + memPageSize := hstack
  have hlow := hu.esp0_low
  have hhigh := hu.esp0_high
  have haddr : (c.osWith m).frameAddr (c.osWith m).tasks.currTask = c.esp0 - 88 := by
    change u32Sub c.esp0 88 = c.esp0 - 88
    unfold memoryTaskBase at hhigh
    exact u32Sub_of_le (by omega) (by omega)
  have hdir : c.os.currPageDir ∈ live := hspaces.dir _ hx
  have hpages : userPages m c.os.currPageDir = userPages c.mem c.os.currPageDir := by
    apply List.filter_congr
    intro v hv
    rw [List.mem_range'_1] at hv
    rw [hsame _ hdir v (by omega) (by omega)]
  have henough' : 2 + (copyAsks (userPages m c.os.currPageDir)).length
      ≤ c.os.kernel.free.length := by
    rw [hpages]
    exact henough
  let r : Registers := { c.regs with eip := next, esp := c.regs.esp - 20 }
  have hframe : WordsAt m ((c.osWith m).frameAddr (c.osWith m).tasks.currTask)
      (frameWords r (c.esp0 - 36) (LibCall.fork.args args)) := by
    rw [haddr]
    exact hm.frame
  have hend : (c.osWith m).frameAddr (c.osWith m).tasks.currTask + 88 = stack + memPageSize := by
    rw [haddr]
    omega
  have hinside : (c.osWith m).ForkInside users := by
    intro child' hchild'
    obtain rfl : child' = child := Option.some.inj (hchild'.symm.trans hchild)
    exact ⟨hnot, .inr (.inr henough')⟩
  obtain ⟨t, hok, hforked⟩ := Os.Users.sysFork_made (s := c.osWith m) hspaces' hx hcr3 hchild hnot
    henough' hend hreserved hframe hss
  refine ⟨hinside, t, hok, ?_⟩
  have hesp : u32 (c.regs.esp - 20 + 20) = c.regs.esp := by
    have huser := hu.stack.user
    unfold memoryTaskBase at huser
    rw [Nat.sub_add_cancel (by omega), u32_of_lt (hu.words _ (by simp [Registers.words]))]
  rw [hesp] at hforked
  rw [hstack, Nat.add_sub_cancel]
  exact hforked

/-- A child is a copy of its parent. -/
theorem libCall_fork {child : TaskRef} {handlers : SysFunc → SysHandle} (hu : c.User code)
    (hspaces : Os.Users c.os live users) (hx : c.os.tasks.currTask ∈ users)
    (hcr3 : c.os.kernel.cr3 = c.os.currPageDir)
    (hss : c.regs.ss = c.os.tasks.appDataSel ||| segRpl3)
    (hchild : c.os.tasks.allocTask = some child) (hnot : child ∉ users)
    (henough : 2 + (copyAsks (userPages c.mem c.os.currPageDir)).length
      ≤ c.os.kernel.free.length)
    (hargs : ∀ w ∈ (LibCall.fork.args args).words, w < 2 ^ 32) (hnext : next < 2 ^ 32)
    (hfork : handlers .fork = handleFork) (scratch : Registers) :
  ∃ c', c.libCall code handlers .fork args next scratch = some c' ∧ ReturnsTwice c c' child next
  := by
  obtain ⟨m, hm, hreaches⟩ := sysCall_reaches hu hargs hnext handlers scratch
  obtain ⟨hspaces', -⟩ := hm.spaces hu hcr3 hspaces hx
  obtain ⟨stack, hstack, hreserved, -⟩ := hspaces'.stack _ hx
  have hstack : c.esp0 = stack + memPageSize := hstack
  have hlow := hu.esp0_low
  obtain ⟨hinside, t, hok, hforked⟩ := hm.sysFork hu hspaces hx hcr3 hss hchild hnot henough
  rw [hstack, Nat.add_sub_cancel] at hforked
  obtain ⟨live', hspares, husers⟩ := hspaces'.sysFork hx hcr3 hinside hok
  have hreserved' := hspares.reserved _ hreserved
  have hchild_mem : child ∈ users ∪ (c.osWith m).children (asInt (c.os.tasks.layout.address child)) :=
    .inr ⟨hchild, Os.asInt_address_ne hchild⟩
  have hkept : c.StackKept m t.kernel.mem := by
    intro x hlo hhi
    unfold memPageSize at hstack
    exact (hforked.kept x (by omega) (by omega))
  have hword := word_asInt_address c.os.tasks.layout child
  have hlt : c.os.tasks.layout.address child < 2 ^ 32 := by
    rw [← hword]
    unfold word
    omega
  have hhandled (a₀ a₁ a₂ a₃ : Nat) :
      handlers .fork a₀ a₁ a₂ a₃ (c.osWith m) = some (c.os.tasks.layout.address child, t) := by
    rw [hfork, handleFork_eq a₀ a₁ a₂ a₃ hok]
    exact congrArg (fun w => some (w, t)) hword
  have hdo : doHandlerSyscall handlers (c.osWith m) (c.esp0 - 88) = some
      { t with kernel := t.kernel.store (c.esp0 - 88 + 48) (c.os.tasks.layout.address child) } := by
    rw [doHandlerSyscall_eq handlers (s := c.osWith m) hm.frame, LibCall.fork.sysTable_args args]
    dsimp only [LibCall.func]
    rw [hhandled]
    rfl
  have hcall := sysCall_returns hu hm hreaches hlt hkept hdo
  have hne : c.os.tasks.currTask ≠ child := by
    rintro rfl
    exact hnot hx
  refine ⟨_, (if_pos trivial).trans hcall, returnsTwice_of_forked (s := c.osWith m) husers rfl
    hforked (Set.mem_union_left _ hx) hchild_mem hne hcr3 hreserved' rfl ?_ ?_⟩
  · unfold memPageSize at hstack
    omega
  · unfold memPageSize at hstack
    omega

-- the kernel of the program is not to be evaluated
attribute [local irreducible] stackKernel

theorem enough_caller :
  2 + (copyAsks (userPages caller.mem caller.os.currPageDir)).length ≤ caller.os.kernel.free.length
  := by
  rw [currPageDir_caller, show caller.mem = stackKernel.mem from rfl, built_stackKernel.2.1,
    show caller.os.kernel = stackKernel from rfl, built_stackKernel.2.2]
  decide

/-- The program forks. -/
theorem libCall_fork_caller :
  ∃ c', caller.libCall callerCode (fun _ => handleFork) .fork ⟨0, 0, 0, 0, 0⟩ 0x80000100 caller.regs
    = some c' ∧ ReturnsTwice caller c' (.slot 0) 0x80000100
  := libCall_fork user_caller users_caller rfl cr3_caller rfl Os.allocTask_firstUser (by decide)
    enough_caller (by decide) (by decide) rfl caller.regs

end Cpu

end Dmos
