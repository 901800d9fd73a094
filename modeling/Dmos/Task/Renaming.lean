import Dmos.Task.Creating
import Dmos.Task.Exec
import Dmos.Task.Invariant
import Dmos.Task.Names

/-!
# Names and calls

What `sys_fork` and `sys_execve` do to the names of the tasks: a child gets the name of its
parent, a task that executes a program that of the file, and all others keep theirs.
-/

namespace Dmos

/-! ### Names that stay -/

namespace TaskManager

/-- The current task and all names are the same. -/
structure SameNames (m m' : TaskManager) : Prop where
  currTask : m'.currTask = m.currTask
  name : ∀ t, (m'.task t).name = (m.task t).name

variable {m m' m'' : TaskManager} {t : TaskRef}

theorem SameNames.refl (m : TaskManager) :
  SameNames m m
  := ⟨rfl, fun _ => rfl⟩

theorem SameNames.trans (h : SameNames m m') (h' : SameNames m' m'') :
  SameNames m m''
  := ⟨h'.currTask.trans h.currTask, fun t => (h'.name t).trans (h.name t)⟩

theorem sameNames_setTask {task : Task} (h : task.name = (m.task t).name) :
  SameNames m (m.setTask t task)
  := ⟨rfl, fun _ => field_setTask (.inr h)⟩

theorem sameNames_taskStart :
  SameNames m (m.taskStart t)
  := ⟨taskSetReady_currTask, fun _ => field_taskSetReady (fun _ _ => rfl)⟩

/-- The current task and the names of all other tasks are the same. -/
structure OtherNames (t : TaskRef) (m m' : TaskManager) : Prop where
  currTask : m'.currTask = m.currTask
  name : ∀ t', t' ≠ t → (m'.task t').name = (m.task t').name

theorem OtherNames.trans (h : OtherNames t m m') (h' : OtherNames t m' m'') :
  OtherNames t m m''
  := ⟨h'.currTask.trans h.currTask, fun t' ht => (h'.name t' ht).trans (h.name t' ht)⟩

theorem SameNames.other (h : SameNames m m') (t : TaskRef) :
  OtherNames t m m'
  := ⟨h.currTask, fun t' _ => h.name t'⟩

theorem otherNames_setTask (task : Task) :
  OtherNames t m (m.setTask t task)
  := ⟨rfl, fun _ ht => congrArg Task.name (Function.update_of_ne ht _ _)⟩

theorem otherNames_taskInitFields (name : List UInt8) :
  OtherNames t m (m.taskInitFields t name)
  := by
  constructor
  · rfl
  · intro t' ht
    simp [taskInitFields, insertTaskList, setNode, setTask, ht]

theorem taskInitFields_name (name : List UInt8) :
  ((m.taskInitFields t name).task t).name = kStrncpy name taskNameSize
  := by simp [taskInitFields, insertTaskList, setNode, setTask]

theorem otherNames_clearTask :
  OtherNames t m ((m.clearTask t).freeTask t)
  := by
  constructor
  · rfl
  · intro t' ht
    simp [clearTask, freeTask, setNode, setTask, ht]

end TaskManager

namespace Os

open TaskManager

variable {s s' : Os} {l : Locals} {tty : Tty} {t : TaskRef} {r : Int}

/-! ### Names after `sys_execve` -/

-- the loops over directories are not to be unrolled by unification
attribute [local irreducible] Kernel.memoryDestoryUvm

theorem sameNames_setCr3 (cr3 : Nat) :
  SameNames s.tasks (s.setCr3 t cr3).tasks
  := sameNames_setTask rfl

theorem sameNames_execFailed {oldPageDir newPageDir : Nat}
    (h : s.execFailed t oldPageDir newPageDir = (r, s')) :
  SameNames s.tasks s'.tasks
  := by
  rw [execFailed] at h
  split_ifs at h
  · cases h
    change SameNames s.tasks (s.setCr3 t oldPageDir).tasks
    apply sameNames_setCr3
  · cases h
    apply SameNames.refl

theorem sameNames_loadElfFile_loop {file : Int} {pageDir phoff i fuel : Nat} {b : Bool}
    (h : loadElfFile.loop s l tty file t pageDir phoff i fuel = .ok (b, s')) :
  SameNames s.tasks s'.tasks
  := by
  induction fuel generalizing s i with
  | zero =>
      cases h
      apply SameNames.refl
  | succ fuel ih =>
      rw [loadElfFile.loop] at h
      split_ifs at h
      · cases h
        apply SameNames.refl
      · split at h
        · cases h
        · dsimp only at h
          split_ifs at h
          · cases h
            apply SameNames.refl
          · split at h
            · cases h
            · split_ifs at h
              · cases h
                apply SameNames.refl
              · apply ih h
              · split at h
                · cases h
                · split_ifs at h
                  · cases h
                    apply SameNames.refl
                  · have hnames := ih h
                    apply SameNames.trans _ hnames
                    apply sameNames_setTask
                    rfl

theorem sameNames_loadElfFile {name : List UInt8} {pageDir entry : Nat}
    (h : s.loadElfFile l tty t name pageDir = .ok (entry, s')) :
  SameNames s.tasks s'.tasks
  := by
  rw [loadElfFile] at h
  split at h
  dsimp only at h
  split_ifs at h
  · cases h
    apply SameNames.refl
  · split at h
    · cases h
    · split_ifs at h
      · cases h
        apply SameNames.refl
      · cases h
        apply SameNames.refl
      · split at h
        · cases h
        next hloop =>
          cases h
          have hnames := sameNames_loadElfFile_loop hloop
          exact hnames
        next hloop =>
          cases h
          have hnames := sameNames_loadElfFile_loop hloop
          exact hnames

theorem sameNames_start {argv oldPageDir newPageDir entry : Nat}
    (h : sysExecve.start s l argv oldPageDir newPageDir entry = .ok (r, s')) :
  SameNames s.tasks s'.tasks
  := by
  rw [sysExecve.start] at h
  split at h
  dsimp only at h
  split_ifs at h
  · have hnames := sameNames_execFailed (Except.ok.inj h)
    exact hnames
  · split at h
    · cases h
    · split at h
      · cases h
      · split_ifs at h
        · have hnames := sameNames_execFailed (Except.ok.inj h)
          exact hnames
        · obtain rfl : _ = s' := congrArg Prod.snd (Except.ok.inj h)
          apply sameNames_setCr3

/-- `sys_execve` names the task after the program and leaves the other names alone. -/
theorem sameNames_sysExecve {name argv : Nat} (h : s.sysExecve l tty name argv = .ok (r, s')) :
  ∃ s₁, s.setFileName s.tasks.currTask name = some s₁ ∧ SameNames s₁.tasks s'.tasks
  := by
  rw [sysExecve] at h
  dsimp only at h
  split at h
  · cases h
  next s₁ hname =>
    refine ⟨s₁, hname, ?_⟩
    split at h
    · have hnames := sameNames_execFailed (Except.ok.inj h)
      exact hnames
    · split at h
      · cases h
      · split at h
        · cases h
        next hload =>
          have hnames := sameNames_loadElfFile hload
          split_ifs at h
          · exact SameNames.trans hnames (sameNames_execFailed (Except.ok.inj h))
          · exact SameNames.trans hnames (sameNames_start h)

end Os

/-! ### The name of a program -/

namespace Kernel

variable {s : Kernel} {name : Nat} {path : List UInt8}

/-- The paths after whose last separator no file name follows. -/
def EndsInSeparator (path : List UInt8) : Prop :=
  path.getLast? = some 47 ∨ path.getLast? = some 92

/-- The search from a position of the path back ends at a separator. -/
theorem getFileName_back (h : IsString s name path) (hhead : path.head? = some 47)
    (hend : name + path.length < 2 ^ 32) {j fuel : Nat} (hj : j < path.length)
    (hfuel : j < fuel) :
  ∃ k, ∃ hk : k < path.length, k ≤ j ∧ (path[k] = 92 ∨ path[k] = 47)
    ∧ getFileName.back s name (name + j) fuel = some (name + k + 1)
  := by
  induction j generalizing fuel with
  | zero =>
      obtain ⟨fuel, rfl⟩ := Nat.exists_eq_succ_of_ne_zero hfuel.ne_zero
      have hc : path[0] = 47 := by
        rw [List.head?_eq_getElem?, List.getElem?_eq_getElem hj] at hhead
        exact Option.some.inj hhead
      have hbyte := h.bytes 0 hj
      rw [Nat.add_zero, u32_of_lt (by omega), hc] at hbyte
      refine ⟨0, hj, le_refl 0, .inr hc, ?_⟩
      rw [getFileName.back, Nat.add_zero, hbyte]
      dsimp only
      rw [if_neg (by simp), u32_of_lt (by omega)]
  | succ j ih =>
      obtain ⟨fuel, rfl⟩ := Nat.exists_eq_succ_of_ne_zero hfuel.ne_zero
      have hbyte := h.bytes (j + 1) hj
      rw [u32_of_lt (by omega)] at hbyte
      rw [getFileName.back, hbyte]
      dsimp only
      by_cases hc : path[j + 1] = 92 ∨ path[j + 1] = 47
      · refine ⟨j + 1, hj, le_refl _, hc, ?_⟩
        rw [if_neg (by tauto), u32_of_lt (by omega)]
      · have hback : path[j + 1] ≠ 92 ∧ path[j + 1] ≠ 47 ∧ name ≤ name + (j + 1) :=
          ⟨fun h => hc (.inl h), fun h => hc (.inr h), Nat.le_add_right _ _⟩
        rw [if_pos hback, show u32Sub (name + (j + 1)) 1 = name + j by
          rw [u32Sub_of_le] <;> omega]
        have hlt : j < path.length := by omega
        obtain ⟨k, hk, hle, hk'⟩ := ih hlt (Nat.lt_of_succ_lt_succ hfuel)
        exact ⟨k, hk, by omega, hk'⟩

/-- The file name is what follows a separator of the path. -/
theorem getFileName_eq (h : IsString s name path) (hhead : path.head? = some 47)
    (hend : name + path.length < 2 ^ 32) :
  ∃ k, ∃ hk : k < path.length, (path[k] = 92 ∨ path[k] = 47)
    ∧ s.getFileName name = some (name + (k + 1))
  := by
  have hpos : 0 < path.length := by
    cases path with
    | nil => cases hhead
    | cons => simp
  have hstring := (string_eq_some_iff (by omega)).mpr ⟨by omega, h⟩
  have hnull := h.null
  rw [u32_of_lt hend] at hnull
  have hlast : path.length - 1 < path.length := by omega
  have hfuel : path.length - 1 < 2 ^ 32 - 1 := by omega
  obtain ⟨k, hk, -, hc, hback⟩ := getFileName_back h hhead hend hlast hfuel
  refine ⟨k, hk, hc, ?_⟩
  rw [getFileName, hstring]
  dsimp only
  rw [u32_of_lt hend, show (2 ^ 32 : Nat) = (2 ^ 32 - 1) + 1 from rfl, getFileName.back, hnull]
  dsimp only
  rw [if_pos ⟨by decide, by decide, Nat.le_add_right _ _⟩, u32Sub_of_le (by omega) hend,
    Nat.add_sub_assoc hpos, hback, Nat.add_assoc]

theorem drop_ne_nil (hsep : ¬ EndsInSeparator path) {k : Nat} (hk : k < path.length)
    (hc : path[k] = 92 ∨ path[k] = 47) :
  path.drop (k + 1) ≠ []
  := by
  intro hdrop
  rw [List.drop_eq_nil_iff] at hdrop
  obtain rfl : k = path.length - 1 := by omega
  apply hsep
  rw [EndsInSeparator, List.getLast?_eq_getElem?, List.getElem?_eq_getElem hk]
  rcases hc with hc | hc
  · right
    rw [hc]
  · left
    rw [hc]

end Kernel

namespace Os

open Kernel

variable {s s' : Os} {t t' : TaskRef} {name : Nat} {path : List UInt8}

theorem setFileName_of_ne (h : s.setFileName t name = some s') (ht : t' ≠ t) :
  s'.tasks.task t' = s.tasks.task t'
  := by
  rw [setFileName] at h
  split at h
  · cases h
  · split_ifs at h
    · cases h
      rfl
    · split at h
      · cases h
      · cases h
        apply TaskManager.setName_of_ne _ ht

/-- A path that does not end in a separator gives the task a name. -/
theorem setFileName_name (hpath : IsString s.kernel name path) (hhead : path.head? = some 47)
    (hend : name + path.length < 2 ^ 32) (hsep : ¬ EndsInSeparator path)
    (h : s.setFileName t name = some s') :
  (s'.tasks.task t).name ≠ []
  := by
  obtain ⟨k, hk, hc, hfile⟩ := getFileName_eq hpath hhead hend
  have hstring : s.kernel.string (name + (k + 1)) = some (path.drop (k + 1)) := by
    have hdrop := hpath.drop (k := k + 1) (by omega)
    rw [u32_of_lt (by omega)] at hdrop
    rw [string_eq_some_iff (by omega)]
    refine ⟨?_, hdrop⟩
    rw [List.length_drop]
    omega
  rw [setFileName, hfile] at h
  dsimp only at h
  rw [if_neg (by omega), hstring] at h
  cases h
  dsimp only
  rw [TaskManager.setName_name, ne_eq, kStrncpy_taskName_eq_nil_iff]
  apply drop_ne_nil hsep hk hc

end Os

/-! ### Names after `sys_fork` -/

namespace Os

open TaskManager

variable {s s' : Os} {child parent : TaskRef} {r : Int}

attribute [local irreducible] Kernel.memoryDestoryUvm

theorem sameNames_tssInit {flag entry esp : Nat} (h : s.tssInit child flag entry esp = (r, s')) :
  SameNames s.tasks s'.tasks
  := by
  rw [tssInit_eq] at h
  dsimp only at h
  split_ifs at h
  · cases h
    apply sameNames_setTask
    rfl
  · cases h
    apply sameNames_setTask
    rfl
  · cases h
    apply sameNames_setTask
    rfl

theorem otherNames_taskInit {name : List UInt8} {flag entry esp : Nat}
    (h : s.taskInit child name flag entry esp = (r, s')) :
  OtherNames child s.tasks s'.tasks
    ∧ (r = -1 ∨ (s'.tasks.task child).name = kStrncpy name taskNameSize)
  := by
  rw [taskInit] at h
  split at h
  next hinit =>
    have hnames := sameNames_tssInit hinit
    split_ifs at h
    · cases h
      exact ⟨hnames.other child, .inl rfl⟩
    · cases h
      constructor
      · apply (hnames.other child).trans
        apply otherNames_taskInitFields
      · right
        apply taskInitFields_name

theorem otherNames_init (h : sysFork.init s parent child = (r, s')) :
  OtherNames child s.tasks s'.tasks
    ∧ (r < 0 ∨ (s'.tasks.task child).name = kStrncpy (s.tasks.task parent).name taskNameSize)
  := by
  rw [sysFork.init] at h
  dsimp only at h
  generalize hinit : s.taskInit child _ _ _ _ = p at h
  obtain ⟨err, s₁⟩ := p
  obtain ⟨hother, hname⟩ := otherNames_taskInit hinit
  dsimp only at h
  split_ifs at h with hneg
  · cases h
    exact ⟨hother, .inl hneg⟩
  · cases h
    constructor
    · apply hother.trans
      apply otherNames_setTask
    · right
      rw [setTask_task_self]
      apply hname.resolve_left
      rintro rfl
      apply hneg
      decide

theorem otherNames_forkFailed (h : s.forkFailed child = (r, s')) :
  OtherNames child s.tasks s'.tasks ∧ r = -1
  := by
  obtain rfl : _ = r := congrArg Prod.fst h
  obtain rfl : _ = s' := congrArg Prod.snd h
  refine ⟨?_, rfl⟩
  have htasks : (s.taskUninit child).tasks = s.tasks.clearTask child := by
    rw [taskUninit]
    dsimp only
    split_ifs <;> rfl
  rw [forkFailed]
  dsimp only
  rw [htasks]
  apply otherNames_clearTask

/-- `sys_fork` gives the child the name of its parent and leaves the other names alone. -/
theorem otherNames_sysFork (h : s.sysFork = .ok (r, s')) (hchild : s.tasks.allocTask = some child) :
  OtherNames child s.tasks s'.tasks ∧ (r = -1 ∨ (s'.tasks.task child).name
    = kStrncpy (s.tasks.task s.tasks.currTask).name taskNameSize)
  := by
  obtain ⟨err, s₁, hinit, hcases⟩ := sysFork_cases h hchild
  obtain ⟨hother, hname⟩ := otherNames_init hinit
  rcases hcases with ⟨-, hfailed⟩ | ⟨hpos, cr3, kernel, -, -, rfl⟩
  · obtain ⟨hfailed, hr⟩ := otherNames_forkFailed hfailed
    exact ⟨hother.trans hfailed, .inl hr⟩
  · have hset (tss : Tss) : SameNames s₁.tasks (s₁.tasks.setTss child tss) := by
      apply sameNames_setTask
      rfl
    have hsame : SameNames s₁.tasks (s₁.forked child cr3 kernel).tasks :=
      (hset _).trans sameNames_taskStart
    constructor
    · apply hother.trans (hsame.other child)
    · right
      rw [hsame.name]
      apply hname.resolve_left
      omega

end Os

end Dmos
