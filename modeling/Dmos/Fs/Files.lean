import Dmos.Dev.Tty
import Dmos.Fs.TempFile
import Dmos.Library.RefCount
import Dmos.Library.Transition
import Mathlib.Data.Fintype.Prod

/-!
# Open files

The table of open files, the tables of descriptors of the tasks and the table of devices, with
`sys_open`, `sys_dup`, `sys_close` and `sys_exit` on them.  A file counts the descriptors that
point to it.

`sys_close` does nothing, although it returns 0, and `sys_exit` clears the descriptors after it:
the counts are right as long as nothing is closed (`refsMatch_of_reachable`).  An entry that a
descriptor points to is never taken for a free one (`fileAlloc_of_reachable`).
-/

open RefCount TransitionSystem

namespace Dmos

abbrev fileTableSize : Nat := 1024
abbrev fileNameSize : Nat := 32
abbrev taskOfileNr : Nat := 128
abbrev devTableSize : Nat := 128
abbrev devTty : Int := 1

inductive FileType where
  | unknown
  | tty

/-- An entry of `file_tb`. -/
structure File where
  fileName : Fin fileNameSize → UInt8 := fun _ => 0
  type : FileType := .unknown
  size : Nat := 0
  ref : Int := 0
  devId : Int := 0
  pos : Int := 0
  mod : Int := 0

/-- The drivers. -/
inductive DevDesc where
  | devTtyDesc

def DevDesc.major : DevDesc → Int
  | .devTtyDesc => devTty

/-- An entry of `dev_tb`. -/
structure Device where
  desc : Option DevDesc
  minor : Int
  data : Nat
  openCount : Int

/-- What the `open` of a driver returns. -/
def DevDesc.open (desc : DevDesc) (dev : Device) : Int :=
  match desc with
  | .devTtyDesc => if dev.minor < 0 ∨ 8 ≤ dev.minor then -1 else 0

theorem DevDesc.open_eq (dev : Device) (m : TaskManager) (tty : TtyDev) :
  DevDesc.devTtyDesc.open dev = (ttyOpen m tty dev.minor).1
  := by
  rw [DevDesc.open, ttyOpen]
  split_ifs <;> rfl

def devDescTb : List DevDesc :=
  [.devTtyDesc]

/-- The first loop of `dev_open`: the entry that is open already, or the last free one. -/
def devOpen.find (devTb : Fin devTableSize → Device) (major minor : Int) :
    List (Fin devTableSize) → Option (Fin devTableSize) →
      Option (Fin devTableSize) × Option (Fin devTableSize)
  | [], freeDev => (none, freeDev)
  | i :: is, freeDev =>
      if (devTb i).openCount = 0 then find devTb major minor is (some i)
      else if (devTb i).desc.map DevDesc.major = some major ∧ (devTb i).minor = minor then
        (some i, freeDev)
      else find devTb major minor is freeDev

def devOpen (devTb : Fin devTableSize → Device) (major minor : Int) (data : Nat) :
    Int × (Fin devTableSize → Device) :=
  match devOpen.find devTb major minor (List.finRange devTableSize) none with
  | (some i, _) =>
      (i, Function.update devTb i { devTb i with openCount := (devTb i).openCount + 1 })
  | (none, freeDev) =>
      match devDescTb.find? fun d => d.major = major, freeDev with
      | some desc, some i =>
          let dev := { devTb i with minor := minor, data := data, desc := some desc }
          if desc.open dev = 0 then
            (i, Function.update devTb i { dev with openCount := 1 })
          else (-1, Function.update devTb i dev)
      | _, _ => (-1, devTb)

/-- The files, the devices, the descriptors of each task, and the tasks that have started and
have not ended. -/
structure FileState where
  fileTb : Fin fileTableSize → File
  devTb : Fin devTableSize → Device
  fileTable : TaskRef → Fin taskOfileNr → Option (Fin fileTableSize)
  live : TaskRef → Bool

namespace FileState

/-! ### Files and descriptors -/

def setFile (s : FileState) (i : Fin fileTableSize) (file : File) : FileState :=
  { s with fileTb := Function.update s.fileTb i file }

def setFd (s : FileState) (t : TaskRef) (fd : Fin taskOfileNr) (file : Option (Fin fileTableSize)) :
    FileState :=
  { s with
    fileTable := Function.update s.fileTable t (Function.update (s.fileTable t) fd file) }

def fileAlloc (s : FileState) : Option (Fin fileTableSize) × FileState :=
  match (List.finRange fileTableSize).find? fun i => (s.fileTb i).ref = 0 with
  | some i => (some i, s.setFile i { ref := 1 })
  | none => (none, s)

def fileFree (s : FileState) (i : Fin fileTableSize) : FileState :=
  if (s.fileTb i).ref ≠ 0 then s.setFile i { s.fileTb i with ref := (s.fileTb i).ref - 1 } else s

def taskAllocFd (s : FileState) (t : TaskRef) (file : Fin fileTableSize) : Int × FileState :=
  match (List.finRange taskOfileNr).find? fun fd => s.fileTable t fd = none with
  | some fd => (fd, s.setFd t fd (some file))
  | none => (-1, s)

/-- The place of a descriptor in the table of a task. -/
def fdIndex (fd : Int) : Option (Fin taskOfileNr) :=
  if h : 0 ≤ fd ∧ fd < 128 then some ⟨fd.toNat, by unfold taskOfileNr; omega⟩ else none

def taskRemoveFd (s : FileState) (t : TaskRef) (fd : Int) : FileState :=
  match fdIndex fd with
  | some fd => s.setFd t fd none
  | none => s

def taskFile (s : FileState) (t : TaskRef) (fd : Int) : Option (Fin fileTableSize) :=
  match fdIndex fd with
  | some fd => s.fileTable t fd
  | none => none

/-! ### The system calls -/

/-- The label `sys_open_failed`. -/
def sysOpenFailed (s : FileState) (t : TaskRef) (file : Option (Fin fileTableSize)) (fd : Int) :
    Int × FileState :=
  let s := match file with
    | some i => s.fileFree i
    | none => s
  (-1, if 0 ≤ fd then s.taskRemoveFd t fd else s)

/-- `sys_open` of the string `name`, which begins the bytes behind the pointer. -/
def sysOpen (s : FileState) (t : TaskRef) (name : List UInt8) (bytes : Nat → UInt8) :
    Int × FileState :=
  -- "tty"
  if kStrncmp name [116, 116, 121] = 0 then
    if name = [] then (-1, s)
    else
      match s.fileAlloc with
      | (none, s) => s.sysOpenFailed t none (-1)
      | (some file, s) =>
          match s.taskAllocFd t file with
          | (fd, s) =>
              if fd < 0 then s.sysOpenFailed t (some file) fd
              else
                -- a character is signed, and "0" is 48
                match devOpen s.devTb devTty ((bytes 4).toInt8.toInt - 48) 0 with
                | (devId, devTb) =>
                    let s := { s with devTb := devTb }
                    if devId < 0 then s.sysOpenFailed t (some file) fd
                    else
                      (fd, s.setFile file { s.fileTb file with
                        devId := devId
                        mod := 0
                        pos := 0
                        ref := 1
                        type := .tty
                        fileName := fun i => bytes i })
  -- "/"
  else if bytes 0 = 47 then (tempFileId, s)
  else (-1, s)

def sysClose (s : FileState) (_file : Int) : Int × FileState :=
  (0, s)

def sysDup (s : FileState) (t : TaskRef) (file : Int) : Int × FileState :=
  if file < 0 ∧ 128 ≤ file then (-1, s)
  else
    match s.taskFile t file with
    | none => (-1, s)
    | some i =>
        match s.taskAllocFd t i with
        | (fd, s) =>
            if 0 ≤ fd then (fd, s.setFile i { s.fileTb i with ref := (s.fileTb i).ref + 1 })
            else (-1, s)

/-- The loop of `sys_exit`. -/
def sysExit.loop (t : TaskRef) : List (Fin taskOfileNr) → FileState → FileState
  | [], s => s
  | fd :: fds, s =>
      match s.fileTable t fd with
      | some _ => loop t fds ((s.sysClose fd).2.setFd t fd none)
      | none => loop t fds s

def sysExit (s : FileState) (t : TaskRef) : FileState :=
  let s := sysExit.loop t (List.finRange taskOfileNr) s
  { s with live := Function.update s.live t false }

/-- A task starts, with the descriptors `task_init` gives it. -/
def start (s : FileState) (t : TaskRef) : FileState :=
  { s with
    fileTable := Function.update s.fileTable t fun _ => none
    live := Function.update s.live t true }

/-! ### What a call does to the counts and the descriptors -/

variable {s s' : FileState} {t : TaskRef} {i : Fin fileTableSize} {fd : Fin taskOfileNr}

def refs (s : FileState) (i : Fin fileTableSize) : Int :=
  (s.fileTb i).ref

/-- What the descriptors of the tasks that are alive point to. -/
def descriptor (s : FileState) (p : TaskRef × Fin taskOfileNr) : Option (Fin fileTableSize) :=
  if s.live p.1 then s.fileTable p.1 p.2 else none

theorem refs_setFile (s : FileState) (i : Fin fileTableSize) (file : File) :
  (s.setFile i file).refs = Function.update s.refs i file.ref
  := by
  funext j
  change (Function.update s.fileTb i file j).ref = _
  by_cases hj : j = i
  · rw [hj, Function.update_self, Function.update_self]
  · rw [Function.update_of_ne hj, Function.update_of_ne hj]
    rfl

/-- An entry that has been allocated is free again. -/
theorem fileFree_allocated (hzero : s.refs i = 0) (hrefs : s'.refs = Function.update s.refs i 1) :
  (s'.fileFree i).refs = s.refs ∧ (s'.fileFree i).fileTable = s'.fileTable
    ∧ (s'.fileFree i).live = s'.live
  := by
  have hone : s'.refs i = 1 := by rw [hrefs, Function.update_self]
  rw [refs] at hone
  rw [fileFree, if_pos (by rw [hone]; decide), refs_setFile, hrefs, hone, Function.update_idem,
    Int.sub_self, ← hzero, Function.update_eq_self]
  exact ⟨rfl, rfl, rfl⟩

theorem fdIndex_coe (fd : Fin taskOfileNr) :
  fdIndex fd = some fd
  := by
  have hfd : (fd : Nat) < 128 := fd.isLt
  rw [fdIndex, dif_pos (by omega)]
  rfl

theorem fileAlloc_cases (s : FileState) :
  (∃ i, s.refs i = 0 ∧ s.fileAlloc = (some i, s.setFile i { ref := 1 }))
    ∨ s.fileAlloc = (none, s)
  := by
  unfold fileAlloc
  split
  · next i hfind => exact .inl ⟨i, by simpa [refs] using List.find?_some hfind, rfl⟩
  · exact .inr rfl

theorem taskAllocFd_cases (s : FileState) (t : TaskRef) (i : Fin fileTableSize) :
  (∃ fd : Fin taskOfileNr, s.fileTable t fd = none
      ∧ s.taskAllocFd t i = (((fd : Nat) : Int), s.setFd t fd (some i)))
    ∨ s.taskAllocFd t i = (-1, s)
  := by
  unfold taskAllocFd
  split
  · next fd hfind => exact .inl ⟨fd, by simpa using List.find?_some hfind, rfl⟩
  · exact .inr rfl

theorem setFd_fileTable (s : FileState) (t u : TaskRef) (fd fd' : Fin taskOfileNr)
    (file : Option (Fin fileTableSize)) :
  (s.setFd t fd file).fileTable u fd' = if u = t ∧ fd' = fd then file else s.fileTable u fd'
  := by
  change Function.update s.fileTable t _ u fd' = _
  by_cases hu : u = t
  · rw [hu, Function.update_self]
    by_cases hfd : fd' = fd
    · rw [hfd, Function.update_self, if_pos ⟨rfl, rfl⟩]
    · rw [Function.update_of_ne hfd, if_neg (fun h => hfd h.2)]
  · rw [Function.update_of_ne hu, if_neg (fun h => hu h.1)]

/-- A descriptor that was free is cleared again. -/
theorem setFd_cleared (h : s.fileTable t fd = none) (file : Option (Fin fileTableSize)) :
  ((s.setFd t fd file).setFd t fd none).fileTable = s.fileTable
  := by
  rw [setFd, setFd]
  simp only [Function.update_self, Function.update_idem]
  rw [← h, Function.update_eq_self, Function.update_eq_self]

/-- What a call of the task `t` can do: nothing, or a descriptor that was free takes a counted
reference. -/
inductive Outcome (s : FileState) (t : TaskRef) (s' : FileState) : Prop
  | same : s'.refs = s.refs → s'.fileTable = s.fileTable → s'.live = s.live → Outcome s t s'
  | taken {fd : Fin taskOfileNr} {i : Fin fileTableSize} : s.fileTable t fd = none →
      s'.refs = Function.update s.refs i (s.refs i + 1) →
      s'.fileTable = (s.setFd t fd (some i)).fileTable → s'.live = s.live → Outcome s t s'

/-- An opening that fails at the device leaves nothing behind. -/
theorem sysOpenFailed_outcome (hzero : s.refs i = 0) (hfd : s.fileTable t fd = none)
    (hrefs : s'.refs = Function.update s.refs i 1)
    (htable : s'.fileTable = (s.setFd t fd (some i)).fileTable) (hlive : s'.live = s.live) :
  Outcome s t (s'.sysOpenFailed t (some i) fd).2
  := by
  obtain ⟨hrefs', htable', hlive'⟩ := fileFree_allocated hzero hrefs
  rw [sysOpenFailed, if_pos (by omega), taskRemoveFd, fdIndex_coe]
  refine .same hrefs' ?_ (hlive'.trans hlive)
  change Function.update (s'.fileFree i).fileTable t _ = _
  rw [htable', htable]
  apply setFd_cleared hfd

theorem sysOpen_outcome (s : FileState) (t : TaskRef) (name : List UInt8) (bytes : Nat → UInt8) :
  Outcome s t (s.sysOpen t name bytes).2
  := by
  unfold sysOpen
  split_ifs
  · exact .same rfl rfl rfl
  · rcases s.fileAlloc_cases with ⟨i, hzero, halloc⟩ | halloc
    · rw [halloc]
      dsimp only
      rcases (s.setFile i { ref := 1 }).taskAllocFd_cases t i with ⟨fd, hfd, hfds⟩ | hfds
      · rw [hfds]
        dsimp only
        rw [if_neg (by omega)]
        split_ifs
        · apply sysOpenFailed_outcome hzero hfd
          · apply refs_setFile
          · rfl
          · rfl
        · refine .taken (i := i) (show s.fileTable t fd = none from hfd) ?_ rfl rfl
          change refs (setFile _ i _) = _
          rw [refs_setFile, hzero]
          change Function.update (s.setFile i { ref := 1 }).refs i 1 = _
          rw [refs_setFile, Function.update_idem, Int.zero_add]
      · rw [hfds]
        dsimp only
        obtain ⟨hrefs, htable, hlive⟩ := fileFree_allocated hzero (refs_setFile s i { ref := 1 })
        exact .same hrefs htable hlive
    · rw [halloc]
      exact .same rfl rfl rfl
  · exact .same rfl rfl rfl
  · exact .same rfl rfl rfl

theorem sysDup_outcome (s : FileState) (t : TaskRef) (file : Int) :
  Outcome s t (s.sysDup t file).2
  := by
  unfold sysDup
  split_ifs
  · exact .same rfl rfl rfl
  · rcases s.taskFile t file with _ | i
    · exact .same rfl rfl rfl
    · dsimp only
      rcases s.taskAllocFd_cases t i with ⟨fd, hfd, hfds⟩ | hfds
      · rw [hfds]
        dsimp only
        rw [if_pos (by omega)]
        refine .taken (i := i) hfd ?_ rfl rfl
        apply refs_setFile
      · rw [hfds]
        exact .same rfl rfl rfl

/-- The descriptors of the tasks that are alive after a descriptor of `t` has been set. -/
theorem descriptor_setFd (hlive : s.live t = true) (fd : Fin taskOfileNr)
    (file : Option (Fin fileTableSize)) :
  (s.setFd t fd file).descriptor = Function.update s.descriptor (t, fd) file
  := by
  funext ⟨u, fd'⟩
  change (if s.live u then (s.setFd t fd file).fileTable u fd' else none) = _
  rw [setFd_fileTable]
  by_cases hself : u = t ∧ fd' = fd
  · rw [hself.1, hself.2, Function.update_self, hlive, if_pos rfl, if_pos ⟨rfl, rfl⟩]
  · rw [if_neg hself, Function.update_of_ne (by simpa using hself)]
    rfl

theorem descriptor_congr (htable : s'.fileTable = s.fileTable) (hlive : s'.live = s.live) :
  s'.descriptor = s.descriptor
  := by
  funext p
  rw [descriptor, descriptor, htable, hlive]

/-- The counts and the descriptors stay as they are, or a counted reference is taken. -/
theorem Outcome.taken_or_same (h : Outcome s t s') (hlive : s.live t = true) :
  s'.refs = s.refs ∧ s'.descriptor = s.descriptor
    ∨ ∃ p i, s.descriptor p = none ∧ s'.refs = Function.update s.refs i (s.refs i + 1)
      ∧ s'.descriptor = Function.update s.descriptor p (some i)
  := by
  cases h with
  | same hrefs htable hlive' => exact .inl ⟨hrefs, descriptor_congr htable hlive'⟩
  | @taken fd i hfd hrefs htable hlive' =>
      right
      refine ⟨(t, fd), i, ?_, hrefs, ?_⟩
      · rw [descriptor, hlive]
        apply hfd
      · rw [← descriptor_setFd hlive]
        apply descriptor_congr htable hlive'

theorem Outcome.counted (h : Outcome s t s') (hlive : s.live t = true)
    (hc : Counted s.descriptor s.refs) :
  Counted s'.descriptor s'.refs
  := by
  rcases h.taken_or_same hlive with ⟨hrefs, hheld⟩ | ⟨p, i, hnone, hrefs, hheld⟩
  · rw [hrefs, hheld]
    apply hc
  · rw [hrefs, hheld]
    apply hc.take hnone

theorem Outcome.covered (h : Outcome s t s') (hlive : s.live t = true)
    (hc : Covered s.descriptor s.refs) :
  Covered s'.descriptor s'.refs
  := by
  rcases h.taken_or_same hlive with ⟨hrefs, hheld⟩ | ⟨p, i, hnone, hrefs, hheld⟩
  · rw [hrefs, hheld]
    apply hc
  · rw [hrefs, hheld]
    apply hc.take hnone

/-! ### The end of a task -/

theorem sysExit_loop (t : TaskRef) (fds : List (Fin taskOfileNr)) (s : FileState) :
  (sysExit.loop t fds s).fileTb = s.fileTb ∧ (sysExit.loop t fds s).live = s.live
    ∧ ∀ u fd, (sysExit.loop t fds s).fileTable u fd
      = if u = t ∧ fd ∈ fds then none else s.fileTable u fd
  := by
  induction fds generalizing s with
  | nil => simp [sysExit.loop]
  | cons fd fds ih =>
      rw [sysExit.loop]
      cases hfd : s.fileTable t fd with
      | none =>
          obtain ⟨hfiles, hlive, htable⟩ := ih s
          refine ⟨hfiles, hlive, fun u fd' => ?_⟩
          rw [htable]
          by_cases hself : u = t ∧ fd' = fd
          · rw [hself.1, hself.2, hfd, ite_self, ite_self]
          · apply if_congr _ rfl rfl
            rw [List.mem_cons]
            tauto
      | some i =>
          obtain ⟨hfiles, hlive, htable⟩ := ih (s.setFd t fd none)
          refine ⟨hfiles, hlive, fun u fd' => ?_⟩
          change (sysExit.loop t fds (s.setFd t fd none)).fileTable u fd' = _
          rw [htable, setFd_fileTable]
          by_cases hself : u = t ∧ fd' = fd
          · rw [if_pos hself, ite_self, if_pos ⟨hself.1, List.mem_cons.mpr (.inl hself.2)⟩]
          · rw [if_neg hself]
            apply if_congr _ rfl rfl
            rw [List.mem_cons]
            tauto

/-- A task that ends drops its descriptors, and no file counts them off. -/
theorem sysExit_dropped (s : FileState) (t : TaskRef) :
  (s.sysExit t).refs = s.refs
    ∧ ∀ p, (s.sysExit t).descriptor p = if p.1 = t then none else s.descriptor p
  := by
  obtain ⟨hfiles, hlive, htable⟩ := sysExit_loop t (List.finRange taskOfileNr) s
  constructor
  · funext i
    rw [refs, refs, ← hfiles]
    rfl
  · rintro ⟨u, fd⟩
    change (if Function.update (sysExit.loop t _ s).live t false u then
      (sysExit.loop t _ s).fileTable u fd else none) = _
    rw [htable, hlive]
    by_cases hu : u = t
    · rw [hu, Function.update_self, if_pos rfl]
      rfl
    · rw [Function.update_of_ne hu, if_neg (show ¬ (u = t ∧ _) from fun h => hu h.1),
        if_neg hu]
      rfl

theorem start_descriptor (h : s.live t = false) :
  (s.start t).descriptor = s.descriptor
  := by
  funext ⟨u, fd⟩
  change (if Function.update s.live t true u then
    Function.update s.fileTable t (fun _ => none) u fd else none) = _
  by_cases hu : u = t
  · rw [hu, Function.update_self, Function.update_self, descriptor, h]
    rfl
  · rw [Function.update_of_ne hu, Function.update_of_ne hu]
    rfl

end FileState

/-! ### Runs -/

inductive FileEvent where
  | open (t : TaskRef) (name : List UInt8) (bytes : Nat → UInt8)
  | dup (t : TaskRef) (file : Int)
  | close (t : TaskRef) (file : Int)
  | exit (t : TaskRef)
  | start (t : TaskRef)

namespace FileState

/-- The calls of the tasks that are alive. -/
inductive Step : FileState → FileEvent → FileState → Prop
  | open {s : FileState} {t : TaskRef} (name : List UInt8) (bytes : Nat → UInt8) :
      s.live t = true → Step s (.open t name bytes) (s.sysOpen t name bytes).2
  | dup {s : FileState} {t : TaskRef} (file : Int) :
      s.live t = true → Step s (.dup t file) (s.sysDup t file).2
  | close {s : FileState} {t : TaskRef} (file : Int) :
      s.live t = true → Step s (.close t file) (s.sysClose file).2
  | exit {s : FileState} {t : TaskRef} : s.live t = true → Step s (.exit t) (s.sysExit t)
  | start {s : FileState} {t : TaskRef} : s.live t = false → Step s (.start t) (s.start t)

/-- The references of each file are the descriptors that point to it. -/
def RefsMatch (s : FileState) : Prop :=
  ∀ i, (s.fileTb i).ref
    = (Finset.univ.filter fun p : TaskRef × Fin taskOfileNr => s.descriptor p = some i).card

/-- What a call leaves: references that match, and a cleared descriptor when it has closed one. -/
structure Kept (s : FileState) (e : FileEvent) (s' : FileState) : Prop where
  refs : s'.RefsMatch
  closed : ∀ t file, e = .close t file → s.taskFile t file ≠ none → (s.sysClose file).1 = 0 →
    s'.taskFile t file = none

/-- Nothing is open that is closed, and nothing when a task ends. -/
def NoneOpen (s : FileState) : FileEvent → Prop
  | .close t file => s.taskFile t file = none
  | .exit t => ∀ fd, s.fileTable t fd = none
  | _ => True

end FileState

/-- The calls on files, from the tables as they are at boot on. -/
def fileCalls : TransitionSystem FileState FileEvent where
  init s := (∀ i, s.fileTb i = {}) ∧ ∀ t fd, s.fileTable t fd = none
  step := FileState.Step

namespace FileState

variable {s s' : FileState} {e : FileEvent}

theorem refsMatch_init (h : fileCalls.init s) :
  s.RefsMatch
  := by
  intro i
  rw [h.1 i, Finset.filter_false_of_mem, Finset.card_empty]
  · rfl
  · intro p _
    rw [descriptor, h.2, ite_self]
    nofun

theorem refsMatch_iff :
  s.RefsMatch ↔ Counted s.descriptor s.refs
  := Iff.rfl

theorem RefsMatch.outcome {t : TaskRef} (h : s.RefsMatch) (hout : Outcome s t s')
    (hlive : s.live t = true) (hclose : ∀ t file, e ≠ .close t file) :
  Kept s e s'
  where
  refs := hout.counted hlive h
  closed t file he := absurd he (hclose t file)

/-- A task that ends keeps the counts right when it has no open file. -/
theorem RefsMatch.exit_iff {t : TaskRef} (h : s.RefsMatch) (hlive : s.live t = true) :
  (s.sysExit t).RefsMatch ↔ ∀ fd, s.fileTable t fd = none
  := by
  obtain ⟨hrefs, hheld⟩ := sysExit_dropped s t
  have hdrop : ∀ p, (s.sysExit t).descriptor p = s.descriptor p
      ∨ (s.sysExit t).descriptor p = none := by
    intro p
    rw [hheld]
    split_ifs
    · exact .inr rfl
    · exact .inl rfl
  rw [refsMatch_iff, hrefs, (refsMatch_iff.mp h).drop_iff hdrop]
  constructor
  · intro heq fd
    have hfd := congrFun heq (t, fd)
    rw [hheld, if_pos rfl, descriptor, hlive] at hfd
    exact hfd.symm
  · intro hnone
    funext p
    rw [hheld]
    split_ifs with hp
    · rw [descriptor, hp, hnone, ite_self]
    · rfl

/-- What one call keeps. -/
theorem RefsMatch.step_iff (h : s.RefsMatch) (hstep : fileCalls.step s e s') :
  Kept s e s' ↔ s.NoneOpen e
  := by
  cases hstep with
  | @«open» t name bytes hlive =>
      exact iff_of_true (h.outcome (sysOpen_outcome s t name bytes) hlive nofun) trivial
  | @dup t file hlive =>
      exact iff_of_true (h.outcome (sysDup_outcome s t file) hlive nofun) trivial
  | @close t file hlive =>
      constructor
      · intro hkept
        by_contra hopen
        apply hopen (hkept.closed t file rfl hopen rfl)
      · intro hnone
        refine ⟨h, ?_⟩
        rintro t' file' he hopen -
        cases he
        cases hopen hnone
  | @exit t hlive =>
      rw [NoneOpen, ← h.exit_iff hlive]
      constructor
      · intro hkept
        exact hkept.refs
      · intro hrefs
        exact ⟨hrefs, nofun⟩
  | @start t hlive =>
      apply iff_of_true _ trivial
      refine ⟨?_, nofun⟩
      rw [refsMatch_iff, start_descriptor hlive]
      apply h

/-- An entry that `file_alloc` takes is one that counts no reference. -/
theorem refs_of_fileAlloc {i : Fin fileTableSize} (h : s.fileAlloc.1 = some i) :
  s.refs i = 0
  := by
  rcases s.fileAlloc_cases with ⟨j, hzero, halloc⟩ | halloc
  · rw [halloc] at h
    cases h
    exact hzero
  · rw [halloc] at h
    cases h

/-- As long as nothing is closed that is open, and no task ends that has an open file, the
references match. -/
theorem refsMatch_of_reachable
    (h : (fileCalls.restrict NoneOpen).Reachable (fun _ => True) s) :
  s.RefsMatch ∧ (∀ i, s.fileAlloc.1 = some i → ∀ p, s.descriptor p ≠ some i)
    ∧ ∀ e s', fileCalls.step s e s' → (Kept s e s' ↔ s.NoneOpen e)
  := by
  have hmatch : s.RefsMatch := by
    apply h.invariant (I := RefsMatch)
    · intro s hinit
      apply refsMatch_init hinit
    · rintro s e s' hs - ⟨hnone, hstep⟩
      apply ((hs.step_iff hstep).mpr hnone).refs
  refine ⟨hmatch, ?_, fun e s' hstep => hmatch.step_iff hstep⟩
  intro i halloc
  apply (refsMatch_iff.mp hmatch).covered.unused (refs_of_fileAlloc halloc)

/-- The tables at boot, with the first task alive. -/
def booted : FileState where
  fileTb _ := {}
  devTb _ := ⟨none, 0, 0, 0⟩
  fileTable _ _ := none
  live t := t = .firstTask

/-- `tty:0` -/
def ttyName : List UInt8 :=
  [116, 116, 121, 58, 48]

/-- The first task has opened a terminal. -/
def ttyOpened : FileState :=
  (booted.sysOpen .firstTask ttyName fun i => ttyName.getD i 0).2

theorem booted_init :
  fileCalls.init booted
  := ⟨fun _ => rfl, fun _ _ => rfl⟩

theorem booted_step :
  fileCalls.step booted (.open .firstTask ttyName fun i => ttyName.getD i 0) ttyOpened
  := Step.open _ _ rfl

theorem refsMatch_ttyOpened :
  ttyOpened.RefsMatch ∧ (∀ i, ttyOpened.fileAlloc.1 = some i → ∀ p, ttyOpened.descriptor p ≠ some i)
    ∧ ∀ e s', fileCalls.step ttyOpened e s' → (Kept ttyOpened e s' ↔ ttyOpened.NoneOpen e)
  := by
  have hboot : (fileCalls.restrict NoneOpen).Reachable (fun _ => True) booted :=
    Reachable.init booted_init
  have hstep : (fileCalls.restrict NoneOpen).step booted
      (.open .firstTask ttyName fun i => ttyName.getD i 0) ttyOpened := ⟨trivial, booted_step⟩
  exact refsMatch_of_reachable (hboot.step trivial hstep)

/-- `sys_close` leaves the descriptor open, and `sys_exit` leaves the reference counted. -/
theorem not_kept_ttyOpened :
  fileCalls.Reachable (fun _ => True) ttyOpened
    ∧ (∃ s', fileCalls.step ttyOpened (.close .firstTask 0) s'
      ∧ ¬ Kept ttyOpened (.close .firstTask 0) s')
    ∧ ∃ s', fileCalls.step ttyOpened (.exit .firstTask) s' ∧ ¬ s'.RefsMatch
  := by
  have hmatch : ttyOpened.RefsMatch :=
    (((refsMatch_init booted_init).step_iff booted_step).mpr trivial).refs
  have hlive : ttyOpened.live .firstTask = true := by decide +kernel
  have hopen : ttyOpened.taskFile .firstTask 0 = some 0 := by decide +kernel
  have hentry : ttyOpened.fileTable .firstTask 0 = some 0 := by decide +kernel
  refine ⟨(Reachable.init booted_init).step trivial booted_step, ⟨_, Step.close 0 hlive, ?_⟩,
    ⟨_, Step.exit hlive, ?_⟩⟩
  · rw [hmatch.step_iff (Step.close 0 hlive)]
    intro hnone
    rw [NoneOpen, hopen] at hnone
    cases hnone
  · rw [hmatch.exit_iff hlive]
    intro hnone
    rw [hnone 0] at hentry
    cases hentry

/-- No call leaves a file with more descriptors than references. -/
theorem covered_step (h : Covered s.descriptor s.refs) (hstep : fileCalls.step s e s') :
  Covered s'.descriptor s'.refs
  := by
  cases hstep with
  | @«open» t name bytes hlive => exact (sysOpen_outcome s t name bytes).covered hlive h
  | @dup t file hlive => exact (sysDup_outcome s t file).covered hlive h
  | close file hlive => exact h
  | @exit t hlive =>
      obtain ⟨hrefs, hheld⟩ := sysExit_dropped s t
      rw [hrefs]
      apply h.drop
      intro p
      rw [hheld]
      split_ifs
      · exact .inr rfl
      · exact .inl rfl
  | start hlive =>
      rw [start_descriptor hlive]
      exact h

/-- In every run, an entry that a descriptor points to is not taken for a free one. -/
theorem fileAlloc_of_reachable (h : fileCalls.Reachable (fun _ => True) s) {i : Fin fileTableSize}
    (halloc : s.fileAlloc.1 = some i) (p : TaskRef × Fin taskOfileNr) :
  s.descriptor p ≠ some i
  := by
  have hcovered : Covered s.descriptor s.refs := by
    apply h.invariant (I := fun s => Covered s.descriptor s.refs)
    · intro s hinit
      apply (refsMatch_iff.mp (refsMatch_init hinit)).covered
    · intro s e s' hs _ hstep
      apply covered_step hs hstep
  exact hcovered.unused (refs_of_fileAlloc halloc) p

end FileState

end Dmos
