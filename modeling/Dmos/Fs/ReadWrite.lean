import Dmos.Fs.Devices

/-!
# Reads and writes on descriptors

`sys_write` goes to the device of the file behind its descriptor.  `sys_read` takes the
descriptor 12 for the temporary file, and for every other one it looks at the descriptor 0.  The
device it reads from is the right one exactly when the two files are on the same device
(`resolves_of_reachable`).
-/

open RefCount TransitionSystem

namespace Dmos

/-- What a call comes to: a value that is returned, a copy from the temporary file, or the
routine of a driver on a slot of `dev_tb`. -/
inductive Io where
  | ret (r : Int)
  | tempRead (ptr : Nat) (len : Int)
  | read (dev : Fin devTableSize) (addr : Int) (ptr : Nat) (size : Int)
  | write (dev : Fin devTableSize) (addr : Int) (ptr : Nat) (size : Int)
deriving DecidableEq

def devRead (devTb : Fin devTableSize → Device) (devId addr : Int) (buf : Nat) (size : Int) : Io :=
  if isDevidBad devTb devId then .ret (-1)
  else
    match devIndex devId with
    | some dev => .read dev addr buf size
    | none => .ret (-1)

def devWrite (devTb : Fin devTableSize → Device) (devId addr : Int) (buf : Nat) (size : Int) : Io :=
  if isDevidBad devTb devId then .ret (-1)
  else
    match devIndex devId with
    | some dev => .write dev addr buf size
    | none => .ret (-1)

namespace FileState

def sysRead (s : FileState) (t : TaskRef) (file : Int) (ptr : Nat) (len : Int) : Io :=
  if file = tempFileId then .tempRead ptr len
  else
    -- the descriptor is set to 0
    match s.taskFile t 0 with
    | none => .ret (-1)
    | some i => devRead s.devTb (s.fileTb i).devId 0 ptr len

def sysWrite (s : FileState) (t : TaskRef) (file : Int) (ptr : Nat) (len : Int) : Io :=
  match s.taskFile t file with
  | none => .ret (-1)
  | some i => devWrite s.devTb (s.fileTb i).devId 0 ptr len

/-- The `dev_id` of the file behind a descriptor. -/
def devId (s : FileState) (t : TaskRef) (fd : Int) : Option Int :=
  (s.taskFile t fd).map fun i => (s.fileTb i).devId

/-- The call of `sys_open` returns the descriptor for a path that begins with '/'. -/
def OpensPath (s : FileState) (e : FileEvent) (t : TaskRef) (fd : Int) : Prop :=
  ∃ name bytes, e = .open t name bytes ∧ name.head? = some 47 ∧ 0 ≤ fd
    ∧ (s.sysOpen t name bytes).1 = fd

end FileState

/-- The tables, with the descriptors that `sys_open` has returned for paths. -/
structure FileHistory where
  state : FileState
  paths : TaskRef → Int → Prop

/-- The calls on files, with what `sys_open` returns. -/
def fileHistories : TransitionSystem FileHistory FileEvent where
  init s := fileCalls.init s.state ∧ ∀ t fd, ¬ s.paths t fd
  step s e s' := fileCalls.step s.state e s'.state
    ∧ ∀ t fd, s'.paths t fd ↔ s.paths t fd ∨ s.state.OpensPath e t fd

namespace FileHistory

/-- Reads of a task on a descriptor are served by the device of its file, on which the writes are
made; on a descriptor that is not open, and has not been returned for a path, they fail. -/
structure ReadsRight (s : FileHistory) (t : TaskRef) (fd : Int) (ptr : Nat) (len : Int) : Prop where
  device : ∀ devId, s.state.devId t fd = some devId → ∃ dev, devIndex devId = some dev
    ∧ s.state.sysRead t fd ptr len = .read dev 0 ptr len
    ∧ s.state.sysWrite t fd ptr len = .write dev 0 ptr len
  fails : s.state.devId t fd = none → ¬ s.paths t fd → s.state.sysRead t fd ptr len = .ret (-1)

/-- The descriptor 12 has been returned for a path and is not open beside that; any other one is
on the same device as the descriptor 0, if the two are open. -/
def Resolves (s : FileHistory) (t : TaskRef) (fd : Int) : Prop :=
  if fd = tempFileId then s.state.devId t fd = none ∧ s.paths t fd
  else s.state.devId t fd = s.state.devId t 0

end FileHistory

namespace FileState

variable {s s' : FileState} {t : TaskRef}

/-! ### Devices of open files -/

/-- The devices of the files of all tasks are there. -/
def DevicesGood (s : FileState) : Prop :=
  ∀ p i, s.descriptor p = some i → isDevidBad s.devTb (s.fileTb i).devId = false

theorem devIndex_of_good {devTb : Fin devTableSize → Device} {devId : Int}
    (h : isDevidBad devTb devId = false) :
  ∃ i, devIndex devId = some i
  := by
  rw [isDevidBad] at h
  cases hindex : devIndex devId with
  | none =>
      rw [hindex] at h
      cases h
  | some i => exact ⟨i, rfl⟩

theorem isDevidBad_kept {devTb devTb' : Fin devTableSize → Device} {devId : Int}
    (hdescs : ∀ k, (devTb k).desc.isNone = false → (devTb' k).desc.isNone = false)
    (h : isDevidBad devTb devId = false) :
  isDevidBad devTb' devId = false
  := by
  obtain ⟨i, hi⟩ := devIndex_of_good h
  rw [isDevidBad, hi] at h ⊢
  apply hdescs i h

/-- What a call does to the devices of the files: no slot loses its driver, a file that stays
open stays on its device, and one that is opened is on a device with a driver. -/
structure DevicesKept (s s' : FileState) : Prop where
  descs : ∀ k, (s.devTb k).desc.isNone = false → (s'.devTb k).desc.isNone = false
  files : ∀ p i, s'.descriptor p = some i →
    (∃ p', s.descriptor p' = some i) ∧ (s'.fileTb i).devId = (s.fileTb i).devId
      ∨ isDevidBad s'.devTb (s'.fileTb i).devId = false

theorem DevicesGood.kept (h : s.DevicesGood) (hkept : DevicesKept s s') :
  s'.DevicesGood
  := by
  intro p i hp
  rcases hkept.files p i hp with ⟨⟨p', hp'⟩, hdevId⟩ | hgood
  · rw [hdevId]
    apply isDevidBad_kept hkept.descs (h p' i hp')
  · exact hgood

/-- A call that opens nothing new, and changes no file that is open. -/
theorem DevicesKept.of_files
    (hdescs : ∀ k, (s.devTb k).desc.isNone = false → (s'.devTb k).desc.isNone = false)
    (hopen : ∀ p i, s'.descriptor p = some i → ∃ p', s.descriptor p' = some i)
    (hfiles : ∀ p i, s.descriptor p = some i → (s'.fileTb i).devId = (s.fileTb i).devId) :
  DevicesKept s s'
  := by
  use hdescs
  intro p i hp
  obtain ⟨p', hp'⟩ := hopen p i hp
  left
  exact ⟨⟨p', hp'⟩, hfiles p' i hp'⟩

theorem setFile_self (s : FileState) (i : Fin fileTableSize) (file : File) :
  (s.setFile i file).fileTb i = file
  := Function.update_self _ _ _

theorem fileFree_others (s : FileState) {i j : Fin fileTableSize} (hne : j ≠ i) :
  (s.fileFree i).fileTb j = s.fileTb j
  := by
  rw [fileFree]
  split_ifs
  · apply Function.update_of_ne hne
  · rfl

theorem fileFree_devTb (s : FileState) (i : Fin fileTableSize) :
  (s.fileFree i).devTb = s.devTb ∧ (s.fileFree i).fileTable = s.fileTable
    ∧ (s.fileFree i).live = s.live
  := by
  rw [fileFree]
  split_ifs <;> exact ⟨rfl, rfl, rfl⟩

section Open

variable {i : Fin fileTableSize} {fd : Fin taskOfileNr} (hunused : ∀ p, s.descriptor p ≠ some i)
  (hfiles : ∀ j, j ≠ i → s'.fileTb j = s.fileTb j)
  (hdescs : ∀ k, (s.devTb k).desc.isNone = false → (s'.devTb k).desc.isNone = false)

include hunused hfiles hdescs

/-- An entry that no descriptor points to changes. -/
theorem DevicesKept.of_unused (hdescriptor : s'.descriptor = s.descriptor) :
  DevicesKept s s'
  := by
  apply DevicesKept.of_files hdescs
  · intro p j hp
    use p
    rwa [hdescriptor] at hp
  · intro p j hp
    rw [hfiles]
    rintro rfl
    exact hunused p hp

/-- An opening that has failed leaves the files that are open as they are. -/
theorem sysOpenFailed_kept (hfd : s.fileTable t fd = none)
    (htable : s'.fileTable = (s.setFd t fd (some i)).fileTable) (hlive : s'.live = s.live) :
  DevicesKept s (s'.sysOpenFailed t (some i) (fd : Nat)).2
  := by
  obtain ⟨hdevTb, htable', hlive'⟩ := s'.fileFree_devTb i
  rw [sysOpenFailed, if_pos (by omega), taskRemoveFd, fdIndex_coe]
  apply DevicesKept.of_unused hunused
  · intro j hj
    change (s'.fileFree i).fileTb j = _
    rw [fileFree_others s' hj, hfiles j hj]
  · intro k hk
    change ((s'.fileFree i).devTb k).desc.isNone = false
    rw [hdevTb]
    apply hdescs k hk
  · apply descriptor_congr
    · change Function.update (s'.fileFree i).fileTable t _ = _
      rw [htable', htable]
      apply setFd_cleared hfd
    · exact hlive'.trans hlive

/-- A descriptor has been opened on a device with a driver. -/
theorem DevicesKept.of_opened
    (hdescriptor : s'.descriptor = Function.update s.descriptor (t, fd) (some i))
    (hgood : isDevidBad s'.devTb (s'.fileTb i).devId = false) :
  DevicesKept s s'
  := by
  use hdescs
  intro p j hp
  rw [hdescriptor] at hp
  by_cases hself : p = (t, fd)
  · rw [hself, Function.update_self, Option.some_inj] at hp
    right
    rw [← hp]
    exact hgood
  · rw [Function.update_of_ne hself] at hp
    left
    use ⟨p, hp⟩
    rw [hfiles]
    rintro rfl
    exact hunused p hp

end Open

theorem sysOpen_kept (hlive : s.live t = true) (hcovered : Covered s.descriptor s.refs)
    (name : List UInt8) (bytes : Nat → UInt8) :
  DevicesKept s (s.sysOpen t name bytes).2
  := by
  have hsame : DevicesKept s s :=
    .of_files (fun _ hk => hk) (fun p i hp => ⟨p, hp⟩) (fun _ _ _ => rfl)
  unfold sysOpen
  split_ifs
  · exact hsame
  · rcases s.fileAlloc_cases with ⟨i, hzero, halloc⟩ | halloc
    · have hunused := hcovered.unused hzero
      have hset (file : File) (j : Fin fileTableSize) (hj : j ≠ i) :
          Function.update s.fileTb i file j = s.fileTb j := Function.update_of_ne hj _ _
      rw [halloc]
      dsimp only
      rcases (s.setFile i { ref := 1 }).taskAllocFd_cases t i with ⟨fd, hfd, hfds⟩ | hfds
      · rw [hfds]
        dsimp only
        rw [if_neg (by omega)]
        obtain ⟨hdescs, hgood⟩ := devOpen_desc s.devTb devTty ((bytes 4).toInt8.toInt - 48) 0
        split_ifs with hfail
        · exact sysOpenFailed_kept hunused (hset _) hdescs hfd rfl rfl
        · apply DevicesKept.of_opened hunused
          · intro j hj
            change Function.update (Function.update s.fileTb i _) i _ j = _
            rw [Function.update_of_ne hj, Function.update_of_ne hj]
          · exact hdescs
          · exact descriptor_setFd hlive fd (some i)
          · dsimp only
            rw [setFile_self]
            apply hgood (not_lt.mp hfail)
      · rw [hfds]
        dsimp only
        obtain ⟨hdevTb, htable, hlive'⟩ := (s.setFile i { ref := 1 }).fileFree_devTb i
        rw [if_pos (by decide), sysOpenFailed, if_neg (by decide)]
        apply DevicesKept.of_unused hunused
        · intro j hj
          rw [fileFree_others _ hj]
          apply hset _ j hj
        · intro k hk
          dsimp only
          rw [hdevTb]
          exact hk
        · exact descriptor_congr htable hlive'
    · rw [halloc]
      exact hsame
  · exact hsame
  · exact hsame

theorem sysDup_kept (hlive : s.live t = true) (file : Int) :
  DevicesKept s (s.sysDup t file).2
  := by
  have hsame : DevicesKept s s :=
    .of_files (fun _ hk => hk) (fun p i hp => ⟨p, hp⟩) (fun _ _ _ => rfl)
  unfold sysDup
  split_ifs
  · exact hsame
  · cases hfile : s.taskFile t file with
    | none => exact hsame
    | some i =>
        dsimp only
        rcases s.taskAllocFd_cases t i with ⟨fd, -, hfds⟩ | hfds
        · rw [hfds]
          dsimp only
          rw [if_pos (by omega)]
          apply DevicesKept.of_files
          · exact fun _ hk => hk
          · intro p j hp
            change (s.setFd t fd (some i)).descriptor p = some j at hp
            rw [descriptor_setFd hlive] at hp
            by_cases hself : p = (t, fd)
            · rw [hself, Function.update_self, Option.some_inj] at hp
              rw [taskFile] at hfile
              cases hindex : fdIndex file with
              | none =>
                  rw [hindex] at hfile
                  cases hfile
              | some fd' =>
                  rw [hindex] at hfile
                  use (t, fd')
                  rw [descriptor, hlive, ← hp]
                  exact hfile
            · rw [Function.update_of_ne hself] at hp
              exact ⟨p, hp⟩
          · intro p j _
            change (Function.update s.fileTb i _ j).devId = _
            by_cases hj : j = i
            · rw [hj, Function.update_self]
              rfl
            · rw [Function.update_of_ne hj]
        · rw [hfds]
          exact hsame

theorem sysExit_kept (s : FileState) (t : TaskRef) :
  DevicesKept s (s.sysExit t)
  := by
  obtain ⟨-, hheld⟩ := sysExit_dropped s t
  have hloop (fds : List (Fin taskOfileNr)) (s : FileState) :
      (sysExit.loop t fds s).fileTb = s.fileTb ∧ (sysExit.loop t fds s).devTb = s.devTb := by
    induction fds generalizing s with
    | nil => exact ⟨rfl, rfl⟩
    | cons fd fds ih =>
        rw [sysExit.loop]
        cases s.fileTable t fd with
        | none => apply ih
        | some i => apply ih
  obtain ⟨hfiles, hdevs⟩ := hloop (List.finRange taskOfileNr) s
  apply DevicesKept.of_files
  · intro k hk
    change ((sysExit.loop t _ s).devTb k).desc.isNone = false
    rw [hdevs]
    exact hk
  · intro p i hp
    rw [hheld] at hp
    split_ifs at hp
    exact ⟨p, hp⟩
  · intro p i _
    change ((sysExit.loop t _ s).fileTb i).devId = _
    rw [hfiles]

/-- In every run the devices of the files that are open are there. -/
theorem devicesGood_of_reachable (h : fileCalls.Reachable (fun _ => True) s) :
  Covered s.descriptor s.refs ∧ s.DevicesGood
  := by
  apply h.invariant (I := fun s => Covered s.descriptor s.refs ∧ s.DevicesGood)
  · intro s hinit
    use (refsMatch_iff.mp (refsMatch_init hinit)).covered
    intro p i hp
    rw [descriptor, hinit.2, ite_self] at hp
    cases hp
  · rintro s e s' ⟨hcovered, hgood⟩ - hstep
    use covered_step hcovered hstep
    cases hstep with
    | @«open» t name bytes hlive => exact hgood.kept (sysOpen_kept hlive hcovered name bytes)
    | @dup t file hlive => exact hgood.kept (sysDup_kept hlive file)
    | close file hlive => exact hgood
    | @exit t hlive => exact hgood.kept (sysExit_kept s t)
    | start hlive =>
        intro p i hp
        rw [start_descriptor hlive] at hp
        exact hgood p i hp

/-- The device of a descriptor of a task that is alive. -/
theorem DevicesGood.devIndex (h : s.DevicesGood) (hlive : s.live t = true) {fd devId : Int}
    (hfd : s.devId t fd = some devId) :
  isDevidBad s.devTb devId = false ∧ ∃ dev, Dmos.devIndex devId = some dev
  := by
  obtain ⟨i, hi, rfl⟩ := Option.map_eq_some_iff.mp hfd
  have hgood : isDevidBad s.devTb (s.fileTb i).devId = false := by
    rw [taskFile] at hi
    cases hindex : fdIndex fd with
    | none =>
        rw [hindex] at hi
        cases hi
    | some fd' =>
        rw [hindex] at hi
        apply h (t, fd')
        rw [descriptor, hlive]
        exact hi
  exact ⟨hgood, devIndex_of_good hgood⟩

variable {fd : Int} {ptr : Nat} {len : Int}

theorem sysRead_eq (hfd : fd ≠ tempFileId) :
  s.sysRead t fd ptr len
    = match s.devId t 0 with
      | none => .ret (-1)
      | some devId => devRead s.devTb devId 0 ptr len
  := by
  rw [sysRead, if_neg hfd, devId]
  cases s.taskFile t 0 <;> rfl

theorem sysWrite_eq :
  s.sysWrite t fd ptr len
    = match s.devId t fd with
      | none => .ret (-1)
      | some devId => devWrite s.devTb devId 0 ptr len
  := by
  rw [sysWrite, devId]
  cases s.taskFile t fd <;> rfl

end FileState

namespace FileHistory

open FileState

variable {s : FileHistory} {t : TaskRef} {fd : Int} {ptr : Nat} {len : Int}

theorem state_of_reachable (h : fileHistories.Reachable (fun _ => True) s) :
  fileCalls.Reachable (fun _ => True) s.state
  := by
  induction h with
  | init h => exact Reachable.init h.1
  | step _ _ hstep ih => exact ih.step trivial hstep.1

/-- A path is given the descriptor 12. -/
theorem paths_of_reachable (h : fileHistories.Reachable (fun _ => True) s) (hpath : s.paths t fd) :
  fd = tempFileId
  := by
  have hall : ∀ t fd, s.paths t fd → fd = tempFileId := by
    apply h.invariant (I := fun s => ∀ t fd, s.paths t fd → fd = tempFileId)
    · intro s hinit t fd hpath
      cases hinit.2 t fd hpath
    · rintro s e s' hs - ⟨-, hpaths⟩ t fd hpath
      rcases (hpaths t fd).mp hpath with hbefore | ⟨name, bytes, -, hname, hnonneg, hret⟩
      · apply hs t fd hbefore
      · have hpath : kStrncmp name [116, 116, 121] ≠ 0 := by
          cases name with
          | nil => cases hname
          | cons c name =>
              cases hname
              rw [kStrncmp, if_neg (by decide)]
              decide
        rw [sysOpen, if_neg hpath] at hret
        split_ifs at hret
        · exact hret.symm
        · rw [← hret] at hnonneg
          cases hnonneg
  apply hall t fd hpath

theorem readsRight_tempFile :
  s.ReadsRight t tempFileId ptr len ↔ s.state.devId t tempFileId = none ∧ s.paths t tempFileId
  := by
  have hread : s.state.sysRead t tempFileId ptr len = .tempRead ptr len := if_pos rfl
  constructor
  · rintro ⟨hdevice, hfails⟩
    rw [hread] at hdevice hfails
    have hnone : s.state.devId t tempFileId = none := by
      cases hdevId : s.state.devId t tempFileId with
      | none => rfl
      | some devId =>
          obtain ⟨dev, -, hdev, -⟩ := hdevice devId hdevId
          cases hdev
    use hnone
    by_contra hpath
    cases hfails hnone hpath
  · rintro ⟨hnone, hpath⟩
    constructor
    · intro devId hdevId
      rw [hnone] at hdevId
      cases hdevId
    · intro _ hnot
      cases hnot hpath

/-- In every run, reads on a descriptor reach the device on which the writes are made, and fail
where nothing is open, exactly when the descriptor resolves. -/
theorem resolves_of_reachable (h : fileHistories.Reachable (fun _ => True) s)
    (hlive : s.state.live t = true) (fd : Int) (ptr : Nat) (len : Int) :
  s.ReadsRight t fd ptr len ↔ s.Resolves t fd
  := by
  rw [Resolves]
  split_ifs with hfd
  · rw [hfd]
    apply readsRight_tempFile
  · have hgood := (devicesGood_of_reachable (state_of_reachable h)).2
    have hpath : ¬ s.paths t fd := fun hpath => hfd (paths_of_reachable h hpath)
    have hserved {x devId : Int} (hx : s.state.devId t x = some devId) :
        ∃ dev, devIndex devId = some dev
          ∧ devRead s.state.devTb devId 0 ptr len = .read dev 0 ptr len
          ∧ devWrite s.state.devTb devId 0 ptr len = .write dev 0 ptr len := by
      obtain ⟨hbad, dev, hdev⟩ := hgood.devIndex hlive hx
      refine ⟨dev, hdev, ?_, ?_⟩
      · rw [devRead, hbad, hdev]
        rfl
      · rw [devWrite, hbad, hdev]
        rfl
    constructor
    · rintro ⟨hdevice, hfails⟩
      rw [sysRead_eq hfd] at hdevice hfails
      cases hzero : s.state.devId t 0 with
      | none =>
          rw [hzero] at hdevice
          cases hdevId : s.state.devId t fd with
          | none => rfl
          | some devId =>
              obtain ⟨dev, -, hread, -⟩ := hdevice devId hdevId
              cases hread
      | some devId₀ =>
          obtain ⟨dev₀, hdev₀, hread₀, -⟩ := hserved hzero
          rw [hzero] at hdevice hfails
          dsimp only at hdevice hfails
          rw [hread₀] at hdevice hfails
          cases hdevId : s.state.devId t fd with
          | none => cases hfails hdevId hpath
          | some devId =>
              obtain ⟨dev, hdev, hread, -⟩ := hdevice devId hdevId
              cases hread
              rw [devIndex_eq hdev, devIndex_eq hdev₀]
    · intro heq
      constructor
      · intro devId hdevId
        obtain ⟨dev, hdev, hread, hwrite⟩ := hserved hdevId
        rw [sysRead_eq hfd, sysWrite_eq, ← heq, hdevId]
        exact ⟨dev, hdev, hread, hwrite⟩
      · intro hnone _
        rw [sysRead_eq hfd, ← heq, hnone]

/-- A terminal has been opened by its name. -/
def openTty (s : FileHistory) (name : List UInt8) : FileHistory :=
  ⟨(s.state.sysOpen .firstTask name fun i => name.getD i 0).2, s.paths⟩

theorem step_openTty {name : List UInt8} (hlive : s.state.live .firstTask = true)
    (hname : name.head? = some 116) :
  fileHistories.step s (.open .firstTask name fun i => name.getD i 0) (s.openTty name)
  := by
  use FileState.Step.open _ _ hlive
  intro t fd
  apply (or_iff_left _).symm
  rintro ⟨name', bytes, heq, hslash, -⟩
  cases heq
  rw [hname] at hslash
  cases hslash

/-- `tty:1` -/
def ttyName₁ : List UInt8 :=
  [116, 116, 121, 58, 49]

/-- The tables at boot. -/
def booted : FileHistory :=
  ⟨FileState.booted, fun _ _ => False⟩

theorem booted_reachable :
  fileHistories.Reachable (fun _ => True) booted
  := Reachable.init ⟨booted_init, fun _ _ hpath => hpath⟩

theorem openTty_reachable :
  fileHistories.Reachable (fun _ => True) (booted.openTty ttyName)
    ∧ (booted.openTty ttyName).state.live .firstTask = true
  := by
  have hlive : (booted.openTty ttyName).state.live .firstTask = true := by decide +kernel
  exact ⟨booted_reachable.step trivial (step_openTty rfl rfl), hlive⟩

/-- The descriptor 0 has been duplicated. -/
def dupTty (s : FileHistory) : FileHistory :=
  ⟨(s.state.sysDup .firstTask 0).2, s.paths⟩

theorem step_dupTty (hlive : s.state.live .firstTask = true) :
  fileHistories.step s (.dup .firstTask 0) s.dupTty
  := by
  use FileState.Step.dup 0 hlive
  intro t fd
  apply (or_iff_left _).symm
  rintro ⟨name, bytes, heq, -⟩
  cases heq

/-- Both descriptors are read from the terminal. -/
theorem readsRight_openTty :
  (booted.openTty ttyName).ReadsRight .firstTask 0 4096 1
    ∧ (booted.openTty ttyName).dupTty.state.devId .firstTask 1 = some 127
    ∧ (booted.openTty ttyName).dupTty.ReadsRight .firstTask 1 4096 1
  := by
  have hdevId : (booted.openTty ttyName).dupTty.state.devId .firstTask 1 = some 127 := by
    decide +kernel
  have hlive : (booted.openTty ttyName).dupTty.state.live .firstTask = true := by decide +kernel
  have hreachable := openTty_reachable.1.step trivial (step_dupTty openTty_reachable.2)
  refine ⟨?_, hdevId, ?_⟩
  · apply (resolves_of_reachable openTty_reachable.1 openTty_reachable.2 0 4096 1).mpr
    rw [Resolves, if_neg (by decide)]
  · apply (resolves_of_reachable hreachable hlive 1 4096 1).mpr
    rw [Resolves, if_neg (by decide), hdevId]
    decide +kernel

/-- With two terminals open, a read of the second goes to the first. -/
theorem not_readsRight_openTty :
  fileHistories.Reachable (fun _ => True) ((booted.openTty ttyName).openTty ttyName₁)
    ∧ ¬ ((booted.openTty ttyName).openTty ttyName₁).ReadsRight .firstTask 1 4096 1
  := by
  use openTty_reachable.1.step trivial (step_openTty openTty_reachable.2 rfl)
  rintro ⟨hdevice, -⟩
  obtain ⟨dev, hdev, hread, -⟩ := hdevice 126 (by decide +kernel)
  have hfirst : ((booted.openTty ttyName).openTty ttyName₁).state.sysRead .firstTask 1 4096 1
      = .read 127 0 4096 1 := by decide +kernel
  rw [hfirst] at hread
  cases hread
  cases hdev

end FileHistory

end Dmos
