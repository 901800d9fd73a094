import Dmos.Fs.ReadWrite

/-!
# Opening a file

`sys_open` takes an entry of `file_tb`, a descriptor and a device one after the other, and gives
back what it has taken when one of them is missing.  A call that fails leaves all descriptors,
references and counts as they were; one that opens a terminal takes the lowest free descriptor, a
free entry and one more use of a single device (`sysOpen_tables`).
-/

namespace Dmos

/-- A failing open may leave its arguments in a free slot; a successful one counts one more use of
the slot that it returns, and leaves the others alone. -/
theorem devOpen_counts (devTb : Fin devTableSize → Device) (major minor : Int) (data : Nat) :
  (((devOpen devTb major minor data).1 = -1)
      ∧ ∀ k, ((devOpen devTb major minor data).2 k).openCount = (devTb k).openCount)
    ∨ ∃ i : Fin devTableSize, (devOpen devTb major minor data).1 = (i : Nat)
      ∧ ((devOpen devTb major minor data).2 i).openCount = (devTb i).openCount + 1
      ∧ ∀ k, k ≠ i → (devOpen devTb major minor data).2 k = devTb k
  := by
  have hkept : ∀ (i : Fin devTableSize) (dev : Device) (k : Fin devTableSize), k ≠ i →
      Function.update devTb i dev k = devTb k := fun i dev k hk => Function.update_of_ne hk _ _
  have hnone : ∀ i, none = some i → (devTb i).openCount = 0 := by
    intro i hi
    cases hi
  rw [devOpen]
  rcases devOpen_find devTb major minor (List.finRange devTableSize) none hnone with
    ⟨i, f, hfind, -⟩ | ⟨f, hfind, -, hzero, -⟩
  · rw [hfind]
    right
    refine ⟨i, rfl, ?_, hkept i _⟩
    dsimp only
    rw [Function.update_self]
  · rw [hfind]
    cases devDescTb.find? fun d => d.major = major with
    | none => exact .inl ⟨rfl, fun _ => rfl⟩
    | some desc =>
        cases f with
        | none => exact .inl ⟨rfl, fun _ => rfl⟩
        | some i =>
            dsimp only
            split_ifs
            · right
              refine ⟨i, rfl, ?_, hkept i _⟩
              dsimp only
              rw [Function.update_self, hzero i rfl]
              rfl
            · left
              use rfl
              intro k
              dsimp only
              by_cases hk : k = i
              · rw [hk, Function.update_self]
              · rw [hkept i _ k hk]

namespace FileState

variable {s s' : FileState} {t : TaskRef} {i : Fin fileTableSize} {fd : Fin taskOfileNr}

/-- The descriptor that is taken is the lowest free one. -/
theorem taskAllocFd_lowest (h : (s.taskAllocFd t i).1 = (fd : Nat)) :
  s.fileTable t fd = none ∧ ∀ fd' < fd, s.fileTable t fd' ≠ none
  := by
  rw [taskAllocFd] at h
  split at h
  · next fd₁ hfind =>
      obtain ⟨hnone, k, hk, rfl, hbefore⟩ := List.find?_eq_some_iff_getElem.mp hfind
      rw [List.getElem_finRange] at h hnone
      have heq : fd = ⟨k, by simpa using hk⟩ := by
        apply Fin.ext
        exact Int.ofNat_inj.mp h.symm
      subst heq
      use of_decide_eq_true hnone
      intro fd' hlt
      have hnot := hbefore fd' hlt
      rw [List.getElem_finRange] at hnot
      simpa using hnot
  · cases h

/-- All descriptors, references and counts are as they were. -/
structure TablesKept (s s' : FileState) : Prop where
  fileTable : s'.fileTable = s.fileTable
  refs : s'.refs = s.refs
  openCount : ∀ k, (s'.devTb k).openCount = (s.devTb k).openCount

/-- The lowest free descriptor of the task points to an entry that was free, and one device is
used once more.  Everything else is as it was. -/
structure OpensTty (s : FileState) (t : TaskRef) (fd : Fin taskOfileNr) (i : Fin fileTableSize)
    (dev : Fin devTableSize) (s' : FileState) : Prop where
  free : s.fileTable t fd = none
  lowest : ∀ fd' < fd, s.fileTable t fd' ≠ none
  refs_before : s.refs i = 0
  refs_after : s'.refs i = 1
  entry : s'.fileTable t fd = some i
  fileTable : ∀ u fd', ¬ (u = t ∧ fd' = fd) → s'.fileTable u fd' = s.fileTable u fd'
  fileTb : ∀ j, j ≠ i → s'.fileTb j = s.fileTb j
  devId : (s'.fileTb i).devId = (dev : Nat)
  openCount : (s'.devTb dev).openCount = (s.devTb dev).openCount + 1
  devTb : ∀ k, k ≠ dev → s'.devTb k = s.devTb k

/-- A failure after an entry has been taken, and a descriptor or none. -/
theorem sysOpenFailed_tables {fd : Int} (hzero : s.refs i = 0)
    (hrefs : s'.refs = Function.update s.refs i 1)
    (htable : fd < 0 ∧ s'.fileTable = s.fileTable
      ∨ ∃ fd' : Fin taskOfileNr, fd = (fd' : Nat) ∧ s.fileTable t fd' = none
        ∧ s'.fileTable = (s.setFd t fd' (some i)).fileTable)
    (hcounts : ∀ k, (s'.devTb k).openCount = (s.devTb k).openCount) :
  TablesKept s (s'.sysOpenFailed t (some i) fd).2
  := by
  obtain ⟨hrefs', htable', -⟩ := fileFree_allocated hzero hrefs
  have hdevs := (fileFree_devTb s' i).1
  rw [sysOpenFailed]
  rcases htable with ⟨hneg, heq⟩ | ⟨fd', rfl, hfd, heq⟩
  · rw [if_neg (by omega)]
    refine ⟨htable'.trans heq, hrefs', ?_⟩
    intro k
    dsimp only
    rw [hdevs, hcounts]
  · rw [if_pos (by omega), taskRemoveFd, fdIndex_coe]
    refine ⟨?_, hrefs', ?_⟩
    · change Function.update (s'.fileFree i).fileTable t _ = _
      rw [htable', heq]
      apply setFd_cleared hfd
    · intro k
      change ((s'.fileFree i).devTb k).openCount = _
      rw [hdevs, hcounts]

/-- What `sys_open` of a path that is taken for a terminal's can do. -/
theorem sysOpen_tty (s : FileState) (t : TaskRef) (name : List UInt8) (bytes : Nat → UInt8)
    (htty : kStrncmp name [116, 116, 121] = 0) :
  ((s.sysOpen t name bytes).1 = -1 ∧ TablesKept s (s.sysOpen t name bytes).2)
    ∨ ∃ fd i dev, (s.sysOpen t name bytes).1 = ((fd : Fin taskOfileNr) : Nat)
      ∧ OpensTty s t fd i dev (s.sysOpen t name bytes).2
  := by
  rw [sysOpen, if_pos htty]
  by_cases hempty : name = []
  · rw [if_pos hempty]
    exact .inl ⟨rfl, rfl, rfl, fun _ => rfl⟩
  rw [if_neg hempty]
  rcases s.fileAlloc_cases with ⟨i, hzero, halloc⟩ | halloc
  · have hrefs := refs_setFile s i { ref := 1 }
    rw [halloc]
    dsimp only
    have hlowest (fd : Fin taskOfileNr)
        (h : ((s.setFile i { ref := 1 }).taskAllocFd t i).1 = (fd : Nat)) :=
      taskAllocFd_lowest h
    rcases (s.setFile i { ref := 1 }).taskAllocFd_cases t i with ⟨fd, hfd, hfds⟩ | hfds
    · rw [hfds] at hlowest ⊢
      dsimp only
      rw [if_neg (by omega)]
      rcases devOpen_counts ((s.setFile i { ref := 1 }).setFd t fd (some i)).devTb devTty
        ((bytes 4).toInt8.toInt - 48) 0 with ⟨hbad, hcounts⟩ | ⟨dev, hdev, hcount, hothers⟩
      · left
        rw [hbad, if_pos (by decide)]
        refine ⟨rfl, sysOpenFailed_tables hzero hrefs (.inr ⟨fd, rfl, hfd, rfl⟩) ?_⟩
        intro k
        apply hcounts
      · right
        use fd, i, dev
        rw [hdev, if_neg (by omega)]
        use rfl
        constructor
        · exact hfd
        · exact (hlowest fd rfl).2
        · exact hzero
        · change refs (setFile _ i _) i = 1
          rw [refs_setFile, Function.update_self]
        · change (setFd _ t fd (some i)).fileTable t fd = some i
          rw [setFd_fileTable, if_pos ⟨rfl, rfl⟩]
        · intro u fd' hne
          change (setFd _ t fd (some i)).fileTable u fd' = _
          rw [setFd_fileTable, if_neg hne]
          rfl
        · intro j hj
          change Function.update (Function.update s.fileTb i _) i _ j = _
          rw [Function.update_of_ne hj, Function.update_of_ne hj]
        · change ((setFile _ i _).fileTb i).devId = _
          rw [setFile_self]
        · exact hcount
        · exact hothers
    · rw [hfds]
      left
      exact ⟨rfl, sysOpenFailed_tables hzero hrefs (.inl ⟨Int.negSucc_lt_zero 0, rfl⟩) (fun _ => rfl)⟩
  · rw [halloc]
    exact .inl ⟨rfl, rfl, rfl, fun _ => rfl⟩

/-- A failing `sys_open` changes nothing that can be seen; one that opens a terminal takes one
descriptor, one entry and one use of a device. -/
theorem sysOpen_tables (s : FileState) (t : TaskRef) (name : List UInt8) (bytes : Nat → UInt8) :
  ((s.sysOpen t name bytes).1 = -1 → TablesKept s (s.sysOpen t name bytes).2)
    ∧ (kStrncmp name [116, 116, 121] = 0 → 0 ≤ (s.sysOpen t name bytes).1 →
      ∃ fd i dev, (s.sysOpen t name bytes).1 = ((fd : Fin taskOfileNr) : Nat)
        ∧ OpensTty s t fd i dev (s.sysOpen t name bytes).2)
  := by
  by_cases htty : kStrncmp name [116, 116, 121] = 0
  · rcases sysOpen_tty s t name bytes htty with ⟨hret, hkept⟩ | hopens
    · use fun _ => hkept
      intro _ hnonneg
      rw [hret] at hnonneg
      cases hnonneg
    · use fun hret => ?_
      · intro _ _
        exact hopens
      · obtain ⟨fd, i, dev, hfd, -⟩ := hopens
        omega
  · constructor
    · intro _
      rw [sysOpen, if_neg htty]
      split_ifs <;> exact ⟨rfl, rfl, fun _ => rfl⟩
    · intro h
      cases htty h

end FileState

end Dmos
