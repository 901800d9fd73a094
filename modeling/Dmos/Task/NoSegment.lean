import Dmos.Task.Bss
import Dmos.Task.Loader
import Dmos.Task.Renaming
import Mathlib.Data.List.DropRight

/-!
# Executions that load no segment

The name that a path gives a task (`getFileName_fileName`), and what the loader does when it comes
to no segment: it fails (`LoadsNothing`), or finds none (`LoadsNoSegment`).  The memory it leaves
then is told by the disk or the terminal (`headersRead`), and so is the one in which the arguments
of the program are counted (`argMemory`).
-/

open ByteMemory AddressSpace

namespace Dmos

/-- What follows the last separator of a path. -/
def fileName (path : List UInt8) : List UInt8 :=
  path.rtakeWhile fun c => c ≠ 92 ∧ c ≠ 47

namespace Kernel

variable {s k : Kernel} {live : Set Nat} {d name : Nat} {path : List UInt8}

/-! ### The name of a program -/

theorem getFileName_back_eq (h : IsString s name path) (hpos : 0 < name)
    (hend : name + path.length < 2 ^ 32) {j fuel p : Nat} (hj : j ≤ path.length)
    (hback : getFileName.back s name (name + j - 1) fuel = some p) :
  p + (fileName (path.take j)).length = name + j
  := by
  induction j generalizing fuel with
  | zero =>
      cases fuel with
      | zero => cases hback
      | succ fuel =>
          rw [getFileName.back] at hback
          cases hbyte : s.readByte (name + 0 - 1) with
          | none =>
              rw [hbyte] at hback
              cases hback
          | some c =>
              rw [hbyte] at hback
              dsimp only at hback
              rw [if_neg (by omega), u32_of_lt (by omega), Option.some.injEq] at hback
              rw [List.take_zero, fileName, List.rtakeWhile_nil, List.length_nil]
              omega
  | succ j ih =>
      cases fuel with
      | zero => cases hback
      | succ fuel =>
          have hbyte := h.bytes j (by omega)
          rw [u32_of_lt (by omega)] at hbyte
          rw [getFileName.back, show name + (j + 1) - 1 = name + j by omega, hbyte] at hback
          dsimp only at hback
          rw [List.take_succ_eq_append_getElem (by omega), fileName, List.rtakeWhile_concat]
          by_cases hc : path[j] ≠ 92 ∧ path[j] ≠ 47
          · rw [if_pos ⟨hc.1, hc.2, by omega⟩, u32Sub_of_le (by omega) (by omega)] at hback
            have hrest := ih (by omega) hback
            rw [if_pos (by simpa using hc), List.length_append, List.length_singleton]
            rw [fileName] at hrest
            omega
          · rw [if_neg fun hc' => hc ⟨hc'.1, hc'.2.1⟩, u32_of_lt (by omega), Option.some.injEq]
              at hback
            rw [if_neg (by simpa using hc), List.length_nil]
            omega

/-- The file name is at the end of the path. -/
theorem getFileName_fileName {p : Nat} (h : IsString s name path) (hpos : 0 < name)
    (hend : name + path.length < 2 ^ 32) (hname : s.getFileName name = some p) :
  p ≠ 0 ∧ s.string p = some (fileName path)
  := by
  have hstring := (string_eq_some_iff (by omega)).mpr ⟨by omega, h⟩
  have hnull := h.null
  rw [u32_of_lt hend] at hnull
  rw [getFileName, hstring] at hname
  dsimp only at hname
  rw [u32_of_lt hend, show (2 ^ 32 : Nat) = (2 ^ 32 - 1) + 1 from rfl, getFileName.back, hnull]
    at hname
  dsimp only at hname
  rw [if_pos ⟨by decide, by decide, Nat.le_add_right _ _⟩, u32Sub_of_le (by omega) hend] at hname
  have hplace := getFileName_back_eq h hpos hend (le_refl _) hname
  rw [List.take_length] at hplace
  have hsuffix : fileName path <:+ path := List.rtakeWhile_suffix _ _
  have hlength := hsuffix.length_le
  rw [List.suffix_iff_eq_drop] at hsuffix
  have hdrop := h.drop (k := path.length - (fileName path).length) (by omega)
  rw [← hsuffix, u32_of_lt (by omega),
    show name + (path.length - (fileName path).length) = p by omega] at hdrop
  exact ⟨by omega, (string_eq_some_iff (by omega)).mpr ⟨by omega, hdrop⟩⟩

end Kernel

namespace Os

open Kernel

variable {s s' t : Os} {x : TaskRef} {name : Nat} {path : List UInt8}

/-- The task gets the file name. -/
theorem setFileName_eq (h : IsString s.kernel name path) (hpos : 0 < name)
    (hend : name + path.length < 2 ^ 32) (hname : s.setFileName x name = some s') :
  s' = { s with tasks := s.tasks.setName x (fileName path) }
  := by
  rw [setFileName] at hname
  cases hfile : s.kernel.getFileName name with
  | none =>
      rw [hfile] at hname
      cases hname
  | some p =>
      obtain ⟨hne, hstring⟩ := getFileName_fileName h hpos hend hfile
      rw [hfile] at hname
      dsimp only at hname
      rw [if_neg hne, hstring] at hname
      cases hname
      rfl

end Os

/-! ### Loading nothing -/

/-- The address is neither in a local variable nor in the buffer of the file. -/
structure Locals.Outside (l : Locals) (f : TempFile) (x : Nat) : Prop where
  elfHdr : ¬ (l.elfHdr ≤ x ∧ x < l.elfHdr + 52)
  elfPhdr : ¬ (l.elfPhdr ≤ x ∧ x < l.elfPhdr + 32)
  taskArgs : ¬ (l.taskArgs ≤ x ∧ x < l.taskArgs + 12)
  buffer : ¬ (f.tempAddr ≤ x ∧ x < f.tempAddr + 102400)

/-- The block of arguments shares no memory with frames or with the kernel's directory either. -/
structure Locals.AllPlaced (l : Locals) (s : Kernel) (f : TempFile) (live : Set Nat) : Prop
    extends l.Placed s f live where
  taskArgs_apart : s.Apart live l.taskArgs sizeofTaskArgs
  taskArgs_base : Separate (l.taskArgs, sizeofTaskArgs) (s.layout.gKernelPageDir, 4096)

namespace Kernel

variable {s k : Kernel} {f : TempFile} {tty : Tty} {path : List UInt8}

theorem writeBytes_eq {addr : Nat} {bs : List UInt8} (h : addr + bs.length ≤ memoryTaskBase) :
  s.writeBytes addr bs = some (s.setMem (put s.mem addr bs.length fun j => bs.getD j 0))
  := by
  induction bs generalizing s addr with
  | nil =>
      rw [writeBytes, List.length_nil, put_zero]
      rfl
  | cons b bs ih =>
      rw [List.length_cons] at h
      have hbyte : s.writeByte addr b = some (s.setMem (store8 s.mem addr b)) := by
        rw [writeByte, kernelAddr, if_pos (by omega)]
        rfl
      have hput := put_put s.mem addr 1 bs.length fun j => (b :: bs).getD j 0
      rw [put_one, Nat.add_comm 1] at hput
      rw [writeBytes, hbyte]
      dsimp only
      rw [u32_of_lt (by unfold memoryTaskBase at h; omega), ih (by omega), List.length_cons, ← hput]
      simp only [Nat.add_comm 1]
      rfl

/-- Nothing is opened. -/
theorem sysOpen_neg (h : (s.sysOpen f tty path).1 < 0) :
  ∃ file, s.sysOpen f tty path = (file, s, f) ∧ file < 0
  := by
  rw [sysOpen] at h ⊢
  split_ifs at h ⊢
  · exact ⟨_, rfl, h⟩
  · exact ⟨_, rfl, h⟩
  · cases h
  · exact ⟨_, rfl, h⟩

/-- The header that is read from a terminal. -/
def typed (s : Kernel) (l : Locals) (tty : Tty) : Kernel :=
  s.setMem (put s.mem l.elfHdr (tty.bytes.take sizeofElf32Ehdr).length fun j =>
    (tty.bytes.take sizeofElf32Ehdr).getD j 0)

end Kernel

namespace Os

open Kernel

/-- The address that the program headers of the image at `a` are read from. -/
def tableAddr (img : Kernel) (a : Nat) : Nat :=
  u32 (a + img.ePhoff a)

/-- The memory once the headers have been read: that of a terminal is typed; from a path the buffer
is filled, and the same program header is read every time. -/
def headersRead (s : Os) (l : Locals) (tty : Tty) (path : List UInt8) : Kernel :=
  -- "tty"
  if kStrncmp path [116, 116, 121] = 0 then s.kernel.typed l tty
  else
    let img := s.image
    let hdr := copy img.mem l.elfHdr s.fs.tempAddr sizeofElf32Ehdr
    if img.ePhnum s.fs.tempAddr = 0 then s.kernel.setMem hdr
    else
      s.kernel.setMem (copy hdr l.elfPhdr (tableAddr img s.fs.tempAddr) sizeofElf32Phdr)

/-- The program header that is read is in the kernel, and not to be loaded. -/
structure SkipsFirst (img : Kernel) (l : Locals) (a : Nat) : Prop where
  addr_ne : tableAddr img a ≠ 0
  addr_end : tableAddr img a + sizeofElf32Phdr ≤ memExtStart
  elfHdr : Separate (tableAddr img a, sizeofElf32Phdr) (l.elfHdr, sizeofElf32Ehdr)
  elfPhdr : Separate (tableAddr img a, sizeofElf32Phdr) (l.elfPhdr, sizeofElf32Phdr)
  skipped : img.pType (tableAddr img a) ≠ ptLoad ∨ img.pVaddr (tableAddr img a) < memoryTaskBase

/-- The loader fails before it loads a segment: nothing is opened, the header is not a whole one,
is not that of an image, or it tells no entry and no segment. -/
inductive LoadsNothing (s : Os) (l : Locals) (tty : Tty) (path : List UInt8) : Prop where
  | closed : (s.kernel.sysOpen s.fs tty path).1 < 0 → LoadsNothing s l tty path
  | short : kStrncmp path [116, 116, 121] = 0 → tty.fd ≠ tempFileId → 0 ≤ tty.count →
      tty.count < sizeofElf32Ehdr → LoadsNothing s l tty path
  | typed : kStrncmp path [116, 116, 121] = 0 → tty.fd ≠ tempFileId →
      (s.kernel.typed l tty).elfIdentOk l.elfHdr = false
        ∨ (s.kernel.typed l tty).eEntry l.elfHdr = 0 →
      LoadsNothing s l tty path
  | ident : path.head? = some 47 → s.image.elfIdentOk s.fs.tempAddr = false →
      LoadsNothing s l tty path
  | entry : path.head? = some 47 → s.image.eEntry s.fs.tempAddr = 0 →
      s.image.ePhnum s.fs.tempAddr = 0 ∨ SkipsFirst s.image l s.fs.tempAddr →
      LoadsNothing s l tty path

/-- The loader finds no segment to load: there is no program header, or the one that is read is to
be skipped.  The loader never comes to the headers of a terminal. -/
inductive LoadsNoSegment (s : Os) (l : Locals) (tty : Tty) (path : List UInt8) : Prop where
  | typed : kStrncmp path [116, 116, 121] = 0 → tty.fd ≠ tempFileId → LoadsNoSegment s l tty path
  | image : path.head? = some 47 →
      s.image.ePhnum s.fs.tempAddr = 0 ∨ SkipsFirst s.image l s.fs.tempAddr →
      LoadsNoSegment s l tty path

variable {s t : Os} {l : Locals} {tty : Tty} {x : TaskRef} {path : List UInt8} {img : Kernel}
  {a d : Nat}

/-- Each pass skips the header that it reads. -/
theorem loadElfFile_loop_skips {b : Bool} {i fuel : Nat}
    (h : loadElfFile.loop s l tty tempFileId x d (img.ePhoff a) i fuel = .ok (b, t))
    (hl : l.Distinct s.kernel s.fs) (htemp : s.fs.tempAddr = a) (hskip : SkipsFirst img l a)
    (himage : ∀ j < 32, s.kernel.mem (tableAddr img a + j) = img.mem (tableAddr img a + j)) :
  b = true ∧ t.tasks = s.tasks
    ∧ (t.kernel = s.kernel ∧ (s.kernel.ePhnum l.elfHdr ≤ i ∨ fuel = 0)
      ∨ t.kernel
        = s.kernel.setMem (copy s.kernel.mem l.elfPhdr (tableAddr img a) sizeofElf32Phdr))
  := by
  induction fuel generalizing s i with
  | zero =>
      cases h
      exact ⟨rfl, rfl, .inl ⟨rfl, .inr rfl⟩⟩
  | succ fuel ih =>
      rw [loadElfFile.loop] at h
      by_cases hlast : s.kernel.ePhnum l.elfHdr ≤ i
      · rw [if_pos hlast] at h
        cases h
        exact ⟨rfl, rfl, .inl ⟨rfl, .inl hlast⟩⟩
      · have hend := hskip.addr_end
        have hseparate := hskip.elfPhdr
        unfold memExtStart sizeofElf32Phdr at hend
        unfold Separate sizeofElf32Phdr at hseparate
        dsimp only at hseparate
        have hread : s.kernel.sysRead { s.fs with tempPos := tableAddr img a } tty tempFileId
            l.elfPhdr sizeofElf32Phdr
              = .ok (sizeofElf32Phdr,
                s.kernel.setMem (copy s.kernel.mem l.elfPhdr (tableAddr img a) sizeofElf32Phdr),
                { s.fs with tempPos := u32 (tableAddr img a + sizeofElf32Phdr) }) := by
          apply sysRead_identity hl.elfPhdr_end
          · unfold memoryTaskBase sizeofElf32Phdr
            dsimp only
            omega
          · apply hseparate
          · apply hl.elfPhdr_ne
          · apply hskip.addr_ne
        have haddr : u32 (s.fs.tempAddr + img.ePhoff a) = tableAddr img a := by
          rw [htemp, tableAddr]
        rw [if_neg hlast, sysLseek, if_pos rfl, haddr] at h
        dsimp only at h
        rw [if_neg (by decide), hread] at h
        dsimp only at h
        rw [if_neg (by decide)] at h
        have hm : ∀ y, ¬ (l.elfPhdr ≤ y ∧ y < l.elfPhdr + 32) →
            copy s.kernel.mem l.elfPhdr (tableAddr img a) sizeofElf32Phdr y = s.kernel.mem y :=
          fun y hy => copy_outside _ _ hy
        have htwice : copy (copy s.kernel.mem l.elfPhdr (tableAddr img a) sizeofElf32Phdr) l.elfPhdr
            (tableAddr img a) sizeofElf32Phdr
              = copy s.kernel.mem l.elfPhdr (tableAddr img a) sizeofElf32Phdr :=
          copy_copy _ hseparate
        have hcopy : ∀ j < 32, (s.kernel.setMem (copy s.kernel.mem l.elfPhdr (tableAddr img a)
            sizeofElf32Phdr)).mem (l.elfPhdr + j) = img.mem (tableAddr img a + j) := by
          intro j hj
          rw [setMem_mem, copy_inside _ _ hj, himage j hj]
        generalize copy s.kernel.mem l.elfPhdr (tableAddr img a) sizeofElf32Phdr = m
          at h hm hcopy htwice ⊢
        obtain ⟨htype, -, hvaddr, -⟩ := phdr_of_bytes hcopy
        rw [htype, hvaddr, if_pos hskip.skipped] at h
        have himage' : ∀ j < 32, m (tableAddr img a + j) = img.mem (tableAddr img a + j) := by
          intro j hj
          rw [hm, himage j hj]
          omega
        obtain ⟨hb, htasks, hkernel⟩ := ih h (hl.congr rfl rfl) htemp himage'
        refine ⟨hb, htasks, .inr ?_⟩
        rcases hkernel with ⟨hkernel, -⟩ | hkernel
        · exact hkernel
        · rw [hkernel]
          dsimp only
          rw [setMem_mem, htwice]
          rfl

/-- The first header of a terminal that has program headers is never read. -/
theorem loadElfFile_loop_tty {file : Int} {phoff : Nat} {b : Bool} (hfile : file ≠ tempFileId)
    (h : loadElfFile.loop s l tty file x d phoff 0 (2 ^ 16) = .ok (b, t)) :
  b = true ∧ t = s
  := by
  rw [show (2 ^ 16 : Nat) = (2 ^ 16 - 1) + 1 from rfl, loadElfFile.loop] at h
  split_ifs at h
  · cases h
    exact ⟨rfl, rfl⟩
  · rw [sysLseek, if_neg hfile] at h
    cases h

/-- A header that is typed: it is not a whole one, not that of an image, or it has the entry. -/
theorem loadElfFile_tty {entry : Nat} (hl : l.Distinct s.kernel s.fs)
    (hopen : kStrncmp path [116, 116, 121] = 0) (hfd : tty.fd ≠ tempFileId)
    (h : s.loadElfFile l tty x path d = .ok (entry, t)) :
  t.tasks = s.tasks ∧ (t.kernel = s.kernel ∨ t.kernel = s.kernel.typed l tty) ∧ t.fs = s.fs
    ∧ (entry = 0 ∨ ¬ (0 ≤ tty.count ∧ tty.count < sizeofElf32Ehdr)
      ∧ (s.kernel.typed l tty).elfIdentOk l.elfHdr ≠ false
      ∧ entry = (s.kernel.typed l tty).eEntry l.elfHdr ∧ t.kernel = s.kernel.typed l tty)
  := by
  rw [loadElfFile, sysOpen, if_pos hopen] at h
  dsimp only at h
  generalize hfile : (if path = [] then -1 else tty.fd) = file at h
  by_cases hneg : file < 0
  · rw [if_pos hneg] at h
    cases h
    exact ⟨rfl, .inl rfl, rfl, .inl rfl⟩
  · have hne : file ≠ tempFileId := by
      rw [← hfile] at hneg ⊢
      split_ifs at hneg ⊢
      · decide
      · apply hfd
    have hlength : (tty.bytes.take sizeofElf32Ehdr).length ≤ sizeofElf32Ehdr :=
      List.length_take_le _ _
    have hread : s.kernel.sysRead s.fs tty file l.elfHdr sizeofElf32Ehdr
        = .ok (tty.count, s.kernel.typed l tty, s.fs) := by
      have hend := hl.elfHdr_end
      rw [sysRead, if_neg hne, writeBytes_eq (by omega), typed]
    rw [if_neg hneg, hread] at h
    dsimp only at h
    split_ifs at h with hshort hident
    · cases h
      exact ⟨rfl, .inr rfl, rfl, .inl rfl⟩
    · cases h
      exact ⟨rfl, .inr rfl, rfl, .inl rfl⟩
    · split at h
      · cases h
      next hloop =>
        cases (loadElfFile_loop_tty hne hloop).1
      next hloop =>
        cases h
        obtain ⟨-, rfl⟩ := loadElfFile_loop_tty hne hloop
        exact ⟨rfl, .inr rfl, rfl, .inr ⟨hshort, hident, rfl, rfl⟩⟩

theorem headersRead_path (hopen : path.head? = some 47) :
  s.headersRead l tty path
    = if s.image.ePhnum s.fs.tempAddr = 0 then
        s.kernel.setMem (copy s.image.mem l.elfHdr s.fs.tempAddr sizeofElf32Ehdr)
      else
        s.kernel.setMem (copy (copy s.image.mem l.elfHdr s.fs.tempAddr sizeofElf32Ehdr) l.elfPhdr
          (tableAddr s.image s.fs.tempAddr) sizeofElf32Phdr)
  := by rw [headersRead, if_neg (kStrncmp_of_path hopen)]

/-- The header of an image: it is not one, or it has the entry. -/
theorem loadElfFile_path {entry : Nat} (hl : l.Distinct s.kernel s.fs)
    (hopen : path.head? = some 47)
    (hheader : s.image.elfIdentOk s.fs.tempAddr = false ∨ s.image.ePhnum s.fs.tempAddr = 0
      ∨ SkipsFirst s.image l s.fs.tempAddr)
    (h : s.loadElfFile l tty x path d = .ok (entry, t)) :
  t.tasks = s.tasks
    ∧ (∃ m, (∀ y, l.Outside s.fs y → m y = s.kernel.mem y) ∧ t.kernel = s.kernel.setMem m)
    ∧ (entry = 0 ∨ s.image.elfIdentOk s.fs.tempAddr ≠ false
      ∧ entry = s.image.eEntry s.fs.tempAddr ∧ t.kernel = s.headersRead l tty path)
  := by
  have hread : s.headersRead l tty path = _ := headersRead_path hopen
  have hranges := hl.ranges
  have hdistinct : l.Distinct s.image s.fs := hl.congr rfl rfl
  have houtside : ∀ y, ¬ (s.fs.tempAddr ≤ y ∧ y < s.fs.tempAddr + 102400) →
      s.image.mem y = s.kernel.mem y := by
    intro y hy
    dsimp only [image, readDisk]
    rw [if_neg]
    unfold sectorSize
    omega
  have hm : ∀ y, ¬ (l.elfHdr ≤ y ∧ y < l.elfHdr + 52) →
      copy s.image.mem l.elfHdr s.fs.tempAddr sizeofElf32Ehdr y = s.image.mem y :=
    fun y hy => copy_outside _ _ hy
  have hcopy : ∀ j < 52, (s.image.setMem (copy s.image.mem l.elfHdr s.fs.tempAddr
      sizeofElf32Ehdr)).mem (l.elfHdr + j) = s.image.mem (s.fs.tempAddr + j) :=
    fun j hj => copy_inside _ _ hj
  rw [loadElfFile, sysOpen_path hopen] at h
  dsimp only at h
  rw [if_neg (by decide), ← image, hdistinct.readEhdr tty] at h
  dsimp only at h
  rw [if_neg (by decide)] at h
  generalize copy s.image.mem l.elfHdr s.fs.tempAddr sizeofElf32Ehdr = m at h hm hcopy hread
  obtain ⟨hident, hentry, hphoff, hphnum⟩ := ehdr_of_bytes hcopy
  have hkept : ∀ y, l.Outside s.fs y → m y = s.kernel.mem y :=
    fun y hy => (hm y hy.elfHdr).trans (houtside y hy.buffer)
  rw [hident, hphoff] at h
  split_ifs at h with hno
  · cases h
    exact ⟨rfl, ⟨m, hkept, rfl⟩, .inl rfl⟩
  · by_cases hnone : s.image.ePhnum s.fs.tempAddr = 0
    · rw [show (2 ^ 16 : Nat) = (2 ^ 16 - 1) + 1 from rfl, loadElfFile.loop, hphnum, hnone,
        if_pos (le_refl _)] at h
      cases h
      rw [if_pos hnone] at hread
      exact ⟨rfl, ⟨m, hkept, rfl⟩, .inr ⟨hno, hentry, hread.symm⟩⟩
    · have hskip := (hheader.resolve_left hno).resolve_left hnone
      have himage : ∀ j < 32, m (tableAddr s.image s.fs.tempAddr + j)
          = s.image.mem (tableAddr s.image s.fs.tempAddr + j) := by
        have hseparate := hskip.elfHdr
        unfold Separate sizeofElf32Ehdr sizeofElf32Phdr at hseparate
        dsimp only at hseparate
        intro j hj
        apply hm
        omega
      split at h
      · cases h
      next hloop =>
        cases (loadElfFile_loop_skips hloop (hl.congr rfl rfl) rfl hskip himage).1
      next hloop =>
        cases h
        obtain ⟨-, htasks, hkernel⟩ :=
          loadElfFile_loop_skips hloop (hl.congr rfl rfl) rfl hskip himage
        have hkernel' := hkernel.resolve_left (by
          rintro ⟨-, hlast | hfuel⟩
          · dsimp only at hlast
            rw [hphnum] at hlast
            omega
          · cases hfuel)
        have hphdr : ∀ y, ¬ (l.elfPhdr ≤ y ∧ y < l.elfPhdr + 32) → t.kernel.mem y = m y := by
          intro y hy
          rw [hkernel']
          exact copy_outside _ _ hy
        have hlast : ∀ j < 52, t.kernel.mem (l.elfHdr + j) = s.image.mem (s.fs.tempAddr + j) := by
          intro j hj
          rw [← hcopy j hj, setMem_mem, hphdr]
          omega
        rw [if_neg hnone] at hread
        refine ⟨htasks, ⟨_, ?_, hkernel'⟩,
          .inr ⟨hno, (ehdr_of_bytes hlast).2.1, hkernel'.trans hread.symm⟩⟩
        intro y hy
        rw [← hkept y hy, ← hphdr y hy.elfPhdr, hkernel']
        rfl

/-- What a header is typed over. -/
theorem typed_mem {y : Nat} (hy : l.Outside s.fs y) :
  (s.kernel.typed l tty).mem y = s.kernel.mem y
  := by
  have hlength : (tty.bytes.take sizeofElf32Ehdr).length ≤ sizeofElf32Ehdr :=
    List.length_take_le _ _
  have hhdr := hy.elfHdr
  rw [Kernel.typed, setMem_mem]
  apply put_outside
  unfold sizeofElf32Ehdr at hlength ⊢
  omega

/-- What the loader leaves alone when it loads no segment. -/
theorem LoadsNoSegment.loadElfFile {entry : Nat} (hnone : LoadsNoSegment s l tty path)
    (hl : l.Distinct s.kernel s.fs) (h : s.loadElfFile l tty x path d = .ok (entry, t)) :
  t.tasks = s.tasks
    ∧ (∃ m, (∀ y, l.Outside s.fs y → m y = s.kernel.mem y) ∧ t.kernel = s.kernel.setMem m)
    ∧ (entry = 0 ∨ t.kernel = s.headersRead l tty path)
  := by
  cases hnone with
  | typed hopen hfd =>
      obtain ⟨htasks, hkernel, -, hentry⟩ := loadElfFile_tty hl hopen hfd h
      refine ⟨htasks, ?_, ?_⟩
      · rcases hkernel with hkernel | hkernel
        · exact ⟨_, fun _ _ => rfl, hkernel⟩
        · exact ⟨_, fun _ => typed_mem, hkernel⟩
      · rw [headersRead, if_pos hopen]
        exact hentry.imp_right fun hread => hread.2.2.2
  | image hopen hheader =>
      obtain ⟨htasks, hkernel, hentry⟩ := loadElfFile_path hl hopen (.inr hheader) h
      exact ⟨htasks, hkernel, hentry.imp_right fun hread => hread.2.2⟩

/-- What the loader does when it loads nothing. -/
theorem LoadsNothing.loadElfFile {entry : Nat} (hnothing : LoadsNothing s l tty path)
    (hl : l.Distinct s.kernel s.fs) (h : s.loadElfFile l tty x path d = .ok (entry, t)) :
  entry = 0 ∧ t.tasks = s.tasks
    ∧ ∃ m, (∀ y, l.Outside s.fs y → m y = s.kernel.mem y) ∧ t.kernel = s.kernel.setMem m
  := by
  cases hnothing with
  | closed hclosed =>
      obtain ⟨file, hopen, hneg⟩ := sysOpen_neg hclosed
      rw [Os.loadElfFile, hopen] at h
      dsimp only at h
      rw [if_pos hneg] at h
      cases h
      exact ⟨rfl, rfl, _, fun _ _ => rfl, rfl⟩
  | short hopen hfd hnonneg hlt =>
      obtain ⟨-, -, -, hentry⟩ := loadElfFile_tty hl hopen hfd h
      obtain ⟨htasks, hkernel, -⟩ := (LoadsNoSegment.typed hopen hfd).loadElfFile hl h
      refine ⟨hentry.resolve_right ?_, htasks, hkernel⟩
      rintro ⟨hwhole, -⟩
      exact hwhole ⟨hnonneg, hlt⟩
  | typed hopen hfd hheader =>
      obtain ⟨-, -, -, hentry⟩ := loadElfFile_tty hl hopen hfd h
      obtain ⟨htasks, hkernel, -⟩ := (LoadsNoSegment.typed hopen hfd).loadElfFile hl h
      refine ⟨?_, htasks, hkernel⟩
      rcases hentry with hzero | ⟨-, hident, hentry, -⟩
      · exact hzero
      · rw [hentry]
        exact hheader.resolve_left hident
  | ident hopen hno =>
      obtain ⟨htasks, hkernel, hentry⟩ := loadElfFile_path hl hopen (.inl hno) h
      exact ⟨hentry.resolve_right fun hok => hok.1 hno, htasks, hkernel⟩
  | entry hopen hzero htable =>
      obtain ⟨htasks, hkernel, hentry⟩ := loadElfFile_path hl hopen (.inr htable) h
      refine ⟨?_, htasks, hkernel⟩
      rcases hentry with hentry | ⟨-, hentry, -⟩
      · exact hentry
      · rw [hentry, hzero]

end Os

end Dmos
