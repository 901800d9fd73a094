import Dmos.Task.Loaded
import Dmos.Task.Machine

/-!
# Loading a program

`load_elf_file` reads the header of an image and then, for each of its program headers, seeks
the table of the program headers and reads one.  It seeks the start of the table each time, so
that what it has done after some passes (`Loading`) depends on the first header only.  A program
is loaded when this is the only header with anything to load
(`imageLoaded_of_loadElfFile`).
-/

open ByteMemory AddressSpace

namespace Dmos

namespace Kernel

variable {s t : Kernel}

/-! ### Images -/

/-- The bytes that the buffer of the temporary file has room for. -/
abbrev bufferSize : Nat := 100 * 1024

/-- The address of a program header of the image at `a`. -/
def phdrAt (s : Kernel) (a j : Nat) : Nat :=
  a + s.ePhoff a + sizeofElf32Phdr * j

/-- The image at `a` has a program header `j`, of a loadable segment. -/
def Loadable (s : Kernel) (a j : Nat) : Prop :=
  j < s.ePhnum a ∧ s.pType (s.phdrAt a j) = ptLoad

instance (s : Kernel) (a j : Nat) : Decidable (s.Loadable a j) :=
  inferInstanceAs (Decidable (_ ∧ _))

/-- The address after a segment. -/
def segmentEnd (s : Kernel) (phdr : Nat) : Nat :=
  s.pVaddr phdr + s.pMemsz phdr

/-- The image at `a` is well formed, and none of its loadable segments shares a page with
another. -/
structure WellFormed (s : Kernel) (a : Nat) : Prop where
  ident : s.elfIdentOk a = true
  table_end : s.ePhoff a + sizeofElf32Phdr * s.ePhnum a ≤ bufferSize
  aligned : ∀ j, s.Loadable a j → s.pVaddr (s.phdrAt a j) % 4096 = 0
  user : ∀ j, s.Loadable a j → memoryTaskBase ≤ s.pVaddr (s.phdrAt a j)
  filesz_le : ∀ j, s.Loadable a j → s.pFilesz (s.phdrAt a j) ≤ s.pMemsz (s.phdrAt a j)
  mem_end : ∀ j, s.Loadable a j → s.segmentEnd (s.phdrAt a j) ≤ 2 ^ 32
  file_end : ∀ j, s.Loadable a j →
    s.pOffset (s.phdrAt a j) + s.pFilesz (s.phdrAt a j) ≤ bufferSize
  disjoint : ∀ i j, s.Loadable a i → s.Loadable a j → i ≠ j → ∀ x y,
    s.pVaddr (s.phdrAt a i) ≤ x → x < s.segmentEnd (s.phdrAt a i) →
    s.pVaddr (s.phdrAt a j) ≤ y → y < s.segmentEnd (s.phdrAt a j) → x / 4096 ≠ y / 4096

/-- The bytes of a segment have user addresses. -/
theorem WellFormed.page_user {a j k : Nat} (h : s.WellFormed a) (hload : s.Loadable a j)
    (hk : k < s.pFilesz (s.phdrAt a j)) :
  512 ≤ (s.pVaddr (s.phdrAt a j) + k) / 4096 / 1024
    ∧ (s.pVaddr (s.phdrAt a j) + k) / 4096 < 2 ^ 20
  := by
  have huser := h.user j hload
  have hsize := h.filesz_le j hload
  have hend := h.mem_end j hload
  unfold segmentEnd at hend
  unfold memoryTaskBase at huser
  omega

/-- The pages of a segment. -/
def segmentPages (s : Kernel) (phdr : Nat) : List Nat :=
  allocPages (s.pVaddr phdr) (s.pMemsz phdr)

/-- There are frames to load each of the segments of the image at `a`, with its tables, as often
as there are headers. -/
def EnoughFrames (s : Kernel) (a : Nat) : Prop :=
  ∀ j, s.Loadable a j → s.ePhnum a * (2 * (s.segmentPages (s.phdrAt a j)).length) ≤ s.free.length

/-- Words at the same place of the same bytes. -/
theorem load_of_bytes {p q n k : Nat} (h : ∀ j < n, s.mem (p + j) = t.mem (q + j))
    (hk : k + 4 ≤ n) :
  s.load (p + k) = t.load (q + k)
  := by
  apply load32_eq_of_bytes
  intro j hj
  rw [Nat.add_assoc, Nat.add_assoc]
  apply h
  omega

/-- The fields of a header are those of its copy. -/
theorem phdr_of_bytes {p q : Nat} (h : ∀ j < 32, s.mem (p + j) = t.mem (q + j)) :
  s.pType p = t.pType q ∧ s.pOffset p = t.pOffset q ∧ s.pVaddr p = t.pVaddr q
    ∧ s.pFilesz p = t.pFilesz q ∧ s.pMemsz p = t.pMemsz q
  := ⟨load_of_bytes (k := 0) h (by decide), load_of_bytes h (by decide),
    load_of_bytes h (by decide), load_of_bytes h (by decide), load_of_bytes h (by decide)⟩

theorem ehdr_of_bytes {p q : Nat} (h : ∀ j < 52, s.mem (p + j) = t.mem (q + j)) :
  s.elfIdentOk p = t.elfIdentOk q ∧ s.eEntry p = t.eEntry q ∧ s.ePhoff p = t.ePhoff q
    ∧ s.ePhnum p = t.ePhnum q
  := by
  refine ⟨?_, load_of_bytes h (by decide), load_of_bytes h (by decide), ?_⟩
  · have h₀ := h 0 (by decide)
    rw [Nat.add_zero, Nat.add_zero] at h₀
    rw [elfIdentOk, elfIdentOk, h₀, h 1 (by decide), h 2 (by decide), h 3 (by decide)]
  · rw [ePhnum, ePhnum, load16, load16, Nat.add_assoc, Nat.add_assoc, h 44 (by decide),
      h 45 (by decide)]

end Kernel

/-- Ranges of addresses, each with its length, that do not overlap. -/
def Separate (p q : Nat × Nat) : Prop :=
  p.1 + p.2 ≤ q.1 ∨ q.1 + q.2 ≤ p.1

/-- The headers of the loader, the buffer of the file and the directory of the kernel. -/
def Locals.objects (l : Locals) (s : Kernel) (f : TempFile) : List (Nat × Nat) :=
  [(l.elfHdr, sizeofElf32Ehdr), (l.elfPhdr, sizeofElf32Phdr), (f.tempAddr, Kernel.bufferSize),
    (s.layout.gKernelPageDir, memPageSize)]

/-- The headers are in the kernel, and share no memory with each other, with the buffer or with
its directory. -/
structure Locals.Distinct (l : Locals) (s : Kernel) (f : TempFile) : Prop where
  elfHdr_ne : l.elfHdr ≠ 0
  elfPhdr_ne : l.elfPhdr ≠ 0
  elfHdr_end : l.elfHdr + sizeofElf32Ehdr ≤ memoryTaskBase
  elfPhdr_end : l.elfPhdr + sizeofElf32Phdr ≤ memoryTaskBase
  separate : (l.objects s f).Pairwise Separate

/-- Nor do they share memory with frames that are free or belong to directories. -/
structure Locals.Placed (l : Locals) (s : Kernel) (f : TempFile) (live : Set Nat) : Prop
    extends l.Distinct s f where
  elfHdr_apart : s.Apart live l.elfHdr sizeofElf32Ehdr
  elfPhdr_apart : s.Apart live l.elfPhdr sizeofElf32Phdr

theorem Locals.Distinct.ranges {l : Locals} {s : Kernel} {f : TempFile} (h : l.Distinct s f) :
  ((l.elfHdr + 52 ≤ l.elfPhdr ∨ l.elfPhdr + 32 ≤ l.elfHdr)
    ∧ (l.elfHdr + 52 ≤ f.tempAddr ∨ f.tempAddr + 102400 ≤ l.elfHdr)
    ∧ (l.elfHdr + 52 ≤ s.layout.gKernelPageDir ∨ s.layout.gKernelPageDir + 4096 ≤ l.elfHdr))
    ∧ ((l.elfPhdr + 32 ≤ f.tempAddr ∨ f.tempAddr + 102400 ≤ l.elfPhdr)
      ∧ (l.elfPhdr + 32 ≤ s.layout.gKernelPageDir ∨ s.layout.gKernelPageDir + 4096 ≤ l.elfPhdr))
    ∧ (f.tempAddr + 102400 ≤ s.layout.gKernelPageDir
      ∨ s.layout.gKernelPageDir + 4096 ≤ f.tempAddr)
  := by
  have hseparate := h.separate
  simp only [Locals.objects, List.pairwise_cons, List.mem_cons, forall_eq_or_imp, Separate,
    List.not_mem_nil, false_imp_iff, forall_const, and_true, List.Pairwise.nil] at hseparate
  apply hseparate

/-- A program header is read from the buffer. -/
theorem Locals.Distinct.readPhdr {l : Locals} {s : Kernel} {f : TempFile} (h : l.Distinct s f)
    (tty : Tty) {offset : Nat} (hoffset : offset + sizeofElf32Phdr ≤ Kernel.bufferSize) :
  s.sysRead { f with tempPos := f.tempAddr + offset } tty tempFileId l.elfPhdr sizeofElf32Phdr
    = .ok (sizeofElf32Phdr,
      s.setMem (copy s.mem l.elfPhdr (f.tempAddr + offset) sizeofElf32Phdr),
      { f with tempPos := u32 (f.tempAddr + offset + sizeofElf32Phdr) })
  := by
  have hranges := h.ranges
  have hstart := f.tempAddr_pos
  have hend := f.tempAddr_end
  unfold memExtStart at hend
  unfold sizeofElf32Phdr Kernel.bufferSize at hoffset
  apply Kernel.sysRead_identity h.elfPhdr_end
  · unfold memoryTaskBase sizeofElf32Phdr
    dsimp only
    omega
  · unfold sizeofElf32Phdr
    dsimp only
    omega
  · apply h.elfPhdr_ne
  · dsimp only
    omega

/-- The header is read from the start of the buffer. -/
theorem Locals.Distinct.readEhdr {l : Locals} {s : Kernel} {f : TempFile} (h : l.Distinct s f)
    (tty : Tty) :
  s.sysRead { f with tempPos := f.tempAddr } tty tempFileId l.elfHdr sizeofElf32Ehdr
    = .ok (sizeofElf32Ehdr, s.setMem (copy s.mem l.elfHdr f.tempAddr sizeofElf32Ehdr),
      { f with tempPos := u32 (f.tempAddr + sizeofElf32Ehdr) })
  := by
  have hranges := h.ranges
  have hstart := f.tempAddr_pos
  have hend := f.tempAddr_end
  unfold memExtStart at hend
  apply Kernel.sysRead_identity h.elfHdr_end
  · unfold memoryTaskBase sizeofElf32Ehdr
    dsimp only
    omega
  · unfold sizeofElf32Ehdr
    dsimp only
    omega
  · apply h.elfHdr_ne
  · dsimp only
    omega

theorem Locals.Distinct.congr {l : Locals} {s k : Kernel} {f f' : TempFile} (h : l.Distinct s f)
    (hlayout : k.layout = s.layout) (htemp : f'.tempAddr = f.tempAddr) :
  l.Distinct k f'
  := by
  constructor
  · apply h.elfHdr_ne
  · apply h.elfPhdr_ne
  · apply h.elfHdr_end
  · apply h.elfPhdr_end
  · have hseparate := h.separate
    rw [Locals.objects, ← hlayout, ← htemp] at hseparate
    apply hseparate

theorem Locals.Placed.congr {l : Locals} {s k : Kernel} {f f' : TempFile} {live : Set Nat}
    (h : l.Placed s f live) (hlayout : k.layout = s.layout) (htemp : f'.tempAddr = f.tempAddr)
    (hehdr : k.Apart live l.elfHdr sizeofElf32Ehdr)
    (hphdr : k.Apart live l.elfPhdr sizeofElf32Phdr) :
  l.Placed k f' live
  := ⟨h.toDistinct.congr hlayout htemp, hehdr, hphdr⟩

namespace Os

open Kernel

variable {live : Set Nat} {d : Nat} (tty : Tty) {img : Kernel} {a : Nat}
  {l : Locals} {t : TaskRef} {heap i : Nat} {s : Os}

/-- The loader has gone through `i` headers of the image at `a` in `img`: it has read the first of
them, and loaded its segment, if at all. -/
structure Loading (img : Kernel) (a : Nat) (l : Locals) (live : Set Nat) (d : Nat) (t : TaskRef)
    (heap i : Nat) (s : Os) : Prop where
  frames : Frames s.kernel live
  tempAddr : s.fs.tempAddr = a
  placed : l.Placed s.kernel s.fs live
  hdr : ∀ k < 52, s.kernel.mem (l.elfHdr + k) = img.mem (a + k)
  image : ∀ k < bufferSize, s.kernel.mem (a + k) = img.mem (a + k)
  free : img.free.length
    ≤ s.kernel.free.length + i * (2 * (img.segmentPages (img.phdrAt a 0)).length)
  others : ∀ v, 512 ≤ v / 1024 → v < 2 ^ 20 → Present (pteAt s.kernel.mem d v) →
    img.Loadable a 0 ∧ v ∈ img.segmentPages (img.phdrAt a 0)
  bytes : 0 < i → img.Loadable a 0 → ∀ k < img.pFilesz (img.phdrAt a 0),
    Present (pteAt s.kernel.mem d ((img.pVaddr (img.phdrAt a 0) + k) / 4096))
      ∧ s.kernel.mem (s.kernel.physAt d (img.pVaddr (img.phdrAt a 0)) k)
        = img.mem (a + img.pOffset (img.phdrAt a 0) + k)
  heap : (s.tasks.task t).heapStart
    = if 0 < i ∧ img.Loadable a 0 then u32 (img.segmentEnd (img.phdrAt a 0)) else heap

/-- Reading a program header. -/
theorem Loading.read (pos : Nat) {m : Memory} (h : Loading img a l live d t heap i s)
    (hwf : img.WellFormed a) (hd : d ∈ live)
    (hm : ∀ x, ¬ (l.elfPhdr ≤ x ∧ x < l.elfPhdr + 32) → m x = s.kernel.mem x) :
  Loading img a l live d t heap i
    { s with kernel := s.kernel.setMem m, fs := { s.fs with tempPos := pos } }
  := by
  have hranges := h.placed.ranges
  have hapart : s.kernel.Apart live l.elfPhdr 32 := h.placed.elfPhdr_apart
  have htable : ∀ e ∈ live, ∀ i < 1024, tableAt m e i = tableAt s.kernel.mem e i :=
    fun e he i hi => hapart.tableAt_eq hm he hi
  have hentry : ∀ e ∈ live, ∀ v, 512 ≤ v / 1024 → v < 2 ^ 20 →
      pteAt m e v = pteAt s.kernel.mem e v :=
    fun e he v hlo hv => hapart.pteAt_eq hm he hlo hv
  constructor
  · apply hapart.frames hm h.frames
    omega
  · apply h.tempAddr
  · refine h.placed.congr rfl rfl ?_ ?_
    · apply h.placed.elfHdr_apart.of_setMem htable hentry
    · apply h.placed.elfPhdr_apart.of_setMem htable hentry
  · intro k hk
    rw [← h.hdr k hk]
    apply hm
    omega
  · intro k hk
    rw [← h.image k hk]
    apply hm
    rw [← h.tempAddr]
    unfold bufferSize at hk
    omega
  · apply h.free
  · intro v hlo hv hpresent
    apply h.others v hlo hv
    rwa [setMem_mem, hentry d hd v hlo hv] at hpresent
  · intro hi hload k hk
    obtain ⟨hlo, hv⟩ := hwf.page_user hload hk
    obtain ⟨hpresent, hbyte⟩ := h.bytes hi hload k hk
    have hpage := hentry d hd _ hlo hv
    constructor
    · rw [setMem_mem, hpage]
      apply hpresent
    · have hphys : (s.kernel.setMem m).physAt d (img.pVaddr (img.phdrAt a 0)) k
          = s.kernel.physAt d (img.pVaddr (img.phdrAt a 0)) k := by
        rw [physAt, physAt, frameAt, frameAt, setMem_mem, hpage]
      rw [hphys, ← hbyte]
      apply hm
      rintro ⟨hle, hlt⟩
      apply hapart.not_inPages hd hle hlt
      refine ⟨_, hlo, hv, hpresent, ?_, ?_⟩
      · rw [physAt]
        omega
      · rw [physAt]
        omega
  · apply h.heap

/-- A task whose heap starts after the first segment. -/
def setHeap (s : Os) (t : TaskRef) (heap : Nat) : Os :=
  { s with tasks := s.tasks.setTask t { s.tasks.task t with heapStart := heap, heapEnd := heap } }

theorem setHeap_heapStart (s : Os) (t : TaskRef) (heap : Nat) :
  ((s.setHeap t heap).tasks.task t).heapStart = heap
  := by
  simp only [setHeap, TaskManager.setTask, Function.update_self]

/-- Loading the segment of the header that has been read. -/
theorem Loading.load (pos : Nat) {k : Kernel} {b : Nat → UInt8}
    (h : Loading img a l live d t heap i s) (hload : img.Loadable a 0)
    (hk : SegmentLoaded s.kernel k live d (img.pVaddr (img.phdrAt a 0))
      (img.pMemsz (img.phdrAt a 0)) (img.pFilesz (img.phdrAt a 0)) b)
    (hb : ∀ j < img.pFilesz (img.phdrAt a 0), b j = img.mem (a + img.pOffset (img.phdrAt a 0) + j)) :
  Loading img a l live d t heap (i + 1)
    ({ s with kernel := k, fs := { s.fs with tempPos := pos } }.setHeap t
      (u32 (img.segmentEnd (img.phdrAt a 0))))
  := by
  obtain ⟨hphdr, -⟩ := hk.apart _ _ h.placed.elfPhdr_apart
  obtain ⟨hehdr, hhdr⟩ := hk.apart _ _ h.placed.elfHdr_apart
  obtain ⟨-, hlow⟩ := hk.apart _ _ h.frames.low_apart
  constructor
  · apply hk.frames
  · apply h.tempAddr
  · exact h.placed.congr hk.layout rfl hehdr hphdr
  · intro j hj
    rw [← h.hdr j hj]
    apply hhdr
    · omega
    · unfold sizeofElf32Ehdr
      omega
  · intro j hj
    rw [← h.image j hj]
    apply hlow
    · omega
    · have hend := s.fs.tempAddr_end
      rw [h.tempAddr] at hend
      unfold bufferSize at hj
      omega
  · have hfree := hk.free
    have hfree' := h.free
    rw [Nat.succ_mul]
    unfold segmentPages at hfree' ⊢
    change _ ≤ k.free.length + _
    omega
  · intro v hlo hv hpresent
    use hload
    by_contra hmem
    apply hmem
    change Present (pteAt k.mem d v) at hpresent
    rw [hk.others v hlo hv hmem] at hpresent
    apply (h.others v hlo hv hpresent).2
  · intro _ _ j hj
    obtain ⟨hpresent, hbyte⟩ := hk.bytes j hj
    rw [hb j hj] at hbyte
    exact ⟨hpresent, hbyte⟩
  · rw [if_pos ⟨Nat.succ_pos i, hload⟩]
    apply setHeap_heapStart

/-- A header that is not loaded. -/
theorem Loading.skip (h : Loading img a l live d t heap i s) (hload : ¬ img.Loadable a 0) :
  Loading img a l live d t heap (i + 1) s
  := by
  constructor
  · apply h.frames
  · apply h.tempAddr
  · apply h.placed
  · apply h.hdr
  · apply h.image
  · have hfree := h.free
    rw [Nat.succ_mul]
    omega
  · apply h.others
  · intro _ hload'
    cases hload hload'
  · rw [h.heap, if_neg fun hc => hload hc.2, if_neg fun hc => hload hc.2]

/-- One pass of the loop. -/
theorem Loading.pass (fuel : Nat) (h : Loading img a l live d t heap i s) (hwf : img.WellFormed a)
    (hframes : img.EnoughFrames a) (hd : d ∈ live) (hi : i < img.ePhnum a) :
  ∃ s', loadElfFile.loop s l tty tempFileId t d (img.ePhoff a) i (fuel + 1)
      = loadElfFile.loop s' l tty tempFileId t d (img.ePhoff a) (i + 1) fuel
    ∧ Loading img a l live d t heap (i + 1) s'
  := by
  have hnum : s.kernel.ePhnum l.elfHdr = img.ePhnum a := (ehdr_of_bytes h.hdr).2.2.2
  have htable := hwf.table_end
  have hstart := s.fs.tempAddr_pos
  have hend := s.fs.tempAddr_end
  rw [h.tempAddr] at hstart hend
  unfold bufferSize sizeofElf32Phdr at htable
  unfold memExtStart at hend
  have hpos : u32 (s.fs.tempAddr + img.ePhoff a) = s.fs.tempAddr + img.ePhoff a := by
    rw [h.tempAddr]
    apply u32_of_lt
    omega
  have hread := h.placed.readPhdr tty (show img.ePhoff a + sizeofElf32Phdr ≤ bufferSize by
    unfold sizeofElf32Phdr bufferSize
    omega)
  have hnext := h.read (u32 (s.fs.tempAddr + img.ePhoff a + sizeofElf32Phdr)) hwf hd
    fun x hx => copy_outside s.kernel.mem (s.fs.tempAddr + img.ePhoff a) hx
  rw [loadElfFile.loop, hnum, if_neg (by omega), sysLseek, if_pos rfl, hpos]
  dsimp only
  rw [if_neg (by decide), hread]
  dsimp only
  rw [if_neg (by decide)]
  generalize hm : copy s.kernel.mem l.elfPhdr (s.fs.tempAddr + img.ePhoff a) sizeofElf32Phdr = m
    at hnext ⊢
  have hcopy : ∀ j < 32, (s.kernel.setMem m).mem (l.elfPhdr + j) = img.mem (img.phdrAt a 0 + j) := by
    intro j hj
    rw [setMem_mem, ← hm, copy_inside _ _ hj, phdrAt, Nat.mul_zero, Nat.add_zero, h.tempAddr,
      Nat.add_assoc a]
    apply h.image
    unfold bufferSize
    omega
  obtain ⟨htype, hoffset, hvaddr, hfilesz, hmemsz⟩ := phdr_of_bytes hcopy
  rw [htype, hvaddr]
  by_cases hload : img.Loadable a 0
  · have huser := hwf.user 0 hload
    have hmem := hwf.mem_end 0 hload
    have hfile := hwf.file_end 0 hload
    have hfree := hnext.free
    have henough := hframes 0 hload
    rw [if_neg (by rw [not_or, not_not]; exact ⟨hload.2, by omega⟩)]
    obtain ⟨k, pos, hok, hk⟩ := loadPhdr_loaded tty (s := s.kernel.setMem m)
      (f := { s.fs with tempPos := u32 (s.fs.tempAddr + img.ePhoff a + sizeofElf32Phdr) })
      hnext.frames hd hnext.placed.elfPhdr_apart
      (by rw [hvaddr]; apply hwf.aligned 0 hload) (by rw [hvaddr]; apply huser)
      (by rw [hvaddr, hmemsz]; apply hmem)
      (by rw [hfilesz, hmemsz]; apply hwf.filesz_le 0 hload)
      (by
        rw [hoffset, hfilesz]
        change s.fs.tempAddr + _ + _ ≤ _
        rw [h.tempAddr]
        unfold bufferSize at hfile
        unfold memExtStart
        omega)
      (by
        rw [hvaddr, hmemsz]
        have hnext := Nat.mul_le_mul_right (2 * (img.segmentPages (img.phdrAt a 0)).length)
          (Nat.succ_le_of_lt hi)
        rw [Nat.succ_mul] at hnext
        change 2 * (img.segmentPages (img.phdrAt a 0)).length ≤ s.kernel.free.length
        change _ ≤ s.kernel.free.length + _ at hfree
        omega)
    rw [hok]
    dsimp only
    rw [if_neg (by decide)]
    rw [hvaddr, hmemsz, hfilesz, hoffset] at hk
    have hkept : ∀ j < 32, k.mem (l.elfPhdr + j) = img.mem (img.phdrAt a 0 + j) := by
      intro j hj
      rw [← hcopy j hj]
      apply (hk.apart _ _ hnext.placed.elfPhdr_apart).2
      · omega
      · unfold sizeofElf32Phdr
        omega
    obtain ⟨-, -, hvaddr', -, hmemsz'⟩ := phdr_of_bytes hkept
    rw [hvaddr', hmemsz']
    refine ⟨_, rfl, hnext.load pos hload hk ?_⟩
    intro j hj
    change m (s.fs.tempAddr + _ + _) = _
    rw [h.tempAddr, Nat.add_assoc a]
    apply hnext.image
    omega
  · rw [if_pos]
    · exact ⟨_, rfl, hnext.skip hload⟩
    · left
      intro htype
      exact hload ⟨by omega, htype⟩

/-- The loop comes to its end. -/
theorem Loading.run (fuel : Nat) (h : Loading img a l live d t heap i s) (hwf : img.WellFormed a)
    (hframes : img.EnoughFrames a) (hd : d ∈ live) (hi : i ≤ img.ePhnum a)
    (hfuel : img.ePhnum a ≤ i + fuel) :
  ∃ s', loadElfFile.loop s l tty tempFileId t d (img.ePhoff a) i fuel = .ok (true, s')
    ∧ Loading img a l live d t heap (img.ePhnum a) s'
  := by
  induction fuel generalizing i s with
  | zero =>
      obtain rfl : i = img.ePhnum a := by omega
      exact ⟨s, rfl, h⟩
  | succ fuel ih =>
      rcases hi.eq_or_lt with rfl | hlt
      · have hnum : s.kernel.ePhnum l.elfHdr = img.ePhnum a := (ehdr_of_bytes h.hdr).2.2.2
        refine ⟨s, ?_, h⟩
        rw [loadElfFile.loop, hnum, if_pos (le_refl _)]
      · obtain ⟨s₁, hpass, h₁⟩ := h.pass tty fuel hwf hframes hd hlt
        obtain ⟨s', hrun, h'⟩ := ih h₁ hlt (by omega)
        exact ⟨s', hpass.trans hrun, h'⟩

/-- The kernel with the file in the buffer, as `sysOpen` leaves it. -/
def image (s : Os) : Kernel :=
  s.kernel.readDisk s.fs.disk 5000 100 s.fs.tempAddr

section Run

variable (hf : Frames s.kernel live) (hd : d ∈ live)
  (hempty : ∀ v, 512 ≤ v / 1024 → v < 2 ^ 20 → ¬ Present (pteAt s.kernel.mem d v))
  (hl : l.Placed s.kernel s.fs live)

include hf hd hempty hl

/-- The header of the image has been read. -/
theorem loading_zero (t : TaskRef) (pos : Nat) :
  Loading s.image s.fs.tempAddr l live d t (s.tasks.task t).heapStart 0
    { s with
      kernel := s.image.setMem (copy s.image.mem l.elfHdr s.fs.tempAddr sizeofElf32Ehdr)
      fs := { s.fs with tempPos := pos } }
  := by
  have hranges := hl.ranges
  have hend := s.fs.tempAddr_end
  have hbuffer : s.kernel.Apart live s.fs.tempAddr bufferSize := by
    intro g hg
    have hlow := hf.low_apart g hg
    unfold bufferSize
    omega
  have hm : ∀ x, ¬ (s.fs.tempAddr ≤ x ∧ x < s.fs.tempAddr + bufferSize) →
      s.image.mem x = s.kernel.mem x := by
    intro x hx
    unfold bufferSize at hx
    dsimp only [image, readDisk]
    rw [if_neg]
    unfold sectorSize
    omega
  have hf₁ : Frames s.image live := by
    apply hbuffer.frames hm hf
    unfold bufferSize
    omega
  have htable : ∀ e ∈ live, ∀ i < 1024, tableAt s.image.mem e i = tableAt s.kernel.mem e i :=
    fun e he i hi => hbuffer.tableAt_eq hm he hi
  have hentry : ∀ e ∈ live, ∀ v, 512 ≤ v / 1024 → v < 2 ^ 20 →
      pteAt s.image.mem e v = pteAt s.kernel.mem e v :=
    fun e he v hlo hv => hbuffer.pteAt_eq hm he hlo hv
  have hehdr : s.image.Apart live l.elfHdr sizeofElf32Ehdr := hl.elfHdr_apart.of_setMem htable hentry
  have hphdr : s.image.Apart live l.elfPhdr sizeofElf32Phdr :=
    hl.elfPhdr_apart.of_setMem htable hentry
  have hcopy : ∀ x, ¬ (l.elfHdr ≤ x ∧ x < l.elfHdr + sizeofElf32Ehdr) →
      copy s.image.mem l.elfHdr s.fs.tempAddr sizeofElf32Ehdr x = s.image.mem x :=
    fun x hx => copy_outside s.image.mem s.fs.tempAddr hx
  have htable' := fun e he i hi => hehdr.tableAt_eq hcopy (e := e) (i := i) he hi
  have hentry' := fun e he v hlo hv => hehdr.pteAt_eq hcopy (e := e) (v := v) he hlo hv
  constructor
  · apply hehdr.frames hcopy hf₁
    change l.elfHdr + 52 ≤ s.kernel.layout.gKernelPageDir
      ∨ s.kernel.layout.gKernelPageDir + 4096 ≤ l.elfHdr
    omega
  · rfl
  · refine hl.congr rfl rfl ?_ ?_
    · apply hehdr.of_setMem htable' hentry'
    · apply hphdr.of_setMem htable' hentry'
  · intro k hk
    apply copy_inside _ _ hk
  · intro k hk
    apply copy_outside
    unfold bufferSize at hk
    unfold sizeofElf32Ehdr
    omega
  · rw [Nat.zero_mul]
    apply le_refl
  · intro v hlo hv hpresent
    rw [setMem_mem, hentry' d hd v hlo hv, hentry d hd v hlo hv] at hpresent
    cases hempty v hlo hv hpresent
  · intro hzero
    omega
  · rfl

/-- What the loader does with a well-formed image. -/
theorem loadElfFile_run {name : List UInt8} (hname : name.head? = some 47)
    (hwf : s.image.WellFormed s.fs.tempAddr) (hframes : s.image.EnoughFrames s.fs.tempAddr) :
  ∃ s', s.loadElfFile l tty t name d = .ok (s.image.eEntry s.fs.tempAddr, s')
    ∧ Loading s.image s.fs.tempAddr l live d t (s.tasks.task t).heapStart
        (s.image.ePhnum s.fs.tempAddr) s'
  := by
  have hranges := hl.ranges
  have hstart := s.fs.tempAddr_pos
  have hend := s.fs.tempAddr_end
  unfold memExtStart at hend
  have hdistinct : l.Distinct s.image s.fs := hl.toDistinct.congr rfl rfl
  have hread := hdistinct.readEhdr tty
  have hzero := loading_zero hf hd hempty hl t (u32 (s.fs.tempAddr + sizeofElf32Ehdr))
  obtain ⟨hident, hentry, hphoff, hphnum⟩ := ehdr_of_bytes hzero.hdr
  have hlt : s.image.ePhnum s.fs.tempAddr ≤ 2 ^ 16 := by
    have h₀ := (s.image.mem (s.fs.tempAddr + 44)).toNat_lt
    have h₁ := (s.image.mem (s.fs.tempAddr + 44 + 1)).toNat_lt
    rw [ePhnum, load16]
    omega
  obtain ⟨s', hrun, hs'⟩ := hzero.run tty (2 ^ 16) hwf hframes hd (Nat.zero_le _)
    (by omega)
  refine ⟨s', ?_, hs'⟩
  rw [loadElfFile, sysOpen_path hname]
  dsimp only
  rw [if_neg (by decide), ← image, hread]
  dsimp only
  rw [if_neg (by decide), hident, hwf.ident, if_neg (by decide), hphoff, hrun]
  dsimp only
  rw [(ehdr_of_bytes hs'.hdr).2.1]

end Run

/-! ### What is loaded -/

/-- The bytes of the segments of the image at `a` are at their addresses in the directory, and
the heap of the task starts after them. -/
structure ImageLoaded (img : Kernel) (a : Nat) (s : Os) (t : TaskRef) (d : Nat) : Prop where
  bytes : ∀ j, img.Loadable a j → ∀ k < img.pFilesz (img.phdrAt a j),
    Present (pteAt s.kernel.mem d ((img.pVaddr (img.phdrAt a j) + k) / 4096))
      ∧ s.kernel.mem (s.kernel.physAt d (img.pVaddr (img.phdrAt a j)) k)
        = img.mem (a + img.pOffset (img.phdrAt a j) + k)
  heap : ∀ j, img.Loadable a j →
    img.segmentEnd (img.phdrAt a j) ≤ (s.tasks.task t).heapStart

/-- No segment but that of the first header has bytes, and none ends after it; when the first
header is that of none, none ends after the present start of the heap. -/
structure OnlyFirst (img : Kernel) (a heap : Nat) : Prop where
  bytes : ∀ j, img.Loadable a j → j ≠ 0 → img.pFilesz (img.phdrAt a j) = 0
  heap : ∀ j, img.Loadable a j → img.segmentEnd (img.phdrAt a j)
    ≤ if img.Loadable a 0 then u32 (img.segmentEnd (img.phdrAt a 0)) else heap

/-- Once the loop has come to its end. -/
theorem Loading.imageLoaded_iff (h : Loading img a l live d t heap (img.ePhnum a) s)
    (hwf : img.WellFormed a) :
  ImageLoaded img a s t d ↔ OnlyFirst img a heap
  := by
  have hheap (j : Nat) (hj : img.Loadable a j) : (s.tasks.task t).heapStart
      = if img.Loadable a 0 then u32 (img.segmentEnd (img.phdrAt a 0)) else heap := by
    have hpos : 0 < img.ePhnum a := by
      have := hj.1
      omega
    rw [h.heap]
    simp only [hpos, true_and]
  constructor
  · intro hloaded
    constructor
    · intro j hj hne
      by_contra hsize
      -- the page of the first byte is one of the first segment
      obtain ⟨hpresent, -⟩ := hloaded.bytes j hj 0 (Nat.pos_of_ne_zero hsize)
      obtain ⟨hlo, hv⟩ := hwf.page_user hj (Nat.pos_of_ne_zero hsize)
      obtain ⟨hfirst, hmem⟩ := h.others _ hlo hv hpresent
      have huser := hwf.user 0 hfirst
      have hend := hwf.mem_end 0 hfirst
      have haligned := hwf.aligned 0 hfirst
      have hfilesz := hwf.filesz_le j hj
      have haligned' := hwf.aligned j hj
      have hdisjoint := hwf.disjoint 0 j hfirst hj (Ne.symm hne) (img.pVaddr (img.phdrAt a j))
        (img.pVaddr (img.phdrAt a j))
      unfold segmentEnd at hend hdisjoint
      have hlt : img.pVaddr (img.phdrAt a 0) < 2 ^ 32 := ByteMemory.load32_lt _ _
      rw [segmentPages, mem_allocPages huser hend hlt] at hmem
      apply hdisjoint <;> omega
    · intro j hj
      rw [← hheap j hj]
      apply hloaded.heap j hj
  · intro honly
    constructor
    · intro j hj k hk
      by_cases hzero : j = 0
      · subst hzero
        exact h.bytes (by have := hj.1; omega) hj k hk
      · rw [honly.bytes j hj hzero] at hk
        cases hk
    · intro j hj
      rw [hheap j hj]
      apply honly.heap j hj

/-- The program header that is read is the first one each time: a program is loaded when that is
the only one with anything to load. -/
theorem imageLoaded_of_loadElfFile {name : List UInt8} (hf : Frames s.kernel live) (hd : d ∈ live)
    (hempty : ∀ v, 512 ≤ v / 1024 → v < 2 ^ 20 → ¬ Present (pteAt s.kernel.mem d v))
    (hl : l.Placed s.kernel s.fs live) (hname : name.head? = some 47)
    (hwf : s.image.WellFormed s.fs.tempAddr) (hframes : s.image.EnoughFrames s.fs.tempAddr) :
  (∀ entry s', s.loadElfFile l tty t name d = .ok (entry, s') → entry ≠ 0 →
      ImageLoaded s.image s.fs.tempAddr s' t d)
    ↔ s.image.eEntry s.fs.tempAddr = 0
      ∨ OnlyFirst s.image s.fs.tempAddr (s.tasks.task t).heapStart
  := by
  obtain ⟨s', hrun, hs'⟩ := loadElfFile_run tty (t := t) hf hd hempty hl hname hwf hframes
  have hiff := hs'.imageLoaded_iff hwf
  constructor
  · intro hloads
    by_cases hentry : s.image.eEntry s.fs.tempAddr = 0
    · exact .inl hentry
    · right
      apply hiff.mp
      apply hloads _ _ hrun hentry
  · rintro (hzero | honly) entry s'' hload hentry
    · rw [hrun] at hload
      cases hload
      cases hentry hzero
    · rw [hrun] at hload
      cases hload
      apply hiff.mpr honly

/-! ### Two images -/

/-- The words of an image with the headers of two segments of four bytes, the second of a given
type. -/
def twoSegments (type : Nat) : List (Nat × Nat) :=
  [(0, 0x464C457F), (24, 0x80000000), (28, 52), (44, 2),
    (52, 1), (60, 0x80000000), (68, 4), (72, 4), (84, type), (92, 0x80001000), (100, 4), (104, 4)]

/-- Words in memory that is clear otherwise. -/
def wordsAt (words : List (Nat × Nat)) : Memory :=
  words.foldl (fun m p => store32 m p.1 p.2) fun _ => 0

/-- A machine with a new directory, and an image on its disk. -/
def onDisk (words : List (Nat × Nat)) : Os where
  kernel := bootDir 9
  fs := .low fun i => wordsAt words (i - 5000 * 512)
  gdt _ := {}
  tasks := Machine.started.tasks

theorem readDisk_free (k : Kernel) (disk : Nat → UInt8) (sector count buf : Nat) :
  (k.readDisk disk sector count buf).free = k.free
  := rfl

theorem byte_onDisk {words : List (Nat × Nat)} {k : Nat} (hk : k < 512) :
  (onDisk words).image.mem (0x60000 + k) = wordsAt words k
  := by
  dsimp only [image, onDisk, TempFile.low, readDisk, sectorSize]
  rw [if_pos (by omega), show 5000 * 512 + (0x60000 + k - 0x60000) - 5000 * 512 = k by omega]

theorem load_onDisk {words : List (Nat × Nat)} {k : Nat} (hk : k + 4 ≤ 512) :
  (onDisk words).image.load (0x60000 + k) = load32 (wordsAt words) k
  := by
  have hbyte : ∀ j < 4, (onDisk words).image.mem (0x60000 + k + j) = wordsAt words (k + j) := by
    intro j hj
    rw [Nat.add_assoc]
    apply byte_onDisk
    omega
  exact load32_eq_of_bytes hbyte

theorem ehdr_onDisk {type : Nat} (h : type ≤ 1) :
  (onDisk (twoSegments type)).image.elfIdentOk 0x60000 = true
    ∧ (onDisk (twoSegments type)).image.eEntry 0x60000 = 0x80000000
    ∧ (onDisk (twoSegments type)).image.ePhoff 0x60000 = 52
    ∧ (onDisk (twoSegments type)).image.ePhnum 0x60000 = 2
  := by
  have hfirst := @byte_onDisk (twoSegments type) 0 (by decide)
  rw [Nat.add_zero] at hfirst
  rw [elfIdentOk, eEntry, ePhoff, ePhnum, load16, load_onDisk (by decide), load_onDisk (by decide),
    Nat.add_assoc, hfirst, byte_onDisk (by decide), byte_onDisk (by decide),
    byte_onDisk (by decide), byte_onDisk (by decide), byte_onDisk (by decide)]
  interval_cases type <;> decide +kernel

theorem phdr_onDisk {type j : Nat} (h : type ≤ 1) (hj : j < 2) :
  (onDisk (twoSegments type)).image.pType
        ((onDisk (twoSegments type)).image.phdrAt 0x60000 j) = (if j = 0 then ptLoad else type)
    ∧ (onDisk (twoSegments type)).image.pVaddr
        ((onDisk (twoSegments type)).image.phdrAt 0x60000 j) = 0x80000000 + 4096 * j
    ∧ (onDisk (twoSegments type)).image.pOffset
        ((onDisk (twoSegments type)).image.phdrAt 0x60000 j) = 0
    ∧ (onDisk (twoSegments type)).image.pFilesz
        ((onDisk (twoSegments type)).image.phdrAt 0x60000 j) = 4
    ∧ (onDisk (twoSegments type)).image.pMemsz
        ((onDisk (twoSegments type)).image.phdrAt 0x60000 j) = 4
  := by
  obtain ⟨-, -, hphoff, -⟩ := ehdr_onDisk h
  rw [phdrAt, hphoff, pType, pVaddr, pOffset, pFilesz, pMemsz]
  simp only [Nat.add_assoc]
  unfold sizeofElf32Phdr
  rw [load_onDisk (by omega), load_onDisk (by omega), load_onDisk (by omega),
    load_onDisk (by omega), load_onDisk (by omega)]
  interval_cases type <;> interval_cases j <;> decide +kernel

/-- Where the headers are read to. -/
def someLocals : Locals :=
  ⟨0x80000, 0x80100, 0x80200⟩

theorem placed_onDisk (words : List (Nat × Nat)) :
  someLocals.Placed (onDisk words).kernel (onDisk words).fs {1024 * 1024}
  := by
  have hlow := (bootDir_frames (show 0 < 9 by decide) (by decide)).low_apart
  have hlayout : (bootDir 9).layout = (boot 9).layout :=
    (bootDir_created (show 0 < 9 by decide) (by decide)).2.layout
  refine ⟨⟨by decide, by decide, by decide, by decide, ?_⟩, ?_, ?_⟩
  · change List.Pairwise Separate [(0x80000, 52), (0x80100, 32), (0x60000, 102400),
      ((bootDir 9).layout.gKernelPageDir, 4096)]
    rw [hlayout]
    simp [Separate, boot, Layout.low]
  · intro f hf
    have := hlow f hf
    unfold memExtStart at this
    change 0x80000 + 52 ≤ f ∨ _
    omega
  · intro f hf
    have := hlow f hf
    unfold memExtStart at this
    change 0x80100 + 32 ≤ f ∨ _
    omega

theorem wellFormed_onDisk {type : Nat} (h : type ≤ 1) :
  (onDisk (twoSegments type)).image.WellFormed 0x60000
  := by
  obtain ⟨hident, -, hphoff, hphnum⟩ := ehdr_onDisk h
  have hlt (j : Nat) (hj : (onDisk (twoSegments type)).image.Loadable 0x60000 j) : j < 2 := by
    have hj' := hj.1
    omega
  constructor
  · exact hident
  · rw [hphoff, hphnum]
    unfold sizeofElf32Phdr bufferSize
    omega
  · intro j hj
    obtain ⟨-, hvaddr, -⟩ := phdr_onDisk h (hlt j hj)
    omega
  · intro j hj
    obtain ⟨-, hvaddr, -⟩ := phdr_onDisk h (hlt j hj)
    unfold memoryTaskBase
    omega
  · intro j hj
    obtain ⟨-, -, -, hfilesz, hmemsz⟩ := phdr_onDisk h (hlt j hj)
    omega
  · intro j hj
    obtain ⟨-, hvaddr, -, -, hmemsz⟩ := phdr_onDisk h (hlt j hj)
    have := hlt j hj
    rw [segmentEnd]
    omega
  · intro j hj
    obtain ⟨-, -, hoffset, hfilesz, -⟩ := phdr_onDisk h (hlt j hj)
    unfold bufferSize
    omega
  · intro i j hi hj hne x y hx hx' hy hy'
    obtain ⟨-, hvaddr, -, -, hmemsz⟩ := phdr_onDisk h (hlt i hi)
    obtain ⟨-, hvaddr', -, -, hmemsz'⟩ := phdr_onDisk h (hlt j hj)
    rw [segmentEnd] at hx' hy'
    omega

theorem enoughFrames_onDisk {type : Nat} (h : type ≤ 1) :
  (onDisk (twoSegments type)).image.EnoughFrames 0x60000
  := by
  obtain ⟨-, -, -, hphnum⟩ := ehdr_onDisk h
  intro j hj
  have hj' := hj.1
  obtain ⟨-, hvaddr, -, -, hmemsz⟩ := phdr_onDisk h (show j < 2 by omega)
  have hfree : (onDisk (twoSegments type)).image.free.length = 8 := by
    rw [image, readDisk_free, onDisk, bootDir_free (by decide) (by decide), List.length_map,
      List.length_range]
  rw [segmentPages, hmemsz, allocPages, length_pagesFrom, hphnum, hfree]
  rw [show up2 4 memPageSize / memPageSize = 1 by decide]
  omega

theorem frames_onDisk (words : List (Nat × Nat)) :
  Frames (onDisk words).kernel {1024 * 1024}
  := bootDir_frames (by decide) (by decide)

theorem not_present_onDisk (words : List (Nat × Nat)) {v : Nat} (hlo : 512 ≤ v / 1024)
    (hv : v < 2 ^ 20) :
  ¬ Present (pteAt (onDisk words).kernel.mem (1024 * 1024) v)
  := by
  rw [onDisk, (bootDir_created (by decide) (by decide)).2.pteAt hlo hv]
  decide

theorem loading_onDisk {type : Nat} (h : type ≤ 1) :
  ∃ s', (onDisk (twoSegments type)).loadElfFile someLocals ⟨0, 0, []⟩ .firstTask [47]
      (1024 * 1024) = .ok (0x80000000, s')
    ∧ Loading (onDisk (twoSegments type)).image 0x60000 someLocals {1024 * 1024} (1024 * 1024)
        .firstTask 0 ((onDisk (twoSegments type)).image.ePhnum 0x60000) s'
  := by
  obtain ⟨-, hentry, -⟩ := ehdr_onDisk h
  rw [← hentry]
  exact loadElfFile_run ⟨0, 0, []⟩ (frames_onDisk _) (Set.mem_singleton _)
    (fun v => not_present_onDisk _) (placed_onDisk _) (show [47].head? = some 47 from rfl)
    (wellFormed_onDisk h) (enoughFrames_onDisk h)

/-- An image whose second header is skipped. -/
theorem imageLoaded_onDisk :
  OnlyFirst (onDisk (twoSegments 0)).image 0x60000 0
    ∧ ∀ entry s', (onDisk (twoSegments 0)).loadElfFile someLocals ⟨0, 0, []⟩ .firstTask [47]
        (1024 * 1024) = .ok (entry, s') → entry ≠ 0 →
      ImageLoaded (onDisk (twoSegments 0)).image 0x60000 s' .firstTask (1024 * 1024)
  := by
  obtain ⟨-, -, -, hphnum⟩ := ehdr_onDisk (show 0 ≤ 1 by decide)
  obtain ⟨-, hvaddr, -, -, hmemsz⟩ := phdr_onDisk (show 0 ≤ 1 by decide) (show 0 < 2 by decide)
  obtain ⟨htype, -⟩ := phdr_onDisk (show 0 ≤ 1 by decide) (show 1 < 2 by decide)
  have hfirst (j : Nat) (hj : (onDisk (twoSegments 0)).image.Loadable 0x60000 j) : j = 0 := by
    obtain ⟨hj', hload⟩ := hj
    rw [hphnum] at hj'
    by_contra hne
    obtain rfl : j = 1 := by omega
    rw [htype] at hload
    cases hload
  have honly : OnlyFirst (onDisk (twoSegments 0)).image 0x60000 0 := by
    constructor
    · intro j hj hne
      cases hne (hfirst j hj)
    · intro j hj
      obtain rfl := hfirst j hj
      rw [if_pos hj, segmentEnd, hvaddr, hmemsz, u32_of_lt (by decide)]
  use honly
  exact (imageLoaded_of_loadElfFile ⟨0, 0, []⟩ (frames_onDisk _) (Set.mem_singleton _)
    (fun v => not_present_onDisk _) (placed_onDisk _) (show [47].head? = some 47 from rfl)
    (wellFormed_onDisk (by decide)) (enoughFrames_onDisk (by decide))).mpr (.inr honly)

/-- An image of two segments: the second is not loaded. -/
theorem not_imageLoaded_onDisk :
  (onDisk (twoSegments 1)).image.WellFormed 0x60000
    ∧ (onDisk (twoSegments 1)).image.EnoughFrames 0x60000
    ∧ ∃ s', (onDisk (twoSegments 1)).loadElfFile someLocals ⟨0, 0, []⟩ .firstTask [47]
        (1024 * 1024) = .ok (0x80000000, s')
      ∧ ¬ ImageLoaded (onDisk (twoSegments 1)).image 0x60000 s' .firstTask (1024 * 1024)
  := by
  have hwf := wellFormed_onDisk (show 1 ≤ 1 by decide)
  obtain ⟨-, -, -, hphnum⟩ := ehdr_onDisk (show 1 ≤ 1 by decide)
  obtain ⟨htype, -, -, hfilesz, -⟩ := phdr_onDisk (show 1 ≤ 1 by decide) (show 1 < 2 by decide)
  obtain ⟨s', hrun, hs'⟩ := loading_onDisk (show 1 ≤ 1 by decide)
  refine ⟨hwf, enoughFrames_onDisk (by decide), s', hrun, ?_⟩
  rw [hs'.imageLoaded_iff hwf]
  intro honly
  have hnone := honly.bytes 1 ⟨by omega, htype⟩ (by decide)
  omega

end Os

end Dmos
