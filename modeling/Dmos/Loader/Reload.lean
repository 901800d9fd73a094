import Dmos.Task.Exec

/-!
# Loading the kernel

`reload_elf_file` of the boot loader copies the segments of the kernel from the buffer its file has
been read into to their physical addresses.  There is no paging yet, so the memory is that of the
machine.  The code reads the headers anew from it before each byte it writes, which changes nothing
when the segments are clear of the buffer and of each other (`reloadElfFile_loads`).
-/

open ByteMemory

namespace Dmos.BootLoader

/-! ### Headers -/

def load16 (m : Memory) (a : Nat) : Nat :=
  (m a).toNat + 256 * (m (a + 1)).toNat

def elfIdentOk (m : Memory) (elfHdr : Nat) : Bool :=
  -- "ELF" after the magic number
  m elfHdr = elfMagic ∧ m (u32 (elfHdr + 1)) = 69 ∧ m (u32 (elfHdr + 2)) = 76
    ∧ m (u32 (elfHdr + 3)) = 70

def eEntry (m : Memory) (elfHdr : Nat) : Nat :=
  load32 m (u32 (elfHdr + 24))

def ePhoff (m : Memory) (elfHdr : Nat) : Nat :=
  load32 m (u32 (elfHdr + 28))

def ePhnum (m : Memory) (elfHdr : Nat) : Nat :=
  load16 m (u32 (elfHdr + 44))

def pType (m : Memory) (phdr : Nat) : Nat :=
  load32 m phdr

def pOffset (m : Memory) (phdr : Nat) : Nat :=
  load32 m (u32 (phdr + 4))

def pPaddr (m : Memory) (phdr : Nat) : Nat :=
  load32 m (u32 (phdr + 12))

def pFilesz (m : Memory) (phdr : Nat) : Nat :=
  load32 m (u32 (phdr + 16))

def pMemsz (m : Memory) (phdr : Nat) : Nat :=
  load32 m (u32 (phdr + 20))

/-- The program header `i` of the file at `fileBuffer`. -/
def phdrAt (m : Memory) (fileBuffer i : Nat) : Nat :=
  u32 (fileBuffer + ePhoff m fileBuffer + sizeofElf32Phdr * i)

/-! ### The function -/

/-- The loop over the bytes of the file, for at most `fuel` of them.  The counter `j` is an `int`,
which the comparison takes as unsigned. -/
def reloadElfFile.copy (m : Memory) (phdr j dest src fuel : Nat) : Memory :=
  match fuel with
  | 0 => m
  | fuel + 1 =>
      if j < pFilesz m phdr then
        copy (store8 m dest (m src)) phdr (u32 (j + 1)) (u32 (dest + 1)) (u32 (src + 1)) fuel
      else m

/-- The loop over the bytes behind those of the file. -/
def reloadElfFile.clear (m : Memory) (phdr j dest fuel : Nat) : Memory :=
  match fuel with
  | 0 => m
  | fuel + 1 =>
      if j < u32Sub (pMemsz m phdr) (pFilesz m phdr) then
        clear (store8 m dest 0) phdr (u32 (j + 1)) (u32 (dest + 1)) fuel
      else m

/-- One pass of the loop over the headers. -/
def reloadElfFile.pass (m : Memory) (fileBuffer i : Nat) : Memory :=
  let phdr := phdrAt m fileBuffer i
  if pType m phdr ≠ ptLoad then m
  else
    let src := u32 (fileBuffer + pOffset m phdr)
    let dest := pPaddr m phdr
    let m := reloadElfFile.copy m phdr 0 dest src (2 ^ 32)
    let dest := u32 (pPaddr m phdr + pFilesz m phdr)
    reloadElfFile.clear m phdr 0 dest (2 ^ 32)

/-- The loop over the headers, from the header `i` on, for at most `fuel` of them. -/
def reloadElfFile.loop (m : Memory) (fileBuffer i fuel : Nat) : Memory :=
  match fuel with
  | 0 => m
  | fuel + 1 =>
      if i < ePhnum m fileBuffer then
        loop (reloadElfFile.pass m fileBuffer i) fileBuffer (i + 1) fuel
      else m

/-- The value returned and the memory. -/
def reloadElfFile (m : Memory) (fileBuffer : Nat) : Nat × Memory :=
  if elfIdentOk m fileBuffer then
    let m := reloadElfFile.loop m fileBuffer 0 (2 ^ 16)
    (eEntry m fileBuffer, m)
  else (0, m)

/-! ### What it loads -/

/-- The header `i` is in the table and asks for its segment to be loaded. -/
def Loadable (m : Memory) (fileBuffer i : Nat) : Prop :=
  i < ePhnum m fileBuffer ∧ pType m (phdrAt m fileBuffer i) = ptLoad

/-- The address belongs to the segment of the header. -/
def InSegment (m : Memory) (phdr x : Nat) : Prop :=
  pPaddr m phdr ≤ x ∧ x < pPaddr m phdr + pMemsz m phdr

/-- A file in the `n` bytes from `fileBuffer` on, with its headers and the bytes of its segments,
whose segments are clear of the buffer and of each other. -/
structure Image (m : Memory) (fileBuffer n : Nat) : Prop where
  buffer_end : fileBuffer + n ≤ 2 ^ 32
  header_end : sizeofElf32Ehdr ≤ n
  magic : elfIdentOk m fileBuffer = true
  table_end : ∀ i < ePhnum m fileBuffer,
    ePhoff m fileBuffer + sizeofElf32Phdr * (i + 1) ≤ n
  bytes_end : ∀ i, Loadable m fileBuffer i → 0 < pFilesz m (phdrAt m fileBuffer i) →
    pOffset m (phdrAt m fileBuffer i) + pFilesz m (phdrAt m fileBuffer i) ≤ n
  filesz_le : ∀ i, Loadable m fileBuffer i →
    pFilesz m (phdrAt m fileBuffer i) ≤ pMemsz m (phdrAt m fileBuffer i)
  segment_end : ∀ i, Loadable m fileBuffer i →
    pPaddr m (phdrAt m fileBuffer i) + pMemsz m (phdrAt m fileBuffer i) ≤ 2 ^ 32
  clear : ∀ i x, Loadable m fileBuffer i → InSegment m (phdrAt m fileBuffer i) x →
    x < fileBuffer ∨ fileBuffer + n ≤ x
  apart : ∀ i j x, Loadable m fileBuffer i → Loadable m fileBuffer j →
    InSegment m (phdrAt m fileBuffer i) x → InSegment m (phdrAt m fileBuffer j) x → i = j

/-- The first `i` headers have been dealt with: the memory `t` holds their segments, and all else is
as it was. -/
structure Loaded (m : Memory) (fileBuffer i : Nat) (t : Memory) : Prop where
  file : ∀ j < i, Loadable m fileBuffer j → ∀ k < pFilesz m (phdrAt m fileBuffer j),
    t (pPaddr m (phdrAt m fileBuffer j) + k)
      = m (fileBuffer + pOffset m (phdrAt m fileBuffer j) + k)
  zero : ∀ j < i, Loadable m fileBuffer j → ∀ k < pMemsz m (phdrAt m fileBuffer j),
    pFilesz m (phdrAt m fileBuffer j) ≤ k → t (pPaddr m (phdrAt m fileBuffer j) + k) = 0
  frame : ∀ x, (∀ j < i, Loadable m fileBuffer j → ¬ InSegment m (phdrAt m fileBuffer j) x) →
    t x = m x

variable {m t : Memory} {b n i : Nat}

/-! ### The loops over bytes -/

/-- A byte clear of a header. -/
theorem store8_header {phdr a : Nat} (v : UInt8) (hend : phdr + sizeofElf32Phdr ≤ 2 ^ 32)
    (h : a < phdr ∨ phdr + sizeofElf32Phdr ≤ a) :
  pFilesz (store8 m a v) phdr = pFilesz m phdr ∧ pMemsz (store8 m a v) phdr = pMemsz m phdr
  := by
  unfold sizeofElf32Phdr at hend h
  have hsame (c : Nat) (hc : phdr ≤ c) (hc' : c + 4 ≤ phdr + 32) :
      load32 (store8 m a v) c = load32 m c := by
    apply load32_congr
    intro x hx hx'
    apply store8_of_ne
    omega
  unfold pFilesz pMemsz
  rw [u32_of_lt (by omega), u32_of_lt (by omega), hsame _ (by omega) (by omega),
    hsame _ (by omega) (by omega)]
  exact ⟨rfl, rfl⟩

theorem copy_eq {phdr j dest src k fuel : Nat} (hend : phdr + sizeofElf32Phdr ≤ 2 ^ 32)
    (hsize : pFilesz m phdr = j + k) (hdest : dest + k ≤ 2 ^ 32)
    (hsrc : 0 < k → src + k ≤ 2 ^ 32)
    (hheader : 0 < k → dest + k ≤ phdr ∨ phdr + sizeofElf32Phdr ≤ dest)
    (hapart : 0 < k → src + k ≤ dest ∨ dest + k ≤ src) (hfuel : k < fuel) :
  reloadElfFile.copy m phdr j (u32 dest) (u32 src) fuel = copy m dest src k
  := by
  induction k generalizing m j dest src fuel with
  | zero =>
      obtain ⟨fuel, rfl⟩ : ∃ f, fuel = f + 1 := ⟨fuel - 1, by omega⟩
      rw [reloadElfFile.copy, if_neg (by omega)]
      funext x
      rw [copy_outside _ _ (by omega)]
  | succ k ih =>
      obtain ⟨fuel, rfl⟩ : ∃ f, fuel = f + 1 := ⟨fuel - 1, by omega⟩
      have hword := load32_lt m (u32 (phdr + 16))
      rw [← pFilesz] at hword
      have hsrc := hsrc k.succ_pos
      have hheader := hheader k.succ_pos
      have hapart := hapart k.succ_pos
      obtain ⟨hfilesz, -⟩ := store8_header (m := m) (a := dest) (m src) hend (by omega)
      rw [reloadElfFile.copy, if_pos (by omega), u32_of_lt (show j + 1 < 2 ^ 32 by omega),
        u32_of_lt (show dest < 2 ^ 32 by omega), u32_of_lt (show src < 2 ^ 32 by omega),
        ih (by rw [hfilesz]; omega) (by omega) (by omega) (by omega) (by omega) (by omega),
        copy_succ m hapart]

theorem clear_eq {phdr j dest k fuel : Nat} (hend : phdr + sizeofElf32Phdr ≤ 2 ^ 32)
    (hle : pFilesz m phdr ≤ pMemsz m phdr) (hsize : pMemsz m phdr - pFilesz m phdr = j + k)
    (hdest : dest + k ≤ 2 ^ 32)
    (hheader : 0 < k → dest + k ≤ phdr ∨ phdr + sizeofElf32Phdr ≤ dest) (hfuel : k < fuel) :
  reloadElfFile.clear m phdr j (u32 dest) fuel = fill m dest 0 k
  := by
  induction k generalizing m j dest fuel with
  | zero =>
      obtain ⟨fuel, rfl⟩ : ∃ f, fuel = f + 1 := ⟨fuel - 1, by omega⟩
      have hword := load32_lt m (u32 (phdr + 20))
      rw [← pMemsz] at hword
      rw [reloadElfFile.clear, u32Sub_of_le hle hword, if_neg (by omega)]
      funext x
      rw [fill_of_disjoint _ _ (by omega)]
  | succ k ih =>
      obtain ⟨fuel, rfl⟩ : ∃ f, fuel = f + 1 := ⟨fuel - 1, by omega⟩
      have hword := load32_lt m (u32 (phdr + 20))
      rw [← pMemsz] at hword
      have hheader := hheader k.succ_pos
      obtain ⟨hfilesz, hmemsz⟩ := store8_header (m := m) (a := dest) 0 hend (by omega)
      rw [reloadElfFile.clear, u32Sub_of_le hle hword, if_pos (by omega),
        u32_of_lt (show j + 1 < 2 ^ 32 by omega), u32_of_lt (show dest < 2 ^ 32 by omega),
        ih (by rw [hfilesz, hmemsz]; exact hle) (by rw [hfilesz, hmemsz]; omega) (by omega)
          (by omega) (by omega), fill_succ]

/-! ### The loop over headers -/

/-- Memories that agree on the buffer have the same headers. -/
theorem headers_eq (h : Image m b n) (hsame : ∀ x, b ≤ x → x < b + n → t x = m x) :
  eEntry t b = eEntry m b ∧ ePhnum t b = ePhnum m b ∧ phdrAt t b i = phdrAt m b i
  := by
  have hend := h.buffer_end
  have hheader := h.header_end
  unfold sizeofElf32Ehdr at hheader
  have hword (c : Nat) (hc : b ≤ c) (hc' : c + 4 ≤ b + n) : load32 t c = load32 m c := by
    apply load32_congr
    intro x hx hx'
    apply hsame x (by omega) (by omega)
  have hphoff : ePhoff t b = ePhoff m b := by
    unfold ePhoff
    rw [u32_of_lt (by omega), hword _ (by omega) (by omega)]
  refine ⟨?_, ?_, ?_⟩
  · unfold eEntry
    rw [u32_of_lt (by omega), hword _ (by omega) (by omega)]
  · unfold ePhnum load16
    rw [u32_of_lt (by omega), hsame _ (by omega) (by omega), hsame _ (by omega) (by omega)]
  · rw [phdrAt, hphoff]
    rfl

/-- The place of a header. -/
theorem Image.phdrAt_eq (h : Image m b n) (hi : i < ePhnum m b) :
  phdrAt m b i = b + ePhoff m b + sizeofElf32Phdr * i ∧ b ≤ phdrAt m b i ∧
    phdrAt m b i + sizeofElf32Phdr ≤ b + n
  := by
  have hend := h.buffer_end
  have htable := h.table_end i hi
  unfold sizeofElf32Phdr at htable
  have hplace : phdrAt m b i = b + ePhoff m b + sizeofElf32Phdr * i := by
    apply u32_of_lt
    unfold sizeofElf32Phdr
    omega
  unfold sizeofElf32Phdr at hplace ⊢
  omega

theorem Image.fields_eq (h : Image m b n) (hi : i < ePhnum m b)
    (hsame : ∀ x, b ≤ x → x < b + n → t x = m x) :
  pType t (phdrAt m b i) = pType m (phdrAt m b i) ∧
    pOffset t (phdrAt m b i) = pOffset m (phdrAt m b i) ∧
    pPaddr t (phdrAt m b i) = pPaddr m (phdrAt m b i) ∧
    pFilesz t (phdrAt m b i) = pFilesz m (phdrAt m b i) ∧
    pMemsz t (phdrAt m b i) = pMemsz m (phdrAt m b i)
  := by
  have hend := h.buffer_end
  obtain ⟨-, hlo, hhi⟩ := h.phdrAt_eq hi
  generalize phdrAt m b i = phdr at hlo hhi ⊢
  unfold sizeofElf32Phdr at hhi
  have hword (c : Nat) (hc : c ≤ 28) : load32 t (u32 (phdr + c)) = load32 m (u32 (phdr + c)) := by
    rw [u32_of_lt (by omega)]
    apply load32_congr
    intro x hx hx'
    apply hsame x (by omega) (by omega)
  have hfirst := hword 0 (by decide)
  rw [Nat.add_zero, u32_of_lt (by omega)] at hfirst
  exact ⟨hfirst, hword 4 (by decide), hword 12 (by decide), hword 16 (by decide),
    hword 20 (by decide)⟩

/-- A segment that is not empty lies on one side of the buffer. -/
theorem Image.segment_clear (h : Image m b n) (hi : Loadable m b i)
    (hpos : 0 < pMemsz m (phdrAt m b i)) :
  pPaddr m (phdrAt m b i) + pMemsz m (phdrAt m b i) ≤ b ∨ b + n ≤ pPaddr m (phdrAt m b i)
  := by
  by_contra hmeet
  rw [not_or, Nat.not_le, Nat.not_le] at hmeet
  rcases h.clear i (max b (pPaddr m (phdrAt m b i))) hi ⟨by omega, by omega⟩ with hx | hx
  · omega
  · have hheader := h.header_end
    unfold sizeofElf32Ehdr at hheader
    omega

/-- What is left of the file while its segments are loaded. -/
theorem Loaded.buffer (h : Loaded m b i t) (himage : Image m b n) :
  ∀ x, b ≤ x → x < b + n → t x = m x
  := by
  intro x hx hx'
  apply h.frame
  intro j _ hj hin
  have := himage.clear j x hj hin
  omega

/-- The loops over the bytes of a segment. -/
theorem Image.pass_eq (h : Image m b n) (hi : Loadable m b i)
    (hsame : ∀ x, b ≤ x → x < b + n → t x = m x) :
  reloadElfFile.pass t b i
    = fill (copy t (pPaddr m (phdrAt m b i)) (b + pOffset m (phdrAt m b i))
        (pFilesz m (phdrAt m b i)))
      (pPaddr m (phdrAt m b i) + pFilesz m (phdrAt m b i)) 0
      (pMemsz m (phdrAt m b i) - pFilesz m (phdrAt m b i))
  := by
  have hend := h.buffer_end
  have hbytes := h.bytes_end i hi
  have hle := h.filesz_le i hi
  have hsegment := h.segment_end i hi
  have hclear := h.segment_clear hi
  obtain ⟨-, hlo, hhi⟩ := h.phdrAt_eq hi.1
  obtain ⟨htype, hoffset, hpaddr, hfilesz, hmemsz⟩ := h.fields_eq hi.1 hsame
  have hphdr : phdrAt t b i = phdrAt m b i := (headers_eq h hsame).2.2
  have hcopied : ∀ x, b ≤ x → x < b + n → copy t (pPaddr m (phdrAt m b i))
      (b + pOffset m (phdrAt m b i)) (pFilesz m (phdrAt m b i)) x = m x := by
    intro x hx hx'
    rw [copy_outside, hsame x hx hx']
    intro hin
    have := h.clear i x hi ⟨hin.1, by omega⟩
    omega
  obtain ⟨-, -, hpaddr', hfilesz', hmemsz'⟩ := h.fields_eq hi.1 hcopied
  have hpaddr_lt : pPaddr m (phdrAt m b i) < 2 ^ 32 := load32_lt _ _
  have hmemsz_lt : pMemsz m (phdrAt m b i) < 2 ^ 32 := load32_lt _ _
  have htype' : ¬ pType m (phdrAt m b i) ≠ ptLoad := not_not.mpr hi.2
  rw [reloadElfFile.pass, hphdr, htype, if_neg htype', hoffset, hpaddr]
  have hloop : reloadElfFile.copy t (phdrAt m b i) 0 (u32 (pPaddr m (phdrAt m b i)))
      (u32 (b + pOffset m (phdrAt m b i))) (2 ^ 32)
      = copy t (pPaddr m (phdrAt m b i)) (b + pOffset m (phdrAt m b i))
          (pFilesz m (phdrAt m b i)) := by
    apply copy_eq <;> omega
  rw [u32_of_lt hpaddr_lt] at hloop
  dsimp only
  rw [hloop, hpaddr', hfilesz']
  apply clear_eq <;> omega

/-- One pass of the loop. -/
theorem Loaded.pass (h : Loaded m b i t) (himage : Image m b n) (hi : i < ePhnum m b) :
  Loaded m b (i + 1) (reloadElfFile.pass t b i)
  := by
  have hbuffer := h.buffer himage
  by_cases htype : pType m (phdrAt m b i) = ptLoad
  · have hload : Loadable m b i := ⟨hi, htype⟩
    have hle := himage.filesz_le i hload
    have hbytes := himage.bytes_end i hload
    rw [himage.pass_eq hload hbuffer]
    -- the bytes of the segment, and the others
    have hout (x : Nat) (hx : ¬ InSegment m (phdrAt m b i) x) :
        fill (copy t (pPaddr m (phdrAt m b i)) (b + pOffset m (phdrAt m b i))
            (pFilesz m (phdrAt m b i)))
          (pPaddr m (phdrAt m b i) + pFilesz m (phdrAt m b i)) 0
          (pMemsz m (phdrAt m b i) - pFilesz m (phdrAt m b i)) x = t x := by
      unfold InSegment at hx
      rw [fill_of_disjoint _ _ (by omega), copy_outside _ _ (by omega)]
    have hother (j : Nat) (hj : j < i) (hjl : Loadable m b j) (k : Nat)
        (hk : k < pMemsz m (phdrAt m b j)) :
        ¬ InSegment m (phdrAt m b i) (pPaddr m (phdrAt m b j) + k) := by
      intro hin
      have heq := himage.apart j i _ hjl hload ⟨by omega, by omega⟩ hin
      omega
    constructor
    · intro j hj hjl k hk
      rcases Nat.lt_succ_iff_lt_or_eq.mp hj with hj | rfl
      · have hjle := himage.filesz_le j hjl
        rw [hout _ (hother j hj hjl k (by omega)), h.file j hj hjl k hk]
      · rw [fill_of_disjoint _ _ (by omega), copy_inside _ _ hk]
        apply hbuffer <;> omega
    · intro j hj hjl k hk hk'
      rcases Nat.lt_succ_iff_lt_or_eq.mp hj with hj | rfl
      · rw [hout _ (hother j hj hjl k hk), h.zero j hj hjl k hk hk']
      · rw [fill_apply, if_pos (by omega)]
    · intro x hx
      rw [hout x (hx i (by omega) hload), h.frame x fun j hj => hx j (by omega)]
  · have hskip : reloadElfFile.pass t b i = t := by
      have hphdr : phdrAt t b i = phdrAt m b i := (headers_eq himage hbuffer).2.2
      rw [reloadElfFile.pass, hphdr, (himage.fields_eq hi hbuffer).1, if_pos htype]
    have hnot (j : Nat) (hj : j < i + 1) (hjl : Loadable m b j) : j < i := by
      rcases Nat.lt_succ_iff_lt_or_eq.mp hj with hj | rfl
      · exact hj
      · cases htype hjl.2
    rw [hskip]
    constructor
    · intro j hj hjl
      apply h.file j (hnot j hj hjl) hjl
    · intro j hj hjl
      apply h.zero j (hnot j hj hjl) hjl
    · intro x hx
      apply h.frame x fun j hj => hx j (by omega)

theorem Loaded.loop {fuel : Nat} (h : Loaded m b i t) (himage : Image m b n)
    (hi : i ≤ ePhnum m b) (hfuel : ePhnum m b - i < fuel) :
  Loaded m b (ePhnum m b) (reloadElfFile.loop t b i fuel)
  := by
  induction fuel generalizing i t with
  | zero => omega
  | succ fuel ih =>
      have hphnum : ePhnum t b = ePhnum m b := (headers_eq (i := i) himage (h.buffer himage)).2.1
      rw [reloadElfFile.loop, hphnum]
      split_ifs with hlt
      · apply ih (h.pass himage hlt) (by omega) (by omega)
      · obtain rfl : i = ePhnum m b := by omega
        apply h

theorem ePhnum_lt (m : Memory) (b : Nat) :
  ePhnum m b < 2 ^ 16
  := by
  have hlow := (m (u32 (b + 44))).toNat_lt
  have hhigh := (m (u32 (b + 44) + 1)).toNat_lt
  unfold ePhnum load16
  omega

/-- A file without the magic number is refused.  Of every other one whose segments are clear of it
and of each other, each segment is loaded and all else is as it was. -/
theorem reloadElfFile_loads (m : Memory) (fileBuffer : Nat) :
  (elfIdentOk m fileBuffer = false → reloadElfFile m fileBuffer = (0, m)) ∧
    ∀ n, Image m fileBuffer n →
      (reloadElfFile m fileBuffer).1 = eEntry m fileBuffer ∧
        Loaded m fileBuffer (ePhnum m fileBuffer) (reloadElfFile m fileBuffer).2
  := by
  constructor
  · intro hmagic
    rw [reloadElfFile, hmagic]
    rfl
  · intro n himage
    have hstart : Loaded m fileBuffer 0 m := by
      constructor
      · intro j hj
        omega
      · intro j hj
        omega
      · exact fun _ _ => rfl
    have hphnum := ePhnum_lt m fileBuffer
    have hloaded := hstart.loop himage (Nat.zero_le _) (show _ < 2 ^ 16 by omega)
    rw [reloadElfFile, if_pos himage.magic]
    exact ⟨(headers_eq (i := 0) himage (hloaded.buffer himage)).1, hloaded⟩

/-- A file with one segment, of two bytes and one behind them. -/
def smallFile : Memory :=
  put (fun _ => 0xFF) 0x100000 86 fun k =>
    [0x7F, 69, 76, 70, 1, 1, 1, 0, 0, 0, 0, 0, 0, 0, 0, 0, 2, 0, 3, 0, 1, 0, 0, 0,
      -- `e_entry` and `e_phoff`
      0, 0, 2, 0, 52, 0, 0, 0, 0, 0, 0, 0, 0, 0, 0, 0, 52, 0, 32, 0, 1, 0, 0, 0, 0, 0, 0, 0,
      -- the program header, and the bytes
      1, 0, 0, 0, 84, 0, 0, 0, 0, 0, 2, 0, 0, 0, 2, 0, 2, 0, 0, 0, 3, 0, 0, 0, 7, 0, 0, 0,
      0, 16, 0, 0, 0xAB, 0xCD].getD k 0

theorem smallFile_image :
  Image smallFile 0x100000 86
  := by
  have hphnum : ePhnum smallFile 0x100000 = 1 := by decide +kernel
  have hphdr : phdrAt smallFile 0x100000 0 = 0x100034 := by decide +kernel
  have hpaddr : pPaddr smallFile 0x100034 = 0x20000 := by decide +kernel
  have hmemsz : pMemsz smallFile 0x100034 = 3 := by decide +kernel
  have hfirst (i : Nat) (h : Loadable smallFile 0x100000 i) : i = 0 := by
    have hlt := h.1
    omega
  constructor
  · decide
  · decide
  · decide +kernel
  · intro i hi
    obtain rfl : i = 0 := by omega
    decide +kernel
  · intro i hi _
    rw [hfirst i hi, hphdr]
    decide +kernel
  · intro i hi
    rw [hfirst i hi, hphdr]
    decide +kernel
  · intro i hi
    rw [hfirst i hi, hphdr, hpaddr, hmemsz]
    decide
  · intro i x hi hx
    rw [hfirst i hi, hphdr, InSegment, hpaddr, hmemsz] at hx
    omega
  · intro i j x hi hj _ _
    rw [hfirst i hi, hfirst j hj]

theorem reloadElfFile_loads_smallFile :
  (reloadElfFile smallFile 0x100000).1 = 0x20000 ∧
    Loaded smallFile 0x100000 1 (reloadElfFile smallFile 0x100000).2
  := by
  have hphnum : ePhnum smallFile 0x100000 = 1 := by decide +kernel
  have hentry : eEntry smallFile 0x100000 = 0x20000 := by decide +kernel
  have hloads := (reloadElfFile_loads smallFile 0x100000).2 86 smallFile_image
  rw [hphnum, hentry] at hloads
  exact hloads

end Dmos.BootLoader
