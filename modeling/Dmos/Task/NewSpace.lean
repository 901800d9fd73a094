import Dmos.Kernel.Reserved
import Dmos.Task.ExecFails

/-!
# Making an address space

`sys_execve` maps the segments of a program and its stack in a new directory, reads the file and
copies the arguments to physical addresses that it looks up there, and keeps its local variables
on the kernel stack of the caller.  While a program is read page by page and its table of
arguments is no longer than a page, all it writes lies in frames that were free before, in the
kernel stack, or below the frames (`Prepares`).
-/

open ByteMemory AddressSpace Loop

namespace Dmos

namespace Kernel

variable {s k t : Kernel} {live : Set Nat} {d stack : Nat} {f f' : TempFile} {tty : Tty} {r : Int}

/-- The frame `stack` is a kernel stack, and the first page of memory is not the kernel's
directory. -/
structure HasStack (s : Kernel) (live : Set Nat) (stack : Nat) : Prop extends Guarded s live where
  reserved : s.Reserved live stack
  not_table : stack ∉ s.kernelTables
  base_pos : memPageSize ≤ s.layout.gKernelPageDir

/-- Between `s` and `k` pages have been mapped and written in the new directory `d`, whose frames
all were free. -/
structure Prepares (s : Kernel) (live : Set Nat) (d stack : Nat) (k : Kernel) : Prop where
  frames : Frames k (insert d live)
  spares : Spares s live k (insert d live)
  cr3 : k.cr3 = s.cr3
  free : ∀ g ∈ k.free, g ∈ s.free
  owned : ∀ p g, Owns 512 k.mem (insert d live) p g → p.root = d → g ∈ s.free
  entry : ∀ v, 512 ≤ v / 1024 → v < 2 ^ 20 → ¬ Present (pteAt k.mem d v) → pteAt k.mem d v = 0
  mem : ∀ x, memExtStart ≤ x → (∀ g ∈ s.free, ¬ (g ≤ x ∧ x < g + 4096)) →
    ¬ (stack ≤ x ∧ x < stack + 4096) → k.mem x = s.mem x

/-- The directory has the same entries. -/
def SameEntries (k t : Kernel) (d : Nat) : Prop :=
  ∀ v, 512 ≤ v / 1024 → v < 2 ^ 20 → pteAt t.mem d v = pteAt k.mem d v

/-- Memory below the frames is the same, but for its first page. -/
def LowKept (k t : Kernel) : Prop :=
  ∀ x, memPageSize ≤ x → x < memExtStart → t.mem x = k.mem x

theorem LowKept.trans {t' : Kernel} (h : LowKept k t) (h' : LowKept t t') :
  LowKept k t'
  := fun x hx hx' => (h' x hx hx').trans (h x hx hx')

namespace Prepares

/-- The new directory. -/
theorem created {rest : List Nat} (hs : Guarded s live) (hfree : s.free = d :: rest)
    (hc : Created s k d) (stack : Nat) :
  Prepares s live d stack k
  := by
  have hmem : d ∈ s.free := by
    rw [hfree]
    apply List.mem_cons_self
  have hnot : d ∉ live := fun hd => (hs.toFrames.marked_dir hd).not_free hs.range hmem
  constructor
  · apply hs.toFrames.created hfree hc
  · apply hs.created hfree hc
  · apply hc.cr3
  · intro g hg
    rw [hc.free hs.range hfree] at hg
    rw [hfree]
    apply List.mem_cons_of_mem _ hg
  · intro p g hp hroot
    rcases hc.owns_cases hs.toFrames hfree hp with ⟨-, rfl⟩ | hold
    · apply hmem
    · exfalso
      apply hnot
      rw [← hroot]
      cases p <;> exact hold.1
  · intro v hlo hv _
    apply hc.pteAt hlo hv
  · intro x _ hout _
    apply hc.outside x (hout d hmem)

section Step

variable (h : Prepares s live d stack k) (hs : s.HasStack live stack)

include h hs

theorem guarded :
  Guarded k (insert d live)
  := h.spares.guarded hs.toGuarded h.frames

theorem hasStack :
  k.HasStack (insert d live) stack
  where
  toGuarded := h.guarded hs
  reserved := h.spares.reserved stack hs.reserved
  not_table := by
    rw [h.spares.kernelTables_eq]
    apply hs.not_table
  base_pos := by
    rw [h.spares.layout]
    apply hs.base_pos

/-- A frame that was in use has not been written. -/
theorem sameFrame {p : Place} {g : Nat} (hp : Owns 512 s.mem live p g) :
  SameFrame s.mem k.mem g
  := by
  have hmarked := hs.exclusive.used_of_owns hp
  have hbounds := hs.range.marked_bounds hmarked
  intro x hx hx'
  apply h.mem x (by omega)
  · rintro g' hg' ⟨hle, hlt⟩
    have hbounds' := hs.range.free_bounds hg'
    obtain rfl : g' = g := by omega
    apply hmarked.not_free hs.range hg'
  · rintro ⟨hle, hlt⟩
    have hbounds' := hs.reserved.bounds hs.toFrames
    obtain rfl : g = stack := by omega
    apply hs.reserved.unowned p hp

/-- The caller's memory is read as before. -/
theorem readByte_eq (hcr3 : s.cr3 ∈ live) {a : Nat} (huser : memoryTaskBase ≤ a)
    (hlt : a < 2 ^ 32) :
  k.readByte a = s.readByte a
  := by
  apply readByte_of_sameFrame hs.toFrames hcr3 h.cr3 _ huser hlt
  intro p g hp
  apply h.sameFrame hs hp

/-- Writes to pages of the directory, to the kernel stack and below the frames. -/
theorem write {m : Memory} (hm : ∀ x, ¬ k.Harmless d stack x → m x = k.mem x) :
  Prepares s live d stack (k.setMem m) ∧ SameEntries k (k.setMem m) d
  := by
  have hk := h.hasStack hs
  have hd := Set.mem_insert d live
  have hentry : SameEntries k (k.setMem m) d :=
    fun v hlo hv => pteAt_of_harmless hk.toFrames hd hk.reserved hm hd hlo hv
  refine ⟨⟨?_, ?_, h.cr3, h.free, ?_, ?_, ?_⟩, hentry⟩
  · apply frames_of_harmless hk.toFrames hd hk.reserved hm
  · apply h.spares.trans
    apply hk.toGuarded.written hd hk.reserved hm hk.not_table
  · intro p g hp hroot
    apply h.owned p g (owns_of_harmless hk.toFrames hd hk.reserved hm hp) hroot
  · intro v hlo hv hp
    rw [hentry v hlo hv] at hp ⊢
    apply h.entry v hlo hv hp
  · intro x hx hfree hstack
    rw [← h.mem x hx hfree hstack]
    apply hm
    rintro (⟨v, hlo, hv, hpresent, hle, hlt⟩ | hin | ⟨hlow, -⟩)
    · apply hfree _ _ ⟨hle, hlt⟩
      apply h.owned (.page d v) _ ⟨hd, hlo, hv, hpresent, rfl⟩ rfl
    · apply hstack hin
    · omega

/-- Mapping pages of the directory. -/
theorem map {vs : List (Nat × (Nat → Nat))} {q : Option Request}
    (hb : Built 512 (insert d live) k t d vs q)
    (hwords : ∀ v e, (v, e) ∈ vs → ∃ perm < 4096, e = mapWord perm) :
  Prepares s live d stack t
  := by
  have hk := h.guarded hs
  have hd := Set.mem_insert d live
  constructor
  · apply hk.toFrames.built hd hb
  · apply h.spares.trans (hk.built hd hb hwords)
  · rw [hb.cr3, h.cr3]
  · intro g hg
    apply h.free g (hb.free_suffix.subset hg)
  · intro p g hp hroot
    rcases hb.owns_cases hk.toFrames hd hwords hp with hold | hfree
    · apply h.owned p g hold hroot
    · apply h.free g hfree
  · intro v hlo hv hp
    rw [hb.pteAt_eq hlo hv] at hp ⊢
    rcases (k.space 512 d).mapAll_entry tableIndex vs v with hold | ⟨w, g, hmem, hg, hword⟩
    · rw [hold, space_entry hlo hv] at hp ⊢
      apply h.entry v hlo hv hp
    · obtain ⟨perm, hperm, rfl⟩ := hwords v w hmem
      exfalso
      apply hp
      rw [hword]
      apply mapWord_present (hk.range.free_bounds hg).1 hperm
  · intro x hx hfree hstack
    rw [← h.mem x hx hfree hstack]
    have hframe (g : Nat) (hg : g ∈ s.free) : x - x % 4096 ≠ g := by
      rintro rfl
      apply hfree _ hg
      omega
    apply hb.frame (x - x % 4096) (by omega)
    · apply hframe d (h.owned (.dir d) d ⟨hd, rfl⟩ rfl)
    · intro i hi hi' ht
      apply hframe _ _ rfl
      apply h.owned (.table d i) _ ⟨hd, hi, hi', ht⟩ rfl
    · intro hin
      apply hframe _ (h.free _ hin) rfl
    · omega
    · omega

/-! ### Writing through the directory -/

/-- What is written inside a page of user addresses goes to the page, or to the first page of
memory. -/
theorem target {a n : Nat} (huser : memoryTaskBase ≤ a) (hlt : a < 2 ^ 32)
    (hpage : a % 4096 + n ≤ 4096) :
  k.memoryGetPaddr d a + n ≤ memoryTaskBase
    ∧ (k.memoryGetPaddr d a = 0 ∨ k.memoryGetPaddr d a % 4096 = a % 4096)
    ∧ ∀ j < n, k.Harmless d stack (k.memoryGetPaddr d a + j)
      ∧ ¬ (memPageSize ≤ k.memoryGetPaddr d a + j ∧ k.memoryGetPaddr d a + j < memExtStart)
  := by
  have hk := h.hasStack hs
  have hd := Set.mem_insert d live
  have hbase := huser
  unfold memoryTaskBase at hbase
  by_cases hpresent : Present (pteAt k.mem d (a / 4096))
  · have hown : Owns 512 k.mem (insert d live) (.page d (a / 4096)) (frameAt k.mem d (a / 4096)) :=
      ⟨hd, by omega, by omega, hpresent, rfl⟩
    have hbounds := hk.range.marked_bounds (hk.exclusive.used_of_owns hown)
    have hphys : k.physAt d a 0 = frameAt k.mem d (a / 4096) + a % 4096 := rfl
    rw [memoryGetPaddr_of_present hk.toFrames hd huser hlt hpresent, hphys]
    refine ⟨by omega, by omega, ?_⟩
    intro j hj
    constructor
    · left
      exact ⟨a / 4096, by omega, by omega, hpresent, by omega, by omega⟩
    · omega
  · have hzero := h.entry (a / 4096) (by omega) (by omega) hpresent
    have hlow : k.memoryGetPaddr d a + n ≤ 4096 := by
      rcases memoryGetPaddr_of_entry_zero hzero with hnone | hoffset
      · omega
      · omega
    have hbasePos := hk.base_pos
    have hoffset := memoryGetPaddr_of_entry_zero hzero
    unfold memPageSize at hbasePos
    refine ⟨by unfold memoryTaskBase; omega, by omega, ?_⟩
    intro j hj
    constructor
    · right
      right
      unfold memExtStart
      omega
    · unfold memPageSize
      omega

/-- Bytes written inside a page of user addresses. -/
theorem write_page {a n : Nat} {m : Memory} (huser : memoryTaskBase ≤ a) (hlt : a < 2 ^ 32)
    (hpage : a % 4096 + n ≤ 4096)
    (hm : ∀ x, ¬ (k.memoryGetPaddr d a ≤ x ∧ x < k.memoryGetPaddr d a + n) → m x = k.mem x) :
  Prepares s live d stack (k.setMem m) ∧ SameEntries k (k.setMem m) d ∧ LowKept k (k.setMem m)
  := by
  obtain ⟨-, -, htarget⟩ := h.target hs huser hlt hpage
  have hwritten (x : Nat) (hx : m x ≠ k.mem x) :
      k.Harmless d stack x ∧ ¬ (memPageSize ≤ x ∧ x < memExtStart) := by
    have hin := not_imp_comm.mp (hm x) hx
    have hbyte := htarget (x - k.memoryGetPaddr d a) (by omega)
    rwa [Nat.add_sub_cancel' hin.1] at hbyte
  obtain ⟨hprepares, hentries⟩ := h.write hs fun x hx => not_imp_comm.mp (hwritten x · |>.1) hx
  refine ⟨hprepares, hentries, ?_⟩
  intro x hx hx'
  by_contra hne
  exact (hwritten x hne).2 ⟨hx, hx'⟩

/-- A read of the file to a page of user addresses. -/
theorem read {a n : Nat} (huser : memoryTaskBase ≤ a) (hlt : a < 2 ^ 32)
    (hpage : a % 4096 + n ≤ 4096)
    (hread : k.sysRead f tty tempFileId (k.memoryGetPaddr d a) n = .ok (r, t, f')) :
  Prepares s live d stack t ∧ LowKept k t ∧ r = n ∧ f'.tempAddr = f.tempAddr
  := by
  obtain ⟨hend, -, -⟩ := h.target hs huser hlt hpage
  rcases sysRead_cases k f tty hend with ⟨t', herror⟩ | ⟨m, hok, hm⟩
  · rw [herror] at hread
    cases hread
  · rw [hok] at hread
    cases hread
    obtain ⟨hprepares, -, hlow⟩ := h.write_page hs huser hlt hpage hm
    exact ⟨hprepares, hlow, rfl, rfl⟩

end Step

/-! ### Loading a segment -/

/-- Mapping a range of user addresses leaves the kernel stack and the memory below the frames
alone. -/
theorem alloc {vaddr size perm : Nat} (h : Prepares s live d stack k)
    (hs : s.HasStack live stack) (hperm : perm < 4096) (huser : memoryTaskBase ≤ vaddr)
    (hlt : vaddr < 2 ^ 32) (hend : vaddr + size ≤ 2 ^ 32) :
  Prepares s live d stack (k.memoryAllocForPageDir d vaddr size perm).2
    ∧ LowKept k (k.memoryAllocForPageDir d vaddr size perm).2
    ∧ SameFrame k.mem (k.memoryAllocForPageDir d vaddr size perm).2.mem stack
  := by
  have hk := h.hasStack hs
  have hd := Set.mem_insert d live
  obtain ⟨q, t, hb, hresult⟩ := memoryAllocForPageDir_spec 512 hk.range hk.toFrames.nodes hd hperm
    huser hlt (fun v hv => (allocPages_user huser hend hlt hv).1)
  rw [hresult]
  refine ⟨h.map hs hb (words_mapsWith hperm), ?_, ?_⟩
  · intro x _ hx
    apply hk.toFrames.low_apart.built hd hb (Nat.zero_le x)
    omega
  · apply hk.reserved.sameFrame hk.toFrames hd hb

/-- A segment that starts with a page, or whose bytes do not reach the end of its first page, is
read page by page. -/
theorem loadPhdr_loop {vaddr size fuel : Nat} (h : Prepares s live d stack k)
    (hs : s.HasStack live stack) (huser : memoryTaskBase ≤ vaddr) (hend : vaddr + size ≤ 2 ^ 32)
    (hpages : vaddr % 4096 = 0 ∨ vaddr % 4096 + size ≤ 4096)
    (hload : loadPhdr.loop k f tty tempFileId d vaddr size fuel = .ok (r, t, f')) :
  Prepares s live d stack t ∧ LowKept k t ∧ f'.tempAddr = f.tempAddr
  := by
  induction fuel generalizing k f vaddr size with
  | zero =>
      cases hload
      exact ⟨h, fun _ _ _ => rfl, rfl⟩
  | succ fuel ih =>
      rw [loadPhdr.loop] at hload
      by_cases hzero : size = 0
      · rw [if_pos hzero] at hload
        cases hload
        exact ⟨h, fun _ _ _ => rfl, rfl⟩
      · rw [if_neg hzero] at hload
        obtain ⟨c, hc, hpos, hcn, hpage⟩ : ∃ c, (if memPageSize < size then memPageSize else size) = c
            ∧ 0 < c ∧ c ≤ size ∧ (c = 4096 ∨ c = size ∧ c ≤ 4096) := by
          refine ⟨_, rfl, ?_⟩
          unfold memPageSize
          split_ifs <;> omega
        rw [hc] at hload
        dsimp only at hload
        split at hload
        · cases hload
        next cnt k₁ f₁ hread =>
          obtain ⟨h₁, hlow, rfl, htemp⟩ := h.read hs huser (by omega) (by omega) hread
          rw [if_neg (lt_irrefl _)] at hload
          by_cases hlast : size - c = 0
          · -- nothing is left, and the next address may be past the last one
            rw [hlast] at hload
            have hdone : loadPhdr.loop k₁ f₁ tty tempFileId d (u32 (vaddr + c)) 0 fuel
                = .ok (0, k₁, f₁) := by
              cases fuel with
              | zero => rfl
              | succ fuel => rw [loadPhdr.loop, if_pos rfl]
            rw [hdone] at hload
            cases hload
            exact ⟨h₁, hlow, htemp⟩
          · rw [u32_of_lt (by omega)] at hload
            obtain ⟨h₂, hlow', htemp'⟩ := ih h₁ (by omega) (by omega) (by omega) hload
            exact ⟨h₂, hlow.trans hlow', htemp'.trans htemp⟩

end Prepares

/-- The segment of a header does not pass the end of addresses, and its bytes are read page by
page. -/
structure SegmentInside (s : Kernel) (phdr : Nat) : Prop where
  pages : s.pVaddr phdr % 4096 = 0 ∨ s.pVaddr phdr % 4096 + s.pFilesz phdr ≤ 4096
  file_end : s.pVaddr phdr + s.pFilesz phdr ≤ 2 ^ 32
  mem_end : s.segmentEnd phdr ≤ 2 ^ 32

namespace Prepares

/-- Loading the segment of a header on the kernel stack. -/
theorem loadPhdr {phdr : Nat} (h : Prepares s live d stack k) (hs : s.HasStack live stack)
    (hphdr : stack ≤ phdr) (hphdr' : phdr + sizeofElf32Phdr ≤ stack + memPageSize)
    (huser : memoryTaskBase ≤ k.pVaddr phdr) (hinside : k.SegmentInside phdr)
    (hload : k.loadPhdr f tty tempFileId phdr d = .ok (r, t, f')) :
  Prepares s live d stack t ∧ LowKept k t ∧ f'.tempAddr = f.tempAddr
  := by
  unfold sizeofElf32Phdr memPageSize at hphdr'
  have hlt : k.pVaddr phdr < 2 ^ 32 := load32_lt _ _
  obtain ⟨h₁, hlow, hstack⟩ := h.alloc hs (show pteP ||| pteU ||| pteW < 4096 by decide) huser hlt
    hinside.mem_end
  rw [Kernel.loadPhdr] at hload
  generalize k.memoryAllocForPageDir d (k.pVaddr phdr) (k.pMemsz phdr) (pteP ||| pteU ||| pteW) = p
    at hload h₁ hlow hstack
  obtain ⟨err, k₁⟩ := p
  dsimp only at hload h₁ hlow hstack
  by_cases hneg : asInt err < 0
  · rw [if_pos hneg] at hload
    cases hload
    exact ⟨h₁, hlow, rfl⟩
  · rw [if_neg hneg, sysLseek, if_pos rfl] at hload
    dsimp only at hload
    rw [if_neg (by decide)] at hload
    -- the header is read again, and has not changed
    obtain ⟨-, -, hvaddr, hfilesz, -⟩ := phdr_of_bytes (s := k₁) (t := k) (p := phdr) (q := phdr)
      (fun j hj => hstack (phdr + j) (by omega) (by omega))
    rw [hvaddr, hfilesz] at hload
    obtain ⟨h₂, hlow', htemp⟩ :=
      h₁.loadPhdr_loop hs huser hinside.file_end hinside.pages hload
    exact ⟨h₂, hlow.trans hlow', htemp⟩

/-! ### Copying data -/

/-- Data copied to user addresses. -/
theorem copyData_loop {dest src size fuel : Nat} (h : Prepares s live d stack k)
    (hs : s.HasStack live stack) (huser : memoryTaskBase ≤ dest) (hend : dest + size ≤ 2 ^ 32)
    (hcopy : memoryCopyUvmData.loop k dest d src size fuel = .ok (r, t)) :
  Prepares s live d stack t ∧ SameEntries k t d
  := by
  induction fuel generalizing k dest src size with
  | zero =>
      cases hcopy
      exact ⟨h, fun _ _ _ => rfl⟩
  | succ fuel ih =>
      rw [memoryCopyUvmData.loop] at hcopy
      by_cases hzero : size = 0
      · rw [if_pos hzero] at hcopy
        cases hcopy
        exact ⟨h, fun _ _ _ => rfl⟩
      · rw [if_neg hzero] at hcopy
        dsimp only at hcopy
        by_cases hnone : k.memoryGetPaddr d dest = 0
        · rw [if_pos hnone] at hcopy
          cases hcopy
          exact ⟨h, fun _ _ _ => rfl⟩
        · have hoffset : k.memoryGetPaddr d dest &&& (memPageSize - 1) = dest % 4096 := by
            have hmask : k.memoryGetPaddr d dest &&& (memPageSize - 1)
                = k.memoryGetPaddr d dest % 4096 := Nat.and_two_pow_sub_one_eq_mod _ 12
            rw [hmask]
            exact (h.target hs (n := 0) huser (by omega) (by omega)).2.1.resolve_left hnone
          obtain ⟨c, hc, hpos, hcn, hpage⟩ : ∃ c,
              (if size < memPageSize - dest % 4096 then size else memPageSize - dest % 4096) = c
                ∧ 0 < c ∧ c ≤ size ∧ dest % 4096 + c ≤ 4096 := by
            refine ⟨_, rfl, ?_⟩
            unfold memPageSize
            split_ifs <;> omega
          rw [if_neg hnone, hoffset, hc] at hcopy
          obtain ⟨m, hm, hsame⟩ := kMemcpy_writes (s := k) src
            (h.target hs huser (by omega) hpage).1
          obtain ⟨h₁, hentries, -⟩ := h.write_page hs huser (by omega) hpage hsame
          generalize k.kMemcpy (k.memoryGetPaddr d dest) src c = p at hcopy hm
          obtain ⟨_ | n, k₁⟩ := p
          · obtain rfl : k₁ = k.setMem m := hm
            have hrest : memoryCopyUvmData.loop (k.setMem m) (u32 (dest + c)) d (u32 (src + c))
                (size - c) fuel = .ok (r, t) := hcopy
            by_cases hlast : size - c = 0
            · rw [hlast, Window.copyData_loop_zero] at hrest
              cases hrest
              exact ⟨h₁, hentries⟩
            · rw [u32_of_lt (show dest + c < 2 ^ 32 by omega)] at hrest
              obtain ⟨h₂, hentries'⟩ := ih h₁ (by omega) (by omega) hrest
              exact ⟨h₂, fun v hlo hv => (hentries' v hlo hv).trans (hentries v hlo hv)⟩
          · cases hcopy

end Prepares

end Kernel

end Dmos
