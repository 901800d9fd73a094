import Dmos.Task.Segment

/-!
# Loaded segments

A segment that starts at a page, has no more bytes than memory and finds frames for its pages
is loaded (`SegmentLoaded`): its bytes are read from the buffer of the file to the frames behind
its addresses.
-/

open ByteMemory AddressSpace

namespace Dmos

namespace Kernel

variable {s t : Kernel} {live : Set Nat} {d : Nat} {f : TempFile} (tty : Tty)

/-! ### The bytes of a segment -/

/-- The loop of `loadPhdr` puts the next bytes of the file behind a window whose bytes follow the
first one of each read. -/
theorem Window.loadPhdr_loop {lo span k n fuel : Nat} {m : Memory} (hw : Window s d lo span)
    (hbounds : ∀ v, InWindow lo span v → memExtStart ≤ frameAt s.mem d v)
    (hm : s.Agrees d lo span m) (hn : k + n ≤ span)
    (hfollow : ∀ j < n, s.physAt d lo (k + j) = s.physAt d lo (k + j / 4096 * 4096) + j % 4096)
    (hpos : f.tempPos ≠ 0) (hread : f.tempPos + n ≤ memExtStart) (hfuel : n ≤ fuel) :
  ∃ m', loadPhdr.loop (s.setMem m) f tty tempFileId d (u32 (lo + k)) n fuel
      = .ok (0, s.setMem m', { f with tempPos := f.tempPos + n })
    ∧ s.Agrees d lo span m'
    ∧ ∀ l < span, s.view d lo m' l = put (s.view d lo m) k n (fun j => s.mem (f.tempPos + j)) l
  := by
  unfold memExtStart at hread
  induction fuel generalizing m k n f with
  | zero =>
      obtain rfl : n = 0 := by omega
      exact ⟨m, rfl, hm, fun l _ => by rw [put_zero]⟩
  | succ fuel ih =>
      rw [loadPhdr.loop]
      by_cases hzero : n = 0
      · rw [if_pos hzero, hzero]
        exact ⟨m, rfl, hm, fun l _ => by rw [put_zero]⟩
      · have hlo := hw.end_le
        rw [if_neg hzero, u32_of_lt (by omega), hw.memoryGetPaddr_eq hm (by omega)]
        dsimp only
        -- a page, or what is left
        obtain ⟨c, hc, hcpos, hcn, hcpage⟩ : ∃ c, (if memPageSize < n then memPageSize else n) = c
            ∧ 0 < c ∧ c ≤ n ∧ (c = 4096 ∨ c = n ∧ c ≤ 4096) := by
          refine ⟨_, rfl, ?_⟩
          unfold memPageSize
          split_ifs <;> omega
        rw [hc]
        have hbytes : ∀ m', s.Agrees d lo span m' →
            ∀ j < c, (s.setMem m').readByte (f.tempPos + j) = some (s.mem (f.tempPos + j)) := by
          intro m' hm' j hj
          rw [readByte, kernelAddr, if_pos (by unfold memoryTaskBase; omega), Option.map_some,
            setMem_mem, hm']
          rintro ⟨v, hv, hle, -⟩
          have hlow := hbounds v hv
          unfold memExtStart at hlow
          omega
        have hchunk (j : Nat) (hj : j < c) : s.physAt d lo (k + j) = s.physAt d lo k + j := by
          rw [hfollow j (by omega), show j / 4096 * 4096 = 0 by omega, Nat.mod_eq_of_lt (by omega)]
          rfl
        have hcopy := hw.toTarget.copyChunk hm (k := k) (by omega) hchunk hcpos hpos (by omega) hbytes
        have hagrees : s.Agrees d lo span
            (put m (s.physAt d lo k) c fun j => s.mem (f.tempPos + j)) :=
          agrees_put hm _ (by omega) hchunk
        have hok : (s.setMem m).sysRead f tty tempFileId (s.physAt d lo k) c
            = .ok (c, s.setMem (put m (s.physAt d lo k) c fun j => s.mem (f.tempPos + j)),
              { f with tempPos := f.tempPos + c }) := by
          rw [sysRead, if_pos rfl, hcopy, u32_of_lt (show f.tempPos + c < 2 ^ 32 by omega)]
          rfl
        rw [hok]
        dsimp only
        rw [if_neg (lt_irrefl _)]
        have hview (l : Nat) (hl : l < span) :
            s.view d lo (put m (s.physAt d lo k) c fun j => s.mem (f.tempPos + j)) l
              = put (s.view d lo m) k c (fun j => s.mem (f.tempPos + j)) l :=
          hw.toTarget.view_put _ (by omega) hchunk hl
        rcases hcn.eq_or_lt with rfl | hlt
        · refine ⟨_, ?_, hagrees, hview⟩
          rw [Nat.sub_self]
          cases fuel with
          | zero => rfl
          | succ fuel => rw [loadPhdr.loop, if_pos rfl]
        · have hrest (j : Nat) (hj : j < n - c) : s.physAt d lo (k + c + j)
              = s.physAt d lo (k + c + j / 4096 * 4096) + j % 4096 := by
            rw [Nat.add_assoc, Nat.add_assoc, hfollow _ (by omega),
              show (c + j) / 4096 * 4096 = c + j / 4096 * 4096 by omega,
              show (c + j) % 4096 = j % 4096 by omega]
          obtain ⟨m', hloop, hm', hview'⟩ := ih (f := { f with tempPos := f.tempPos + c })
            hagrees (k := k + c) (n := n - c) (by omega) hrest
            (show f.tempPos + c ≠ 0 by omega) (show f.tempPos + c + (n - c) ≤ 1048576 by omega)
            (by omega)
          refine ⟨m', ?_, hm', ?_⟩
          · rw [Nat.add_assoc lo, hloop, Nat.add_assoc, Nat.add_sub_cancel' hcn]
          · intro l hl
            have hput := put_put (s.view d lo m) k c (n - c) fun j => s.mem (f.tempPos + j)
            rw [Nat.add_sub_cancel' hcn] at hput
            rw [hview' l hl, ← hput]
            by_cases hin : k + c ≤ l ∧ l < k + c + (n - c)
            · rw [put, put, if_pos hin, if_pos hin, Nat.add_assoc f.tempPos]
            · rw [put_outside _ _ (by omega), put_outside _ _ (by omega), hview l hl]

/-- A segment has been loaded: the bytes `b` are at its addresses, and other pages, and memory
that is no frame of the directories, are as they were. -/
structure SegmentLoaded (s t : Kernel) (live : Set Nat) (d vaddr memsz filesz : Nat)
    (b : Nat → UInt8) : Prop where
  frames : Frames t live
  layout : t.layout = s.layout
  free : s.free.length ≤ t.free.length + 2 * (allocPages vaddr memsz).length
  apart : ∀ a n, s.Apart live a n →
    t.Apart live a n ∧ ∀ x, a ≤ x → x < a + n → t.mem x = s.mem x
  others : ∀ v, 512 ≤ v / 1024 → v < 2 ^ 20 → v ∉ allocPages vaddr memsz →
    pteAt t.mem d v = pteAt s.mem d v
  bytes : ∀ k < filesz,
    Present (pteAt t.mem d ((vaddr + k) / 4096)) ∧ t.mem (t.physAt d vaddr k) = b k

section Loaded

variable {vaddr memsz : Nat}
  (hb : Built 512 live s t d (mapsWith (pteP ||| pteU ||| pteW) (allocPages vaddr memsz)) none)
  (hf : Frames s live) (hd : d ∈ live) (haligned : vaddr % 4096 = 0)
  (huser : memoryTaskBase ≤ vaddr) (hend : vaddr + memsz ≤ 2 ^ 32)

include hb hf hd haligned huser hend

/-- The pages of an aligned segment make a window. -/
theorem Built.window :
  Window t d vaddr memsz
  := by
  apply (hf.built hd hb).window hd huser hend
  rintro v ⟨hle, hlt⟩
  have hdelivered := hb.delivered hf (by decide) huser (by omega) hend (by
    rw [up2_eq huser hend]
    omega)
  have hpresent := hdelivered.present (v * 4096) (by omega) hlt
  rwa [Nat.mul_div_cancel _ (by decide)] at hpresent

/-- What is written through the window of a segment is written to its pages. -/
theorem Built.loaded {m : Memory} {filesz : Nat} {b : Nat → UInt8}
    (hm : t.Agrees d vaddr memsz m) (hsize : filesz ≤ memsz)
    (hview : ∀ k < filesz, t.view d vaddr m k = b k) :
  SegmentLoaded s (t.setMem m) live d vaddr memsz filesz b
  := by
  have hf' := hf.built hd hb
  have hw := hb.window hf hd haligned huser hend
  have hbase := huser
  unfold memoryTaskBase at hbase
  have hpages : t.PagesOnly d m := by
    intro x hx
    apply hm
    rintro ⟨v, hv, hle, hlt⟩
    apply hx
    have hv' := hv.2
    have hv'' := hv.1
    exact ⟨v, by omega, by omega, hw.present v hv, hle, hlt⟩
  constructor
  · apply hpages.frames hf' hd
  · apply hb.layout
  · have hlength := (s.space 512 d).mapAll_free_length tableIndex
      (mapsWith (pteP ||| pteU ||| pteW) (allocPages vaddr memsz))
    rw [hb.space, mapsWith, List.length_map] at hlength
    apply hlength
  · intro a n ha
    have ha' := ha.of_built hf hd (by decide) hb
    constructor
    · apply ha'.of_setMem
      · intro e he i hi
        apply hpages.tableAt_eq hf' hd he hi
      · intro e he v hlo hv
        apply hpages.pteAt_eq hf' hd he hlo hv
    · intro x hx hx'
      rw [setMem_mem, hpages x (ha'.not_inPages hd hx hx'), ha.built hd hb hx hx']
  · intro v hlo hv hmem
    rw [setMem_mem, hpages.pteAt_eq hf' hd hd hlo hv]
    apply hb.pteAt_of_not_mem hlo hv
    rwa [mapsWith_fst]
  · intro k hk
    have hin : InWindow vaddr memsz ((vaddr + k) / 4096) := Window.inWindow vaddr (by omega)
    have hentry : pteAt m d ((vaddr + k) / 4096) = pteAt t.mem d ((vaddr + k) / 4096) :=
      hw.pteAt_eq hm hin
    constructor
    · rw [setMem_mem, hentry]
      apply hw.present _ hin
    · rw [← hview k hk, physAt, frameAt, setMem_mem, hentry]
      rfl

end Loaded

/-- With frames for all of its pages and tables, an aligned segment whose bytes are in the buffer
is loaded. -/
theorem loadPhdr_loaded {phdr : Nat} (hf : Frames s live) (hd : d ∈ live)
    (hphdr : s.Apart live phdr 32) (haligned : s.pVaddr phdr % 4096 = 0)
    (huser : memoryTaskBase ≤ s.pVaddr phdr) (hend : s.pVaddr phdr + s.pMemsz phdr ≤ 2 ^ 32)
    (hsize : s.pFilesz phdr ≤ s.pMemsz phdr)
    (hread : f.tempAddr + s.pOffset phdr + s.pFilesz phdr ≤ memExtStart)
    (hframes : 2 * (allocPages (s.pVaddr phdr) (s.pMemsz phdr)).length ≤ s.free.length) :
  ∃ t pos, s.loadPhdr f tty tempFileId phdr d = .ok (0, t, { f with tempPos := pos })
    ∧ SegmentLoaded s t live d (s.pVaddr phdr) (s.pMemsz phdr) (s.pFilesz phdr)
        fun k => s.mem (f.tempAddr + s.pOffset phdr + k)
  := by
  obtain ⟨r, t, hb, -, hcase⟩ := loadPhdr_cases hf hd hphdr huser
    (mapsUserPages_of_end_le huser (load32_lt _ _) hend) f tty tempFileId
  obtain rfl : r = none := by
    have hserved : ((s.space 512 d).mapAll tableIndex
        (mapsWith (pteP ||| pteU ||| pteW) (allocPages (s.pVaddr phdr) (s.pMemsz phdr)))).1
          = none := by
      apply Space.mapAll_of_free_length
      rw [mapsWith, List.length_map]
      apply hframes
    rwa [hb.space] at hserved
  rcases hcase with ⟨hnone, -⟩ | ⟨-, hfile, -⟩ | ⟨-, -, -, hload⟩
  · cases hnone
  · cases hfile rfl
  · have hw := hb.window hf hd haligned huser hend
    have hf' := hf.built hd hb
    have hstart := f.tempAddr_pos
    have hpos : u32 (f.tempAddr + s.pOffset phdr) = f.tempAddr + s.pOffset phdr := by
      apply u32_of_lt
      unfold memExtStart at hread
      omega
    have hbounds : ∀ v, InWindow (s.pVaddr phdr) (s.pMemsz phdr) v →
        memExtStart ≤ frameAt t.mem d v := by
      intro v hv
      have hv' := hv.2
      have hv'' := hv.1
      unfold memoryTaskBase at huser
      have hmarked := hf'.marked_page hd (by omega) (by omega) (hw.present v hv)
      apply (hf'.range.marked_bounds hmarked).2.1
    obtain ⟨m, hloop, hm, hview⟩ := hw.loadPhdr_loop tty
      (f := { f with tempPos := f.tempAddr + s.pOffset phdr }) hbounds
      (fun _ _ => rfl) (k := 0) (show 0 + s.pFilesz phdr ≤ _ by omega)
      (by
        intro j hj
        have hadd : t.physAt d (s.pVaddr phdr) (j / 4096 * 4096 + j % 4096)
            = t.physAt d (s.pVaddr phdr) (j / 4096 * 4096) + j % 4096 := by
          apply Window.physAt_add
          omega
        rw [Nat.zero_add, Nat.zero_add, ← hadd, show j / 4096 * 4096 + j % 4096 = j by omega])
      (show f.tempAddr + s.pOffset phdr ≠ 0 by omega) hread (le_refl _)
    refine ⟨t.setMem m, f.tempAddr + s.pOffset phdr + s.pFilesz phdr, ?_, ?_⟩
    · rw [hload, hpos, ← hloop, Nat.add_zero, u32_of_lt (show s.pVaddr phdr < 2 ^ 32 from load32_lt _ _)]
      rfl
    · apply hb.loaded hf hd haligned huser hend hm hsize
      intro k hk
      rw [hview k (by omega), put, if_pos (by omega), Nat.sub_zero]
      apply hf.low_apart.built hd hb
      · omega
      · dsimp only
        omega

end Kernel

end Dmos
