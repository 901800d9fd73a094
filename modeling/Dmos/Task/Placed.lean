import Dmos.Kernel.FreshFrames
import Dmos.Kernel.LowBytes
import Dmos.Task.Loaded

/-!
# Segments at any address

A read of `load_phdr` writes up to a page of bytes from one physical address on.  When a segment
does not start at a page, such a read crosses into the next page of the segment, and the bytes are
in their place only if the frame of that page follows the one of the page before it.
-/

open ByteMemory AddressSpace

namespace Dmos

namespace Kernel

/-! ### One byte that differs -/

/-- The memory `m'` is `m` but for the byte at `x`, which may be `v`. -/
structure Near (m m' : Memory) (x : Nat) (v : UInt8) : Prop where
  same : ∀ y, y ≠ x → m' y = m y
  byte : m' x = m x ∨ m' x = v

section Near

variable {m m' : Memory} {x : Nat} {v : UInt8} (h : Near m m' x v) (hx : x % 4 = 0)
  (hv : v.toNat % 2 = (m x).toNat % 2)

include h hx hv

/-- A byte of the same parity at the start of a word changes neither its lowest bit nor the bits
from the ninth on. -/
theorem Near.load32_eq {a : Nat} (ha : a % 4 = 0) :
  load32 m' a % 2 = load32 m a % 2 ∧ load32 m' a / 256 = load32 m a / 256
  := by
  apply load32_parity hx ha
  · intro y _ _ hy
    exact h.same y hy
  · rcases h.byte with hold | hnew
    · rw [hold]
    · rw [hnew, hv]

theorem Near.tableAt_eq {d : Nat} (hd : d % 4096 = 0) (i : Nat) :
  tableAt m' d i = tableAt m d i
  := by
  obtain ⟨hlow, hhigh⟩ := h.load32_eq hx hv (show (d + 4 * i) % 4 = 0 by omega)
  have hpresent : Present (load32 m' (d + 4 * i)) ↔ Present (load32 m (d + 4 * i)) := by
    rw [present_iff, present_iff, hlow]
  have hframe : pdePaddr (load32 m' (d + 4 * i)) = pdePaddr (load32 m (d + 4 * i)) := by
    rw [pdePaddr_eq, pdePaddr_eq]
    omega
  simp only [tableAt, hpresent, hframe]

theorem Near.presentFrame_eq {d : Nat} (hd : d % 4096 = 0) (w : Nat) :
  presentFrame m' d w = presentFrame m d w
  := by
  have htable := h.tableAt_eq hx hv hd (w / 1024)
  cases ht : tableAt m d (w / 1024) with
  | none =>
      rw [ht] at htable
      rw [presentFrame, presentFrame, frameAt, frameAt, pteAt_of_no_table ht,
        pteAt_of_no_table htable]
  | some t =>
      rw [ht] at htable
      have haligned := tableAt_aligned ht
      obtain ⟨hlow, hhigh⟩ := h.load32_eq hx hv (show (t + 4 * (w % 1024)) % 4 = 0 by omega)
      have hpresent : Present (load32 m' (t + 4 * (w % 1024)))
          ↔ Present (load32 m (t + 4 * (w % 1024))) := by
        rw [present_iff, present_iff, hlow]
      have hframe : ptePaddr (load32 m' (t + 4 * (w % 1024)))
          = ptePaddr (load32 m (t + 4 * (w % 1024))) := by
        rw [ptePaddr_eq, ptePaddr_eq]
        omega
      simp only [presentFrame, frameAt, pteAt_of_table ht, pteAt_of_table htable, hpresent, hframe]

end Near

/-- There are bytes of each parity other than any one byte. -/
theorem exists_parity_ne (c e : UInt8) :
  ∃ v : UInt8, v.toNat % 2 = c.toNat % 2 ∧ e ≠ v
  := by
  by_cases hce : e = c
  · refine ⟨c + 2, ?_, ?_⟩
    · rw [UInt8.toNat_add]
      change (c.toNat + 2) % 256 % 2 = c.toNat % 2
      omega
    · rw [hce]
      intro h
      have hnat := congrArg UInt8.toNat h
      rw [UInt8.toNat_add] at hnat
      change c.toNat = (c.toNat + 2) % 256 at hnat
      omega
  · exact ⟨c, rfl, hce⟩

variable {s t : Kernel} {live : Set Nat} {d : Nat} {f : TempFile} {tty : Tty}

theorem memoryGetPaddr_of_frame {a g : Nat} (h : presentFrame s.mem d (a / 4096) = some g)
    (htable : ∀ t, tableAt s.mem d (a / 4096 / 1024) = some t → t ≠ 0) :
  s.memoryGetPaddr d a = g + a % 4096
  := by
  obtain ⟨hpresent, hframe⟩ := presentFrame_eq_some_iff.mp h
  cases ht : tableAt s.mem d (a / 4096 / 1024) with
  | none =>
      rw [pteAt_of_no_table ht] at hpresent
      cases hpresent
  | some t =>
      have hmask : a &&& (memPageSize - 1) = a % 4096 := Nat.and_two_pow_sub_one_eq_mod _ 12
      have hne := htable t ht
      rw [frameAt, pteAt_of_table ht] at hframe
      rw [memoryGetPaddr, findPte_of_table ht, hmask]
      dsimp only
      rw [if_neg (by omega), load, hframe]

/-! ### The pages of a range -/

/-- When no request fails, the pages of a range have frames that were free. -/
theorem Built.presentFrame_of_mem {perm vaddr size v : Nat}
    (hb : Built 512 live s t d (mapsWith perm (allocPages vaddr size)) none) (hf : Frames s live)
    (hperm : perm < 4096) (hbase : memoryTaskBase ≤ vaddr) (hend : vaddr + size ≤ 2 ^ 32)
    (hv : v ∈ allocPages vaddr size) (hlt : vaddr < 2 ^ 32) :
  ∃ g ∈ s.free, presentFrame t.mem d v = some g
  := by
  have hkeys : ((mapsWith perm (allocPages vaddr size)).map Prod.fst).Nodup := by
    rw [mapsWith_fst]
    apply nodup_allocPages hbase hend hlt
  obtain ⟨frame, hframe, -⟩ :=
    Space.mapAll_entry_of_mapped (free_nodup hf.range) hkeys hb.space
  obtain ⟨hfree, hword⟩ := hframe v (mapWord perm) (List.mem_map_of_mem hv)
  have hrange := (mem_allocPages hbase hend hlt).mp hv
  unfold memoryTaskBase at hbase
  rw [space_entry (by omega) (by omega)] at hword
  have haligned := (hf.range.free_bounds hfree).1
  refine ⟨frame v, hfree, ?_⟩
  rw [presentFrame, frameAt, hword, if_pos (mapWord_present haligned hperm),
    ptePaddr_mapWord haligned hperm]

/-- Bytes below the frames are in no entry. -/
theorem Frames.presentFrame_withBytes (hf : Frames s live) (hd : d ∈ live) {a n : Nat}
    (b : Nat → UInt8) (ha : a + n ≤ memExtStart) {v : Nat} (hlo : 512 ≤ v / 1024)
    (hv : v < 2 ^ 20) :
  presentFrame (s.withBytes a n b).mem d v = presentFrame s.mem d v
  := by
  have hdir := hf.dir_ge hd
  have htable : tableAt (put s.mem a n b) d (v / 1024) = tableAt s.mem d (v / 1024) :=
    tableAt_put b (by omega)
  have hentry : pteAt (put s.mem a n b) d v = pteAt s.mem d v := by
    cases ht : tableAt s.mem d (v / 1024) with
    | none => rw [pteAt_of_no_table ht, pteAt_of_no_table (htable.trans ht)]
    | some t =>
        have hlow := hf.table_ge hd hlo (by omega) ht
        rw [pteAt_of_table ht, pteAt_of_table (htable.trans ht), load32_put_of_disjoint _ _ (by omega)]
  rw [withBytes_mem, presentFrame, presentFrame, frameAt, frameAt, hentry]

/-! ### Where the bytes go -/

/-- Where the loop of `loadPhdr` writes byte `k`: behind the first byte of its read. -/
def landing (s : Kernel) (d vaddr k : Nat) : Nat :=
  s.physAt d vaddr (k / 4096 * 4096) + k % 4096

/-- The first bytes of reads behind which a page of the kernel's memory can be written. -/
def Starts (s : Kernel) (d vaddr n : Nat) : Prop :=
  ∀ k < n, k % 4096 = 0 → ∃ g, presentFrame s.mem d ((vaddr + k) / 4096) = some g ∧
    memExtStart ≤ g ∧ g + 8192 ≤ memoryTaskBase ∧
    ∀ t, tableAt s.mem d ((vaddr + k) / 4096 / 1024) = some t → t ≠ 0

section Stray

variable {m : Memory} {x a vaddr size : Nat} {v : UInt8} (hx : x % 4096 = 0)
  (hlow : memExtStart ≤ x) (hv : v.toNat % 2 = (s.mem x).toNat % 2) (hd : d % 4096 = 0)
  (hstarts : s.Starts d vaddr size) (hend : vaddr + size ≤ 2 ^ 32) (ha : 0 < a)
  (hread : a + size ≤ memExtStart)
  (hsource : ∀ j < size, s.mem (a + j) = store8 s.mem x v (s.landing d vaddr j))

include hx hlow hv hd hstarts hend ha hread hsource

omit hend in
/-- One read, of bytes that are those of the memory they land on but for the byte at `x`. -/
theorem sysRead_near {k c : Nat} (hm : Near s.mem m x v) (hk : k % 4096 = 0)
    (hpos : f.tempPos = a + k) (hc : 0 < c) (hpage : c ≤ 4096) (hle : k + c ≤ size) :
  ∃ m', (s.setMem m).sysRead f tty tempFileId ((s.setMem m).memoryGetPaddr d (vaddr + k)) c
      = .ok (c, s.setMem m', { f with tempPos := a + (k + c) }) ∧ Near s.mem m' x v
  := by
  obtain ⟨g, hg, hbounds, hbounds', htable⟩ := hstarts k (by omega) hk
  unfold memExtStart at hread hlow hbounds
  unfold memoryTaskBase at hbounds'
  have hframe := (presentFrame_eq_some_iff.mp hg).2
  have hstart : s.physAt d vaddr k = g + (vaddr + k) % 4096 := by
    rw [physAt, hframe]
  have hphys : (s.setMem m).memoryGetPaddr d (vaddr + k) = s.physAt d vaddr k := by
    rw [hstart]
    apply memoryGetPaddr_of_frame
    · rw [setMem_mem, hm.presentFrame_eq (by omega) hv hd]
      exact hg
    · intro t ht
      rw [setMem_mem, hm.tableAt_eq (by omega) hv hd] at ht
      exact htable t ht
  have hlanding (j : Nat) (hj : j < c) : s.landing d vaddr (k + j) = s.physAt d vaddr k + j := by
    rw [landing, show (k + j) / 4096 * 4096 = k by omega, show (k + j) % 4096 = j by omega]
  have hcopy : (s.setMem m).kMemcpy (s.physAt d vaddr k) f.tempPos c
      = (0, s.setMem (put m (s.physAt d vaddr k) c
          fun j => store8 s.mem x v (s.physAt d vaddr k + j))) := by
    apply kMemcpy_put
    · unfold memoryTaskBase
      omega
    · omega
    · omega
    · omega
    · intro m₁ hm₁ j hj
      rw [readByte, kernelAddr, if_pos (by unfold memoryTaskBase; omega), Option.map_some]
      change some (m₁ (f.tempPos + j)) = _
      rw [hm₁ _ (by omega), setMem_mem, hm.same _ (by omega), ← hlanding j hj, hpos,
        Nat.add_assoc, hsource _ (by omega)]
  refine ⟨put m (s.physAt d vaddr k) c fun j => store8 s.mem x v (s.physAt d vaddr k + j), ?_, ?_⟩
  · rw [sysRead, if_pos rfl, hphys, hcopy, hpos, u32_of_lt (by omega), Nat.add_assoc]
    rfl
  · constructor
    · intro y hy
      by_cases hin : s.physAt d vaddr k ≤ y ∧ y < s.physAt d vaddr k + c
      · rw [put, if_pos hin, Nat.add_sub_cancel' hin.1, store8_of_ne _ _ hy]
      · rw [put, if_neg hin, hm.same y hy]
    · by_cases hin : s.physAt d vaddr k ≤ x ∧ x < s.physAt d vaddr k + c
      · rw [put, if_pos hin, Nat.add_sub_cancel' hin.1, store8_same]
        exact .inr rfl
      · rw [put, if_neg hin]
        exact hm.byte

/-- All reads of a segment. -/
theorem loadPhdr_loop_near {k n fuel : Nat} (hm : Near s.mem m x v) (hn : k + n = size)
    (hk : k % 4096 = 0) (hpos : f.tempPos = a + k) (hfuel : n ≤ fuel) :
  ∃ m' f', loadPhdr.loop (s.setMem m) f tty tempFileId d (u32 (vaddr + k)) n fuel
      = .ok (0, s.setMem m', f') ∧ Near s.mem m' x v
  := by
  induction fuel generalizing m k n f with
  | zero =>
      obtain rfl : n = 0 := by omega
      exact ⟨m, f, rfl, hm⟩
  | succ fuel ih =>
      rw [loadPhdr.loop]
      by_cases hzero : n = 0
      · rw [if_pos hzero]
        exact ⟨m, f, rfl, hm⟩
      · obtain ⟨c, hc, hcpos, hcn, hcpage⟩ : ∃ c, (if memPageSize < n then memPageSize else n) = c
            ∧ 0 < c ∧ c ≤ n ∧ (c = 4096 ∨ c = n ∧ c ≤ 4096) := by
          refine ⟨_, rfl, ?_⟩
          unfold memPageSize
          split_ifs <;> omega
        obtain ⟨m₁, hok, hm₁⟩ := sysRead_near hx hlow hv hd hstarts ha hread hsource hm
          hk hpos hcpos (by omega) (by omega)
        rw [if_neg hzero, hc, u32_of_lt (by omega)]
        dsimp only
        rw [hok]
        dsimp only
        rw [if_neg (lt_irrefl _)]
        rcases hcn.eq_or_lt with rfl | hlt
        · have hdone : loadPhdr.loop (s.setMem m₁) { f with tempPos := a + (k + c) } tty tempFileId d
              (u32 (vaddr + k + c)) (c - c) fuel
              = .ok (0, s.setMem m₁, { f with tempPos := a + (k + c) }) := by
            rw [Nat.sub_self]
            cases fuel with
            | zero => rfl
            | succ fuel => rw [loadPhdr.loop, if_pos rfl]
          exact ⟨m₁, _, hdone, hm₁⟩
        · obtain ⟨m', f', hloop, hm'⟩ := ih (f := { f with tempPos := a + (k + c) }) hm₁
            (k := k + c) (n := n - c) (by omega) (by omega) rfl (by omega)
          refine ⟨m', f', ?_, hm'⟩
          rw [Nat.add_assoc, hloop]

/-- No byte `v` gets to a place other than `x`. -/
theorem loadPhdr_loop_strays {k : Nat} (hk : k < size)
    (huser : memoryTaskBase ≤ vaddr) (haligned : (vaddr + k) % 4096 = 0)
    (hne : ∀ g, presentFrame s.mem d ((vaddr + k) / 4096) = some g → g ≠ x ∧ s.mem g ≠ v)
    (hpos : f.tempPos = a) :
  ∃ t f', loadPhdr.loop s f tty tempFileId d vaddr size size = .ok (0, t, f') ∧
    (t.mmuSetPageDir d).readByte (vaddr + k) ≠ some v
  := by
  have hstart : Near s.mem s.mem x v := ⟨fun _ _ => rfl, .inl rfl⟩
  obtain ⟨m', f', hloop, hm'⟩ := loadPhdr_loop_near (f := f) hx hlow hv hd hstarts
    hend ha hread hsource hstart (k := 0) (Nat.zero_add size) rfl hpos (le_refl size)
  rw [Nat.add_zero, u32_of_lt (by omega)] at hloop
  refine ⟨s.setMem m', f', hloop, ?_⟩
  rw [readByte_user hd (by omega), setMem_mem, hm'.presentFrame_eq (by omega) hv hd, haligned]
  cases hg : presentFrame s.mem d ((vaddr + k) / 4096) with
  | none => nofun
  | some g =>
      obtain ⟨hgx, hgv⟩ := hne g hg
      rw [Option.map_some, Nat.add_zero, hm'.same g hgx]
      intro heq
      exact hgv (Option.some.inj heq)

end Stray

/-! ### Segments -/

/-- The segment is loaded, and the directory shows the bytes of the file at its addresses. -/
def SegmentPlaced (s : Kernel) (f : TempFile) (tty : Tty) (phdr d : Nat) : Prop :=
  ∃ t f', s.loadPhdr f tty tempFileId phdr d = .ok (0, t, f') ∧
    ∀ k < s.pFilesz phdr, (t.mmuSetPageDir d).readByte (s.pVaddr phdr + k)
      = some (s.mem (f.tempAddr + s.pOffset phdr + k))

/-- Where a read crosses into the next page, the frame of that page follows that of the page
before it. -/
def FramesFollow (s : Kernel) (d vaddr filesz memsz : Nat) : Prop :=
  ∀ k < filesz, 4096 ≤ vaddr % 4096 + k % 4096 →
    ∃ g, s.frameFor d vaddr memsz (k / 4096) = some g ∧
      s.frameFor d vaddr memsz (k / 4096 + 1) = some (g + 4096)

section Mapped

variable {a vaddr filesz memsz : Nat}
  (hb : Built 512 live s t d (mapsWith (pteP ||| pteU ||| pteW) (allocPages vaddr memsz)) none)
  (hf : Frames s live) (hd : d ∈ live) (huser : memoryTaskBase ≤ vaddr)
  (hend : vaddr + memsz ≤ 2 ^ 32) (hsize : filesz ≤ memsz) (ha : a + filesz ≤ memExtStart)

include hb hf huser hend hsize in
/-- The pages at which reads start are mapped. -/
theorem frameFor_start {i : Nat} (hi : 4096 * i < filesz) :
  ∃ g ∈ s.free, s.frameFor d vaddr memsz i = some g
  := by
  have hbase := huser
  unfold memoryTaskBase at hbase
  have hmem : vaddr / 4096 + i ∈ allocPages vaddr memsz := by
    rw [mem_allocPages huser hend (by omega)]
    omega
  obtain ⟨g, hg, hpresent⟩ := hb.presentFrame_of_mem hf (by decide) huser hend hmem (by omega)
  use g, hg
  rw [← presentFrame_eq hb hf (by decide) huser hend (by omega)]
  exact hpresent

include hb hf hd huser hend ha in
theorem presentFrame_mapped (b : Nat → UInt8) {i : Nat} (hi : vaddr / 4096 + i < 2 ^ 20) :
  presentFrame (t.withBytes a filesz b).mem d (vaddr / 4096 + i) = s.frameFor d vaddr memsz i
  := by
  have hbase := huser
  unfold memoryTaskBase at hbase
  rw [(hf.built hd hb).presentFrame_withBytes hd b ha (by omega) hi]
  apply presentFrame_eq hb hf (by decide) huser hend hi

include hb hf hd huser hend hsize ha

/-- When the frames follow each other, all bytes get to their places. -/
theorem FramesFollow.loadPhdr_loop (h : s.FramesFollow d vaddr filesz memsz) (b : Nat → UInt8)
    (hbase : a + filesz ≤ s.layout.gKernelPageDir ∨ s.layout.gKernelPageDir + 4096 ≤ a)
    (hpos : f.tempPos = a) (hzero : 0 < a) (hn : 0 < filesz) (tty : Tty) :
  ∃ u f', loadPhdr.loop (t.withBytes a filesz b) f tty tempFileId d vaddr filesz filesz
      = .ok (0, u, f') ∧
    ∀ k < filesz, (u.mmuSetPageDir d).readByte (vaddr + k) = some (b k)
  := by
  have hlow := huser
  unfold memoryTaskBase at hlow
  have hT : Frames (t.withBytes a filesz b) live := by
    apply (hf.built hd hb).withBytes b ha
    rw [hb.layout]
    exact hbase
  have hframe (i : Nat) (hi : vaddr / 4096 + i < 2 ^ 20) :=
    presentFrame_mapped hb hf hd huser hend ha b hi
  -- every page of the bytes is mapped
  have hpresent : ∀ v, InWindow vaddr filesz v →
      ∃ g, presentFrame (t.withBytes a filesz b).mem d v = some g := by
    rintro v ⟨hle, hlt⟩
    obtain ⟨i, rfl⟩ := Nat.exists_eq_add_of_le hle
    rw [hframe i (by omega)]
    by_cases hi : 4096 * i < filesz
    · obtain ⟨g, -, hg⟩ := frameFor_start hb hf huser hend hsize hi
      exact ⟨g, hg⟩
    · obtain ⟨g, -, hg⟩ := h ((vaddr / 4096 + i) * 4096 - vaddr) (by omega) (by omega)
      rw [show ((vaddr / 4096 + i) * 4096 - vaddr) / 4096 + 1 = i by omega] at hg
      exact ⟨g + 4096, hg⟩
  have hw : Window (t.withBytes a filesz b) d vaddr filesz := by
    apply hT.window hd huser (by omega)
    intro v hv
    obtain ⟨g, hg⟩ := hpresent v hv
    exact (presentFrame_eq_some_iff.mp hg).1
  have hplace (j : Nat) (hj : j < filesz) :
      (t.withBytes a filesz b).physAt d vaddr j
        = (t.withBytes a filesz b).physAt d vaddr (j / 4096 * 4096) + j % 4096 := by
    by_cases hcross : 4096 ≤ vaddr % 4096 + j % 4096
    · obtain ⟨g, hg, hg'⟩ := h j hj hcross
      rw [← hframe _ (by omega)] at hg hg'
      have hfirst := (presentFrame_eq_some_iff.mp hg).2
      have hsecond := (presentFrame_eq_some_iff.mp hg').2
      rw [physAt, physAt, show (vaddr + j / 4096 * 4096) / 4096 = vaddr / 4096 + j / 4096 by omega,
        show (vaddr + j) / 4096 = vaddr / 4096 + (j / 4096 + 1) by omega, hfirst, hsecond]
      omega
    · have hadd : (t.withBytes a filesz b).physAt d vaddr (j / 4096 * 4096 + j % 4096)
          = (t.withBytes a filesz b).physAt d vaddr (j / 4096 * 4096) + j % 4096 := by
        apply Window.physAt_add
        omega
      rw [← hadd, show j / 4096 * 4096 + j % 4096 = j by omega]
  have hbounds : ∀ v, InWindow vaddr filesz v →
      memExtStart ≤ frameAt (t.withBytes a filesz b).mem d v := by
    rintro v hv
    have hle := hv.1
    have hlt := hv.2
    have hmarked := hT.marked_page hd (by omega) (by omega) (hw.present v hv)
    apply (hT.range.marked_bounds hmarked).2.1
  have hstart (j : Nat) (hj : j < filesz) :
      (t.withBytes a filesz b).physAt d vaddr (0 + j)
        = (t.withBytes a filesz b).physAt d vaddr (0 + j / 4096 * 4096) + j % 4096 := by
    rw [Nat.zero_add, Nat.zero_add]
    exact hplace j hj
  obtain ⟨m, hloop, hm, hview⟩ := hw.loadPhdr_loop tty (f := f) hbounds (fun _ _ => rfl)
    (show 0 + filesz ≤ filesz by omega) hstart (by omega) (by omega) (le_refl _)
  rw [Nat.add_zero, u32_of_lt (by omega)] at hloop
  refine ⟨_, _, hloop, ?_⟩
  intro k hk
  rw [hw.readByte_eq hm hk, hview k hk, put, if_pos (by omega), Nat.sub_zero, hpos, withBytes_mem,
    put_inside _ _ hk]

/-- Where reads start, and where their bytes land. -/
theorem starts_withBytes (hlast : ∀ g ∈ s.free, g + 8192 ≤ memoryTaskBase) (b : Nat → UInt8) :
  (t.withBytes a filesz b).Starts d vaddr filesz ∧
    ∀ j < filesz, (t.withBytes a filesz b).landing d vaddr j = t.landing d vaddr j ∧
      memExtStart ≤ t.landing d vaddr j
  := by
  have hlow := huser
  unfold memoryTaskBase at hlow
  have hft := hf.built hd hb
  have hdir := hft.dir_ge hd
  constructor
  · intro k hk haligned
    rw [show (vaddr + k) / 4096 = vaddr / 4096 + k / 4096 by omega]
    obtain ⟨g, hfree, hg⟩ := frameFor_start hb hf huser hend hsize (i := k / 4096) (by omega)
    refine ⟨g, ?_, (hf.range.free_bounds hfree).2.1, hlast g hfree, ?_⟩
    · rw [presentFrame_mapped hb hf hd huser hend ha b (by omega), hg]
    · intro u hu
      rw [withBytes_mem, tableAt_put b (by omega)] at hu
      have htable := hft.table_ge hd (by omega) (by omega) hu
      unfold memExtStart at htable
      omega
  · intro j hj
    obtain ⟨g, hfree, hg⟩ := frameFor_start hb hf huser hend hsize (i := j / 4096) (by omega)
    have hbounds := (hf.range.free_bounds hfree).2.1
    have hpage : (vaddr + j / 4096 * 4096) / 4096 = vaddr / 4096 + j / 4096 := by omega
    have hold := presentFrame_eq hb hf (by decide) huser hend (i := j / 4096) (by omega)
    have hnew := presentFrame_mapped hb hf hd huser hend ha b (i := j / 4096) (by omega)
    rw [hg] at hold hnew
    rw [landing, landing, physAt, physAt, hpage, (presentFrame_eq_some_iff.mp hold).2,
      (presentFrame_eq_some_iff.mp hnew).2]
    exact ⟨rfl, by omega⟩

/-- When a frame does not follow the one before it, there is a file of which a byte does not get to
its place. -/
theorem exists_misplaced (h : ¬ s.FramesFollow d vaddr filesz memsz)
    (hlast : ∀ g ∈ s.free, g + 8192 ≤ memoryTaskBase) (hpos : f.tempPos = a) (hzero : 0 < a)
    (tty : Tty) :
  ∃ b, ∃ k < filesz, ∃ u f', loadPhdr.loop (t.withBytes a filesz b) f tty tempFileId d vaddr filesz
      filesz = .ok (0, u, f') ∧ (u.mmuSetPageDir d).readByte (vaddr + k) ≠ some (b k)
  := by
  have hlow := huser
  unfold memoryTaskBase at hlow
  have hft := hf.built hd hb
  have haligned := hft.nodes.aligned d hd
  obtain ⟨l, hl, hcross, hnext⟩ : ∃ l < filesz, 4096 ≤ vaddr % 4096 + l % 4096 ∧
      ∀ g, s.frameFor d vaddr memsz (l / 4096) = some g →
        s.frameFor d vaddr memsz (l / 4096 + 1) ≠ some (g + 4096) := by
    by_contra hall
    apply h
    intro l hl hcross
    by_contra hnext
    exact hall ⟨l, hl, hcross, fun g hg hg' => hnext ⟨g, hg, hg'⟩⟩
  obtain ⟨g, hfree, hg⟩ := frameFor_start hb hf huser hend hsize (i := l / 4096) (by omega)
  have hbounds := hf.range.free_bounds hfree
  have hpage := presentFrame_eq hb hf (by decide) huser hend (i := l / 4096) (by omega)
  rw [hg] at hpage
  -- the first byte of the read that belongs to the next page
  obtain ⟨k, hk⟩ : ∃ k, k = l / 4096 * 4096 + (4096 - vaddr % 4096) := ⟨_, rfl⟩
  have hland : t.landing d vaddr k = g + 4096 := by
    rw [landing, show k / 4096 * 4096 = l / 4096 * 4096 by omega, physAt,
      show (vaddr + l / 4096 * 4096) / 4096 = vaddr / 4096 + l / 4096 by omega,
      (presentFrame_eq_some_iff.mp hpage).2]
    omega
  -- a byte of the same parity as the one it lands on, which its place does not hold
  obtain ⟨v, hv, hne⟩ : ∃ v : UInt8, v.toNat % 2 = (t.mem (g + 4096)).toNat % 2 ∧
      ∀ g', s.frameFor d vaddr memsz (l / 4096 + 1) = some g' → t.mem g' ≠ v := by
    cases s.frameFor d vaddr memsz (l / 4096 + 1) with
    | none =>
        refine ⟨_, rfl, ?_⟩
        intro g' hg'
        cases hg'
    | some g' =>
        obtain ⟨v, hv, hne⟩ := exists_parity_ne (t.mem (g + 4096)) (t.mem g')
        refine ⟨v, hv, ?_⟩
        rintro _ ⟨⟩
        exact hne
  refine ⟨fun j => store8 t.mem (g + 4096) v (t.landing d vaddr j), k, by omega, ?_⟩
  obtain ⟨hstarts, hlandings⟩ := starts_withBytes hb hf hd huser hend hsize ha hlast
    fun j => store8 t.mem (g + 4096) v (t.landing d vaddr j)
  have hmem (y : Nat) (hy : memExtStart ≤ y) :
      (t.withBytes a filesz fun j => store8 t.mem (g + 4096) v (t.landing d vaddr j)).mem y
        = t.mem y := by
    rw [withBytes_mem, put_outside _ _ (by omega)]
  dsimp only
  rw [hland, store8_same]
  apply loadPhdr_loop_strays (x := g + 4096) (a := a) (by omega) (by omega) _ haligned hstarts
    (by omega) hzero ha
  · intro j hj
    obtain ⟨hsame, hle⟩ := hlandings j hj
    rw [withBytes_mem, put_inside _ _ hj, hsame]
    unfold store8
    split_ifs
    · rfl
    · rw [put_outside _ _ (by omega)]
  · omega
  · exact huser
  · omega
  · intro g' hg'
    rw [show (vaddr + k) / 4096 = vaddr / 4096 + (l / 4096 + 1) by omega,
      presentFrame_mapped hb hf hd huser hend ha _ (by omega)] at hg'
    have hold := presentFrame_eq hb hf (by decide) huser hend (i := l / 4096 + 1) (by omega)
    rw [hg'] at hold
    obtain ⟨hpresent, hframe⟩ := presentFrame_eq_some_iff.mp hold
    have hmarked := hft.marked_page hd (by omega) (by omega) hpresent
    rw [← frameAt, hframe] at hmarked
    constructor
    · rintro rfl
      exact hnext g hg hg'
    · rw [hmem _ (hft.range.marked_bounds hmarked).2.1]
      exact hne g' hg'
  · exact hpos
  · rw [hmem _ (by omega)]
    exact hv

end Mapped

section Segment

variable {phdr : Nat} (hf : Frames s live) (hd : d ∈ live) (hphdr : s.Apart live phdr 32)
  (huser : memoryTaskBase ≤ s.pVaddr phdr) (hend : s.pVaddr phdr + s.pMemsz phdr ≤ 2 ^ 32)
  (hbuffer : s.pOffset phdr + s.pFilesz phdr ≤ 100 * 1024)
  (hheader : phdr + 32 ≤ f.tempAddr ∨ f.tempAddr + 100 * 1024 ≤ phdr)
  (hserved : (s.asks 512 d (allocPages (s.pVaddr phdr) (s.pMemsz phdr))).length ≤ s.free.length)

include hf hd hphdr huser hend hbuffer hheader hserved

/-- Pages are mapped, and the bytes of the file are read to them. -/
theorem segmentPlaced_withBytes (tty : Tty) :
  ∃ t, Built 512 live s t d
      (mapsWith (pteP ||| pteU ||| pteW) (allocPages (s.pVaddr phdr) (s.pMemsz phdr))) none ∧
    ∀ b, SegmentPlaced (s.withBytes (f.tempAddr + s.pOffset phdr) (s.pFilesz phdr) b) f tty phdr d ↔
      ∃ u f', loadPhdr.loop (t.withBytes (f.tempAddr + s.pOffset phdr) (s.pFilesz phdr) b)
          { f with tempPos := f.tempAddr + s.pOffset phdr } tty tempFileId d (s.pVaddr phdr)
          (s.pFilesz phdr) (s.pFilesz phdr) = .ok (0, u, f') ∧
        ∀ k < s.pFilesz phdr, (u.mmuSetPageDir d).readByte (s.pVaddr phdr + k) = some (b k)
  := by
  obtain ⟨r, t, hresult, hb, -, hvaddr, hfilesz, hoffset⟩ :=
    memoryAllocForPageDir_segment hf hd hphdr huser
      (mapsUserPages_of_end_le huser (load32_lt _ _) hend)
  obtain rfl : r = none := by
    rw [hb.failed_eq]
    exact List.getElem?_eq_none hserved
  refine ⟨t, hb, ?_⟩
  intro b
  have htemp := f.tempAddr_end
  unfold memExtStart at htemp
  have hfield (u : Kernel) (k : Nat) (hk : k + 4 ≤ 32) :
      (u.withBytes (f.tempAddr + s.pOffset phdr) (s.pFilesz phdr) b).load (phdr + k)
        = u.load (phdr + k) := by
    apply load_withBytes
    omega
  have hpVaddr (u : Kernel) :
      (u.withBytes (f.tempAddr + s.pOffset phdr) (s.pFilesz phdr) b).pVaddr phdr = u.pVaddr phdr :=
    hfield u 8 (by decide)
  have hpMemsz (u : Kernel) :
      (u.withBytes (f.tempAddr + s.pOffset phdr) (s.pFilesz phdr) b).pMemsz phdr = u.pMemsz phdr :=
    hfield u 20 (by decide)
  have hpFilesz (u : Kernel) :
      (u.withBytes (f.tempAddr + s.pOffset phdr) (s.pFilesz phdr) b).pFilesz phdr
        = u.pFilesz phdr :=
    hfield u 16 (by decide)
  have hpOffset (u : Kernel) :
      (u.withBytes (f.tempAddr + s.pOffset phdr) (s.pFilesz phdr) b).pOffset phdr
        = u.pOffset phdr :=
    hfield u 4 (by decide)
  have hpos : u32 (f.tempAddr + s.pOffset phdr) = f.tempAddr + s.pOffset phdr := by
    apply u32_of_lt
    omega
  have halloc := memoryAllocForPageDir_withBytes b hd
    (show f.tempAddr + s.pOffset phdr + s.pFilesz phdr ≤ memExtStart by unfold memExtStart; omega) hf
    (show pteP ||| pteU ||| pteW < 4096 by decide) huser hend (load32_lt _ _)
  have hbyte (k : Nat) (hk : k < s.pFilesz phdr) :
      (s.withBytes (f.tempAddr + s.pOffset phdr) (s.pFilesz phdr) b).mem
        (f.tempAddr + s.pOffset phdr + k) = b k := by
    rw [withBytes_mem, put_inside _ _ hk]
  rw [SegmentPlaced, loadPhdr, hpVaddr, hpMemsz, halloc, hresult]
  dsimp only
  rw [if_neg (by decide), hpOffset, hpVaddr, hpFilesz, hvaddr, hfilesz, hoffset, sysLseek,
    if_pos rfl, hpos, hpOffset, hpFilesz]
  dsimp only
  rw [if_neg (by decide)]
  apply exists_congr
  intro u
  apply exists_congr
  intro f'
  apply and_congr_right
  intro _
  apply forall_congr'
  intro k
  apply imp_congr_right
  intro hk
  rw [hbyte k hk]

section Exact

variable (hsize : s.pFilesz phdr ≤ s.pMemsz phdr)

include hsize

theorem FramesFollow.placed (h : s.FramesFollow d (s.pVaddr phdr) (s.pFilesz phdr) (s.pMemsz phdr))
    (hbase : f.tempAddr + 100 * 1024 ≤ s.layout.gKernelPageDir ∨
      s.layout.gKernelPageDir + 4096 ≤ f.tempAddr) (tty : Tty) (b : Nat → UInt8) :
  SegmentPlaced (s.withBytes (f.tempAddr + s.pOffset phdr) (s.pFilesz phdr) b) f tty phdr d
  := by
  have htemp := f.tempAddr_end
  have hzero := f.tempAddr_pos
  obtain ⟨t, hb, hplaced⟩ :=
    segmentPlaced_withBytes hf hd hphdr huser hend hbuffer hheader hserved tty
  rw [hplaced b]
  by_cases hn : s.pFilesz phdr = 0
  · rw [hn]
    exact ⟨_, _, rfl, nofun⟩
  · exact h.loadPhdr_loop hb hf hd huser hend hsize
      (show f.tempAddr + s.pOffset phdr + s.pFilesz phdr ≤ memExtStart by omega) b (by omega) rfl
      (show 0 < f.tempAddr + s.pOffset phdr by omega) (by omega) tty

theorem not_placed_of_not_follow
    (h : ¬ s.FramesFollow d (s.pVaddr phdr) (s.pFilesz phdr) (s.pMemsz phdr))
    (hlast : ∀ g ∈ s.free, g + 8192 ≤ memoryTaskBase) (tty : Tty) :
  ∃ b, ¬ SegmentPlaced (s.withBytes (f.tempAddr + s.pOffset phdr) (s.pFilesz phdr) b) f tty phdr d
  := by
  have htemp := f.tempAddr_end
  have hzero := f.tempAddr_pos
  obtain ⟨t, hb, hplaced⟩ :=
    segmentPlaced_withBytes hf hd hphdr huser hend hbuffer hheader hserved tty
  obtain ⟨b, k, hk, u, f', hloop, hbyte⟩ := exists_misplaced hb hf hd huser hend hsize
    (show f.tempAddr + s.pOffset phdr + s.pFilesz phdr ≤ memExtStart by omega) h hlast
    (f := { f with tempPos := f.tempAddr + s.pOffset phdr }) rfl (by omega) tty
  use b
  rw [hplaced b]
  rintro ⟨u', f'', hloop', hbytes⟩
  rw [hloop] at hloop'
  cases hloop'
  exact hbyte (hbytes k hk)

/-- The segment of a header is loaded to its addresses, whatever the bytes of the file, exactly when
the frames of pages that one read writes follow each other. -/
theorem segmentPlaced_iff
    (hbase : f.tempAddr + 100 * 1024 ≤ s.layout.gKernelPageDir ∨
      s.layout.gKernelPageDir + 4096 ≤ f.tempAddr)
    (hlast : ∀ g ∈ s.free, g + 8192 ≤ memoryTaskBase) (tty : Tty) :
  (∀ b, SegmentPlaced (s.withBytes (f.tempAddr + s.pOffset phdr) (s.pFilesz phdr) b) f tty phdr d) ↔
    s.FramesFollow d (s.pVaddr phdr) (s.pFilesz phdr) (s.pMemsz phdr)
  := by
  constructor
  · intro h
    by_contra hnot
    obtain ⟨b, hb⟩ :=
      not_placed_of_not_follow hf hd hphdr huser hend hbuffer hheader hserved hsize hnot hlast tty
    exact hb (h b)
  · intro h
    exact h.placed hf hd hphdr huser hend hbuffer hheader hserved hsize hbase tty

end Exact

end Segment

/-! ### Two segments -/

/-- The machine of `bootDir`, with the header of a segment of `size` bytes. -/
def segmentAt (vaddr size : Nat) : Kernel :=
  (bootDir 9).withHeader 0x70000 vaddr size size

/-- The buffer of the file. -/
def midFile : TempFile :=
  ⟨0x40000, by decide, by decide, 0x40000, fun _ => 0⟩

section SegmentAt

variable (vaddr size : Nat)

theorem segmentAt_frames :
  Frames (segmentAt vaddr size) {1024 * 1024} ∧
    ∀ v, 512 ≤ v / 1024 → v < 2 ^ 20 → pteAt (segmentAt vaddr size).mem (1024 * 1024) v = 0
  := by
  have hf := bootDir_frames (show 0 < 9 by decide) (by decide)
  have hcreated := (bootDir_created (show 0 < 9 by decide) (by decide)).2
  have hlow : 0x70000 + 32 ≤ memExtStart := by decide
  constructor
  · apply hf.withHeader hlow
    rw [hcreated.layout]
    decide
  · intro v hlo hv
    rw [segmentAt, hf.pteAt_withHeader rfl hlow vaddr size size hlo hv, hcreated.pteAt hlo hv]

theorem segmentAt_header (hvaddr : vaddr < 2 ^ 32) (h : size < 2 ^ 32) :
  (segmentAt vaddr size).pVaddr 0x70000 = vaddr ∧ (segmentAt vaddr size).pFilesz 0x70000 = size ∧
    (segmentAt vaddr size).pMemsz 0x70000 = size ∧ (segmentAt vaddr size).pOffset 0x70000 = 0
  := by
  rw [segmentAt]
  exact ⟨pVaddr_withHeader _ _ _ _ _ hvaddr, pFilesz_withHeader _ _ _ _ _ h,
    pMemsz_withHeader _ _ _ _ _ h, pOffset_withHeader _ _ _ _ _⟩

theorem segmentAt_free :
  (segmentAt vaddr size).free.length = 8
    ∧ ∀ g ∈ (segmentAt vaddr size).free, g + 8192 ≤ memoryTaskBase
  := by
  have hf := (segmentAt_frames vaddr size).1
  rw [segmentAt, withHeader_free, bootDir_free (by decide) (by decide)]
  constructor
  · decide
  · decide

theorem segmentAt_served {n : Nat} (h : (allocPages vaddr n).length ≤ 4) :
  ((segmentAt vaddr size).asks 512 (1024 * 1024) (allocPages vaddr n)).length
    ≤ (segmentAt vaddr size).free.length
  := by
  have hle := length_requests_le tableIndex
    (fun i => (((segmentAt vaddr size).space 512 (1024 * 1024)).table i).isSome)
    (allocPages vaddr n)
  rw [(segmentAt_free vaddr size).1]
  exact hle.trans (by omega)

theorem segmentAt_layout :
  (segmentAt vaddr size).layout.gKernelPageDir = 0x5000
  := by
  have hcreated := (bootDir_created (show 0 < 9 by decide) (by decide)).2
  rw [segmentAt, withHeader_layout, hcreated.layout]
  rfl

end SegmentAt

/-- A segment that goes on in a second page. -/
theorem segmentPlaced_iff_twoPages :
  Frames (segmentAt 0x80000000 5000) {1024 * 1024} ∧ ∀ b, SegmentPlaced
    ((segmentAt 0x80000000 5000).withBytes 0x40000 5000 b) midFile ⟨0, 0, []⟩ 0x70000 (1024 * 1024)
  := by
  have hf := (segmentAt_frames 0x80000000 5000).1
  use hf
  obtain ⟨hvaddr, hfilesz, hmemsz, hoffset⟩ :=
    segmentAt_header 0x80000000 5000 (by decide) (by decide)
  have hserved := segmentAt_served 0x80000000 5000
    (show (allocPages 0x80000000 5000).length ≤ 4 by decide)
  have hlayout := segmentAt_layout 0x80000000 5000
  have hlast := (segmentAt_free 0x80000000 5000).2
  generalize segmentAt 0x80000000 5000 = s at *
  have hiff := segmentPlaced_iff (f := midFile) hf rfl (hf.header_apart (a := 0x70000) (by decide))
    (by rw [hvaddr]) (by rw [hvaddr, hmemsz]; decide) (by rw [hoffset, hfilesz]; decide)
    (by decide) (by rw [hvaddr, hmemsz]; exact hserved) (by rw [hfilesz, hmemsz])
    (by rw [hlayout]; decide) hlast ⟨0, 0, []⟩
  rw [hvaddr, hfilesz, hmemsz, hoffset] at hiff
  apply hiff.mpr
  -- a read starts at the beginning of a page
  intro k hk hcross
  omega

/-- A segment of a page of bytes: its second page is not mapped. -/
theorem not_segmentPlaced_midPage :
  Frames (segmentAt 0x80000800 4096) {1024 * 1024} ∧
    (∀ v, 512 ≤ v / 1024 → v < 2 ^ 20 → pteAt (segmentAt 0x80000800 4096).mem (1024 * 1024) v = 0) ∧
    (segmentAt 0x80000800 4096).pVaddr 0x70000 = 0x80000800 ∧
    (segmentAt 0x80000800 4096).pFilesz 0x70000 = 4096 ∧
    (segmentAt 0x80000800 4096).pMemsz 0x70000 = 4096 ∧
    ∃ b, ¬ SegmentPlaced ((segmentAt 0x80000800 4096).withBytes 0x40000 4096 b) midFile
      ⟨0, 0, []⟩ 0x70000 (1024 * 1024)
  := by
  obtain ⟨hf, hzero⟩ := segmentAt_frames 0x80000800 4096
  obtain ⟨hvaddr, hfilesz, hmemsz, hoffset⟩ :=
    segmentAt_header 0x80000800 4096 (by decide) (by decide)
  have hcount : (allocPages 0x80000800 4096).length = 1 := by decide
  have hserved := segmentAt_served 0x80000800 4096 (Nat.le_trans hcount.le (by decide))
  have hlast := (segmentAt_free 0x80000800 4096).2
  generalize segmentAt 0x80000800 4096 = s at *
  refine ⟨hf, hzero, hvaddr, hfilesz, hmemsz, ?_⟩
  have hnot : ¬ s.FramesFollow (1024 * 1024) 0x80000800 4096 4096 := by
    intro hfollow
    obtain ⟨g, -, hg⟩ := hfollow 0x800 (by decide) (by decide)
    have habsent := hzero (0x80000800 / 4096 + (0x800 / 4096 + 1)) (by decide) (by decide)
    rw [frameFor, if_neg (by rw [hcount]; omega), presentFrame, habsent] at hg
    cases hg
  have hplaced := not_placed_of_not_follow (f := midFile) hf rfl
    (hf.header_apart (a := 0x70000) (by decide))
    (by rw [hvaddr]; decide) (by rw [hvaddr, hmemsz]; decide) (by rw [hoffset, hfilesz]; decide)
    (by decide) (by rw [hvaddr, hmemsz]; exact hserved) (by rw [hfilesz, hmemsz])
    (by rw [hvaddr, hfilesz, hmemsz]; exact hnot) hlast ⟨0, 0, []⟩
  rw [hfilesz, hoffset] at hplaced
  exact hplaced

end Kernel

end Dmos
