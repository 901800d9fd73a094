import Dmos.Kernel.FreshFrames
import Dmos.Task.Loaded

/-!
# Uninitialised data

The part of a segment beyond its bytes in the file starts in whatever its frames held before:
`load_phdr` writes the bytes of the file only, and the loop of `cstart`, which is to clear the
rest, reads each byte and writes none.  The data is zero exactly when the frames that the pages
get hold zeros already (`bssZero_iff`).
-/

open ByteMemory AddressSpace

namespace Dmos

namespace Kernel

/-- The loop of `cstart`, for at most `fuel` bytes; `none` after a page fault. -/
def cstart.loop (s : Kernel) (start bssEnd : Nat) (fuel : Nat) : Option Kernel :=
  match fuel with
  | 0 => some s
  | fuel + 1 =>
      if start < bssEnd then
        -- the byte is read, and nothing is assigned
        match s.readByte start with
        | none => none
        | some _ => loop s (u32 (start + 1)) bssEnd fuel
      else some s

/-- `cstart` up to the call of `main`. -/
def cstart (s : Kernel) (bssStart bssEnd : Nat) : Option Kernel :=
  cstart.loop s bssStart bssEnd (bssEnd - bssStart)

/-- In the address space of `d`, `cstart` comes to `main`, and the bytes from `lo` up to `hi` are
zero then. -/
def BssZero (t : Kernel) (d lo hi : Nat) : Prop :=
  ∃ t', (t.mmuSetPageDir d).cstart (u32 lo) (u32 hi) = some t'
    ∧ ∀ a, lo ≤ a → a < hi → t'.readByte a = some 0

variable {s t : Kernel} {live : Set Nat} {d : Nat} {f : TempFile} {tty : Tty}

/-! ### The loop of `cstart` -/

theorem cstart_loop_cases (s : Kernel) (start bssEnd fuel : Nat) :
  cstart.loop s start bssEnd fuel = none ∨ cstart.loop s start bssEnd fuel = some s
  := by
  induction fuel generalizing start with
  | zero => exact .inr rfl
  | succ fuel ih =>
      rw [cstart.loop]
      split_ifs
      · cases s.readByte start with
        | none => exact .inl rfl
        | some b => apply ih
      · exact .inr rfl

theorem cstart_loop_of_readable {start bssEnd : Nat} (fuel : Nat) (hlt : bssEnd < 2 ^ 32)
    (h : ∀ a, start ≤ a → a < bssEnd → s.readByte a ≠ none) :
  cstart.loop s start bssEnd fuel = some s
  := by
  induction fuel generalizing start with
  | zero => rfl
  | succ fuel ih =>
      rw [cstart.loop]
      split_ifs with hstart
      · cases hread : s.readByte start with
        | none => cases h start (le_refl _) hstart hread
        | some b =>
            dsimp only
            rw [u32_of_lt (by omega)]
            apply ih
            intro a ha
            apply h a (by omega)
      · rfl

/-- The loop of `cstart` changes nothing. -/
theorem bssZero_iff_readByte {lo hi : Nat} (hlo : lo < hi) (hhi : hi ≤ 2 ^ 32) :
  BssZero t d lo hi ↔ ∀ a, lo ≤ a → a < hi → (t.mmuSetPageDir d).readByte a = some 0
  := by
  rw [BssZero, cstart]
  constructor
  · rintro ⟨t', hcstart, hzero⟩
    rcases cstart_loop_cases (t.mmuSetPageDir d) (u32 lo) (u32 hi) (u32 hi - u32 lo) with hnone | hsome
    · rw [hnone] at hcstart
      cases hcstart
    · rw [hsome] at hcstart
      obtain rfl := Option.some.inj hcstart
      exact hzero
  · intro hzero
    refine ⟨_, ?_, hzero⟩
    apply cstart_loop_of_readable _ (u32_lt _)
    intro a ha ha'
    rw [u32_of_lt (by omega)] at ha
    have hlt : u32 hi ≤ hi := Nat.mod_le _ _
    rw [hzero a ha (by omega)]
    nofun

/-! ### The loop of `loadPhdr` -/

/-- An entry that is zero gives no address. -/
theorem memoryGetPaddr_of_zero {a : Nat} (ha : a % 4096 = 0) (hzero : pteAt s.mem d (a / 4096) = 0) :
  s.memoryGetPaddr d a = 0
  := by
  rcases memoryGetPaddr_of_entry_zero hzero with hnone | hoffset
  · apply hnone
  · rw [hoffset, ha]

section Loop

variable (hd : d ∈ live)

include hd

/-- A read for addresses of one page writes them, or nothing if the page is not there. -/
theorem sysRead_page (hf : Frames s live) {vaddr c : Nat} {cnt : Int} {f' : TempFile}
    (haligned : vaddr % 4096 = 0) (huser : memoryTaskBase ≤ vaddr) (hend : vaddr + c ≤ 2 ^ 32)
    (hpos : 0 < c) (hpage : c ≤ 4096)
    (hentry : ¬ Present (pteAt s.mem d (vaddr / 4096)) → pteAt s.mem d (vaddr / 4096) = 0)
    (h : s.sysRead f tty tempFileId (s.memoryGetPaddr d vaddr) c = .ok (cnt, t, f')) :
  cnt = c ∧ ∃ m, t = s.setMem m ∧ s.PagesOnly d m
    ∧ ∀ x, (∀ j < c, Present (pteAt s.mem d ((vaddr + j) / 4096)) → s.physAt d vaddr j ≠ x) →
      m x = s.mem x
  := by
  have hsame (j : Nat) (hj : j < c) : (vaddr + j) / 4096 = vaddr / 4096 := by omega
  by_cases hpresent : Present (pteAt s.mem d (vaddr / 4096))
  · rw [memoryGetPaddr_of_present hf hd huser (by omega) hpresent] at h
    have hplace (j : Nat) (hj : j < c) : s.physAt d vaddr j = s.physAt d vaddr 0 + j := by
      rw [physAt, physAt, hsame j hj, hsame 0 hpos]
      omega
    have hin (j : Nat) (hj : j < c) :
        s.InPages d (s.physAt d vaddr 0 + j) ∧ s.physAt d vaddr 0 + j < memoryTaskBase := by
      rw [← hplace j hj]
      apply physAt_inPages hf hd (by omega) (by omega)
      rwa [hsame j hj]
    have hptr : s.physAt d vaddr 0 + c ≤ memoryTaskBase := by
      have hlast := (hin (c - 1) (by omega)).2
      omega
    rcases sysRead_cases s f tty hptr with ⟨s₁, herror⟩ | ⟨m, hok, hm⟩
    · rw [herror] at h
      cases h
    · rw [hok] at h
      cases h
      refine ⟨rfl, m, rfl, ?_, ?_⟩
      · apply pagesOnly_of_inPages _ hm
        intro j hj
        apply (hin j hj).1
      · intro x hx
        apply hm
        rintro ⟨hle, hlt⟩
        obtain ⟨j, rfl⟩ := Nat.exists_eq_add_of_le hle
        have hj : j < c := by omega
        apply hx j hj
        · rwa [hsame j hj]
        · exact hplace j hj
  · rw [memoryGetPaddr_of_zero haligned (hentry hpresent), sysRead, if_pos rfl, kMemcpy,
      if_pos (.inl rfl)] at h
    cases h
    exact ⟨rfl, s.mem, rfl, .refl s d, fun _ _ => rfl⟩

/-- Where entries are present or zero, the bytes of an aligned segment are written to their
places, if they have one, and nowhere else. -/
theorem loadPhdr_loop_writes {s : Kernel} (hf : Frames s live) {vaddr size fuel : Nat} {r : Int}
    {f f' : TempFile} (haligned : vaddr % 4096 = 0) (huser : memoryTaskBase ≤ vaddr)
    (hend : vaddr + size ≤ 2 ^ 32)
    (hentry : ∀ j < size, ¬ Present (pteAt s.mem d ((vaddr + j) / 4096)) →
      pteAt s.mem d ((vaddr + j) / 4096) = 0)
    (h : loadPhdr.loop s f tty tempFileId d vaddr size fuel = .ok (r, t, f')) :
  ∃ m, t = s.setMem m ∧ s.PagesOnly d m
    ∧ ∀ x, (∀ j < size, Present (pteAt s.mem d ((vaddr + j) / 4096)) → s.physAt d vaddr j ≠ x) →
      m x = s.mem x
  := by
  induction fuel generalizing s f vaddr size with
  | zero =>
      cases h
      exact ⟨t.mem, rfl, .refl t d, fun _ _ => rfl⟩
  | succ fuel ih =>
      rw [loadPhdr.loop] at h
      by_cases hzero : size = 0
      · rw [if_pos hzero] at h
        cases h
        exact ⟨t.mem, rfl, .refl t d, fun _ _ => rfl⟩
      · rw [if_neg hzero] at h
        obtain ⟨c, hc, hcpos, hcn, hpage⟩ : ∃ c, (if memPageSize < size then memPageSize else size) = c
            ∧ 0 < c ∧ c ≤ size ∧ (c = 4096 ∨ c = size ∧ c ≤ 4096) := by
          refine ⟨_, rfl, ?_⟩
          unfold memPageSize
          split_ifs <;> omega
        rw [hc] at h
        dsimp only at h
        rcases hread : s.sysRead f tty tempFileId (s.memoryGetPaddr d vaddr) c with
          s₁ | ⟨cnt, s₁, f₁⟩
        · rw [hread] at h
          cases h
        · have hfirst := hentry 0 (by omega)
          rw [Nat.add_zero] at hfirst
          obtain ⟨rfl, m, rfl, hpages, hm⟩ :=
            sysRead_page hd hf haligned huser (by omega) hcpos (by omega) hfirst hread
          rw [hread] at h
          dsimp only at h
          rw [if_neg (lt_irrefl _)] at h
          rcases hcn.eq_or_lt with rfl | hlt
          · -- nothing is left
            have hdone : loadPhdr.loop (s.setMem m) f₁ tty tempFileId d (u32 (vaddr + c)) (c - c) fuel
                = .ok (0, s.setMem m, f₁) := by
              rw [Nat.sub_self]
              cases fuel with
              | zero => rfl
              | succ fuel => rw [loadPhdr.loop, if_pos rfl]
            rw [hdone] at h
            cases h
            exact ⟨m, rfl, hpages, hm⟩
          · rw [u32_of_lt (by omega)] at h
            unfold memoryTaskBase at huser
            have hpte (j : Nat) (hj : vaddr + j < 2 ^ 32) :
                pteAt m d ((vaddr + j) / 4096) = pteAt s.mem d ((vaddr + j) / 4096) := by
              apply hpages.pteAt_eq hf hd hd <;> omega
            have hphys (j : Nat) (hj : vaddr + c + j < 2 ^ 32) :
                (s.setMem m).physAt d (vaddr + c) j = s.physAt d vaddr (c + j) := by
              rw [physAt_shift, physAt, physAt, frameAt, frameAt, setMem_mem, hpte _ (by omega)]
            obtain ⟨m', rfl, hpages', hm'⟩ := ih (hpages.frames hf hd) (by omega)
              (show memoryTaskBase ≤ vaddr + c by unfold memoryTaskBase; omega) (by omega)
              (by
                intro j hj
                rw [setMem_mem, Nat.add_assoc, hpte _ (by omega)]
                apply hentry (c + j) (by omega))
              h
            refine ⟨m', rfl, hpages.trans hf hd hpages', ?_⟩
            intro x hx
            rw [hm', setMem_mem, hm]
            · intro j hj
              apply hx j (by omega)
            · intro j hj hpresent
              rw [hphys j (by omega)]
              rw [setMem_mem, Nat.add_assoc, hpte _ (by omega)] at hpresent
              apply hx (c + j) (by omega) hpresent

end Loop

/-! ### The data of a segment -/

section Loaded

variable {phdr : Nat} {file : Int} {f' : TempFile} (hf : Frames s live) (hd : d ∈ live)
  (hphdr : s.Apart live phdr 32) (haligned : s.pVaddr phdr % 4096 = 0)
  (huser : memoryTaskBase ≤ s.pVaddr phdr) (hend : s.pVaddr phdr + s.pMemsz phdr ≤ 2 ^ 32)
  (hsize : s.pFilesz phdr < s.pMemsz phdr)
  (hentry : ∀ k < s.pMemsz phdr, ¬ Present (pteAt s.mem d ((s.pVaddr phdr + k) / 4096)) →
    pteAt s.mem d ((s.pVaddr phdr + k) / 4096) = 0)
  (hload : s.loadPhdr f tty file phdr d = .ok (0, t, f'))

include hf hd hphdr haligned huser hend hsize hentry hload

/-- A byte behind the bytes of the file is what its frame held before. -/
theorem readByte_bss_iff {k : Nat} (hk : s.pFilesz phdr ≤ k) (hk' : k < s.pMemsz phdr) :
  (t.mmuSetPageDir d).readByte (s.pVaddr phdr + k) = some 0
    ↔ ∃ g ∈ s.frameFor d (s.pVaddr phdr) (s.pMemsz phdr) (k / 4096), s.mem (g + k % 4096) = 0
  := by
  obtain ⟨r, u, hb, huntouched, hcase⟩ := loadPhdr_cases hf hd hphdr huser
    (mapsUserPages_of_end_le huser (load32_lt _ _) hend) f tty file
  rcases hcase with ⟨-, -, hresult⟩ | ⟨-, -, -, hresult⟩ | ⟨-, -, -, hresult⟩
  · rw [hresult] at hload
    cases hload
  · rw [hresult] at hload
    cases hload
  · rw [hresult] at hload
    have hf' := hf.built hd hb
    have hperm : pteP ||| pteU ||| pteW < 4096 := by decide
    have hbase := huser
    unfold memoryTaskBase at hbase
    obtain ⟨m, rfl, hpages, hm⟩ := loadPhdr_loop_writes hd hf' haligned huser (by omega)
      (by
        intro j hj habsent
        rcases pteAt_built hb hf hperm (v := (s.pVaddr phdr + j) / 4096) (by omega) (by omega) with
          hold | hpresent
        · rw [hold] at habsent ⊢
          apply hentry j (by omega) habsent
        · cases habsent hpresent)
      hload
    have hpage : (s.pVaddr phdr + k) / 4096 = s.pVaddr phdr / 4096 + k / 4096 := by omega
    have hoffset : (s.pVaddr phdr + k) % 4096 = k % 4096 := by omega
    have hsame : presentFrame m d ((s.pVaddr phdr + k) / 4096)
        = presentFrame u.mem d ((s.pVaddr phdr + k) / 4096) := by
      rw [presentFrame, presentFrame, frameAt, frameAt, hpages.pteAt_eq hf' hd hd (by omega) (by omega)]
    rw [readByte_user (hf.nodes.aligned d hd) (by omega), setMem_mem, hsame, hoffset,
      Option.map_eq_some_iff, hpage, presentFrame_eq hb hf hperm huser hend (by omega)]
    apply exists_congr
    intro g
    apply and_congr_right
    intro hg
    have hpresent := hg
    rw [← presentFrame_eq hb hf hperm huser hend (by omega), ← hpage] at hpresent
    have hsource : u.mem (g + k % 4096) = s.mem (g + k % 4096) := by
      apply sameFrame_page hf' hd huntouched (by omega) (by omega) hpresent <;> omega
    rw [hm, hsource]
    -- no byte of the file is written to this place
    intro j hj hpresent' heq
    obtain ⟨hpte, hframe⟩ := presentFrame_eq_some_iff.mp hpresent
    have haligned₁ := Window.frameAt_aligned u.mem d ((s.pVaddr phdr + j) / 4096)
    have haligned₂ := Window.frameAt_aligned u.mem d ((s.pVaddr phdr + k) / 4096)
    rw [physAt] at heq
    have hpages' := frameAt_injective hf' hd (by omega) (by omega) (by omega) (by omega) hpresent'
      hpte (by omega)
    omega

/-- After a segment that starts at a page has been loaded, its uninitialised data is zero exactly
when each of its pages gets a frame that holds zeros there already. -/
theorem bssZero_iff :
  BssZero t d (s.pVaddr phdr + s.pFilesz phdr) (s.pVaddr phdr + s.pMemsz phdr)
    ↔ ∀ k, s.pFilesz phdr ≤ k → k < s.pMemsz phdr →
      ∃ g ∈ s.frameFor d (s.pVaddr phdr) (s.pMemsz phdr) (k / 4096), s.mem (g + k % 4096) = 0
  := by
  have hbyte (k : Nat) (hk : s.pFilesz phdr ≤ k) (hk' : k < s.pMemsz phdr) :=
    readByte_bss_iff hf hd hphdr haligned huser hend hsize hentry hload hk hk'
  rw [bssZero_iff_readByte (by omega) hend]
  constructor
  · intro hzero k hk hk'
    rw [← hbyte k hk hk']
    apply hzero <;> omega
  · intro hzero a ha ha'
    obtain ⟨k, rfl⟩ := Nat.exists_eq_add_of_le (show s.pVaddr phdr ≤ a by omega)
    rw [hbyte k (by omega) (by omega)]
    apply hzero k (by omega) (by omega)

end Loaded

/-! ### Two frames -/

/-- A machine with the byte `b` at an address of its first free frame, and the header of a segment
of eight bytes, four of them in the file. -/
def halfLoaded (b : UInt8) : Kernel :=
  ((bootDir 9).setMem (store8 (bootDir 9).mem 0x101006 b)).withHeader 0x70000 0x80000000 4 8

/-- The buffer of the file. -/
def bootFile : TempFile :=
  .low fun _ => 0

section HalfLoaded

variable (b : UInt8)

theorem bootDir_free_nine :
  (bootDir 9).free
    = 0x101000 :: 0x102000 :: (List.range 6).map fun i => 1024 * 1024 + (i + 3) * 4096
  := by
  rw [bootDir_free (by decide) (by decide)]
  decide

theorem halfLoaded_frames :
  Frames (halfLoaded b) {1024 * 1024}
    ∧ (∀ v, 512 ≤ v / 1024 → v < 2 ^ 20 → pteAt (halfLoaded b).mem (1024 * 1024) v = 0)
    ∧ tableAt (halfLoaded b).mem (1024 * 1024) 512 = none
  := by
  have hf := bootDir_frames (show 0 < 9 by decide) (by decide)
  have hcreated := (bootDir_created (show 0 < 9 by decide) (by decide)).2
  have hfree : 0x101000 ∈ (bootDir 9).free := by
    rw [bootDir_free_nine]
    exact List.mem_cons_self
  have hm : ∀ x, ¬ (0x101000 ≤ x ∧ x < 0x101000 + 4096) →
      store8 (bootDir 9).mem 0x101006 b x = (bootDir 9).mem x := by
    intro x hx
    apply store8_of_ne
    omega
  have hf' := frames_of_free hf hfree hm
  have hlow : 0x70000 + 32 ≤ memExtStart := by decide
  refine ⟨?_, ?_, ?_⟩
  · apply hf'.withHeader hlow
    rw [setMem_layout, hcreated.layout]
    decide
  · intro v hlo hv
    have hsame := hf'.pteAt_withHeader rfl hlow 0x80000000 4 8 hlo hv
    rw [halfLoaded, hsame, setMem_mem, pteAt_of_free hf hfree hm rfl hlo hv, hcreated.pteAt hlo hv]
  · have hheader : tableAt (halfLoaded b).mem (1024 * 1024) 512
        = tableAt (store8 (bootDir 9).mem 0x101006 b) (1024 * 1024) 512 :=
      (hf'.header_apart hlow).tableAt_eq (fun _ => withHeader_mem _ _ _ _ _) rfl (by decide)
    rw [hheader, tableAt_of_free hf hfree hm rfl (by decide), hcreated.tableAt (by decide) (by decide)]

theorem halfLoaded_mem {x : Nat} (hx : 0x101000 ≤ x) :
  (halfLoaded b).mem x = if x = 0x101006 then b else 0
  := by
  have hzero : (bootDir 9).mem x = 0 := by
    apply (bootDir_created (show 0 < 9 by decide) (by decide)).2.outside
    omega
  rw [halfLoaded, withHeader_mem _ _ _ _ _ (by omega), setMem_mem, store8, hzero]

theorem halfLoaded_apart :
  (halfLoaded b).Apart {1024 * 1024} 0x70000 32
  := (halfLoaded_frames b).1.header_apart (by decide)

theorem halfLoaded_header :
  (halfLoaded b).pVaddr 0x70000 = 0x80000000 ∧ (halfLoaded b).pFilesz 0x70000 = 4
    ∧ (halfLoaded b).pMemsz 0x70000 = 8 ∧ (halfLoaded b).pOffset 0x70000 = 0
  := by
  rw [halfLoaded]
  exact ⟨pVaddr_withHeader _ _ _ _ _ (by decide), pFilesz_withHeader _ _ _ _ _ (by decide),
    pMemsz_withHeader _ _ _ _ _ (by decide), pOffset_withHeader _ _ _ _ _⟩

theorem halfLoaded_free :
  (halfLoaded b).free
    = 0x101000 :: 0x102000 :: (List.range 6).map fun i => 1024 * 1024 + (i + 3) * 4096
  := by rw [halfLoaded, withHeader_free, setMem_free, bootDir_free_nine]

/-- The segment is loaded. -/
theorem halfLoaded_loads :
  ∃ t f', (halfLoaded b).loadPhdr bootFile ⟨0, 0, []⟩ tempFileId 0x70000 (1024 * 1024)
    = .ok (0, t, f')
  := by
  have hf := (halfLoaded_frames b).1
  obtain ⟨hvaddr, hfilesz, hmemsz, hoffset⟩ := halfLoaded_header b
  have hcount : (allocPages 0x80000000 8).length = 1 := by decide
  obtain ⟨t, pos, hload, -⟩ := loadPhdr_loaded (f := bootFile) ⟨0, 0, []⟩ hf rfl
    (halfLoaded_apart b) (by rw [hvaddr]) (by rw [hvaddr]) (by rw [hvaddr, hmemsz]; decide)
    (by rw [hfilesz, hmemsz]; decide) (by rw [hoffset, hfilesz]; decide)
    (by rw [hvaddr, hmemsz, hcount, halfLoaded_free]; simp)
  exact ⟨t, _, hload⟩

/-- Its page has the first free frame. -/
theorem halfLoaded_frameFor :
  (halfLoaded b).frameFor (1024 * 1024) 0x80000000 8 0 = some 0x101000
  := by
  apply frameFor_first (by decide) _ (halfLoaded_free b) (by decide) (by decide)
  apply (halfLoaded_frames b).2.2

end HalfLoaded

/-- A frame that holds zeros. -/
theorem bssZero_iff_halfLoaded :
  ∃ t f', (halfLoaded 0).loadPhdr bootFile ⟨0, 0, []⟩ tempFileId 0x70000 (1024 * 1024)
      = .ok (0, t, f')
    ∧ BssZero t (1024 * 1024) 0x80000004 0x80000008
  := by
  have hf := (halfLoaded_frames 0).1
  obtain ⟨hvaddr, hfilesz, hmemsz, -⟩ := halfLoaded_header 0
  obtain ⟨t, f', hload⟩ := halfLoaded_loads 0
  use t, f', hload
  have hzero := bssZero_iff hf rfl (halfLoaded_apart 0) (by rw [hvaddr]) (by rw [hvaddr])
    (by rw [hvaddr, hmemsz]; decide) (by rw [hfilesz, hmemsz]; decide)
    (by
      intro k hk _
      rw [hvaddr]
      rw [hmemsz] at hk
      apply (halfLoaded_frames 0).2.1 <;> omega)
    hload
  rw [hvaddr, hfilesz, hmemsz] at hzero
  apply hzero.mpr
  intro k hk hk'
  refine ⟨0x101000, ?_, ?_⟩
  · rw [show k / 4096 = 0 by omega]
    apply halfLoaded_frameFor
  · rw [halfLoaded_mem _ (by omega), ite_self]

/-- A frame that holds something else: loading succeeds, and the data is not zero. -/
theorem not_bssZero_halfLoaded :
  Frames (halfLoaded 1) {1024 * 1024} ∧ (halfLoaded 1).pVaddr 0x70000 = 0x80000000
    ∧ (halfLoaded 1).pFilesz 0x70000 = 4 ∧ (halfLoaded 1).pMemsz 0x70000 = 8
    ∧ ∃ t f', (halfLoaded 1).loadPhdr bootFile ⟨0, 0, []⟩ tempFileId 0x70000 (1024 * 1024)
        = .ok (0, t, f')
      ∧ ¬ BssZero t (1024 * 1024) 0x80000004 0x80000008
  := by
  have hf := (halfLoaded_frames 1).1
  obtain ⟨hvaddr, hfilesz, hmemsz, -⟩ := halfLoaded_header 1
  obtain ⟨t, f', hload⟩ := halfLoaded_loads 1
  refine ⟨hf, hvaddr, hfilesz, hmemsz, t, f', hload, ?_⟩
  intro hzero
  rw [bssZero_iff_readByte (by decide) (by decide)] at hzero
  have hbyte := readByte_bss_iff hf rfl (halfLoaded_apart 1) (by rw [hvaddr]) (by rw [hvaddr])
    (by rw [hvaddr, hmemsz]; decide) (by rw [hfilesz, hmemsz]; decide)
    (by
      intro k hk _
      rw [hvaddr]
      rw [hmemsz] at hk
      apply (halfLoaded_frames 1).2.1 <;> omega)
    hload (k := 6) (by rw [hfilesz]; decide) (by rw [hmemsz]; decide)
  rw [hvaddr, hmemsz] at hbyte
  obtain ⟨g, hg, hbyte⟩ := hbyte.mp (hzero _ (by decide) (by decide))
  rw [halfLoaded_frameFor] at hg
  obtain rfl := Option.some.inj hg
  rw [halfLoaded_mem _ (by decide), if_pos (by decide)] at hbyte
  apply absurd hbyte
  decide

end Kernel

end Dmos
