import Dmos.Kernel.Frames
import Dmos.Kernel.UserCopy

/-!
# Copies across page boundaries

`memoryCopyUvmData` copies to a range of addresses page by page, wherever the pages lie.  It
writes to physical memory through the identity mapping of the kernel, so what it writes must not
be what translates the range or the source (`Undisturbed`).  Then the bytes arrive, and nothing
else changes (`memoryCopyUvmData_arrives`).
-/

open ByteMemory

namespace Dmos.Kernel

variable {s : Kernel} {dir lo span src : Nat} {m : Memory}

/-- Page `v` has an address of the range. -/
def OfRange (lo span v : Nat) : Prop :=
  ∃ j < span, (lo + j) / 4096 = v

/-- The pages of a range with an address in it are those of the window. -/
theorem inWindow_iff (hspan : 0 < span) (v : Nat) :
  InWindow lo span v ↔ OfRange lo span v
  := by
  constructor
  · rintro ⟨hle, hlt⟩
    by_cases hfirst : v * 4096 ≤ lo
    · exact ⟨0, hspan, by omega⟩
    · exact ⟨v * 4096 - lo, by omega, by omega⟩
  · rintro ⟨j, hj, rfl⟩
    exact Window.inWindow lo hj

/-- The range is mapped to distinct frames, none of them at address `0`, and the source can be
read and is not in them. -/
structure Copyable (s : Kernel) (dir lo span src : Nat) : Prop where
  aligned : dir % 4096 = 0
  end_le : lo + span ≤ 2 ^ 32
  present : ∀ v, OfRange lo span v → Present (pteAt s.mem dir v)
  distinct : ∀ v w, OfRange lo span v → OfRange lo span w →
    frameAt s.mem dir v = frameAt s.mem dir w → v = w
  frame_ne : ∀ v, OfRange lo span v → frameAt s.mem dir v ≠ 0
  src_end : src + span ≤ 2 ^ 32
  readable : ∀ j < span, ∃ a, s.kernelAddr (src + j) = some a ∧
    ∀ v, OfRange lo span v → ¬ (frameAt s.mem dir v ≤ a ∧ a < frameAt s.mem dir v + 4096)

/-- The source is not the null pointer.  The frames lie in the memory of the kernel, and are not
the directory or the tables that translate the range, nor those that translate a source in user
memory.  No table of the range is at address `0`. -/
structure Undisturbed (s : Kernel) (dir lo span src : Nat) : Prop where
  src_ne : src ≠ 0
  frame_end : ∀ v, OfRange lo span v → frameAt s.mem dir v + 4096 ≤ memoryTaskBase
  not_dir : ∀ v, OfRange lo span v → frameAt s.mem dir v ≠ dir
  not_table : ∀ v w t, OfRange lo span v → OfRange lo span w →
    tableAt s.mem dir (w / 1024) = some t → t ≠ 0 ∧ frameAt s.mem dir v ≠ t
  not_src : ∀ j < span, memoryTaskBase ≤ src + j → ∀ v, OfRange lo span v →
    frameAt s.mem dir v ≠ pdePaddr s.cr3 ∧
    ∀ t, tableAt s.mem (pdePaddr s.cr3) ((src + j) / 4096 / 1024) = some t →
      frameAt s.mem dir v ≠ t

/-- The call ends with `0`, however much fuel it has for the bytes.  Then the range shows the
bytes of the source, and no byte elsewhere has changed. -/
def Arrives (s : Kernel) (dir lo span src : Nat) : Prop :=
  ∃ m, (∀ fuel, span ≤ fuel →
      memoryCopyUvmData.loop s lo dir src span fuel = .ok (0, s.setMem m)) ∧
    (∀ j < span, ∃ a b, s.kernelAddr (src + j) = some a ∧
      ((s.setMem m).mmuSetPageDir dir).translate (lo + j) = some b ∧ m b = s.mem a) ∧
    ∀ x, (∀ j < span, s.physAt dir lo j ≠ x) → m x = s.mem x

/-! ### Fuel -/

/-- Each pass copies a byte at least, so fuel for every byte is enough. -/
theorem copyData_loop_fuel {size fuel fuel' : Nat} (hfuel : size ≤ fuel) (hfuel' : size ≤ fuel') :
  memoryCopyUvmData.loop s lo dir src size fuel = memoryCopyUvmData.loop s lo dir src size fuel'
  := by
  induction fuel generalizing s lo src size fuel' with
  | zero =>
      obtain rfl : size = 0 := by omega
      rw [Window.copyData_loop_zero, Window.copyData_loop_zero]
  | succ fuel ih =>
      by_cases hsize : size = 0
      · rw [hsize, Window.copyData_loop_zero, Window.copyData_loop_zero]
      · obtain ⟨fuel', rfl⟩ : ∃ n, fuel' = n + 1 := ⟨fuel' - 1, by omega⟩
        have hoffset (x : Nat) : x &&& (memPageSize - 1) < 4096 := by
          rw [show x &&& (memPageSize - 1) = x % 4096 from Nat.and_two_pow_sub_one_eq_mod _ 12]
          omega
        rw [memoryCopyUvmData.loop, memoryCopyUvmData.loop, if_neg hsize, if_neg hsize]
        have hroom := hoffset (s.memoryGetPaddr dir lo)
        have hpage : memPageSize = 4096 := rfl
        dsimp only
        split_ifs with hzero hlt
        · rfl
        · rcases s.kMemcpy (s.memoryGetPaddr dir lo) src size with ⟨_ | left, t⟩
          · apply ih <;> omega
          · rfl
        · rcases s.kMemcpy (s.memoryGetPaddr dir lo) src
            (memPageSize - (s.memoryGetPaddr dir lo &&& (memPageSize - 1))) with ⟨_ | left, t⟩
          · apply ih <;> omega
          · rfl

/-! ### The source -/

/-- A translation depends on the directory and the table it uses. -/
theorem translate_setMem {addr : Nat} (haddr : addr < 2 ^ 32)
    (hdir : SameFrame s.mem m (pdePaddr s.cr3))
    (htable : ∀ t, tableAt s.mem (pdePaddr s.cr3) (addr / 4096 / 1024) = some t →
      SameFrame s.mem m t) :
  (s.setMem m).translate addr = s.translate addr
  := by
  have hpde : load32 m (pdePaddr s.cr3 + 4 * (addr / 4096 / 1024))
      = load32 s.mem (pdePaddr s.cr3 + 4 * (addr / 4096 / 1024)) := hdir.load32 (by omega)
  have hcr3 : (s.setMem m).cr3 = s.cr3 := rfl
  rw [translate, translate, hcr3, load, load, load, load, setMem_mem, pdeIndex_page, pteIndex_eq]
  dsimp only
  rw [hpde]
  by_cases hpresent : Present (load32 s.mem (pdePaddr s.cr3 + 4 * (addr / 4096 / 1024)))
  · rw [if_pos hpresent, if_pos hpresent,
      (htable _ (tableAt_eq_some_iff.mpr ⟨hpresent, rfl⟩)).load32 (by omega)]
  · rw [if_neg hpresent, if_neg hpresent]

/-! ### The pages of the range -/

/-- The bytes of the pages of the range. -/
theorem target_pages (h : s.Copyable dir lo span src) (h' : s.Undisturbed dir lo span src)
    (hspan : 0 < span) :
  s.Target dir (lo / 4096 * 4096) ((lo + span + 4095) / 4096 * 4096 - lo / 4096 * 4096)
  := by
  have hend := h.end_le
  have hin (v : Nat) : InWindow (lo / 4096 * 4096)
      ((lo + span + 4095) / 4096 * 4096 - lo / 4096 * 4096) v ↔ OfRange lo span v := by
    rw [← inWindow_iff hspan, InWindow, InWindow]
    omega
  constructor
  · exact h.aligned
  · omega
  · intro v hv
    exact h.present v ((hin v).mp hv)
  · intro v w hv hw
    exact h.distinct v w ((hin v).mp hv) ((hin w).mp hw)
  · intro v hv
    exact Nat.pos_of_ne_zero (h.frame_ne v ((hin v).mp hv))
  · intro v hv
    exact h'.frame_end v ((hin v).mp hv)
  · intro v hv
    exact h'.not_dir v ((hin v).mp hv)
  · intro v w t hv hw ht
    exact h'.not_table v w t ((hin v).mp hv) ((hin w).mp hw) ht

/-- What is written to the frames of the range leaves the source as it is. -/
theorem readByte_source (h : s.Copyable dir lo span src) (h' : s.Undisturbed dir lo span src)
    {lo' span' : Nat} (hin : ∀ v, InWindow lo' span' v → OfRange lo span v)
    (hm : s.Agrees dir lo' span' m) {j : Nat} (hj : j < span) :
  (s.setMem m).readByte (src + j) = s.readByte (src + j)
  := by
  have hend := h.src_end
  obtain ⟨a, ha, hout⟩ := h.readable j hj
  have hframe (f : Nat) (haligned : f % 4096 = 0)
      (hf : ∀ v, OfRange lo span v → frameAt s.mem dir v ≠ f) : SameFrame s.mem m f :=
    Window.sameFrame hm haligned fun v hv => hf v (hin v hv)
  have haddr : (s.setMem m).kernelAddr (src + j) = s.kernelAddr (src + j) := by
    rw [kernelAddr, kernelAddr]
    split_ifs with hlow
    · rfl
    · have huser := h'.not_src j hj (by omega)
      apply translate_setMem (by omega)
      · exact hframe _ (by rw [pdePaddr_eq]; omega) fun v hv => (huser v hv).1
      · intro t ht
        exact hframe t (tableAt_aligned ht) fun v hv => (huser v hv).2 t ht
  rw [readByte, readByte, haddr, ha, Option.map_some, Option.map_some]
  congr 1
  apply hm
  rintro ⟨v, hv, hle, hlt⟩
  exact hout v (hin v hv) ⟨hle, hlt⟩

/-- Copies to pages that are mapped anywhere arrive. -/
theorem memoryCopyUvmData_arrives (h : s.Copyable dir lo span src)
    (h' : s.Undisturbed dir lo span src) :
  s.Arrives dir lo span src
  := by
  by_cases hspan : span = 0
  · subst hspan
    refine ⟨s.mem, ?_, nofun, fun x _ => rfl⟩
    intro fuel _
    rw [Window.copyData_loop_zero]
    rfl
  · have hend := h.end_le
    have hsrc := h.src_end
    have hw := target_pages h h' (by omega)
    -- all of the pages, with the range from offset `k` on
    obtain ⟨lo', span', k, hlo', hk, hfirst, hlast, hin, hw⟩ : ∃ lo' span' k, lo' + k = lo ∧
        k + span ≤ span' ∧ lo' % 4096 = 0 ∧ (lo' + span') % 4096 = 0 ∧
        (∀ v, InWindow lo' span' v ↔ OfRange lo span v) ∧ s.Target dir lo' span' := by
      refine ⟨_, _, lo % 4096, by omega, by omega, by omega, by omega, ?_, hw⟩
      intro v
      rw [← inWindow_iff (by omega), InWindow, InWindow]
      omega
    have hphys (j : Nat) : s.physAt dir lo' (k + j) = s.physAt dir lo j := by
      rw [physAt, physAt, ← Nat.add_assoc, hlo']
    obtain ⟨m, hloop, hm, hview⟩ := hw.copyData_loop (m := s.mem) (k := k)
      (b := fun j => (s.readByte (src + j)).getD 0) (fun _ _ => rfl) hk h'.src_ne hsrc (by
        intro m hm j hj
        rw [readByte_source h h' (fun v => (hin v).mp) hm hj]
        obtain ⟨a, ha, -⟩ := h.readable j hj
        rw [readByte, ha]
        rfl) (le_refl span)
    rw [hlo', u32_of_lt (by omega)] at hloop
    refine ⟨m, ?_, ?_, ?_⟩
    · intro fuel hfuel
      rw [copyData_loop_fuel hfuel (le_refl span)]
      exact hloop
    · intro j hj
      obtain ⟨a, ha, -⟩ := h.readable j hj
      refine ⟨a, s.physAt dir lo j, ha, ?_, ?_⟩
      · have hv : InWindow lo' span' ((lo + j) / 4096) := (hin _).mpr ⟨j, hj, rfl⟩
        have hpte := hw.pteAt_eq hm hv
        have hcr3 : ((s.setMem m).mmuSetPageDir dir).cr3 = dir := rfl
        rw [translate_eq (by rw [hcr3]; exact h.aligned), hcr3]
        show (if Present (pteAt m dir _) then some (ptePaddr (pteAt m dir _) + _) else none) = _
        rw [hpte, if_pos (hw.present _ hv)]
        rfl
      · have hbyte := hview (k + j) (by omega)
        rw [put_inside _ _ hj, view, hphys] at hbyte
        rw [hbyte, readByte, ha]
        rfl
    · intro x hx
      by_cases hframes : s.InFrames dir lo' span' x
      · obtain ⟨v, hv, hle, hlt⟩ := hframes
        have hle' := hv.1
        have hlt' := hv.2
        -- the byte has an address `lo' + l` in the page
        obtain ⟨l, hl⟩ := Nat.exists_eq_add_of_le
          (show lo' ≤ v * 4096 + (x - frameAt s.mem dir v) by omega)
        have hx' : s.physAt dir lo' l = x := by
          rw [physAt, ← hl, show (v * 4096 + (x - frameAt s.mem dir v)) / 4096 = v by omega]
          omega
        have hout : l < k ∨ k + span ≤ l := by
          by_contra hin'
          apply hx (l - k) (by omega)
          rw [← hphys, show k + (l - k) = l by omega, hx']
        have hbyte := hview l (by omega)
        rwa [put_outside _ _ hout, view, view, hx'] at hbyte
      · exact hm x hframes

/-! ### A directory with crossed mappings -/

/-- A directory at `0x1000` with a table at `0x2000`, which maps a frame, the table itself, a
frame in user memory, the table of the directory in use and two more frames, the higher one first,
and with a table at address `0`.  The directory in use, at `0x4000`, maps one page by its table at
`0x5000`. -/
def crossed : Kernel :=
  { boot 1 with
    mem :=
      [(0x1800, 0x2007), (0x1804, 0x7), (0x2000, 0x3007), (0x2004, 0x2007), (0x2008, 0x80001007),
        (0x200C, 0x5007), (0x2010, 0xA007), (0x2014, 0x9007), (0x4800, 0x5007), (0x5000, 0x6007),
        (0, 0x3007)].foldl
        (fun m w => store32 m w.1 w.2) fun _ => 0
    cr3 := 0x4000 }

/-- The memory a call leaves behind. -/
def memAfter (s : Kernel) (dir lo span src : Nat) : Memory :=
  match memoryCopyUvmData.loop s lo dir src span span with
  | .ok (_, t) => t.mem
  | .error t => t.mem

/-- The value a call returns. -/
def returns (s : Kernel) (dir lo span src : Nat) : Option Int :=
  match memoryCopyUvmData.loop s lo dir src span span with
  | .ok (r, _) => some r
  | .error _ => none

theorem Arrives.after (h : s.Arrives dir lo span src) :
  s.returns dir lo span src = some 0 ∧
    ∀ j < span, ∃ a b, s.kernelAddr (src + j) = some a ∧
      ((s.setMem (s.memAfter dir lo span src)).mmuSetPageDir dir).translate (lo + j) = some b ∧
      s.memAfter dir lo span src b = s.mem a
  := by
  obtain ⟨m, hloop, hbytes, -⟩ := h
  have hafter : s.memAfter dir lo span src = m := by
    rw [memAfter, hloop span (le_refl span)]
    rfl
  rw [hafter, returns, hloop span (le_refl span)]
  exact ⟨rfl, hbytes⟩

/-- A range in one page, and a source whose bytes follow each other. -/
theorem copyable_page {f a : Nat} (haligned : dir % 4096 = 0) (hend : lo + span ≤ 2 ^ 32)
    (hpage : lo % 4096 + span ≤ 4096) (hpresent : Present (pteAt s.mem dir (lo / 4096)))
    (hframe : frameAt s.mem dir (lo / 4096) = f) (hne : f ≠ 0) (hsrc : src + span ≤ 2 ^ 32)
    (hread : ∀ j < span, s.kernelAddr (src + j) = some (a + j))
    (hout : a + span ≤ f ∨ f + 4096 ≤ a) :
  s.Copyable dir lo span src
  := by
  have hone : ∀ v, OfRange lo span v → v = lo / 4096 := by
    rintro v ⟨j, hj, rfl⟩
    omega
  refine ⟨haligned, hend, ?_, ?_, ?_, hsrc, ?_⟩
  · intro v hv
    rw [hone v hv]
    exact hpresent
  · intro v w hv hw _
    rw [hone v hv, hone w hw]
  · intro v hv
    rw [hone v hv, hframe]
    exact hne
  · intro j hj
    refine ⟨a + j, hread j hj, ?_⟩
    intro v hv
    rw [hone v hv, hframe]
    omega

theorem copyable_crossed :
  crossed.Copyable 0x1000 0x80000000 1 0 ∧ crossed.Copyable 0x1000 0x80001004 1 0x7000 ∧
    crossed.Copyable 0x1000 0x80002000 1 0x7000 ∧ crossed.Copyable 0x1000 0x80400000 1 0x7000 ∧
    crossed.Copyable 0x1000 0x80003000 2 0x80000000
  := by
  refine ⟨copyable_page (f := 0x3000) (a := 0) ?_ ?_ ?_ ?_ ?_ ?_ ?_ ?_ ?_,
    copyable_page (f := 0x2000) (a := 0x7000) ?_ ?_ ?_ ?_ ?_ ?_ ?_ ?_ ?_,
    copyable_page (f := 0x80001000) (a := 0x7000) ?_ ?_ ?_ ?_ ?_ ?_ ?_ ?_ ?_,
    copyable_page (f := 0x3000) (a := 0x7000) ?_ ?_ ?_ ?_ ?_ ?_ ?_ ?_ ?_,
    copyable_page (f := 0x5000) (a := 0x6000) ?_ ?_ ?_ ?_ ?_ ?_ ?_ ?_ ?_⟩ <;> decide +kernel

/-- Each of these copies fails: from the null pointer, to the table of the range, to a frame in
user memory, by a table at address `0`, and to the table of the source. -/
theorem not_arrives_crossed :
  (crossed.Copyable 0x1000 0x80000000 1 0 ∧ ¬ crossed.Arrives 0x1000 0x80000000 1 0) ∧
    (crossed.Copyable 0x1000 0x80001004 1 0x7000 ∧ ¬ crossed.Arrives 0x1000 0x80001004 1 0x7000) ∧
    (crossed.Copyable 0x1000 0x80002000 1 0x7000 ∧ ¬ crossed.Arrives 0x1000 0x80002000 1 0x7000) ∧
    (crossed.Copyable 0x1000 0x80400000 1 0x7000 ∧ ¬ crossed.Arrives 0x1000 0x80400000 1 0x7000) ∧
    crossed.Copyable 0x1000 0x80003000 2 0x80000000 ∧
      ¬ crossed.Arrives 0x1000 0x80003000 2 0x80000000
  := by
  obtain ⟨hnull, htable, huser, hzero, hsource⟩ := copyable_crossed
  refine ⟨⟨hnull, ?_⟩, ⟨htable, ?_⟩, ⟨huser, ?_⟩, ⟨hzero, ?_⟩, hsource, ?_⟩
  · intro h
    obtain ⟨a, b, ha, hb, hbyte⟩ := h.after.2 0 (by decide)
    have ha' : crossed.kernelAddr (0 + 0) = some 0 := by decide +kernel
    have hb' : ((crossed.setMem (crossed.memAfter 0x1000 0x80000000 1 0)).mmuSetPageDir
        0x1000).translate (0x80000000 + 0) = some 0x3000 := by decide +kernel
    rw [ha'] at ha
    rw [hb'] at hb
    cases ha
    cases hb
    revert hbyte
    decide +kernel
  · intro h
    obtain ⟨a, b, -, hb, -⟩ := h.after.2 0 (by decide)
    have hb' : ((crossed.setMem (crossed.memAfter 0x1000 0x80001004 1 0x7000)).mmuSetPageDir
        0x1000).translate (0x80001004 + 0) = none := by decide +kernel
    rw [hb'] at hb
    cases hb
  · intro h
    exact absurd h.after.1 (by decide +kernel)
  · intro h
    exact absurd h.after.1 (by decide +kernel)
  · intro h
    exact absurd h.after.1 (by decide +kernel)

/-- Eight bytes from the memory of the kernel, to the end of a page and the beginning of the next
one, which is in a lower frame. -/
theorem memoryCopyUvmData_arrives_crossed :
  crossed.Arrives 0x1000 0x80004FFC 8 0x7000
  := by
  have hframes : frameAt crossed.mem 0x1000 524292 = 0xA000
      ∧ frameAt crossed.mem 0x1000 524293 = 0x9000 := by decide +kernel
  have htwo : ∀ v, OfRange 0x80004FFC 8 v → v = 524292 ∨ v = 524293 := by
    rintro v ⟨j, hj, rfl⟩
    omega
  apply memoryCopyUvmData_arrives
  · refine ⟨by decide, by decide, ?_, ?_, ?_, by decide, ?_⟩
    · intro v hv
      rcases htwo v hv with rfl | rfl <;> decide +kernel
    · intro v w hv hw hsame
      rcases htwo v hv with rfl | rfl <;> rcases htwo w hw with rfl | rfl
      · rfl
      · rw [hframes.1, hframes.2] at hsame
        cases hsame
      · rw [hframes.1, hframes.2] at hsame
        cases hsame
      · rfl
    · intro v hv
      rcases htwo v hv with rfl | rfl <;> decide +kernel
    · intro j hj
      refine ⟨0x7000 + j, if_pos (by unfold memoryTaskBase; omega), ?_⟩
      intro v hv
      rcases htwo v hv with rfl | rfl
      · rw [hframes.1]
        omega
      · rw [hframes.2]
        omega
  · refine ⟨by decide, ?_, ?_, ?_, ?_⟩
    · intro v hv
      rcases htwo v hv with rfl | rfl <;> decide +kernel
    · intro v hv
      rcases htwo v hv with rfl | rfl <;> decide +kernel
    · intro v w t hv hw ht
      have htable : tableAt crossed.mem 0x1000 (w / 1024) = some 0x2000 := by
        rcases htwo w hw with rfl | rfl <;> decide +kernel
      rw [htable] at ht
      cases ht
      rcases htwo v hv with rfl | rfl <;> decide +kernel
    · intro j hj hle
      unfold memoryTaskBase at hle
      omega

end Dmos.Kernel
