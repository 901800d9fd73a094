import Dmos.Kernel.Copy
import Dmos.Kernel.UserData

/-!
# Data copied to another address space

A window is a range of user addresses that a directory maps, page by page, to distinct frames
which are neither the directory nor one of its tables.  What is written through a window
(`view`) leaves the translation of the window as it is, so that `memoryCopyUvmData` puts the
bytes it reads at the addresses it is given (`Window.copyData`).
-/

open ByteMemory

namespace Dmos

namespace Kernel

/-! ### Copies of bytes that are read -/

variable {s : Kernel}

theorem kMemcpy_loop_put {dest src n : Nat} {b : Nat → UInt8} (hdest : dest + n ≤ memoryTaskBase)
    (hend : src + n ≤ 2 ^ 32)
    (hread : ∀ m : Memory, (∀ x, x < dest ∨ dest + n ≤ x → m x = s.mem x) →
      ∀ j < n, (s.setMem m).readByte (src + j) = some (b j)) :
  kMemcpy.loop s dest src n = (0, s.setMem (put s.mem dest n b))
  := by
  unfold memoryTaskBase at hdest
  induction n generalizing s dest src b with
  | zero =>
      rw [put_zero]
      rfl
  | succ n ih =>
      have hfirst := hread s.mem (fun _ _ => rfl) 0 (by omega)
      change (s.kernelAddr src).map s.mem = some (b 0) at hfirst
      rw [Option.map_eq_some_iff] at hfirst
      obtain ⟨a, ha, hb⟩ := hfirst
      have hto : s.kernelAddr dest = some dest := by
        rw [kernelAddr, if_pos (by unfold memoryTaskBase; omega)]
      rw [kMemcpy.loop, ha, hto]
      dsimp only
      rw [hb, u32_of_lt (by omega)]
      rcases Nat.eq_zero_or_pos n with rfl | hn
      · rw [Nat.zero_add, put_one]
        rfl
      · have hput : put s.mem dest (n + 1) b
            = put (store8 s.mem dest (b 0)) (dest + 1) n fun j => b (j + 1) := by
          rw [Nat.add_comm n 1, ← put_put, put_one]
          simp only [Nat.add_comm 1]
        rw [u32_of_lt (by omega), hput]
        apply ih (s := s.setMem (store8 s.mem dest (b 0))) (by omega) (by omega)
        intro m hm j hj
        rw [Nat.add_assoc, Nat.add_comm 1]
        apply hread m _ (j + 1) (by omega)
        intro x hx
        rw [hm x (by omega)]
        apply store8_of_ne
        omega

/-- A copy to the kernel puts there the bytes that are read. -/
theorem kMemcpy_put {dest src n : Nat} {b : Nat → UInt8} (hdest : dest + n ≤ memoryTaskBase)
    (hdest' : dest ≠ 0) (hsrc : src ≠ 0) (hend : src + n ≤ 2 ^ 32)
    (hread : ∀ m : Memory, (∀ x, x < dest ∨ dest + n ≤ x → m x = s.mem x) →
      ∀ j < n, (s.setMem m).readByte (src + j) = some (b j)) :
  s.kMemcpy dest src n = (0, s.setMem (put s.mem dest n b))
  := by
  rw [kMemcpy]
  by_cases hn : n = 0
  · rw [if_pos (.inr (.inr hn)), hn, put_zero]
    rfl
  · rw [if_neg (by tauto), kMemcpy_loop_put hdest hend hread]

/-! ### Windows -/

/-- The page `v` has addresses among the `span` from `lo` on. -/
def InWindow (lo span v : Nat) : Prop :=
  lo / 4096 ≤ v ∧ v * 4096 < lo + span

/-- The frame behind page `v` of a directory. -/
def frameAt (m : Memory) (dir v : Nat) : Nat :=
  ptePaddr (pteAt m dir v)

/-- What a copy asks of a range of addresses, wherever it lies. -/
structure Target (s : Kernel) (dir lo span : Nat) : Prop where
  aligned : dir % 4096 = 0
  end_le : lo + span ≤ 2 ^ 32
  present : ∀ v, InWindow lo span v → Present (pteAt s.mem dir v)
  distinct : ∀ v w, InWindow lo span v → InWindow lo span w →
    frameAt s.mem dir v = frameAt s.mem dir w → v = w
  frame_pos : ∀ v, InWindow lo span v → 0 < frameAt s.mem dir v
  frame_end : ∀ v, InWindow lo span v → frameAt s.mem dir v + 4096 ≤ memoryTaskBase
  not_dir : ∀ v, InWindow lo span v → frameAt s.mem dir v ≠ dir
  not_table : ∀ v w t, InWindow lo span v → InWindow lo span w →
    tableAt s.mem dir (w / 1024) = some t → t ≠ 0 ∧ frameAt s.mem dir v ≠ t

/-- A range of user addresses. -/
structure Window (s : Kernel) (dir lo span : Nat) : Prop extends Target s dir lo span where
  user : memoryTaskBase ≤ lo

/-- The bytes of the frames behind the window. -/
def InFrames (s : Kernel) (dir lo span x : Nat) : Prop :=
  ∃ v, InWindow lo span v ∧ frameAt s.mem dir v ≤ x ∧ x < frameAt s.mem dir v + 4096

/-- The memory is the same outside of the frames behind the window. -/
def Agrees (s : Kernel) (dir lo span : Nat) (m : Memory) : Prop :=
  ∀ x, ¬ s.InFrames dir lo span x → m x = s.mem x

/-- The physical address behind the address `lo + k`. -/
def physAt (s : Kernel) (dir lo k : Nat) : Nat :=
  frameAt s.mem dir ((lo + k) / 4096) + (lo + k) % 4096

/-- The bytes of the window, as the directory maps them. -/
def view (s : Kernel) (dir lo : Nat) (m : Memory) : Memory :=
  fun k => m (s.physAt dir lo k)

namespace Window

variable {dir lo span : Nat} {m : Memory} {k l : Nat}

theorem inWindow (lo : Nat) (hk : k < span) :
  InWindow lo span ((lo + k) / 4096)
  := by
  constructor
  · apply Nat.div_le_div_right
    omega
  · omega

theorem frameAt_aligned (m : Memory) (dir v : Nat) :
  frameAt m dir v % 4096 = 0
  := by
  rw [frameAt, ptePaddr_eq]
  omega

theorem inFrames (s : Kernel) (dir : Nat) (hk : k < span) :
  s.InFrames dir lo span (s.physAt dir lo k)
  := by
  refine ⟨_, inWindow lo hk, ?_⟩
  unfold physAt
  omega

/-- Inside a page the bytes follow each other. -/
theorem physAt_add (hoffset : (lo + k) % 4096 + l < 4096) :
  s.physAt dir lo (k + l) = s.physAt dir lo k + l
  := by
  rw [physAt, physAt, show (lo + (k + l)) / 4096 = (lo + k) / 4096 by omega]
  omega

theorem sameFrame (hm : s.Agrees dir lo span m) {f : Nat} (haligned : f % 4096 = 0)
    (hf : ∀ v, InWindow lo span v → frameAt s.mem dir v ≠ f) :
  SameFrame s.mem m f
  := by
  intro x hx hx'
  apply hm
  rintro ⟨v, hv, hle, hlt⟩
  have := hf v hv
  have := frameAt_aligned s.mem dir v
  omega

theorem agrees_put (hm : s.Agrees dir lo span m) {n : Nat} (b : Nat → UInt8) (hn : k + n ≤ span)
    (hfollow : ∀ j < n, s.physAt dir lo (k + j) = s.physAt dir lo k + j) :
  s.Agrees dir lo span (put m (s.physAt dir lo k) n b)
  := by
  intro x hx
  rw [put_outside, hm x hx]
  by_contra hin
  obtain ⟨j, rfl⟩ := Nat.exists_eq_add_of_le (show s.physAt dir lo k ≤ x by omega)
  apply hx
  rw [← hfollow j (by omega)]
  apply inFrames
  omega

theorem copyData_loop_zero (s : Kernel) (dest dir src fuel : Nat) :
  memoryCopyUvmData.loop s dest dir src 0 fuel = .ok (0, s)
  := by
  cases fuel with
  | zero => rfl
  | succ fuel => rw [memoryCopyUvmData.loop, if_pos rfl]

end Window

namespace Target

variable {dir lo span : Nat} {m : Memory} {k l : Nat}

/-- Different addresses of the window have different bytes. -/
theorem physAt_injective (hw : Target s dir lo span) (hk : k < span) (hl : l < span)
    (h : s.physAt dir lo k = s.physAt dir lo l) :
  k = l
  := by
  have hk' := Window.frameAt_aligned s.mem dir ((lo + k) / 4096)
  have hl' := Window.frameAt_aligned s.mem dir ((lo + l) / 4096)
  unfold physAt at h
  have hv := hw.distinct _ _ (Window.inWindow lo hk) (Window.inWindow lo hl) (by omega)
  rw [hv] at h
  omega

/-- What is written through the window leaves its entries as they are. -/
theorem pteAt_eq (hw : Target s dir lo span) (hm : s.Agrees dir lo span m) {v : Nat}
    (hv : InWindow lo span v) :
  pteAt m dir v = pteAt s.mem dir v
  := by
  have hend := hw.end_le
  have hlt := hv.2
  apply pteAt_congr (Window.sameFrame hm hw.aligned hw.not_dir) (by omega)
  intro t ht
  apply Window.sameFrame hm (tableAt_aligned ht)
  intro w hw'
  apply (hw.not_table w v t hw' hv ht).2

theorem memoryGetPaddr_eq (hw : Target s dir lo span) (hm : s.Agrees dir lo span m)
    (hk : k < span) :
  (s.setMem m).memoryGetPaddr dir (lo + k) = s.physAt dir lo k
  := by
  have hv := Window.inWindow lo hk
  have hpte := hw.pteAt_eq hm hv
  have hpresent := hw.present _ hv
  rw [← hpte] at hpresent
  cases ht : tableAt m dir ((lo + k) / 4096 / 1024) with
  | none =>
      rw [pteAt_of_no_table ht] at hpresent
      cases hpresent
  | some t =>
      rw [pteAt_of_table ht] at hpte
      obtain ⟨hpde, haddr⟩ := tableAt_eq_some_iff.mp ht
      have hpos : 0 < t := by
        have hsame : tableAt s.mem dir ((lo + k) / 4096 / 1024) = some t := by
          rw [← ht]
          symm
          apply tableAt_congr (Window.sameFrame hm hw.aligned hw.not_dir)
          have hend := hw.end_le
          omega
        apply Nat.pos_of_ne_zero (hw.not_table _ _ t hv hv hsame).1
      have hfind : ((s.setMem m).findPte dir (lo + k) 0).1 = t + 4 * ((lo + k) / 4096 % 1024) := by
        rw [findPte]
        dsimp only
        rw [if_pos (by rw [pdeIndex_page]; exact hpde), pdeIndex_page, pteIndex_eq]
        dsimp only
        congr 1
      rw [memoryGetPaddr, hfind, if_neg (by omega), show (lo + k) &&& (memPageSize - 1) = (lo + k) % 4096 from
        Nat.and_two_pow_sub_one_eq_mod _ 12]
      rw [physAt, frameAt, ← hpte]
      rfl

/-- Bytes put behind addresses whose bytes follow each other appear there, and only there. -/
theorem view_put (hw : Target s dir lo span) {n : Nat} (b : Nat → UInt8) (hn : k + n ≤ span)
    (hfollow : ∀ j < n, s.physAt dir lo (k + j) = s.physAt dir lo k + j) (hl : l < span) :
  s.view dir lo (put m (s.physAt dir lo k) n b) l = put (s.view dir lo m) k n b l
  := by
  by_cases hin : k ≤ l ∧ l < k + n
  · obtain ⟨j, rfl⟩ := Nat.exists_eq_add_of_le hin.1
    rw [put_inside _ _ (by omega), view, hfollow j (by omega), put_inside _ _ (by omega)]
  · rw [put_outside _ _ (by omega), view, put_outside]
    · rfl
    · by_contra hphys
      obtain ⟨j, hj⟩ := Nat.exists_eq_add_of_le (show s.physAt dir lo k ≤ s.physAt dir lo l by omega)
      have hadd := hfollow j (by omega)
      have heq := hw.physAt_injective (k := k + j) (l := l) (by omega) hl (by omega)
      omega

/-! ### Copies into a range -/

/-- Bytes copied to addresses whose bytes follow each other. -/
theorem copyChunk (hw : Target s dir lo span) {c src : Nat} {b : Nat → UInt8}
    (hm : s.Agrees dir lo span m) (hc : k + c ≤ span)
    (hfollow : ∀ j < c, s.physAt dir lo (k + j) = s.physAt dir lo k + j) (hpos : 0 < c)
    (hsrc : src ≠ 0) (hend : src + c ≤ 2 ^ 32)
    (hread : ∀ m', s.Agrees dir lo span m' →
      ∀ j < c, (s.setMem m').readByte (src + j) = some (b j)) :
  (s.setMem m).kMemcpy (s.physAt dir lo k) src c
    = (0, s.setMem (put m (s.physAt dir lo k) c b))
  := by
  have hframe_pos := hw.frame_pos _ (Window.inWindow lo (show k < span by omega))
  have hframe_end := hw.frame_end _ (Window.inWindow lo (show k + (c - 1) < span by omega))
  have hfirst : s.physAt dir lo k = frameAt s.mem dir ((lo + k) / 4096) + (lo + k) % 4096 := rfl
  have hlast := hfollow (c - 1) (by omega)
  rw [physAt] at hlast
  apply kMemcpy_put (by omega) (by omega) hsrc hend
  intro m' hm'
  apply hread
  intro x hx
  have houtside : x < s.physAt dir lo k ∨ s.physAt dir lo k + c ≤ x := by
    by_contra hin
    obtain ⟨j, rfl⟩ := Nat.exists_eq_add_of_le (show s.physAt dir lo k ≤ x by omega)
    apply hx
    rw [← hfollow j (by omega)]
    apply Window.inFrames
    omega
  rw [hm' x houtside]
  apply hm x hx

theorem copyData_loop (hw : Target s dir lo span) {n src fuel : Nat} {b : Nat → UInt8}
    (hm : s.Agrees dir lo span m) (hn : k + n ≤ span) (hsrc : src ≠ 0) (hend : src + n ≤ 2 ^ 32)
    (hread : ∀ m', s.Agrees dir lo span m' → ∀ j < n, (s.setMem m').readByte (src + j) = some (b j))
    (hfuel : n ≤ fuel) :
  ∃ m', memoryCopyUvmData.loop (s.setMem m) (u32 (lo + k)) dir src n fuel = .ok (0, s.setMem m')
    ∧ s.Agrees dir lo span m'
    ∧ ∀ l < span, s.view dir lo m' l = put (s.view dir lo m) k n b l
  := by
  induction fuel generalizing m k n src b with
  | zero =>
      obtain rfl : n = 0 := by omega
      exact ⟨m, rfl, hm, fun l _ => by rw [put_zero]⟩
  | succ fuel ih =>
      rw [memoryCopyUvmData.loop]
      by_cases hzero : n = 0
      · rw [if_pos hzero, hzero]
        exact ⟨m, rfl, hm, fun l _ => by rw [put_zero]⟩
      · have hlo := hw.end_le
        have hv : InWindow lo span ((lo + k) / 4096) := Window.inWindow lo (by omega)
        have hpos := hw.frame_pos _ hv
        have hphys : s.physAt dir lo k
            = frameAt s.mem dir ((lo + k) / 4096) + (lo + k) % 4096 := rfl
        have hmod : s.physAt dir lo k % 4096 = (lo + k) % 4096 := by
          have := Window.frameAt_aligned s.mem dir ((lo + k) / 4096)
          omega
        rw [if_neg hzero, u32_of_lt (by omega), hw.memoryGetPaddr_eq hm (by omega)]
        dsimp only
        rw [if_neg (by omega), show s.physAt dir lo k &&& (memPageSize - 1) = (lo + k) % 4096 from
          (Nat.and_two_pow_sub_one_eq_mod _ 12).trans hmod]
        -- the bytes up to the end of the page, or all
        obtain ⟨c, hc, hcpos, hcn, hcpage⟩ : ∃ c,
            (if n < memPageSize - (lo + k) % 4096 then n else memPageSize - (lo + k) % 4096) = c
              ∧ 0 < c ∧ c ≤ n ∧ (lo + k) % 4096 + c ≤ 4096 := by
          refine ⟨_, rfl, ?_⟩
          unfold memPageSize
          split_ifs <;> omega
        rw [hc]
        have hfollow (j : Nat) (hj : j < c) : s.physAt dir lo (k + j) = s.physAt dir lo k + j := by
          apply Window.physAt_add
          omega
        have hcopy := hw.copyChunk hm (by omega) hfollow hcpos hsrc (by omega)
          fun m' hm' j hj => hread m' hm' j (by omega)
        have hagrees : s.Agrees dir lo span (put m (s.physAt dir lo k) c b) :=
          Window.agrees_put hm b (by omega) hfollow
        have hview (l : Nat) (hl : l < span) :
            s.view dir lo (put m (s.physAt dir lo k) c b) l = put (s.view dir lo m) k c b l :=
          hw.view_put b (by omega) hfollow hl
        rw [hcopy]
        change ∃ m', memoryCopyUvmData.loop (s.setMem (put m (s.physAt dir lo k) c b))
          (u32 (lo + k + c)) dir (u32 (src + c)) (n - c) fuel = _ ∧ _
        rcases hcn.eq_or_lt with rfl | hlt
        · rw [Nat.sub_self, Window.copyData_loop_zero]
          exact ⟨_, rfl, hagrees, hview⟩
        · rw [u32_of_lt (show src + c < 2 ^ 32 by omega), Nat.add_assoc lo]
          have hrest : ∀ m', s.Agrees dir lo span m' →
              ∀ j < n - c, (s.setMem m').readByte (src + c + j) = some (b (c + j)) := by
            intro m' hm' j hj
            rw [Nat.add_assoc]
            apply hread m' hm' _ (by omega)
          obtain ⟨m', hloop, hm', hview'⟩ :=
            ih hagrees (k := k + c) (by omega) (by omega) (by omega) hrest (by omega)
          refine ⟨m', hloop, hm', ?_⟩
          intro l hl
          have hput := put_put (s.view dir lo m) k c (n - c) b
          rw [Nat.add_sub_cancel' hcn] at hput
          rw [hview' l hl, ← hput]
          by_cases hin : k + c ≤ l ∧ l < k + c + (n - c)
          · rw [put, put, if_pos hin, if_pos hin]
          · rw [put_outside _ _ (by omega), put_outside _ _ (by omega), hview l hl]

/-- Data that can be read whatever is written through the window arrives in it. -/
theorem copyData (hw : Target s dir lo span) {n src : Nat} {b : Nat → UInt8}
    (hm : s.Agrees dir lo span m) (hn : k + n ≤ span) (hsrc : src ≠ 0) (hend : src + n ≤ 2 ^ 32)
    (hread : ∀ m', s.Agrees dir lo span m' →
      ∀ j < n, (s.setMem m').readByte (src + j) = some (b j)) :
  ∃ m', (s.setMem m).memoryCopyUvmData (u32 (lo + k)) dir src n = .ok (0, s.setMem m')
    ∧ s.Agrees dir lo span m'
    ∧ ∀ l < span, s.view dir lo m' l = put (s.view dir lo m) k n b l
  := hw.copyData_loop hm hn hsrc hend hread (le_refl n)

end Target

namespace Window

variable {dir lo span : Nat} {m : Memory} {k l : Nat}

theorem pteAt_eq (hw : Window s dir lo span) (hm : s.Agrees dir lo span m) {v : Nat}
    (hv : InWindow lo span v) :
  pteAt m dir v = pteAt s.mem dir v
  := hw.toTarget.pteAt_eq hm hv

theorem memoryGetPaddr_eq (hw : Window s dir lo span) (hm : s.Agrees dir lo span m)
    (hk : k < span) :
  (s.setMem m).memoryGetPaddr dir (lo + k) = s.physAt dir lo k
  := hw.toTarget.memoryGetPaddr_eq hm hk

/-- A window stays one when the directory and its tables stay. -/
theorem congr (hw : Window s dir lo span) (hdir : SameFrame s.mem m dir)
    (htable : ∀ v t, InWindow lo span v → tableAt s.mem dir (v / 1024) = some t →
      SameFrame s.mem m t) :
  Window (s.setMem m) dir lo span ∧ ∀ v, InWindow lo span v → pteAt m dir v = pteAt s.mem dir v
  := by
  have hlt : ∀ v, InWindow lo span v → v < 2 ^ 20 := by
    intro v hv
    have hend := hw.end_le
    have := hv.2
    omega
  have hpte : ∀ v, InWindow lo span v → pteAt m dir v = pteAt s.mem dir v :=
    fun v hv => pteAt_congr hdir (hlt v hv) (fun t => htable v t hv)
  have hframe : ∀ v, InWindow lo span v → frameAt m dir v = frameAt s.mem dir v := by
    intro v hv
    rw [frameAt, frameAt, hpte v hv]
  refine ⟨⟨?_, hw.user⟩, hpte⟩
  constructor
  · apply hw.aligned
  · apply hw.end_le
  · intro v hv
    rw [setMem_mem, hpte v hv]
    apply hw.present v hv
  · intro v w hv hv'
    rw [setMem_mem, hframe v hv, hframe w hv']
    apply hw.distinct v w hv hv'
  · intro v hv
    rw [setMem_mem, hframe v hv]
    apply hw.frame_pos v hv
  · intro v hv
    rw [setMem_mem, hframe v hv]
    apply hw.frame_end v hv
  · intro v hv
    rw [setMem_mem, hframe v hv]
    apply hw.not_dir v hv
  · intro v w t hv hv' ht
    have hi := hlt w hv'
    rw [setMem_mem, tableAt_congr hdir (by omega)] at ht
    rw [setMem_mem, hframe v hv]
    apply hw.not_table v w t hv hv' ht

/-- Fewer addresses of a window are one. -/
theorem mono (hw : Window s dir lo span) {lo' span' : Nat} (hlo : lo ≤ lo')
    (hend : lo' + span' ≤ lo + span) :
  Window s dir lo' span'
  := by
  have hin : ∀ v, InWindow lo' span' v → InWindow lo span v := by
    rintro v ⟨hle, hlt⟩
    exact ⟨(Nat.div_le_div_right hlo).trans hle, by omega⟩
  refine ⟨?_, hw.user.trans hlo⟩
  constructor
  · apply hw.aligned
  · apply hend.trans hw.end_le
  · intro v hv
    apply hw.present v (hin v hv)
  · intro v w hv hv'
    apply hw.distinct v w (hin v hv) (hin w hv')
  · intro v hv
    apply hw.frame_pos v (hin v hv)
  · intro v hv
    apply hw.frame_end v (hin v hv)
  · intro v hv
    apply hw.not_dir v (hin v hv)
  · intro v w t hv hv'
    apply hw.not_table v w t (hin v hv) (hin w hv')

/-- What the directory shows at the addresses of the window. -/
theorem readByte_eq (hw : Window s dir lo span) (hm : s.Agrees dir lo span m) (hk : k < span) :
  ((s.setMem m).mmuSetPageDir dir).readByte (lo + k) = some (s.view dir lo m k)
  := by
  have hv := inWindow lo hk
  have huser := hw.user
  have htranslate : ((s.setMem m).mmuSetPageDir dir).translate (lo + k)
      = some (s.physAt dir lo k) := by
    rw [translate_eq hw.aligned]
    change (if Present (pteAt m dir ((lo + k) / 4096)) then
      some (ptePaddr (pteAt m dir ((lo + k) / 4096)) + (lo + k) % 4096) else none) = _
    rw [hw.pteAt_eq hm hv, if_pos (hw.present _ hv)]
    rfl
  rw [readByte, kernelAddr, if_neg (by omega), htranslate]
  rfl

theorem readWord_eq (hw : Window s dir lo span) (hm : s.Agrees dir lo span m) (hk : k + 4 ≤ span) :
  ((s.setMem m).mmuSetPageDir dir).readWord (lo + k) = some (load32 (s.view dir lo m) k)
  := by
  have hend := hw.end_le
  apply Kernel.readWord_eq (by omega)
  intro j hj
  rw [u32_of_lt (by omega), Nat.add_assoc]
  apply hw.readByte_eq hm (by omega)

theorem isString (hw : Window s dir lo span) (hm : s.Agrees dir lo span m) {path : List UInt8}
    (hk : k + path.length < span)
    (hbytes : ∀ j (h : j < path.length), s.view dir lo m (k + j) = path[j])
    (hnull : s.view dir lo m (k + path.length) = 0) (hnonzero : 0 ∉ path) :
  IsString ((s.setMem m).mmuSetPageDir dir) (lo + k) path
  := by
  have hend := hw.end_le
  constructor
  · intro j hj
    rw [u32_of_lt (by omega), Nat.add_assoc, hw.readByte_eq hm (by omega), hbytes j hj]
  · apply hnonzero
  · rw [u32_of_lt (by omega), Nat.add_assoc, hw.readByte_eq hm hk, hnull]

theorem view_store8 (hw : Window s dir lo span) (c : UInt8) (hk : k < span) (hl : l < span) :
  s.view dir lo (store8 m (s.physAt dir lo k) c) l = store8 (s.view dir lo m) k c l
  := by
  have hput := hw.toTarget.view_put (m := m) (n := 1) (fun _ => c) (k := k) (by omega)
    (fun j hj => by rw [show j = 0 by omega]; rfl) hl
  rwa [put_one, put_one] at hput

/-- A word stored behind four bytes that follow each other. -/
theorem view_store32 (hw : Window s dir lo span) (v : Nat) (hk : k + 4 ≤ span)
    (hfollow : ∀ j < 4, s.physAt dir lo (k + j) = s.physAt dir lo k + j) (hl : l < span) :
  s.view dir lo (store32 m (s.physAt dir lo k) v) l = store32 (s.view dir lo m) k v l
  := by
  have h8 (m : Memory) (c : UInt8) (j : Nat) (hj : j < 4) :
      s.view dir lo (store8 m (s.physAt dir lo k + j) c) l
        = if l = k + j then c else s.view dir lo m l := by
    rw [← hfollow j hj, hw.view_store8 c (by omega) hl]
    rfl
  have h0 := h8 m (.ofNat v) 0 (by decide)
  rw [Nat.add_zero, Nat.add_zero] at h0
  rw [store32, h8 _ _ 3 (by decide), h8 _ _ 2 (by decide), h8 _ _ 1 (by decide), h0]
  rfl

theorem agrees_store32 (hm : s.Agrees dir lo span m) (v : Nat) (hk : k + 4 ≤ span)
    (hfollow : ∀ j < 4, s.physAt dir lo (k + j) = s.physAt dir lo k + j) :
  s.Agrees dir lo span (store32 m (s.physAt dir lo k) v)
  := by
  intro x hx
  rw [store32_of_disjoint, hm x hx]
  by_contra hin
  obtain ⟨j, hj⟩ := Nat.exists_eq_add_of_le (show s.physAt dir lo k ≤ x by omega)
  apply hx
  rw [hj, ← hfollow j (by omega)]
  apply inFrames
  omega

end Window

end Kernel

end Dmos
