import Dmos.Kernel.CreateMap
import Dmos.Library.Transition
import Dmos.Task.Sbrk

/-!
# Shrinking the heap

`sysSbrk` takes a negative increment, and no page is ever unmapped.  From an end inside a
page the heap just gets shorter.  From an end at a page boundary the difference of the new
end and the old one is taken for the size of an allocation, which is nearly the whole
address space once the increment is a page or more: frames are taken for the pages behind
the heap until there are none left (`memoryAllocForPageDir_takes`).  And when the heap grows
again over pages that stayed mapped, each of them is given another frame.

`Meets` says when a call avoids both.  In runs of such calls shrinking is safe and no page
loses its frame, and any other call breaks this (`sysSbrk_safe`).
-/

open ByteMemory AddressSpace Loop TransitionSystem

namespace Dmos

/-! ### Frames are only taken -/

namespace Kernel

/-- Frames marked used have stayed so. -/
structure MarksKept (s s' : Kernel) : Prop where
  range : s.gPaddrAlloc.SameRange s'.gPaddrAlloc
  marked : ∀ g, s.Marked g → s'.Marked g

namespace MarksKept

variable {s s' s'' : Kernel}

theorem refl (s : Kernel) :
  MarksKept s s
  := ⟨.refl _, fun _ hg => hg⟩

theorem trans (h : MarksKept s s') (h' : MarksKept s' s'') :
  MarksKept s s''
  := ⟨h.range.trans h'.range, fun g hg => h'.marked g (h.marked g hg)⟩

/-- Memory does not matter. -/
theorem setMem (h : MarksKept s s') (m : Memory) :
  MarksKept s (s'.setMem m)
  := ⟨h.range, h.marked⟩

/-- Taking the first free frame. -/
theorem take {f : Nat} {rest : List Nat} (hr : RangeWf s.gPaddrAlloc) (hfree : s.free = f :: rest) :
  MarksKept s s.take
  := by
  use s.take_sameRange
  intro g hg
  rw [marked_take hr hfree]
  left
  apply hg

theorem findPte {d v pte : Nat} (h : FindPte s d v pte s') (hr : RangeWf s.gPaddrAlloc) :
  MarksKept s s'
  := by
  cases h with
  | found => apply refl
  | full => apply refl
  | installed hfree => apply (take hr hfree).setMem

/-- Mapping a page takes frames at most. -/
theorem memoryCreateMap_one (hr : RangeWf s.gPaddrAlloc) (d vaddr paddr perm : Nat) :
  MarksKept s (s.memoryCreateMap d vaddr paddr 1 perm).2
  := by
  have hfind := findPte (findPte_cases hr d vaddr) hr
  rw [Kernel.memoryCreateMap_one]
  rcases hres : s.findPte d vaddr 1 with ⟨pte, s'⟩
  rw [hres] at hfind
  dsimp only
  split_ifs
  · apply hfind
  · apply hfind.setMem

/-- What a pass of `memoryAllocForPageDir` ends with, on staying in the loop or on leaving
it. -/
theorem pass (d perm i cv : Nat) {base f : Nat} {rest : List Nat} (hr : RangeWf s.gPaddrAlloc)
    (hbase : memoryTaskBase ≤ base) (hlt : base < 2 ^ 32) (hfree : s.free = f :: rest) :
  Ends (memoryAllocForPageDir.pass d base perm i (cv, s))
    (fun r => MarksKept s.take r.2) (fun r => MarksKept s.take r.2)
  := by
  have hf : f ≠ 0 := by
    have hbounds := hr.free_bounds (f := f) (by rw [← Kernel.free, hfree]; apply List.mem_cons_self)
    unfold memExtStart at hbounds
    omega
  have hmap := memoryCreateMap_one (rangeWf_take hr) d cv f perm
  rw [memoryAllocForPageDir.pass, addrAllocPage_of_free hr hfree]
  simp only [if_neg hf]
  rcases hres : s.take.memoryCreateMap d cv f 1 perm with ⟨err, s'⟩
  rw [hres] at hmap
  dsimp only
  split_ifs
  · dsimp only [Ends]
    rw [addrFreePage_of_user base ((rangeWf_take hr).sameRange hmap.range) hbase hlt]
    apply hmap
  · apply hmap

/-- The passes of `memoryAllocForPageDir` take frames at most. -/
theorem passes (d perm i n cv : Nat) {base : Nat} (hr : RangeWf s.gPaddrAlloc)
    (hbase : memoryTaskBase ≤ base) (hlt : base < 2 ^ 32) :
  Ends (forLoop (memoryAllocForPageDir.pass d base perm) i n (cv, s))
    (fun r => MarksKept s r.2) (fun r => MarksKept s r.2)
  := by
  apply forLoop_rule _ (fun _ (r : Nat × Kernel) => MarksKept s r.2) _ (refl s)
  rintro k ⟨cv, t⟩ - - ht
  rcases hfree : t.free with _ | ⟨f, rest⟩
  · rw [memoryAllocForPageDir.pass, addrAllocPage_of_full hfree]
    apply ht
  · have hrange := hr.sameRange ht.range
    apply (pass d perm k cv hrange hbase hlt hfree).mono
    · intro r hr'
      apply ht.trans ((take hrange hfree).trans hr')
    · intro r hr'
      apply ht.trans ((take hrange hfree).trans hr')

end MarksKept

section Takes

variable {s : Kernel} {d vaddr size perm : Nat}

/-- An allocation of no page. -/
theorem memoryAllocForPageDir_of_no_page (hcount : up2 size memPageSize / memPageSize = 0) :
  s.memoryAllocForPageDir d vaddr size perm = (0, s)
  := by
  rw [memoryAllocForPageDir, hcount]
  rfl

/-- An allocation without a free frame changes nothing. -/
theorem memoryAllocForPageDir_of_full (hfree : s.free = []) :
  s.memoryAllocForPageDir d vaddr size perm = (0, s)
  := by
  rw [memoryAllocForPageDir]
  rcases up2 size memPageSize / memPageSize with _ | n
  · rfl
  · simp only [forLoop, memoryAllocForPageDir.pass, addrAllocPage_of_full hfree, if_true]

/-- An allocation of at least one page takes the first free frame. -/
theorem memoryAllocForPageDir_takes (d perm : Nat) (hr : RangeWf s.gPaddrAlloc) (hbase : memoryTaskBase ≤ vaddr)
    (hlt : vaddr < 2 ^ 32) {f : Nat} {rest : List Nat} (hfree : s.free = f :: rest)
    (hcount : up2 size memPageSize / memPageSize ≠ 0) :
  (s.memoryAllocForPageDir d vaddr size perm).2.Marked f
  := by
  have hdown := down2_page hlt
  unfold memoryTaskBase at hbase
  have hbase' : memoryTaskBase ≤ down2 vaddr memPageSize := by
    rw [hdown]
    unfold memoryTaskBase
    omega
  have hlt' : down2 vaddr memPageSize < 2 ^ 32 := by
    rw [hdown]
    omega
  have hmarked : s.take.Marked f := (marked_take hr hfree f).mpr (.inr rfl)
  obtain ⟨n, hn⟩ := Nat.exists_eq_succ_of_ne_zero hcount
  have hfirst := MarksKept.pass d perm 0 vaddr hr hbase' hlt' hfree
  rw [memoryAllocForPageDir, hn]
  simp only [forLoop]
  rcases hpass : memoryAllocForPageDir.pass d (down2 vaddr memPageSize) perm 0 (vaddr, s)
    with r | ⟨cv, t⟩
  · rw [hpass] at hfirst
    apply hfirst.marked f hmarked
  · rw [hpass] at hfirst
    have hrest := MarksKept.passes d perm 1 n cv
      ((rangeWf_take hr).sameRange hfirst.range) hbase' hlt'
    dsimp only
    rcases hloop : forLoop (memoryAllocForPageDir.pass d (down2 vaddr memPageSize) perm) 1 n (cv, t)
      with r | ⟨cv', t'⟩
    all_goals rw [hloop] at hrest
    · apply hrest.marked f (hfirst.marked f hmarked)
    · apply hrest.marked f (hfirst.marked f hmarked)

end Takes

end Kernel

namespace Os

/-! ### One shrinking call -/

section Shrinking

variable {s : Os} {n : Nat} (hbase : memoryTaskBase ≤ s.heapEnd - n) (hend : s.heapEnd < 2 ^ 32)
  (hn : 0 < n)

include hbase hend hn

theorem word_shrink :
  u32 (s.heapEnd + word (-(n : Int))) = s.heapEnd - n
  := by
  unfold memoryTaskBase at hbase
  unfold u32 word
  omega

/-- From an end inside a page the heap gets shorter. -/
theorem sysSbrk_of_inside (hoffset : s.heapEnd % 4096 ≠ 0) :
  s.sysSbrk (-n) = (s.heapEnd, s.setHeapEnd (s.heapEnd - n))
  := by
  have hheap := word_shrink hbase hend hn
  unfold memoryTaskBase at hbase
  have hsum : asInt (word ((s.heapEnd % memPageSize : Nat) + -(n : Int))) ≤ memPageSize := by
    rw [asInt_word] <;> unfold memPageSize <;> omega
  rw [sysSbrk, if_neg (by omega)]
  simp only [hheap, if_pos hoffset, if_pos hsum]

/-- From an end at a page boundary the call allocates. -/
theorem sysSbrk_of_boundary (haligned : s.heapEnd % 4096 = 0) :
  s.sysSbrk (-n) =
    match s.memoryAllocPageFor s.heapEnd (2 ^ 32 - n) heapPerm with
    | (err, t) => if err < 0 then (errorWord, t) else (s.heapEnd, t.setHeapEnd (s.heapEnd - n))
  := by
  have hheap := word_shrink hbase hend hn
  unfold memoryTaskBase at hbase
  have hsize : u32Sub (s.heapEnd - n) s.heapEnd = 2 ^ 32 - n := by
    unfold u32Sub
    omega
  rw [sysSbrk, if_neg (by omega)]
  simp only [hheap]
  rw [if_neg (by unfold memPageSize; omega), sysSbrk.alloc, if_pos (by omega), hsize]

omit hbase hend in
/-- The number of pages a call from a page boundary asks for. -/
theorem pages_shrink :
  up2 (2 ^ 32 - n) memPageSize / memPageSize = if n < 4096 then 0 else 2 ^ 20 - n / 4096
  := by
  have hmod : (2 ^ 32 - n + memPageSize - 1) % 2 ^ 32
      = if n < 4096 then 4095 - n else 2 ^ 32 - n + 4095 := by
    unfold memPageSize
    split_ifs <;> omega
  rw [up2, hmod, show 0xFFFFFFFF - (memPageSize - 1) = 0xFFFFF000 from rfl,
    and_pageMask (by split_ifs <;> omega)]
  unfold memPageSize
  split_ifs <;> omega

/-- Where nothing is allocated, the heap gets shorter. -/
theorem sysSbrk_shrinks (h : s.heapEnd % 4096 ≠ 0 ∨ n < 4096 ∨ s.kernel.free = []) :
  s.sysSbrk (-n) = (s.heapEnd, s.setHeapEnd (s.heapEnd - n))
  := by
  by_cases haligned : s.heapEnd % 4096 = 0
  · have hnone : s.kernel.memoryAllocForPageDir s.currPageDir s.heapEnd (2 ^ 32 - n) heapPerm
        = (0, s.kernel) := by
      rcases h with hoffset | hsmall | hfree
      · cases hoffset haligned
      · apply Kernel.memoryAllocForPageDir_of_no_page
        rw [pages_shrink hn, if_pos hsmall]
      · apply Kernel.memoryAllocForPageDir_of_full hfree
    rw [sysSbrk_of_boundary hbase hend hn haligned, memoryAllocPageFor, hnone]
    rfl
  · apply sysSbrk_of_inside hbase hend hn haligned

/-- Where pages are asked for, the first free frame is taken. -/
theorem sysSbrk_takes (hr : RangeWf s.kernel.gPaddrAlloc) (haligned : s.heapEnd % 4096 = 0)
    (hlarge : 4096 ≤ n) {f : Nat} {rest : List Nat} (hfree : s.kernel.free = f :: rest) :
  (s.sysSbrk (-n)).2.kernel.Marked f
  := by
  have hcount := pages_shrink hn
  unfold memoryTaskBase at hbase
  have hpages : up2 (2 ^ 32 - n) memPageSize / memPageSize ≠ 0 := by
    rw [hcount, if_neg (by omega)]
    omega
  have htakes := Kernel.memoryAllocForPageDir_takes s.currPageDir heapPerm hr
    (show memoryTaskBase ≤ s.heapEnd by unfold memoryTaskBase; omega) hend hfree hpages
  rw [sysSbrk_of_boundary (by unfold memoryTaskBase; omega) hend hn haligned, memoryAllocPageFor]
  rcases hres : s.kernel.memoryAllocForPageDir s.currPageDir s.heapEnd (2 ^ 32 - n) heapPerm
    with ⟨err, k⟩
  rw [hres] at htakes
  dsimp only at htakes ⊢
  split_ifs
  · apply htakes
  · apply htakes

end Shrinking

/-! ### Safe calls -/

/-- The increment keeps the end of the heap between its start and the end of the address
space. -/
def InHeap (s : Os) (incr : Int) : Prop :=
  s.heapStart ≤ s.heapEnd + incr ∧ s.heapEnd + incr < 2 ^ 32

/-- The user pages that were mapped are so still, to the same frames. -/
def FramesKept (s s' : Os) : Prop :=
  ∀ v, 512 ≤ v / 1024 → v < 2 ^ 20 → Present (pteAt s.kernel.mem s.currPageDir v) →
    Present (pteAt s'.kernel.mem s.currPageDir v) ∧
      ptePaddr (pteAt s'.kernel.mem s.currPageDir v) = ptePaddr (pteAt s.kernel.mem s.currPageDir v)

/-- A call that shrinks the heap returns its old end, lowers it by the amount asked for and
takes no frame, and no call gives a mapped page another frame. -/
structure SafeCall (s : Os) (incr : Int) : Prop where
  returned : incr < 0 → (s.sysSbrk incr).1 = s.heapEnd
  lowered : incr < 0 → ((s.sysSbrk incr).2.heapEnd : Int) = s.heapEnd + incr
  frames : incr < 0 → ∀ g, (s.sysSbrk incr).2.kernel.Marked g ↔ s.kernel.Marked g
  kept : FramesKept s (s.sysSbrk incr).2

/-- The frames of the first `i + 1` pages between the ends of the heap can be had. -/
def Served (s : Os) (heapEnd i : Nat) : Prop :=
  (s.kernel.asks 512 s.currPageDir ((heapPages s.heapEnd heapEnd).take (i + 1))).length
    ≤ s.kernel.free.length

/-- A heap is shrunk by less than a page, or from an end inside a page, or without a free
frame; and a heap is grown over pages that are not mapped, as far as there are frames. -/
def Meets (s : Os) (incr : Int) : Prop :=
  (incr < 0 → s.heapEnd % 4096 ≠ 0 ∨ -incr < 4096 ∨ s.kernel.free = []) ∧
    (0 ≤ incr → ∀ i v, (heapPages s.heapEnd (s.heapEnd + incr).toNat)[i]? = some v →
      Served s (s.heapEnd + incr).toNat i → ¬ Present (pteAt s.kernel.mem s.currPageDir v))

/-- What the calls of a task rely on. -/
structure HeapOk (live : Set Nat) (s : Os) : Prop where
  frames : Kernel.Frames s.kernel live
  dir : s.currPageDir ∈ live
  base : memoryTaskBase ≤ s.heapStart
  start : s.heapStart ≤ s.heapEnd
  end_lt : s.heapEnd < 2 ^ 32

/-- The calls of `sys_sbrk` by one task. -/
def heapCalls (live : Set Nat) : TransitionSystem Os Int where
  init := HeapOk live
  step s incr s' := InHeap s incr ∧ s' = (s.sysSbrk incr).2

theorem FramesKept.refl (s : Os) :
  FramesKept s s
  := fun _ _ _ hpresent => ⟨hpresent, rfl⟩

theorem FramesKept.trans {s s' s'' : Os} (h : FramesKept s s') (h' : FramesKept s' s'')
    (hdir : s'.currPageDir = s.currPageDir) :
  FramesKept s s''
  := by
  intro v hlo hv hpresent
  obtain ⟨hpresent', hframe⟩ := h v hlo hv hpresent
  have hlast := h' v hlo hv
  rw [hdir] at hlast
  obtain ⟨hpresent'', hframe'⟩ := hlast hpresent'
  use hpresent'', hframe'.trans hframe

/-- A mapped page that is built keeps its frame exactly when it is not reached. -/
theorem kept_of_built_iff {k k' : Kernel} {live : Set Nat} {d : Nat} {vs : List Nat}
    {r : Option Request} (hf : Kernel.Frames k live) (hd : d ∈ live)
    (hb : Kernel.Built 512 live k k' d (Kernel.mapsWith heapPerm vs) r) (hnodup : vs.Nodup)
    {i v : Nat} (hi : vs[i]? = some v) (hlo : 512 ≤ v / 1024) (hv : v < 2 ^ 20)
    (hpresent : Present (pteAt k.mem d v)) :
  (Present (pteAt k'.mem d v) ∧ ptePaddr (pteAt k'.mem d v) = ptePaddr (pteAt k.mem d v))
    ↔ k.free.length < (k.asks 512 d (vs.take (i + 1))).length
  := by
  constructor
  · rintro ⟨-, hframe⟩
    by_contra hnot
    obtain ⟨f, hf', hentry⟩ := hb.pteAt_of_served hnodup hi hlo hv (Nat.le_of_not_lt hnot)
    have hfree : f ∈ k.free := List.mem_of_getElem? hf'
    rw [hentry, ptePaddr_mapWord (hf.range.free_bounds hfree).1 (by decide)] at hframe
    apply (hf.marked_page hd hlo hv hpresent).not_free hf.range
    rwa [← hframe]
  · intro hlt
    rw [hb.pteAt_of_unserved hnodup hi hlo hv hlt]
    use hpresent

/-! ### Each call -/

section Each

variable {s : Os} {live : Set Nat} {incr : Int} (h : HeapOk live s) (hin : InHeap s incr)

include h hin

/-- What a call that shrinks the heap does under the condition. -/
theorem sysSbrk_of_meets (hneg : incr < 0) (hmeets : Meets s incr) :
  s.sysSbrk incr = (s.heapEnd, s.setHeapEnd (s.heapEnd + incr).toNat)
  := by
  have hstart := h.start
  have hbase := h.base
  have hle := hin.1
  obtain ⟨n, rfl⟩ : ∃ n : Nat, incr = -n := ⟨incr.natAbs, by omega⟩
  rw [sysSbrk_shrinks (by omega) h.end_lt (by omega)]
  · congr 2
    omega
  · rcases hmeets.1 hneg with hoffset | hsmall | hfree
    · left
      apply hoffset
    · right
      left
      omega
    · right
      right
      apply hfree

/-- A call that shrinks the heap is safe exactly when it asks for no page, or there is none
to be had. -/
theorem safeCall_iff_of_neg (hneg : incr < 0) :
  SafeCall s incr ↔ Meets s incr
  := by
  have hstart := h.start
  have hbase := h.base
  have hle := hin.1
  constructor
  · intro hsafe
    constructor
    · intro _
      by_contra! hbad
      obtain ⟨haligned, hlarge, hsome⟩ := hbad
      obtain ⟨f, rest, hfree⟩ := List.exists_cons_of_ne_nil hsome
      obtain ⟨n, rfl⟩ : ∃ n : Nat, incr = -n := ⟨incr.natAbs, by omega⟩
      have htaken := sysSbrk_takes (n := n) (by omega) h.end_lt (by omega) h.frames.range haligned
        (by omega) hfree
      apply Kernel.Marked.not_free h.frames.range ((hsafe.frames hneg f).mp htaken)
      rw [hfree]
      apply List.mem_cons_self
    · intro hpos
      omega
  · intro hmeets
    have hshrinks := sysSbrk_of_meets h hin hneg hmeets
    constructor
    · intro _
      rw [hshrinks]
    · intro _
      rw [hshrinks, setHeapEnd_heapEnd]
      omega
    · intro _ g
      rw [hshrinks, setHeapEnd_kernel]
    · intro v hlo hv hpresent
      rw [hshrinks, setHeapEnd_kernel]
      use hpresent

/-- A call that grows the heap is safe exactly when the pages it maps were not mapped. -/
theorem safeCall_iff_of_nonneg (hpos : 0 ≤ incr) :
  SafeCall s incr ↔ Meets s incr
  := by
  have hstart := h.start
  have hbase := h.base
  obtain ⟨n, rfl⟩ : ∃ n : Nat, incr = n := ⟨incr.natAbs, by omega⟩
  have hend : s.heapEnd + n < 2 ^ 32 := by
    have hlt := hin.2
    omega
  have hnat : ((s.heapEnd : Int) + n).toNat = s.heapEnd + n := by omega
  obtain ⟨r, k, hb, hresult⟩ := sysSbrk_grow h.frames h.dir (hbase.trans hstart) hend
  have hkernel : (s.sysSbrk n).2.kernel = k := by
    rw [hresult]
    split_ifs <;> rfl
  have huser : ∀ v ∈ heapPages s.heapEnd (s.heapEnd + n), 512 ≤ v / 1024 ∧ v < 2 ^ 20 := by
    intro v hv
    rw [mem_heapPages] at hv
    unfold memoryTaskBase at hbase
    omega
  have hkept := fun i v hi =>
    kept_of_built_iff (i := i) (v := v) h.frames h.dir hb (heapPages_nodup _ _) hi
  constructor
  · intro hsafe
    constructor
    · intro hneg
      omega
    · intro _ i v hi hserved hpresent
      rw [hnat] at hi hserved
      obtain ⟨hlo, hv⟩ := huser v (List.mem_of_getElem? hi)
      have hsame := hsafe.kept v hlo hv hpresent
      rw [hkernel, hkept i v hi hlo hv hpresent] at hsame
      apply Nat.not_le_of_lt hsame hserved
  · intro hmeets
    constructor
    · intro hneg
      omega
    · intro hneg
      omega
    · intro hneg
      omega
    · intro v hlo hv hpresent
      rw [hkernel]
      by_cases hmem : v ∈ heapPages s.heapEnd (s.heapEnd + n)
      · obtain ⟨i, hi⟩ := List.mem_iff_getElem?.mp hmem
        rw [hkept i v hi hlo hv hpresent]
        have habsent := hmeets.2 hpos i v
        rw [hnat] at habsent
        by_contra hserved
        apply habsent hi (Nat.le_of_not_lt hserved) hpresent
      · rw [hb.pteAt_of_not_mem hlo hv (by rwa [Kernel.mapsWith_fst])]
        use hpresent

theorem safeCall_iff :
  SafeCall s incr ↔ Meets s incr
  := by
  rcases lt_or_ge incr 0 with hneg | hpos
  · apply safeCall_iff_of_neg h hin hneg
  · apply safeCall_iff_of_nonneg h hin hpos

/-- A call that meets the condition leaves a heap for the next. -/
theorem HeapOk.step (hmeets : Meets s incr) :
  HeapOk live (s.sysSbrk incr).2 ∧ (s.sysSbrk incr).2.currPageDir = s.currPageDir
  := by
  have hstart := h.start
  have hbase := h.base
  obtain ⟨hle, hlt⟩ := hin
  rcases lt_or_ge incr 0 with hneg | hpos
  · have hshrinks := sysSbrk_of_meets h ⟨hle, hlt⟩ hneg hmeets
    rw [hshrinks]
    constructor
    · constructor
      · apply h.frames
      · simpa using h.dir
      · simpa using h.base
      · rw [setHeapEnd_heapStart, setHeapEnd_heapEnd]
        omega
      · rw [setHeapEnd_heapEnd]
        omega
    · simp
  · obtain ⟨n, rfl⟩ : ∃ n : Nat, incr = n := ⟨incr.natAbs, by omega⟩
    obtain ⟨r, k, hb, hresult⟩ := sysSbrk_grow h.frames h.dir (hbase.trans hstart)
      (show s.heapEnd + n < 2 ^ 32 by omega)
    have hframes := h.frames.built h.dir hb
    rw [hresult]
    split_ifs
    · constructor
      · use hframes, h.dir, h.base, h.start
        apply h.end_lt
      · rfl
    · constructor
      · constructor
        · apply hframes
        · simpa using h.dir
        · simpa using h.base
        · rw [setHeapEnd_heapStart, setHeapEnd_heapEnd, setKernel_heapStart]
          omega
        · rw [setHeapEnd_heapEnd]
          omega
      · simp

end Each

/-! ### Runs of calls -/

variable {live : Set Nat}

theorem heapOk_of_reachable {s : Os}
    (hs : ((heapCalls live).restrict Meets).Reachable (fun _ => True) s) :
  HeapOk live s
  := by
  apply hs.invariant
  · intro s hs
    apply hs
  · rintro s incr _ hs - ⟨hmeets, hin, rfl⟩
    apply (hs.step hin hmeets).1

/-- In runs of calls that meet the condition no page loses its frame, and the condition says
of each call that could come next whether it is safe. -/
theorem sysSbrk_safe {s : Os}
    (hs : ((heapCalls live).restrict Meets).Reachable (fun _ => True) s) :
  (∀ incr, InHeap s incr → (SafeCall s incr ↔ Meets s incr)) ∧
    ∀ incrs s', ((heapCalls live).restrict Meets).Run s incrs s' → FramesKept s s'
  := by
  have hok := heapOk_of_reachable hs
  constructor
  · intro incr hin
    apply safeCall_iff hok hin
  · intro incrs s' hrun
    let I (t : Os) : Prop := HeapOk live t ∧ t.currPageDir = s.currPageDir ∧ FramesKept s t
    have hlast : I s' := by
      apply hrun.invariant (I := I)
      · rintro t incr _ - ⟨ht, hdir, hkept⟩ ⟨hmeets, hin, rfl⟩
        obtain ⟨hnext, hdir'⟩ := ht.step hin hmeets
        have hsafe := (safeCall_iff ht hin).mpr hmeets
        use hnext, hdir'.trans hdir
        apply hkept.trans hsafe.kept hdir
      · use hok, rfl
        apply FramesKept.refl
    apply hlast.2.2

/-! ### The first task's heap -/

theorem heapOk_firstTask :
  HeapOk {1024 * 1024} (firstTask 9 0x80000000)
  where
  frames := Kernel.bootDir_frames (by decide) (by decide)
  dir := rfl
  base := Nat.le_refl _
  start := Nat.le_refl _
  end_lt := by decide

/-- The first task with another kernel and another end of its heap. -/
def heapAt (k : Kernel) (heapEnd : Nat) : Os :=
  ((firstTask 9 0x80000000).setKernel k).setHeapEnd heapEnd

section HeapAt

variable {k : Kernel} {h : Nat}

@[simp]
theorem heapAt_kernel :
  (heapAt k h).kernel = k
  := rfl

@[simp]
theorem heapAt_heapEnd :
  (heapAt k h).heapEnd = h
  := setHeapEnd_heapEnd _ _

@[simp]
theorem heapAt_heapStart :
  (heapAt k h).heapStart = 0x80000000
  := setHeapEnd_heapStart _ _

@[simp]
theorem heapAt_currPageDir :
  (heapAt k h).currPageDir = 1024 * 1024
  := setHeapEnd_currPageDir _ _

theorem inHeap_heapAt {incr : Int} :
  InHeap (heapAt k h) incr ↔ 0x80000000 ≤ (h : Int) + incr ∧ (h : Int) + incr < 2 ^ 32
  := by simp [InHeap]

theorem heapOk_heapAt (hf : Kernel.Frames k {1024 * 1024}) (hle : 0x80000000 ≤ h)
    (hlt : h < 2 ^ 32) :
  HeapOk {1024 * 1024} (heapAt k h)
  := by
  constructor
  · apply hf
  · rw [heapAt_currPageDir]
    rfl
  · rw [heapAt_heapStart]
  · rw [heapAt_heapStart, heapAt_heapEnd]
    apply hle
  · rw [heapAt_heapEnd]
    apply hlt

/-- The end of the heap goes down from inside a page. -/
theorem sysSbrk_heapAt {n : Nat} (hbase : memoryTaskBase ≤ h - n) (hlt : h < 2 ^ 32) (hn : 0 < n)
    (hoffset : h % 4096 ≠ 0) :
  (heapAt k h).sysSbrk (-n) = (h, heapAt k (h - n))
  := by
  have hinside := sysSbrk_of_inside (s := heapAt k h) (n := n) (by rwa [heapAt_heapEnd])
    (by rwa [heapAt_heapEnd]) hn (by rwa [heapAt_heapEnd])
  rw [heapAt_heapEnd] at hinside
  rw [hinside]
  simp [heapAt, setHeapEnd, TaskManager.setTask]

end HeapAt

/-- Growing the empty heap meets the condition. -/
theorem meets_firstTask {n : Nat} (hn : n ≤ 0x3000) :
  Meets (firstTask 9 0x80000000) n
  := by
  constructor
  · intro hneg
    omega
  · rintro - i v hi -
    have hv := List.mem_of_getElem? hi
    rw [mem_heapPages, heapEnd_firstTask] at hv
    apply absent_firstTask (by decide) (by decide) <;> omega

/-- The first task after its heap has grown by `n` bytes.  There are at least two free
frames left. -/
theorem grown_firstTask {n : Nat} (hn : n ≤ 0x3000) :
  ∃ k, Kernel.Built 512 {1024 * 1024} (Kernel.bootDir 9) k (1024 * 1024)
      (Kernel.mapsWith heapPerm (heapPages 0x80000000 (0x80000000 + n))) none ∧
    Kernel.Frames k {1024 * 1024} ∧ 2 ≤ k.free.length ∧
    ((heapCalls {1024 * 1024}).restrict Meets).Reachable (fun _ => True)
      (heapAt k (0x80000000 + n))
  := by
  have hgrow : CanGrow {1024 * 1024} (firstTask 9 0x80000000) (n + 0) := canGrow_firstTask hn
  obtain ⟨k, -, hbuilt, hresult, -⟩ := hgrow.call
  have hlength := ((Kernel.bootDir 9).space 512 (1024 * 1024)).mapAll_free_length tableIndex
    (Kernel.mapsWith heapPerm (heapPages 0x80000000 (0x80000000 + n)))
  have hfree : ((Kernel.bootDir 9).space 512 (1024 * 1024)).free.length = 8 := by
    rw [Kernel.space, Kernel.bootDir_free (by decide) (by decide), List.length_map,
      List.length_range]
  use k, hbuilt, hgrow.frames.built hgrow.dir hbuilt
  constructor
  · rw [show ((Kernel.bootDir 9).space 512 (1024 * 1024)).mapAll tableIndex
        (Kernel.mapsWith heapPerm (heapPages 0x80000000 (0x80000000 + n))) = _ from hbuilt.space,
      hfree, Kernel.mapsWith, List.length_map, heapPages, List.length_range'] at hlength
    change 8 ≤ k.free.length + _ at hlength
    omega
  · have hinit : ((heapCalls {1024 * 1024}).restrict Meets).Reachable (fun _ => True)
        (firstTask 9 0x80000000) := Reachable.init heapOk_firstTask
    apply Reachable.step (a := (n : Int)) hinit trivial
    use meets_firstTask hn
    constructor
    · have hend := heapEnd_firstTask 9 0x80000000
      have hstart : (firstTask 9 0x80000000).heapStart = 0x80000000 := rfl
      rw [InHeap, hend, hstart]
      omega
    · rw [hresult, heapEnd_firstTask]
      rfl

/-- Growing an empty heap by a page and a half, shrinking it inside of its second page, and
growing it by another page. -/
theorem sysSbrk_safe_firstTask :
  SafeCall (firstTask 9 0x80000000) 0x1800 ∧ ∃ k,
    ((heapCalls {1024 * 1024}).restrict Meets).Reachable (fun _ => True) (heapAt k 0x80001800) ∧
    SafeCall (heapAt k 0x80001800) (-0x400) ∧
    (heapAt k 0x80001800).sysSbrk (-0x400) = (0x80001800, heapAt k 0x80001400) ∧
    SafeCall (heapAt k 0x80001400) 0x1000
  := by
  have hs : ((heapCalls {1024 * 1024}).restrict Meets).Reachable (fun _ => True)
      (firstTask 9 0x80000000) := Reachable.init heapOk_firstTask
  obtain ⟨k, hbuilt, -, -, hgrown⟩ := grown_firstTask (show 0x1800 ≤ 0x3000 by decide)
  have hshrinks : (heapAt k 0x80001800).sysSbrk (-0x400) = (0x80001800, heapAt k 0x80001400) :=
    sysSbrk_heapAt (n := 0x400) (by decide) (by decide) (by decide) (by decide)
  have hin : InHeap (heapAt k 0x80001800) (-0x400) := by
    rw [inHeap_heapAt]
    decide
  have hmeets : Meets (heapAt k 0x80001800) (-0x400) := by
    constructor
    · intro _
      left
      rw [heapAt_heapEnd]
      decide
    · intro hpos
      cases hpos
  have hshrunk : ((heapCalls {1024 * 1024}).restrict Meets).Reachable (fun _ => True)
      (heapAt k 0x80001400) :=
    hgrown.step (a := -0x400) trivial ⟨hmeets, hin, (congrArg Prod.snd hshrinks).symm⟩
  refine ⟨?_, k, hgrown, ((sysSbrk_safe hgrown).1 _ hin).mpr hmeets, hshrinks, ?_⟩
  · apply ((sysSbrk_safe hs).1 0x1800 (by constructor <;> decide)).mpr
    apply meets_firstTask (n := 0x1800)
    decide
  · apply ((sysSbrk_safe hshrunk).1 0x1000 (by rw [inHeap_heapAt]; decide)).mpr
    constructor
    · intro hneg
      cases hneg
    · rintro - i v hi -
      -- the third page is the only one between the ends
      have hv := List.mem_of_getElem? hi
      rw [mem_heapPages, heapAt_heapEnd] at hv
      change 0x80002 ≤ v ∧ v < 0x80003 at hv
      rw [heapAt_kernel, heapAt_currPageDir, hbuilt.pteAt_of_not_mem (by omega) (by omega)]
      · change ¬ Present (pteAt (firstTask 9 0x80000000).kernel.mem
          (firstTask 9 0x80000000).currPageDir v)
        apply absent_firstTask (by decide) (by decide) <;> omega
      · rw [Kernel.mapsWith_fst, mem_heapPages]
        omega

/-- A heap of one page that is shrunk by this page takes frames. -/
theorem shrink_unsafe :
  ∃ s, (heapCalls {1024 * 1024}).Reachable (fun _ => True) s ∧ InHeap s (-4096) ∧
    ¬ SafeCall s (-4096)
  := by
  obtain ⟨k, -, hframes, hfree, hreachable⟩ := grown_firstTask (show 4096 ≤ 0x3000 by decide)
  have hin : InHeap (heapAt k (0x80000000 + 4096)) (-4096) := by
    rw [inHeap_heapAt]
    decide
  use heapAt k (0x80000000 + 4096), hreachable.of_restrict, hin
  rw [safeCall_iff (heapOk_heapAt hframes (by decide) (by decide)) hin]
  intro hmeets
  rcases hmeets.1 (by decide) with hoffset | hsmall | hnone
  · rw [heapAt_heapEnd] at hoffset
    cases hoffset rfl
  · cases hsmall
  · rw [heapAt_kernel] at hnone
    rw [hnone] at hfree
    cases hfree

/-- A heap of one page and a half that is shrunk by a page and grown again replaces the
frame of its second page. -/
theorem regrow_unsafe :
  ∃ s, (heapCalls {1024 * 1024}).Reachable (fun _ => True) s ∧ InHeap s 4096 ∧
    ¬ SafeCall s 4096
  := by
  obtain ⟨k, hbuilt, hframes, hfree, hreachable⟩ := grown_firstTask (show 0x1800 ≤ 0x3000 by decide)
  have hin : InHeap (heapAt k 0x80000800) 4096 := by
    rw [inHeap_heapAt]
    decide
  use heapAt k 0x80000800
  constructor
  · apply Reachable.step (a := -0x1000) hreachable.of_restrict trivial
    constructor
    · rw [inHeap_heapAt]
      decide
    · rw [show (-0x1000 : Int) = -(0x1000 : Nat) from rfl,
        sysSbrk_heapAt (by decide) (by decide) (by decide) (by decide)]
  use hin
  rw [safeCall_iff (heapOk_heapAt hframes (by decide) (by decide)) hin]
  intro hmeets
  have habsent := hmeets.2 (by decide) 0 0x80001
  rw [heapAt_heapEnd, heapAt_kernel, heapAt_currPageDir] at habsent
  apply habsent (by decide)
  · rw [Served, heapAt_heapEnd, heapAt_kernel, heapAt_currPageDir]
    apply (length_requests_le _ _ _).trans (le_trans _ hfree)
    decide
  · obtain ⟨f, hf, hentry⟩ := hbuilt.pteAt_of_served (i := 1) (v := 0x80001) (heapPages_nodup _ _)
      (by decide) (by decide) (by decide) (by
        apply (length_requests_le _ _ _).trans
        rw [Kernel.bootDir_free (by decide) (by decide), List.length_map, List.length_range]
        decide)
    have hbounds := (Kernel.bootDir_frames (show 0 < 9 by decide) (by decide)).range.free_bounds
      (List.mem_of_getElem? hf)
    rw [hentry]
    apply mapWord_present hbounds.1 (by decide)

/-- Both kinds of calls that do not meet the condition can be reached. -/
theorem not_safeCall_of_reachable :
  (∃ s incr, (heapCalls {1024 * 1024}).Reachable (fun _ => True) s ∧ InHeap s incr ∧ incr < 0 ∧
      ¬ SafeCall s incr) ∧
    ∃ s incr, (heapCalls {1024 * 1024}).Reachable (fun _ => True) s ∧ InHeap s incr ∧ 0 < incr ∧
      ¬ SafeCall s incr
  := by
  constructor
  · obtain ⟨s, hs, hin, hunsafe⟩ := shrink_unsafe
    exact ⟨s, _, hs, hin, by decide, hunsafe⟩
  · obtain ⟨s, hs, hin, hunsafe⟩ := regrow_unsafe
    exact ⟨s, _, hs, hin, by decide, hunsafe⟩

end Os

end Dmos
