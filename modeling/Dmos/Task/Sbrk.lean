import Dmos.Kernel.AllocDir
import Dmos.Task.Exec

/-!
# Growing the heap

`sysSbrk` moves the end of the current task's heap and maps pages for it.  A call that
grows the heap maps the pages whose start lies between the old and the new end
(`heapPages`), one after the other, and none if there are none (`sysSbrk_grow`).

Below the stack, with no page mapped from the end of the heap on and with frames for all
of them, a sequence of growing calls maps the pages between the first and the last end of
the heap, each once (`sbrks_exact`).  The induction is on the calls; `CanGrow` is what the
calls still to come need.
-/

open ByteMemory AddressSpace

namespace Dmos

/-- A number as a word. -/
def word (i : Int) : Nat :=
  (i % 2 ^ 32).toNat

namespace Os

def heapStart (s : Os) : Nat :=
  (s.tasks.task s.tasks.currTask).heapStart

def heapEnd (s : Os) : Nat :=
  (s.tasks.task s.tasks.currTask).heapEnd

def setHeapEnd (s : Os) (heapEnd : Nat) : Os :=
  { s with
    tasks := s.tasks.setTask s.tasks.currTask
      { s.tasks.task s.tasks.currTask with heapEnd := heapEnd } }

def setKernel (s : Os) (kernel : Kernel) : Os :=
  { s with kernel := kernel }

/-- The word returned by `memory_alloc_for_page_dir`, read as a number with a sign. -/
def memoryAllocPageFor (s : Os) (addr size perm : Nat) : Int × Os :=
  match s.kernel.memoryAllocForPageDir s.currPageDir addr size perm with
  | (err, kernel) => (asInt err, s.setKernel kernel)

/-- `sys_sbrk` from `if (incr)` on. -/
def sysSbrk.alloc (s : Os) (preHeapEnd start heapEnd : Nat) (incr : Int) : Nat × Os :=
  if incr ≠ 0 then
    match s.memoryAllocPageFor start (u32Sub heapEnd start) (pteP ||| pteU ||| pteW) with
    | (err, s) => if err < 0 then (errorWord, s) else (preHeapEnd, s.setHeapEnd heapEnd)
  else (preHeapEnd, s.setHeapEnd heapEnd)

/-- The value returned with the state.  Sums and differences of numbers with a sign wrap
around. -/
def sysSbrk (s : Os) (incr : Int) : Nat × Os :=
  let preHeapEnd := s.heapEnd
  if incr = 0 then (preHeapEnd, s)
  else
    let start := s.heapEnd
    let heapEnd := u32 (start + word incr)
    let startOffset := start % memPageSize
    if startOffset ≠ 0 then
      if asInt (word (startOffset + incr)) ≤ memPageSize then
        (preHeapEnd, s.setHeapEnd heapEnd)
      else
        let currSize := memPageSize - startOffset
        sysSbrk.alloc s preHeapEnd (u32 (start + currSize)) heapEnd
          (asInt (word (incr - currSize)))
    else sysSbrk.alloc s preHeapEnd start heapEnd incr

/-! ### The end of the heap -/

section Fields

variable (s : Os) (kernel : Kernel) (h : Nat)

@[simp]
theorem setKernel_kernel :
  (s.setKernel kernel).kernel = kernel
  := rfl

@[simp]
theorem setKernel_heapEnd :
  (s.setKernel kernel).heapEnd = s.heapEnd
  := rfl

@[simp]
theorem setKernel_heapStart :
  (s.setKernel kernel).heapStart = s.heapStart
  := rfl

@[simp]
theorem setKernel_currPageDir :
  (s.setKernel kernel).currPageDir = s.currPageDir
  := rfl

@[simp]
theorem setHeapEnd_kernel :
  (s.setHeapEnd h).kernel = s.kernel
  := rfl

@[simp]
theorem setHeapEnd_heapEnd :
  (s.setHeapEnd h).heapEnd = h
  := by simp [heapEnd, setHeapEnd, TaskManager.setTask]

@[simp]
theorem setHeapEnd_heapStart :
  (s.setHeapEnd h).heapStart = s.heapStart
  := by simp [heapStart, setHeapEnd, TaskManager.setTask]

@[simp]
theorem setHeapEnd_currPageDir :
  (s.setHeapEnd h).currPageDir = s.currPageDir
  := by simp [currPageDir, setHeapEnd, TaskManager.setTask]

theorem setHeapEnd_self :
  s.setHeapEnd s.heapEnd = s
  := by simp [setHeapEnd, heapEnd, TaskManager.setTask]

end Fields

end Os

/-! ### The pages of a growing heap -/

/-- The pages whose start lies between two ends of the heap. -/
def heapPages (h h' : Nat) : List Nat :=
  List.range' ((h + 4095) / 4096) ((h' + 4095) / 4096 - (h + 4095) / 4096)

theorem mem_heapPages {h h' v : Nat} :
  v ∈ heapPages h h' ↔ (h + 4095) / 4096 ≤ v ∧ v < (h' + 4095) / 4096
  := by
  rw [heapPages, List.mem_range'_1]
  omega

theorem heapPages_nodup (h h' : Nat) :
  (heapPages h h').Nodup
  := List.nodup_range'

theorem heapPages_append {h h' h'' : Nat} (hle : h ≤ h') (hle' : h' ≤ h'') :
  heapPages h h' ++ heapPages h' h'' = heapPages h h''
  := by
  have hfirst : (h' + 4095) / 4096
      = (h + 4095) / 4096 + ((h' + 4095) / 4096 - (h + 4095) / 4096) := by omega
  rw [heapPages, heapPages, heapPages]
  conv_lhs => rhs; rw [hfirst]
  rw [List.range'_append_1]
  congr 1
  omega

theorem pagesFrom_eq_range' {addr n : Nat} (h : addr / 4096 + n ≤ 2 ^ 20) (hn : 0 < n) :
  pagesFrom addr n = List.range' (addr / 4096) n
  := by
  apply List.ext_getElem?
  intro k
  by_cases hk : k < n
  · rw [getElem_pagesFrom (by omega) hk, List.getElem?_range' hk, Option.some.injEq]
    omega
  · rw [List.getElem?_eq_none (by rw [length_pagesFrom]; omega),
      List.getElem?_eq_none (by rw [List.length_range']; omega)]

theorem heapPages_eq_allocPages {h h' : Nat} (hbase : memoryTaskBase ≤ h) (hlt : h' < 2 ^ 32)
    (hnext : (h + 4095) / 4096 * 4096 < h') :
  allocPages ((h + 4095) / 4096 * 4096) (h' - (h + 4095) / 4096 * 4096) = heapPages h h'
  := by
  unfold memoryTaskBase at hbase
  have hstart : memoryTaskBase ≤ (h + 4095) / 4096 * 4096 := by
    unfold memoryTaskBase
    omega
  rw [allocPages, Kernel.allocPages_count hstart (by omega), pagesFrom_eq_range' (by omega) (by omega),
    heapPages]
  congr 1 <;> omega

/-! ### One call -/

theorem word_of_nat {n : Nat} (h : n < 2 ^ 32) :
  word n = n
  := by
  unfold word
  omega

theorem asInt_word {i : Int} (h : -2 ^ 31 ≤ i) (h' : i < 2 ^ 31) :
  asInt (word i) = i
  := by
  unfold asInt word
  split_ifs <;> omega

namespace Os

/-- `PTE_P | PTE_U | PTE_W`. -/
abbrev heapPerm : Nat := pteP ||| pteU ||| pteW

section Call

variable {s : Os} {live : Set Nat}

/-- A heap that grows inside its last page needs no other. -/
theorem sysSbrk_of_fits {n : Nat} (hend : s.heapEnd + n < 2 ^ 32)
    (hfits : s.heapEnd + n ≤ (s.heapEnd + 4095) / 4096 * 4096) :
  s.sysSbrk n = (s.heapEnd, s.setHeapEnd (s.heapEnd + n))
  := by
  by_cases hzero : n = 0
  · subst hzero
    rw [sysSbrk, if_pos (by rfl), Nat.add_zero, setHeapEnd_self]
  · have hoffset : s.heapEnd % memPageSize ≠ 0 := by
      unfold memPageSize
      omega
    have hsum : asInt (word ((s.heapEnd % memPageSize : Nat) + (n : Int)))
        = (s.heapEnd % memPageSize : Nat) + (n : Int) := by
      apply asInt_word <;> unfold memPageSize <;> omega
    have hroom : (s.heapEnd % memPageSize : Nat) + (n : Int) ≤ memPageSize := by
      unfold memPageSize at *
      omega
    rw [sysSbrk, if_neg (by omega)]
    simp only [if_pos hoffset, hsum, if_pos hroom]
    rw [word_of_nat (by omega), u32_of_lt hend]

/-- A heap that grows out of its last page gets the pages behind it. -/
theorem sysSbrk_of_crosses (hbase : memoryTaskBase ≤ s.heapEnd) {n : Nat}
    (hend : s.heapEnd + n < 2 ^ 32) (hcross : (s.heapEnd + 4095) / 4096 * 4096 < s.heapEnd + n) :
  s.sysSbrk n =
    match s.memoryAllocPageFor ((s.heapEnd + 4095) / 4096 * 4096)
        (s.heapEnd + n - (s.heapEnd + 4095) / 4096 * 4096) heapPerm with
    | (err, t) => if err < 0 then (errorWord, t) else (s.heapEnd, t.setHeapEnd (s.heapEnd + n))
  := by
  unfold memoryTaskBase at hbase
  have hend' : u32 (s.heapEnd + word n) = s.heapEnd + n := by
    rw [word_of_nat (by omega), u32_of_lt hend]
  rw [sysSbrk, if_neg (by omega)]
  simp only [hend']
  by_cases hoffset : s.heapEnd % memPageSize ≠ 0
  · have hsum : asInt (word ((s.heapEnd % memPageSize : Nat) + (n : Int)))
        = (s.heapEnd % memPageSize : Nat) + (n : Int) := by
      apply asInt_word <;> unfold memPageSize <;> omega
    have hroom : ¬ (s.heapEnd % memPageSize : Nat) + (n : Int) ≤ memPageSize := by
      unfold memPageSize at *
      omega
    have hstart : u32 (s.heapEnd + (memPageSize - s.heapEnd % memPageSize))
        = (s.heapEnd + 4095) / 4096 * 4096 := by
      unfold u32 memPageSize at *
      omega
    have hrest : asInt (word ((n : Int) - (memPageSize - s.heapEnd % memPageSize : Nat)))
        = (n : Int) - (memPageSize - s.heapEnd % memPageSize : Nat) := by
      apply asInt_word <;> unfold memPageSize <;> omega
    have hne : (n : Int) - (memPageSize - s.heapEnd % memPageSize : Nat) ≠ 0 := by
      unfold memPageSize at *
      omega
    rw [if_pos hoffset, hsum, if_neg hroom, hstart, hrest, sysSbrk.alloc, if_pos hne,
      u32Sub_of_le (by omega) (by omega)]
  · have hstart : s.heapEnd = (s.heapEnd + 4095) / 4096 * 4096 := by
      unfold memPageSize at hoffset
      omega
    rw [if_neg hoffset, sysSbrk.alloc, if_pos (by omega), u32Sub_of_le (by omega) (by omega), ← hstart]

variable (hf : Kernel.Frames s.kernel live) (hd : s.currPageDir ∈ live)

include hf hd

/-- A call that grows the heap builds the pages between the old and the new end. -/
theorem sysSbrk_grow (hbase : memoryTaskBase ≤ s.heapEnd) {n : Nat}
    (hend : s.heapEnd + n < 2 ^ 32) :
  ∃ r k, Kernel.Built 512 live s.kernel k s.currPageDir
      (Kernel.mapsWith heapPerm (heapPages s.heapEnd (s.heapEnd + n))) r ∧
    s.sysSbrk n = if r = some .table then (errorWord, s.setKernel k)
      else (s.heapEnd, (s.setKernel k).setHeapEnd (s.heapEnd + n))
  := by
  by_cases hcross : (s.heapEnd + 4095) / 4096 * 4096 < s.heapEnd + n
  · have hpages := heapPages_eq_allocPages hbase hend hcross
    unfold memoryTaskBase at hbase
    have huser : ∀ v ∈ heapPages s.heapEnd (s.heapEnd + n), 512 ≤ v / 1024 := by
      intro v hv
      rw [mem_heapPages] at hv
      omega
    rw [← hpages] at huser
    obtain ⟨r, k, hbuilt, hresult⟩ := Kernel.memoryAllocForPageDir_spec 512 hf.range hf.nodes hd
      (show heapPerm < 4096 by decide) (by unfold memoryTaskBase; omega) (by omega) huser
    rw [hpages] at hbuilt
    use r, k, hbuilt
    rw [sysSbrk_of_crosses hbase hend hcross, memoryAllocPageFor, hresult]
    by_cases htable : r = some .table
    · simp only [if_pos htable]
      rfl
    · simp only [if_neg htable]
      rfl
  · have hnone : heapPages s.heapEnd (s.heapEnd + n) = [] := by
      rw [List.eq_nil_iff_forall_not_mem]
      intro v hv
      rw [mem_heapPages] at hv
      omega
    rw [hnone]
    use none, s.kernel, Kernel.Built.refl hf.nodes _
    rw [sysSbrk_of_fits hend (by omega)]
    rfl

end Call

/-! ### A sequence of calls -/

/-- The state after a sequence of calls, none of which has a negative increment. -/
def sbrks (s : Os) : List Nat → Os
  | [] => s
  | incr :: incrs => sbrks (s.sysSbrk incr).2 incrs

/-- The pages `vs` of `d`, none of which was present, have been mapped in order, each once,
to frames that were free, and the entries of the other user pages are as they were. -/
structure FreshlyMapped (s s' : Kernel) (d : Nat) (vs : List Nat) : Prop where
  nodup : vs.Nodup
  absent : ∀ v ∈ vs, ¬ Present (pteAt s.mem d v)
  once : (s.space 512 d).mapAll tableIndex (Kernel.mapsWith heapPerm vs) = (none, s'.space 512 d)
  mapped : ∀ v ∈ vs, ∃ f ∈ s.free, pteAt s'.mem d v = mapWord heapPerm f
  distinct : ∀ v ∈ vs, ∀ w ∈ vs,
    ptePaddr (pteAt s'.mem d v) = ptePaddr (pteAt s'.mem d w) → v = w
  others : ∀ v, 512 ≤ v / 1024 → v < 2 ^ 20 → v ∉ vs → pteAt s'.mem d v = pteAt s.mem d v

/-- A call with the increment `incr` returns the old end of the heap, raises it by the
increment and leaves the user pages that are mapped as they are. -/
structure GrowsBy (s : Os) (incr : Nat) : Prop where
  returned : (s.sysSbrk incr).1 = s.heapEnd
  raised : (s.sysSbrk incr).2.heapEnd = s.heapEnd + incr
  kept : ∀ v, 512 ≤ v / 1024 → v < 2 ^ 20 → Present (pteAt s.kernel.mem s.currPageDir v) →
    pteAt (s.sysSbrk incr).2.kernel.mem s.currPageDir v = pteAt s.kernel.mem s.currPageDir v

/-- The heap can grow by `n` bytes: it stays below the stack, the pages from its end on are
not mapped, and there are frames for them. -/
structure CanGrow (live : Set Nat) (s : Os) (n : Nat) : Prop where
  frames : Kernel.Frames s.kernel live
  dir : s.currPageDir ∈ live
  base : memoryTaskBase ≤ s.heapEnd
  stack : s.heapEnd + n ≤ memTaskStackTop - memTaskStackSize
  absent : ∀ v, (s.heapEnd + 4095) / 4096 ≤ v → v * 4096 < memTaskStackTop - memTaskStackSize →
    ¬ Present (pteAt s.kernel.mem s.currPageDir v)
  enough : (s.kernel.asks 512 s.currPageDir (heapPages s.heapEnd (s.heapEnd + n))).length
    ≤ s.kernel.free.length

namespace CanGrow

variable {s : Os} {live : Set Nat} {n m : Nat}

theorem absent_pages (h : CanGrow live s n) :
  ∀ v ∈ heapPages s.heapEnd (s.heapEnd + n), ¬ Present (pteAt s.kernel.mem s.currPageDir v)
  := by
  intro v hv
  have hstack := h.stack
  rw [mem_heapPages] at hv
  apply h.absent v hv.1
  unfold memTaskStackTop memTaskStackSize memPageSize at *
  omega

theorem lt_end (h : CanGrow live s n) :
  s.heapEnd + n < 2 ^ 32
  := by
  have hstack := h.stack
  unfold memTaskStackTop memTaskStackSize memPageSize at hstack
  omega

/-- The first call of the sequence is served, and the pages of the others can be mapped
after it. -/
theorem call (h : CanGrow live s (n + m)) :
  ∃ k a, Kernel.Built 512 live s.kernel k s.currPageDir
      (Kernel.mapsWith heapPerm (heapPages s.heapEnd (s.heapEnd + n))) none ∧
    s.sysSbrk n = (s.heapEnd, (s.setKernel k).setHeapEnd (s.heapEnd + n)) ∧
    (k.space 512 s.currPageDir).mapAll tableIndex
      (Kernel.mapsWith heapPerm (heapPages (s.heapEnd + n) (s.heapEnd + n + m))) = (none, a)
  := by
  have hend := h.lt_end
  obtain ⟨r, k, hbuilt, hresult⟩ :=
    sysSbrk_grow h.frames h.dir h.base (show s.heapEnd + n < 2 ^ 32 by omega)
  have hall : ((s.kernel.space 512 s.currPageDir).mapAll tableIndex
      (Kernel.mapsWith heapPerm (heapPages s.heapEnd (s.heapEnd + (n + m))))).1 = none := by
    rw [Space.mapAll_fst, Kernel.mapsWith_fst]
    apply List.getElem?_eq_none h.enough
  have hsplit : Kernel.mapsWith heapPerm (heapPages s.heapEnd (s.heapEnd + (n + m)))
      = Kernel.mapsWith heapPerm (heapPages s.heapEnd (s.heapEnd + n))
        ++ Kernel.mapsWith heapPerm (heapPages (s.heapEnd + n) (s.heapEnd + n + m)) := by
    rw [← heapPages_append (Nat.le_add_right s.heapEnd n) (by omega), Kernel.mapsWith,
      List.map_append, Nat.add_assoc]
    rfl
  rw [hsplit] at hall
  obtain ⟨b, hb, hrest⟩ := Space.mapAll_of_append (Prod.ext hall rfl)
  rw [hbuilt.space] at hb
  cases hb
  exact ⟨k, _, hbuilt, hresult, hrest⟩

/-- The call leaves the pages that were mapped alone. -/
theorem grows (h : CanGrow live s (n + m)) :
  GrowsBy s n
  := by
  obtain ⟨k, -, hbuilt, hresult, -⟩ := h.call
  constructor
  · rw [hresult]
  · simp [hresult]
  · intro v hlo hv hpresent
    rw [hresult]
    apply hbuilt.pteAt_of_not_mem hlo hv
    rw [Kernel.mapsWith_fst]
    intro hmem
    apply h.absent_pages v _ hpresent
    rw [mem_heapPages] at hmem ⊢
    omega

/-- After the call the heap can grow by the rest. -/
theorem next (h : CanGrow live s (n + m)) :
  CanGrow live (s.sysSbrk n).2 m
  := by
  have hend := h.lt_end
  have hstack := h.stack
  obtain ⟨k, a, hbuilt, hresult, hrest⟩ := h.call
  rw [hresult]
  constructor
  · apply h.frames.built h.dir hbuilt
  · simpa using h.dir
  · rw [setHeapEnd_heapEnd]
    apply h.base.trans
    omega
  · rw [setHeapEnd_heapEnd]
    omega
  · intro v hle hlt
    rw [setHeapEnd_heapEnd] at hle
    rw [setHeapEnd_kernel, setHeapEnd_currPageDir, setKernel_kernel, setKernel_currPageDir]
    have hbase := h.base
    have hv := hlt
    unfold memTaskStackTop memTaskStackSize memPageSize at hv
    unfold memoryTaskBase at hbase
    rw [hbuilt.pteAt_of_not_mem (by omega) (by omega)]
    · apply h.absent v (by omega) hlt
    · rw [Kernel.mapsWith_fst, mem_heapPages]
      omega
  · have hfst := (k.space 512 s.currPageDir).mapAll_fst tableIndex
      (Kernel.mapsWith heapPerm (heapPages (s.heapEnd + n) (s.heapEnd + n + m)))
    rw [hrest, Kernel.mapsWith_fst] at hfst
    rw [setHeapEnd_heapEnd, setHeapEnd_currPageDir, setKernel_currPageDir]
    apply List.getElem?_eq_none_iff.mp hfst.symm

/-- The calls one after the other. -/
theorem run {incrs : List Nat} (h : CanGrow live s incrs.sum) :
  Kernel.Built 512 live s.kernel (s.sbrks incrs).kernel s.currPageDir
      (Kernel.mapsWith heapPerm (heapPages s.heapEnd (s.heapEnd + incrs.sum))) none ∧
    (s.sbrks incrs).heapEnd = s.heapEnd + incrs.sum ∧
    ∀ before incr after, incrs = before ++ incr :: after → GrowsBy (s.sbrks before) incr
  := by
  induction incrs generalizing s with
  | nil =>
      have hnone : heapPages s.heapEnd (s.heapEnd + 0) = [] := by simp [heapPages]
      rw [List.sum_nil, hnone]
      use Kernel.Built.refl h.frames.nodes _, rfl
      intro before incr after hsplit
      cases before <;> cases hsplit
  | cons n incrs ih =>
      rw [List.sum_cons] at h
      obtain ⟨k, -, hbuilt, hresult, -⟩ := h.call
      obtain ⟨hrest, hend, hgrows⟩ := ih h.next
      rw [sbrks, List.sum_cons]
      constructor
      · rw [hresult] at hrest ⊢
        simp only [setHeapEnd_kernel, setKernel_kernel, setHeapEnd_currPageDir,
          setKernel_currPageDir, setHeapEnd_heapEnd] at hrest
        have hboth := hbuilt.trans hrest
        rw [Kernel.mapsWith, Kernel.mapsWith, ← List.map_append,
          heapPages_append (by omega) (by omega), Nat.add_assoc] at hboth
        apply hboth
      constructor
      · rw [hend, hresult, setHeapEnd_heapEnd, Nat.add_assoc]
      · intro before incr after hsplit
        rcases before with _ | ⟨n', before⟩
        · cases hsplit
          apply h.grows
        · rw [List.cons_append, List.cons.injEq] at hsplit
          obtain ⟨rfl, hsplit⟩ := hsplit
          apply hgrows before incr after hsplit

end CanGrow

/-- Pages that were absent are freshly mapped when they are built. -/
theorem freshlyMapped {k k' : Kernel} {live : Set Nat} {d : Nat} {vs : List Nat}
    (hr : RangeWf k.gPaddrAlloc)
    (hb : Kernel.Built 512 live k k' d (Kernel.mapsWith heapPerm vs) none) (hnodup : vs.Nodup)
    (huser : ∀ v ∈ vs, 512 ≤ v / 1024 ∧ v < 2 ^ 20)
    (habsent : ∀ v ∈ vs, ¬ Present (pteAt k.mem d v)) :
  FreshlyMapped k k' d vs
  := by
  have hkeys : ((Kernel.mapsWith heapPerm vs).map Prod.fst).Nodup := by
    rwa [Kernel.mapsWith_fst]
  obtain ⟨frame, hframe, hinj⟩ := Space.mapAll_entry_of_mapped (Kernel.free_nodup hr) hkeys hb.space
  rw [Kernel.mapsWith_fst] at hinj
  have hentry : ∀ v ∈ vs, frame v ∈ k.free ∧ pteAt k'.mem d v = mapWord heapPerm (frame v) := by
    intro v hv
    obtain ⟨hlo, hlt⟩ := huser v hv
    have hword := hframe v (mapWord heapPerm)
      (List.mem_map_of_mem (f := fun v => (v, mapWord heapPerm)) hv)
    rw [Kernel.space_entry hlo hlt] at hword
    apply hword
  constructor
  · apply hnodup
  · apply habsent
  · apply hb.space
  · intro v hv
    use frame v
    apply hentry v hv
  · intro v hv w hw heq
    rw [(hentry v hv).2, (hentry w hw).2,
      ptePaddr_mapWord (hr.free_bounds (hentry v hv).1).1 (by decide),
      ptePaddr_mapWord (hr.free_bounds (hentry w hw).1).1 (by decide)] at heq
    apply hinj v hv w hw heq
  · intro v hlo hlt hnot
    apply hb.pteAt_of_not_mem hlo hlt
    rwa [Kernel.mapsWith_fst]

/-- A sequence of growing calls, for which there are frames and which stays below the stack:
each call returns the old end of the heap and raises it by its increment without touching a
mapped page, and the pages between the first and the last end of the heap are mapped, each
once, to fresh frames. -/
theorem sbrks_exact {s : Os} {live : Set Nat} {incrs : List Nat}
    (hf : Kernel.Frames s.kernel live) (hd : s.currPageDir ∈ live)
    (hbase : memoryTaskBase ≤ s.heapEnd)
    (hstack : s.heapEnd + incrs.sum ≤ memTaskStackTop - memTaskStackSize)
    (habsent : ∀ v, (s.heapEnd + 4095) / 4096 ≤ v →
      v * 4096 < memTaskStackTop - memTaskStackSize → ¬ Present (pteAt s.kernel.mem s.currPageDir v))
    (henough : (s.kernel.asks 512 s.currPageDir
      (heapPages s.heapEnd (s.heapEnd + incrs.sum))).length ≤ s.kernel.free.length) :
  (∀ before incr after, incrs = before ++ incr :: after → GrowsBy (s.sbrks before) incr) ∧
    (s.sbrks incrs).heapEnd = s.heapEnd + incrs.sum ∧
    FreshlyMapped s.kernel (s.sbrks incrs).kernel s.currPageDir
      (heapPages s.heapEnd (s.sbrks incrs).heapEnd)
  := by
  have hgrow : CanGrow live s incrs.sum := ⟨hf, hd, hbase, hstack, habsent, henough⟩
  obtain ⟨hbuilt, hend, hcalls⟩ := hgrow.run
  use hcalls, hend
  rw [hend]
  apply freshlyMapped hf.range hbuilt (heapPages_nodup _ _)
  · intro v hv
    have hlt := hgrow.lt_end
    rw [mem_heapPages] at hv
    unfold memTaskStackTop memTaskStackSize memPageSize at hstack
    unfold memoryTaskBase at hbase
    omega
  · apply hgrow.absent_pages

/-! ### The first task -/

/-- The first task with an empty heap at `heap`, on a machine with `pages` pages, the first
of which is its directory. -/
def firstTask (pages heap : Nat) : Os where
  kernel := Kernel.bootDir pages
  fs := .low fun _ => 0
  gdt _ := {}
  tasks := (TaskManager.taskManagerInit .low 0 0 (fun _ => 0) {} 0).firstTaskInit heap
    { cr3 := 1024 * 1024 } 0

theorem heapEnd_firstTask (pages heap : Nat) :
  (firstTask pages heap).heapEnd = heap
  := rfl

theorem currPageDir_firstTask (pages heap : Nat) :
  (firstTask pages heap).currPageDir = 1024 * 1024
  := rfl

/-- The directory of the first task has no user page. -/
theorem absent_firstTask {pages heap v : Nat} (hpos : 0 < pages) (h : pages ≤ 1000)
    (hlo : 512 ≤ v / 1024) (hv : v < 2 ^ 20) :
  ¬ Present (pteAt (firstTask pages heap).kernel.mem (firstTask pages heap).currPageDir v)
  := by
  have hzero := (Kernel.bootDir_created hpos h).2.pteAt hlo hv
  rw [currPageDir_firstTask, firstTask, hzero]
  decide

/-- The heap of the first task can grow by three pages. -/
theorem canGrow_firstTask {n : Nat} (hn : n ≤ 0x3000) :
  CanGrow {1024 * 1024} (firstTask 9 0x80000000) n
  where
  frames := Kernel.bootDir_frames (by decide) (by decide)
  dir := rfl
  base := Nat.le_refl _
  stack := by
    rw [heapEnd_firstTask]
    unfold memTaskStackTop memTaskStackSize memPageSize
    omega
  absent v hle hlt := by
    rw [heapEnd_firstTask] at hle
    unfold memTaskStackTop memTaskStackSize memPageSize at hlt
    apply absent_firstTask (by decide) (by decide) <;> omega
  enough := by
    have hfree : (firstTask 9 0x80000000).kernel.free.length = 8 := by
      rw [show (firstTask 9 0x80000000).kernel = Kernel.bootDir 9 from rfl,
        Kernel.bootDir_free (by decide) (by decide), List.length_map, List.length_range]
    rw [hfree, heapEnd_firstTask]
    apply (length_requests_le _ _ _).trans
    rw [heapPages, List.length_range']
    omega

/-- Two calls, the second of which crosses into a new page. -/
theorem sbrks_exact_firstTask :
  ((firstTask 9 0x80000000).sbrks [10, 5000]).heapEnd = 0x80000000 + [10, 5000].sum
  := by
  have hgrow : CanGrow {1024 * 1024} (firstTask 9 0x80000000) [10, 5000].sum :=
    canGrow_firstTask (by decide)
  apply (sbrks_exact hgrow.frames hgrow.dir hgrow.base hgrow.stack hgrow.absent hgrow.enough).2.1

end Os

end Dmos
