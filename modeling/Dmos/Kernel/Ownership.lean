import Dmos.Kernel.DeepCopy
import Dmos.Library.Transition

/-!
# Frame ownership over whole runs

The operations on page directories as a transition system: directories are created, their
ranges are allocated, they are copied and destroyed, in any order and with any outcome.
Between these operations user pages are written and the page directory register is loaded.
The state carries the set of directories in use.

Every reachable state satisfies `Frames` (`frames_of_reachable`).  Copying keeps it whatever
the page directory register holds: the register decides what is read, but not what is
written.
-/

open ByteMemory AddressSpace Loop

namespace Dmos

namespace Kernel

variable {s t : Kernel} {live : Set Nat} {c : Nat}

/-! ### Copying, whatever is read -/

/-- Copying writes the destination only. -/
theorem kMemcpy_loop_writes {dst n : Nat} (va : Nat) (hdst : dst + n ≤ memoryTaskBase) :
  ∃ m, (kMemcpy.loop s dst va n).2 = s.setMem m ∧
    ∀ x, ¬ (dst ≤ x ∧ x < dst + n) → m x = s.mem x
  := by
  unfold memoryTaskBase at hdst
  induction n generalizing s dst va with
  | zero =>
      refine ⟨s.mem, ?_, fun _ _ => rfl⟩
      rw [kMemcpy.loop]
      rfl
  | succ n ih =>
      have hto : s.kernelAddr dst = some dst := by
        rw [kernelAddr, if_pos (by unfold memoryTaskBase; omega)]
      rcases hfrom : s.kernelAddr va with _ | src
      · refine ⟨s.mem, ?_, fun _ _ => rfl⟩
        simp only [kMemcpy.loop, hfrom]
        rfl
      · obtain ⟨m, hm, hsame⟩ := ih (s := s.setMem (store8 s.mem dst (s.mem src))) (u32 (va + 1))
          (show dst + 1 + n ≤ 2147483648 by omega)
        use m
        simp only [kMemcpy.loop, hfrom, hto]
        rw [u32_of_lt (by omega)]
        use hm
        intro x hx
        rw [hsame x (by omega), setMem_mem, store8_of_ne _ _ (by omega)]

theorem kMemcpy_writes {dst n : Nat} (va : Nat) (hdst : dst + n ≤ memoryTaskBase) :
  ∃ m, (s.kMemcpy dst va n).2 = s.setMem m ∧ ∀ x, ¬ (dst ≤ x ∧ x < dst + n) → m x = s.mem x
  := by
  rw [kMemcpy]
  split_ifs
  · exact ⟨s.mem, rfl, fun _ _ => rfl⟩
  · apply kMemcpy_loop_writes va hdst

/-- A pass builds a page, or nothing, before it ends or stops. -/
theorem copyPass_built {i j : Nat} (tbl : Nat) (hf : Frames t live) (hc : c ∈ live) (hi : 512 ≤ i)
    (hi' : i < 1024) (hj : j < 1024) :
  Ends (memoryCopyUvm.pass c tbl i j t) (fun t' => ∃ vs, Built 512 live t t' c vs none)
    (fun x => ∀ t', x = .failed t' → ∃ vs q, Built 512 live t t' c vs (some q))
  := by
  rw [copyPass_eq]
  by_cases hpresent : Present (t.load (tbl + 4 * j))
  · have hlo : 512 ≤ (1024 * i + j) / 1024 := by omega
    have hlt : 1024 * i + j < 2 ^ 20 := by omega
    have hpage := (page_offset (1024 * i + j) (Nat.zero_lt_succ 4095)).1
    have hperm : getPtePerm (t.load (tbl + 4 * j)) < 4096 := by
      rw [getPtePerm_eq]
      omega
    rw [if_pos hpresent, shift_or_shift hj]
    generalize getPtePerm (t.load (tbl + 4 * j)) = perm at hperm ⊢
    have hstep := mapFresh_cases c ((1024 * i + j) * 4096) perm hf.range (by
      rw [← Nat.add_zero ((1024 * i + j) * 4096), hpage]
      intro _ g hg
      apply hf.nodes.ne_zero (p := .table c ((1024 * i + j) / 1024))
      exact ⟨hc, hlo, by omega, hg⟩)
    rw [← Nat.add_zero ((1024 * i + j) * 4096), hpage, Nat.add_zero] at hstep
    have hbuilt := Built.of_mapFresh hstep hf.range hf.nodes hc hlo hlt hperm
    rcases hres : t.mapFresh c ((1024 * i + j) * 4096) perm with ⟨_ | q, t₁⟩
    · rw [hres] at hstep hbuilt
      obtain ⟨f, tb, hmaps⟩ := hstep.mapsTo hf.range hf.nodes hc hlo hlt hperm
      obtain ⟨rest, hfree⟩ := hmaps.first
      have hbounds := hf.range.free_bounds hmaps.page_free
      have hentry : pteAt t₁.mem c (1024 * i + j) = mapWord perm f := by
        rw [hmaps.sets.entry c hc _ hlo hlt, if_pos ⟨rfl, rfl⟩]
      obtain ⟨m, hm, hsame⟩ := kMemcpy_loop_writes (s := t₁)
        ((1024 * i + j) * 4096) hbounds.2.2
      have hwritten := (hbuilt.fill_page hf hc hlo hlt hmaps.page_free hperm hentry hsame).1
      unfold memExtStart at hbounds
      simp only [addrAllocPage_of_free hf.range hfree]
      rw [kMemcpy, if_neg (by unfold memPageSize; omega)]
      rcases hcopy : kMemcpy.loop t₁ f ((1024 * i + j) * 4096) memPageSize with ⟨_ | n, t₂⟩
      · use [(1024 * i + j, mapWord perm)]
        rw [show memPageSize = 4096 from rfl] at hcopy
        rw [hcopy] at hm
        rw [show t₂ = _ from hm]
        apply hwritten
      · rintro t' heq
        cases heq
    · rw [hres] at hbuilt
      rintro t' heq
      cases heq
      use [(1024 * i + j, mapWord perm)], q
  · rw [if_neg hpresent]
    exact ⟨[], Built.refl hf.nodes c⟩

/-- The loops of a copy build pages before they end or stop, from whatever directory. -/
theorem copyLoop_built (p : Nat) (hf : Frames s live) (hc : c ∈ live) :
  Ends
    (forLoop
      (fun i t =>
        if Present (t.load (p + 4 * i)) then
          forLoop (memoryCopyUvm.pass c (pdePaddr (t.load (p + 4 * i))) i) 0 1024 t
        else .ok t)
      512 512 s)
    (fun t => ∃ vs, Built 512 live s t c vs none)
    (fun x => ∀ t, x = .failed t → ∃ vs q, Built 512 live s t c vs (some q))
  := by
  apply forLoop_rule _ (fun _ t => ∃ vs, Built 512 live s t c vs none)
  · rintro i t hi hi' ⟨vs, ht⟩
    split_ifs with hpresent
    · apply forLoop_rule _ (fun _ u => ∃ vs, Built 512 live s u c vs none)
      · rintro j u - hj ⟨ws, hu⟩
        have hpass := copyPass_built (pdePaddr (t.load (p + 4 * i))) (hf.built hc hu) hc hi
          (by omega) (show j < 1024 by omega)
        apply hpass.mono
        · rintro u' ⟨ws', hu'⟩
          exact ⟨ws ++ ws', hu.trans hu'⟩
        · rintro x hx t' heq
          obtain ⟨ws', q, hu'⟩ := hx t' heq
          exact ⟨ws ++ ws', q, hu.trans hu'⟩
      · exact ⟨vs, ht⟩
    · exact ⟨vs, ht⟩
  · exact ⟨[], Built.refl hf.nodes c⟩

/-- A copy that returns keeps the ownership of frames, with the new directory, if there is
one, in use. -/
theorem Frames.copied {p : Nat} (hf : Frames s live)
    (hcopy : s.memoryCopyUvm p = .ok (c, t)) :
  Frames t (if c = errorWord then live else insert c live)
  := by
  rcases hfree : s.free with _ | ⟨d, rest⟩
  · rw [memoryCopyUvm, memoryCreateUvm_of_full hfree] at hcopy
    simp only [if_true, Except.ok.injEq, Prod.mk.injEq] at hcopy
    rw [if_pos hcopy.1.symm, ← hcopy.2]
    apply hf
  · obtain ⟨s', hcreate, hc⟩ := memoryCreateUvm_of_free hf.range hfree
    have hmem : d ∈ s.free := by
      rw [hfree]
      apply List.mem_cons_self
    have hzero : d ≠ 0 := by
      have hbounds := hf.range.free_bounds hmem
      unfold memExtStart at hbounds
      omega
    have hstart : pdeIndex memoryTaskBase = 512 := by decide
    have hdl : d ∈ insert d live := Set.mem_insert d live
    have hf' := hf.created hfree hc
    have hloop := copyLoop_built p hf' hdl
    rw [memoryCopyUvm, hcreate] at hcopy
    simp only [if_neg hzero, hstart] at hcopy
    cases hres : forLoop
        (fun i t =>
          if Present (t.load (p + 4 * i)) then
            forLoop (memoryCopyUvm.pass d (pdePaddr (t.load (p + 4 * i))) i) 0 1024 t
          else .ok t)
        512 512 s' with
    | ok u =>
        rw [hres] at hloop
        obtain ⟨vs, hbuilt⟩ := hloop
        rw [show pdeCnt - 512 = 512 from rfl, show pteCnt = 1024 from rfl, hres] at hcopy
        rw [Except.ok.injEq, Prod.mk.injEq] at hcopy
        rw [← hcopy.1, ← hcopy.2, if_neg (ne_errorWord hf.range hmem)]
        apply hf'.built hdl hbuilt
    | error x =>
        rw [hres] at hloop
        rw [show pdeCnt - 512 = 512 from rfl, show pteCnt = 1024 from rfl, hres] at hcopy
        cases x with
        | failed u =>
            obtain ⟨vs, q, hbuilt⟩ := hloop u rfl
            rw [Except.ok.injEq, Prod.mk.injEq] at hcopy
            rw [← hcopy.1, ← hcopy.2, if_pos rfl]
            have hdestroyed :=
              (hf'.built hdl hbuilt).destroyed (freed_memoryDestoryUvm (hf'.built hdl hbuilt) hdl)
            have hnot : d ∉ live := fun hd => (hf.marked_dir hd).not_free hf.range hmem
            rw [Set.insert_sdiff_self_of_notMem hnot] at hdestroyed
            apply hdestroyed
        | fault u => cases hcopy

/-- The frames in use after a copy that has not failed are those of before, the new directory,
its user tables and its pages. -/
theorem marked_copied {p : Nat} (hf : Frames s live) (hp : p ∈ live) (he : s.cr3 ∈ live)
    (hcopy : s.memoryCopyUvm p = .ok (c, t)) (hne : c ≠ errorWord) {g : Nat} (hg : t.Marked g) :
  s.Marked g ∨ ∃ a, a.root = c ∧ Owns 512 t.mem (insert c live) a g
  := by
  have hrun := memoryCopyUvm_cases hf hp he
  rw [hcopy] at hrun
  cases hrun with
  | noDir => cases hne rfl
  | failed => cases hne rfl
  | copied hfree hc hcopied =>
      have hf' := hf.created hfree hc
      rw [hcopied.built.marked, hc.marked hf.range hfree] at hg
      rcases hg with (hg | rfl) | ⟨hin, hout⟩
      · exact .inl hg
      · exact .inr ⟨.dir g, rfl, Set.mem_insert g live, rfl⟩
      · right
        apply hcopied.built.owns_of_taken (Set.mem_insert c live) _ hf'.range nofun hin hout
        apply userMaps_copyMaps _ (nodup_presentPages _ _ _ _)
        intro v hv
        have hrange := (mem_presentPages.mp hv).1
        omega

/-! ### Writing user pages -/

/-- Ownership of frames depends on the memory of directories and tables only. -/
theorem Frames.setMem (hf : Frames s live) {m : Memory}
    (hframe : ∀ q g, OwnsNode 512 s.mem live q g → SameFrame s.mem m g)
    (hbase : SameFrame s.mem m s.layout.gKernelPageDir) :
  Frames (s.setMem m) live
  := by
  have htable : ∀ e ∈ live, ∀ i < 1024, tableAt m e i = tableAt s.mem e i := by
    intro e he i hi
    apply tableAt_congr (hframe (.dir e) e ⟨he, rfl⟩) hi
  have hentry : ∀ e ∈ live, ∀ w, 512 ≤ w / 1024 → w < 2 ^ 20 → pteAt m e w = pteAt s.mem e w := by
    intro e he w hw hw'
    apply pteAt_congr (hframe (.dir e) e ⟨he, rfl⟩) hw'
    intro g hg
    apply hframe (.table e (w / 1024)) g ⟨he, hw, by omega, hg⟩
  have hown : ∀ q g, Owns 512 m live q g → Owns 512 s.mem live q g :=
    fun q g hq => hq.of_entries htable hentry
  constructor
  · apply hf.range
  · apply hf.exclusive.shrink hown
    intro q g hq
    apply hf.exclusive.used_of_owns (hown q g hq)
  · intro e he i hi
    have hdir := (hframe (.dir e) e ⟨he, rfl⟩).load32 (show i < 1024 by omega)
    rw [setMem_mem, hdir, hf.kernel e he i hi]
    symm
    apply hbase.load32
    omega

/-- Writing a byte of a user page keeps the ownership of frames. -/
theorem Frames.written (hf : Frames s live) {d v x : Nat} (hd : d ∈ live) (hlo : 512 ≤ v / 1024)
    (hv : v < 2 ^ 20) (hpresent : Present (pteAt s.mem d v)) (hx : x < 4096) (b : UInt8) :
  Frames (s.setMem (store8 s.mem (ptePaddr (pteAt s.mem d v) + x) b)) live
  := by
  have hpage : Owns 512 s.mem live (.page d v) (ptePaddr (pteAt s.mem d v)) :=
    ⟨hd, hlo, hv, hpresent, rfl⟩
  have hbounds := hf.range.marked_bounds (hf.exclusive.used_of_owns hpage)
  generalize ptePaddr (pteAt s.mem d v) = f at hpage hbounds ⊢
  have hsame : ∀ g, g % 4096 = 0 → g ≠ f → SameFrame s.mem (store8 s.mem (f + x) b) g := by
    intro g hg hne y hy hy'
    apply store8_of_ne
    omega
  apply hf.setMem
  · intro q g hq
    apply hsame g (hf.range.marked_bounds (hf.exclusive.used_of_owns hq.owns)).1
    rintro rfl
    rw [hf.exclusive.unique hq.owns hpage] at hq
    apply hq
  · apply hsame _ s.layout.gKernelPageDir_aligned
    have hlt := gKernelPageDir_lt s.layout hbounds.2.1
    omega

/-! ### Runs -/

/-- What happens to the page directories. -/
inductive DirOp where
  | create
  | alloc (pageDir vaddr size perm : Nat)
  | copy (pageDir : Nat)
  | destroy (pageDir : Nat)
  | setPageDir (paddr : Nat)
  | write (pageDir vaddr : Nat) (b : UInt8)

/-- The steps of the memory manager on its state and the set of directories in use. -/
inductive DirStep : Kernel × Set Nat → DirOp → Kernel × Set Nat → Prop
  | createFailed {s s' live} : s.memoryCreateUvm = (0, s') → DirStep (s, live) .create (s', live)
  | create {s s' live d} : s.memoryCreateUvm = (d, s') → d ≠ 0 →
      DirStep (s, live) .create (s', insert d live)
  /-- Whether the allocation succeeds or not.  A permission word has the bits below those of the
  frame. -/
  | alloc {s live d vaddr size perm} : d ∈ live → vaddr % 4096 = 0 → memoryTaskBase ≤ vaddr →
      vaddr < 2 ^ 32 → vaddr + size ≤ 2 ^ 32 → perm < 4096 →
      DirStep (s, live) (.alloc d vaddr size perm)
        ((s.memoryAllocForPageDir d vaddr size perm).2, live)
  | copyFailed {s s' live p} : p ∈ live → s.memoryCopyUvm p = .ok (errorWord, s') →
      DirStep (s, live) (.copy p) (s', live)
  | copy {s s' live p c} : p ∈ live → s.memoryCopyUvm p = .ok (c, s') → c ≠ errorWord →
      DirStep (s, live) (.copy p) (s', insert c live)
  | destroy {s live d} : d ∈ live → DirStep (s, live) (.destroy d) (s.memoryDestoryUvm d, live \ {d})
  | setPageDir {s live d} : DirStep (s, live) (.setPageDir d) (s.mmuSetPageDir d, live)
  /-- A byte is written to a present user page. -/
  | write {s live d vaddr b} : d ∈ live → memoryTaskBase ≤ vaddr → vaddr < 2 ^ 32 →
      Present (pteAt s.mem d (vaddr / 4096)) →
      DirStep (s, live) (.write d vaddr b)
        (s.setMem (store8 s.mem (ptePaddr (pteAt s.mem d (vaddr / 4096)) + vaddr % 4096) b), live)

/-- The memory manager, from a state without user directories on. -/
def memoryManager : TransitionSystem (Kernel × Set Nat) DirOp where
  init x := RangeWf x.1.gPaddrAlloc ∧ x.2 = ∅
  step := DirStep

/-- Every step keeps the ownership of frames. -/
theorem DirStep.frames {x x' : Kernel × Set Nat} {a : DirOp} (hf : Frames x.1 x.2)
    (h : DirStep x a x') :
  Frames x'.1 x'.2
  := by
  cases h with
  | @createFailed s s' live hcreate =>
      rcases hfree : s.free with _ | ⟨d, rest⟩
      · rw [memoryCreateUvm_of_full hfree, Prod.mk.injEq] at hcreate
        rw [← hcreate.2]
        apply hf
      · obtain ⟨t, ht, -⟩ := memoryCreateUvm_of_free hf.range hfree
        have hbounds := hf.range.free_bounds (f := d) (by
          rw [← Kernel.free, hfree]
          apply List.mem_cons_self)
        rw [ht, Prod.mk.injEq] at hcreate
        rw [hcreate.1] at hbounds
        cases hbounds.2.1
  | @create s s' live d hcreate hd =>
      rcases hfree : s.free with _ | ⟨d', rest⟩
      · rw [memoryCreateUvm_of_full hfree, Prod.mk.injEq] at hcreate
        cases hd hcreate.1.symm
      · obtain ⟨t, ht, hc⟩ := memoryCreateUvm_of_free hf.range hfree
        rw [ht, Prod.mk.injEq] at hcreate
        rw [← hcreate.1, ← hcreate.2]
        apply hf.created hfree hc
  | @alloc s live d vaddr size perm hd _ hbase hlt hend hperm =>
      obtain ⟨r, t, hb, hresult⟩ := memoryAllocForPageDir_spec 512 hf.range hf.nodes hd hperm hbase
        hlt (fun v hv => (allocPages_user hbase hend hlt hv).1)
      rw [hresult]
      apply hf.built hd hb
  | copyFailed hp hcopy =>
      have hcopied := hf.copied hcopy
      rw [if_pos rfl] at hcopied
      apply hcopied
  | copy hp hcopy hc =>
      have hcopied := hf.copied hcopy
      rw [if_neg hc] at hcopied
      apply hcopied
  | destroy hd => apply hf.destroyed (freed_memoryDestoryUvm hf hd)
  | setPageDir => use hf.range, hf.exclusive, hf.kernel
  | @write s live d vaddr b hd hbase hlt hpresent =>
      unfold memoryTaskBase at hbase
      apply hf.written hd (by omega) (by omega) hpresent (by omega)

/-- In every reachable state each frame in use, as a directory, as a user page table or
behind a user page, is marked used and has one place, and the directories share the kernel
half. -/
theorem frames_of_reachable {s : Kernel} {live : Set Nat}
    (h : memoryManager.Reachable (fun _ => True) (s, live)) :
  Exclusive (Owns 512 s.mem live) s.Marked ∧
    ∀ d ∈ live, ∀ i < 512,
      load32 s.mem (d + 4 * i) = load32 s.mem (s.layout.gKernelPageDir + 4 * i)
  := by
  have hframes : Frames s live := by
    apply h.invariant (I := fun x => Frames x.1 x.2)
    · rintro ⟨s, live⟩ ⟨hr, rfl⟩
      apply Frames.empty hr
    · intro x a x' hf _ hstep
      apply hstep.frames hf
  use hframes.exclusive, hframes.kernel

/-- On the machine of `boot` a directory is created and copied with its page; then the first one
is destroyed. -/
theorem frames_of_reachable_boot :
  ∃ c t, memoryManager.Run (boot 9, ∅) [.create, .alloc (1024 * 1024) 0x80000000 4096 7,
      .setPageDir (1024 * 1024), .copy (1024 * 1024)] (t, {c, 1024 * 1024}) ∧ c ≠ 1024 * 1024
    ∧ Present (pteAt t.mem c 524288)
    ∧ (Exclusive (Owns 512 t.mem {c, 1024 * 1024}) t.Marked
      ∧ ∀ d ∈ ({c, 1024 * 1024} : Set Nat), ∀ i < 512,
        load32 t.mem (d + 4 * i) = load32 t.mem (t.layout.gKernelPageDir + 4 * i))
    ∧ Exclusive (Owns 512 (t.memoryDestoryUvm (1024 * 1024)).mem
        ({c, 1024 * 1024} \ {1024 * 1024})) (t.memoryDestoryUvm (1024 * 1024)).Marked
  := by
  have hf : Frames (bootPage 9) {1024 * 1024} := bootPage_frames (by decide) (by decide)
  have hpages := bootPage_userPages (show 3 ≤ 9 by decide) (by decide)
  obtain ⟨c, t, hcopy, -, hfaithful⟩ := memoryCopyUvm_of_enough (p := 1024 * 1024) hf rfl rfl (by
    rw [hpages, bootPage_free_length (by decide) (by decide)]
    decide)
  have hcreate : DirStep (boot 9, ∅) .create (bootDir 9, {1024 * 1024}) := by
    rw [← insert_empty_eq]
    have hcreated := (bootDir_created (show 0 < 9 by decide) (by decide)).1
    exact .create (Prod.ext hcreated rfl) (by decide)
  have halloc : DirStep (bootDir 9, {1024 * 1024}) (.alloc (1024 * 1024) 0x80000000 4096 7)
      (((bootDir 9).memoryAllocForPageDir (1024 * 1024) 0x80000000 4096 7).2, {1024 * 1024}) :=
    .alloc rfl (by decide) (by decide) (by decide) (by decide) (by decide)
  have hcopied : DirStep (bootPage 9, {1024 * 1024}) (.copy (1024 * 1024)) (t, {c, 1024 * 1024}) :=
    .copy rfl hcopy (hfaithful.ne_errorWord hf.range)
  have hstart : memoryManager.Reachable (fun _ => True) (boot 9, ∅) :=
    .init ⟨boot_rangeWf (by decide), rfl⟩
  have hreachable := (((hstart.step trivial hcreate).step trivial halloc).step trivial
    .setPageDir).step trivial hcopied
  have hdestroy : DirStep (t, {c, 1024 * 1024}) (.destroy (1024 * 1024))
      (t.memoryDestoryUvm (1024 * 1024), {c, 1024 * 1024} \ {1024 * 1024}) := .destroy (.inr rfl)
  refine ⟨c, t, .cons hcreate (.cons halloc (.cons .setPageDir (.cons hcopied .nil))), ?_, ?_,
    frames_of_reachable hreachable, (frames_of_reachable (hreachable.step trivial hdestroy)).1⟩
  · rintro rfl
    have hmarked : (bootPage 9).Marked (1024 * 1024) :=
      hf.exclusive.used_of_owns (p := .dir (1024 * 1024)) ⟨rfl, rfl⟩
    exact hmarked.not_free hf.range hfaithful.dir
  · rw [hfaithful.present 524288 (by decide) (by decide)]
    apply (mem_presentPages.mp (_ : 524288 ∈ userPages (bootPage 9).mem (1024 * 1024))).2
    rw [hpages]
    apply List.mem_cons_self

end Kernel

end Dmos
