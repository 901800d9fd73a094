import Dmos.Kernel.AllocDir

/-!
# Copying an address space

`memoryCopyUvm` walks the user pages of a directory, maps each present one to a fresh frame
of a new directory, and copies its contents, reading them at the user address through the
directory in `cr3`.  The pages are visited in ascending order (`userPages`), each by a pass
that builds one page (`copyPass_cases`).
-/

open ByteMemory AddressSpace Loop

namespace Dmos

namespace Kernel

/-! ### Reading user memory -/

theorem translate_eq {s : Kernel} (h : s.cr3 % 4096 = 0) (vaddr : Nat) :
  s.translate vaddr
    = if Present (pteAt s.mem s.cr3 (vaddr / 4096)) then
        some (ptePaddr (pteAt s.mem s.cr3 (vaddr / 4096)) + vaddr % 4096)
      else none
  := by
  have hcr3 : pdePaddr s.cr3 = s.cr3 := by
    rw [pdePaddr_eq]
    omega
  simp only [translate, load, hcr3, pdeIndex_page, pteIndex_eq]
  rcases ht : tableAt s.mem s.cr3 (vaddr / 4096 / 1024) with _ | t
  · rw [if_neg (tableAt_eq_none_iff.mp ht), pteAt_of_no_table ht, if_neg (by decide)]
  · obtain ⟨hpresent, haddr⟩ := tableAt_eq_some_iff.mp ht
    rw [if_pos hpresent, haddr, pteAt_of_table ht]

/-- Copying bytes from a user range that stays readable to a disjoint kernel range. -/
theorem kMemcpy_loop {s : Kernel} {dst va n : Nat} (src : Nat) (hdst : dst + n ≤ memoryTaskBase)
    (hva : memoryTaskBase ≤ va) (hend : va + n ≤ 2 ^ 32)
    (hread : ∀ m : Memory, (∀ x, ¬ (dst ≤ x ∧ x < dst + n) → m x = s.mem x) →
      ∀ k < n, (s.setMem m).translate (va + k) = some (src + k))
    (hdisjoint : src + n ≤ dst ∨ dst + n ≤ src) :
  kMemcpy.loop s dst va n = (0, s.setMem (copy s.mem dst src n))
  := by
  unfold memoryTaskBase at hdst hva
  induction n generalizing s dst va src with
  | zero =>
      have hcopy : copy s.mem dst src 0 = s.mem := by
        funext x
        apply copy_outside
        omega
      rw [hcopy]
      rfl
  | succ n ih =>
      have hfirst : s.kernelAddr va = some src := by
        rw [kernelAddr, if_neg (by unfold memoryTaskBase; omega)]
        apply hread s.mem (fun _ _ => rfl) 0 (by omega)
      have hto : s.kernelAddr dst = some dst := by
        rw [kernelAddr, if_pos (by unfold memoryTaskBase; omega)]
      have hrest : kMemcpy.loop (s.setMem (store8 s.mem dst (s.mem src))) (dst + 1) (va + 1) n
          = (0, s.setMem (copy s.mem dst src (n + 1))) := by
        rw [ih (src + 1) (by omega) (by omega) (by omega) _ (by omega), setMem_mem,
          copy_succ _ hdisjoint]
        · rfl
        · intro m hm k hk
          rw [Nat.add_assoc, Nat.add_assoc, Nat.add_comm 1 k]
          apply hread m _ (k + 1) (by omega)
          intro x hx
          rw [hm x (by omega), setMem_mem, store8_of_ne _ _ (by omega)]
      simp only [kMemcpy.loop, hfirst, hto]
      rw [← hrest, u32_of_lt (by omega)]
      rcases n with _ | n
      · rfl
      · rw [u32_of_lt (by omega)]
        rfl

/-- Copying a user page that stays readable at `src` to the frame `f`. -/
theorem kMemcpy_page {s : Kernel} {f src v : Nat} (hf : memExtStart ≤ f)
    (hf' : f + 4096 ≤ memoryTaskBase) (hlo : 512 ≤ v / 1024) (hv : v < 2 ^ 20)
    (hread : ∀ m : Memory, (∀ x, ¬ (f ≤ x ∧ x < f + 4096) → m x = s.mem x) →
      ∀ k < 4096, (s.setMem m).translate (v * 4096 + k) = some (src + k))
    (hdisjoint : src + 4096 ≤ f ∨ f + 4096 ≤ src) :
  s.kMemcpy f (v * 4096) memPageSize = (0, s.setMem (copy s.mem f src memPageSize))
  := by
  unfold memExtStart at hf
  rw [kMemcpy, if_neg]
  · apply kMemcpy_loop src hf' _ _ hread hdisjoint
    · unfold memoryTaskBase
      omega
    · omega
  · unfold memPageSize
    omega

/-- Copying a user page that is not present faults at once. -/
theorem kMemcpy_page_fault {s : Kernel} {f v : Nat} (hf : memExtStart ≤ f)
    (hlo : 512 ≤ v / 1024) (hread : s.translate (v * 4096) = none) :
  s.kMemcpy f (v * 4096) memPageSize = (memPageSize, s)
  := by
  unfold memExtStart at hf
  have hfirst : s.kernelAddr (v * 4096) = none := by
    rw [kernelAddr, if_neg (by unfold memoryTaskBase; omega), hread]
  have hloop : ∀ n, 0 < n → kMemcpy.loop s f (v * 4096) n = (n, s) := by
    intro n hn
    rcases n with _ | n
    · omega
    · simp only [kMemcpy.loop, hfirst]
  rw [kMemcpy, if_neg]
  · apply hloop
    decide
  · unfold memPageSize
    omega

-- the byte loop is not to be unrolled by unification
attribute [local irreducible] kMemcpy.loop

/-! ### One page -/

/-- The address rebuilt from the indices of a directory and a table. -/
theorem shift_or_shift {i j : Nat} (hj : j < 1024) :
  (i <<< 22) ||| (j <<< 12) = (1024 * i + j) * 4096
  := by
  rw [Nat.shiftLeft_eq, Nat.shiftLeft_eq, Nat.mul_comm i,
    ← Nat.two_pow_add_eq_or_of_lt (show j * 2 ^ 12 < 2 ^ 22 by omega)]
  omega

theorem page_offset (v : Nat) {k : Nat} (hk : k < 4096) :
  (v * 4096 + k) / 4096 = v ∧ (v * 4096 + k) % 4096 = k
  := by omega

theorem copyPass_eq (c table i j : Nat) (t : Kernel) :
  memoryCopyUvm.pass c table i j t
    = if Present (t.load (table + 4 * j)) then
        match t.mapFresh c ((i <<< 22) ||| (j <<< 12)) (getPtePerm (t.load (table + 4 * j))) with
        | (some _, t₁) => .error (.failed t₁)
        | (none, t₁) =>
            match t₁.kMemcpy (t.addrAllocPage 1).1 ((i <<< 22) ||| (j <<< 12)) memPageSize with
            | (0, t₂) => .ok t₂
            | (_, t₂) => .error (.fault t₂)
      else .ok t
  := by
  simp only [memoryCopyUvm.pass, mapFresh]
  rcases t.addrAllocPage 1 with ⟨page, t₁⟩
  by_cases hzero : page = 0
  · simp only [hzero, if_true]
  · simp only [hzero, if_false]
    rcases t₁.memoryCreateMap c ((i <<< 22) ||| (j <<< 12)) page 1
      (getPtePerm (t.load (table + 4 * j))) with ⟨err, t₂⟩
    by_cases herr : err < 0
    · simp only [herr, if_true]
    · rcases hcopy : t₂.kMemcpy page ((i <<< 22) ||| (j <<< 12)) memPageSize with ⟨_ | n, t₃⟩
      · simp only [herr, if_false, hcopy]
      · simp only [herr, if_false, hcopy]

section Pass

variable {live : Set Nat} {t : Kernel} {c : Nat}

/-- The frame of a page just mapped in `c` is neither a node nor the frame of a page of
another directory, and its content can be written. -/
theorem Built.fill_page {v perm f : Nat} {t' : Kernel} {r : Option Request}
    (hb : Built 512 live t t' c [(v, mapWord perm)] r) (hf : Frames t live) (hc : c ∈ live)
    (hlo : 512 ≤ v / 1024) (hv : v < 2 ^ 20) (hfree : f ∈ t.free) (hperm : perm < 4096)
    (hentry : pteAt t'.mem c v = mapWord perm f) {m : Memory}
    (hm : ∀ x, ¬ (f ≤ x ∧ x < f + 4096) → m x = t'.mem x) :
  Built 512 live t (t'.setMem m) c [(v, mapWord perm)] r ∧ pteAt m c v = mapWord perm f ∧
    ∀ e ∈ live, e ≠ c → ∀ w, 512 ≤ w / 1024 → w < 2 ^ 20 →
      pteAt m e w = pteAt t.mem e w ∧
      (Present (pteAt t.mem e w) → ptePaddr (pteAt t.mem e w) ≠ f)
  := by
  have hf' := hf.built hc hb
  have hbounds := hf.range.free_bounds hfree
  have hpage : Owns 512 t'.mem live (.page c v) f := by
    use hc, hlo, hv
    rw [hentry]
    use mapWord_present hbounds.1 hperm
    apply ptePaddr_mapWord hbounds.1 hperm
  have hnode : ∀ q, ¬ OwnsNode 512 t'.mem live q f := by
    intro q hq
    rw [hf'.exclusive.unique hq.owns hpage] at hq
    apply hq
  have hsame : ∀ g, g % 4096 = 0 → g ≠ f → SameFrame t'.mem m g := by
    intro g hg hne x hx hx'
    apply hm
    omega
  have hframe : ∀ q g, OwnsNode 512 t'.mem live q g → SameFrame t'.mem m g := by
    intro q g hq
    apply hsame g (hf'.range.marked_bounds (hf'.exclusive.used_of_owns hq.owns)).1
    rintro rfl
    apply hnode q hq
  have hpte : ∀ e ∈ live, ∀ w, 512 ≤ w / 1024 → w < 2 ^ 20 → pteAt m e w = pteAt t'.mem e w := by
    intro e he w hlo' hw
    apply pteAt_congr (hframe (.dir e) e ⟨he, rfl⟩) hw
    intro g hg
    apply hframe (.table e (w / 1024)) g ⟨he, hlo', by omega, hg⟩
  constructor
  · apply hb.write hfree hnode hc hbounds.1 hm
  constructor
  · rw [hpte c hc v hlo hv, hentry]
  · intro e he hne w hlo' hw
    rw [hpte e he w hlo' hw, hb.pteAt_of_ne hf.nodes hc he hne hlo' hw]
    use rfl
    rintro hpresent rfl
    apply (hf.marked_page he hlo' hw hpresent).not_free hf.range hfree

section Mapped

variable {v perm f tb : Nat} {t' : Kernel}
  (hb : Built 512 live t t' c [(v, mapWord perm)] none)
  (hmaps : MapsTo 512 live t t' c v perm f tb) (hf : Frames t live) (hc : c ∈ live)
  (he : t.cr3 ∈ live) (hec : t.cr3 ≠ c) (hlo : 512 ≤ v / 1024) (hv : v < 2 ^ 20)
  (hperm : perm < 4096)

include hb hmaps hf hc he hec hlo hv hperm

/-- The page stays readable through `cr3`, or unreadable, while its copy is written. -/
theorem translate_mapped {m : Memory} (hm : ∀ x, ¬ (f ≤ x ∧ x < f + 4096) → m x = t'.mem x)
    {k : Nat} (hk : k < 4096) :
  (t'.setMem m).translate (v * 4096 + k)
    = if Present (pteAt t.mem t.cr3 v) then some (ptePaddr (pteAt t.mem t.cr3 v) + k) else none
  := by
  have hentry : pteAt t'.mem c v = mapWord perm f := by
    rw [hmaps.sets.entry c hc v hlo hv, if_pos ⟨rfl, rfl⟩]
  have hpte := ((hb.fill_page hf hc hlo hv hmaps.page_free hperm hentry hm).2.2 t.cr3 he hec v hlo
    hv).1
  have hcr3 : (t'.setMem m).cr3 = t.cr3 := hb.cr3
  obtain ⟨hdiv, hmod⟩ := page_offset v hk
  rw [translate_eq (by rw [hcr3]; apply hf.nodes.aligned _ he), hcr3, setMem_mem, hdiv, hmod, hpte]

/-- A readable page is copied. -/
theorem copy_readable (hreadable : Present (pteAt t.mem t.cr3 v)) :
  ∃ t'', t'.kMemcpy f (v * 4096) memPageSize = (0, t'') ∧
    Built 512 live t t'' c [(v, mapWord perm)] none ∧
    ∀ x < 4096, t''.mem (ptePaddr (pteAt t''.mem c v) + x)
      = t.mem (ptePaddr (pteAt t.mem t.cr3 v) + x)
  := by
  have hbounds := hf.range.free_bounds hmaps.page_free
  have hentry : pteAt t'.mem c v = mapWord perm f := by
    rw [hmaps.sets.entry c hc v hlo hv, if_pos ⟨rfl, rfl⟩]
  have hsource : Owns 512 t.mem live (.page t.cr3 v) (ptePaddr (pteAt t.mem t.cr3 v)) :=
    ⟨he, hlo, hv, hreadable, rfl⟩
  have hmarked := hf.exclusive.used_of_owns hsource
  have hsbounds := hf.range.marked_bounds hmarked
  have hne : ptePaddr (pteAt t.mem t.cr3 v) ≠ f := by
    rintro rfl
    apply hmarked.not_free hf.range hmaps.page_free
  have hcopy := kMemcpy_page (s := t') hbounds.2.1 hbounds.2.2 hlo hv
    (by
      intro m hm k hk
      rw [translate_mapped hb hmaps hf hc he hec hlo hv hperm hm hk, if_pos hreadable])
    (by omega)
  obtain ⟨hwritten, hentry', -⟩ := hb.fill_page hf hc hlo hv hmaps.page_free hperm hentry
    (m := copy t'.mem f (ptePaddr (pteAt t.mem t.cr3 v)) memPageSize)
    (fun x hx => copy_outside _ _ hx)
  refine ⟨_, hcopy, hwritten, ?_⟩
  intro x hx
  have hdir : ptePaddr (pteAt t.mem t.cr3 v) ≠ c := by
    intro heq
    cases hf.exclusive.unique (p := .dir c) ⟨hc, rfl⟩ (heq ▸ hsource)
  have hnode : ∀ k, 512 ≤ k → k < 1024 →
      tableAt t.mem c k ≠ some (ptePaddr (pteAt t.mem t.cr3 v)) := by
    intro k hk hk' ht
    cases hf.exclusive.unique (p := .table c k) ⟨hc, hk, hk', ht⟩ hsource
  rw [setMem_mem, hentry', ptePaddr_mapWord hbounds.1 hperm, copy_inside _ _ hx]
  apply hb.frame _ hsbounds.1 hdir hnode (hmarked.not_free hf.range) <;> omega

/-- An unreadable page faults. -/
theorem copy_unreadable (hreadable : ¬ Present (pteAt t.mem t.cr3 v)) :
  t'.kMemcpy f (v * 4096) memPageSize = (memPageSize, t')
  := by
  have hbounds := hf.range.free_bounds hmaps.page_free
  have hread := translate_mapped hb hmaps hf hc he hec hlo hv hperm (m := t'.mem) (fun _ _ => rfl)
    (Nat.zero_lt_succ _)
  rw [if_neg hreadable, Nat.add_zero, show t'.setMem t'.mem = t' from rfl] at hread
  apply kMemcpy_page_fault hbounds.2.1 hlo hread

end Mapped

/-- What a pass does with a present page `v` of the source `p`: the page is mapped, unless a
frame is missing, and it is copied, unless it cannot be read. -/
theorem copyPass_cases {p i j tbl v : Nat} (hf : Frames t live) (hc : c ∈ live)
    (he : t.cr3 ∈ live) (hec : t.cr3 ≠ c) (hi : 512 ≤ i) (hi' : i < 1024)
    (hj : j < 1024) (htable : tableAt t.mem p i = some tbl) (hv : v = 1024 * i + j)
    (hpresent : Present (pteAt t.mem p v)) :
  ∃ r t', Built 512 live t t' c [(v, mapWord (getPtePerm (pteAt t.mem p v)))] r ∧
    match r with
    | some _ => memoryCopyUvm.pass c tbl i j t = .error (.failed t')
    | none =>
        if Present (pteAt t.mem t.cr3 v) then
          memoryCopyUvm.pass c tbl i j t = .ok t' ∧
            ∀ x < 4096, t'.mem (ptePaddr (pteAt t'.mem c v) + x)
              = t.mem (ptePaddr (pteAt t.mem t.cr3 v) + x)
        else memoryCopyUvm.pass c tbl i j t = .error (.fault t')
  := by
  have hlo : 512 ≤ v / 1024 := by omega
  have hlt : v < 2 ^ 20 := by omega
  have hload : t.load (tbl + 4 * j) = pteAt t.mem p v := by
    rw [pteAt_of_table (t := tbl) (by rw [← htable]; congr 1; omega), load]
    congr 2
    omega
  have hpage := (page_offset v (Nat.zero_lt_succ 4095)).1
  have hperm : getPtePerm (pteAt t.mem p v) < 4096 := by
    rw [getPtePerm_eq]
    omega
  have hpass := copyPass_eq c tbl i j t
  rw [hload, if_pos hpresent, shift_or_shift hj, ← hv] at hpass
  generalize getPtePerm (pteAt t.mem p v) = perm at hpass hperm ⊢
  have hstep := mapFresh_cases c (v * 4096) perm hf.range (by
    rw [← Nat.add_zero (v * 4096), hpage]
    intro _ g hg
    apply hf.nodes.ne_zero (p := .table c (v / 1024))
    exact ⟨hc, hlo, by omega, hg⟩)
  rw [← Nat.add_zero (v * 4096), hpage, Nat.add_zero] at hstep
  have hbuilt := Built.of_mapFresh hstep hf.range hf.nodes hc hlo hlt hperm
  rcases hres : t.mapFresh c (v * 4096) perm with ⟨_ | q, t₁⟩
  · rw [hres] at hpass hstep hbuilt
    obtain ⟨f, tb, hmaps⟩ := hstep.mapsTo hf.range hf.nodes hc hlo hlt hperm
    obtain ⟨rest, hfree⟩ := hmaps.first
    simp only [addrAllocPage_of_free hf.range hfree] at hpass
    by_cases hreadable : Present (pteAt t.mem t.cr3 v)
    · obtain ⟨t', hcopy, hwritten, hcontent⟩ := copy_readable hbuilt hmaps hf hc he hec hlo hlt hperm
        hreadable
      rw [hcopy] at hpass
      use none, t', hwritten
      simp only [if_pos hreadable]
      use hpass
    · rw [copy_unreadable hbuilt hmaps hf hc he hec hlo hlt hperm hreadable] at hpass
      use none, t₁, hbuilt
      simp only [if_neg hreadable]
      apply hpass
  · rw [hres] at hpass hbuilt
    use some q, t₁, hbuilt

end Pass

/-! ### All pages -/

/-- Those of the `n` pages from `i` on that are present in the directory at `p`. -/
def presentPages (m : Memory) (p i n : Nat) : List Nat :=
  (List.range' i n).filter fun v => Present (pteAt m p v)

/-- The user pages present in the directory at `p`. -/
abbrev userPages (m : Memory) (p : Nat) : List Nat :=
  presentPages m p 524288 524288

/-- The user pages of `p` up to the first one that cannot be read through `e`. -/
def visitedPages (m : Memory) (p e : Nat) : List Nat :=
  let readable := fun v => decide (Present (pteAt m e v))
  (userPages m p).takeWhile readable ++ ((userPages m p).dropWhile readable).take 1

/-- Pages with the entries that map them with the permissions they have in `p`. -/
def copyMaps (m : Memory) (p : Nat) (vs : List Nat) : List (Nat × (Nat → Nat)) :=
  vs.map fun v => (v, mapWord (getPtePerm (pteAt m p v)))

theorem copyMaps_append (m : Memory) (p : Nat) (vs ws : List Nat) :
  copyMaps m p (vs ++ ws) = copyMaps m p vs ++ copyMaps m p ws
  := List.map_append

theorem copyMaps_fst (m : Memory) (p : Nat) (vs : List Nat) :
  (copyMaps m p vs).map Prod.fst = vs
  := by simp [copyMaps, Function.comp_def]

theorem mem_presentPages {m : Memory} {p i n v : Nat} :
  v ∈ presentPages m p i n ↔ (i ≤ v ∧ v < i + n) ∧ Present (pteAt m p v)
  := by simp [presentPages, List.mem_range'_1]

theorem nodup_presentPages (m : Memory) (p i n : Nat) :
  (presentPages m p i n).Nodup
  := List.Nodup.filter _ List.nodup_range'

theorem presentPages_append (m : Memory) (p i k n : Nat) :
  presentPages m p i (k + n) = presentPages m p i k ++ presentPages m p (i + k) n
  := by
  rw [presentPages, presentPages, presentPages, ← List.filter_append, List.range'_append_1]

theorem presentPages_one (m : Memory) (p i : Nat) :
  presentPages m p i 1 = if Present (pteAt m p i) then [i] else []
  := by
  by_cases h : Present (pteAt m p i)
  · simp [presentPages, h]
  · simp [presentPages, h]

/-- Pages of a missing table are not present. -/
theorem presentPages_of_no_table {m : Memory} {p i : Nat} (h : tableAt m p i = none) :
  presentPages m p (1024 * i) 1024 = []
  := by
  apply List.filter_eq_nil_iff.mpr
  intro v hv
  rw [List.mem_range'_1] at hv
  rw [pteAt_of_no_table (by rw [← h]; congr 1; omega)]
  decide

/-- Where the first `k` user pages are readable, they are visited, with the rest up to the
first unreadable page. -/
theorem visitedPages_eq {m : Memory} {p e k : Nat} (hk : k ≤ 524288)
    (h : ∀ v ∈ presentPages m p 524288 k, Present (pteAt m e v)) :
  visitedPages m p e = presentPages m p 524288 k ++
    ((presentPages m p (524288 + k) (524288 - k)).takeWhile (fun v => Present (pteAt m e v)) ++
      ((presentPages m p (524288 + k) (524288 - k)).dropWhile
        (fun v => Present (pteAt m e v))).take 1)
  := by
  have hsplit : userPages m p
      = presentPages m p 524288 k ++ presentPages m p (524288 + k) (524288 - k) := by
    rw [← presentPages_append, Nat.add_sub_cancel' hk]
  have hall : ∀ v ∈ presentPages m p 524288 k, decide (Present (pteAt m e v)) = true := by
    simpa using h
  simp only [visitedPages]
  rw [hsplit, List.takeWhile_append_of_pos hall, List.dropWhile_append_of_pos hall,
    List.append_assoc]

/-- From `s` on, `k` user pages of `p` have been copied to the directory `c`. -/
structure Copying (s : Kernel) (live : Set Nat) (c p k : Nat) (t : Kernel) : Prop where
  readable : ∀ v ∈ presentPages s.mem p 524288 k, Present (pteAt s.mem s.cr3 v)
  built : Built 512 live s t c (copyMaps s.mem p (presentPages s.mem p 524288 k)) none
  content : ∀ v ∈ presentPages s.mem p 524288 k, ∀ x < 4096,
    t.mem (ptePaddr (pteAt t.mem c v) + x) = s.mem (ptePaddr (pteAt s.mem s.cr3 v) + x)

/-- How copying is left early: a frame was missing, or a page could not be read. -/
def CopyStopped (s : Kernel) (live : Set Nat) (c p : Nat) : CopyExit → Prop
  | .failed t =>
      ∃ q, Built 512 live s t c (copyMaps s.mem p (visitedPages s.mem p s.cr3)) (some q)
  | .fault t => Built 512 live s t c (copyMaps s.mem p (visitedPages s.mem p s.cr3)) none ∧
      ∃ v ∈ userPages s.mem p, ¬ Present (pteAt s.mem s.cr3 v)

section Loops

variable {s t : Kernel} {live : Set Nat} {c p k : Nat}

/-- Pages that are not present are passed over. -/
theorem Copying.skip (h : Copying s live c p k t) {n : Nat}
    (hnone : presentPages s.mem p (524288 + k) n = []) :
  Copying s live c p (k + n) t
  := by
  have hpages : presentPages s.mem p 524288 (k + n) = presentPages s.mem p 524288 k := by
    rw [presentPages_append, hnone, List.append_nil]
  constructor
  · rw [hpages]
    apply h.readable
  · rw [hpages]
    apply h.built
  · rw [hpages]
    apply h.content

variable (hf : Frames s live) (hc : c ∈ live) (hp : p ∈ live) (hpc : p ≠ c) (he : s.cr3 ∈ live)
  (hec : s.cr3 ≠ c)

include hf hc hp hpc he hec

/-- The pass for page `k` copies it, or stops. -/
theorem Copying.pass (h : Copying s live c p k t) {i j tbl : Nat} (hi : 512 ≤ i) (hi' : i < 1024)
    (hj : j < 1024) (hk : k = 1024 * (i - 512) + j) (htable : tableAt s.mem p i = some tbl) :
  Ends (memoryCopyUvm.pass c tbl i j t) (Copying s live c p (k + 1)) (CopyStopped s live c p)
  := by
  have hlo : 512 ≤ (524288 + k) / 1024 := by omega
  have hv : 524288 + k < 2 ^ 20 := by omega
  have ht := hf.built hc h.built
  have hpte : pteAt t.mem p (524288 + k) = pteAt s.mem p (524288 + k) :=
    h.built.pteAt_of_ne hf.nodes hc hp hpc hlo hv
  have hread : pteAt t.mem s.cr3 (524288 + k) = pteAt s.mem s.cr3 (524288 + k) :=
    h.built.pteAt_of_ne hf.nodes hc he hec hlo hv
  have htable' : tableAt t.mem p i = some tbl := by
    rw [h.built.tableAt_of_ne hf.nodes hc hp hpc hi', htable]
  have hone := presentPages_one s.mem p (524288 + k)
  by_cases hpresent : Present (pteAt s.mem p (524288 + k))
  · rw [if_pos hpresent] at hone
    obtain ⟨r, t', hstep, hpass⟩ := copyPass_cases (v := 524288 + k) ht hc (h.built.cr3 ▸ he)
      (h.built.cr3 ▸ hec) hi hi' hj htable' (by omega) (by rw [hpte]; apply hpresent)
    rw [h.built.cr3, hread] at hpass
    rw [hpte] at hstep
    have hbuilt := h.built.trans hstep
    have hrest : presentPages s.mem p (524288 + k) (524288 - k)
        = (524288 + k) :: presentPages s.mem p (524288 + k + 1) (524288 - k - 1) := by
      rw [show 524288 - k = 1 + (524288 - k - 1) by omega, presentPages_append, hone]
      simp
    have hvisited := visitedPages_eq (m := s.mem) (p := p) (e := s.cr3) (k := k) (by omega)
      h.readable
    rw [hrest] at hvisited
    rcases r with _ | q
    · by_cases hreadable : Present (pteAt s.mem s.cr3 (524288 + k))
      · simp only [if_pos hreadable] at hpass
        rw [hpass.1]
        have hpages : presentPages s.mem p 524288 (k + 1)
            = presentPages s.mem p 524288 k ++ [524288 + k] := by
          rw [presentPages_append, hone]
        constructor
        · intro v hv'
          rw [hpages, List.mem_append, List.mem_singleton] at hv'
          rcases hv' with hv' | rfl
          · apply h.readable v hv'
          · apply hreadable
        · rw [hpages, copyMaps_append]
          apply hbuilt
        · intro v hv' x hx
          rw [hpages, List.mem_append, List.mem_singleton] at hv'
          rcases hv' with hv' | rfl
          · -- an earlier page: neither its entry nor its frame is touched by this pass
            have hold := h.content v hv' x hx
            have hrange := (mem_presentPages.mp hv').1
            have hpresent' : Present (pteAt t.mem c v) := by
              have hkeys : ((copyMaps s.mem p (presentPages s.mem p 524288 k)).map Prod.fst).Nodup := by
                rw [copyMaps_fst]
                apply nodup_presentPages
              obtain ⟨frame, hframe, -⟩ :=
                Space.mapAll_entry_of_mapped (free_nodup hf.range) hkeys h.built.space
              obtain ⟨hfree, hentry⟩ := hframe v _ (List.mem_map_of_mem hv')
              rw [space_entry (by omega) (by omega)] at hentry
              rw [hentry]
              apply mapWord_present (hf.range.free_bounds hfree).1
              rw [getPtePerm_eq]
              omega
            have hsame : pteAt t'.mem c v = pteAt t.mem c v := by
              apply hstep.pteAt_of_not_mem (by omega) (by omega)
              simp only [List.map_cons, List.map_nil, List.mem_singleton]
              omega
            rw [hsame, ← hold]
            apply ht.sameFrame_page hc hstep hc (by omega) (by omega) hpresent' <;> omega
          · rw [hpass.2 x hx]
            apply hf.sameFrame_page hc h.built he hlo hv hreadable <;> omega
      · simp only [if_neg hreadable] at hpass
        rw [hpass]
        constructor
        · rw [hvisited]
          simp only [decide_eq_true_eq, hreadable, not_false_eq_true, List.takeWhile_cons_of_neg,
            List.nil_append, List.dropWhile_cons_of_neg, List.take_succ_cons, List.take_zero]
          rw [copyMaps_append]
          apply hbuilt
        · use 524288 + k, mem_presentPages.mpr ⟨by omega, hpresent⟩
    · rw [hpass]
      use q
      rw [hvisited, copyMaps_append]
      have htail : ∃ ws, copyMaps s.mem p
          (((524288 + k) :: presentPages s.mem p (524288 + k + 1) (524288 - k - 1)).takeWhile
              (fun v => Present (pteAt s.mem s.cr3 v)) ++
            (((524288 + k) :: presentPages s.mem p (524288 + k + 1) (524288 - k - 1)).dropWhile
              (fun v => Present (pteAt s.mem s.cr3 v))).take 1)
          = [(524288 + k, mapWord (getPtePerm (pteAt s.mem p (524288 + k))))] ++ ws := by
        by_cases hreadable : Present (pteAt s.mem s.cr3 (524288 + k))
        · simp [hreadable, copyMaps]
        · simp [hreadable, copyMaps]
      obtain ⟨ws, hws⟩ := htail
      rw [hws, ← List.append_assoc]
      apply hbuilt.append_of_failed
  · rw [if_neg hpresent] at hone
    have hload : t.load (tbl + 4 * j) = pteAt s.mem p (524288 + k) := by
      rw [← hpte, pteAt_of_table (t := tbl) (by rw [← htable']; congr 1; omega), load]
      congr 2
      omega
    rw [copyPass_eq, hload, if_neg hpresent]
    apply h.skip hone

/-- The inner loop copies the pages of the table at index `i`, or stops. -/
theorem Copying.table {i tbl : Nat} (hi : 512 ≤ i) (hi' : i < 1024)
    (htable : tableAt s.mem p i = some tbl) (h : Copying s live c p (1024 * (i - 512)) t) :
  Ends (forLoop (memoryCopyUvm.pass c tbl i) 0 1024 t)
    (Copying s live c p (1024 * (i - 512) + 1024)) (CopyStopped s live c p)
  := by
  have hrow := forLoop_rule (i := 0) (n := 1024) (s := t) (memoryCopyUvm.pass c tbl i)
    (fun j u => Copying s live c p (1024 * (i - 512) + j) u) (Q := CopyStopped s live c p)
  rw [Nat.zero_add, Nat.add_zero] at hrow
  apply hrow _ h
  intro j u _ hj hu
  have hnext := hu.pass hf hc hp hpc he hec hi hi' hj rfl htable
  rw [Nat.add_assoc] at hnext
  apply hnext

/-- The loops copy all user pages, or stop. -/
theorem copyLoop :
  Ends
    (forLoop
      (fun i t =>
        if Present (t.load (p + 4 * i)) then
          forLoop (memoryCopyUvm.pass c (pdePaddr (t.load (p + 4 * i))) i) 0 1024 t
        else .ok t)
      512 512 s)
    (Copying s live c p 524288) (CopyStopped s live c p)
  := by
  have hstart : Copying s live c p 0 s := by
    constructor
    · simp [presentPages]
    · apply Built.refl hf.nodes
    · simp [presentPages]
  have hend := forLoop_rule (i := 512) (n := 512) (s := s)
    (fun i t =>
      if Present (t.load (p + 4 * i)) then
        forLoop (memoryCopyUvm.pass c (pdePaddr (t.load (p + 4 * i))) i) 0 1024 t
      else .ok t)
    (fun i t => Copying s live c p (1024 * (i - 512)) t) (Q := CopyStopped s live c p)
  apply hend _ hstart
  intro i t hi hi' ht
  have hnext : 1024 * (i + 1 - 512) = 1024 * (i - 512) + 1024 := by omega
  have hframe := ht.built.sameFrame_dir_of_ne hf.nodes hc hp hpc
  have hword : t.load (p + 4 * i) = load32 s.mem (p + 4 * i) := by
    rw [load, hframe.load32 (by omega)]
  rw [hword, hnext]
  rcases htable : tableAt s.mem p i with _ | tbl
  · rw [if_neg (tableAt_eq_none_iff.mp htable)]
    apply ht.skip
    rw [show 524288 + 1024 * (i - 512) = 1024 * i by omega]
    apply presentPages_of_no_table htable
  · obtain ⟨hpresent, haddr⟩ := tableAt_eq_some_iff.mp htable
    rw [if_pos hpresent, haddr]
    apply ht.table hf hc hp hpc he hec hi (by omega) htable

end Loops

/-- All that copying an address space can do. -/
inductive CopyRun (s : Kernel) (live : Set Nat) (p : Nat) : Except Kernel (Nat × Kernel) → Prop
  /-- There is no frame for the directory. -/
  | noDir : s.free = [] → CopyRun s live p (.ok (errorWord, s))
  /-- All pages are copied. -/
  | copied {c : Nat} {rest : List Nat} {s' t : Kernel} : s.free = c :: rest → Created s s' c →
      Copying s' (insert c live) c p 524288 t → CopyRun s live p (.ok (c, t))
  /-- A frame is missing, and the copy made so far is destroyed. -/
  | failed {c : Nat} {rest : List Nat} {q : Request} {s' t : Kernel} : s.free = c :: rest →
      Created s s' c →
      Built 512 (insert c live) s' t c (copyMaps s'.mem p (visitedPages s'.mem p s'.cr3)) (some q) →
      CopyRun s live p (.ok (errorWord, t.memoryDestoryUvm c))
  /-- A page cannot be read. -/
  | fault {c : Nat} {rest : List Nat} {s' t : Kernel} : s.free = c :: rest → Created s s' c →
      Built 512 (insert c live) s' t c (copyMaps s'.mem p (visitedPages s'.mem p s'.cr3)) none →
      (∃ v ∈ userPages s'.mem p, ¬ Present (pteAt s'.mem s'.cr3 v)) →
      CopyRun s live p (.error t)

section Run

variable {s : Kernel} {live : Set Nat} {p : Nat} (hf : Frames s live) (hp : p ∈ live)
  (he : s.cr3 ∈ live)

include hf hp he

theorem memoryCopyUvm_cases :
  CopyRun s live p (s.memoryCopyUvm p)
  := by
  rcases hfree : s.free with _ | ⟨c, rest⟩
  · have hresult : s.memoryCopyUvm p = .ok (errorWord, s) := by
      simp only [memoryCopyUvm, memoryCreateUvm_of_full hfree, if_true]
    rw [hresult]
    apply CopyRun.noDir hfree
  · obtain ⟨s', hcreate, hc⟩ := memoryCreateUvm_of_free hf.range hfree
    have hmem : c ∈ s.free := by
      rw [hfree]
      apply List.mem_cons_self
    have hzero : c ≠ 0 := by
      have hbounds := hf.range.free_bounds hmem
      unfold memExtStart at hbounds
      omega
    have hother : ∀ e ∈ live, e ≠ c := by
      rintro e he rfl
      apply (hf.marked_dir he).not_free hf.range hmem
    have hstart : pdeIndex memoryTaskBase = 512 := by decide
    have hloop := copyLoop (hf.created hfree hc) (Set.mem_insert c live)
      (Set.mem_insert_of_mem c hp) (hother p hp) (hc.cr3.symm ▸ Set.mem_insert_of_mem c he)
      (hc.cr3.symm ▸ hother s.cr3 he)
    rw [memoryCopyUvm, hcreate]
    simp only [if_neg hzero, hstart]
    cases hres : forLoop
        (fun i t =>
          if Present (t.load (p + 4 * i)) then
            forLoop (memoryCopyUvm.pass c (pdePaddr (t.load (p + 4 * i))) i) 0 1024 t
          else .ok t)
        512 512 s' with
    | ok t =>
        rw [hres] at hloop
        apply CopyRun.copied hfree hc hloop
    | error x =>
        rw [hres] at hloop
        cases x with
        | failed t =>
            obtain ⟨q, hbuilt⟩ := hloop
            apply CopyRun.failed hfree hc hbuilt
        | fault t => apply CopyRun.fault hfree hc hloop.1 hloop.2

end Run

end Kernel

end Dmos
