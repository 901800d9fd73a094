import Dmos.Task.NoSegment

/-!
# Failed executions

`sys_execve` names the task after the program before it does anything else, and the label
`exec_failed` gives back the new directory only.
-/

open ByteMemory AddressSpace

namespace Dmos

/-! ### The directory that is given back -/

namespace Kernel

variable {s k : Kernel} {live : Set Nat} {d a n name : Nat} {rest : List Nat} {path : List UInt8}

/-- The memory with a new directory in the frame `d`, where that of the kernel is at `base`. -/
def withDir (m : Memory) (base d : Nat) : Memory :=
  fun x =>
    if d ≤ x ∧ x < d + 4096 then if x < d + 2048 then m (base + (x - d)) else 0
    else m x

section Created

variable (hf : Frames s live) (hfree : s.free = d :: rest) (hc : Created s k d)

include hf hfree hc

/-- Memory that is no frame stays so when a directory is created. -/
theorem Apart.created (h : s.Apart live a n) :
  k.Apart (insert d live) a n
  := by
  have hfirst : d ∈ s.free := by
    rw [hfree]
    apply List.mem_cons_self
  rintro g (hg | ⟨p, hp⟩)
  · apply h g
    left
    rw [hc.free hf.range hfree] at hg
    rw [hfree]
    apply List.mem_cons_of_mem _ hg
  · rcases hc.owns_cases hf hfree hp with ⟨-, rfl⟩ | hold
    · apply h _ (.inl hfirst)
    · apply h _ (.inr ⟨p, hold⟩)

/-- A byte of the caller is read as before, unless it is in the frame of the directory. -/
theorem readByte_created (hcr3 : s.cr3 ∈ live) (ha : ¬ (d ≤ a ∧ a < d + 4096))
    (hlt : a < 2 ^ 32) :
  k.readByte a = s.readByte a
  := by
  by_cases hbase : a < memoryTaskBase
  · rw [readByte, readByte, kernelAddr, kernelAddr, if_pos hbase, if_pos hbase, Option.map_some,
      Option.map_some, hc.outside a ha]
  · apply readByte_of_sameFrame hf hcr3 hc.cr3 _ (Nat.le_of_not_lt hbase) hlt
    intro p g hp
    apply hc.sameFrame_owned hf hfree hp

theorem IsString.created (hcr3 : s.cr3 ∈ live)
    (hplace : name + path.length < d ∨ d + 4096 ≤ name) (hend : name + path.length < 2 ^ 32)
    (h : IsString s name path) :
  IsString k name path
  := by
  apply h.congr
  intro j hj
  rw [u32_of_lt (by omega)]
  apply readByte_created hf hfree hc hcr3 (by omega) (by omega)

omit hf hfree in
/-- All that has changed is in the new directory. -/
theorem mem_created :
  k.mem = withDir s.mem s.layout.gKernelPageDir d
  := by
  funext x
  by_cases hx : d ≤ x ∧ x < d + 4096
  · obtain ⟨o, rfl⟩ := Nat.exists_eq_add_of_le hx.1
    rw [withDir, if_pos hx, Nat.add_sub_cancel_left,
      show d + o = d + 4 * (o / 4) + o % 4 by omega]
    split_ifs with hhalf
    · rw [bytes_of_load32_eq (hc.kernel (o / 4) (by omega)) (by omega)]
      congr 1
      omega
    · have hzero : load32 k.mem (d + 4 * (o / 4)) = load32 (fun _ => 0) 0 :=
        hc.user (o / 4) (by omega) (by omega)
      apply bytes_of_load32_eq hzero (by omega)
  · rw [withDir, if_neg hx]
    apply hc.outside x hx

end Created

/-- Memory is the same apart from the local variables, the buffer of the file and what is in free
frames. -/
def SameOutside (s : Kernel) (l : Locals) (f : TempFile) (k : Kernel) : Prop :=
  ∀ x, l.Outside f x → (∀ g ∈ s.free, ¬ (g ≤ x ∧ x < g + 4096)) → k.mem x = s.mem x

/-- Also the same frames are in use. -/
structure Kept (s : Kernel) (l : Locals) (f : TempFile) (k : Kernel) : Prop where
  mem : s.SameOutside l f k
  marked : ∀ g, k.Marked g ↔ s.Marked g

variable {l : Locals} {f : TempFile}

theorem Kept.refl :
  s.Kept l f s
  := ⟨fun _ _ _ => rfl, fun _ => Iff.rfl⟩

/-- No byte of a frame in use is in a local variable or in the buffer. -/
theorem outside_of_owns (hf : Frames s live) (hl : l.AllPlaced s f live) {p : Place} {g x : Nat}
    (hp : Owns 512 s.mem live p g) (hx : g ≤ x) (hx' : x < g + 4096) :
  l.Outside f x
  := by
  have hbounds := hf.range.marked_bounds (hf.exclusive.used_of_owns hp)
  have hehdr := hl.elfHdr_apart g (.inr ⟨p, hp⟩)
  have hphdr := hl.elfPhdr_apart g (.inr ⟨p, hp⟩)
  have hargs := hl.taskArgs_apart g (.inr ⟨p, hp⟩)
  have hend := f.tempAddr_end
  unfold sizeofElf32Ehdr at hehdr
  unfold sizeofElf32Phdr at hphdr
  unfold sizeofTaskArgs at hargs
  constructor <;> omega

/-- Nor is a byte of the kernel's directory. -/
theorem outside_of_base (hl : l.AllPlaced s f live) {x : Nat} (hx : s.layout.gKernelPageDir ≤ x)
    (hx' : x < s.layout.gKernelPageDir + 4096) :
  l.Outside f x
  := by
  have hranges := hl.ranges
  have hargs := hl.taskArgs_base
  unfold Separate sizeofTaskArgs at hargs
  dsimp only at hargs
  constructor <;> omega

/-- Frames in use keep their contents. -/
theorem SameOutside.sameFrame (h : s.SameOutside l f k) (hf : Frames s live)
    (hl : l.AllPlaced s f live) {p : Place} {g : Nat} (hp : Owns 512 s.mem live p g) :
  SameFrame s.mem k.mem g
  := by
  have hmarked := hf.exclusive.used_of_owns hp
  intro x hx hx'
  apply h x (outside_of_owns hf hl hp hx hx')
  rintro g' hg' ⟨hle, hlt⟩
  have hbounds := hf.range.marked_bounds hmarked
  have hbounds' := hf.range.free_bounds hg'
  obtain rfl : g' = g := by omega
  apply hmarked.not_free hf.range hg'

/-- What is read by a directory stays. -/
theorem SameOutside.readByte (h : s.SameOutside l f k) (hf : Frames s live)
    (hl : l.AllPlaced s f live) (hlive : s.cr3 ∈ live) (hcr3 : k.cr3 = s.cr3)
    (huser : memoryTaskBase ≤ a) (hlt : a < 2 ^ 32) :
  k.readByte a = s.readByte a
  := by
  apply readByte_of_sameFrame hf hlive hcr3 _ huser hlt
  intro p g hp
  apply h.sameFrame hf hl hp

section Touched

variable (hf : Frames s live) (hl : l.AllPlaced s f live) {m : Memory}
  (hm : ∀ y, l.Outside f y → m y = s.mem y)

include hf hl hm

theorem sameFrame_of_outside {p : Place} {g : Nat} (hp : Owns 512 s.mem live p g) :
  SameFrame s.mem m g
  := by
  intro x hx hx'
  apply hm x (outside_of_owns hf hl hp hx hx')

/-- Writing to the local variables and to the buffer changes no directory. -/
theorem frames_of_outside :
  Frames (s.setMem m) live
  := by
  apply hf.setMem
  · intro p g hp
    apply sameFrame_of_outside hf hl hm hp.owns
  · intro x hx hx'
    apply hm x (outside_of_base hl hx hx')

theorem tableAt_of_outside {e i : Nat} (he : e ∈ live) (hi : i < 1024) :
  tableAt m e i = tableAt s.mem e i
  := tableAt_congr (sameFrame_of_outside hf hl hm (p := .dir e) ⟨he, rfl⟩) hi

theorem pteAt_of_outside {e v : Nat} (he : e ∈ live) (hlo : 512 ≤ v / 1024) (hv : v < 2 ^ 20) :
  pteAt m e v = pteAt s.mem e v
  := by
  apply pteAt_congr (sameFrame_of_outside hf hl hm (p := .dir e) ⟨he, rfl⟩) hv
  intro g hg
  exact sameFrame_of_outside hf hl hm (p := .table e (v / 1024)) ⟨he, hlo, by omega, hg⟩

theorem placed_of_outside :
  l.AllPlaced (s.setMem m) f live
  := by
  have htable : ∀ e ∈ live, ∀ i < 1024, tableAt m e i = tableAt s.mem e i :=
    fun e he i => tableAt_of_outside hf hl hm he
  have hentry : ∀ e ∈ live, ∀ v, 512 ≤ v / 1024 → v < 2 ^ 20 → pteAt m e v = pteAt s.mem e v :=
    fun e he v => pteAt_of_outside hf hl hm he
  exact ⟨⟨hl.toDistinct.congr rfl rfl, hl.elfHdr_apart.of_setMem htable hentry,
    hl.elfPhdr_apart.of_setMem htable hentry⟩, hl.taskArgs_apart.of_setMem htable hentry,
    hl.taskArgs_base⟩

/-- Destroying a directory frees the same frames. -/
theorem marked_destroyed_of_outside {d : Nat} (hd : d ∈ live) (cr3 g : Nat) :
  (((s.setMem m).mmuSetPageDir cr3).memoryDestoryUvm d).Marked g
    ↔ (s.memoryDestoryUvm d).Marked g
  := by
  have hf' := frames_of_outside hf hl hm
  have hf₂ : Frames ((s.setMem m).mmuSetPageDir cr3) live :=
    ⟨hf'.range, hf'.exclusive, hf'.kernel⟩
  rw [(freed_memoryDestoryUvm hf₂ hd).marked, (freed_memoryDestoryUvm hf hd).marked]
  apply and_congr_right
  intro _
  apply not_congr
  apply exists_congr
  intro p
  apply and_congr_right
  rintro rfl
  cases p with
  | dir e => exact Iff.rfl
  | table e i =>
      apply and_congr_right
      intro he
      apply and_congr_right
      intro hi
      apply and_congr_right
      intro hi'
      rw [show tableAt ((s.setMem m).mmuSetPageDir cr3).mem e i = tableAt m e i from rfl,
        tableAt_of_outside hf hl hm he hi']
  | page e v =>
      apply and_congr_right
      intro he
      apply and_congr_right
      intro hv
      apply and_congr_right
      intro hv'
      rw [show pteAt ((s.setMem m).mmuSetPageDir cr3).mem e v = pteAt m e v from rfl,
        pteAt_of_outside hf hl hm he hv hv']

end Touched

section GivenBack

variable {m : Memory} {t : Kernel} {perm : Nat} {vs : List Nat} {r : Option Request}
  (hf : Frames s live) (hfree : s.free = d :: rest) (hc : Created s k d)
  (hl : l.AllPlaced s f live) (hm : ∀ y, l.Outside f y → m y = k.mem y)
  (hb : Built 512 (insert d live) (k.setMem m) t d (mapsWith perm vs) r) (hperm : perm < 4096)

include hf hfree hc hl

theorem placed_created :
  l.AllPlaced k f (insert d live)
  where
  toDistinct := hl.toDistinct.congr hc.layout rfl
  elfHdr_apart := hl.elfHdr_apart.created hf hfree hc
  elfPhdr_apart := hl.elfPhdr_apart.created hf hfree hc
  taskArgs_apart := hl.taskArgs_apart.created hf hfree hc
  taskArgs_base := by
    rw [hc.layout]
    apply hl.taskArgs_base

include hm

theorem frames_touched :
  Frames (k.setMem m) (insert d live) ∧ l.AllPlaced (k.setMem m) f (insert d live) ∧
    ∀ i, 512 ≤ i → i < 1024 → tableAt m d i = none
  := by
  have hf₁ := hf.created hfree hc
  have hl₁ := placed_created hf hfree hc hl
  refine ⟨frames_of_outside hf₁ hl₁ hm, placed_of_outside hf₁ hl₁ hm, ?_⟩
  intro i hi hi'
  rw [tableAt_of_outside hf₁ hl₁ hm (Set.mem_insert d live) hi', hc.tableAt hi hi']

include hb

/-- The memory of the caller, while the new directory is built. -/
theorem sameOutside_of_built :
  s.SameOutside l f t
  := by
  have hfirst : d ∈ s.free := by
    rw [hfree]
    apply List.mem_cons_self
  have hempty := (frames_touched hf hfree hc hl hm).2.2
  intro x hx hnot
  have hframe (g : Nat) (hg : g ∈ s.free) : x - x % 4096 ≠ g := by
    rintro rfl
    apply hnot _ hg
    omega
  have hbuilt : t.mem x = m x := by
    apply hb.frame (x - x % 4096) (by omega) (hframe d hfirst)
    · intro i hi hi' ht
      rw [setMem_mem, hempty i hi hi'] at ht
      cases ht
    · intro hin
      change x - x % 4096 ∈ k.free at hin
      rw [hc.free hf.range hfree] at hin
      apply hframe (x - x % 4096) _ rfl
      rw [hfree]
      apply List.mem_cons_of_mem _ hin
    · omega
    · omega
  rw [hbuilt, hm x hx]
  apply hc.outside x (hnot d hfirst)

include hperm

theorem frames_given_back :
  Frames t (insert d live) ∧ l.AllPlaced t f (insert d live)
  := by
  obtain ⟨hf₂, hl₂, -⟩ := frames_touched hf hfree hc hl hm
  have hd := Set.mem_insert d live
  refine ⟨hf₂.built hd hb, ?_⟩
  refine ⟨⟨hl₂.toDistinct.congr hb.layout rfl, hl₂.elfHdr_apart.of_built hf₂ hd hperm hb,
    hl₂.elfPhdr_apart.of_built hf₂ hd hperm hb⟩, hl₂.taskArgs_apart.of_built hf₂ hd hperm hb, ?_⟩
  rw [hb.layout]
  exact hl₂.taskArgs_base

/-- A directory that is given back with all that has been mapped in it, unless a page table could
not be had. -/
theorem kept_given_back {m' : Memory} (hm' : ∀ y, l.Outside f y → m' y = t.mem y)
    (hvs : UserMaps (mapsWith perm vs)) (hne : r ≠ some .table) (cr3 : Nat) :
  s.Kept l f (((t.setMem m').mmuSetPageDir cr3).memoryDestoryUvm d)
  := by
  have hd := Set.mem_insert d live
  obtain ⟨hf₂, -, hempty⟩ := frames_touched hf hfree hc hl hm
  obtain ⟨hf₃, hl₃⟩ := frames_given_back hf hfree hc hl hm hb hperm
  constructor
  · have hf₄ := frames_of_outside hf₃ hl₃ hm'
    have hf₅ : Frames ((t.setMem m').mmuSetPageDir cr3) (insert d live) :=
      ⟨hf₄.range, hf₄.exclusive, hf₄.kernel⟩
    have hfreed := freed_memoryDestoryUvm hf₅ hd
    intro x hx hnot
    rw [hfreed.mem]
    change m' x = s.mem x
    rw [hm' x hx]
    apply sameOutside_of_built hf hfree hc hl hm hb x hx hnot
  · intro g
    rw [marked_destroyed_of_outside hf₃ hl₃ hm' hd, hb.destroyed_of_ne hd hvs hf₂ hempty hne]
    exact hc.marked_ne hf hfree g

end GivenBack

/-- A directory that is given back after nothing has been loaded. -/
theorem kept_destroyed {m : Memory} (hf : Frames s live) (hfree : s.free = d :: rest)
    (hc : Created s k d) (hl : l.AllPlaced s f live) (hm : ∀ y, l.Outside f y → m y = k.mem y)
    (cr3 : Nat) :
  s.Kept l f (((k.setMem m).mmuSetPageDir cr3).memoryDestoryUvm d)
  := by
  have hnodes := (frames_touched hf hfree hc hl hm).1.nodes
  have hb : Built 512 (insert d live) (k.setMem m) (k.setMem m) d (mapsWith 0 []) none :=
    .refl hnodes d
  apply kept_given_back hf hfree hc hl hm hb (by decide) (fun _ _ => rfl) _ nofun
  exact ⟨List.nodup_nil, nofun, nofun⟩

/-! ### A stack that is not mapped to its top -/

/-- The pages of the stack. -/
abbrev stackPages : List Nat :=
  allocPages (memTaskStackTop - memTaskStackSize) memTaskStackSize

theorem stackPages_bounds {v : Nat} (hv : v ∈ stackPages) :
  0xDFE0C ≤ v ∧ v < 0xE0000
  := (mem_allocPages (by decide) (by decide) (by decide)).mp hv

theorem nodup_stackPages :
  stackPages.Nodup
  := nodup_allocPages (by decide) (by decide) (by decide)

theorem length_stackPages :
  stackPages.length = 500
  := by
  rw [stackPages, allocPages, length_pagesFrom]
  decide

theorem userMaps_stackPages {perm : Nat} (hperm : perm < 4096) :
  UserMaps (mapsWith perm stackPages)
  where
  keys := by
    rw [mapsWith_fst]
    apply nodup_stackPages
  user v e hmem := by
    obtain ⟨w, hw, heq⟩ := List.mem_map.mp hmem
    cases heq
    have hbounds := stackPages_bounds hw
    omega
  words := words_mapsWith hperm

/-- The first page of the stack asks for the table of all of them. -/
theorem asks_stackPages (hempty : ∀ i, 512 ≤ i → i < 1024 → tableAt s.mem d i = none) {n : Nat}
    (hn : n < 500) :
  s.asks 512 d (stackPages.take (n + 1)) = .page :: .table :: List.replicate n .page
  := by
  have hlength := length_stackPages
  have hbounds (v : Nat) (hv : v ∈ stackPages) : tableIndex v = 895 := by
    have := stackPages_bounds hv
    unfold tableIndex
    omega
  cases hpages : stackPages with
  | nil =>
      rw [hpages] at hlength
      cases hlength
  | cons v vs =>
      rw [hpages] at hlength hbounds
      rw [List.length_cons] at hlength
      rw [List.take_succ_cons, asks, requests_of_no_table tableIndex (i := 895)]
      · rw [List.length_take, Nat.min_eq_left (by omega)]
      · rw [space_table (by decide) (by decide), hempty 895 (by decide) (by decide)]
        rfl
      · intro w hw
        rw [← List.take_succ_cons] at hw
        apply hbounds w (List.mem_of_mem_take hw)

/-- The memory with the pages of the stack in the directory `d`, as far as there are frames for
them: the second one becomes their table. -/
def withStack (m : Memory) (d : Nat) : List Nat → Memory
  | f :: t :: rest =>
      linkPages (Nodes.install m d 895 t) (pteP ||| pteU ||| pteW) t 0xDFE0C (f :: rest.take 499)
  | _ => m

theorem linkPages_of_outside (m : Memory) (perm : Nat) {t y : Nat} (v : Nat) (fs : List Nat)
    (hy : ¬ (t ≤ y ∧ y < t + 4096)) :
  linkPages m perm t v fs y = m y
  := by
  induction fs generalizing m v with
  | nil => rfl
  | cons f fs ih =>
      rw [linkPages, ih, store32_of_disjoint _ _ (by omega)]

/-- Only the directory and the frames are written. -/
theorem withStack_of_outside (m : Memory) {y : Nat} (hd : ¬ (d ≤ y ∧ y < d + 4096))
    (hrest : ∀ g ∈ rest, ¬ (g ≤ y ∧ y < g + 4096)) :
  withStack m d rest y = m y
  := by
  match rest with
  | [] => rfl
  | [f] => rfl
  | f :: t :: rest =>
      have ht := hrest t (by simp)
      rw [withStack, linkPages_of_outside _ _ _ _ ht, Nodes.install, fill_of_disjoint _ _ (by omega),
        store32_of_disjoint _ _ (by omega)]

theorem memoryAllocForPageDir_stack_mem (hf : Frames s live) (hd : d ∈ live)
    (hempty : tableAt s.mem d 895 = none) (hne : s.free.length ≠ 1) :
  (s.memoryAllocForPageDir d (memTaskStackTop - memTaskStackSize) memTaskStackSize
    (pteP ||| pteU ||| pteW)).2.mem = withStack s.mem d s.free
  := by
  have hcount : up2 memTaskStackSize memPageSize / memPageSize = 499 + 1 := by decide
  rw [memoryAllocForPageDir_mem, hcount]
  match hfree : s.free with
  | [] =>
      rw [loopMem_allocPasses_full _ _ _ hfree]
      rfl
  | [f] =>
      rw [hfree] at hne
      cases hne rfl
  | f :: t :: rest =>
      rw [loopMem_allocPasses_new hf.range hf.nodes hd (by decide) _ (j := 895) (by decide)
        (by decide) (by intro k hk; unfold memTaskStackTop memTaskStackSize memPageSize; omega)
        hempty hfree]
      rfl

/-- When the frames run out below the page of the arguments, and not at the page table, the stack
is said to be mapped. -/
theorem memoryAllocForPageDir_stack (hf : Frames s live) (hd : d ∈ live)
    (hempty : ∀ i, 512 ≤ i → i < 1024 → tableAt s.mem d i = none) (hne : s.free.length ≠ 1)
    (hshort : s.free.length < 486) :
  ∃ r t, s.memoryAllocForPageDir d (memTaskStackTop - memTaskStackSize) memTaskStackSize
      (pteP ||| pteU ||| pteW) = (0, t) ∧
    Built 512 live s t d (mapsWith (pteP ||| pteU ||| pteW) stackPages) r ∧ r ≠ some .table ∧
    pteAt t.mem d 0xDFFF0 = 0 ∧ t.mem = withStack s.mem d s.free
  := by
  have huser : memoryTaskBase ≤ memTaskStackTop - memTaskStackSize := by decide
  have hend : memTaskStackTop - memTaskStackSize + memTaskStackSize ≤ 2 ^ 32 := by decide
  have hlt : memTaskStackTop - memTaskStackSize < 2 ^ 32 := by decide
  obtain ⟨r, t, hb, hresult⟩ := memoryAllocForPageDir_spec 512 hf.range hf.nodes hd
    (show pteP ||| pteU ||| pteW < 4096 by decide) huser hlt
    fun v hv => (allocPages_user huser hend hlt hv).1
  have hall : s.asks 512 d stackPages = .page :: .table :: List.replicate 499 .page := by
    rw [← asks_stackPages hempty (show 499 < 500 by decide),
      List.take_of_length_le (by rw [length_stackPages])]
  have hr : r ≠ some .table := by
    rw [hb.failed_eq, hall]
    match hn : s.free.length with
    | 0 => nofun
    | 1 => exact absurd hn hne
    | n + 2 =>
        rw [List.getElem?_cons_succ, List.getElem?_cons_succ, List.getElem?_replicate]
        split_ifs <;> nofun
  have htop : stackPages[484]? = some 0xDFFF0 := by
    rw [getElem_allocPages (by rw [length_stackPages]; decide) (by decide)]
    rfl
  have hentry : pteAt t.mem d 0xDFFF0 = pteAt s.mem d 0xDFFF0 := by
    apply hb.pteAt_of_unserved nodup_stackPages htop (by decide) (by decide)
    rw [asks_stackPages hempty (by decide), List.length_cons, List.length_cons,
      List.length_replicate]
    exact hshort
  rw [if_neg hr] at hresult
  refine ⟨r, t, hresult, hb, hr, ?_, ?_⟩
  · rw [hentry, pteAt_of_no_table (hempty _ (by decide) (by decide))]
  · rw [← memoryAllocForPageDir_stack_mem hf hd (hempty _ (by decide) (by decide)) hne, hresult]

/-- Without arguments a block is filled in, and it is not copied to a page that is not mapped. -/
theorem copyArgs_empty {taskArgs dest argv v : Nat} {m : Memory} (ha : dest % 4096 = 0)
    (hv : dest / 4096 = v)
    (hm : m = store32 (store32 s.mem (taskArgs + 4) 0) (taskArgs + 8) (u32 (dest + sizeofTaskArgs)))
    (hzero : pteAt m d v = 0) :
  s.copyArgs taskArgs dest d 0 argv = .ok (-1, s.setMem m)
  := by
  subst hv
  have hpaddr : (s.setMem m).memoryGetPaddr d dest = 0 := memoryGetPaddr_of_zero ha hzero
  have hstore : (s.store (taskArgs + 4) 0).store (taskArgs + 8) (u32 (dest + sizeofTaskArgs))
      = s.setMem m := by
    rw [hm]
    rfl
  rw [copyArgs, Loop.forLoop]
  dsimp only
  rw [hstore, if_neg (by decide), memoryCopyUvmData, show sizeofTaskArgs = 11 + 1 from rfl,
    memoryCopyUvmData.loop, if_neg (by decide), hpaddr]
  rfl

end Kernel

/-! ### Failing before a segment is mapped -/

namespace Os

open Kernel

variable {s t : Os} {l : Locals} {tty : Tty} {x : TaskRef} {path : List UInt8} {live : Set Nat}
  {name argv : Nat}

theorem image_congr (hfs : t.fs = s.fs) {y : Nat} (h : t.kernel.mem y = s.kernel.mem y) :
  t.image.mem y = s.image.mem y
  := by
  dsimp only [image, readDisk]
  rw [hfs, h]

section Finds

variable (hfs : t.fs = s.fs) (hlow : ∀ y < memExtStart, t.kernel.mem y = s.kernel.mem y)

include hfs hlow

theorem image_header :
  ∀ j < 52, t.image.mem (s.fs.tempAddr + j) = s.image.mem (s.fs.tempAddr + j)
  := by
  have hend := s.fs.tempAddr_end
  intro j hj
  apply image_congr hfs
  apply hlow
  omega

theorem skips_congr
    (htable : s.image.ePhnum s.fs.tempAddr = 0 ∨ SkipsFirst s.image l s.fs.tempAddr) :
  t.image.ePhnum t.fs.tempAddr = 0 ∨ SkipsFirst t.image l t.fs.tempAddr
  := by
  obtain ⟨-, -, hphoff, hphnum⟩ := ehdr_of_bytes (image_header hfs hlow)
  rw [hfs, hphnum]
  apply htable.imp_right
  intro hskip
  have haddr : tableAddr t.image s.fs.tempAddr = tableAddr s.image s.fs.tempAddr := by
    rw [tableAddr, tableAddr, hphoff]
  have hbytes : ∀ j < 32, t.image.mem (tableAddr s.image s.fs.tempAddr + j)
      = s.image.mem (tableAddr s.image s.fs.tempAddr + j) := by
    have hlast := hskip.addr_end
    unfold sizeofElf32Phdr at hlast
    intro j hj
    apply image_congr hfs
    apply hlow
    omega
  obtain ⟨htype, -, hvaddr, -⟩ := phdr_of_bytes hbytes
  constructor
  · rw [haddr]
    apply hskip.addr_ne
  · rw [haddr]
    apply hskip.addr_end
  · rw [haddr]
    apply hskip.elfHdr
  · rw [haddr]
    apply hskip.elfPhdr
  · rw [haddr, htype, hvaddr]
    apply hskip.skipped

/-- The headers are read to the same memory. -/
theorem headersRead_congr {y : Nat} (h : LoadsNoSegment s l tty path)
    (hy : t.kernel.mem y = s.kernel.mem y) :
  (t.headersRead l tty path).mem y = (s.headersRead l tty path).mem y
  := by
  cases h with
  | typed hopen hfd =>
      rw [headersRead, headersRead, if_pos hopen, if_pos hopen, Kernel.typed, Kernel.typed,
        setMem_mem, setMem_mem, put, put, hy]
  | image hopen htable =>
      have hend := s.fs.tempAddr_end
      obtain ⟨-, -, hphoff, hphnum⟩ := ehdr_of_bytes (image_header hfs hlow)
      have haddr : tableAddr t.image s.fs.tempAddr = tableAddr s.image s.fs.tempAddr := by
        rw [tableAddr, tableAddr, hphoff]
      have hhdr (z : Nat) (hz : t.kernel.mem z = s.kernel.mem z) :
          copy t.image.mem l.elfHdr s.fs.tempAddr sizeofElf32Ehdr z
            = copy s.image.mem l.elfHdr s.fs.tempAddr sizeofElf32Ehdr z :=
        copy_congr (image_header hfs hlow) (image_congr hfs hz)
      rw [headersRead_path hopen, headersRead_path hopen, hfs, hphnum]
      split_ifs with hnone
      · exact hhdr y hy
      · have hlast := (htable.resolve_left hnone).addr_end
        rw [setMem_mem, setMem_mem, haddr]
        apply copy_congr _ (hhdr y hy)
        intro k hk
        apply hhdr
        apply hlow
        omega

theorem LoadsNoSegment.congr (h : LoadsNoSegment s l tty path) :
  LoadsNoSegment t l tty path
  := by
  cases h with
  | typed hopen hfd => exact typed hopen hfd
  | image hopen htable => exact image hopen (skips_congr hfs hlow htable)

/-- What the loader finds depends on the memory below the frames, and on what the header was. -/
theorem LoadsNothing.congr (h : LoadsNothing s l tty path)
    (hhdr : ∀ j < 52, t.kernel.mem (l.elfHdr + j) = s.kernel.mem (l.elfHdr + j)) :
  LoadsNothing t l tty path
  := by
  obtain ⟨hident, hentry, -⟩ := ehdr_of_bytes (image_header hfs hlow)
  cases h with
  | closed hclosed =>
      apply closed
      rw [hfs]
      simp only [sysOpen] at hclosed ⊢
      split_ifs at hclosed ⊢ <;> assumption
  | short hopen hfd hnonneg hlt => apply short hopen hfd hnonneg hlt
  | typed hopen hfd hheader =>
      apply typed hopen hfd
      have hbytes : ∀ j < 52, (t.kernel.typed l tty).mem (l.elfHdr + j)
          = (s.kernel.typed l tty).mem (l.elfHdr + j) := by
        intro j hj
        rw [Kernel.typed, Kernel.typed, setMem_mem, setMem_mem, put, put, hhdr j hj]
      obtain ⟨hident, hentry, -⟩ := ehdr_of_bytes hbytes
      rwa [hident, hentry]
  | ident hopen hno =>
      apply ident hopen
      rw [hfs, hident, hno]
  | entry hopen hzero htable =>
      rw [← hentry, ← hfs] at hzero
      exact entry hopen hzero (skips_congr hfs hlow htable)

end Finds

/-- A byte outside of the local variables and of the buffer is none that is read. -/
theorem headersRead_of_outside {y : Nat} (hy : l.Outside s.fs y) :
  (s.headersRead l tty path).mem y = s.kernel.mem y
  := by
  have himage : s.image.mem y = s.kernel.mem y := by
    have hbuffer := hy.buffer
    dsimp only [image, readDisk]
    rw [if_neg]
    unfold sectorSize
    omega
  rw [headersRead]
  dsimp only
  split_ifs
  · apply typed_mem hy
  · rw [setMem_mem, copy_outside _ _ hy.elfHdr, himage]
  · rw [setMem_mem, copy_outside _ _ hy.elfPhdr, copy_outside _ _ hy.elfHdr, himage]

/-- The headers are read after the directory has been created. -/
theorem headersRead_created {k : Kernel} {d : Nat} {rest : List Nat} (hf : Frames s.kernel live)
    (hfree : s.kernel.free = d :: rest) (hc : Created s.kernel k d)
    (hl : l.AllPlaced s.kernel s.fs live) (hkernel : t.kernel = k) (hfs : t.fs = s.fs)
    (hnone : LoadsNoSegment s l tty path) :
  (t.headersRead l tty path).mem
    = withDir (s.headersRead l tty path).mem s.kernel.layout.gKernelPageDir d
  := by
  subst hkernel
  have hfirst : d ∈ s.kernel.free := by
    rw [hfree]
    apply List.mem_cons_self
  have hbounds := hf.range.free_bounds hfirst
  have hcreated := mem_created hc
  funext y
  by_cases hy : d ≤ y ∧ y < d + 4096
  · have hout : l.Outside t.fs y := by
      have hehdr := hl.elfHdr_apart d (.inl hfirst)
      have hphdr := hl.elfPhdr_apart d (.inl hfirst)
      have hargs := hl.taskArgs_apart d (.inl hfirst)
      have hend := s.fs.tempAddr_end
      unfold sizeofElf32Ehdr at hehdr
      unfold sizeofElf32Phdr at hphdr
      unfold sizeofTaskArgs at hargs
      rw [hfs]
      constructor <;> omega
    rw [headersRead_of_outside hout, hcreated, withDir, withDir, if_pos hy, if_pos hy]
    split_ifs with hhalf
    · rw [headersRead_of_outside (outside_of_base hl (by omega) (by omega))]
    · rfl
  · rw [withDir, if_neg hy]
    apply headersRead_congr hfs _ hnone (hc.outside y hy)
    intro z hz
    apply hc.outside
    omega

-- the loops over directories are not to be unrolled by unification
attribute [local irreducible] Kernel.memoryDestoryUvm

theorem setCr3_self (s : Os) (x : TaskRef) :
  s.setCr3 x (s.tasks.task x).tss.cr3
    = { s with kernel := s.kernel.mmuSetPageDir (s.tasks.task x).tss.cr3 }
  := by
  have hsame : s.tasks.setTss x (s.tasks.task x).tss = s.tasks := by
    rw [TaskManager.setTss, TaskManager.setTask]
    dsimp only
    rw [Function.update_eq_self]
  rw [setCr3, setTss]
  dsimp only
  rw [hsame]

/-- What `exec_failed` does with a directory. -/
theorem execFailed_eq {d : Nat} (hne : d ≠ 0) (s : Os) (x : TaskRef) :
  s.execFailed x (s.tasks.task x).tss.cr3 d
    = (-1, { s with
        kernel := (s.kernel.mmuSetPageDir (s.tasks.task x).tss.cr3).memoryDestoryUvm d })
  := by
  rw [execFailed, if_pos hne, setCr3_self]

/-- The memory in which the arguments are counted when no segment is loaded: the first free frame
has become a directory, the headers have been read, and the other frames have gone to the stack as
far as they reach.  Nothing else has changed (`argMemory_of_outside`). -/
def argMemory (s : Os) (l : Locals) (tty : Tty) (path : List UInt8) : Memory :=
  match s.kernel.free with
  | [] => s.kernel.mem
  | d :: rest =>
      withStack (withDir (s.headersRead l tty path).mem s.kernel.layout.gKernelPageDir d) d rest

/-- The arguments are counted in the same memory outside of the local variables, the buffer and the
free frames. -/
theorem sameOutside_argMemory :
  s.kernel.SameOutside l s.fs (s.kernel.setMem (s.argMemory l tty path))
  := by
  intro y hy hnot
  rw [setMem_mem, argMemory]
  cases hfree : s.kernel.free with
  | nil => rfl
  | cons d rest =>
      rw [hfree] at hnot
      have hd := hnot d List.mem_cons_self
      have hstack : ∀ m, withStack m d rest y = m y := by
        intro m
        apply withStack_of_outside _ hd
        intro g hg
        apply hnot g (List.mem_cons_of_mem d hg)
      dsimp only
      rw [hstack, withDir, if_neg hd, headersRead_of_outside hy]

/-- The vector of arguments is null, or empty. -/
def NoArgs (s : Os) (l : Locals) (tty : Tty) (path : List UInt8) (argv : Nat) : Prop :=
  (s.kernel.setMem (s.argMemory l tty path)).stringsCount argv = some 0

/-- A vector in the memory of the caller is empty when it begins with a null pointer. -/
theorem noArgs_iff_of_user (hf : Frames s.kernel live) (hlive : s.kernel.cr3 ∈ live)
    (hl : l.AllPlaced s.kernel s.fs live) (huser : memoryTaskBase ≤ argv) (hend : argv + 4 ≤ 2 ^ 32) :
  NoArgs s l tty path argv ↔ s.kernel.readWord argv = some 0
  := by
  have hsame : (s.kernel.setMem (s.argMemory l tty path)).readWord argv = s.kernel.readWord argv := by
    apply readWord_congr _ (by omega)
    intro j hj
    rw [u32_of_lt (by omega)]
    apply sameOutside_argMemory.readByte hf hl hlive rfl (by omega) (by omega)
  rw [NoArgs, stringsCount_eq_zero_iff, hsame]
  apply or_iff_right
  rintro rfl
  cases huser

/-- The path that is opened: it is read again when the first free frame has become a directory. -/
def OpensPath (s : Os) (name : Nat) (path : List UInt8) : Prop :=
  ∀ d rest, s.kernel.free = d :: rest →
    (s.kernel.setMem (withDir s.kernel.mem s.kernel.layout.gKernelPageDir d)).string name
      = some path

theorem OpensPath.string {k : Kernel} {d : Nat} {rest : List Nat} (h : OpensPath s name path)
    (hfree : s.kernel.free = d :: rest) (hc : Created s.kernel k d) :
  k.string name = some path
  := by
  have hmem := mem_created hc
  generalize hm : withDir s.kernel.mem s.kernel.layout.gKernelPageDir d = m at hmem
  rw [← h d rest hfree, hm]
  exact string_congr (s := s.kernel.setMem m) hc.cr3 hmem name

/-- Outside of this frame it is the path itself. -/
theorem opensPath_of_apart (hf : Frames s.kernel live) (hlive : s.kernel.cr3 ∈ live)
    (hend : name + path.length < 2 ^ 32) (hpath : IsString s.kernel name path)
    (hplace : ∀ d rest, s.kernel.free = d :: rest → name + path.length < d ∨ d + 4096 ≤ name) :
  OpensPath s name path
  := by
  intro d rest hfree
  obtain ⟨k, -, hc⟩ := memoryCreateUvm_of_free hf.range hfree
  have hstring := (string_eq_some_iff (by omega)).mpr
    ⟨by omega, hpath.created hf hfree hc hlive (hplace d rest hfree) hend⟩
  have hmem := mem_created hc
  generalize withDir s.kernel.mem s.kernel.layout.gKernelPageDir d = m at hmem ⊢
  rw [← hstring]
  exact string_congr (t := s.kernel.setMem m) hc.cr3.symm hmem.symm name

/-- The call fails with nothing to undo but the new directory: there is no frame for it, nothing is
loaded, or no segment is loaded and, without arguments, the frames run out below the page of the
arguments, and not at a page table. -/
inductive FailsEarly (s : Os) (l : Locals) (tty : Tty) (name argv : Nat) : Prop where
  | noDir : s.kernel.free = [] → FailsEarly s l tty name argv
  | nothing {path : List UInt8} : OpensPath s name path → LoadsNothing s l tty path →
      FailsEarly s l tty name argv
  | stack {path : List UInt8} : OpensPath s name path → LoadsNoSegment s l tty path →
      NoArgs s l tty path argv → s.kernel.free.length ≠ 2 → s.kernel.free.length ≤ 486 →
      FailsEarly s l tty name argv

section Start

variable {k : Kernel} {m : Memory} {d entry : Nat} {rest : List Nat}
  (hf : Frames s.kernel live) (hl : l.AllPlaced s.kernel s.fs live)
  (hfree : s.kernel.free = d :: rest) (hc : Created s.kernel k d)
  (hm : ∀ y, l.Outside s.fs y → m y = k.mem y)

include hf hl hfree hc hm

/-- The stack is not mapped to its top. -/
theorem start_short {s₂ : Os} {r : Int} (hkernel : s₂.kernel = k.setMem m)
    (hargs : (s.kernel.setMem (withStack m d rest)).stringsCount argv = some 0)
    (hne : s.kernel.free.length ≠ 2)
    (hshort : s.kernel.free.length ≤ 486) (hd : d ≠ 0)
    (h : sysExecve.start s₂ l argv (s₂.tasks.task s₂.tasks.currTask).tss.cr3 d entry = .ok (r, t)) :
  t.tasks = s₂.tasks ∧ s.kernel.Kept l s.fs t.kernel
  := by
  obtain ⟨hf₂, -, hempty⟩ := frames_touched hf hfree hc hl hm
  have hrest : (k.setMem m).free = rest := hc.free hf.range hfree
  rw [hfree, List.length_cons] at hne hshort
  have hin := Set.mem_insert d live
  obtain ⟨q, u, halloc, hb, hq, htop, hmem⟩ := memoryAllocForPageDir_stack hf₂ hin hempty
    (by rw [hrest]; omega) (by rw [hrest]; omega)
  have hperm : pteP ||| pteU ||| pteW < 4096 := by decide
  obtain ⟨hf₃, hl₃⟩ := frames_given_back hf hfree hc hl hm hb hperm
  have hcr3 : u.cr3 = s.kernel.cr3 := hb.cr3.trans hc.cr3
  have hcount : u.stringsCount argv = some 0 := by
    rw [hrest] at hmem
    rw [← hargs]
    exact stringsCount_congr (s := s.kernel.setMem (withStack m d rest)) hcr3 hmem argv
  -- the block of arguments is filled in
  obtain ⟨m', hm'⟩ : ∃ m', m' = store32 (store32 u.mem (l.taskArgs + 4) 0) (l.taskArgs + 8)
      (u32 (memTaskStackTop - memTaskArgSize + sizeofTaskArgs)) := ⟨_, rfl⟩
  have hsame : ∀ y, l.Outside s.fs y → m' y = u.mem y := by
    intro y hy
    have htask := hy.taskArgs
    rw [hm', store32_of_disjoint _ _ (by omega), store32_of_disjoint _ _ (by omega)]
  have hzero : pteAt m' d 0xDFFF0 = 0 := by
    rw [pteAt_of_outside hf₃ hl₃ hsame hin (by decide) (by decide), htop]
  have hcopy : u.copyArgs l.taskArgs (memTaskStackTop - memTaskArgSize) d 0 argv
      = .ok (-1, u.setMem m') :=
    copyArgs_empty (by decide) (by decide) hm' hzero
  have hkept := fun cr3 => kept_given_back hf hfree hc hl hm hb hperm hsame
    (userMaps_stackPages hperm) hq cr3
  rw [sysExecve.start, hkernel] at h
  dsimp only at h
  rw [halloc] at h
  dsimp only at h
  rw [if_neg (by decide), hcount] at h
  dsimp only at h
  rw [hcopy] at h
  dsimp only at h
  rw [if_pos (by decide), execFailed_eq hd] at h
  cases h
  exact ⟨rfl, hkept _⟩

end Start

/-- Such a call changes the name only. -/
theorem sysExecve_fails {r : Int} (hf : Frames s.kernel live)
    (hl : l.AllPlaced s.kernel s.fs live) (hpath : IsString s.kernel name path) (hpos : 0 < name)
    (hend : name + path.length < 2 ^ 32) (hfails : FailsEarly s l tty name argv)
    (h : s.sysExecve l tty name argv = .ok (r, t)) :
  t.tasks = s.tasks.setName s.tasks.currTask (fileName path) ∧ s.kernel.Kept l s.fs t.kernel
  := by
  rw [sysExecve] at h
  dsimp only at h
  cases hname : s.setFileName s.tasks.currTask name with
  | none =>
      rw [hname] at h
      cases h
  | some s₁ =>
      obtain rfl := setFileName_eq hpath hpos hend hname
      rw [hname] at h
      dsimp only at h
      rcases hfree : s.kernel.free with _ | ⟨d, rest⟩
      · rw [memoryCreateUvm_of_full hfree] at h
        dsimp only at h
        rw [if_pos rfl, execFailed, if_neg (by decide)] at h
        cases h
        exact ⟨rfl, .refl⟩
      · obtain ⟨k, hcreate, hc⟩ := memoryCreateUvm_of_free hf.range hfree
        have hfirst : d ∈ s.kernel.free := by
          rw [hfree]
          apply List.mem_cons_self
        have hbounds := hf.range.free_bounds hfirst
        have hne : d ≠ 0 := by
          rintro rfl
          cases hbounds.2.1
        obtain ⟨opened, hopens, hfails⟩ : ∃ opened, OpensPath s name opened
            ∧ (LoadsNothing s l tty opened ∨ LoadsNoSegment s l tty opened
              ∧ NoArgs s l tty opened argv ∧ s.kernel.free.length ≠ 2
              ∧ s.kernel.free.length ≤ 486) := by
          cases hfails with
          | noDir hnone =>
              rw [hfree] at hnone
              cases hnone
          | nothing hopens hnothing => exact ⟨_, hopens, .inl hnothing⟩
          | stack hopens hsegment hargs hlength hshort =>
              exact ⟨_, hopens, .inr ⟨hsegment, hargs, hlength, hshort⟩⟩
        have hdistinct : l.Distinct k s.fs := hl.toDistinct.congr hc.layout rfl
        have hlow : ∀ y < memExtStart, k.mem y = s.kernel.mem y :=
          fun y hy => hc.outside y (by omega)
        rw [hcreate] at h
        dsimp only at h
        rw [if_neg hne, hopens.string hfree hc] at h
        dsimp only at h
        split at h
        · cases h
        next entry s₂ hload =>
          rcases hfails with hnothing | ⟨hsegment, hargs, hlength, hshort⟩
          · have hhdr : ∀ j < 52, k.mem (l.elfHdr + j) = s.kernel.mem (l.elfHdr + j) := by
              have hapart := hl.elfHdr_apart d (.inl hfirst)
              unfold sizeofElf32Ehdr at hapart
              intro j hj
              apply hc.outside
              omega
            have hnothing' := LoadsNothing.congr (s := s) (t := { s with
              kernel := k, tasks := s.tasks.setName s.tasks.currTask (fileName path) }) rfl hlow
              hnothing hhdr
            obtain ⟨rfl, htasks, m, hm, hkernel⟩ := hnothing'.loadElfFile hdistinct hload
            dsimp only at htasks
            rw [if_pos rfl, ← htasks, execFailed_eq hne] at h
            cases h
            dsimp only
            rw [hkernel]
            exact ⟨htasks, kept_destroyed hf hfree hc hl hm _⟩
          · have hsegment' := LoadsNoSegment.congr (s := s) (t := { s with
              kernel := k, tasks := s.tasks.setName s.tasks.currTask (fileName path) }) rfl hlow
              hsegment
            obtain ⟨htasks, ⟨m, hm, hkernel⟩, hentry⟩ := hsegment'.loadElfFile hdistinct hload
            dsimp only at htasks
            have hcurr : s₂.tasks.currTask = s.tasks.currTask := by
              rw [htasks]
              rfl
            rw [← htasks, ← hcurr] at h
            split_ifs at h with hzero
            · rw [execFailed_eq hne] at h
              cases h
              dsimp only
              rw [hkernel]
              exact ⟨htasks, kept_destroyed hf hfree hc hl hm _⟩
            · have hread : m = withDir (s.headersRead l tty opened).mem
                  s.kernel.layout.gKernelPageDir d := by
                rw [← headersRead_created (t := { s with
                    kernel := k, tasks := s.tasks.setName s.tasks.currTask (fileName path) })
                  hf hfree hc hl rfl rfl hsegment, ← hentry.resolve_left hzero, hkernel]
                rfl
              rw [NoArgs, argMemory, hfree] at hargs
              dsimp only at hargs
              rw [← hread] at hargs
              obtain ⟨hsame, hkept⟩ :=
                start_short hf hl hfree hc hm hkernel hargs hlength hshort hne h
              exact ⟨hsame.trans htasks, hkept⟩

/-! ### The caller of a failed call -/

/-- What a failed `sys_execve` should leave as it was. -/
structure CallerKept (s t : Os) : Prop where
  name : (t.tasks.task s.tasks.currTask).name = (s.tasks.task s.tasks.currTask).name
  heapStart : (t.tasks.task s.tasks.currTask).heapStart
    = (s.tasks.task s.tasks.currTask).heapStart
  heapEnd : (t.tasks.task s.tasks.currTask).heapEnd = (s.tasks.task s.tasks.currTask).heapEnd
  cr3 : (t.tasks.task s.tasks.currTask).tss.cr3 = s.currPageDir
  frame : ∀ k < 88, t.kernel.mem (s.frameAddr s.tasks.currTask + k)
    = s.kernel.mem (s.frameAddr s.tasks.currTask + k)
  tables : ∀ i < 1024, t.kernel.load (s.currPageDir + 4 * i) = s.kernel.load (s.currPageDir + 4 * i)
  pages : ∀ v, 512 ≤ v / 1024 → v < 2 ^ 20 →
    pteAt t.kernel.mem s.currPageDir v = pteAt s.kernel.mem s.currPageDir v
  contents : ∀ y, s.kernel.InPages s.currPageDir y → t.kernel.mem y = s.kernel.mem y
  marked : ∀ g, t.kernel.Marked g ↔ s.kernel.Marked g

/-- The task has the name that a program at the path gives it. -/
def KeepsName (s : Os) (path : List UInt8) : Prop :=
  kStrncpy (fileName path) taskNameSize = (s.tasks.task s.tasks.currTask).name

/-- A caller with the name of the program is kept when nothing else of it has changed. -/
theorem callerKept_of_kept (hf : Frames s.kernel live) (hlive : s.currPageDir ∈ live)
    (hl : l.AllPlaced s.kernel s.fs live)
    (hframe : ∀ o ∈ l.objects s.kernel s.fs, Separate (s.frameAddr s.tasks.currTask, 88) o)
    (hargs : Separate (s.frameAddr s.tasks.currTask, 88) (l.taskArgs, sizeofTaskArgs))
    (hapart : s.kernel.Apart live (s.frameAddr s.tasks.currTask) 88) (hname : s.KeepsName path)
    (htasks : t.tasks = s.tasks.setName s.tasks.currTask (fileName path))
    (hkept : s.kernel.Kept l s.fs t.kernel) :
  CallerKept s t
  := by
  have htask : t.tasks.task s.tasks.currTask
      = (s.tasks.setName s.tasks.currTask (fileName path)).task s.tasks.currTask := by
    rw [htasks]
  rw [TaskManager.setName, TaskManager.setTask_task_self] at htask
  have hdir : SameFrame s.kernel.mem t.kernel.mem s.currPageDir :=
    hkept.mem.sameFrame hf hl (p := .dir s.currPageDir) ⟨hlive, rfl⟩
  constructor
  · rw [htask]
    apply hname
  · rw [htask]
  · rw [htask]
  · rw [htask]
    rfl
  · intro k hk
    apply hkept.mem
    · have hehdr := hframe (l.elfHdr, sizeofElf32Ehdr) (by simp [Locals.objects])
      have hphdr := hframe (l.elfPhdr, sizeofElf32Phdr) (by simp [Locals.objects])
      have hbuffer := hframe (s.fs.tempAddr, bufferSize) (by simp [Locals.objects])
      unfold Separate at hehdr hphdr hbuffer hargs
      unfold sizeofElf32Ehdr at hehdr
      unfold sizeofElf32Phdr at hphdr
      unfold bufferSize at hbuffer
      unfold sizeofTaskArgs at hargs
      dsimp only at hehdr hphdr hbuffer hargs
      constructor <;> omega
    · rintro g hg ⟨hle, hlt⟩
      have hdisjoint := hapart g (.inl hg)
      omega
  · intro i hi
    apply hdir.load32 hi
  · intro v hlo hv
    apply pteAt_congr hdir hv
    intro g hg
    exact hkept.mem.sameFrame hf hl (p := .table s.currPageDir (v / 1024)) ⟨hlive, hlo, by omega, hg⟩
  · intro y hy
    obtain ⟨v, g, hg, hle, hlt⟩ := hy.owned hlive
    apply hkept.mem.sameFrame hf hl hg y hle hlt
  · apply hkept.marked

section Fails

variable (hf : Frames s.kernel live) (hlive : s.currPageDir ∈ live)
  (hl : l.AllPlaced s.kernel s.fs live)
  (hframe : ∀ o ∈ l.objects s.kernel s.fs, Separate (s.frameAddr s.tasks.currTask, 88) o)
  (hargs : Separate (s.frameAddr s.tasks.currTask, 88) (l.taskArgs, sizeofTaskArgs))
  (hapart : s.kernel.Apart live (s.frameAddr s.tasks.currTask) 88)
  (hpath : IsString s.kernel name path) (hpos : 0 < name)
  (hend : name + path.length < 2 ^ 32)

include hf hlive hl hframe hargs hapart hpath hpos hend

/-- A failed `sys_execve` does not keep its caller unless the task has the name of the program
already.  If it has, it is kept by the calls that fail before a segment is loaded. -/
theorem callerKept_of_sysExecve (h : s.sysExecve l tty name argv = .ok (-1, t)) :
  (CallerKept s t → s.KeepsName path)
    ∧ (FailsEarly s l tty name argv → (CallerKept s t ↔ s.KeepsName path))
  := by
  have hname : CallerKept s t → s.KeepsName path := by
    intro hkept
    obtain ⟨s₁, hset, hnames⟩ := sameNames_sysExecve h
    obtain rfl := setFileName_eq hpath hpos hend hset
    rw [KeepsName, ← hkept.name, hnames.name]
    dsimp only
    rw [TaskManager.setName_name]
  use hname
  intro hfails
  use hname
  intro hsame
  obtain ⟨htasks, hkept⟩ :=
    sysExecve_fails hf hl hpath hpos hend hfails h
  exact callerKept_of_kept hf hlive hl hframe hargs hapart hsame htasks hkept

end Fails

/-! ### A task without a free frame -/

/-- A path gives the task a name. -/
theorem setFileName_of_path (hpath : IsString s.kernel name path) (hpos : 0 < name)
    (hhead : path.head? = some 47) (hend : name + path.length < 2 ^ 32) :
  s.setFileName x name = some { s with tasks := s.tasks.setName x (fileName path) }
  := by
  obtain ⟨k, -, -, hfile⟩ := getFileName_eq hpath hhead hend
  obtain ⟨hne, hstring⟩ := getFileName_fileName hpath hpos hend hfile
  rw [setFileName, hfile]
  dsimp only
  rw [if_neg hne, hstring]

/-- The first task, with the path "/a" in memory. -/
def atPath (who : List UInt8) : Os where
  kernel := ((bootDir 1).store 4096 0x612F).mmuSetPageDir (1024 * 1024)
  fs := .low fun _ => 0
  gdt _ := {}
  tasks := Machine.started.tasks.setTask .firstTask
    { name := who, tss := { esp0 := 0x90000 + 88, cr3 := 1024 * 1024 } }

section AtPath

variable (who : List UInt8)

theorem task_atPath :
  (atPath who).tasks.task (atPath who).tasks.currTask
    = { name := who, tss := { esp0 := 0x90000 + 88, cr3 := 1024 * 1024 } }
  := TaskManager.setTask_task_self _

theorem frameAddr_atPath :
  (atPath who).frameAddr (atPath who).tasks.currTask = 0x90000
  := by
  rw [frameAddr, task_atPath]
  change u32Sub (0x90000 + 88) 88 = 0x90000
  decide

theorem currPageDir_atPath :
  (atPath who).currPageDir = 1024 * 1024
  := by rw [currPageDir, task_atPath]

/-- Which directory is loaded does not matter to the ownership of frames. -/
theorem frames_mmuSetPageDir {k : Kernel} (hf : Frames k live) (d : Nat) :
  Frames (k.mmuSetPageDir d) live
  := ⟨hf.range, hf.exclusive, hf.kernel⟩

theorem frames_atPath :
  Frames (atPath who).kernel {1024 * 1024}
  := by
  have hlayout : (bootDir 1).layout = (boot 1).layout :=
    (bootDir_created (by decide) (by decide)).2.layout
  have hf := (bootDir_frames (show 0 < 1 by decide) (by decide)).store_low
    (show 4096 + 4 ≤ memExtStart by decide) 0x612F (by
      rw [hlayout]
      left
      decide)
  exact frames_mmuSetPageDir hf (1024 * 1024)

theorem free_store_mmuSetPageDir (k : Kernel) (a w d : Nat) :
  ((k.store a w).mmuSetPageDir d).free = k.free
  := rfl

theorem layout_store_mmuSetPageDir (k : Kernel) (a w d : Nat) :
  ((k.store a w).mmuSetPageDir d).layout = k.layout
  := rfl

theorem free_atPath :
  (atPath who).kernel.free = []
  := (free_store_mmuSetPageDir _ _ _ _).trans (bootDir_free (show 0 < 1 by decide) (by decide))

theorem isString_atPath :
  IsString (atPath who).kernel 4096 [47, 97]
  := by
  have hbyte : ∀ j < 3, (atPath who).kernel.readByte (u32 (4096 + j))
      = some (store32 (bootDir 1).mem 4096 0x612F (4096 + j)) := by
    intro j hj
    rw [u32_of_lt (by omega), readByte, kernelAddr, if_pos (by unfold memoryTaskBase; omega)]
    rfl
  constructor
  · intro j hj
    have hlt : j < 2 := hj
    rw [hbyte j (by omega)]
    interval_cases j <;> simp [store32, store8]
  · decide
  · rw [hbyte _ (by decide)]
    simp [store32, store8]

theorem objects_atPath :
  someLocals.objects (atPath who).kernel (atPath who).fs
    = [(0x80000, 52), (0x80100, 32), (0x60000, 102400), (0x5000, 4096)]
  := by
  have hlayout : (atPath who).kernel.layout = (boot 1).layout :=
    (layout_store_mmuSetPageDir _ _ _ _).trans (bootDir_created (by decide) (by decide)).2.layout
  rw [Locals.objects, hlayout]
  rfl

theorem placed_atPath :
  someLocals.AllPlaced (atPath who).kernel (atPath who).fs {1024 * 1024}
  := by
  have hlow := (frames_atPath who).low_apart
  have hlayout : (atPath who).kernel.layout = (boot 1).layout :=
    (layout_store_mmuSetPageDir _ _ _ _).trans (bootDir_created (by decide) (by decide)).2.layout
  have happart (a n : Nat) (h : a + n ≤ memExtStart) :
      (atPath who).kernel.Apart {1024 * 1024} a n := by
    intro f hf
    have hbelow := hlow f hf
    unfold memExtStart at *
    omega
  refine ⟨⟨⟨by decide, by decide, by decide, by decide, ?_⟩, happart _ _ (by decide),
    happart _ _ (by decide)⟩, happart _ _ (by decide), ?_⟩
  · rw [objects_atPath]
    simp [Separate]
  · rw [hlayout]
    right
    decide

theorem separate_atPath :
  ∀ o ∈ someLocals.objects (atPath who).kernel (atPath who).fs,
    Separate ((atPath who).frameAddr (atPath who).tasks.currTask, 88) o
  := by
  rw [objects_atPath, frameAddr_atPath]
  simp [Separate]

theorem args_atPath :
  Separate ((atPath who).frameAddr (atPath who).tasks.currTask, 88)
    (someLocals.taskArgs, sizeofTaskArgs)
  := by
  rw [frameAddr_atPath]
  right
  decide

theorem apart_atPath :
  (atPath who).kernel.Apart {1024 * 1024} ((atPath who).frameAddr (atPath who).tasks.currTask) 88
  := by
  rw [frameAddr_atPath]
  intro f hf
  have hlow := (frames_atPath who).low_apart f hf
  unfold memExtStart at hlow
  omega

/-- The call fails for want of a directory. -/
theorem sysExecve_atPath :
  ∃ t, (atPath who).sysExecve someLocals ⟨0, 0, []⟩ 4096 0 = .ok (-1, t)
  := by
  have hname := setFileName_of_path (x := (atPath who).tasks.currTask) (isString_atPath who)
    (by decide) rfl (by decide)
  rw [sysExecve]
  dsimp only
  rw [hname]
  dsimp only
  rw [memoryCreateUvm_of_full (free_atPath who)]
  dsimp only
  rw [if_pos rfl, execFailed, if_neg (by decide)]
  exact ⟨_, rfl⟩

end AtPath

/-- Without a free frame, the task "a" is kept by a failed execution of "/a". -/
theorem callerKept_atPath :
  ∃ t, (atPath [97]).sysExecve someLocals ⟨0, 0, []⟩ 4096 0 = .ok (-1, t)
    ∧ CallerKept (atPath [97]) t
  := by
  obtain ⟨t, h⟩ := sysExecve_atPath [97]
  refine ⟨t, h, ?_⟩
  have hkept := callerKept_of_sysExecve (frames_atPath _)
    (currPageDir_atPath _) (placed_atPath _) (separate_atPath _) (args_atPath _) (apart_atPath _)
    (isString_atPath _) (by decide) (by decide) h
  apply (hkept.2 (.noDir (free_atPath _))).mpr
  rw [KeepsName, task_atPath]
  decide +kernel

/-- The task "b" gets the name "a". -/
theorem not_callerKept_atPath :
  ∃ t, (atPath [98]).sysExecve someLocals ⟨0, 0, []⟩ 4096 0 = .ok (-1, t)
    ∧ ¬ CallerKept (atPath [98]) t
  := by
  obtain ⟨t, h⟩ := sysExecve_atPath [98]
  refine ⟨t, h, ?_⟩
  intro hkept
  obtain ⟨s₁, hset, hnames⟩ := sameNames_sysExecve h
  obtain rfl := setFileName_eq (isString_atPath _) (by decide) (by decide) hset
  have hname := hkept.name
  rw [hnames.name, TaskManager.setName_name, task_atPath] at hname
  revert hname
  decide +kernel

end Os

end Dmos
