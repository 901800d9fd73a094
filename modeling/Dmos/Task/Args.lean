import Dmos.Kernel.UserCopy
import Dmos.Task.Exec

/-!
# Arguments of programs

`copyArgs` puts the argument block, the table of pointers and the strings one behind the other
into the new address space.  The table is written at physical addresses that follow each other
and the strings page by page, so that the program finds its arguments where the frames behind
the table follow each other as well; without arguments the table is not written at all
(`copyArgs_delivers`).
-/

open ByteMemory Loop

namespace Dmos

namespace Kernel

/-- An argument: where its string is, and its bytes. -/
structure Arg where
  addr : Nat
  bytes : List UInt8

/-- The bytes of an argument with the null byte behind them. -/
def Arg.byte (a : Arg) (k : Nat) : UInt8 :=
  a.bytes.getD k 0

/-- Where the string of argument `i` goes, counted from the block. -/
def argOffset (args : List Arg) (i : Nat) : Nat :=
  sizeofTaskArgs + 4 * (args.length + 1) + ((args.take i).map fun a => a.bytes.length + 1).sum

/-- The size of the block, the table and the strings. -/
def argSpan (args : List Arg) : Nat :=
  argOffset args args.length

/-- What the vector at `argv` points to. -/
structure ArgSources (s : Kernel) (argv : Nat) (args : List Arg) : Prop where
  pointer : ∀ i (h : i < args.length), s.readWord (u32 (argv + 4 * i)) = some args[i].addr
  nonnull : ∀ i (h : i < args.length), args[i].addr ≠ 0
  string : ∀ i (h : i < args.length), IsString s args[i].addr args[i].bytes
  end_lt : ∀ i (h : i < args.length), args[i].addr + args[i].bytes.length < 2 ^ 32

/-- The local variable `task_args` is a part of the kernel's memory by itself. -/
structure ArgLocal (s : Kernel) (taskArgs dir dest span : Nat) : Prop where
  pos : 0 < taskArgs
  end_le : taskArgs + sizeofTaskArgs ≤ memoryTaskBase
  not_dir : taskArgs + sizeofTaskArgs ≤ dir ∨ dir + 4096 ≤ taskArgs
  not_table : ∀ v t, InWindow dest span v → tableAt s.mem dir (v / 1024) = some t →
    taskArgs + sizeofTaskArgs ≤ t ∨ t + 4096 ≤ taskArgs
  not_frame : ∀ v, InWindow dest span v →
    taskArgs + sizeofTaskArgs ≤ frameAt s.mem dir v ∨ frameAt s.mem dir v + 4096 ≤ taskArgs

/-- The bytes that `copyArgs` may write. -/
def ArgWritten (s : Kernel) (taskArgs dir dest span x : Nat) : Prop :=
  s.InFrames dir dest span x ∨ taskArgs ≤ x ∧ x < taskArgs + sizeofTaskArgs

/-- The vector and the strings are read without the bytes that are written. -/
structure ArgApart (s : Kernel) (taskArgs dir dest argv : Nat) (args : List Arg) : Prop where
  pointer : ∀ i < args.length, ∀ j < 4, ∀ x,
    s.DependsOn (u32 (u32 (argv + 4 * i) + j)) x → ¬ s.ArgWritten taskArgs dir dest (argSpan args) x
  string : ∀ i (h : i < args.length), ∀ j ≤ args[i].bytes.length, ∀ x,
    s.DependsOn (args[i].addr + j) x → ¬ s.ArgWritten taskArgs dir dest (argSpan args) x

/-- The table lies behind physical addresses that follow each other; without arguments the
word in its place is null. -/
structure ArgsFit (s : Kernel) (dir dest : Nat) (args : List Arg) : Prop where
  table : args ≠ [] → ∀ j < 4 * (args.length + 1),
    s.physAt dir dest (sizeofTaskArgs + j) = s.physAt dir dest sizeofTaskArgs + j
  null : args = [] → (s.mmuSetPageDir dir).readWord (dest + sizeofTaskArgs) = some 0

/-- The program finds its arguments: a block at `dest`, and a table of pointers `p`. -/
structure ArgsAt (s : Kernel) (dest : Nat) (args : List Arg) (p : Nat → Nat) : Prop where
  argc : s.readWord (dest + 4) = some args.length
  argv : s.readWord (dest + 8) = some (dest + sizeofTaskArgs)
  entry : ∀ i < args.length, s.readWord (dest + sizeofTaskArgs + 4 * i) = some (p i)
  null : s.readWord (dest + sizeofTaskArgs + 4 * args.length) = some 0
  string : ∀ i (h : i < args.length), IsString s (p i) args[i].bytes
  not_table : ∀ i (h : i < args.length),
    dest + sizeofTaskArgs + 4 * (args.length + 1) ≤ p i
      ∨ p i + args[i].bytes.length < dest + sizeofTaskArgs
  apart : ∀ i j (h : i < args.length) (h' : j < args.length), i ≠ j →
    p i + args[i].bytes.length < p j ∨ p j + args[j].bytes.length < p i

/-! ### Offsets -/

variable {args : List Arg} {i j : Nat}

theorem argOffset_succ (h : i < args.length) :
  argOffset args (i + 1) = argOffset args i + args[i].bytes.length + 1
  := by
  rw [argOffset, argOffset, List.take_succ_eq_append_getElem h, List.map_append, List.sum_append]
  simp only [List.map_cons, List.map_nil, List.sum_cons, List.sum_nil]
  omega

theorem argOffset_add_le (h : i < args.length) (hj : j ≤ args.length) (hij : i < j) :
  argOffset args i + args[i].bytes.length + 1 ≤ argOffset args j
  := by
  induction j with
  | zero => omega
  | succ j ih =>
      rw [argOffset_succ (by omega)]
      rcases Nat.lt_succ_iff_lt_or_eq.mp hij with hlt | rfl
      · have := ih (by omega) hlt
        omega
      · omega

theorem table_le_argOffset (args : List Arg) (i : Nat) :
  sizeofTaskArgs + 4 * (args.length + 1) ≤ argOffset args i
  := Nat.le_add_right _ _

theorem argOffset_le_span (h : i < args.length) :
  argOffset args i + args[i].bytes.length + 1 ≤ argSpan args
  := argOffset_add_le h (le_refl _) h

/-! ### The state in which the copies start -/

structure ArgSetting (s : Kernel) (taskArgs dir dest argv : Nat) (args : List Arg) : Prop where
  window : Window s dir dest (argSpan args)
  sources : ArgSources s argv args
  block : ArgLocal s taskArgs dir dest (argSpan args)
  apart : ArgApart s taskArgs dir dest argv args

/-- The block has been filled in. -/
def argStart (s : Kernel) (taskArgs dest : Nat) (args : List Arg) : Kernel :=
  (s.store (taskArgs + 4) args.length).store (taskArgs + 8) (dest + sizeofTaskArgs)

variable {s : Kernel} {taskArgs dir dest argv : Nat} {m : Memory}

theorem argStart_mem {x : Nat} (h : x < taskArgs ∨ taskArgs + sizeofTaskArgs ≤ x) :
  (s.argStart taskArgs dest args).mem x = s.mem x
  := by
  unfold sizeofTaskArgs at h
  rw [argStart, store_mem, store_mem, store32_of_disjoint _ _ (by omega),
    store32_of_disjoint _ _ (by omega)]

theorem span_pos (args : List Arg) :
  sizeofTaskArgs + 4 * (args.length + 1) ≤ argSpan args
  := table_le_argOffset args _

namespace ArgSetting

theorem window_start (h : ArgSetting s taskArgs dir dest argv args) :
  Window (s.argStart taskArgs dest args) dir dest (argSpan args)
    ∧ ∀ v, InWindow dest (argSpan args) v →
      frameAt (s.argStart taskArgs dest args).mem dir v = frameAt s.mem dir v
  := by
  have hsame : ∀ f, taskArgs + sizeofTaskArgs ≤ f ∨ f + 4096 ≤ taskArgs →
      SameFrame s.mem (s.argStart taskArgs dest args).mem f := by
    intro f hf x hx hx'
    apply argStart_mem
    omega
  obtain ⟨hwindow, hpte⟩ := h.window.congr (hsame dir h.block.not_dir)
    fun v t hv ht => hsame t (h.block.not_table v t hv ht)
  refine ⟨hwindow, ?_⟩
  intro v hv
  rw [frameAt, frameAt, hpte v hv]

theorem physAt_start (h : ArgSetting s taskArgs dir dest argv args) {k : Nat}
    (hk : k < argSpan args) :
  (s.argStart taskArgs dest args).physAt dir dest k = s.physAt dir dest k
  := by
  rw [physAt, physAt, h.window_start.2 _ (Window.inWindow dest hk)]

/-- The window does not show the block being filled in. -/
theorem view_start (h : ArgSetting s taskArgs dir dest argv args) {k : Nat}
    (hk : k < argSpan args) :
  (s.argStart taskArgs dest args).view dir dest (s.argStart taskArgs dest args).mem k
    = s.view dir dest s.mem k
  := by
  have hframe := h.block.not_frame _ (Window.inWindow dest hk)
  rw [view, view, h.physAt_start hk]
  apply argStart_mem
  unfold physAt
  omega

/-- The memory in the course of the copies, where they do not write. -/
theorem mem_eq (h : ArgSetting s taskArgs dir dest argv args)
    (hm : (s.argStart taskArgs dest args).Agrees dir dest (argSpan args) m) {x : Nat}
    (hx : ¬ s.ArgWritten taskArgs dir dest (argSpan args) x) :
  m x = s.mem x
  := by
  rw [ArgWritten, not_or] at hx
  rw [hm, argStart_mem (by omega)]
  rintro ⟨v, hv, hin⟩
  apply hx.1
  rw [h.window_start.2 v hv] at hin
  exact ⟨v, hv, hin⟩

/-! ### The table -/

theorem entry_eq (h : ArgSetting s taskArgs dir dest argv args) (hi : i ≤ args.length)
    (htable : ∀ j < 4 * (args.length + 1),
      s.physAt dir dest (sizeofTaskArgs + j) = s.physAt dir dest sizeofTaskArgs + j) :
  (s.argStart taskArgs dest args).physAt dir dest (sizeofTaskArgs + 4 * i)
    = s.physAt dir dest sizeofTaskArgs + 4 * i
  := by
  have hspan := span_pos args
  rw [h.physAt_start (by omega), htable _ (by omega)]

theorem entry_follow (h : ArgSetting s taskArgs dir dest argv args) (hi : i ≤ args.length)
    (htable : ∀ j < 4 * (args.length + 1),
      s.physAt dir dest (sizeofTaskArgs + j) = s.physAt dir dest sizeofTaskArgs + j) :
  ∀ j < 4, (s.argStart taskArgs dest args).physAt dir dest (sizeofTaskArgs + 4 * i + j)
    = (s.argStart taskArgs dest args).physAt dir dest (sizeofTaskArgs + 4 * i) + j
  := by
  intro j hj
  have hspan := span_pos args
  rw [h.entry_eq hi htable, Nat.add_assoc, h.physAt_start (by omega), htable _ (by omega),
    Nat.add_assoc]

theorem entry_le (h : ArgSetting s taskArgs dir dest argv args) (hi : i ≤ args.length)
    (htable : ∀ j < 4 * (args.length + 1),
      s.physAt dir dest (sizeofTaskArgs + j) = s.physAt dir dest sizeofTaskArgs + j) :
  (s.argStart taskArgs dest args).physAt dir dest (sizeofTaskArgs + 4 * i) + 4 ≤ memoryTaskBase
  := by
  have hspan := span_pos args
  have hlast := h.entry_follow hi htable 3 (by decide)
  have hv : InWindow dest (argSpan args) ((dest + (sizeofTaskArgs + 4 * i + 3)) / 4096) :=
    Window.inWindow dest (by omega)
  have hend := h.window_start.1.frame_end _ hv
  unfold physAt at hlast ⊢
  omega

variable (h : ArgSetting s taskArgs dir dest argv args)
  (hm : (s.argStart taskArgs dest args).Agrees dir dest (argSpan args) m)

include h hm

theorem pointer_eq (hi : i < args.length) :
  ((s.argStart taskArgs dest args).setMem m).readWord (u32 (argv + 4 * i)) = some args[i].addr
  := by
  rw [← h.sources.pointer i hi]
  refine readWord_congr ?_ (u32_lt _)
  intro j hj
  refine readByte_congr rfl ?_
  intro x hx
  apply h.mem_eq hm (h.apart.pointer i hi j hj x hx)

theorem string_eq (hi : i < args.length) :
  IsString ((s.argStart taskArgs dest args).setMem m) args[i].addr args[i].bytes
  := by
  apply (h.sources.string i hi).congr
  intro j hj
  have hend := h.sources.end_lt i hi
  rw [u32_of_lt (by omega)]
  refine readByte_congr rfl ?_
  intro x hx
  apply h.mem_eq hm (h.apart.string i hi j hj x hx)

theorem byte_eq (hi : i < args.length) (hj : j < args[i].bytes.length + 1) :
  ((s.argStart taskArgs dest args).setMem m).readByte (args[i].addr + j) = some (args[i].byte j)
  := by
  have hstring := h.string_eq hm hi
  have hend := h.sources.end_lt i hi
  rw [Arg.byte, List.getD_eq_getElem?_getD]
  rcases Nat.lt_succ_iff_lt_or_eq.mp hj with hlt | rfl
  · have hbyte := hstring.bytes j hlt
    rw [u32_of_lt (by omega)] at hbyte
    rw [hbyte, List.getElem?_eq_getElem hlt]
    rfl
  · have hnull := hstring.null
    rw [u32_of_lt (by omega)] at hnull
    rw [hnull, List.getElem?_eq_none (le_refl _)]
    rfl

/-! ### One argument -/

/-- A pass copies the string of its argument and enters it in the table. -/
theorem pass_eq (hi : i < args.length)
    (htable : ∀ j < 4 * (args.length + 1),
      s.physAt dir dest (sizeofTaskArgs + j) = s.physAt dir dest sizeofTaskArgs + j) :
  ∃ m', copyArgs.pass dir argv (s.physAt dir dest sizeofTaskArgs) i
      (u32 (dest + argOffset args i), (s.argStart taskArgs dest args).setMem m)
        = .ok (u32 (dest + argOffset args (i + 1)), (s.argStart taskArgs dest args).setMem m')
    ∧ (s.argStart taskArgs dest args).Agrees dir dest (argSpan args) m'
    ∧ ∀ l < argSpan args, (s.argStart taskArgs dest args).view dir dest m' l
        = store32 (put ((s.argStart taskArgs dest args).view dir dest m) (argOffset args i)
          (args[i].bytes.length + 1) args[i].byte) (sizeofTaskArgs + 4 * i)
          (dest + argOffset args i) l
  := by
  have hend := h.sources.end_lt i hi
  have hoffset := argOffset_le_span hi
  have htable_le := table_le_argOffset args i
  have hwindow := h.window_start.1
  have hspan := h.window.end_le
  have hlength : ((s.argStart taskArgs dest args).setMem m).kStrlen args[i].addr
      = some args[i].bytes.length := by
    rw [kStrlen, if_neg (h.sources.nonnull i hi),
      (string_eq_some_iff (by omega)).mpr ⟨by omega, h.string_eq hm hi⟩]
    rfl
  obtain ⟨m₁, hcopy, hm₁, hview₁⟩ := hwindow.toTarget.copyData hm (k := argOffset args i)
    (n := args[i].bytes.length + 1) (by omega) (h.sources.nonnull i hi) (by omega)
    fun m' hm' j hj => h.byte_eq hm' hi hj
  have hentry := h.entry_eq (i := i) (by omega) htable
  have hfollow := h.entry_follow (i := i) (by omega) htable
  have hlow := h.entry_le (i := i) (by omega) htable
  unfold memoryTaskBase at hlow
  refine ⟨_, ?_, Window.agrees_store32 hm₁ (dest + argOffset args i) (by omega) hfollow, ?_⟩
  · rw [copyArgs.pass, h.pointer_eq hm hi]
    dsimp only
    rw [hlength]
    dsimp only
    rw [hcopy]
    dsimp only
    rw [← hentry, u32_of_lt (by omega), u32_of_lt (show dest + argOffset args i < 2 ^ 32 by omega),
      writeWord_identity (by unfold memoryTaskBase; omega)]
    dsimp only
    rw [argOffset_succ hi]
    congr 3
    omega
  · intro l hl
    rw [hwindow.view_store32 _ (by omega) hfollow hl]
    apply store32_congr (hview₁ l hl)

end ArgSetting

/-! ### All arguments -/

/-- The first `i` entries of the table, and their strings. -/
def Entries (s : Kernel) (dir dest : Nat) (args : List Arg) (i : Nat) (m : Memory) : Prop :=
  ∀ j (h : j < args.length), j < i →
    load32 (s.view dir dest m) (sizeofTaskArgs + 4 * j) = dest + argOffset args j
      ∧ ∀ k ≤ args[j].bytes.length, s.view dir dest m (argOffset args j + k) = args[j].byte k

/-- What a pass writes leaves the earlier entries and strings alone. -/
theorem Entries.succ {s : Kernel} {m m' : Memory} (h : Entries s dir dest args i m)
    (hi : i < args.length) (hend : dest + argSpan args ≤ 2 ^ 32)
    (hview : ∀ l < argSpan args, s.view dir dest m' l
      = store32 (put (s.view dir dest m) (argOffset args i) (args[i].bytes.length + 1) args[i].byte)
          (sizeofTaskArgs + 4 * i) (dest + argOffset args i) l) :
  Entries s dir dest args (i + 1) m'
  := by
  intro j hj hlt
  have hspan := argOffset_le_span hi
  have hspan' := argOffset_le_span hj
  have htable := table_le_argOffset args i
  have htable' := table_le_argOffset args j
  have hword : load32 (s.view dir dest m') (sizeofTaskArgs + 4 * j)
      = load32 (store32 (put (s.view dir dest m) (argOffset args i) (args[i].bytes.length + 1)
          args[i].byte) (sizeofTaskArgs + 4 * i) (dest + argOffset args i))
          (sizeofTaskArgs + 4 * j) := by
    apply load32_congr
    intro x hx hx'
    apply hview
    omega
  rw [hword]
  rcases Nat.lt_succ_iff_lt_or_eq.mp hlt with hlt | rfl
  · obtain ⟨hentry, hstring⟩ := h j hj hlt
    have hbefore := argOffset_add_le hj hi.le hlt
    constructor
    · rw [load32_store32_of_disjoint _ _ (by omega), load32_put_of_disjoint _ _ (by omega), hentry]
    · intro k hk
      rw [hview _ (by omega), store32_of_disjoint _ _ (by omega), put_outside _ _ (by omega),
        hstring k hk]
  · constructor
    · apply load32_store32
      omega
    · intro k hk
      rw [hview _ (by omega), store32_of_disjoint _ _ (by omega), put_inside _ _ (by omega)]

/-- The null pointer goes behind the entries. -/
theorem Entries.null {s : Kernel} {m m' : Memory} (h : Entries s dir dest args args.length m)
    (hview : ∀ l < argSpan args, s.view dir dest m' l
      = store32 (s.view dir dest m) (sizeofTaskArgs + 4 * args.length) 0 l) :
  Entries s dir dest args args.length m'
  := by
  intro j hj hlt
  obtain ⟨hentry, hstring⟩ := h j hj hlt
  have hspan := argOffset_le_span hj
  have htable := table_le_argOffset args j
  constructor
  · have hword : load32 (s.view dir dest m') (sizeofTaskArgs + 4 * j)
        = load32 (store32 (s.view dir dest m) (sizeofTaskArgs + 4 * args.length) 0)
          (sizeofTaskArgs + 4 * j) := by
      apply load32_congr
      intro x hx hx'
      apply hview
      omega
    rw [hword, load32_store32_of_disjoint _ _ (by omega), hentry]
  · intro k hk
    rw [hview _ (by omega), store32_of_disjoint _ _ (by omega), hstring k hk]

namespace ArgSetting

/-- All passes. -/
theorem loop_eq (h : ArgSetting s taskArgs dir dest argv args)
    (htable : ∀ j < 4 * (args.length + 1),
      s.physAt dir dest (sizeofTaskArgs + j) = s.physAt dir dest sizeofTaskArgs + j) :
  ∃ m, forLoop (copyArgs.pass dir argv (s.physAt dir dest sizeofTaskArgs)) 0 args.length
      (u32 (dest + argOffset args 0), s.argStart taskArgs dest args)
        = .ok (u32 (dest + argSpan args), (s.argStart taskArgs dest args).setMem m)
    ∧ (s.argStart taskArgs dest args).Agrees dir dest (argSpan args) m
    ∧ Entries (s.argStart taskArgs dest args) dir dest args args.length m
  := by
  have hends := forLoop_rule (Q := fun _ => False)
    (copyArgs.pass dir argv (s.physAt dir dest sizeofTaskArgs))
    (fun i p => p.1 = u32 (dest + argOffset args i)
      ∧ ∃ m, p.2 = (s.argStart taskArgs dest args).setMem m
        ∧ (s.argStart taskArgs dest args).Agrees dir dest (argSpan args) m
        ∧ Entries (s.argStart taskArgs dest args) dir dest args i m)
    (i := 0) (n := args.length) (s := (u32 (dest + argOffset args 0), s.argStart taskArgs dest args))
    (by
      rintro i ⟨d, t⟩ - hi ⟨rfl, m, rfl, hm, hentries⟩
      rw [Nat.zero_add] at hi
      obtain ⟨m', hpass, hm', hview⟩ := h.pass_eq hm hi htable
      rw [hpass]
      exact ⟨rfl, m', rfl, hm', hentries.succ hi h.window.end_le hview⟩)
    ⟨rfl, _, rfl, fun _ _ => rfl, fun j _ hj => absurd hj (Nat.not_lt_zero j)⟩
  generalize forLoop (copyArgs.pass dir argv (s.physAt dir dest sizeofTaskArgs)) 0 args.length
    (u32 (dest + argOffset args 0), s.argStart taskArgs dest args) = r at hends ⊢
  cases r with
  | error e => cases hends
  | ok p =>
      obtain ⟨d, t⟩ := p
      rw [Nat.zero_add] at hends
      obtain ⟨rfl, m, rfl, hm, hentries⟩ := hends
      exact ⟨m, rfl, hm, hentries⟩

/-- The strings and the table, before the block is copied. -/
theorem table_eq (h : ArgSetting s taskArgs dir dest argv args) (hfit : ArgsFit s dir dest args) :
  ∃ m, s.copyArgs taskArgs dest dir args.length argv
      = ((s.argStart taskArgs dest args).setMem m).memoryCopyUvmData dest dir taskArgs
          sizeofTaskArgs
    ∧ (s.argStart taskArgs dest args).Agrees dir dest (argSpan args) m
    ∧ Entries (s.argStart taskArgs dest args) dir dest args args.length m
    ∧ load32 ((s.argStart taskArgs dest args).view dir dest m) (sizeofTaskArgs + 4 * args.length)
        = 0
  := by
  have hend := h.window.end_le
  have hspan := span_pos args
  have hwindow := h.window_start.1
  have htb : (s.argStart taskArgs dest args).memoryGetPaddr dir (dest + sizeofTaskArgs)
      = s.physAt dir dest sizeofTaskArgs := by
    rw [← h.physAt_start (by omega)]
    apply hwindow.memoryGetPaddr_eq (m := (s.argStart taskArgs dest args).mem) (fun _ _ => rfl)
    omega
  have hoffset : u32 (dest + sizeofTaskArgs + 4 * (args.length + 1))
      = u32 (dest + argOffset args 0) := by
    rw [argOffset, List.take_zero, List.map_nil, List.sum_nil, Nat.add_assoc]
    rfl
  have hstart : (s.store (taskArgs + 4) args.length).store (taskArgs + 8) (dest + sizeofTaskArgs)
      = s.argStart taskArgs dest args := rfl
  rw [copyArgs, u32_of_lt (show dest + sizeofTaskArgs < 2 ^ 32 by omega), hstart, htb, hoffset]
  by_cases hargs : args = []
  · subst hargs
    refine ⟨(s.argStart taskArgs dest []).mem, ?_, fun _ _ => rfl, ?_, ?_⟩
    · rfl
    · intro j hj
      cases hj
    · have hnull := hfit.null rfl
      have hword : (s.mmuSetPageDir dir).readWord (dest + sizeofTaskArgs)
          = some (load32 (s.view dir dest s.mem) sizeofTaskArgs) :=
        h.window.readWord_eq (m := s.mem) (fun _ _ => rfl) hspan
      rw [hword, Option.some_inj] at hnull
      refine (load32_congr ?_).trans hnull
      intro x hx hx'
      apply h.view_start
      apply Nat.lt_of_lt_of_le hx' hspan
  · have htable := hfit.table hargs
    have hlength : args.length ≠ 0 := by
      rwa [ne_eq, List.length_eq_zero_iff]
    obtain ⟨m, hloop, hm, hentries⟩ := h.loop_eq htable
    have hentry := h.entry_eq (le_refl _) htable
    have hfollow := h.entry_follow (le_refl _) htable
    have hlow := h.entry_le (le_refl _) htable
    unfold memoryTaskBase at hlow
    rw [hloop]
    dsimp only
    rw [if_pos hlength, ← hentry, u32_of_lt (by omega),
      writeWord_identity (by unfold memoryTaskBase; omega)]
    have hview (l : Nat) (hl : l < argSpan args) :=
      hwindow.view_store32 (m := m) 0 (by omega) hfollow hl
    refine ⟨store32 m _ 0, rfl, Window.agrees_store32 hm 0 (by omega) hfollow,
      hentries.null hview, ?_⟩
    refine (load32_congr ?_).trans (load32_store32 ((s.argStart taskArgs dest args).view dir dest m)
      (sizeofTaskArgs + 4 * args.length) (show 0 < 2 ^ 32 by decide))
    intro x hx hx'
    apply hview
    omega

/-- The block arrives at the start of the area. -/
theorem block_eq (h : ArgSetting s taskArgs dir dest argv args)
    (hm : (s.argStart taskArgs dest args).Agrees dir dest (argSpan args) m) :
  ∃ m', ((s.argStart taskArgs dest args).setMem m).memoryCopyUvmData dest dir taskArgs
      sizeofTaskArgs = .ok (0, (s.argStart taskArgs dest args).setMem m')
    ∧ (s.argStart taskArgs dest args).Agrees dir dest (argSpan args) m'
    ∧ ∀ l < argSpan args, (s.argStart taskArgs dest args).view dir dest m' l
        = put ((s.argStart taskArgs dest args).view dir dest m) 0 sizeofTaskArgs
          (fun j => (s.argStart taskArgs dest args).mem (taskArgs + j)) l
  := by
  have hspan := span_pos args
  have hend := h.window.end_le
  have hpos := h.block.pos
  have hle := h.block.end_le
  unfold sizeofTaskArgs memoryTaskBase at hle
  have hread : ∀ m', (s.argStart taskArgs dest args).Agrees dir dest (argSpan args) m' →
      ∀ j < sizeofTaskArgs, ((s.argStart taskArgs dest args).setMem m').readByte (taskArgs + j)
        = some ((s.argStart taskArgs dest args).mem (taskArgs + j)) := by
    intro m' hm' j hj
    unfold sizeofTaskArgs at hj
    rw [readByte, kernelAddr, if_pos (by unfold memoryTaskBase; omega)]
    apply congrArg some
    apply hm'
    rintro ⟨v, hv, hin⟩
    have hframe := h.block.not_frame v hv
    rw [h.window_start.2 v hv] at hin
    unfold sizeofTaskArgs at hframe
    omega
  have hcopy := h.window_start.1.toTarget.copyData hm (k := 0) (n := sizeofTaskArgs) (by omega) hpos.ne'
    (by unfold sizeofTaskArgs; omega) hread
  rwa [Nat.add_zero, u32_of_lt (by omega)] at hcopy

end ArgSetting

/-- Up to 1020 arguments the table lies in one page. -/
theorem table_follows (haligned : dest % 4096 = 0) (hlength : args.length ≤ 1020) :
  ∀ j < 4 * (args.length + 1),
    s.physAt dir dest (sizeofTaskArgs + j) = s.physAt dir dest sizeofTaskArgs + j
  := by
  intro j hj
  apply Window.physAt_add
  unfold sizeofTaskArgs
  omega

/-! ### An address space for arguments -/

/-- A directory with one table, whose pages are all present and filled with one byte; a vector
of one argument, "a". -/
def argsMachine (filling : UInt8) : Kernel where
  layout := .low
  mem x :=
    -- the entry of the directory for the table
    if x = 0x100DFC then 7
    else if x = 0x100DFD ∨ x = 0x100DFE then 0x10
    -- the table
    else if 0x101000 ≤ x ∧ x < 0x102000 then
      .ofNat ((0x200007 + 4096 * ((x - 0x101000) / 4)) / 256 ^ (x % 4))
    else if 0x200000 ≤ x ∧ x < 0x600000 then filling
    -- the vector and the string
    else if x = 0x9001 then 0x91
    else if x = 0x9100 then 97
    else 0
  cr3 := 0x5000
  gPaddrAlloc := Dmos.addrAllocInit (fun _ => 0) memExtStart 0 memPageSize

theorem tableAt_argsMachine (filling : UInt8) :
  tableAt (argsMachine filling).mem 0x100000 895 = some 0x101000
  := by
  simp [tableAt, argsMachine, load32, present_iff, pdePaddr_eq]

theorem pteAt_argsMachine (filling : UInt8) {v : Nat} (h : v / 1024 = 895) :
  pteAt (argsMachine filling).mem 0x100000 v = 0x200007 + 4096 * (v % 1024)
  := by
  have hentry : ∀ k < 1024, load32 (argsMachine filling).mem (0x101000 + 4 * k)
      = 0x200007 + 4096 * k := by
    intro k hk
    have hbyte (j : Nat) (hj : j < 4) : (argsMachine filling).mem (0x101000 + 4 * k + j)
        = .ofNat ((0x200007 + 4096 * k) / 256 ^ j) := by
      dsimp only [argsMachine]
      rw [if_neg (by omega), if_neg (by omega), if_pos (by omega),
        show (0x101000 + 4 * k + j - 0x101000) / 4 = k by omega,
        show (0x101000 + 4 * k + j) % 4 = j by omega]
    have h0 := hbyte 0 (by decide)
    rw [Nat.add_zero] at h0
    rw [load32, h0, hbyte 1 (by decide), hbyte 2 (by decide), hbyte 3 (by decide)]
    simp only [UInt8.toNat_ofNat']
    omega
  rw [pteAt, h, tableAt_argsMachine]
  apply hentry
  omega

theorem frameAt_argsMachine (filling : UInt8) {v : Nat} (h : v / 1024 = 895) :
  frameAt (argsMachine filling).mem 0x100000 v = 0x200000 + 4096 * (v % 1024)
  := by
  rw [frameAt, pteAt_argsMachine filling h, ptePaddr_eq]
  omega

theorem inWindow_stack {v : Nat}
    (h : InWindow (memTaskStackTop - memTaskStackSize) memTaskStackSize v) :
  v / 1024 = 895
  := by
  obtain ⟨hle, hlt⟩ := h
  unfold memTaskStackTop memTaskStackSize memPageSize at hle hlt
  omega

theorem window_argsMachine (filling : UInt8) :
  Window (argsMachine filling) 0x100000 (memTaskStackTop - memTaskStackSize) memTaskStackSize
  := by
  have htable : ∀ v, InWindow (memTaskStackTop - memTaskStackSize) memTaskStackSize v →
      v / 1024 = 895 := fun v => inWindow_stack
  have hframe : ∀ v, InWindow (memTaskStackTop - memTaskStackSize) memTaskStackSize v →
      frameAt (argsMachine filling).mem 0x100000 v = 0x200000 + 4096 * (v % 1024) :=
    fun v hv => frameAt_argsMachine filling (htable v hv)
  refine ⟨?_, by decide⟩
  constructor
  · decide
  · decide
  · intro v hv
    rw [pteAt_argsMachine filling (htable v hv), present_iff]
    omega
  · intro v w hv hw heq
    have hv' := htable v hv
    have hw' := htable w hw
    rw [hframe v hv, hframe w hw] at heq
    omega
  · intro v hv
    rw [hframe v hv]
    omega
  · intro v hv
    rw [hframe v hv]
    unfold memoryTaskBase
    omega
  · intro v hv
    rw [hframe v hv]
    omega
  · intro v w t hv hw ht
    rw [htable w hw, tableAt_argsMachine, Option.some_inj] at ht
    rw [hframe v hv]
    omega

theorem setting_argsMachine {filling : UInt8} {args : List Arg}
    (hspan : argSpan args ≤ memTaskArgSize) (hsources : ArgSources (argsMachine filling) 0x9000 args)
    (hlow : ∀ i (h : i < args.length), args[i].addr + args[i].bytes.length < 0x90000) :
  ArgSetting (argsMachine filling) 0x90200 0x100000 (memTaskStackTop - memTaskArgSize) 0x9000 args
  := by
  have htable : ∀ v, InWindow (memTaskStackTop - memTaskArgSize) (argSpan args) v →
      v / 1024 = 895 := by
    rintro v ⟨hle, hlt⟩
    unfold memTaskStackTop memTaskArgSize memPageSize at *
    omega
  have hframe : ∀ v, InWindow (memTaskStackTop - memTaskArgSize) (argSpan args) v →
      0x200000 ≤ frameAt (argsMachine filling).mem 0x100000 v := by
    intro v hv
    rw [frameAt_argsMachine filling (htable v hv)]
    omega
  have hapart : ∀ a < 0x90000, ∀ x, (argsMachine filling).DependsOn a x →
      ¬ (argsMachine filling).ArgWritten 0x90200 0x100000 (memTaskStackTop - memTaskArgSize)
        (argSpan args) x := by
    intro a ha x hx
    rw [DependsOn, if_pos (by unfold memoryTaskBase; omega)] at hx
    rintro (⟨v, hv, hle, -⟩ | ⟨hle, -⟩)
    · have := hframe v hv
      omega
    · omega
  have hlength := span_pos args
  constructor
  · apply (window_argsMachine filling).mono
    · decide
    · have : memTaskStackTop - memTaskArgSize + memTaskArgSize
          = memTaskStackTop - memTaskStackSize + memTaskStackSize := rfl
      omega
  · apply hsources
  · constructor
    · decide
    · decide
    · decide
    · intro v t hv ht
      rw [htable v hv, tableAt_argsMachine, Option.some_inj] at ht
      unfold sizeofTaskArgs
      omega
    · intro v hv
      have := hframe v hv
      unfold sizeofTaskArgs
      omega
  · constructor
    · intro i hi j hj
      unfold memTaskArgSize memPageSize at hspan
      rw [u32_of_lt (show 0x9000 + 4 * i < 2 ^ 32 by omega), u32_of_lt (by omega)]
      apply hapart
      omega
    · intro i hi j hj
      have := hlow i hi
      apply hapart
      omega

theorem sources_argsMachine :
  ArgSources (argsMachine 0) 0x9000 [⟨0x9100, [97]⟩]
  := by
  constructor
  · intro i hi
    obtain rfl : i = 0 := by simpa using hi
    change (argsMachine 0).readWord 0x9000 = some 0x9100
    decide +kernel
  · intro i hi
    obtain rfl : i = 0 := by simpa using hi
    change 0x9100 ≠ 0
    decide
  · intro i hi
    obtain rfl : i = 0 := by simpa using hi
    change IsString (argsMachine 0) 0x9100 [97]
    rw [isString_cons_iff, isString_nil_iff]
    decide +kernel
  · intro i hi
    obtain rfl : i = 0 := by simpa using hi
    change 0x9100 + 1 < 2 ^ 32
    decide

/-! ### What the program finds -/

/-- Where the arguments fit, `copyArgs` returns `0` and the program finds them. -/
theorem copyArgs_delivers (h : ArgSetting s taskArgs dir dest argv args)
    (hfit : ArgsFit s dir dest args) :
  ∃ s' p, s.copyArgs taskArgs dest dir args.length argv = .ok (0, s')
    ∧ ArgsAt (s'.mmuSetPageDir dir) dest args p
  := by
  obtain ⟨m, htable, hm, hentries, hnull⟩ := h.table_eq hfit
  obtain ⟨m', hblock, hm', hview⟩ := h.block_eq hm
  have hwindow := h.window_start.1
  have hend := h.window.end_le
  have hspan := span_pos args
  -- behind the block the window shows what it showed before
  have hbehind (l : Nat) (hl : l < argSpan args) (hle : sizeofTaskArgs ≤ l) :
      (s.argStart taskArgs dest args).view dir dest m' l
        = (s.argStart taskArgs dest args).view dir dest m l := by
    rw [hview l hl, put_outside _ _ (by omega)]
  have hword (k : Nat) (hk : k + 4 ≤ argSpan args) (hle : sizeofTaskArgs ≤ k) :
      (((s.argStart taskArgs dest args).setMem m').mmuSetPageDir dir).readWord (dest + k)
        = some (load32 ((s.argStart taskArgs dest args).view dir dest m) k) := by
    rw [hwindow.readWord_eq hm' hk]
    congr 1
    apply load32_congr
    intro x hx hx'
    apply hbehind x (by omega) (by omega)
  have hinside (k : Nat) (hk : k + 4 ≤ sizeofTaskArgs) :
      (((s.argStart taskArgs dest args).setMem m').mmuSetPageDir dir).readWord (dest + k)
        = some (load32 (s.argStart taskArgs dest args).mem (taskArgs + k)) := by
    rw [hwindow.readWord_eq hm' (by omega)]
    congr 1
    apply load32_eq_of_bytes
    intro j hj
    rw [hview _ (by omega), Nat.add_assoc taskArgs, ← Nat.zero_add (k + j),
      put_inside _ _ (by omega), Nat.zero_add]
  refine ⟨_, fun i => dest + argOffset args i, htable.trans hblock, ?_⟩
  constructor
  · rw [hinside 4 (by decide), argStart, store_mem, store_mem,
      load32_store32_of_disjoint _ _ (by omega), load32_store32 _ _ (by omega)]
  · rw [hinside 8 (by decide), argStart, store_mem, load32_store32 _ _ (by omega)]
  · intro i hi
    rw [Nat.add_assoc, hword _ (by omega) (by omega), (hentries i hi hi).1]
  · rw [Nat.add_assoc, hword _ (by omega) (by omega), hnull]
  · intro i hi
    have hspan' := argOffset_le_span hi
    have hle := table_le_argOffset args i
    have hstring (k : Nat) (hk : k ≤ args[i].bytes.length) :
        (s.argStart taskArgs dest args).view dir dest m' (argOffset args i + k) = args[i].byte k := by
      rw [hbehind _ (by omega) (by omega), (hentries i hi hi).2 k hk]
    apply hwindow.isString hm' (by omega)
    · intro j hj
      rw [hstring j hj.le, Arg.byte, List.getD_eq_getElem _ _ hj]
    · rw [hstring _ (le_refl _), Arg.byte, List.getD_eq_default _ _ (le_refl _)]
    · apply (h.sources.string i hi).nonzero
  · intro i hi
    have hle := table_le_argOffset args i
    left
    omega
  · intro i j hi hj hne
    rcases Nat.lt_or_gt_of_ne hne with hlt | hlt
    · have := argOffset_add_le hi hj.le hlt
      left
      omega
    · have := argOffset_add_le hj hi.le hlt
      right
      omega


theorem copyArgs_delivers_argsMachine :
  ∃ s' p, (argsMachine 0).copyArgs 0x90200 (memTaskStackTop - memTaskArgSize) 0x100000 1 0x9000
      = .ok (0, s')
    ∧ ArgsAt (s'.mmuSetPageDir 0x100000) (memTaskStackTop - memTaskArgSize) [⟨0x9100, [97]⟩] p
  := by
  apply copyArgs_delivers (setting_argsMachine (by decide) sources_argsMachine _)
  · constructor
    · intro _
      apply table_follows
      · decide
      · decide
    · intro hargs
      cases hargs
  · intro i hi
    obtain rfl : i = 0 := by simpa using hi
    change 0x9100 + 1 < 0x90000
    decide

/-- A vector without arguments, in an address space whose pages are not clear: the table has no
null pointer. -/
theorem not_copyArgs_delivers :
  ¬ ∀ (s : Kernel) (taskArgs dir argv : Nat) (args : List Arg) (r : Int) (s' : Kernel),
    Window s dir (memTaskStackTop - memTaskStackSize) memTaskStackSize →
    ArgSetting s taskArgs dir (memTaskStackTop - memTaskArgSize) argv args →
    s.copyArgs taskArgs (memTaskStackTop - memTaskArgSize) dir args.length argv = .ok (r, s') →
    0 ≤ r → ∃ p, ArgsAt (s'.mmuSetPageDir dir) (memTaskStackTop - memTaskArgSize) args p
  := by
  intro h
  have hsources : ArgSources (argsMachine 1) 0x9000 [] := by
    constructor <;> intro i hi <;> cases hi
  have hsetting : ArgSetting (argsMachine 1) 0x90200 0x100000 (memTaskStackTop - memTaskArgSize)
      0x9000 [] :=
    setting_argsMachine (by decide) hsources fun i hi => absurd hi (Nat.not_lt_zero i)
  have hnull : ((argsMachine 1).copyArgs 0x90200 (memTaskStackTop - memTaskArgSize) 0x100000 0
      0x9000).toOption.map (fun p => (p.1, (p.2.mmuSetPageDir 0x100000).readWord
        (memTaskStackTop - memTaskArgSize + sizeofTaskArgs))) = some (0, some 0x01010101) := by
    decide +kernel
  cases hcopy : (argsMachine 1).copyArgs 0x90200 (memTaskStackTop - memTaskArgSize) 0x100000 0
      0x9000 with
  | error s =>
      rw [hcopy] at hnull
      cases hnull
  | ok result =>
      obtain ⟨r, s'⟩ := result
      rw [hcopy] at hnull
      obtain ⟨rfl, hword⟩ := Prod.mk.inj (Option.some.inj hnull)
      obtain ⟨p, hargs⟩ := h _ _ _ _ [] 0 s' (window_argsMachine 1) hsetting hcopy (le_refl 0)
      have hzero := hargs.null
      rw [List.length_nil, Nat.mul_zero, Nat.add_zero, hword] at hzero
      cases hzero

end Kernel

end Dmos
