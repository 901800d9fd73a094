import Dmos.Kernel.Mem

/-!
# Data of the user

What the kernel reads and writes through the addresses a program passes to it, and the copy
of data into another address space (`memoryCopyUvmData`).  An access to an address that is
not mapped never returns; neither does the search for the end of a string that has none.
-/

open ByteMemory Loop

namespace Dmos.Kernel

/-! ### Bytes and words -/

def readByte (s : Kernel) (addr : Nat) : Option UInt8 :=
  (s.kernelAddr addr).map s.mem

def writeByte (s : Kernel) (addr : Nat) (b : UInt8) : Option Kernel :=
  (s.kernelAddr addr).map fun a => { s with mem := store8 s.mem a b }

def readWord (s : Kernel) (addr : Nat) : Option Nat := do
  let b₀ ← s.readByte addr
  let b₁ ← s.readByte (u32 (addr + 1))
  let b₂ ← s.readByte (u32 (addr + 2))
  let b₃ ← s.readByte (u32 (addr + 3))
  some (b₀.toNat + 256 * b₁.toNat + 65536 * b₂.toNat + 16777216 * b₃.toNat)

def writeWord (s : Kernel) (addr v : Nat) : Option Kernel := do
  let s ← s.writeByte addr (.ofNat v)
  let s ← s.writeByte (u32 (addr + 1)) (.ofNat (v / 256))
  let s ← s.writeByte (u32 (addr + 2)) (.ofNat (v / 65536))
  s.writeByte (u32 (addr + 3)) (.ofNat (v / 16777216))

/-! ### Strings -/

/-- The string at an address, if it ends among so many bytes. -/
def cString (s : Kernel) (addr : Nat) (fuel : Nat) : Option (List UInt8) :=
  match fuel with
  | 0 => none
  | fuel + 1 =>
      match s.readByte addr with
      | none => none
      | some c => if c = 0 then some [] else (cString s (u32 (addr + 1)) fuel).map (c :: ·)

/-- The string at an address. -/
def string (s : Kernel) (addr : Nat) : Option (List UInt8) :=
  s.cString addr (2 ^ 32)

def kStrlen (s : Kernel) (str : Nat) : Option Nat :=
  if str = 0 then some 0 else (s.string str).map List.length

/-- The loop of `stringsCount`: the pointers up to the null pointer. -/
def stringsCount.loop (s : Kernel) (start : Nat) (fuel : Nat) : Option Nat :=
  match fuel with
  | 0 => none
  | fuel + 1 =>
      match s.readWord start with
      | none => none
      | some p => if p = 0 then some 0 else (loop s (u32 (start + 4)) fuel).map (· + 1)

def stringsCount (s : Kernel) (start : Nat) : Option Nat :=
  if start = 0 then some 0 else stringsCount.loop s start (2 ^ 30)

/-- The bytes of `path` and a null byte are at an address. -/
structure IsString (s : Kernel) (addr : Nat) (path : List UInt8) : Prop where
  bytes : ∀ j (h : j < path.length), s.readByte (u32 (addr + j)) = some path[j]
  nonzero : 0 ∉ path
  null : s.readByte (u32 (addr + path.length)) = some 0

variable {s : Kernel} {addr fuel : Nat} {path : List UInt8}

theorem u32_add (a b : Nat) :
  u32 (u32 a + b) = u32 (a + b)
  := Nat.mod_add_mod _ _ _

theorem isString_nil_iff :
  IsString s addr [] ↔ s.readByte (u32 addr) = some 0
  := by
  constructor
  · intro h
    apply h.null
  · intro h
    constructor
    · intro j hj
      cases hj
    · apply List.not_mem_nil
    · apply h

theorem isString_cons_iff {c : UInt8} :
  IsString s addr (c :: path)
    ↔ s.readByte (u32 addr) = some c ∧ c ≠ 0 ∧ IsString s (u32 (addr + 1)) path
  := by
  have hadd (j : Nat) : u32 (u32 (addr + 1) + j) = u32 (addr + (j + 1)) := by
    rw [u32_add, Nat.add_assoc, Nat.add_comm 1]
  constructor
  · intro h
    refine ⟨h.bytes 0 (by simp), ?_, ?_⟩
    · rintro rfl
      apply h.nonzero List.mem_cons_self
    · constructor
      · intro j hj
        rw [hadd]
        apply h.bytes (j + 1) (by simpa using hj)
      · intro hmem
        apply h.nonzero (List.mem_cons_of_mem _ hmem)
      · rw [hadd]
        apply h.null
  · rintro ⟨hc, hne, h⟩
    constructor
    · intro j hj
      cases j with
      | zero => apply hc
      | succ j =>
          rw [← hadd]
          apply h.bytes j (by simpa using hj)
    · rw [List.mem_cons, not_or]
      exact ⟨Ne.symm hne, h.nonzero⟩
    · rw [List.length_cons, ← hadd]
      apply h.null

/-- What `cString` finds. -/
theorem cString_eq_some_iff (haddr : addr < 2 ^ 32) :
  s.cString addr fuel = some path ↔ path.length < fuel ∧ IsString s addr path
  := by
  induction fuel generalizing addr path with
  | zero => simp [cString]
  | succ fuel ih =>
      rw [cString]
      cases path with
      | nil =>
          rw [isString_nil_iff, u32_of_lt haddr]
          cases s.readByte addr with
          | none => simp
          | some c =>
              by_cases hc : c = 0
              · simp [hc]
              · simp [hc]
      | cons c path =>
          rw [isString_cons_iff, u32_of_lt haddr, List.length_cons]
          cases s.readByte addr with
          | none => simp
          | some c' =>
              by_cases hc : c' = 0
              · simp [hc]
                intro _ h0 hne
                exact absurd h0.symm hne
              · simp [hc, ih (u32_lt _)]
                grind

theorem string_eq_some_iff (haddr : addr < 2 ^ 32) :
  s.string addr = some path ↔ path.length < 2 ^ 32 ∧ IsString s addr path
  := cString_eq_some_iff haddr

theorem IsString.drop (h : IsString s addr path) {k : Nat} (hk : k ≤ path.length) :
  IsString s (u32 (addr + k)) (path.drop k)
  := by
  constructor
  · intro j hj
    rw [List.length_drop] at hj
    rw [u32_add, Nat.add_assoc, List.getElem_drop]
    apply h.bytes (k + j) (by omega)
  · intro hmem
    apply h.nonzero (List.mem_of_mem_drop hmem)
  · rw [List.length_drop, u32_add, Nat.add_assoc, Nat.add_sub_cancel' hk]
    apply h.null

/-! ### What a read depends on -/

/-- The byte at `x` takes part in the translation of an address, or is what it leads to. -/
def DependsOn (s : Kernel) (addr x : Nat) : Prop :=
  if addr < memoryTaskBase then x = addr
  else
    let pde := pdePaddr s.cr3 + 4 * pdeIndex addr
    let pte := pdePaddr (s.load pde) + 4 * pteIndex addr
    pde ≤ x ∧ x < pde + 4 ∨ pte ≤ x ∧ x < pte + 4 ∨ s.translate addr = some x

variable {t : Kernel}

/-- A byte is read as before when nothing it depends on has changed. -/
theorem readByte_congr (hcr3 : t.cr3 = s.cr3) (h : ∀ x, s.DependsOn addr x → t.mem x = s.mem x) :
  t.readByte addr = s.readByte addr
  := by
  by_cases haddr : addr < memoryTaskBase
  · simp only [DependsOn, if_pos haddr] at h
    rw [readByte, readByte, kernelAddr, kernelAddr, if_pos haddr, if_pos haddr, Option.map_some,
      Option.map_some, h addr rfl]
  · simp only [DependsOn, if_neg haddr] at h
    have hpde : t.load (pdePaddr t.cr3 + 4 * pdeIndex addr)
        = s.load (pdePaddr s.cr3 + 4 * pdeIndex addr) := by
      rw [hcr3]
      apply load32_congr
      intro x hx hx'
      apply h x (.inl ⟨hx, hx'⟩)
    have hpte : t.load (pdePaddr (s.load (pdePaddr s.cr3 + 4 * pdeIndex addr)) + 4 * pteIndex addr)
        = s.load (pdePaddr (s.load (pdePaddr s.cr3 + 4 * pdeIndex addr)) + 4 * pteIndex addr) := by
      apply load32_congr
      intro x hx hx'
      apply h x (.inr (.inl ⟨hx, hx'⟩))
    have htranslate : t.translate addr = s.translate addr := by
      simp only [translate, hpde, hpte]
    rw [readByte, readByte, kernelAddr, kernelAddr, if_neg haddr, if_neg haddr, htranslate]
    cases htarget : s.translate addr with
    | none => rfl
    | some x => rw [Option.map_some, Option.map_some, h x (.inr (.inr htarget))]

theorem IsString.congr (h : IsString s addr path)
    (hbytes : ∀ j ≤ path.length, t.readByte (u32 (addr + j)) = s.readByte (u32 (addr + j))) :
  IsString t addr path
  := by
  constructor
  · intro j hj
    rw [hbytes j hj.le]
    apply h.bytes
  · apply h.nonzero
  · rw [hbytes _ (le_refl _)]
    apply h.null

theorem readWord_congr (h : ∀ j < 4, t.readByte (u32 (addr + j)) = s.readByte (u32 (addr + j)))
    (haddr : addr < 2 ^ 32) :
  t.readWord addr = s.readWord addr
  := by
  have h₀ := h 0 (by decide)
  rw [Nat.add_zero, u32_of_lt haddr] at h₀
  rw [readWord, readWord, h₀, h 1 (by decide), h 2 (by decide), h 3 (by decide)]

section SameMemory

variable (hcr3 : t.cr3 = s.cr3) (hmem : t.mem = s.mem)

include hcr3 hmem

theorem readByte_of_mem (a : Nat) :
  t.readByte a = s.readByte a
  := readByte_congr hcr3 fun x _ => by rw [hmem]

/-- A string is what is in memory and where the directory that is loaded leads. -/
theorem string_congr (a : Nat) :
  t.string a = s.string a
  := by
  have hloop (a fuel : Nat) : t.cString a fuel = s.cString a fuel := by
    induction fuel generalizing a with
    | zero => rfl
    | succ fuel ih =>
        simp only [cString, readByte_of_mem hcr3 hmem, ih]
  apply hloop

/-- Pointers are counted likewise. -/
theorem stringsCount_congr (start : Nat) :
  t.stringsCount start = s.stringsCount start
  := by
  have hbyte := readByte_of_mem hcr3 hmem
  have hword (a : Nat) : t.readWord a = s.readWord a := by
    rw [readWord, readWord, hbyte, hbyte, hbyte, hbyte]
  have hloop (a fuel : Nat) : stringsCount.loop t a fuel = stringsCount.loop s a fuel := by
    induction fuel generalizing a with
    | zero => rfl
    | succ fuel ih =>
        simp only [stringsCount.loop, hword, ih]
  rw [stringsCount, stringsCount, hloop]

end SameMemory

theorem stringsCount_eq_zero_iff {start : Nat} :
  s.stringsCount start = some 0 ↔ start = 0 ∨ s.readWord start = some 0
  := by
  rw [stringsCount]
  by_cases hnull : start = 0
  · simp [hnull]
  · rw [if_neg hnull, show (2 ^ 30 : Nat) = (2 ^ 30 - 1) + 1 from rfl, stringsCount.loop]
    cases hword : s.readWord start with
    | none => simp [hnull]
    | some p =>
        by_cases hp : p = 0
        · simp [hp]
        · simp [hp, hnull]

/-- A word is read when its bytes are. -/
theorem readWord_eq {m : Memory} {a : Nat} (haddr : addr < 2 ^ 32)
    (h : ∀ j < 4, s.readByte (u32 (addr + j)) = some (m (a + j))) :
  s.readWord addr = some (load32 m a)
  := by
  have h₀ := h 0 (by decide)
  rw [Nat.add_zero, u32_of_lt haddr] at h₀
  rw [readWord, h₀, h 1 (by decide), h 2 (by decide), h 3 (by decide)]
  rfl

/-- A word written to the kernel. -/
theorem writeWord_identity {v : Nat} (haddr : addr + 4 ≤ memoryTaskBase) :
  s.writeWord addr v = some { s with mem := store32 s.mem addr v }
  := by
  have hbyte (s : Kernel) (a : Nat) (b : UInt8) (ha : a < memoryTaskBase) :
      s.writeByte a b = some { s with mem := store8 s.mem a b } := by
    rw [writeByte, kernelAddr, if_pos ha]
    rfl
  have hlt (j : Nat) (hj : j < 4) : u32 (addr + j) = addr + j := by
    apply u32_of_lt
    unfold memoryTaskBase at haddr
    omega
  rw [writeWord, hlt 1 (by decide), hlt 2 (by decide), hlt 3 (by decide), hbyte _ _ _ (by omega),
    Option.bind_eq_bind, Option.bind_some, hbyte _ _ _ (by omega), Option.bind_some,
    hbyte _ _ _ (by omega), Option.bind_some, hbyte _ _ _ (by omega)]
  rfl

/-! ### Copies -/

/-- The loop of `memoryCopyUvmData`, for at most `fuel` bytes.  The result is the value
returned with the state, or the state of a page fault. -/
def memoryCopyUvmData.loop (s : Kernel) (dest pageDir src size : Nat) (fuel : Nat) :
    Except Kernel (Int × Kernel) :=
  match fuel with
  | 0 => .ok (0, s)
  | fuel + 1 =>
      if size = 0 then .ok (0, s)
      else
        let toPaddr := s.memoryGetPaddr pageDir dest
        if toPaddr = 0 then .ok (-1, s)
        else
          let offsetInPage := toPaddr &&& (memPageSize - 1)
          let currSize := memPageSize - offsetInPage
          let currSize := if size < currSize then size else currSize
          match s.kMemcpy toPaddr src currSize with
          | (0, s) =>
              loop s (u32 (dest + currSize)) pageDir (u32 (src + currSize)) (size - currSize) fuel
          | (_, s) => .error s

/-- Each pass copies a byte at least, so the loop ends within `size` of them. -/
def memoryCopyUvmData (s : Kernel) (dest pageDir src size : Nat) : Except Kernel (Int × Kernel) :=
  memoryCopyUvmData.loop s dest pageDir src size size

end Dmos.Kernel
