import Mathlib.Data.Nat.Bitwise
import Mathlib.Tactic.Use
import Mathlib.Tactic.SplitIfs

/-!
# Byte-addressed memory

A memory assigns a byte to every address.  A 32-bit word is stored little-endian in
four consecutive bytes; `load32` and `store32` read and write it as a natural number.
`fill` and `copyFrom` are the byte loops of a block fill and of a block copy.
-/

namespace ByteMemory

/-- A memory: the byte held at each address. -/
abbrev Memory := Nat → UInt8

/-- The memory `m` with byte `b` at address `a`. -/
def store8 (m : Memory) (a : Nat) (b : UInt8) : Memory :=
  fun x => if x = a then b else m x

/-- The word in the four bytes from `a` on. -/
def load32 (m : Memory) (a : Nat) : Nat :=
  (m a).toNat + 256 * (m (a + 1)).toNat + 65536 * (m (a + 2)).toNat
    + 16777216 * (m (a + 3)).toNat

/-- The memory `m` with the word `v` in the four bytes from `a` on. -/
def store32 (m : Memory) (a v : Nat) : Memory :=
  store8 (store8 (store8 (store8 m a (.ofNat v)) (a + 1) (.ofNat (v / 256)))
    (a + 2) (.ofNat (v / 65536))) (a + 3) (.ofNat (v / 16777216))

@[simp]
theorem store8_same (m : Memory) (a : Nat) (b : UInt8) :
  store8 m a b a = b
  := if_pos rfl

theorem store8_of_ne (m : Memory) {a x : Nat} (b : UInt8) (h : x ≠ a) :
  store8 m a b x = m x
  := if_neg h

/-! ### Words -/

theorem load32_lt (m : Memory) (a : Nat) :
  load32 m a < 2 ^ 32
  := by
  have h0 := (m a).toNat_lt
  have h1 := (m (a + 1)).toNat_lt
  have h2 := (m (a + 2)).toNat_lt
  have h3 := (m (a + 3)).toNat_lt
  unfold load32
  omega

/-- A word is determined by its four bytes. -/
theorem load32_congr {m m' : Memory} {a : Nat} (h : ∀ x, a ≤ x → x < a + 4 → m x = m' x) :
  load32 m a = load32 m' a
  := by
  unfold load32
  rw [h a (by omega) (by omega), h (a + 1) (by omega) (by omega),
    h (a + 2) (by omega) (by omega), h (a + 3) (by omega) (by omega)]

/-- Words of the same bytes, wherever they are. -/
theorem load32_eq_of_bytes {m m' : Memory} {a a' : Nat} (h : ∀ j < 4, m (a + j) = m' (a' + j)) :
  load32 m a = load32 m' a'
  := by
  have h₀ := h 0 (by decide)
  rw [Nat.add_zero, Nat.add_zero] at h₀
  unfold load32
  rw [h₀, h 1 (by decide), h 2 (by decide), h 3 (by decide)]

/-- The bytes of equal words. -/
theorem bytes_of_load32_eq {m m' : Memory} {a a' j : Nat} (h : load32 m a = load32 m' a')
    (hj : j < 4) :
  m (a + j) = m' (a' + j)
  := by
  have hlt (b : UInt8) : b.toNat < 256 := b.toNat_lt
  have h₀ := hlt (m a)
  have h₁ := hlt (m (a + 1))
  have h₂ := hlt (m (a + 2))
  have h₃ := hlt (m (a + 3))
  have h₀' := hlt (m' a')
  have h₁' := hlt (m' (a' + 1))
  have h₂' := hlt (m' (a' + 2))
  have h₃' := hlt (m' (a' + 3))
  unfold load32 at h
  apply UInt8.toNat_inj.mp
  obtain rfl | rfl | rfl | rfl : j = 0 ∨ j = 1 ∨ j = 2 ∨ j = 3 := by omega
  · rw [Nat.add_zero, Nat.add_zero]
    omega
  · omega
  · omega
  · omega

/-- The word just stored is read back. -/
theorem load32_store32 (m : Memory) (a : Nat) {v : Nat} (hv : v < 2 ^ 32) :
  load32 (store32 m a v) a = v
  := by
  simp [load32, store32, store8]
  omega

/-- A stored word changes its own four bytes only. -/
theorem store32_of_disjoint (m : Memory) {a x : Nat} (v : Nat) (h : x < a ∨ a + 4 ≤ x) :
  store32 m a v x = m x
  := by
  unfold store32
  rw [store8_of_ne _ _ (by omega), store8_of_ne _ _ (by omega), store8_of_ne _ _ (by omega),
    store8_of_ne _ _ (by omega)]

/-- What a memory with a word stored holds at an address depends on what was there. -/
theorem store32_congr {m m' : Memory} {a v x : Nat} (h : m x = m' x) :
  store32 m a v x = store32 m' a v x
  := by
  unfold store32 store8
  rw [h]

/-- Storing a word leaves a disjoint word as it was. -/
theorem load32_store32_of_disjoint (m : Memory) {a b : Nat} (v : Nat)
    (h : b + 4 ≤ a ∨ a + 4 ≤ b) :
  load32 (store32 m a v) b = load32 m b
  := by
  apply load32_congr
  intro x hx hx'
  apply store32_of_disjoint
  omega

/-! ### Block fill -/

/-- `n` bytes `v` from address `a` on, written in ascending order. -/
def fill (m : Memory) (a : Nat) (v : UInt8) : Nat → Memory
  | 0 => m
  | n + 1 => fill (store8 m a v) (a + 1) v n

theorem fill_succ (m : Memory) (a : Nat) (v : UInt8) (n : Nat) :
  fill m a v (n + 1) = fill (store8 m a v) (a + 1) v n
  := rfl

/-- A fill writes its own range and nothing else. -/
theorem fill_apply (m : Memory) (a : Nat) (v : UInt8) (n x : Nat) :
  fill m a v n x = if a ≤ x ∧ x < a + n then v else m x
  := by
  induction n generalizing m a with
  | zero =>
      rw [if_neg (by omega)]
      rfl
  | succ n ih =>
      rw [fill, ih]
      unfold store8
      split_ifs <;> first | rfl | omega

theorem fill_of_disjoint (m : Memory) {a n x : Nat} (v : UInt8) (h : x < a ∨ a + n ≤ x) :
  fill m a v n x = m x
  := by
  rw [fill_apply, if_neg (by omega)]

/-- A word inside a zero-filled range is zero. -/
theorem load32_fill_zero (m : Memory) {a n b : Nat} (h : a ≤ b) (h' : b + 4 ≤ a + n) :
  load32 (fill m a 0 n) b = 0
  := by
  unfold load32
  simp only [fill_apply]
  rw [if_pos (by omega), if_pos (by omega), if_pos (by omega), if_pos (by omega)]
  rfl

/-- The memory in which `n` bytes from `src` on have been copied to `dst`. -/
def copy (m : Memory) (dst src n : Nat) : Memory :=
  fun x => if dst ≤ x ∧ x < dst + n then m (src + (x - dst)) else m x

theorem copy_inside (m : Memory) {dst n k : Nat} (src : Nat) (h : k < n) :
  copy m dst src n (dst + k) = m (src + k)
  := by
  rw [copy, if_pos (by omega), Nat.add_sub_cancel_left]

theorem copy_outside (m : Memory) {dst n x : Nat} (src : Nat) (h : ¬ (dst ≤ x ∧ x < dst + n)) :
  copy m dst src n x = m x
  := if_neg h

theorem copy_congr {m m' : Memory} {dst src n x : Nat} (hsrc : ∀ k < n, m (src + k) = m' (src + k))
    (hx : m x = m' x) :
  copy m dst src n x = copy m' dst src n x
  := by
  rw [copy, copy]
  split_ifs
  · apply hsrc
    omega
  · exact hx

/-- The same copy made twice. -/
theorem copy_copy (m : Memory) {dst src n : Nat} (h : src + n ≤ dst ∨ dst + n ≤ src) :
  copy (copy m dst src n) dst src n = copy m dst src n
  := by
  funext x
  by_cases hx : dst ≤ x ∧ x < dst + n
  · obtain ⟨k, rfl⟩ := Nat.exists_eq_add_of_le hx.1
    rw [copy_inside _ _ (by omega), copy_inside _ _ (by omega), copy_outside _ _ (by omega)]
  · rw [copy_outside _ _ hx]

/-- Copying disjoint ranges byte by byte. -/
theorem copy_succ (m : Memory) {dst src n : Nat} (h : src + (n + 1) ≤ dst ∨ dst + (n + 1) ≤ src) :
  copy (store8 m dst (m src)) (dst + 1) (src + 1) n = copy m dst src (n + 1)
  := by
  funext x
  by_cases hfirst : x = dst
  · rw [hfirst, copy_outside _ _ (by omega), store8_same, copy, if_pos (by omega), Nat.sub_self]
    rfl
  · unfold copy
    by_cases hin : dst + 1 ≤ x ∧ x < dst + 1 + n
    · rw [if_pos hin, if_pos (by omega), store8_of_ne _ _ (by omega)]
      congr 1
      omega
    · rw [if_neg hin, if_neg (by omega), store8_of_ne _ _ hfirst]

/-- The memory `m` with `n` bytes `b` from `dst` on. -/
def put (m : Memory) (dst n : Nat) (b : Nat → UInt8) : Memory :=
  fun x => if dst ≤ x ∧ x < dst + n then b (x - dst) else m x

theorem put_inside (m : Memory) {dst n k : Nat} (b : Nat → UInt8) (h : k < n) :
  put m dst n b (dst + k) = b k
  := by
  rw [put, if_pos (by omega), Nat.add_sub_cancel_left]

theorem put_outside (m : Memory) {dst n x : Nat} (b : Nat → UInt8) (h : x < dst ∨ dst + n ≤ x) :
  put m dst n b x = m x
  := by
  rw [put, if_neg (by omega)]

@[simp]
theorem put_zero (m : Memory) (dst : Nat) (b : Nat → UInt8) :
  put m dst 0 b = m
  := by
  funext x
  apply put_outside
  omega

/-- Bytes put in two parts. -/
theorem put_put (m : Memory) (dst n k : Nat) (b : Nat → UInt8) :
  put (put m dst n b) (dst + n) k (fun j => b (n + j)) = put m dst (n + k) b
  := by
  funext x
  by_cases hfirst : dst ≤ x ∧ x < dst + n
  · rw [put_outside _ _ (by omega), put, put, if_pos hfirst, if_pos (by omega)]
  · by_cases hsecond : dst + n ≤ x ∧ x < dst + n + k
    · rw [put, if_pos hsecond, put, if_pos (by omega)]
      congr 1
      omega
    · rw [put_outside _ _ (by omega), put_outside _ _ (by omega), put_outside _ _ (by omega)]

theorem put_one (m : Memory) (dst : Nat) (b : Nat → UInt8) :
  put m dst 1 b = store8 m dst (b 0)
  := by
  funext x
  by_cases h : x = dst
  · rw [h, store8_same, put, if_pos (by omega), Nat.sub_self]
  · rw [store8_of_ne _ _ h, put_outside _ _ (by omega)]

/-- A word clear of the bytes put is as it was. -/
theorem load32_put_of_disjoint (m : Memory) {dst n a : Nat} (b : Nat → UInt8)
    (h : a + 4 ≤ dst ∨ dst + n ≤ a) :
  load32 (put m dst n b) a = load32 m a
  := by
  apply load32_congr
  intro x hx hx'
  apply put_outside
  omega

/-- Bytes put and a word stored beside them. -/
theorem put_store32 (m : Memory) {dst n a : Nat} (v : Nat) (b : Nat → UInt8)
    (h : a + 4 ≤ dst ∨ dst + n ≤ a) :
  put (store32 m a v) dst n b = store32 (put m dst n b) a v
  := by
  funext x
  by_cases hx : dst ≤ x ∧ x < dst + n
  · rw [store32_of_disjoint _ _ (by omega), put, put, if_pos hx, if_pos hx]
  · rw [put_outside _ _ (by omega)]
    apply store32_congr
    rw [put_outside _ _ (by omega)]

theorem put_fill (m : Memory) {dst n a k : Nat} (v : UInt8) (b : Nat → UInt8)
    (h : a + k ≤ dst ∨ dst + n ≤ a) :
  put (fill m a v k) dst n b = fill (put m dst n b) a v k
  := by
  funext x
  by_cases hx : dst ≤ x ∧ x < dst + n
  · rw [fill_of_disjoint _ _ (by omega), put, put, if_pos hx, if_pos hx]
  · rw [put_outside _ _ (by omega), fill_apply, fill_apply, put_outside _ _ (by omega)]

/-- A byte of the same parity at the start of a word, which keeps the rest of the words. -/
theorem load32_parity {m m' : Memory} {x a : Nat} (hx : x % 4 = 0) (ha : a % 4 = 0)
    (hsame : ∀ y, a ≤ y → y < a + 4 → y ≠ x → m' y = m y)
    (hbyte : (m' x).toNat % 2 = (m x).toNat % 2) :
  load32 m' a % 2 = load32 m a % 2 ∧ load32 m' a / 256 = load32 m a / 256
  := by
  have h := (m a).toNat_lt
  have h' := (m' a).toNat_lt
  have hfirst : (m' a).toNat % 2 = (m a).toNat % 2 := by
    by_cases heq : a = x
    · rw [heq, hbyte]
    · rw [hsame a (by omega) (by omega) heq]
  unfold load32
  rw [hsame (a + 1) (by omega) (by omega) (by omega), hsame (a + 2) (by omega) (by omega) (by omega),
    hsame (a + 3) (by omega) (by omega) (by omega)]
  omega

-- the loop is not to be unrolled by unification: `fill_apply` says what it does
attribute [irreducible] fill

end ByteMemory
