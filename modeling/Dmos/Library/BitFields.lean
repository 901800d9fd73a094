import Mathlib.Data.Nat.Bitwise
import Mathlib.Tactic.Use
import Mathlib.Tactic.SplitIfs
import Mathlib.Tactic.Ring

/-!
# Bit fields of little-endian words

A word is stored as a sequence of bytes, the lowest first (`toBytes`), and a field is a number of
consecutive bits of it (`field`).  Words stored one after the other make one longer word, whose
fields are those of its parts (`field_append_left`, `field_append_right`), and two fields next to
each other make one (`field_add`).
-/

namespace BitFields

/-- The `n` bits of `w` from bit `lo` on. -/
def field (w lo n : Nat) : Nat :=
  w / 2 ^ lo % 2 ^ n

/-- The lowest `n` bytes of `v`, the lowest first. -/
def toBytes (v : Nat) : Nat → List UInt8
  | 0 => []
  | n + 1 => .ofNat v :: toBytes (v / 256) n

/-- The word that is stored in the bytes. -/
def ofBytes : List UInt8 → Nat
  | [] => 0
  | b :: bs => b.toNat + 256 * ofBytes bs

variable {w v lo n m k : Nat} {bs cs : List UInt8}

/-! ### Bytes -/

@[simp]
theorem length_toBytes (v n : Nat) :
  (toBytes v n).length = n
  := by
  induction n generalizing v with
  | zero => rfl
  | succ n ih => rw [toBytes, List.length_cons, ih]

theorem ofBytes_lt (bs : List UInt8) :
  ofBytes bs < 2 ^ (8 * bs.length)
  := by
  induction bs with
  | nil => decide
  | cons b bs ih =>
      have hb := b.toNat_lt
      rw [ofBytes, List.length_cons, Nat.mul_succ, Nat.pow_add]
      omega

theorem ofBytes_append (bs cs : List UInt8) :
  ofBytes (bs ++ cs) = ofBytes bs + 2 ^ (8 * bs.length) * ofBytes cs
  := by
  induction bs with
  | nil => simp [ofBytes]
  | cons b bs ih =>
      rw [List.cons_append, ofBytes, ih, ofBytes, List.length_cons, Nat.mul_succ, Nat.pow_add]
      ring

/-- A word that fits is read back. -/
theorem ofBytes_toBytes (h : v < 2 ^ (8 * n)) :
  ofBytes (toBytes v n) = v
  := by
  induction n generalizing v with
  | zero =>
      rw [Nat.mul_zero, Nat.pow_zero] at h
      rw [toBytes, ofBytes]
      omega
  | succ n ih =>
      rw [Nat.mul_succ, Nat.pow_add] at h
      rw [toBytes, ofBytes, ih (by omega), UInt8.toNat_ofNat']
      omega

/-! ### Fields -/

theorem field_lt (w lo n : Nat) :
  field w lo n < 2 ^ n
  := Nat.mod_lt _ (Nat.two_pow_pos n)

/-- All bits of a word. -/
theorem field_all (h : w < 2 ^ n) :
  field w 0 n = w
  := by rw [field, Nat.pow_zero, Nat.div_one, Nat.mod_eq_of_lt h]

/-- A shift and a mask. -/
theorem field_eq_and (w lo n : Nat) :
  field w lo n = (w >>> lo) &&& (2 ^ n - 1)
  := by rw [Nat.and_two_pow_sub_one_eq_mod, Nat.shiftRight_eq_div_pow, field]

/-- Two fields next to each other. -/
theorem field_add (w lo n m : Nat) :
  field w lo n + 2 ^ n * field w (lo + n) m = field w lo (n + m)
  := by rw [field, field, field, Nat.pow_add 2 lo, ← Nat.div_div_eq_div_mul, Nat.pow_add 2 n,
    Nat.mod_mul]

theorem field_or (w v lo n : Nat) :
  field (w ||| v) lo n = field w lo n ||| field v lo n
  := by rw [field, Nat.or_div_two_pow, Nat.or_mod_two_pow, field, field]

theorem field_and (w v lo n : Nat) :
  field (w &&& v) lo n = field w lo n &&& field v lo n
  := by rw [field, Nat.and_div_two_pow, Nat.and_mod_two_pow, field, field]

/-- A word is clear where it is clear under a mask with all bits there. -/
theorem field_of_and (h : w &&& v = 0) (hv : field v lo n = 2 ^ n - 1) :
  field w lo n = 0
  := by
  have hand := field_and w v lo n
  rw [h, hv, Nat.and_two_pow_sub_one_of_lt_two_pow (field_lt w lo n)] at hand
  rw [← hand, field, Nat.zero_div, Nat.zero_mod]

/-- The bits below a word that has been shifted. -/
theorem field_shift_below (h : lo + n ≤ k) :
  field (w <<< k) lo n = 0
  := by
  obtain ⟨c, rfl⟩ := Nat.exists_eq_add_of_le h
  rw [field, Nat.shiftLeft_eq, show w * 2 ^ (lo + n + c) = 2 ^ lo * (2 ^ n * (w * 2 ^ c)) by ring,
    Nat.mul_div_cancel_left _ (Nat.two_pow_pos lo), Nat.mul_mod_right]

/-- The bits of a word that has been shifted. -/
theorem field_shift (w k lo n : Nat) :
  field (w <<< k) (k + lo) n = field w lo n
  := by rw [field, field, Nat.shiftLeft_eq, Nat.pow_add, ← Nat.div_div_eq_div_mul,
    Nat.mul_div_cancel _ (Nat.two_pow_pos k)]

theorem field_of_lt (h : w < 2 ^ lo) (n : Nat) :
  field w lo n = 0
  := by rw [field, Nat.div_eq_of_lt h, Nat.zero_mod]

/-! ### Fields of words next to each other -/

theorem field_low (h : lo + n ≤ k) (x y : Nat) :
  field (x + 2 ^ k * y) lo n = field x lo n
  := by
  obtain ⟨c, rfl⟩ := Nat.exists_eq_add_of_le h
  rw [field, field, show x + 2 ^ (lo + n + c) * y = x + 2 ^ lo * (2 ^ n * (2 ^ c * y)) by ring,
    Nat.add_mul_div_left _ _ (Nat.two_pow_pos lo), Nat.add_mul_mod_self_left]

theorem field_high {x : Nat} (h : x < 2 ^ k) (y lo n : Nat) :
  field (x + 2 ^ k * y) (k + lo) n = field y lo n
  := by
  rw [field, field, Nat.pow_add, ← Nat.div_div_eq_div_mul,
    Nat.add_mul_div_left _ _ (Nat.two_pow_pos k), Nat.div_eq_of_lt h, Nat.zero_add]

theorem field_append_left (h : lo + n ≤ 8 * bs.length) (cs : List UInt8) :
  field (ofBytes (bs ++ cs)) lo n = field (ofBytes bs) lo n
  := by
  rw [ofBytes_append]
  apply field_low h

theorem field_append_right (h : 8 * bs.length = k) (cs : List UInt8) (lo n : Nat) :
  field (ofBytes (bs ++ cs)) (k + lo) n = field (ofBytes cs) lo n
  := by
  subst h
  rw [ofBytes_append]
  apply field_high (ofBytes_lt bs)

end BitFields
