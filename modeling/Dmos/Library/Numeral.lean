import Mathlib.Data.Nat.Digits.Lemmas

/-!
# Numerals

The numeral of a number in a base up to sixteen: the characters of its digits, the highest
first, and one digit for zero.  Read back (`value`) it is the number (`value_numeral`); its first
digit is not zero unless it is the numeral of zero (`head_numeral`).
-/

namespace Numeral

/-- The character of a digit. -/
def digitChar (d : Nat) : UInt8 :=
  if d < 10 then .ofNat (48 + d) else .ofNat (55 + d)

/-- The digit of a character. -/
def digitVal (c : UInt8) : Nat :=
  if c ≤ 57 then c.toNat - 48 else c.toNat - 55

/-- The number that a text in base `b` stands for. -/
def value (b : Nat) (cs : List UInt8) : Nat :=
  cs.foldl (fun v c => b * v + digitVal c) 0

/-- The digits of a number, the lowest first. -/
def lowDigits (b n : Nat) : List Nat :=
  if n = 0 then [0] else b.digits n

def numeralOf (b n : Nat) : List UInt8 :=
  (lowDigits b n).reverse.map digitChar

variable {b d n : Nat} {ds : List Nat}

/-! ### Digits -/

theorem digitVal_digitChar (h : d < 16) :
  digitVal (digitChar d) = d
  := by
  revert d
  decide

theorem digitChar_ne_zero (h : d < 16) :
  digitChar d ≠ 0
  := by
  revert d
  decide

/-- A number below the base has one digit. -/
theorem lowDigits_of_lt (h : n < b) :
  lowDigits b n = [n]
  := by
  rw [lowDigits]
  split_ifs with hn
  · rw [hn]
  · apply Nat.digits_of_lt b n hn h

/-- The lowest digit of a number, and those of what is left of it. -/
theorem lowDigits_of_le (hb : 1 < b) (h : b ≤ n) :
  lowDigits b n = n % b :: lowDigits b (n / b)
  := by
  have hn : n ≠ 0 := by omega
  have hdiv : n / b ≠ 0 := (Nat.div_pos h (by omega)).ne'
  rw [lowDigits, lowDigits, if_neg hn, if_neg hdiv, Nat.digits_eq_cons_digits_div hb hn]

theorem lowDigits_lt (hb : 1 < b) (h : d ∈ lowDigits b n) :
  d < b
  := by
  rw [lowDigits] at h
  split_ifs at h
  · rw [List.mem_singleton.mp h]
    omega
  · apply Nat.digits_lt_base hb h

theorem lowDigits_ne_nil (b n : Nat) :
  lowDigits b n ≠ []
  := by
  rw [lowDigits]
  split_ifs with hn
  · nofun
  · apply Nat.digits_ne_nil_iff_ne_zero.mpr hn

theorem ofDigits_lowDigits (b n : Nat) :
  Nat.ofDigits b (lowDigits b n) = n
  := by
  rw [lowDigits]
  split_ifs with hn
  · rw [hn, Nat.ofDigits_singleton]
  · apply Nat.ofDigits_digits

/-- How many digits a number has. -/
theorem length_lowDigits_le_iff (hb : 1 < b) {k : Nat} :
  (lowDigits b n).length ≤ k + 1 ↔ n < b ^ (k + 1)
  := by
  rw [lowDigits]
  split_ifs with hn
  · rw [hn]
    apply iff_of_true
    · exact Nat.le_add_left _ _
    · apply Nat.pow_pos
      omega
  · apply Nat.digits_length_le_iff hb

/-! ### Numerals -/

theorem value_append_one (b : Nat) (cs : List UInt8) (c : UInt8) :
  value b (cs ++ [c]) = b * value b cs + digitVal c
  := by
  rw [value, List.foldl_append]
  rfl

theorem value_reverse (h : ∀ d ∈ ds, d < 16) :
  value b (ds.reverse.map digitChar) = Nat.ofDigits b ds
  := by
  induction ds with
  | nil => rfl
  | cons d ds ih =>
      rw [List.reverse_cons, List.map_append, List.map_singleton, value_append_one,
        ih (fun d hd => h d (List.mem_cons_of_mem _ hd)), digitVal_digitChar (h d List.mem_cons_self),
        Nat.ofDigits_cons, Nat.add_comm]

/-- A leading digit counts as often as the digits behind it say. -/
theorem value_cons_reverse (hd : d < 16) (h : ∀ d ∈ ds, d < 16) :
  value b (digitChar d :: ds.reverse.map digitChar) = d * b ^ ds.length + Nat.ofDigits b ds
  := by
  have hdigits : ∀ e ∈ ds ++ [d], e < 16 := by
    intro e he
    rcases List.mem_append.mp he with he | he
    · apply h e he
    · rw [List.mem_singleton.mp he]
      exact hd
  have hsnoc := value_reverse (b := b) hdigits
  rw [List.reverse_append, List.reverse_singleton, List.singleton_append, List.map_cons] at hsnoc
  rw [hsnoc, Nat.ofDigits_append, Nat.ofDigits_singleton, Nat.add_comm, Nat.mul_comm]

/-- A numeral is read back as its number. -/
theorem value_numeral (hb : 1 < b) (hb' : b ≤ 16) (n : Nat) :
  value b (numeralOf b n) = n
  := by
  rw [numeralOf, value_reverse, ofDigits_lowDigits]
  intro d hd
  have hlt := lowDigits_lt hb hd
  omega

theorem numeral_ne_nil (b n : Nat) :
  numeralOf b n ≠ []
  := by
  rw [numeralOf, ne_eq, List.map_eq_nil_iff, List.reverse_eq_nil_iff]
  apply lowDigits_ne_nil

theorem mem_numeral {c : UInt8} (hb : 1 < b) (hc : c ∈ numeralOf b n) :
  ∃ d < b, c = digitChar d
  := by
  rw [numeralOf] at hc
  obtain ⟨d, hd, rfl⟩ := List.mem_map.mp hc
  exact ⟨d, lowDigits_lt hb (List.mem_reverse.mp hd), rfl⟩

theorem length_numeral_le_iff (hb : 1 < b) {k : Nat} :
  (numeralOf b n).length ≤ k + 1 ↔ n < b ^ (k + 1)
  := by
  rw [numeralOf, List.length_map, List.length_reverse]
  apply length_lowDigits_le_iff hb

/-- The first digit of a number above zero is not zero. -/
theorem head_numeral (hb : 1 < b) (hb' : b ≤ 16) (hn : n ≠ 0) :
  (numeralOf b n).head? ≠ some 48
  := by
  have hlast := Nat.getLast_digit_ne_zero b hn
  have hlt := Nat.digits_lt_base hb (List.getLast_mem (Nat.digits_ne_nil_iff_ne_zero.mpr hn))
  have hhead : ∀ d < 16, digitChar d = 48 → d = 0 := by decide
  rw [numeralOf, lowDigits, if_neg hn, List.head?_map, List.head?_reverse,
    List.getLast?_eq_getLast_of_ne_nil (Nat.digits_ne_nil_iff_ne_zero.mpr hn), Option.map_some, ne_eq,
    Option.some_inj]
  intro heq
  apply hlast (hhead _ (by omega) heq)

end Numeral
