import Dmos.Library.Numeral
import Dmos.Library.StoreLog

/-!
# Numerals of integers

`k_itoa` of `lib/klib.c`.  Its first loop stores the digits of a number from the lowest one on,
each looked up at its remainder, which has the sign of the number; the second one turns them
round.  The sign of the number, and not the `-` that it has in base ten, says where that loop
begins, so of a negative number in another base the lowest digit stays at the front
(`kItoa_string`).
-/

open ByteMemory StoreLog Numeral

namespace Dmos.Klib

/-- The characters `FEDCBA9876543210123456789ABCDEF`. -/
def num2ch : List UInt8 :=
  [70, 69, 68, 67, 66, 65, 57, 56, 55, 54, 53, 52, 51, 50, 49, 48,
    49, 50, 51, 52, 53, 54, 55, 56, 57, 65, 66, 67, 68, 69, 70]

/-- The loop that stores the digits: the memory and where `p` points. -/
def kItoa.digits (base : Int) (hbase : 2 ≤ base) (r : Log) (p : Nat) (num : Int) : Log × Nat :=
  let r := r.store p (num2ch.getD (num.tmod base + 15).toNat 0)
  if num.tdiv base = 0 then (r, p + 1) else digits base hbase r (p + 1) (num.tdiv base)
termination_by num.natAbs
decreasing_by
  rename_i hne
  rw [Int.natAbs_tdiv]
  apply Nat.div_lt_self
  · rw [Nat.pos_iff_ne_zero, Int.natAbs_ne_zero]
    rintro rfl
    apply hne (Int.zero_tdiv _)
  · omega

/-- The loop that turns the bytes from `start` to `p` round. -/
def kItoa.reverse (r : Log) (start p : Nat) : Log :=
  if start < p then
    reverse ((r.store start (r.byte p)).store p (r.byte start)) (start + 1) (p - 1)
  else r
termination_by p - start

def kItoa (r : Log) (buf : Nat) (num base : Int) : Log :=
  if h : base ≠ 2 ∧ base ≠ 8 ∧ base ≠ 10 ∧ base ≠ 16 then r.store buf 0
  else
    match if num < 0 ∧ base = 10 then (r.store buf 45, buf + 1) else (r, buf) with
    | (r, p) =>
        match kItoa.digits base (by omega) r p num with
        | (r, p) =>
            kItoa.reverse (r.store p 0) (if 0 < num then buf else buf + 1) (p - 1)

/-! ### Loops -/

/-- The table has the digit of a remainder and of its opposite in places that mirror. -/
theorem num2ch_getD {d : Int} (h : d.natAbs < 16) :
  num2ch.getD (d + 15).toNat 0 = digitChar d.natAbs
  := by
  have htable : ∀ n < 31, num2ch.getD n 0 = digitChar ((n : Int) - 15).natAbs := by decide
  rw [htable _ (by omega)]
  congr 2
  omega

variable {r : Log} {a b p start buf : Nat} {num : Int}

theorem digits_string (hb : 1 < b) (hb' : b ≤ 16) (hbase : 2 ≤ (b : Int)) (r : Log) (p : Nat)
    (num : Int) :
  ∃ r', kItoa.digits b hbase r p num = (r', p + (lowDigits b num.natAbs).length)
    ∧ r.Within r' p (p + (lowDigits b num.natAbs).length)
    ∧ Text r'.byte p ((lowDigits b num.natAbs).map digitChar)
  := by
  induction hn : num.natAbs using Nat.strong_induction_on generalizing num r p with
  | _ n ih =>
      have hmod : (num.tmod b).natAbs = n % b := by rw [Int.natAbs_tmod, hn, Int.natAbs_natCast]
      have hdiv : (num.tdiv b).natAbs = n / b := by
        rw [Int.natAbs_tdiv, hn, Int.natAbs_natCast]
        rfl
      have hlt : n % b < b := Nat.mod_lt n (by omega)
      rw [kItoa.digits, num2ch_getD (by omega), hmod]
      have hstore := Log.within_store r p (digitChar (n % b))
      by_cases hlast : n < b
      · have hzero : num.tdiv b = 0 := by
          rw [← Int.natAbs_eq_zero, hdiv, Nat.div_eq_of_lt hlast]
        rw [if_pos hzero, lowDigits_of_lt hlast, Nat.mod_eq_of_lt hlast]
        rw [Nat.mod_eq_of_lt hlast] at hstore
        exact ⟨_, rfl, hstore, Log.byte_store_self _ _ _, trivial⟩
      · have hne : num.tdiv b ≠ 0 := by
          rw [← Int.natAbs_ne_zero, hdiv]
          exact (Nat.div_pos (not_lt.mp hlast) (by omega)).ne'
        obtain ⟨r', heq, hwithin, htext⟩ := ih (n / b) (Nat.div_lt_self (by omega) hb)
          (r.store p (digitChar (n % b))) (p + 1) (num.tdiv b) hdiv
        rw [if_neg hne, heq, lowDigits_of_le hb (not_lt.mp hlast), List.length_cons]
        refine ⟨r', ?_, ?_, ?_, htext⟩
        · rw [show p + 1 + (lowDigits b (n / b)).length = p + ((lowDigits b (n / b)).length + 1) by
            omega]
        · apply (hstore.mono (le_refl _) (by omega)).trans
          apply hwithin.mono (by omega)
          omega
        · rw [hwithin.byte (by omega), Log.byte_store_self]

/-- The bytes in a range are turned round. -/
theorem reverse_byte (r : Log) (start p : Nat) :
  r.Within (kItoa.reverse r start p) start (p + 1)
    ∧ ∀ x, start ≤ x → x ≤ p → (kItoa.reverse r start p).byte x = r.byte (start + p - x)
  := by
  induction hn : p - start using Nat.strong_induction_on generalizing r start p with
  | _ n ih =>
      rw [kItoa.reverse]
      split_ifs with hlt
      · obtain ⟨hwithin, hbytes⟩ := ih (p - 1 - (start + 1)) (by omega)
          ((r.store start (r.byte p)).store p (r.byte start)) (start + 1) (p - 1) rfl
        constructor
        · have hfirst := Log.within_store r start (r.byte p)
          have hlast := Log.within_store (r.store start (r.byte p)) p (r.byte start)
          apply (hfirst.mono (le_refl _) (by omega)).trans
          apply (hlast.mono (by omega) (le_refl _)).trans
          apply hwithin.mono (by omega)
          omega
        · intro x hx hx'
          by_cases hends : x = start ∨ x = p
          · rw [hwithin.byte (by omega)]
            rcases hends with rfl | rfl
            · rw [Log.byte_store_of_ne _ _ (by omega), Log.byte_store_self]
              congr 1
              omega
            · rw [Log.byte_store_self]
              congr 1
              omega
          · rw [hbytes x (by omega) (by omega), Log.byte_store_of_ne _ _ (by omega),
              Log.byte_store_of_ne _ _ (by omega)]
            congr 1
            omega
      · use Log.Within.refl _ _ _
        intro x hx hx'
        congr 1
        omega

theorem text_reverse {cs : List UInt8} (h : Text r.byte start cs) (hp : p + 1 = start + cs.length) :
  Text (kItoa.reverse r start p).byte start cs.reverse
  := by
  rw [text_iff] at h ⊢
  intro i hi
  rw [List.length_reverse] at hi
  rw [(reverse_byte r start p).2 _ (by omega) (by omega), List.getElem_reverse,
    ← h (cs.length - 1 - i) (by omega)]
  congr 1
  omega

/-- A null byte is put behind a text, and a part of the text turned round. -/
theorem finish_string {front cs : List UInt8} (h : Text r.byte a (front ++ cs))
    (hnonzero : ∀ c ∈ front ++ cs, c ≠ 0) (hpos : 0 < (front ++ cs).length) :
  CString (kItoa.reverse (r.store (a + (front ++ cs).length) 0) (a + front.length)
      (a + (front ++ cs).length - 1)).byte a (front ++ cs.reverse)
    ∧ r.Within (kItoa.reverse (r.store (a + (front ++ cs).length) 0) (a + front.length)
      (a + (front ++ cs).length - 1)) a (a + (front ++ cs).length + 1)
    ∧ (a + (front ++ cs).length, 0) ∈ (kItoa.reverse (r.store (a + (front ++ cs).length) 0)
      (a + front.length) (a + (front ++ cs).length - 1)).stores
  := by
  generalize hp : a + (front ++ cs).length = p
  have hlength : p = a + front.length + cs.length := by
    rw [← hp, List.length_append, Nat.add_assoc]
  have hstored := Log.within_store r p 0
  obtain ⟨hwithin, -⟩ := reverse_byte (r.store p 0) (a + front.length) (p - 1)
  have htext : Text (r.store p 0).byte a (front ++ cs) := by
    apply h.congr
    intro x _ hx
    apply Log.byte_store_of_ne
    omega
  obtain ⟨hfront, hcs⟩ := text_append.mp htext
  refine ⟨⟨?_, ?_, ?_⟩, ?_, ?_⟩
  · apply text_append.mpr
    constructor
    · apply hfront.congr
      intro x _ hx
      apply hwithin.byte (.inl hx)
    · apply text_reverse hcs
      omega
  · rw [List.length_append, List.length_reverse, ← List.length_append, hp,
      hwithin.byte (by omega), Log.byte_store_self]
  · intro c hc
    apply hnonzero c
    rw [List.mem_append] at hc ⊢
    rwa [List.mem_reverse] at hc
  · apply (hstored.mono (by omega) (le_refl _)).trans
    apply hwithin.mono (by omega)
    omega
  · obtain ⟨-, new, hnew, -⟩ := hwithin
    rw [hnew, List.mem_append]
    right
    exact List.mem_cons_self

/-! ### The whole text -/

/-- The digits of a number with the lowest one first and the others turned round. -/
def misplaced (b n : Nat) : List UInt8 :=
  ((lowDigits b n).take 1 ++ ((lowDigits b n).drop 1).reverse).map digitChar

/-- The text that `k_itoa` stores. -/
def itoaText (num : Int) (b : Nat) : List UInt8 :=
  if num < 0 then
    if b = 10 then 45 :: numeralOf b num.natAbs else misplaced b num.natAbs
  else numeralOf b num.natAbs

theorem kItoa_string (hb : b = 2 ∨ b = 8 ∨ b = 10 ∨ b = 16) (r : Log) (buf : Nat) (num : Int) :
  CString (kItoa r buf num b).byte buf (itoaText num b)
    ∧ r.Within (kItoa r buf num b) buf (buf + (itoaText num b).length + 1)
    ∧ (buf + (itoaText num b).length, 0) ∈ (kItoa r buf num b).stores
  := by
  have hdigits : ∀ c ∈ (lowDigits b num.natAbs).map digitChar, c ≠ 0 := by
    intro c hc
    obtain ⟨d, hd, rfl⟩ := List.mem_map.mp hc
    have hlt := lowDigits_lt (by omega) hd
    apply digitChar_ne_zero
    omega
  have hpos := List.length_pos_iff.mpr (lowDigits_ne_nil b num.natAbs)
  rw [kItoa, dif_neg (by omega)]
  by_cases hsign : num < 0 ∧ b = 10
  · -- the digits begin behind the sign
    obtain ⟨r', heq, hwithin, htext⟩ := digits_string (b := b) (by omega) (by omega) (by omega)
      (r.store buf 45) (buf + 1) num
    rw [if_pos (by omega), if_neg (by omega)]
    dsimp only
    rw [heq]
    dsimp only
    have hfront : Text r'.byte buf ([45] ++ (lowDigits b num.natAbs).map digitChar) := by
      refine ⟨?_, htext⟩
      rw [hwithin.byte (by omega), Log.byte_store_self]
    obtain ⟨hstring, hfinish, hmem⟩ := finish_string hfront (by
      intro c hc
      rcases List.mem_append.mp hc with hc | hc
      · rw [List.mem_singleton.mp hc]
        decide
      · apply hdigits c hc) (by simp)
    have hlength : ([45] ++ (lowDigits b num.natAbs).map digitChar).length
        = 1 + (lowDigits b num.natAbs).length := by
      rw [List.length_append, List.length_map]
      rfl
    rw [hlength, ← Nat.add_assoc] at hstring hfinish hmem
    rw [itoaText, if_pos hsign.1, if_pos hsign.2, numeralOf, List.map_reverse]
    use hstring
    rw [List.length_cons, List.length_reverse, List.length_map]
    constructor
    · apply Log.Within.trans _ (hfinish.mono (le_refl _) (by omega))
      apply ((Log.within_store r buf 45).mono (le_refl _) (by omega)).trans
      apply hwithin.mono (by omega)
      omega
    · rw [show buf + ((lowDigits b num.natAbs).length + 1) = buf + 1 + (lowDigits b num.natAbs).length
        by omega]
      exact hmem
  · obtain ⟨r', heq, hwithin, htext⟩ := digits_string (b := b) (by omega) (by omega) (by omega)
      r buf num
    rw [if_neg (by omega)]
    dsimp only
    rw [heq]
    dsimp only
    -- the digits that stay in front
    obtain ⟨k, hk, hstart, hresult⟩ : ∃ k ≤ 1, (if 0 < num then buf else buf + 1) = buf + k
        ∧ itoaText num b = ((lowDigits b num.natAbs).take k
          ++ ((lowDigits b num.natAbs).drop k).reverse).map digitChar := by
      by_cases hnum : 0 < num
      · use 0, Nat.zero_le _
        rw [if_pos hnum, itoaText, if_neg (by omega)]
        exact ⟨rfl, rfl⟩
      · use 1, le_refl _
        rw [if_neg hnum, itoaText]
        use rfl
        split_ifs with hneg hten
        · cases hsign ⟨hneg, hten⟩
        · rfl
        · rw [show num = 0 by omega]
          rfl
    have hsplit : (lowDigits b num.natAbs).map digitChar
        = ((lowDigits b num.natAbs).take k).map digitChar
          ++ ((lowDigits b num.natAbs).drop k).map digitChar := by
      rw [← List.map_append, List.take_append_drop]
    have htake : (((lowDigits b num.natAbs).take k).map digitChar).length = k := by
      rw [List.length_map, List.length_take]
      omega
    have hall : ((lowDigits b num.natAbs).map digitChar).length = (lowDigits b num.natAbs).length :=
      List.length_map _
    have hresult' : (itoaText num b).length = (lowDigits b num.natAbs).length := by
      rw [hresult, ← hall, hsplit]
      simp only [List.length_map, List.length_append, List.length_reverse]
    rw [hsplit] at htext hdigits hall
    obtain ⟨hstring, hfinish, hmem⟩ := finish_string htext hdigits (by omega)
    rw [hall, htake] at hstring hfinish hmem
    rw [hstart, hresult']
    refine ⟨?_, ?_, hmem⟩
    · rw [hresult, List.map_append, List.map_reverse]
      exact hstring
    · exact (hwithin.mono (le_refl _) (Nat.le_succ _)).trans hfinish

/-! ### Decimal numerals -/

/-- The integer that a decimal text stands for, with a sign or without one. -/
def readDecimal (cs : List UInt8) : Int :=
  if cs.head? = some 45 then -(value 10 cs.tail : Int) else value 10 cs

/-- The decimal numeral of an integer: a sign if it is negative, and digits that begin with zero
for zero only. -/
structure IsDecimal (num : Int) (cs : List UInt8) : Prop where
  text : ∃ ds : List UInt8, cs = (if num < 0 then [45] else []) ++ ds ∧ ds ≠ []
    ∧ (∀ c ∈ ds, 48 ≤ c ∧ c ≤ 57) ∧ (ds.head? = some 48 → num = 0 ∧ ds = [48])
  value : readDecimal cs = num

theorem isDecimal_itoaText (num : Int) :
  IsDecimal num (itoaText num 10)
  := by
  have hdigits : ∀ c ∈ numeralOf 10 num.natAbs, 48 ≤ c ∧ c ≤ 57 := by
    intro c hc
    obtain ⟨d, hd, rfl⟩ := mem_numeral (by decide) hc
    have hall : ∀ d < 10, 48 ≤ digitChar d ∧ digitChar d ≤ 57 := by decide
    apply hall d hd
  have hvalue := value_numeral (b := 10) (by decide) (by decide) num.natAbs
  have htext : itoaText num 10 = (if num < 0 then [45] else []) ++ numeralOf 10 num.natAbs := by
    rw [itoaText]
    split_ifs
    · rfl
    · contradiction
    · rfl
  constructor
  · refine ⟨_, htext, numeral_ne_nil _ _, hdigits, ?_⟩
    intro hhead
    by_cases hzero : num = 0
    · rw [hzero]
      exact ⟨rfl, rfl⟩
    · cases head_numeral (by decide) (by decide) (Int.natAbs_ne_zero.mpr hzero) hhead
  · rw [htext, readDecimal]
    by_cases hneg : num < 0
    · rw [if_pos hneg]
      change -(value 10 (numeralOf 10 num.natAbs) : Int) = num
      omega
    · rw [if_neg hneg, List.nil_append, if_neg, hvalue]
      · omega
      · intro hhead
        have hsign := hdigits 45 (List.mem_of_head? hhead)
        revert hsign
        decide

/-- In base ten the text is the decimal numeral of the number, for every number of 32 bits. -/
theorem kItoa_decimal (r : Log) (buf : Nat) (num : BitVec 32) :
  ∃ cs, CString (kItoa r buf num.toInt 10).byte buf cs ∧ IsDecimal num.toInt cs
    ∧ cs.length + 1 ≤ 12 ∧ r.Within (kItoa r buf num.toInt 10) buf (buf + 12)
  := by
  obtain ⟨hstring, hwithin, -⟩ := kItoa_string (b := 10) (by decide) r buf num.toInt
  have hlength : (itoaText num.toInt 10).length + 1 ≤ 12 := by
    have hlow := BitVec.le_toInt num
    have hhigh := BitVec.toInt_lt (x := num)
    have hdigits : (numeralOf 10 num.toInt.natAbs).length ≤ 10 :=
      (length_numeral_le_iff (by decide)).mpr (by omega)
    rw [itoaText]
    split_ifs
    · rw [List.length_cons]
      omega
    · contradiction
    · omega
  exact ⟨_, hstring, isDecimal_itoaText _, hlength, hwithin.mono (le_refl _) (by omega)⟩

/-! ### Numerals of patterns -/

/-- What the digits of a number stand for when the lowest comes first. -/
theorem value_misplaced {n : Nat} (hb : 1 < b) (hb' : b ≤ 16) (hn : b ≤ n) :
  ∃ k, n / b < b ^ k ∧ (k ≠ 0 → b ^ (k - 1) ≤ n / b)
    ∧ value b (misplaced b n) = n % b * b ^ k + n / b
  := by
  have hdigit : ∀ d ∈ lowDigits b (n / b), d < 16 := by
    intro d hd
    have hlt := lowDigits_lt hb hd
    omega
  have hfirst : n % b < b := Nat.mod_lt n (by omega)
  have hpos := List.length_pos_iff.mpr (lowDigits_ne_nil b (n / b))
  obtain ⟨k, hk⟩ := Nat.exists_eq_add_of_lt hpos
  rw [Nat.zero_add] at hk
  use k + 1
  refine ⟨(length_lowDigits_le_iff hb).mp (le_of_eq hk), ?_, ?_⟩
  · intro _
    rw [Nat.add_sub_cancel]
    cases k with
    | zero =>
        rw [Nat.pow_zero]
        apply Nat.div_pos hn
        omega
    | succ k =>
        rw [← not_lt, ← length_lowDigits_le_iff hb, hk]
        omega
  · rw [misplaced, lowDigits_of_le hb hn, List.take_succ_cons, List.take_zero, List.drop_succ_cons,
      List.drop_zero, List.singleton_append, List.map_cons,
      value_cons_reverse (by omega) hdigit, hk, ofDigits_lowDigits]

/-- A power below a number bounds the exponent. -/
theorem le_of_pow_le {k l q : Nat} (hb : 0 < b) (hlow : k ≠ 0 → b ^ (k - 1) ≤ q) (hq : q < b ^ l) :
  k ≤ l
  := by
  by_contra hlt
  have hpow : b ^ l ≤ b ^ (k - 1) := Nat.pow_le_pow_right hb (by omega)
  have hle := hlow (by omega)
  omega

section Sums

-- a number `b * q + d`, and the number that its misplaced digits stand for
variable {d q k m : Nat}

/-- The two numbers are small together unless the numeral is long. -/
theorem misplaced_sum_lt (hd : d < b) (hk : k < m) (hq : q < b ^ k) :
  d * b ^ k + q + b * q + d < 2 * b ^ m
  := by
  obtain ⟨e, rfl⟩ : ∃ e, b = e + 1 := ⟨b - 1, by omega⟩
  have hpow : (e + 1) ^ k * (e + 1) ≤ (e + 1) ^ m := Nat.pow_le_pow_right (Nat.succ_pos e) hk
  have hfirst : d * (e + 1) ^ k ≤ e * (e + 1) ^ k := Nat.mul_le_mul_right _ (by omega)
  have hrest : (e + 2) * (q + 1) ≤ (e + 2) * (e + 1) ^ k := Nat.mul_le_mul_left _ hq
  linarith

theorem binary_sum (hd : d < 2) (hk : k ≤ 31) (hq : q < 2 ^ k) :
  d * 2 ^ k + q + 2 * q + d ≠ 4294967296
  := by
  rcases hk.lt_or_eq with hlt | rfl
  · have hsum := misplaced_sum_lt hd hlt hq
    omega
  · omega

theorem octal_sum (hd : d < 8) (hk : k ≤ 10) (hq : q < 8 ^ k)
    (h : d * 8 ^ k + q + 8 * q + d = 4294967296) :
  8 * q + d = 1908874354
  := by
  rcases hk.lt_or_eq with hlt | rfl
  · have hsum := misplaced_sum_lt hd hlt hq
    omega
  · interval_cases d
    all_goals omega

theorem hex_sum (hd : d < 16) (hk : k ≤ 7) (hq : q < 16 ^ k) :
  d * 16 ^ k + q + 16 * q + d ≠ 4294967296
  := by
  rcases hk.lt_or_eq with hlt | rfl
  · have hsum := misplaced_sum_lt hd hlt hq
    omega
  · omega

end Sums

/-- The misplaced digit makes the numeral of the opposite pattern by one coincidence. -/
theorem value_misplaced_iff (hb : b = 2 ∨ b = 8 ∨ b = 16) {n : Nat} (hpos : 0 < n)
    (hn : n ≤ 2147483648) (h : value b (misplaced b n) = 4294967296 - n) :
  b = 8 ∧ n = 1908874354
  := by
  by_cases hlt : n < b
  · rw [misplaced, lowDigits_of_lt hlt] at h
    change value b [digitChar n] = _ at h
    rw [value, List.foldl_cons, List.foldl_nil, digitVal_digitChar (by omega)] at h
    omega
  · obtain ⟨k, hhigh, hlow, hvalue⟩ := value_misplaced (by omega) (by omega) (not_lt.mp hlt)
    rw [hvalue] at h
    have hmod : n % b < b := Nat.mod_lt n (by omega)
    have hsplit := Nat.div_add_mod n b
    generalize n % b = d at h hmod hsplit
    generalize n / b = q at h hhigh hlow hsplit
    have hsum : d * b ^ k + q + b * q + d = 4294967296 := by omega
    rcases hb with rfl | rfl | rfl
    · cases binary_sum hmod (le_of_pow_le (by decide) hlow (by omega)) hhigh hsum
    · use rfl
      rw [← hsplit, octal_sum hmod (le_of_pow_le (by decide) hlow (by omega)) hhigh hsum]
    · cases hex_sum hmod (le_of_pow_le (by decide) hlow (by omega)) hhigh hsum

/-- In octal, `16161616162` with its last digit in front is `21616161616`. -/
theorem misplaced_coincidence :
  misplaced 8 1908874354 = numeralOf 8 2386092942
  := by norm_num [misplaced, numeralOf, lowDigits]

/-- The text in memory at `buf` is the numeral of the pattern of a number, and is read back so. -/
def IsRadix (r : Log) (buf b : Nat) (num : BitVec 32) : Prop :=
  ∃ cs, CString r.byte buf cs ∧ cs = numeralOf b num.toNat ∧ value b cs = num.toNat

theorem isRadix_kItoa (hb : b = 2 ∨ b = 8 ∨ b = 16) (r : Log) (buf : Nat) (num : BitVec 32) :
  IsRadix (kItoa r buf num.toInt b) buf b num ↔ itoaText num.toInt b = numeralOf b num.toNat
  := by
  obtain ⟨hstring, -⟩ := kItoa_string (b := b) (by omega) r buf num.toInt
  constructor
  · rintro ⟨cs, hcs, heq, -⟩
    rw [hstring.unique hcs, heq]
  · intro heq
    refine ⟨_, hstring, heq, ?_⟩
    rw [heq, value_numeral (by omega) (by omega)]

/-- In the other bases the text is the numeral of the pattern for the numbers that are not
negative, and for one that is. -/
theorem isRadix_kItoa_iff (hb : b = 2 ∨ b = 8 ∨ b = 16) (r : Log) (buf : Nat) (num : BitVec 32) :
  IsRadix (kItoa r buf num.toInt b) buf b num
    ↔ 0 ≤ num.toInt ∨ b = 8 ∧ num.toInt = -1908874354
  := by
  have hpattern := BitVec.toInt_eq_toNat_cond num
  have hlt := num.isLt
  rw [isRadix_kItoa hb]
  by_cases hneg : num.toInt < 0
  · have hnat : num.toNat = 4294967296 - num.toInt.natAbs := by
      split_ifs at hpattern <;> omega
    rw [itoaText, if_pos hneg, if_neg (by omega), or_iff_right (by omega), hnat]
    constructor
    · intro heq
      have hvalue := congrArg (value b) heq
      rw [value_numeral (by omega) (by omega)] at hvalue
      have hlow := BitVec.le_toInt num
      obtain ⟨height, hnum⟩ := value_misplaced_iff hb (by omega) (by omega) hvalue
      use height
      omega
    · rintro ⟨rfl, heq⟩
      rw [heq]
      apply misplaced_coincidence
  · have hnat : num.toInt.natAbs = num.toNat := by
      split_ifs at hpattern <;> omega
    rw [itoaText, if_neg hneg, hnat]
    exact iff_of_true rfl (.inl (not_lt.mp hneg))

/-- The address `0x80000` is printed right. -/
theorem isRadix_address :
  IsRadix (kItoa ⟨fun _ => 0, []⟩ 4096 (0x80000 : BitVec 32).toInt (16 : Nat)) 4096 16 0x80000
  := (isRadix_kItoa_iff (.inr (.inr rfl)) _ _ _).mpr (.inl (by decide))

/-- The address `0x80000012` is printed as `E7FFFFFE`. -/
theorem not_isRadix_address :
  CString (kItoa ⟨fun _ => 0, []⟩ 4096 (0x80000012 : BitVec 32).toInt (16 : Nat)).byte 4096
      [69, 55, 70, 70, 70, 70, 70, 69]
    ∧ ¬ IsRadix (kItoa ⟨fun _ => 0, []⟩ 4096 (0x80000012 : BitVec 32).toInt (16 : Nat)) 4096 16
      0x80000012
  := by
  have hlow : lowDigits 16 2147483630 = [14, 14, 15, 15, 15, 15, 15, 7] := by norm_num [lowDigits]
  have hpattern : lowDigits 16 2147483666 = [2, 1, 0, 0, 0, 0, 0, 8] := by norm_num [lowDigits]
  have htext : itoaText (0x80000012 : BitVec 32).toInt 16 = [69, 55, 70, 70, 70, 70, 70, 69] := by
    change misplaced 16 2147483630 = _
    rw [misplaced, hlow]
    rfl
  have hnumeral : numeralOf 16 (0x80000012 : BitVec 32).toNat
      = [56, 48, 48, 48, 48, 48, 49, 50] := by
    change numeralOf 16 2147483666 = _
    rw [numeralOf, hpattern]
    rfl
  constructor
  · rw [← htext]
    exact (kItoa_string (by decide) _ _ _).1
  · rw [isRadix_kItoa (by decide), htext, hnumeral]
    decide

end Dmos.Klib
