import Dmos.Library.BitFields
import Dmos.Task.Gdt

/-!
# The layout of segment descriptors

A descriptor is eight bytes, with no padding between its members (`SegmentDesc.bytes`).  The
processor reads them as one word, in which the base and the limit are in several pieces, and in
which the attributes enclose the highest piece of the limit.  Limits from 1 MB on are in units of
4 kB.  What `segment_desc_set` is given is what the processor reads (`encodes_descSet`).
-/

open BitFields

namespace Dmos

abbrev segG : Nat := 1 <<< 15

/-- The members in the order of the declaration. -/
def SegmentDesc.bytes (d : SegmentDesc) : List UInt8 :=
  toBytes d.limit15_0 2 ++ (toBytes d.base15_0 2 ++ (toBytes d.base23_16 1
    ++ (toBytes d.attr 2 ++ toBytes d.base31_24 1)))

@[simp]
theorem SegmentDesc.length_bytes (d : SegmentDesc) :
  d.bytes.length = 8
  := by simp [bytes]

/-! ### What the processor reads -/

/-- The base address of the segment. -/
def segBase (w : Nat) : Nat :=
  field w 16 24 + 2 ^ 24 * field w 56 8

/-- The access byte, and the flags in place of the four highest bits. -/
def segAttr (w : Nat) : Nat :=
  field w 40 8 + 2 ^ 12 * field w 52 4

/-- The limit, in units of the granularity. -/
def segLimit (w : Nat) : Nat :=
  field w 0 16 + 2 ^ 16 * field w 48 4

/-- The offset of the last byte of the segment. -/
def segEffectiveLimit (w : Nat) : Nat :=
  if field w 55 1 = 1 then 2 ^ 12 * segLimit w + 0xfff else segLimit w

/-- The descriptor is one of a segment with the base, the limit and the attributes. -/
structure SegmentDesc.Encodes (d : SegmentDesc) (base limit attr : Nat) : Prop where
  base : segBase (ofBytes d.bytes) = base
  attr : segAttr (ofBytes d.bytes) = if 0xfffff < limit then attr ||| segG else attr
  limit : segEffectiveLimit (ofBytes d.bytes) = if limit ≤ 0xfffff then limit else limit ||| 0xfff

/-! ### Members -/

/-- The members fit. -/
structure SegmentDesc.Wf (d : SegmentDesc) : Prop where
  limit15_0 : d.limit15_0 < 2 ^ 16
  base15_0 : d.base15_0 < 2 ^ 16
  base23_16 : d.base23_16 < 2 ^ 8
  attr : d.attr < 2 ^ 16
  base31_24 : d.base31_24 < 2 ^ 8

namespace SegmentDesc.Wf

variable {d : SegmentDesc} (h : d.Wf) (lo : Nat) {n : Nat}

include h

theorem field_limit15_0 (hn : lo + n ≤ 16) :
  field (ofBytes d.bytes) lo n = field d.limit15_0 lo n
  := by rw [bytes, field_append_left (by simpa using hn), ofBytes_toBytes h.limit15_0]

theorem field_base15_0 (hn : lo + n ≤ 16) :
  field (ofBytes d.bytes) (16 + lo) n = field d.base15_0 lo n
  := by
  rw [bytes, field_append_right (by simp), field_append_left (by simpa using hn),
    ofBytes_toBytes h.base15_0]

theorem field_base23_16 (hn : lo + n ≤ 8) :
  field (ofBytes d.bytes) (32 + lo) n = field d.base23_16 lo n
  := by
  rw [bytes, show 32 + lo = 16 + (16 + lo) by omega, field_append_right (by simp),
    field_append_right (by simp), field_append_left (by simpa using hn),
    ofBytes_toBytes h.base23_16]

theorem field_attr (hn : lo + n ≤ 16) :
  field (ofBytes d.bytes) (40 + lo) n = field d.attr lo n
  := by
  rw [bytes, show 40 + lo = 16 + (16 + (8 + lo)) by omega, field_append_right (by simp),
    field_append_right (by simp), field_append_right (by simp),
    field_append_left (by simpa using hn), ofBytes_toBytes h.attr]

theorem field_base31_24 (n : Nat) :
  field (ofBytes d.bytes) (56 + lo) n = field d.base31_24 lo n
  := by
  rw [bytes, show 56 + lo = 16 + (16 + (8 + (16 + lo))) by omega, field_append_right (by simp),
    field_append_right (by simp), field_append_right (by simp), field_append_right (by simp),
    ofBytes_toBytes h.base31_24]

theorem segBase_eq :
  segBase (ofBytes d.bytes) = d.base15_0 + 2 ^ 16 * d.base23_16 + 2 ^ 24 * d.base31_24
  := by
  have hlow : field (ofBytes d.bytes) 16 16 = field d.base15_0 0 16 :=
    h.field_base15_0 0 (by decide)
  have hmiddle : field (ofBytes d.bytes) 32 8 = field d.base23_16 0 8 :=
    h.field_base23_16 0 (by decide)
  have hhigh : field (ofBytes d.bytes) 56 8 = field d.base31_24 0 8 := h.field_base31_24 0 8
  rw [field_all h.base15_0] at hlow
  rw [field_all h.base23_16] at hmiddle
  rw [field_all h.base31_24] at hhigh
  rw [segBase, ← field_add _ 16 16 8, hlow, hmiddle, hhigh]

theorem segAttr_eq :
  segAttr (ofBytes d.bytes) = field d.attr 0 8 + 2 ^ 12 * field d.attr 12 4
  := by
  rw [segAttr, ← h.field_attr 0 (by decide), ← h.field_attr 12 (by decide)]

theorem segLimit_eq :
  segLimit (ofBytes d.bytes) = d.limit15_0 + 2 ^ 16 * field d.attr 8 4
  := by
  rw [segLimit, h.field_limit15_0 0 (by decide), field_all h.limit15_0,
    ← h.field_attr 8 (by decide)]

theorem segEffectiveLimit_eq :
  segEffectiveLimit (ofBytes d.bytes)
    = if field d.attr 15 1 = 1 then 2 ^ 12 * segLimit (ofBytes d.bytes) + 0xfff
      else segLimit (ofBytes d.bytes)
  := by rw [segEffectiveLimit, ← h.field_attr 15 (by decide)]

end SegmentDesc.Wf

/-! ### Setting a descriptor -/

section Set

variable {limit attr : Nat}

/-- The limit in the units that it is stored in. -/
def limitUnits (limit : Nat) : Nat :=
  if 0xfffff < limit then limit / 0x1000 else limit

/-- The attributes with the granularity of the limit. -/
def attrUnits (limit attr : Nat) : Nat :=
  if 0xfffff < limit then attr ||| segG else attr

theorem limitUnits_lt (h : limit < 2 ^ 32) :
  limitUnits limit < 2 ^ 20
  := by
  unfold limitUnits
  split_ifs <;> omega

/-- The members are fields of what is stored. -/
theorem descSet_self (gdt : Gdt) (selector base limit attr : Nat) :
  segmentDescSet gdt selector base limit attr (selector >>> 3) =
    { limit15_0 := field (limitUnits limit) 0 16
      base15_0 := field base 0 16
      base23_16 := field base 16 8
      attr := attrUnits limit attr ||| (field (limitUnits limit) 16 4 <<< 8)
      base31_24 := field base 24 8 }
  := by
  simp only [segmentDescSet, Function.update_self, field_eq_and, Nat.shiftRight_zero]
  rfl

theorem descSet_of_ne (gdt : Gdt) (selector base limit attr : Nat) {i : Nat}
    (h : i ≠ selector >>> 3) :
  segmentDescSet gdt selector base limit attr i = gdt i
  := Function.update_of_ne h _ _

theorem attrUnits_lt (h : attr < 2 ^ 16) :
  attrUnits limit attr < 2 ^ 16
  := by
  unfold attrUnits
  split_ifs
  · apply Nat.or_lt_two_pow h
    decide
  · apply h

theorem wf_descSet (gdt : Gdt) (selector base limit : Nat) (h : attr < 2 ^ 16) :
  (segmentDescSet gdt selector base limit attr (selector >>> 3)).Wf
  := by
  rw [descSet_self]
  constructor
  · apply field_lt
  · apply field_lt
  · apply field_lt
  · apply Nat.or_lt_two_pow (attrUnits_lt h)
    have hlimit := field_lt (limitUnits limit) 16 4
    rw [Nat.shiftLeft_eq]
    omega
  · apply field_lt

/-- The attributes are those that the members tell. -/
theorem attr_fields (h : attr < 2 ^ 16) (hclear : field attr 8 4 = 0) :
  field attr 0 8 + 2 ^ 12 * field attr 12 4 = attr
  := by
  have hhigh : field attr 8 4 + 2 ^ 4 * field attr 12 4 = field attr 8 8 := field_add attr 8 4 4
  have hall : field attr 0 8 + 2 ^ 8 * field attr 8 8 = field attr 0 16 := field_add attr 0 8 8
  rw [hclear] at hhigh
  rw [field_all h, ← hhigh] at hall
  omega

section Clear

variable (hclear : attr &&& 0x8f00 = 0)

include hclear

/-- The bits of the limit's highest piece stay clear. -/
theorem attrUnits_clear :
  field (attrUnits limit attr) 8 4 = 0
  := by
  have hpiece : field attr 8 4 = 0 := field_of_and hclear (by decide)
  unfold attrUnits
  split_ifs
  · rw [field_or, hpiece]
    rfl
  · apply hpiece

theorem attrUnits_granularity :
  field (attrUnits limit attr) 15 1 = if 0xfffff < limit then 1 else 0
  := by
  have hbit : field attr 15 1 = 0 := field_of_and hclear (by decide)
  unfold attrUnits
  split_ifs
  · rw [field_or, hbit]
    rfl
  · apply hbit

end Clear

end Set

/-- The highest piece of the limit among the attributes. -/
theorem field_or_piece {a x lo n : Nat} (hx : x < 2 ^ 4) (hout : lo + n ≤ 8 ∨ 12 ≤ lo) :
  field (a ||| x <<< 8) lo n = field a lo n
  := by
  have hzero : field (x <<< 8) lo n = 0 := by
    rcases hout with hbelow | habove
    · apply field_shift_below hbelow
    · obtain ⟨c, rfl⟩ := Nat.exists_eq_add_of_le habove
      rw [show 12 + c = 8 + (4 + c) by omega, field_shift]
      apply field_of_lt
      apply hx.trans_le
      apply Nat.pow_le_pow_right (by decide) (by omega)
  rw [field_or, hzero, Nat.or_zero]

/-- A limit whose low bits are not stored is read with these bits set. -/
theorem limit_low_set (limit : Nat) :
  2 ^ 12 * (limit / 0x1000) + 0xfff = limit ||| 0xfff
  := by
  have hlow : limit % 2 ^ 12 ||| 0xfff = 0xfff := by
    apply Nat.eq_of_testBit_eq
    intro i
    rw [Nat.testBit_or, Nat.testBit_mod_two_pow, show 0xfff = 2 ^ 12 - 1 from rfl,
      Nat.testBit_two_pow_sub_one]
    by_cases hi : i < 12
    · simp [hi]
    · simp [hi]
  have hsplit := Nat.two_pow_add_eq_or_of_lt (show limit % 2 ^ 12 < 2 ^ 12 from Nat.mod_lt _ (by decide))
    (limit / 2 ^ 12)
  rw [Nat.div_add_mod] at hsplit
  calc 2 ^ 12 * (limit / 0x1000) + 0xfff = 2 ^ 12 * (limit / 2 ^ 12) ||| 0xfff :=
        Nat.two_pow_add_eq_or_of_lt (by decide) _
    _ = 2 ^ 12 * (limit / 2 ^ 12) ||| (limit % 2 ^ 12 ||| 0xfff) := by rw [hlow]
    _ = limit ||| 0xfff := by rw [← Nat.or_assoc, ← hsplit]

theorem encodes_descSet (gdt : Gdt) (selector : Nat) {base limit attr : Nat} (hbase : base < 2 ^ 32)
    (hlimit : limit < 2 ^ 32) (hattr : attr < 2 ^ 16) (hclear : attr &&& 0x8f00 = 0) :
  (segmentDescSet gdt selector base limit attr (selector >>> 3)).Encodes base limit attr
  := by
  have hwf := wf_descSet gdt selector base limit hattr
  have hunits := limitUnits_lt hlimit
  have hpiece := field_lt (limitUnits limit) 16 4
  have hread : segLimit (ofBytes (segmentDescSet gdt selector base limit attr (selector >>> 3)).bytes)
      = limitUnits limit := by
    rw [hwf.segLimit_eq, descSet_self]
    dsimp only
    rw [field_or, attrUnits_clear hclear, Nat.zero_or, field_shift _ 8 0 4, field_all hpiece,
      field_add _ 0 16 4, field_all hunits]
  constructor
  · rw [hwf.segBase_eq, descSet_self]
    dsimp only
    rw [field_add _ 0 16 8, field_add _ 0 24 8, field_all hbase]
  · rw [hwf.segAttr_eq, descSet_self]
    dsimp only
    rw [field_or_piece hpiece (.inl (by decide)), field_or_piece hpiece (.inr (by decide)),
      attr_fields (attrUnits_lt hattr) (attrUnits_clear hclear), attrUnits]
  · rw [hwf.segEffectiveLimit_eq, hread, descSet_self]
    dsimp only
    rw [field_or_piece hpiece (.inr (by decide)), attrUnits_granularity hclear, limitUnits]
    by_cases hbig : 0xfffff < limit
    · rw [if_pos hbig, if_pos rfl, if_pos hbig, if_neg (by omega), limit_low_set]
    · rw [if_neg hbig, if_neg (by decide), if_neg hbig, if_pos (by omega)]

/-- A descriptor with attributes is in use. -/
theorem attr_descSet_ne_zero (gdt : Gdt) (selector base limit : Nat) {attr : Nat} (h : attr ≠ 0) :
  (segmentDescSet gdt selector base limit attr (selector >>> 3)).attr ≠ 0
  := by
  rw [descSet_self, attrUnits]
  dsimp only
  split_ifs
  · simp [h]
  · simp [h]

/-- The processor reads what `segment_desc_set` was given, no other descriptor changes, and the
descriptor is in use unless it was given no attributes. -/
theorem segment_encoded (gdt : Gdt) (selector : Nat) (base limit : UInt32) (attr : UInt16)
    (hclear : attr.toNat &&& 0x8f00 = 0) :
  (segmentDescSet gdt selector base.toNat limit.toNat attr.toNat (selector >>> 3)).Encodes
      base.toNat limit.toNat attr.toNat
    ∧ (∀ i, i ≠ selector >>> 3 →
      segmentDescSet gdt selector base.toNat limit.toNat attr.toNat i = gdt i)
    ∧ ∀ attr' : UInt16, attr' ≠ 0 →
      (segmentDescSet gdt selector base.toNat limit.toNat attr'.toNat (selector >>> 3)).attr ≠ 0
  := by
  refine ⟨?_, ?_, ?_⟩
  · apply encodes_descSet gdt selector base.toNat_lt limit.toNat_lt attr.toNat_lt hclear
  · intro i hi
    apply descSet_of_ne gdt selector _ _ _ hi
  · intro attr' hne
    apply attr_descSet_ne_zero
    intro hzero
    apply hne
    apply UInt16.toNat_inj.mp hzero

/-- The code segment of tasks, but with a base. -/
theorem segment_encoded_code :
  (segmentDescSet (fun _ => {}) 0x20 0x12345678 0xffffffff 0x40fa 4).Encodes
    0x12345678 0xffffffff 0x40fa
  := (segment_encoded (fun _ => {}) 0x20 0x12345678 0xffffffff 0x40fa (by decide)).1

end Dmos
