import Dmos.Task.DescLayout
import Dmos.Task.Fork
import Dmos.Task.Selectors

/-!
# Gates

A gate is a descriptor of eight bytes that names a place in the code rather than a segment.  What
`gate_desc_set` is given is what the processor reads (`gate_gateDescSet`).  The gate of the system
calls stands among the segment descriptors, whose members are other pieces of the same eight bytes
(`SegmentDesc.ofBytes`); it is the fourth entry of the table that `gdt_init` sets up
(`gate_gdtInit`).

Tasks that are created and discarded take and free descriptors of this table.  Those of the kernel
stay as they are, in whatever order tasks do so and when the table is full
(`kernelDescs_of_run`).
-/

open BitFields

namespace Dmos

structure GateDesc where
  offset15_0 : Nat
  selector : Nat
  attr : Nat
  offset31_16 : Nat

abbrev gatePPresent : Nat := 1 <<< 15

abbrev gateDpl0 : Nat := 0 <<< 13

abbrev gateDpl3 : Nat := 3 <<< 13

abbrev gateTypeIdt : Nat := 0xE <<< 8

abbrev gateTypeSyscall : Nat := 0xC <<< 8

abbrev selectorSyscall : Nat := 3 * 8

abbrev segSNormal : Nat := 1 <<< 4

abbrev segTypeCode : Nat := 1 <<< 3

abbrev segTypeData : Nat := 0 <<< 3

abbrev segTypeRw : Nat := 1 <<< 1

abbrev segD : Nat := 1 <<< 14

def gateDescSet (selector offset attr : Nat) : GateDesc where
  offset15_0 := offset &&& 0xffff
  selector := selector
  attr := attr
  offset31_16 := (offset >>> 16) &&& 0xffff

/-- The members in the order of the declaration. -/
def GateDesc.bytes (d : GateDesc) : List UInt8 :=
  toBytes d.offset15_0 2 ++ (toBytes d.selector 2 ++ (toBytes d.attr 2 ++ toBytes d.offset31_16 2))

@[simp]
theorem GateDesc.length_bytes (d : GateDesc) :
  d.bytes.length = 8
  := by simp [bytes]

/-! ### What the processor reads -/

/-- A gate as the processor takes it. -/
structure Gate where
  offset : Nat
  selector : Nat
  paramCount : Nat
  type : Nat
  dpl : Nat
  present : Nat
  deriving DecidableEq

/-- The gate in a word of eight bytes. -/
def Gate.ofWord (w : Nat) : Gate where
  offset := field w 0 16 + 2 ^ 16 * field w 48 16
  selector := field w 16 16
  paramCount := field w 32 5
  type := field w 40 5
  dpl := field w 45 2
  present := field w 47 1

/-- The members fit. -/
structure GateDesc.Wf (d : GateDesc) : Prop where
  offset15_0 : d.offset15_0 < 2 ^ 16
  selector : d.selector < 2 ^ 16
  attr : d.attr < 2 ^ 16
  offset31_16 : d.offset31_16 < 2 ^ 16

/-- The members next to each other. -/
theorem GateDesc.Wf.word {d : GateDesc} (h : d.Wf) :
  ofBytes d.bytes
    = d.offset15_0 + 2 ^ 16 * (d.selector + 2 ^ 16 * (d.attr + 2 ^ 16 * d.offset31_16))
  := by
  simp only [GateDesc.bytes, ofBytes_append, length_toBytes]
  rw [ofBytes_toBytes (n := 2) h.offset15_0, ofBytes_toBytes (n := 2) h.selector,
    ofBytes_toBytes (n := 2) h.attr, ofBytes_toBytes (n := 2) h.offset31_16]

theorem GateDesc.Wf.ofWord {d : GateDesc} (h : d.Wf) :
  Gate.ofWord (ofBytes d.bytes) =
    { offset := d.offset15_0 + 2 ^ 16 * d.offset31_16
      selector := d.selector
      paramCount := field d.attr 0 5
      type := field d.attr 8 5
      dpl := field d.attr 13 2
      present := field d.attr 15 1 }
  := by
  have hattr (lo n : Nat) (hn : lo + n ≤ 16) :
      field (ofBytes d.bytes) (16 + (16 + lo)) n = field d.attr lo n := by
    rw [h.word, field_high h.offset15_0, field_high h.selector, field_low hn]
  have hlow : field (ofBytes d.bytes) 0 16 = d.offset15_0 := by
    rw [h.word, field_low (le_refl 16), field_all h.offset15_0]
  have hselector : field (ofBytes d.bytes) (16 + 0) 16 = d.selector := by
    rw [h.word, field_high h.offset15_0, field_low (le_refl 16), field_all h.selector]
  have hhigh : field (ofBytes d.bytes) (16 + (16 + (16 + 0))) 16 = d.offset31_16 := by
    rw [h.word, field_high h.offset15_0, field_high h.selector, field_high h.attr,
      field_all h.offset31_16]
  have hcount := hattr 0 5 (by decide)
  have htype := hattr 8 5 (by decide)
  have hdpl := hattr 13 2 (by decide)
  have hpresent := hattr 15 1 (by decide)
  simp only [Nat.reduceAdd] at hselector hhigh hcount htype hdpl hpresent
  rw [Gate.ofWord, hlow, hselector, hhigh, hcount, htype, hdpl, hpresent]

theorem gateDescSet_eq (selector offset attr : Nat) :
  gateDescSet selector offset attr =
    { offset15_0 := field offset 0 16
      selector := selector
      attr := attr
      offset31_16 := field offset 16 16 }
  := by
  simp only [gateDescSet, field_eq_and, Nat.shiftRight_zero]
  rfl

/-- The processor reads what `gate_desc_set` was given. -/
theorem gate_gateDescSet {selector offset attr : Nat} (hselector : selector < 2 ^ 16)
    (hoffset : offset < 2 ^ 32) (hattr : attr < 2 ^ 16) :
  Gate.ofWord (ofBytes (gateDescSet selector offset attr).bytes) =
    { offset := offset
      selector := selector
      paramCount := field attr 0 5
      type := field attr 8 5
      dpl := field attr 13 2
      present := field attr 15 1 }
  := by
  have hsum := field_add offset 0 16 16
  rw [field_all hoffset] at hsum
  have hwf : (gateDescSet selector offset attr).Wf := by
    rw [gateDescSet_eq]
    exact ⟨field_lt _ _ _, hselector, hattr, field_lt _ _ _⟩
  rw [hwf.ofWord, gateDescSet_eq]
  simp only [Gate.mk.injEq, and_true]
  exact hsum

/-! ### Gates among segment descriptors -/

/-- The segment descriptor with these bytes. -/
def SegmentDesc.ofBytes (bs : List UInt8) : SegmentDesc where
  limit15_0 := field (BitFields.ofBytes bs) 0 16
  base15_0 := field (BitFields.ofBytes bs) 16 16
  base23_16 := field (BitFields.ofBytes bs) 32 8
  attr := field (BitFields.ofBytes bs) 40 16
  base31_24 := field (BitFields.ofBytes bs) 56 8

theorem SegmentDesc.ofBytes_bytes {bs : List UInt8} (h : bs.length = 8) :
  BitFields.ofBytes (SegmentDesc.ofBytes bs).bytes = BitFields.ofBytes bs
  := by
  have hlt := ofBytes_lt bs
  rw [h] at hlt
  have h₁ := field_add (BitFields.ofBytes bs) 0 16 16
  have h₂ := field_add (BitFields.ofBytes bs) 0 32 8
  have h₃ := field_add (BitFields.ofBytes bs) 0 40 16
  have h₄ := field_add (BitFields.ofBytes bs) 0 56 8
  simp only [Nat.reduceAdd, Nat.reduceMul] at h₁ h₂ h₃ h₄ hlt
  rw [field_all hlt] at h₄
  simp only [SegmentDesc.bytes, SegmentDesc.ofBytes, ofBytes_append, length_toBytes]
  rw [ofBytes_toBytes (n := 2) (field_lt _ _ _), ofBytes_toBytes (n := 2) (field_lt _ _ _),
    ofBytes_toBytes (n := 1) (field_lt _ _ _), ofBytes_toBytes (n := 2) (field_lt _ _ _),
    ofBytes_toBytes (n := 1) (field_lt _ _ _)]
  simp only [Nat.reduceMul]
  omega

/-- `gdt_init`, with `entry` the address of `exception_handle_syscall`. -/
def gdtInit (gdt : Gdt) (entry : Nat) : Gdt :=
  let gdt := (List.range gdtTableSize).foldl (fun gdt i => segmentDescSet gdt (i * 8) 0 0 0) gdt
  let gdt := segmentDescSet gdt kernelSelectorDs 0 0xFFFFFFFF
    (segPPresent ||| segDpl0 ||| segSNormal ||| segTypeData ||| segTypeRw ||| segD ||| segG)
  let gdt := segmentDescSet gdt kernelSelectorCs 0 0xFFFFFFFF
    (segPPresent ||| segDpl0 ||| segSNormal ||| segTypeCode ||| segTypeRw ||| segD ||| segG)
  Function.update gdt (selectorSyscall >>> 3)
    (.ofBytes (gateDescSet kernelSelectorCs entry
      (gatePPresent ||| gateDpl3 ||| gateTypeSyscall ||| syscallParamCount)).bytes)

/-! ### The descriptors of the kernel -/

/-- The gate at an entry of the table. -/
def gateAt (gdt : Gdt) (i : Nat) : Gate :=
  .ofWord (ofBytes (gdt i).bytes)

/-- The gate that leads a task from its code to `exception_handle_syscall`. -/
def syscallGate (entry : Nat) : Gate where
  offset := entry
  selector := kernelSelectorCs
  paramCount := syscallParamCount
  type := 0xC
  dpl := 3
  present := 1

/-- The segments of the kernel and the gate of the system calls are in their places. -/
structure KernelDescs (gdt : Gdt) (entry : Nat) : Prop where
  code : (gdt 1).Encodes 0 0xFFFFFFFF 0xC09A
  data : (gdt 2).Encodes 0 0xFFFFFFFF 0xC092
  gate : gateAt gdt 3 = syscallGate entry
  used : ∀ i, 1 ≤ i → i ≤ 3 → DescUsed gdt i

theorem gdtInit_of_ne (gdt : Gdt) (entry : Nat) {i : Nat} (h : i ≠ 3) :
  gdtInit gdt entry i
    = segmentDescSet (segmentDescSet
        ((List.range gdtTableSize).foldl (fun gdt i => segmentDescSet gdt (i * 8) 0 0 0) gdt)
        kernelSelectorDs 0 0xFFFFFFFF 0xC092) kernelSelectorCs 0 0xFFFFFFFF 0xC09A i
  := Function.update_of_ne h _ _

theorem gate_gdtInit (gdt : Gdt) {entry : Nat} (h : entry < 2 ^ 32) :
  gateAt (gdtInit gdt entry) 3 = syscallGate entry
  := by
  rw [gateAt, gdtInit, show selectorSyscall >>> 3 = 3 from rfl, Function.update_self,
    SegmentDesc.ofBytes_bytes (GateDesc.length_bytes _),
    gate_gateDescSet (by decide) h (by decide)]
  rfl

/-- A descriptor that is a present gate is in use. -/
theorem attr_ne_of_present {bs : List UInt8} (h : field (BitFields.ofBytes bs) 47 1 = 1) :
  (SegmentDesc.ofBytes bs).attr ≠ 0
  := by
  intro hzero
  have hattr : field (BitFields.ofBytes bs) 40 16 = 0 := hzero
  have hhigh := field_add (BitFields.ofBytes bs) 40 7 9
  have hlow := field_add (BitFields.ofBytes bs) 47 1 8
  simp only [Nat.reduceAdd] at hhigh hlow
  omega

theorem kernelDescs_gdtInit (gdt : Gdt) {entry : Nat} (h : entry < 2 ^ 32) :
  KernelDescs (gdtInit gdt entry) entry
  := by
  have hcode : gdtInit gdt entry 1 = ⟨0xFFFF, 0, 0, 0xCF9A, 0⟩ := by
    rw [gdtInit_of_ne gdt entry (by decide)]
    exact descSet_self _ kernelSelectorCs 0 0xFFFFFFFF 0xC09A
  have hdata : gdtInit gdt entry 2 = ⟨0xFFFF, 0, 0, 0xCF92, 0⟩ := by
    rw [gdtInit_of_ne gdt entry (by decide), descSet_of_ne _ _ _ _ _ (by decide)]
    exact descSet_self _ kernelSelectorDs 0 0xFFFFFFFF 0xC092
  have hgate := gate_gdtInit gdt h
  constructor
  · rw [hcode]
    exact ⟨by decide, by decide, by decide⟩
  · rw [hdata]
    exact ⟨by decide, by decide, by decide⟩
  · apply hgate
  · intro i hi hi'
    obtain rfl | rfl | rfl : i = 1 ∨ i = 2 ∨ i = 3 := by omega
    · exact ⟨by decide, by rw [hcode]; decide⟩
    · exact ⟨by decide, by rw [hdata]; decide⟩
    · refine ⟨by decide, ?_⟩
      have hpresent := congrArg Gate.present hgate
      apply attr_ne_of_present
      rw [← SegmentDesc.ofBytes_bytes (GateDesc.length_bytes _)]
      exact hpresent

/-- The kernel's descriptors depend on three entries. -/
theorem KernelDescs.congr {gdt' : Gdt} {entry : Nat} (h : KernelDescs gdt entry)
    (hsame : ∀ i, 1 ≤ i → i ≤ 3 → gdt' i = gdt i) :
  KernelDescs gdt' entry
  where
  code := by
    rw [hsame 1 (by decide) (by decide)]
    exact h.code
  data := by
    rw [hsame 2 (by decide) (by decide)]
    exact h.data
  gate := by
    rw [gateAt, hsame 3 (by decide) (by decide)]
    exact h.gate
  used i hi hi' := by
    rw [DescUsed, hsame i hi hi']
    exact h.used i hi hi'

/-! ### Tasks that take descriptors -/

namespace Selectors

variable {H : Type} [DecidableEq H] {s₀ s : Selectors H} {gdt : Gdt} {I : Set Nat}

/-- The descriptors in `I` are as in a given table, and nobody holds them. -/
structure Fixed (gdt : Gdt) (I : Set Nat) (s : Selectors H) : Prop where
  entries : ∀ i ∈ I, s.gdt i = gdt i
  unheld : ∀ h sel set, s.held h = some (sel, set) → sel / 8 ∉ I

/-- Descriptors in use that nobody holds stay so. -/
theorem Fixed.next (hused : ∀ i ∈ I, DescUsed gdt i) (hfixed : Fixed gdt I s)
    (e : SelectorEvent H) :
  Fixed gdt I (s.next e)
  := by
  have hupdate (h : H) (p : Nat × Bool) (hp : p.1 / 8 ∉ I) :
      ∀ h' sel set, Function.update s.held h (some p) h' = some (sel, set) → sel / 8 ∉ I := by
    intro h' sel set hheld
    by_cases heq : h' = h
    · rw [heq, Function.update_self, Option.some.injEq] at hheld
      rw [hheld] at hp
      exact hp
    · rw [Function.update_of_ne heq] at hheld
      exact hfixed.unheld h' sel set hheld
  have hshift (sel : Nat) : sel >>> 3 = sel / 8 := Nat.shiftRight_eq_div_pow sel 3
  cases e with
  | alloc h =>
      refine ⟨hfixed.entries, hupdate h _ ?_⟩
      intro hin
      apply gdtAllocDesc_unused s.gdt
      have hentry := hused _ hin
      rwa [DescUsed, ← hfixed.entries _ hin] at hentry
  | set h base =>
      rw [Selectors.next]
      rcases hheld : s.held h with _ | ⟨sel, set⟩
      · exact hfixed
      · have hsel := hfixed.unheld h sel set hheld
        refine ⟨fun i hi => ?_, hupdate h _ hsel⟩
        dsimp only
        rw [descSet_of_ne, hfixed.entries i hi]
        rintro rfl
        rw [hshift] at hi
        exact hsel hi
  | free h =>
      rw [Selectors.next]
      rcases hheld : s.held h with _ | ⟨sel, set⟩
      · exact hfixed
      · have hsel := hfixed.unheld h sel set hheld
        refine ⟨fun i hi => ?_, fun h' sel' set' hheld' => ?_⟩
        · dsimp only
          rw [gdtFreeSel, Function.update_of_ne, hfixed.entries i hi]
          rintro rfl
          exact hsel hi
        · dsimp only at hheld'
          by_cases heq : h' = h
          · rw [heq, Function.update_self] at hheld'
            cases hheld'
          · rw [Function.update_of_ne heq] at hheld'
            exact hfixed.unheld h' sel' set' hheld'

/-- While tasks are created and discarded in any order, the descriptors of the kernel stay as they
are, and no task is given one of them. -/
theorem kernelDescs_of_run {es : List (SelectorEvent H)} {entry : Nat}
    (hnone : ∀ h, s₀.held h = none) (hdescs : KernelDescs s₀.gdt entry)
    (hrun : (selectors H).Run s₀ es s) :
  KernelDescs s.gdt entry ∧ ∀ h i, s.Holds h i → ¬ (1 ≤ i ∧ i ≤ 3)
  := by
  have hfixed : Fixed s₀.gdt (Set.Icc 1 3) s := by
    apply hrun.invariant (I := Fixed s₀.gdt (Set.Icc 1 3))
    · rintro s e s' - hs ⟨-, rfl⟩
      exact hs.next (fun i hi => hdescs.used i hi.1 hi.2) e
    · refine ⟨fun _ _ => rfl, fun h sel set hheld => ?_⟩
      rw [hnone] at hheld
      cases hheld
  refine ⟨hdescs.congr fun i hi hi' => hfixed.entries i ⟨hi, hi'⟩, ?_⟩
  rintro h i ⟨set, hheld⟩ hi
  apply hfixed.unheld h _ set hheld
  rw [Nat.mul_div_cancel _ (by decide)]
  exact hi

/-- Two tasks are given a descriptor, and one of them is discarded. -/
theorem kernelDescs_of_run_gdtInit :
  ∃ s, (selectors Bool).Run ⟨gdtInit (fun _ => {}) 0x10000, fun _ => none⟩
      [.alloc true, .set true 4096, .alloc false, .set false 8192, .free true] s
    ∧ KernelDescs s.gdt 0x10000
  := by
  have hrun : (selectors Bool).Run ⟨gdtInit (fun _ => {}) 0x10000, fun _ => none⟩
      [.alloc true, .set true 4096, .alloc false, .set false 8192, .free true] _ :=
    .cons ⟨rfl, rfl⟩ (.cons ⟨⟨_, rfl⟩, rfl⟩ (.cons ⟨rfl, rfl⟩ (.cons ⟨⟨_, rfl⟩, rfl⟩
      (.cons ⟨⟨_, rfl⟩, rfl⟩ .nil))))
  exact ⟨_, hrun, (kernelDescs_of_run (fun _ => rfl)
    (kernelDescs_gdtInit _ (by decide)) hrun).1⟩

end Selectors

end Dmos
