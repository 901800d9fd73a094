import Dmos.Library.FirstFree
import Dmos.Library.Transition
import Dmos.Task.Gdt

/-!
# Selectors of the tasks

Tasks create tasks, each with a descriptor for its state segment: `gdt_alloc_desc` finds one
that is not in use, and the call of `segment_desc_set` after it puts it in use.  Each is one
step (the first holds a mutex), and between them other tasks run.  Who is given a selector
holds it until it is freed.

No two creations or tasks hold the same descriptor as long as at each allocation the
descriptors not yet set have a free one in front of them, and not a step longer
(`exclusive_desc_of_reachable`).
-/

open FirstFree TransitionSystem

namespace Dmos

/-- The descriptors, and the selector that each creation or task holds, with whether its
descriptor has been set. -/
structure Selectors (H : Type) where
  gdt : Gdt
  held : H → Option (Nat × Bool)

inductive SelectorEvent (H : Type) where
  /-- `gdt_alloc_desc` in `tss_init`. -/
  | alloc (h : H)
  /-- `segment_desc_set` in `tss_init`, for the segment at `base`. -/
  | set (h : H) (base : Nat)
  /-- `gdt_free_sel`, where `tss_init` has failed or the task is discarded. -/
  | free (h : H)

namespace Selectors

variable {H : Type} [DecidableEq H]

omit [DecidableEq H] in
def Enabled (s : Selectors H) : SelectorEvent H → Prop
  | .alloc h => s.held h = none
  | .set h _ => ∃ sel, s.held h = some (sel, false)
  | .free h => ∃ sel, s.held h = some (sel, true)

def next (s : Selectors H) : SelectorEvent H → Selectors H
  | .alloc h => { s with held := Function.update s.held h (some (gdtAllocDesc s.gdt, false)) }
  | .set h base =>
      match s.held h with
      | some (sel, _) =>
          { gdt := segmentDescSet s.gdt sel base 104 (segPPresent ||| segDpl0 ||| segTypeTss)
            held := Function.update s.held h (some (sel, true)) }
      | none => s
  | .free h =>
      match s.held h with
      | some (sel, _) =>
          { gdt := gdtFreeSel s.gdt sel, held := Function.update s.held h none }
      | none => s

/-- `h` holds the descriptor `i` of the table. -/
def Holds (s : Selectors H) (h : H) (i : Nat) : Prop :=
  ∃ set, s.held h = some (i * 8, set)

/-- No descriptor has two holders. -/
def Exclusive (s : Selectors H) : Prop :=
  FirstFree.Exclusive s.Holds

/-- When a descriptor is allocated, each one held and not set has a free one in front. -/
def Spare (s : Selectors H) (e : SelectorEvent H) : Prop :=
  ∀ h, e = .alloc h → ∀ h' i, s.held h' = some (i * 8, false) →
    ∃ j, 1 ≤ j ∧ j < i ∧ (s.gdt j).attr = 0

end Selectors

/-- The creations, from any table on. -/
def selectors (H : Type) [DecidableEq H] : TransitionSystem (Selectors H) (SelectorEvent H) where
  init s := ∀ h, s.held h = none
  step s e s' := s.Enabled e ∧ s' = s.next e

namespace Selectors

variable {H : Type} [DecidableEq H] {s : Selectors H} {e : SelectorEvent H} {h h' : H} {i : Nat}

/-! ### The table -/

/-- The descriptors that `gdt_alloc_desc` looks at. -/
def descs : List Nat :=
  List.range' 1 (gdtTableSize - 1)

theorem pairwise_descs :
  descs.Pairwise (· < ·)
  := List.pairwise_lt_range'

def used (gdt : Gdt) (i : Nat) : Bool :=
  (gdt i).attr ≠ 0

theorem gdtAllocDesc_eq (gdt : Gdt) :
  gdtAllocDesc gdt = match firstFree descs (used gdt) with
    | some i => i * 8
    | none => errorWord
  := by
  have hfind : (List.range' 1 (gdtTableSize - 1)).find? (fun i => (gdt i).attr = 0)
      = firstFree descs (used gdt) := by
    apply congrArg (fun p => List.find? p descs)
    funext i
    simp [used]
  exact congrArg (fun o : Option Nat => match o with | some i => i * 8 | none => errorWord) hfind

/-- The word that reports a full table names no descriptor of it. -/
theorem gdtAllocDesc_eq_iff (gdt : Gdt) (i : Nat) :
  gdtAllocDesc gdt = i * 8 ↔ firstFree descs (used gdt) = some i
  := by
  rw [gdtAllocDesc_eq]
  cases firstFree descs (used gdt) with
  | none =>
      have hword : errorWord ≠ i * 8 := by
        unfold errorWord
        omega
      simp [hword]
  | some j => simp

/-- The address of the word that reports a full table is outside of the table. -/
theorem errorWord_div_not_mem :
  errorWord / 8 ∉ descs
  := by
  rw [descs, List.mem_range']
  rintro ⟨j, hj, h⟩
  unfold errorWord gdtTableSize at *
  omega

theorem used_descSet (gdt : Gdt) (sel base i : Nat) :
  used (segmentDescSet gdt sel base 104 (segPPresent ||| segDpl0 ||| segTypeTss)) i
    = if i = sel / 8 then true else used gdt i
  := by
  have hindex : sel >>> 3 = sel / 8 := Nat.shiftRight_eq_div_pow sel 3
  rw [used, segmentDescSet, Function.update_apply, hindex]
  by_cases heq : i = sel / 8
  · rw [if_pos heq, if_pos heq]
    rfl
  · rw [if_neg heq, if_neg heq, used]

theorem used_freeSel (gdt : Gdt) (sel i : Nat) :
  used (gdtFreeSel gdt sel) i = if i = sel / 8 then false else used gdt i
  := by
  rw [used, gdtFreeSel, Function.update_apply]
  split_ifs
  · rfl
  · rfl

/-! ### Runs -/

/-- What the holders have: a descriptor of the table, in use once it has been set, or the
word that reports a full table. -/
structure Consistent (s : Selectors H) : Prop where
  exclusive : s.Exclusive
  sel : ∀ h sel set, s.held h = some (sel, set) →
    (∃ i ∈ descs, sel = i * 8 ∧ used s.gdt i = set) ∨ sel = errorWord

omit [DecidableEq H] in
theorem Consistent.holds (hs : s.Consistent) {set : Bool} (hheld : s.held h = some (i * 8, set)) :
  i ∈ descs ∧ used s.gdt i = set
  := by
  rcases hs.sel h _ _ hheld with ⟨j, hj, heq, hused⟩ | heq
  · rw [Nat.eq_of_mul_eq_mul_right (by decide) heq]
    use hj
  · unfold errorWord at heq
    omega

omit [DecidableEq H] in
theorem Consistent.mem (hs : s.Consistent) (hheld : s.Holds h i) :
  i ∈ descs
  := by
  obtain ⟨set, hheld⟩ := hheld
  apply (hs.holds hheld).1

omit [DecidableEq H] in
/-- The condition of the library on the entries that are not marked. -/
theorem Consistent.spare_iff (hs : s.Consistent) :
  FirstFree.Spare descs (used s.gdt) s.Holds ↔ s.Spare (.alloc h)
  := by
  have hdescs (j : Nat) : j ∈ descs ↔ 1 ≤ j ∧ j < 256 := by
    rw [descs, List.mem_range'_1]
    unfold gdtTableSize
    omega
  have hfree (j : Nat) : used s.gdt j = false ↔ (s.gdt j).attr = 0 := by
    simp [used]
  constructor
  · rintro hspare _ ⟨⟩ h' i hheld
    obtain ⟨-, hused⟩ := hs.holds hheld
    obtain ⟨j, hj, hlt, hmarked⟩ := hspare h' i ⟨false, hheld⟩ hused
    exact ⟨j, ((hdescs j).mp hj).1, hlt, (hfree j).mp hmarked⟩
  · rintro hspare h' i ⟨set, hheld⟩ hmarked
    obtain ⟨hi, hused⟩ := hs.holds hheld
    rw [hmarked] at hused
    subst hused
    obtain ⟨j, hj, hlt, hattr⟩ := hspare h rfl h' i hheld
    rw [hdescs] at hi
    exact ⟨j, (hdescs j).mpr (by omega), hlt, (hfree j).mpr hattr⟩

/-- An allocation keeps the descriptors apart exactly when it meets the condition. -/
theorem Consistent.exclusive_alloc_iff (hs : s.Consistent) (he : s.Enabled (.alloc h)) :
  (s.next (.alloc h)).Exclusive ↔ s.Spare (.alloc h)
  := by
  rw [← hs.spare_iff]
  apply exclusive_take_iff pairwise_descs (fun h i => hs.mem) hs.exclusive
  · rintro i ⟨set, hheld⟩
    rw [show s.held h = none from he] at hheld
    cases hheld
  · intro i
    rw [← gdtAllocDesc_eq_iff]
    simp [Holds, next]
  · intro h' i hne
    simp [Holds, next, hne]

/-- Setting or freeing a held descriptor changes nothing for the other holders. -/
theorem Consistent.replace (hs : s.Consistent) {sel : Nat} {set set' : Bool}
    (hheld : s.held h = some (sel, set)) {gdt : Gdt}
    (hused : ∀ i, used gdt i = if i = sel / 8 then set' else used s.gdt i)
    {new : Option (Nat × Bool)} (hnew : new = none ∨ new = some (sel, set')) :
  Consistent { gdt := gdt, held := Function.update s.held h new }
  := by
  constructor
  · apply Exclusive.mono hs.exclusive
    rintro h' i ⟨set₁, hheld₁⟩
    dsimp only at hheld₁
    rw [Function.update_apply] at hheld₁
    split_ifs at hheld₁ with heq
    · rcases hnew with rfl | rfl
      · cases hheld₁
      · cases hheld₁
        rw [heq]
        exact ⟨set, hheld⟩
    · exact ⟨set₁, hheld₁⟩
  · intro h' sel₁ set₁ hheld₁
    dsimp only at hheld₁ ⊢
    rw [Function.update_apply] at hheld₁
    split_ifs at hheld₁ with heq
    · rcases hnew with rfl | rfl
      · cases hheld₁
      · cases hheld₁
        rcases hs.sel h _ _ hheld with ⟨i, hi, hsel, -⟩ | hsel
        · left
          refine ⟨i, hi, hsel, ?_⟩
          rw [hused, if_pos]
          omega
        · right
          apply hsel
    · rcases hs.sel h' _ _ hheld₁ with ⟨i, hi, hsel, hset⟩ | hsel
      · left
        refine ⟨i, hi, hsel, ?_⟩
        rw [hused, if_neg, hset]
        -- the descriptor of the other holder is another one
        rintro rfl
        rcases hs.sel h _ _ hheld with ⟨j, hj, hsel', -⟩ | hsel'
        · apply heq
          apply hs.exclusive h' h j
          · refine ⟨set₁, ?_⟩
            rw [hheld₁, hsel, hsel', Nat.mul_div_cancel _ (by decide)]
          · refine ⟨set, ?_⟩
            rw [hheld, hsel']
        · rw [hsel'] at hi
          apply errorWord_div_not_mem hi
      · right
        apply hsel

theorem Consistent.next (hs : s.Consistent) (he : s.Enabled e) (hspare : s.Spare e) :
  (s.next e).Consistent
  := by
  cases e with
  | alloc h =>
      constructor
      · apply (hs.exclusive_alloc_iff he).mpr hspare
      · intro h' sel set hheld
        change Function.update s.held h (some (gdtAllocDesc s.gdt, false)) h' = some (sel, set)
          at hheld
        rw [Function.update_apply] at hheld
        split_ifs at hheld
        · cases hheld
          cases hfree : firstFree descs (used s.gdt) with
          | none =>
              right
              rw [gdtAllocDesc_eq, hfree]
          | some i =>
              left
              refine ⟨i, mem_of_firstFree hfree, ?_, marked_of_firstFree hfree⟩
              rw [gdtAllocDesc_eq, hfree]
        · apply hs.sel h' sel set hheld
  | set h base =>
      obtain ⟨sel, hheld⟩ := he
      rw [Selectors.next, hheld]
      apply hs.replace hheld (used_descSet s.gdt sel base) (.inr rfl)
  | free h =>
      obtain ⟨sel, hheld⟩ := he
      rw [Selectors.next, hheld]
      apply hs.replace hheld (used_freeSel s.gdt sel) (.inl rfl)

/-- In runs that meet the condition no descriptor has two holders, and a step that does not
meet it gives one to two. -/
theorem exclusive_desc_of_reachable
    (hs : ((selectors H).restrict Spare).Reachable (fun _ => True) s) :
  s.Exclusive ∧ ∀ e s', (selectors H).step s e s' → (s'.Exclusive ↔ s.Spare e)
  := by
  have hconsistent : s.Consistent := by
    apply hs.invariant
    · intro s hinit
      constructor
      · rintro h h' i ⟨set, hheld⟩
        rw [hinit h] at hheld
        cases hheld
      · intro h sel set hheld
        rw [hinit h] at hheld
        cases hheld
    · rintro s e _ hs - ⟨hspare, he, rfl⟩
      apply hs.next he hspare
  use hconsistent.exclusive
  rintro e _ ⟨he, rfl⟩
  cases e with
  | alloc h => apply hconsistent.exclusive_alloc_iff he
  | set h base =>
      have hspare : s.Spare (.set h base) := by
        rintro _ ⟨⟩
      exact iff_of_true (hconsistent.next he hspare).exclusive hspare
  | free h =>
      have hspare : s.Spare (.free h) := by
        rintro _ ⟨⟩
      exact iff_of_true (hconsistent.next he hspare).exclusive hspare

/-- The table with the descriptors in use that the kernel sets up, and no holders. -/
def booted : Selectors Bool where
  gdt i := { attr := if 1 ≤ i ∧ i ≤ 5 then segPPresent else 0 }
  held _ := none

theorem init_booted :
  (selectors Bool).init booted
  := fun _ => rfl

/-- A creation has a descriptor that is not set yet, and another task has freed the one in front of
it. -/
def freed : Selectors Bool :=
  (((booted.next (.alloc true)).next (.set true 4096)).next (.alloc false)).next (.free true)

theorem reachable_freed :
  ((selectors Bool).restrict Spare).Reachable (fun _ => True) freed
  := by
  have hinit : ((selectors Bool).restrict Spare).Reachable (fun _ => True) booted :=
    Reachable.init init_booted
  have halloc : ((selectors Bool).restrict Spare).Reachable (fun _ => True)
      (booted.next (.alloc true)) :=
    .step (a := .alloc true) hinit trivial ⟨fun _ _ _ _ hheld => (nomatch hheld), rfl, rfl⟩
  have hset : ((selectors Bool).restrict Spare).Reachable (fun _ => True)
      ((booted.next (.alloc true)).next (.set true 4096)) :=
    .step (a := .set true 4096) halloc trivial ⟨(by rintro _ ⟨⟩), ⟨_, rfl⟩, rfl⟩
  have hsecond : ((selectors Bool).restrict Spare).Reachable (fun _ => True)
      (((booted.next (.alloc true)).next (.set true 4096)).next (.alloc false)) := by
    apply Reachable.step (a := .alloc false) hset trivial
    refine ⟨?_, rfl, rfl⟩
    rintro _ - h i hheld
    have hset := congrArg (Option.map Prod.snd) hheld
    cases h <;> cases hset
  exact .step (a := .free true) hsecond trivial ⟨(by rintro _ ⟨⟩), ⟨_, rfl⟩, rfl⟩

/-- The first descriptor is given to another creation, while the second is not set. -/
theorem exclusive_desc_booted :
  freed.held false = some (7 * 8, false) ∧ (freed.next (.alloc true)).Exclusive
  := by
  have hspare : freed.Spare (.alloc true) := by
    rintro _ - h i hheld
    cases h
    · obtain rfl : i = 7 := by
        have hsel : 7 * 8 = i * 8 := congrArg Prod.fst (Option.some.inj hheld)
        omega
      exact ⟨6, by decide, by decide, by decide⟩
    · cases hheld
  exact ⟨rfl, ((exclusive_desc_of_reachable reachable_freed).2 (.alloc true) _
    ⟨rfl, rfl⟩).mpr hspare⟩

/-- Two creations that allocate one after the other are given the same descriptor. -/
theorem not_exclusive_desc_of_reachable :
  ¬ ∀ s, (selectors Bool).Reachable (fun _ => True) s → s.Exclusive
  := by
  intro h
  have hfirst : (selectors Bool).Reachable (fun _ => True) (booted.next (.alloc true)) :=
    Reachable.step (a := .alloc true) (Reachable.init init_booted) trivial ⟨rfl, rfl⟩
  have hreachable : (selectors Bool).Reachable (fun _ => True)
      ((booted.next (.alloc true)).next (.alloc false)) :=
    Reachable.step (a := .alloc false) hfirst trivial ⟨rfl, rfl⟩
  have heq := h _ hreachable true false 6 ⟨false, rfl⟩ ⟨false, rfl⟩
  cases heq

end Selectors

end Dmos
