import Mathlib.Logic.Function.Basic
import Mathlib.Data.List.Nodup

/-!
# Building an address space from a free list

An address space assigns entries to pages through tables; the table of a page is given by
its index.  Mapping a page takes a frame for the page off the free list, and one for its
table if the table is not there yet.  `mapAll` maps pages one after the other and stops
at the first request for a frame that cannot be served.

`requests` lists the frames a sequence of pages asks for, in order.  The first request
beyond the length of the free list is the one `mapAll` fails at (`mapAll_fst`).
-/

namespace AddressSpace

/-- What a frame is asked for. -/
inductive Request where
  | page
  | table
  deriving DecidableEq

/-- The free frames in the order they are handed out, the tables by index, and the entry
of each page. -/
structure Space (V I F E : Type) where
  free : List F
  table : I → Option F
  entry : V → E

variable {V I F E : Type} [DecidableEq V] [DecidableEq I] (index : V → I)

/-- Map page `v` to a fresh frame `f` by the entry `e f`.  The first component is the
request that could not be served, if any. -/
def Space.map (a : Space V I F E) (v : V) (e : F → E) : Option Request × Space V I F E :=
  match a.free with
  | [] => (some .page, a)
  | f :: rest =>
      match a.table (index v) with
      | some _ => (none, { a with free := rest, entry := Function.update a.entry v (e f) })
      | none =>
          match rest with
          | [] => (some .table, { a with free := [] })
          | t :: rest =>
              (none, {
                free := rest
                table := Function.update a.table (index v) (some t)
                entry := Function.update a.entry v (e f) })

/-- Map pages in order, up to the first request that cannot be served. -/
def Space.mapAll : List (V × (F → E)) → Space V I F E → Option Request × Space V I F E
  | [], a => (none, a)
  | (v, e) :: vs, a =>
      match a.map index v e with
      | (none, a') => mapAll vs a'
      | (some r, a') => (some r, a')

/-- The frames asked for by mapping pages in order, where `has i` tells whether the table
at index `i` is there already. -/
def requests (has : I → Bool) : List V → List Request
  | [] => []
  | v :: vs =>
      if has (index v) then .page :: requests has vs
      else .page :: .table :: requests (fun i => i = index v || has i) vs

omit [DecidableEq V] in
theorem length_requests_le (has : I → Bool) (vs : List V) :
  (requests index has vs).length ≤ 2 * vs.length
  := by
  induction vs generalizing has with
  | nil => apply Nat.le_refl
  | cons v vs ih =>
      rw [requests, List.length_cons]
      split_ifs
      · have hrest := ih has
        rw [List.length_cons]
        omega
      · have hrest := ih fun i => i = index v || has i
        rw [List.length_cons, List.length_cons]
        omega

omit [DecidableEq V] in
/-- Pages of a table that is there ask for frames of their own only. -/
theorem requests_of_table {has : I → Bool} {i : I} (hi : has i = true) {vs : List V}
    (h : ∀ v ∈ vs, index v = i) :
  requests index has vs = List.replicate vs.length .page
  := by
  induction vs with
  | nil => rfl
  | cons v vs ih =>
      rw [requests, h v List.mem_cons_self, if_pos hi, ih]
      · rfl
      · intro w hw
        apply h w (List.mem_cons_of_mem v hw)

omit [DecidableEq V] in
/-- Pages of one table that is not there ask for it once. -/
theorem requests_of_no_table {has : I → Bool} {i : I} (hi : has i = false) {v : V} {vs : List V}
    (h : ∀ w ∈ v :: vs, index w = i) :
  requests index has (v :: vs) = .page :: .table :: List.replicate vs.length .page
  := by
  have hv := h v List.mem_cons_self
  rw [requests, hv, hi, if_neg (by decide), requests_of_table index (i := i)]
  · simp
  · intro w hw
    apply h w (List.mem_cons_of_mem v hw)

variable {index}

/-! ### One page -/

theorem Space.map_of_free_nil {a : Space V I F E} (h : a.free = []) (v : V) (e : F → E) :
  a.map index v e = (some .page, a)
  := by
  simp [Space.map, h]

theorem Space.map_of_table {a : Space V I F E} {f : F} {rest : List F} (h : a.free = f :: rest)
    {v : V} {t : F} (ht : a.table (index v) = some t) (e : F → E) :
  a.map index v e =
    (none, { a with free := rest, entry := Function.update a.entry v (e f) })
  := by
  simp [Space.map, h, ht]

theorem Space.map_of_no_table {a : Space V I F E} {f : F} (h : a.free = [f]) {v : V}
    (ht : a.table (index v) = none) (e : F → E) :
  a.map index v e = (some .table, { a with free := [] })
  := by
  simp [Space.map, h, ht]

theorem Space.map_of_new_table {a : Space V I F E} {f t : F} {rest : List F}
    (h : a.free = f :: t :: rest) {v : V} (ht : a.table (index v) = none) (e : F → E) :
  a.map index v e =
    (none, {
      free := rest
      table := Function.update a.table (index v) (some t)
      entry := Function.update a.entry v (e f) })
  := by
  simp [Space.map, h, ht]

/-- Mapping a page leaves the entries of the other pages alone. -/
theorem Space.map_entry_of_ne (index : V → I) (a : Space V I F E) {v w : V} (h : w ≠ v) (e : F → E) :
  (a.map index v e).2.entry w = a.entry w
  := by
  unfold Space.map
  split
  · rfl
  · split
    · simp [h]
    · split
      · rfl
      · simp [h]

/-- A page mapped successfully has the entry of a frame that was free. -/
theorem Space.map_entry_mapped {a a' : Space V I F E} {v : V} {e : F → E}
    (h : a.map index v e = (none, a')) :
  ∃ f ∈ a.free, (∃ rest, a.free = f :: rest ∧ a'.free <:+ rest) ∧ a'.entry v = e f
  := by
  unfold Space.map at h
  split at h
  · cases h
  · rename_i f rest hfree
    rw [hfree]
    use f, List.mem_cons_self
    split at h
    · cases h
      simp
    · split at h
      · cases h
      · cases h
        simp

/-- The frame of a page mapped successfully is then off the list. -/
theorem Space.map_entry_same {a a' : Space V I F E} (hnodup : a.free.Nodup) {v : V}
    {e : F → E} (h : a.map index v e = (none, a')) :
  ∃ f ∈ a.free, f ∉ a'.free ∧ a'.entry v = e f
  := by
  obtain ⟨f, hf, ⟨rest, hfree, hsuffix⟩, hentry⟩ := map_entry_mapped h
  rw [hfree, List.nodup_cons] at hnodup
  use f, hf
  constructor
  · intro hmem
    apply hnodup.1 (hsuffix.subset hmem)
  · apply hentry

/-- A failed request leaves all entries alone. -/
theorem Space.map_entry_of_failed {a a' : Space V I F E} {v : V} {e : F → E} {r : Request}
    (h : a.map index v e = (some r, a')) :
  a'.entry = a.entry
  := by
  unfold Space.map at h
  split at h
  · cases h
    rfl
  · split at h
    · cases h
    · split at h
      · cases h
        rfl
      · cases h

/-- Frames only leave the free list, from its front. -/
theorem Space.map_free_suffix (index : V → I) (a : Space V I F E) (v : V) (e : F → E) :
  (a.map index v e).2.free <:+ a.free
  := by
  unfold Space.map
  split
  · apply List.suffix_rfl
  · rename_i f rest hfree
    rw [hfree]
    split
    · apply List.suffix_cons
    · split
      · apply List.nil_suffix
      · apply (List.suffix_cons _ _).trans (List.suffix_cons _ _)

/-- Tables stay where they are, and new ones are frames that were free. -/
theorem Space.map_free_length (index : V → I) (a : Space V I F E) (v : V) (e : F → E) :
  a.free.length ≤ (a.map index v e).2.free.length + 2
  := by
  rcases hfree : a.free with _ | ⟨f, rest⟩
  · apply Nat.zero_le
  · rcases htable : a.table (index v) with _ | t
    · rcases rest with _ | ⟨t, rest⟩
      · rw [map_of_no_table hfree htable]
        simp
      · rw [map_of_new_table hfree htable]
        simp
    · rw [map_of_table hfree htable]
      simp

theorem Space.map_table (index : V → I) (a : Space V I F E) (v : V) (e : F → E) {i : I} {t : F}
    (h : (a.map index v e).2.table i = some t) :
  a.table i = some t ∨ t ∈ a.free
  := by
  unfold Space.map at h
  split at h
  · left
    apply h
  · rename_i f rest hfree
    split at h
    · left
      apply h
    · split at h
      · left
        apply h
      · simp only at h
        by_cases hi : i = index v
        · right
          rw [hi, Function.update_self, Option.some.injEq] at h
          rw [hfree, h]
          simp
        · left
          rw [Function.update_of_ne hi] at h
          apply h

/-- A new table is off the free list. -/
theorem Space.map_table_taken {a a' : Space V I F E} (hnodup : a.free.Nodup) {v : V} {e : F → E}
    {r : Option Request} (h : a.map index v e = (r, a')) {i : I} {t : F}
    (ht : a'.table i = some t) :
  a.table i = some t ∨ t ∉ a'.free
  := by
  unfold Space.map at h
  split at h
  · cases h
    left
    apply ht
  · rename_i f rest hfree
    split at h
    · cases h
      left
      apply ht
    · split at h
      · cases h
        left
        apply ht
      · rename_i t' rest'
        cases h
        simp only at ht ⊢
        by_cases hi : i = index v
        · right
          rw [hi, Function.update_self, Option.some.injEq] at ht
          rw [hfree, List.nodup_cons, List.nodup_cons] at hnodup
          rw [← ht]
          apply hnodup.2.1
        · left
          rw [Function.update_of_ne hi] at ht
          apply ht

/-- Tables that are there stay. -/
theorem Space.map_table_mono {a a' : Space V I F E} {v : V} {e : F → E} {r : Option Request}
    (h : a.map index v e = (r, a')) {i : I} {t : F} (ht : a.table i = some t) :
  a'.table i = some t
  := by
  unfold Space.map at h
  split at h
  · cases h
    apply ht
  · split at h
    · cases h
      apply ht
    · rename_i hnone
      split at h
      · cases h
        apply ht
      · cases h
        have hi : i ≠ index v := by
          rintro rfl
          rw [hnone] at ht
          cases ht
        simp only [Function.update_of_ne hi, ht]

/-- A frame that has left the free list has become the frame of the page or of its table,
except when the table could not be had. -/
theorem Space.map_taken {a a' : Space V I F E} {v : V} {e : F → E} {r : Option Request}
    (h : a.map index v e = (r, a')) (hr : r ≠ some .table) {f : F} (hf : f ∈ a.free)
    (hf' : f ∉ a'.free) :
  a'.table (index v) = some f ∨ a'.entry v = e f ∧ r = none
  := by
  unfold Space.map at h
  split at h
  · cases h
    cases hf' hf
  · rename_i g rest hfree
    rw [hfree] at hf
    split at h
    · cases h
      right
      rcases List.mem_cons.mp hf with rfl | hmem
      · simp
      · cases hf' hmem
    · split at h
      · cases h
        cases hr rfl
      · cases h
        rcases List.mem_cons.mp hf with rfl | hmem
        · right
          simp
        · rcases List.mem_cons.mp hmem with rfl | hmem
          · left
            simp
          · cases hf' hmem

/-! ### Several pages -/

@[simp]
theorem Space.mapAll_nil (a : Space V I F E) :
  a.mapAll index [] = (none, a)
  := rfl

theorem Space.mapAll_cons_of_mapped {a a' : Space V I F E} {v : V} {e : F → E}
    (h : a.map index v e = (none, a')) (vs : List (V × (F → E))) :
  a.mapAll index ((v, e) :: vs) = a'.mapAll index vs
  := by
  rw [Space.mapAll, h]

theorem Space.mapAll_cons_of_failed {a a' : Space V I F E} {v : V} {e : F → E} {r : Request}
    (h : a.map index v e = (some r, a')) (vs : List (V × (F → E))) :
  a.mapAll index ((v, e) :: vs) = (some r, a')
  := by
  rw [Space.mapAll, h]

/-- Mapping two sequences of pages one after the other. -/
theorem Space.mapAll_append {a a' : Space V I F E} {vs : List (V × (F → E))}
    (h : a.mapAll index vs = (none, a')) (ws : List (V × (F → E))) :
  a.mapAll index (vs ++ ws) = a'.mapAll index ws
  := by
  induction vs generalizing a with
  | nil =>
      cases h
      rfl
  | cons p vs ih =>
      obtain ⟨v, e⟩ := p
      rcases hm : a.map index v e with ⟨_ | r, b⟩
      · rw [mapAll_cons_of_mapped hm] at h
        rw [List.cons_append, mapAll_cons_of_mapped hm]
        apply ih h
      · rw [mapAll_cons_of_failed hm] at h
        cases h

/-- Pages mapped after a failure are not reached. -/
theorem Space.mapAll_append_of_failed {a a' : Space V I F E} {vs : List (V × (F → E))}
    {r : Request} (h : a.mapAll index vs = (some r, a')) (ws : List (V × (F → E))) :
  a.mapAll index (vs ++ ws) = (some r, a')
  := by
  induction vs generalizing a with
  | nil => cases h
  | cons p vs ih =>
      obtain ⟨v, e⟩ := p
      rcases hm : a.map index v e with ⟨_ | r', b⟩
      · rw [mapAll_cons_of_mapped hm] at h
        rw [List.cons_append, mapAll_cons_of_mapped hm]
        apply ih h
      · rw [mapAll_cons_of_failed hm] at h
        rw [List.cons_append, mapAll_cons_of_failed hm, h]

/-- When a sequence of pages is mapped, so is each part of it. -/
theorem Space.mapAll_of_append {a a' : Space V I F E} {vs ws : List (V × (F → E))}
    (h : a.mapAll index (vs ++ ws) = (none, a')) :
  ∃ b, a.mapAll index vs = (none, b) ∧ b.mapAll index ws = (none, a')
  := by
  rcases hvs : a.mapAll index vs with ⟨_ | r, b⟩
  · rw [mapAll_append hvs] at h
    use b
  · rw [mapAll_append_of_failed hvs] at h
    cases h

/-- Mapping fails at the first request beyond the free list, and at no other. -/
theorem Space.mapAll_fst (index : V → I) (a : Space V I F E) (vs : List (V × (F → E))) :
  (a.mapAll index vs).1
    = (requests index (fun i => (a.table i).isSome) (vs.map Prod.fst))[a.free.length]?
  := by
  induction vs generalizing a with
  | nil => simp [requests]
  | cons p vs ih =>
      obtain ⟨v, e⟩ := p
      rw [List.map_cons, requests]
      rcases hfree : a.free with _ | ⟨f, rest⟩
      · rw [mapAll_cons_of_failed (map_of_free_nil hfree v e)]
        split_ifs <;> rfl
      · rcases htable : a.table (index v) with _ | t
        · rcases rest with _ | ⟨t, rest⟩
          · rw [mapAll_cons_of_failed (map_of_no_table hfree htable e)]
            simp
          · rw [mapAll_cons_of_mapped (map_of_new_table hfree htable e), ih]
            simp only [Option.isSome_none, Bool.false_eq_true, if_false, List.length_cons,
              List.getElem?_cons_succ]
            congr 2
            funext i
            by_cases hi : i = index v
            · simp [hi]
            · simp [hi]
        · rw [mapAll_cons_of_mapped (map_of_table hfree htable e), ih]
          simp

theorem Space.mapAll_free_suffix (index : V → I) (a : Space V I F E) (vs : List (V × (F → E))) :
  (a.mapAll index vs).2.free <:+ a.free
  := by
  induction vs generalizing a with
  | nil => apply List.suffix_rfl
  | cons p vs ih =>
      obtain ⟨v, e⟩ := p
      have hsuffix := a.map_free_suffix index v e
      rcases hm : a.map index v e with ⟨_ | r, b⟩
      · rw [mapAll_cons_of_mapped hm]
        rw [hm] at hsuffix
        apply (ih b).trans hsuffix
      · rw [mapAll_cons_of_failed hm]
        rw [hm] at hsuffix
        apply hsuffix

/-- Mapping a page takes a frame for the page and at most one for its table. -/
theorem Space.mapAll_free_length (index : V → I) (a : Space V I F E) (vs : List (V × (F → E))) :
  a.free.length ≤ (a.mapAll index vs).2.free.length + 2 * vs.length
  := by
  induction vs generalizing a with
  | nil => apply Nat.le_refl
  | cons p vs ih =>
      obtain ⟨v, e⟩ := p
      have hone := a.map_free_length index v e
      rw [List.length_cons]
      rcases hm : a.map index v e with ⟨_ | r, b⟩
      · rw [mapAll_cons_of_mapped hm]
        rw [hm] at hone
        have hrest := ih b
        dsimp only at hone
        omega
      · rw [mapAll_cons_of_failed hm]
        rw [hm] at hone
        dsimp only at hone ⊢
        omega

/-- With two frames for each page every request is served. -/
theorem Space.mapAll_of_free_length {a : Space V I F E} {vs : List (V × (F → E))}
    (h : 2 * vs.length ≤ a.free.length) :
  (a.mapAll index vs).1 = none
  := by
  have hrequests := length_requests_le index (fun i => (a.table i).isSome) (vs.map Prod.fst)
  rw [List.length_map] at hrequests
  rw [mapAll_fst, List.getElem?_eq_none]
  omega

theorem Space.mapAll_table (index : V → I) (a : Space V I F E) (vs : List (V × (F → E))) {i : I}
    {t : F} (h : (a.mapAll index vs).2.table i = some t) :
  a.table i = some t ∨ t ∈ a.free
  := by
  induction vs generalizing a with
  | nil =>
      left
      apply h
  | cons p vs ih =>
      obtain ⟨v, e⟩ := p
      have hsuffix := a.map_free_suffix index v e
      have htable := fun ht => a.map_table (i := i) (t := t) index v e ht
      rcases hm : a.map index v e with ⟨_ | r, b⟩
      · rw [mapAll_cons_of_mapped hm] at h
        rw [hm] at hsuffix htable
        rcases ih b h with ht | ht
        · apply htable ht
        · right
          apply hsuffix.subset ht
      · rw [mapAll_cons_of_failed hm] at h
        rw [hm] at htable
        apply htable h

theorem Space.mapAll_table_mono {a a' : Space V I F E} {vs : List (V × (F → E))}
    {r : Option Request} (h : a.mapAll index vs = (r, a')) {i : I} {t : F}
    (ht : a.table i = some t) :
  a'.table i = some t
  := by
  induction vs generalizing a with
  | nil =>
      cases h
      apply ht
  | cons p vs ih =>
      obtain ⟨v, e⟩ := p
      rcases hm : a.map index v e with ⟨_ | q, b⟩
      · rw [mapAll_cons_of_mapped hm] at h
        apply ih h (map_table_mono hm ht)
      · rw [mapAll_cons_of_failed hm] at h
        cases h
        apply map_table_mono hm ht

/-- Entries of pages outside the sequence stay as they are. -/
theorem Space.mapAll_entry_of_not_mem (index : V → I) (a : Space V I F E) {vs : List (V × (F → E))} {w : V}
    (h : w ∉ vs.map Prod.fst) :
  (a.mapAll index vs).2.entry w = a.entry w
  := by
  induction vs generalizing a with
  | nil => rfl
  | cons p vs ih =>
      obtain ⟨v, e⟩ := p
      simp only [List.map_cons, List.mem_cons, not_or] at h
      have hentry := a.map_entry_of_ne index h.1 e
      rcases hm : a.map index v e with ⟨_ | r, b⟩
      · rw [mapAll_cons_of_mapped hm, ih b h.2]
        rw [hm] at hentry
        apply hentry
      · rw [mapAll_cons_of_failed hm]
        rw [hm] at hentry
        apply hentry

/-- An entry is the old one, or that of a frame that was free. -/
theorem Space.mapAll_entry (index : V → I) (a : Space V I F E) (vs : List (V × (F → E))) (w : V) :
  (a.mapAll index vs).2.entry w = a.entry w ∨
    ∃ e f, (w, e) ∈ vs ∧ f ∈ a.free ∧ (a.mapAll index vs).2.entry w = e f
  := by
  induction vs generalizing a with
  | nil =>
      left
      rfl
  | cons p vs ih =>
      obtain ⟨v, e⟩ := p
      have hsuffix := a.map_free_suffix index v e
      have hother := fun (hne : w ≠ v) => a.map_entry_of_ne index hne e
      rcases hm : a.map index v e with ⟨_ | r, b⟩
      · rw [mapAll_cons_of_mapped hm]
        rw [hm] at hsuffix hother
        rcases ih b with hsame | ⟨e', f, hw, hf, hentry⟩
        · rw [hsame]
          by_cases hwv : w = v
          · subst hwv
            obtain ⟨f, hf, -, hentry⟩ := map_entry_mapped hm
            right
            use e, f, List.mem_cons_self
          · left
            apply hother hwv
        · right
          use e', f, List.mem_cons_of_mem _ hw, hsuffix.subset hf
      · rw [mapAll_cons_of_failed hm]
        left
        rw [map_entry_of_failed hm]

/-- After a failure some page of the sequence still has the entry it had. -/
theorem Space.mapAll_entry_of_failed {a a' : Space V I F E} {vs : List (V × (F → E))}
    (hkeys : (vs.map Prod.fst).Nodup) {r : Request} (h : a.mapAll index vs = (some r, a')) :
  ∃ v ∈ vs.map Prod.fst, a'.entry v = a.entry v
  := by
  induction vs generalizing a with
  | nil => cases h
  | cons p vs ih =>
      obtain ⟨v, e⟩ := p
      rw [List.map_cons, List.nodup_cons] at hkeys
      rcases hm : a.map index v e with ⟨_ | r', b⟩
      · rw [mapAll_cons_of_mapped hm] at h
        obtain ⟨w, hw, hentry⟩ := ih hkeys.2 h
        use w, List.mem_cons_of_mem _ hw
        have hne : w ≠ v := by
          rintro rfl
          apply hkeys.1 hw
        have hsame := a.map_entry_of_ne index hne e
        rw [hm] at hsame
        rw [hentry, hsame]
      · rw [mapAll_cons_of_failed hm] at h
        cases h
        use v, List.mem_cons_self
        rw [map_entry_of_failed hm]

/-- A frame that has left the free list has become the frame of a page or of a table,
except when a table could not be had. -/
theorem Space.mapAll_taken {a a' : Space V I F E} {vs : List (V × (F → E))}
    (hkeys : (vs.map Prod.fst).Nodup) {r : Option Request} (h : a.mapAll index vs = (r, a'))
    (hr : r ≠ some .table) {f : F} (hf : f ∈ a.free) (hf' : f ∉ a'.free) :
  (∃ v ∈ vs.map Prod.fst, a'.table (index v) = some f) ∨
    ∃ v e, (v, e) ∈ vs ∧ a'.entry v = e f
  := by
  induction vs generalizing a with
  | nil =>
      cases h
      cases hf' hf
  | cons p vs ih =>
      obtain ⟨v, e⟩ := p
      rw [List.map_cons, List.nodup_cons] at hkeys
      rcases hm : a.map index v e with ⟨_ | q, b⟩
      · rw [mapAll_cons_of_mapped hm] at h
        by_cases hb : f ∈ b.free
        · rcases ih hkeys.2 h hb with ⟨w, hw, ht⟩ | ⟨w, e', hw, hentry⟩
          · left
            use w, List.mem_cons_of_mem _ hw
          · right
            use w, e', List.mem_cons_of_mem _ hw
        · rcases map_taken hm (by simp) hf hb with ht | ⟨hentry, -⟩
          · left
            use v, List.mem_cons_self
            apply mapAll_table_mono h ht
          · right
            use v, e, List.mem_cons_self
            have hlast := mapAll_entry_of_not_mem index b hkeys.1
            rw [h] at hlast
            rw [hlast, hentry]
      · rw [mapAll_cons_of_failed hm] at h
        cases h
        rcases map_taken hm hr hf hf' with ht | ⟨-, hnone⟩
        · left
          use v, List.mem_cons_self
        · cases hnone

/-- When a table cannot be had, the frame taken for its page is lost: it is off the free
list, no new table and not the frame of an entry set. -/
theorem Space.mapAll_leak {a a' : Space V I F E} (hnodup : a.free.Nodup)
    {vs : List (V × (F → E))} (h : a.mapAll index vs = (some .table, a')) :
  ∃ f ∈ a.free, f ∉ a'.free ∧ (∀ i, a'.table i = some f → a.table i = some f) ∧
    ∀ w, a'.entry w = a.entry w ∨ ∃ e g, (w, e) ∈ vs ∧ g ∈ a.free ∧ g ≠ f ∧ a'.entry w = e g
  := by
  induction vs generalizing a with
  | nil => cases h
  | cons p vs ih =>
      obtain ⟨v, e⟩ := p
      have hsuffix := a.map_free_suffix index v e
      rcases hm : a.map index v e with ⟨_ | q, b⟩
      · rw [mapAll_cons_of_mapped hm] at h
        rw [hm] at hsuffix
        obtain ⟨f, hf, hf', htables, hentries⟩ := ih (hnodup.sublist hsuffix.sublist) h
        use f, hsuffix.subset hf, hf'
        constructor
        · intro i ht
          rcases map_table_taken hnodup hm (htables i ht) with hold | hnot
          · apply hold
          · cases hnot hf
        · intro w
          rcases hentries w with hsame | ⟨e', g, hw, hg, hne, hentry⟩
          · rw [hsame]
            by_cases hwv : w = v
            · subst hwv
              obtain ⟨g, hg, hgb, hentry⟩ := map_entry_same hnodup hm
              right
              use e, g, List.mem_cons_self, hg
              constructor
              · rintro rfl
                apply hgb hf
              · apply hentry
            · left
              have hother := a.map_entry_of_ne index hwv e
              rw [hm] at hother
              apply hother
          · right
            use e', g, List.mem_cons_of_mem _ hw, hsuffix.subset hg
      · rw [mapAll_cons_of_failed hm] at h
        cases h
        unfold Space.map at hm
        split at hm
        · cases hm
        · rename_i f rest hfree
          split at hm
          · cases hm
          · split at hm
            · cases hm
              use f
              rw [hfree]
              simp
            · cases hm

/-! ### Which frame a page gets -/

/-- Mapping a page takes the frames it asks for off the list. -/
theorem Space.length_requests_of_mapped {a b : Space V I F E} {v : V} {e : F → E}
    (h : a.map index v e = (none, b)) (ws : List V) :
  ∃ k, k ≤ a.free.length ∧ b.free = a.free.drop k ∧
    (requests index (fun i => (a.table i).isSome) (v :: ws)).length
      = k + (requests index (fun i => (b.table i).isSome) ws).length
  := by
  rcases hfree : a.free with _ | ⟨f, rest⟩
  · rw [map_of_free_nil hfree] at h
    cases h
  · rcases htable : a.table (index v) with _ | t
    · rcases rest with _ | ⟨t, rest⟩
      · rw [map_of_no_table hfree htable] at h
        cases h
      · rw [map_of_new_table hfree htable] at h
        cases h
        use 2
        have hsame : (fun i => (Function.update a.table (index v) (some t) i).isSome)
            = fun i => i = index v || (a.table i).isSome := by
          funext i
          by_cases hi : i = index v
          · simp [hi]
          · simp [hi]
        rw [requests, htable, hsame]
        simp
        omega
    · rw [map_of_table hfree htable] at h
      cases h
      use 1
      rw [requests, htable]
      simp
      omega

/-- A page that cannot be mapped asks for more frames than there are. -/
theorem Space.length_requests_of_failed {a b : Space V I F E} {v : V} {e : F → E} {r : Request}
    (h : a.map index v e = (some r, b)) (ws : List V) :
  a.free.length < (requests index (fun i => (a.table i).isSome) (v :: ws)).length
  := by
  have hfst := a.mapAll_fst index ((v, e) :: ws.map fun w => (w, e))
  rw [mapAll_cons_of_failed h, List.map_cons, List.map_map] at hfst
  have hid : ws.map (Prod.fst ∘ fun w => (w, e)) = ws := List.map_id ws
  rw [hid] at hfst
  apply (List.getElem?_eq_some_iff.mp hfst.symm).1

/-- A page that is served, with the pages before it, gets the frame at the place of its
request. -/
theorem Space.mapAll_entry_of_served (index : V → I) (a : Space V I F E) {vs : List (V × (F → E))}
    (hkeys : (vs.map Prod.fst).Nodup) {i : Nat} {v : V} {e : F → E} (hi : vs[i]? = some (v, e))
    (hserved : (requests index (fun i => (a.table i).isSome)
      ((vs.map Prod.fst).take (i + 1))).length ≤ a.free.length) :
  ∃ f, a.free[(requests index (fun i => (a.table i).isSome)
      ((vs.map Prod.fst).take i)).length]? = some f ∧ (a.mapAll index vs).2.entry v = e f
  := by
  induction vs generalizing a i with
  | nil => cases hi
  | cons p vs ih =>
      obtain ⟨w, e'⟩ := p
      rw [List.map_cons, List.nodup_cons] at hkeys
      rw [List.map_cons, List.take_succ_cons] at hserved
      rcases hm : a.map index w e' with ⟨_ | r, b⟩
      · rw [mapAll_cons_of_mapped hm]
        rcases i with _ | i
        · rw [List.getElem?_cons_zero, Option.some.injEq] at hi
          cases hi
          obtain ⟨f, -, ⟨rest, hfree, -⟩, hentry⟩ := map_entry_mapped hm
          use f
          rw [mapAll_entry_of_not_mem index b hkeys.1, hentry, hfree]
          use rfl
        · rw [List.getElem?_cons_succ] at hi
          obtain ⟨k, hk, hdrop, hlength⟩ :=
            length_requests_of_mapped hm ((vs.map Prod.fst).take (i + 1))
          obtain ⟨k', -, hdrop', hlength'⟩ :=
            length_requests_of_mapped hm ((vs.map Prod.fst).take i)
          rw [hlength] at hserved
          have hrest : (requests index (fun i => (b.table i).isSome)
              ((vs.map Prod.fst).take (i + 1))).length ≤ b.free.length := by
            rw [hdrop, List.length_drop]
            omega
          obtain ⟨f, hf, hentry⟩ := ih b hkeys.2 hi hrest
          use f
          rw [List.map_cons, List.take_succ_cons, hlength', ← hf, hdrop', List.getElem?_drop]
          use rfl
      · have hfailed := length_requests_of_failed hm ((vs.map Prod.fst).take i)
        cases Nat.not_le_of_lt hfailed hserved

/-- A page that is not reached keeps its entry. -/
theorem Space.mapAll_entry_of_unserved (index : V → I) (a : Space V I F E) {vs : List (V × (F → E))}
    (hkeys : (vs.map Prod.fst).Nodup) {i : Nat} {v : V} {e : F → E} (hi : vs[i]? = some (v, e))
    (hserved : a.free.length < (requests index (fun i => (a.table i).isSome)
      ((vs.map Prod.fst).take (i + 1))).length) :
  (a.mapAll index vs).2.entry v = a.entry v
  := by
  induction vs generalizing a i with
  | nil => cases hi
  | cons p vs ih =>
      obtain ⟨w, e'⟩ := p
      rw [List.map_cons, List.nodup_cons] at hkeys
      rw [List.map_cons, List.take_succ_cons] at hserved
      rcases hm : a.map index w e' with ⟨_ | r, b⟩
      · rw [mapAll_cons_of_mapped hm]
        obtain ⟨k, hk, hdrop, hlength⟩ := length_requests_of_mapped hm ((vs.map Prod.fst).take i)
        rw [hlength] at hserved
        rcases i with _ | i
        · rw [List.take_zero, requests, List.length_nil] at hserved
          omega
        · rw [List.getElem?_cons_succ] at hi
          rw [ih b hkeys.2 hi (by rw [hdrop, List.length_drop]; omega)]
          have hne : v ≠ w := by
            rintro rfl
            apply hkeys.1
            apply List.mem_map_of_mem (f := Prod.fst) (List.mem_of_getElem? hi)
          have hsame := a.map_entry_of_ne index hne e'
          rw [hm] at hsame
          apply hsame
      · rw [mapAll_cons_of_failed hm, map_entry_of_failed hm]

/-- When all pages are mapped, each has the entry of a frame that was free, and distinct
pages have distinct frames. -/
theorem Space.mapAll_entry_of_mapped [Inhabited F] {a a' : Space V I F E}
    {vs : List (V × (F → E))} (hfree : a.free.Nodup) (hkeys : (vs.map Prod.fst).Nodup)
    (h : a.mapAll index vs = (none, a')) :
  ∃ frame : V → F,
    (∀ v e, (v, e) ∈ vs → frame v ∈ a.free ∧ a'.entry v = e (frame v)) ∧
    (∀ v ∈ vs.map Prod.fst, ∀ w ∈ vs.map Prod.fst, frame v = frame w → v = w)
  := by
  induction vs generalizing a with
  | nil =>
      use fun _ => default
      simp
  | cons p vs ih =>
      obtain ⟨v, e⟩ := p
      rw [List.map_cons, List.nodup_cons] at hkeys
      rcases hm : a.map index v e with ⟨_ | r, b⟩
      · rw [mapAll_cons_of_mapped hm] at h
        obtain ⟨f, hf, hfb, hentry⟩ := map_entry_same hfree hm
        have hsuffix := a.map_free_suffix index v e
        rw [hm] at hsuffix
        obtain ⟨frame, hframe, hinj⟩ := ih (hfree.sublist hsuffix.sublist) hkeys.2 h
        have hrest : ∀ w ∈ vs.map Prod.fst, frame w ∈ b.free := by
          intro w hw
          obtain ⟨⟨w', e'⟩, hmem, rfl⟩ := List.mem_map.mp hw
          apply (hframe w' e' hmem).1
        -- the frame of `v` is off the list before the frames of the others are taken
        have hne : ∀ w ∈ vs.map Prod.fst, frame w ≠ f := by
          rintro w hw rfl
          apply hfb (hrest w hw)
        have hvw : ∀ w ∈ vs.map Prod.fst, w ≠ v := by
          rintro w hw rfl
          apply hkeys.1 hw
        use Function.update frame v f
        constructor
        · intro w e' hw
          rcases List.mem_cons.mp hw with heq | hw
          · cases heq
            have hlast := mapAll_entry_of_not_mem index b hkeys.1
            rw [h] at hlast
            rw [Function.update_self, hlast]
            use hf
          · have hkey := List.mem_map_of_mem (f := Prod.fst) hw
            rw [Function.update_of_ne (hvw w hkey)]
            obtain ⟨hmem, hw'⟩ := hframe w e' hw
            use hsuffix.subset hmem
        · intro w hw w' hw' heq
          rcases List.mem_cons.mp hw with hv | hin <;>
            rcases List.mem_cons.mp hw' with hv' | hin'
          · rw [hv, hv']
          · rw [hv, Function.update_self, Function.update_of_ne (hvw w' hin')] at heq
            cases hne w' hin' heq.symm
          · rw [hv', Function.update_self, Function.update_of_ne (hvw w hin)] at heq
            cases hne w hin heq
          · rw [Function.update_of_ne (hvw w hin), Function.update_of_ne (hvw w' hin')] at heq
            apply hinj w hin w' hin' heq
      · rw [mapAll_cons_of_failed hm] at h
        cases h

end AddressSpace
