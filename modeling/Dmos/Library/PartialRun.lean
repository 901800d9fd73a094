import Mathlib.Data.List.Infix

/-!
# Runs of a partial step

A step that may have no result, taken for each of a sequence of inputs (`List.foldlM`).  When a
step keeps a property exactly under a condition, a run keeps it all along exactly when its
steps all meet the condition (`foldlM_keeps_iff`).
-/

namespace PartialRun

variable {S A : Type} {f : S → A → Option S} {I P : S → Prop} {F : S → A → Prop}

theorem foldlM_cons (f : S → A → Option S) (s : S) (a : A) (as : List A) :
  (a :: as).foldlM f s = (f s a).bind fun s => as.foldlM f s
  := rfl

theorem foldlM_cons_of_some {s s' : S} {a : A} (h : f s a = some s') (as : List A) :
  (a :: as).foldlM f s = as.foldlM f s'
  := by rw [foldlM_cons, h, Option.bind_some]

/-- A run keeps a property after each of its inputs exactly when its steps meet the condition
under which a step does. -/
theorem foldlM_keeps_iff (hI : ∀ s a s', I s → f s a = some s' → I s')
    (hstep : ∀ s a, I s → P s → ((∃ s', f s a = some s' ∧ P s') ↔ F s a)) {s : S} (hs : I s)
    (hP : P s) (as : List A) :
  (∀ bs, bs <+: as → ∃ t, bs.foldlM f s = some t ∧ P t) ↔
    ∀ bs a, bs ++ [a] <+: as → ∀ t, bs.foldlM f s = some t → F t a
  := by
  induction as generalizing s with
  | nil =>
      constructor
      · intro _ bs a hbs
        rw [List.prefix_nil] at hbs
        cases bs <;> cases hbs
      · intro _ bs hbs
        rw [List.prefix_nil] at hbs
        exact ⟨s, by rw [hbs]; rfl, hP⟩
  | cons a as ih =>
      constructor
      · intro hall
        obtain ⟨s', hs', hP'⟩ : ∃ s', f s a = some s' ∧ P s' := by
          obtain ⟨t, ht, hPt⟩ := hall [a] (List.prefix_append [a] as)
          rw [foldlM_cons, Option.bind_eq_some_iff] at ht
          obtain ⟨s', hs', ht⟩ := ht
          cases ht
          exact ⟨t, hs', hPt⟩
        have hrest := (ih (hI s a s' hs hs') hP').mp (by
          intro bs hbs
          have := hall (a :: bs) (List.cons_prefix_cons.mpr ⟨rfl, hbs⟩)
          rwa [foldlM_cons_of_some hs'] at this)
        intro bs b hbs t ht
        cases bs with
        | nil =>
            cases ht
            rw [List.nil_append, List.cons_prefix_cons] at hbs
            rw [hbs.1]
            exact (hstep s a hs hP).mp ⟨s', hs', hP'⟩
        | cons c bs =>
            rw [List.cons_append, List.cons_prefix_cons] at hbs
            rw [hbs.1, foldlM_cons_of_some hs'] at ht
            apply hrest bs b hbs.2 t ht
      · intro hall
        obtain ⟨s', hs', hP'⟩ := (hstep s a hs hP).mpr
          (hall [] a (List.prefix_append [a] as) s rfl)
        have hrest := (ih (hI s a s' hs hs') hP').mpr (by
          intro bs b hbs t ht
          apply hall (a :: bs) b (List.cons_prefix_cons.mpr ⟨rfl, hbs⟩)
          rwa [foldlM_cons_of_some hs'])
        intro bs hbs
        cases bs with
        | nil => exact ⟨s, rfl, hP⟩
        | cons c bs =>
            rw [List.cons_prefix_cons] at hbs
            rw [hbs.1, foldlM_cons_of_some hs']
            apply hrest bs hbs.2

end PartialRun
