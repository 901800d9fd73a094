import Mathlib.Tactic.ByContra
import Mathlib.Tactic.SplitIfs

/-!
# Labelled transition systems

States reachable by steps whose labels all satisfy a predicate, and the rule that an
invariant of every step holds in all of them.  Runs with their labels, and the rule that a
run with enough of certain labels reaches a goal, when a measure that no step increases
drops at each of these.
-/

/-- A transition system with states `S` and labels `A`. -/
structure TransitionSystem (S A : Type) where
  /-- The initial states. -/
  init : S → Prop
  /-- `step s a s'`: the system can move from `s` to `s'` by `a`. -/
  step : S → A → S → Prop

namespace TransitionSystem

variable {S A : Type}

/-- The steps that meet a condition on their state and label. -/
def restrict (T : TransitionSystem S A) (P : S → A → Prop) : TransitionSystem S A where
  init := T.init
  step s a s' := P s a ∧ T.step s a s'

/-- The states reached by runs all of whose labels satisfy `allowed`. -/
inductive Reachable (T : TransitionSystem S A) (allowed : A → Prop) : S → Prop
  | init {s : S} : T.init s → T.Reachable allowed s
  | step {s s' : S} {a : A} : T.Reachable allowed s → allowed a → T.step s a s' →
      T.Reachable allowed s'

variable {T : TransitionSystem S A} {allowed : A → Prop}

/-- A property of the initial states that every allowed step preserves holds in every
reachable state. -/
theorem Reachable.invariant {I : S → Prop} (hinit : ∀ s, T.init s → I s)
    (hstep : ∀ s a s', I s → allowed a → T.step s a s' → I s') {s : S}
    (h : T.Reachable allowed s) :
  I s
  := by
  induction h with
  | init h => apply hinit _ h
  | step _ ha hs ih => apply hstep _ _ _ ih ha hs

/-- A condition on the steps only takes states away. -/
theorem Reachable.of_restrict {P : S → A → Prop} {s : S}
    (h : (T.restrict P).Reachable allowed s) :
  T.Reachable allowed s
  := by
  induction h with
  | init h => exact .init h
  | step _ ha hs ih => exact .step ih ha hs.2

/-! ### Runs -/

/-- The runs from one state to another, with the labels of their steps. -/
inductive Run (T : TransitionSystem S A) : S → List A → S → Prop
  | nil {s : S} : T.Run s [] s
  | cons {s s' s'' : S} {a : A} {as : List A} : T.step s a s' → T.Run s' as s'' →
      T.Run s (a :: as) s''

variable {s s' : S} {as : List A}

/-- What every step of a run preserves holds at its end. -/
theorem Run.invariant {I : S → Prop} (hstep : ∀ s a s', a ∈ as → I s → T.step s a s' → I s')
    (h : T.Run s as s') (hs : I s) :
  I s'
  := by
  induction h with
  | nil => apply hs
  | cons ha _ ih =>
      apply ih
      · intro s₁ a₁ s₂ ha₁
        apply hstep _ _ _ (List.mem_cons_of_mem _ ha₁)
      · apply hstep _ _ _ List.mem_cons_self hs ha

/-- A run that takes enough counted steps passes the goal, when as long as the goal is not
met the measure is positive, no step increases it and the counted ones decrease it. -/
theorem Run.reaches {I : S → Prop} (goal : S → Prop) (measure : S → Int) (counted : A → Bool)
    (hnonneg : ∀ s, I s → 0 ≤ measure s) (hpos : ∀ s, I s → ¬ goal s → 0 < measure s)
    (hstep : ∀ s a s', I s → ¬ goal s → T.step s a s' →
      I s' ∧ measure s' ≤ measure s ∧ (counted a = true → measure s' < measure s))
    (h : T.Run s as s') (hs : I s) (henough : measure s ≤ as.countP counted) :
  ∃ as₁ as₂ s₁, as = as₁ ++ as₂ ∧ T.Run s as₁ s₁ ∧ goal s₁
    ∧ as₁.countP counted ≤ measure s
  := by
  induction h with
  | @nil s =>
      have hgoal : goal s := by
        by_contra hgoal
        have := hpos s hs hgoal
        rw [List.countP_nil] at henough
        omega
      exact ⟨[], [], s, rfl, Run.nil, hgoal, hnonneg s hs⟩
  | @cons s s' s'' a as ha hrun ih =>
      by_cases hgoal : goal s
      · exact ⟨[], a :: as, s, rfl, Run.nil, hgoal, hnonneg s hs⟩
      · obtain ⟨hs', hle, hlt⟩ := hstep s a s' hs hgoal ha
        have hdrop : measure s' + (if counted a = true then 1 else 0) ≤ measure s := by
          split_ifs with hcounted
          · have := hlt hcounted
            omega
          · omega
        rw [List.countP_cons] at henough
        obtain ⟨as₁, as₂, s₁, rfl, hrun₁, hgoal₁, hcount⟩ := ih hs' (by
          split_ifs at henough hdrop <;> omega)
        refine ⟨a :: as₁, as₂, s₁, rfl, Run.cons ha hrun₁, hgoal₁, ?_⟩
        rw [List.countP_cons]
        split_ifs at hdrop ⊢ <;> omega

end TransitionSystem
