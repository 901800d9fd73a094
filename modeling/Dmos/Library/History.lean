import Mathlib.Data.Nat.Count

/-!
# Histories

A history is the list of what has happened, in order.  An event is a predicate of what happens
and of the history before it.  `Since on off` says that `on` has happened and `off` has not
happened after it, `times` counts an event, and `reports` collects what the elements report.  One more
element changes them as it changes a latch, a counter and a log.
-/

namespace History

variable {α : Type}

/-- The event happens at the place `i` of the history. -/
def At (event : List α → α → Prop) (xs : List α) (i : Nat) : Prop :=
  ∃ x ∈ xs[i]?, event (xs.take i) x

instance (event : List α → α → Prop) [∀ xs x, Decidable (event xs x)] (xs : List α) (i : Nat) :
    Decidable (At event xs i) :=
  inferInstanceAs (Decidable (∃ x ∈ xs[i]?, event (xs.take i) x))

/-- `on` has happened, and `off` has not happened since. -/
def Since (on off : List α → α → Prop) (xs : List α) : Prop :=
  ∃ i < xs.length, At on xs i ∧ ∀ j < xs.length, i < j → ¬ At off xs j

instance (on off : List α → α → Prop) [∀ xs x, Decidable (on xs x)]
    [∀ xs x, Decidable (off xs x)] (xs : List α) : Decidable (Since on off xs) :=
  inferInstanceAs (Decidable (∃ i < xs.length, At on xs i ∧ ∀ j < xs.length, i < j → ¬ At off xs j))

/-- The number of times the event has happened. -/
def times (event : List α → α → Prop) [∀ xs x, Decidable (event xs x)] (xs : List α) : Nat :=
  Nat.count (At event xs) xs.length

/-- What has been reported, in order. -/
def reports {β : Type} (report : List α → α → Option β) (xs : List α) : List β :=
  (List.range xs.length).filterMap fun i => xs[i]?.bind (report (xs.take i))

variable {event on off : List α → α → Prop} {xs : List α} {x : α}

theorem at_concat_of_lt {i : Nat} (h : i < xs.length) :
  At event (xs ++ [x]) i ↔ At event xs i
  := by rw [At, At, List.getElem?_append_left h, List.take_append_of_le_length (by omega)]

theorem at_concat_length :
  At event (xs ++ [x]) xs.length ↔ event xs x
  := by
  rw [At, List.getElem?_concat_length, List.take_left]
  simp

theorem since_concat :
  Since on off (xs ++ [x]) ↔ on xs x ∨ Since on off xs ∧ ¬ off xs x
  := by
  rw [Since, Since, List.length_append, List.length_singleton]
  constructor
  · rintro ⟨i, hi, hon, hoff⟩
    rcases Nat.lt_succ_iff_lt_or_eq.mp hi with hlt | rfl
    · right
      constructor
      · use i, hlt, (at_concat_of_lt hlt).mp hon
        intro j hj hij
        rw [← at_concat_of_lt hj]
        apply hoff j (by omega) hij
      · have hlast := hoff xs.length (by omega) hlt
        rwa [at_concat_length] at hlast
    · left
      exact at_concat_length.mp hon
  · rintro (hon | ⟨⟨i, hi, hon, hoff⟩, hlast⟩)
    · use xs.length, by omega, at_concat_length.mpr hon
      intro j hj hij
      omega
    · use i, by omega, (at_concat_of_lt hi).mpr hon
      intro j hj hij
      rcases Nat.lt_succ_iff_lt_or_eq.mp hj with hlt | rfl
      · rw [at_concat_of_lt hlt]
        apply hoff j hlt hij
      · rwa [at_concat_length]

theorem times_concat [∀ xs x, Decidable (event xs x)] :
  times event (xs ++ [x]) = times event xs + if event xs x then 1 else 0
  := by
  have hcount : Nat.count (At event (xs ++ [x])) xs.length = Nat.count (At event xs) xs.length := by
    rw [Nat.count_eq_card_filter_range, Nat.count_eq_card_filter_range]
    congr 1
    apply Finset.filter_congr
    intro i hi
    apply at_concat_of_lt (Finset.mem_range.mp hi)
  rw [times, times, List.length_append, List.length_singleton, Nat.count_succ, hcount]
  simp only [at_concat_length]

theorem reports_concat {β : Type} (report : List α → α → Option β) :
  reports report (xs ++ [x]) = reports report xs ++ (report xs x).toList
  := by
  have hrest : (List.range xs.length).filterMap
      (fun i => (xs ++ [x])[i]?.bind (report ((xs ++ [x]).take i))) = reports report xs := by
    apply List.filterMap_congr
    intro i hi
    rw [List.mem_range] at hi
    rw [List.getElem?_append_left hi, List.take_append_of_le_length (by omega)]
  rw [reports, List.length_append, List.length_singleton, List.range_succ,
    List.filterMap_append, hrest, List.filterMap_cons, List.getElem?_concat_length,
    List.take_left, Option.bind_some, List.filterMap_nil]
  cases report xs x <;> rfl

end History
