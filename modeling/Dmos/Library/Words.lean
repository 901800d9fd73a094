import Mathlib.Data.List.TakeWhile
import Mathlib.Tactic.SplitIfs

/-!
# Words

The words of a list are its maximal runs of items that are no separators (`words`).  A
separator cuts a list in two with the words of both (`words_append_cons`), and a list has no
more words than items.
-/

namespace Words

variable {T : Type} {p : T → Bool} {t : T} {ts us : List T}

/-- The maximal runs of items that do not satisfy `p`. -/
def words (p : T → Bool) (ts : List T) : List (List T) :=
  (ts.splitOnP p).filter (· ≠ [])

theorem words_append_cons (ts us : List T) (ht : p t) :
  words p (ts ++ t :: us) = words p ts ++ words p us
  := by rw [words, List.splitOnP_append_cons ts us ht, List.filter_append, words, words]

theorem words_of_forall (h : ∀ t ∈ ts, p t = false) :
  words p ts = if ts = [] then [] else [ts]
  := by
  rw [words, List.splitOnP_eq_singleton h]
  split_ifs with hempty
  · simp [hempty]
  · simp [hempty]

theorem words_nil :
  words p [] = []
  := rfl

/-- Separators ahead of the words. -/
theorem words_append (h : ∀ t ∈ ts, p t) (us : List T) :
  words p (ts ++ us) = words p us
  := by
  induction ts with
  | nil => rfl
  | cons t ts ih =>
      rw [List.cons_append, ← List.nil_append (t :: _),
        words_append_cons [] _ (h t List.mem_cons_self), words_nil, List.nil_append, ih]
      intro t ht
      apply h t (List.mem_cons_of_mem _ ht)

theorem length_words_le (ts : List T) :
  (words p ts).length ≤ ts.length
  := by
  induction ts with
  | nil => apply Nat.le_refl
  | cons t ts ih =>
      obtain ⟨u, us, hsplit⟩ := List.exists_cons_of_ne_nil (List.splitOnP_ne_nil p ts)
      have hwords : words p ts = [u].filter (· ≠ []) ++ us.filter (· ≠ []) := by
        rw [words, hsplit, ← List.filter_append, List.singleton_append]
      rw [hwords, List.length_append] at ih
      rw [words, List.splitOnP_cons_eq_if_modifyHead, hsplit]
      split_ifs
      · rw [List.filter_cons_of_neg (by simp), ← List.singleton_append, List.filter_append,
          List.length_append, List.length_cons]
        omega
      · rw [List.modifyHead_cons, List.filter_cons_of_pos (by simp), List.length_cons,
          List.length_cons]
        omega

/-- A list without words, or its separators up to the first word, the word, and the rest. -/
theorem words_cases (p : T → Bool) (ts : List T) :
  (∀ t ∈ ts, p t) ∨ ∃ us w, (∀ t ∈ us, p t) ∧ w ≠ [] ∧ (∀ t ∈ w, p t = false)
    ∧ (ts = us ++ w ∨ ∃ t rest, p t ∧ ts = us ++ (w ++ t :: rest))
  := by
  have hts := List.takeWhile_append_dropWhile (p := p) (l := ts)
  have hspaces : ∀ t ∈ ts.takeWhile p, p t := fun t ht => List.mem_takeWhile_imp ht
  cases hrest : ts.dropWhile p with
  | nil =>
      left
      rw [hrest, List.append_nil] at hts
      rwa [hts] at hspaces
  | cons t rest =>
      right
      have ht : p t = false := by
        have hhead := List.head?_dropWhile_not p ts
        rw [hrest] at hhead
        simpa using hhead
      have hword := List.takeWhile_append_dropWhile (p := fun t => !p t) (l := t :: rest)
      refine ⟨ts.takeWhile p, (t :: rest).takeWhile (fun t => !p t), hspaces, ?_, ?_, ?_⟩
      · rw [List.takeWhile_cons, ht]
        simp
      · intro t' ht'
        simpa using List.mem_takeWhile_imp ht'
      · cases htail : (t :: rest).dropWhile (fun t => !p t) with
        | nil =>
            left
            rw [htail, List.append_nil] at hword
            rw [hword, ← hrest, hts]
        | cons t' rest' =>
            right
            have hhead := List.head?_dropWhile_not (fun t => !p t) (t :: rest)
            rw [htail] at hhead hword
            refine ⟨t', rest', by simpa using hhead, ?_⟩
            rw [hword, ← hrest, hts]

end Words
