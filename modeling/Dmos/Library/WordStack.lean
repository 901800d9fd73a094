import Dmos.Library.ByteMemory

/-!
# Stacks of words

A stack grows towards lower addresses: a word is pushed four bytes below the stack pointer, so
that of several words the one pushed last is lowest (`wordsAt_pushWords`).
-/

namespace ByteMemory

variable {m m' : Memory} {a sp w x : Nat} {ws ws' : List Nat}

/-- The words of a list follow each other from address `a` on. -/
def WordsAt (m : Memory) (a : Nat) : List Nat → Prop
  | [] => True
  | w :: ws => load32 m a = w ∧ WordsAt m (a + 4) ws

/-- The memory after the words have been pushed one after the other. -/
def pushWords (m : Memory) (sp : Nat) : List Nat → Memory
  | [] => m
  | w :: ws => pushWords (store32 m (sp - 4) w) (sp - 4) ws

/-! ### Words that follow each other -/

theorem wordsAt_append :
  WordsAt m a (ws ++ ws') ↔ WordsAt m a ws ∧ WordsAt m (a + 4 * ws.length) ws'
  := by
  induction ws generalizing a with
  | nil => simp [WordsAt]
  | cons w ws ih =>
      rw [List.cons_append, WordsAt, ih, WordsAt, and_assoc, List.length_cons]
      rw [show a + 4 + 4 * ws.length = a + 4 * (ws.length + 1) by omega]

/-- The words are determined by their bytes. -/
theorem WordsAt.congr (h : WordsAt m a ws)
    (hsame : ∀ x, a ≤ x → x < a + 4 * ws.length → m' x = m x) :
  WordsAt m' a ws
  := by
  induction ws generalizing a with
  | nil => trivial
  | cons w ws ih =>
      rw [List.length_cons] at hsame
      constructor
      · rw [← h.1]
        apply load32_congr
        intro x hx hx'
        apply hsame x hx (by omega)
      · apply ih h.2
        intro x hx hx'
        apply hsame x (by omega) (by omega)

theorem WordsAt.lt (h : WordsAt m a ws) :
  ∀ w ∈ ws, w < 2 ^ 32
  := by
  induction ws generalizing a with
  | nil => simp
  | cons w ws ih =>
      intro v hv
      rcases List.mem_cons.mp hv with rfl | hv
      · rw [← h.1]
        apply load32_lt
      · apply ih h.2 v hv

theorem WordsAt.get (h : WordsAt m a ws) {i : Nat} (hi : i < ws.length) :
  load32 m (a + 4 * i) = ws[i]
  := by
  induction ws generalizing a i with
  | nil => cases hi
  | cons w ws ih =>
      cases i with
      | zero => apply h.1
      | succ i =>
          rw [List.getElem_cons_succ, ← ih h.2 (by simpa using hi)]
          congr 1
          omega

/-- A word of the list replaced. -/
theorem WordsAt.set (h : WordsAt m a ws) {i v : Nat} (hi : i < ws.length) (hv : v < 2 ^ 32) :
  WordsAt (store32 m (a + 4 * i) v) a (ws.set i v)
  := by
  induction ws generalizing a i with
  | nil => cases hi
  | cons w ws ih =>
      cases i with
      | zero =>
          refine ⟨load32_store32 m a hv, h.2.congr ?_⟩
          intro x hx _
          apply store32_of_disjoint
          omega
      | succ i =>
          rw [List.length_cons] at hi
          refine ⟨?_, ?_⟩
          · rw [load32_store32_of_disjoint _ _ (by omega), h.1]
          · rw [show a + 4 * (i + 1) = a + 4 + 4 * i by omega]
            apply ih h.2 (by omega)

/-! ### Pushing -/

theorem pushWords_append (m : Memory) (sp : Nat) (ws ws' : List Nat) :
  pushWords m sp (ws ++ ws') = pushWords (pushWords m sp ws) (sp - 4 * ws.length) ws'
  := by
  induction ws generalizing m sp with
  | nil => rfl
  | cons w ws ih =>
      rw [List.cons_append, pushWords, ih, pushWords, List.length_cons]
      congr 1
      omega

theorem pushWords_congr (h : m x = m' x) :
  pushWords m sp ws x = pushWords m' sp ws x
  := by
  induction ws generalizing m m' sp with
  | nil => exact h
  | cons w ws ih => exact ih (store32_congr h)

/-- Pushing words changes the bytes below the stack pointer only. -/
theorem pushWords_outside (m : Memory) (hsp : 4 * ws.length ≤ sp)
    (hx : x < sp - 4 * ws.length ∨ sp ≤ x) :
  pushWords m sp ws x = m x
  := by
  induction ws generalizing m sp with
  | nil => rfl
  | cons w ws ih =>
      rw [List.length_cons] at hsp hx
      rw [pushWords, ih _ (by omega) (by omega)]
      apply store32_of_disjoint
      omega

/-- The words pushed are above the stack pointer, the last one first. -/
theorem wordsAt_pushWords (m : Memory) (hsp : 4 * ws.length ≤ sp) (hws : ∀ w ∈ ws, w < 2 ^ 32) :
  WordsAt (pushWords m sp ws) (sp - 4 * ws.length) ws.reverse
  := by
  induction ws generalizing m sp with
  | nil => trivial
  | cons w ws ih =>
      rw [List.length_cons] at hsp ⊢
      rw [pushWords, List.reverse_cons, wordsAt_append, List.length_reverse]
      have hlow : sp - 4 * (ws.length + 1) = sp - 4 - 4 * ws.length := by omega
      constructor
      · rw [hlow]
        apply ih _ (by omega)
        intro v hv
        apply hws v (List.mem_cons_of_mem _ hv)
      · rw [show sp - 4 * (ws.length + 1) + 4 * ws.length = sp - 4 by omega]
        have hword : load32 (pushWords (store32 m (sp - 4) w) (sp - 4) ws) (sp - 4)
            = load32 (store32 m (sp - 4) w) (sp - 4) := by
          apply load32_congr
          intro x hx hx'
          apply pushWords_outside _ (by omega) (by omega)
        rw [load32_store32 m (sp - 4) (hws w List.mem_cons_self)] at hword
        exact ⟨hword, trivial⟩

end ByteMemory
