import Dmos.Dev.Console
import Dmos.Library.PartialRun

/-!
# The parameters of an escape sequence

`ESC [` starts a sequence of parameters separated by `;`, which the next other character ends.
`Parse` tells where a text is in its sequences, from its characters alone, and the console's
state of writing and index of parameters follow it (`Parses`).  After ten separators the index
is behind the last parameter, and there it stores a digit all the same, and reads it for a style
(`accesses_inside_iff`).
-/

namespace Dmos

/-- The place of a text in its escape sequences: outside, behind `ESC`, or behind a number of
separators of a sequence. -/
inductive Parse where
  | text
  | esc
  | params (n : Nat)

/-- The place behind one more character. -/
def Parse.next : Parse → UInt8 → Parse
  | .text, c => if c = asciiEsc then .esc else .text
  | .esc, c => if c = 91 then .params 0 else .text
  | .params n, c =>
      if 48 ≤ c ∧ c ≤ 57 then .params n
      else if c = 59 ∧ n < 10 then .params (n + 1)
      else .text

/-- The place at the end of a text. -/
def Parse.scan (chs : List UInt8) : Parse :=
  chs.foldl Parse.next .text

namespace Console

variable {s t : Console} {c : UInt8}

/-! ### The state of writing -/

theorem writeState_moveForward (s : Console) (n : Nat) :
  (s.moveForward n).writeState = s.writeState
  := by
  induction n generalizing s with
  | zero => rfl
  | succ n ih =>
      rw [moveForward, ih, moveForward.step]
      dsimp only
      split_ifs <;> rfl

theorem writeState_moveBackward_loop (status : Int) (s : Console) (n : Nat) :
  (moveBackward.loop status s n).2.writeState = s.writeState
  := by
  induction n generalizing s status with
  | zero => rfl
  | succ n ih =>
      rw [moveBackward.loop]
      split_ifs <;> apply ih

theorem writeState_moveBackward (s : Console) (n : Nat) :
  (s.moveBackward n).2.writeState = s.writeState
  := writeState_moveBackward_loop (-1) s n

theorem writeState_showChar (s : Console) (c : UInt8) :
  (s.showChar c).writeState = s.writeState
  := writeState_moveForward _ 1

theorem writeState_ereaseBack (s : Console) :
  s.ereaseBack.writeState = s.writeState
  := by
  have hback := writeState_moveBackward s 1
  unfold ereaseBack
  rcases hs : s.moveBackward 1 with ⟨status, t⟩
  rw [hs] at hback
  dsimp only at hback ⊢
  split_ifs
  · rw [writeState_moveBackward, writeState_showChar, hback]
  · apply hback

theorem writeState_movNextRow (s : Console) :
  s.movNextRow.writeState = s.writeState
  := by
  rw [movNextRow]
  dsimp only
  split_ifs <;> rfl

theorem writeState_writeNomal (s : Console) (ch : UInt8) :
  (s.writeNomal ch).writeState = if ch = asciiEsc then .esc else s.writeState
  := by
  by_cases hesc : ch = asciiEsc
  · rw [if_pos hesc, writeNomal, if_pos hesc]
  · rw [if_neg hesc, writeNomal, if_neg hesc]
    split_ifs
    · apply writeState_ereaseBack
    · apply writeState_moveBackward
    · rfl
    · apply writeState_movNextRow
    · apply writeState_showChar
    · rfl

/-! ### The array -/

theorem paramIndex_of_range {i : Int} (hlo : 0 ≤ i) (hhi : i < escParamMax) :
  ∃ k, paramIndex i = some k
  := by
  rw [paramIndex, dif_pos ⟨hlo, hhi⟩]
  exact ⟨_, rfl⟩

theorem paramIndex_eq_none {i : Int} (h : escParamMax ≤ i) :
  paramIndex i = none
  := by
  rw [paramIndex, dif_neg]
  omega

/-- The styles of `n` parameters change colors only. -/
theorem setFontStyle_loop {i : Int} {n : Nat} (hi : 0 ≤ i) (hn : i + n ≤ escParamMax) :
  ∃ foreground background, setFontStyle.loop s i n
    = some { s with foreground := foreground, background := background }
  := by
  induction n generalizing s i with
  | zero => exact ⟨s.foreground, s.background, rfl⟩
  | succ n ih =>
      obtain ⟨k, hk⟩ := paramIndex_of_range hi (by omega)
      rw [setFontStyle.loop, hk]
      obtain ⟨foreground, background, hstyle⟩ : ∃ foreground background,
          setFontStyle.style s (s.escParam k)
            = { s with foreground := foreground, background := background } := by
        rw [setFontStyle.style]
        split_ifs <;> exact ⟨_, _, rfl⟩
      dsimp only
      rw [hstyle]
      apply ih <;> omega

theorem setFontStyle_loop_eq_none {i : Int} {n : Nat} (hi : i ≤ escParamMax)
    (hn : escParamMax < i + n) :
  setFontStyle.loop s i n = none
  := by
  induction n generalizing s i with
  | zero => omega
  | succ n ih =>
      rw [setFontStyle.loop]
      cases hk : paramIndex i with
      | none => rfl
      | some k =>
          have hlt : i ≠ escParamMax := by
            intro h
            rw [paramIndex_eq_none (by omega)] at hk
            cases hk
          apply ih <;> omega

/-- The end of a sequence has a result, with the same state of writing and index, unless it is
that of a sequence of too many styles. -/
theorem writeEscSquare_final (hindex : 0 ≤ s.currParamIndex) :
  (∃ t, writeEscSquare.final s c = some t) ↔ (c = 109 → s.currParamIndex ≤ escParamMax)
  := by
  rw [writeEscSquare.final]
  by_cases hstyle : c = 109
  · rw [if_pos hstyle, setFontStyle]
    by_cases hle : s.currParamIndex ≤ escParamMax
    · obtain ⟨foreground, background, hloop⟩ :=
        setFontStyle_loop (s := s) (le_refl 0) (n := s.currParamIndex.toNat) (by omega)
      rw [hloop]
      exact iff_of_true ⟨_, rfl⟩ fun _ => hle
    · rw [setFontStyle_loop_eq_none (by decide) (by omega)]
      exact iff_of_false (by rintro ⟨t, heq⟩; cases heq) fun h => hle (h hstyle)
  · rw [if_neg hstyle]
    split_ifs <;> exact iff_of_true ⟨_, rfl⟩ fun h => absurd h hstyle

/-- The indexes at which a character stores or reads parameters, those apart that are always
the first and the second. -/
def accesses (s : Console) (c : UInt8) : List Int :=
  if s.writeState = .square then
    -- '0' to '9', 'm'
    if 48 ≤ c ∧ c ≤ 57 then [s.currParamIndex]
    else if c = 109 then (List.range (s.currParamIndex + 1).toNat).map fun i : Nat => (i : Int)
    else []
  else []

/-- The index is in the array. -/
def InArray (i : Int) : Prop :=
  0 ≤ i ∧ i < escParamMax

theorem inArray_iff {i : Int} :
  InArray i ↔ 0 ≤ i ∧ i < 10
  := Iff.rfl

/-- A character has a result exactly when all its accesses are inside of the array. -/
theorem char_iff_accesses (hindex : s.writeState = .square → 0 ≤ s.currParamIndex) :
  (∃ t, consoleWrite.char s c = some t) ↔ ∀ i ∈ s.accesses c, InArray i
  := by
  rw [consoleWrite.char, accesses]
  cases hstate : s.writeState with
  | nomal => exact iff_of_true ⟨_, rfl⟩ (by simp)
  | esc => exact iff_of_true ⟨_, rfl⟩ (by simp)
  | square =>
      have hnonneg := hindex hstate
      dsimp only
      rw [if_pos rfl, writeEscSquare]
      by_cases hdigit : 48 ≤ c ∧ c ≤ 57
      · rw [if_pos hdigit, if_pos hdigit, List.forall_mem_singleton, writeEscSquare.digit]
        by_cases hlt : s.currParamIndex < escParamMax
        · obtain ⟨k, hk⟩ := paramIndex_of_range hnonneg hlt
          rw [hk]
          exact iff_of_true ⟨_, rfl⟩ ⟨hnonneg, hlt⟩
        · rw [paramIndex_eq_none (by omega)]
          exact iff_of_false (by rintro ⟨t, heq⟩; cases heq) fun h => hlt h.2
      rw [if_neg hdigit, if_neg hdigit]
      by_cases hsep : c = 59 ∧ s.currParamIndex < escParamMax
      · rw [if_pos hsep, if_neg (by rw [hsep.1]; decide)]
        exact iff_of_true ⟨_, rfl⟩ nofun
      rw [if_neg hsep]
      have hfinal := writeEscSquare_final (s := { s with currParamIndex := s.currParamIndex + 1 })
        (c := c) (show 0 ≤ s.currParamIndex + 1 by omega)
      dsimp only at hfinal
      refine Iff.trans (b := ∃ t, writeEscSquare.final
        { s with currParamIndex := s.currParamIndex + 1 } c = some t) ?_ (hfinal.trans ?_)
      · cases writeEscSquare.final { s with currParamIndex := s.currParamIndex + 1 } c with
        | none =>
            constructor <;>
            · rintro ⟨t, heq⟩
              cases heq
        | some u => exact iff_of_true ⟨_, rfl⟩ ⟨_, rfl⟩
      by_cases hstyle : c = 109
      · rw [if_pos hstyle]
        constructor
        · intro hle i hi
          have := hle hstyle
          rw [List.mem_map] at hi
          obtain ⟨k, hk, rfl⟩ := hi
          rw [List.mem_range] at hk
          constructor <;> omega
        · intro hall _
          have hlast := (hall s.currParamIndex (List.mem_map.mpr
            ⟨s.currParamIndex.toNat, List.mem_range.mpr (by omega), by omega⟩)).2
          omega
      · rw [if_neg hstyle]
        exact iff_of_true (fun h => absurd h hstyle) nofun

/-! ### The place in a sequence -/

/-- The state of the console at a place of a text. -/
def Parses (s : Console) : Parse → Prop
  | .text => s.writeState = .nomal
  | .esc => s.writeState = .esc
  | .params n => s.writeState = .square ∧ s.currParamIndex = n ∧ n ≤ 10

theorem Parses.index_nonneg {p : Parse} (h : s.Parses p) (hstate : s.writeState = .square) :
  0 ≤ s.currParamIndex
  := by
  cases p with
  | text =>
      rw [show s.writeState = .nomal from h] at hstate
      cases hstate
  | esc =>
      rw [show s.writeState = .esc from h] at hstate
      cases hstate
  | params n =>
      have := h.2.1
      omega

theorem Parses.index_le {p : Parse} (h : s.Parses p) (hstate : s.writeState = .square) :
  s.currParamIndex ≤ escParamMax
  := by
  cases p with
  | text =>
      rw [show s.writeState = .nomal from h] at hstate
      cases hstate
  | esc =>
      rw [show s.writeState = .esc from h] at hstate
      cases hstate
  | params n =>
      rw [show escParamMax = 10 from rfl]
      obtain ⟨-, hindex, hn⟩ := h
      omega

theorem Parses.char {p : Parse} (h : s.Parses p) (hchar : consoleWrite.char s c = some t) :
  t.Parses (p.next c)
  := by
  rw [consoleWrite.char] at hchar
  cases p with
  | text =>
      have hstate : s.writeState = .nomal := h
      rw [hstate] at hchar
      cases hchar
      have hnext := writeState_writeNomal s c
      rw [Parse.next]
      split_ifs with hesc
      · rwa [if_pos hesc] at hnext
      · rwa [if_neg hesc, hstate] at hnext
  | esc =>
      have hstate : s.writeState = .esc := h
      rw [hstate] at hchar
      cases hchar
      rw [Parse.next, writeEsc]
      split_ifs with hsave hsquare hrestore
      · rw [hsave] at hsquare
        cases hsquare
      · rfl
      · rw [hrestore] at *
        rename_i hsquare
        cases hsquare
      · rfl
      · exact ⟨rfl, rfl, by decide⟩
      · rfl
  | params n =>
      obtain ⟨hstate, hindex, hn⟩ := h
      rw [hstate] at hchar
      dsimp only at hchar
      rw [writeEscSquare] at hchar
      rw [Parse.next]
      by_cases hdigit : 48 ≤ c ∧ c ≤ 57
      · rw [if_pos hdigit] at hchar ⊢
        rw [writeEscSquare.digit] at hchar
        cases hk : paramIndex s.currParamIndex with
        | none =>
            rw [hk] at hchar
            cases hchar
        | some k =>
            rw [hk] at hchar
            cases hchar
            exact ⟨hstate, hindex, hn⟩
      rw [if_neg hdigit] at hchar ⊢
      have hsep : (c = 59 ∧ s.currParamIndex < escParamMax) ↔ (c = 59 ∧ n < 10) := by
        rw [hindex, show escParamMax = 10 from rfl]
        apply and_congr_right
        omega
      by_cases hmore : c = 59 ∧ n < 10
      · rw [if_pos (hsep.mpr hmore)] at hchar
        rw [if_pos hmore]
        cases hchar
        refine ⟨hstate, ?_, by omega⟩
        dsimp only
        omega
      · rw [if_neg (fun h => hmore (hsep.mp h))] at hchar
        rw [if_neg hmore]
        split at hchar
        · cases hchar
        · cases hchar
          rfl

theorem Parses.chars {p : Parse} (h : s.Parses p) {chs : List UInt8}
    (hchars : consoleWrite.chars s chs = some t) :
  t.Parses (chs.foldl Parse.next p)
  := by
  rw [consoleWrite.chars] at hchars
  induction chs generalizing s p with
  | nil =>
      cases hchars
      apply h
  | cons c chs ih =>
      rw [PartialRun.foldlM_cons, Option.bind_eq_some_iff] at hchars
      obtain ⟨u, hu, hchars⟩ := hchars
      apply ih (h.char hu) hchars

/-! ### Texts -/

/-- All accesses to the array of parameters in a text are inside. -/
def AccessesInside (s : Console) (chs : List UInt8) : Prop :=
  ∀ pre c, pre ++ [c] <+: chs → ∀ t, consoleWrite.chars s pre = some t →
    ∀ i ∈ t.accesses c, InArray i

/-- No sequence of the text has a digit or a final `m` behind its tenth separator. -/
def FewSeparators (chs : List UInt8) : Prop :=
  ∀ pre c, pre ++ [c] <+: chs → ∀ n, Parse.scan pre = .params n → 10 ≤ n →
    ¬ (48 ≤ c ∧ c ≤ 57) ∧ c ≠ 109

/-- From a console outside of escape sequences. -/
theorem accessesInside_iff (hstate : s.writeState = .nomal) (chs : List UInt8) :
  s.AccessesInside chs ↔ FewSeparators chs
  := by
  have hstart : s.Parses .text := hstate
  constructor
  · intro hinside pre c hpre n hscan hn
    -- the characters before have results, so the console is at this place
    have hruns := (PartialRun.foldlM_keeps_iff (f := consoleWrite.char)
      (I := fun t => ∃ p, t.Parses p) (P := fun _ => True)
      (F := fun t c => ∀ i ∈ t.accesses c, InArray i)
      (fun t c t' ⟨p, hp⟩ hchar => ⟨_, hp.char hchar⟩)
      (fun t c ⟨p, hp⟩ _ => by
        rw [← char_iff_accesses hp.index_nonneg]
        simp)
      ⟨_, hstart⟩ trivial chs).mpr hinside
    obtain ⟨t, ht, -⟩ := hruns pre (List.IsPrefix.trans (List.prefix_append pre [c]) hpre)
    have hparses := hstart.chars ht
    rw [show pre.foldl Parse.next .text = .params n from hscan] at hparses
    obtain ⟨hsquare, hindex, -⟩ := hparses
    have hall := hinside pre c hpre t ht
    rw [accesses, if_pos hsquare] at hall
    constructor
    · intro hdigit
      rw [if_pos hdigit, List.forall_mem_singleton, inArray_iff] at hall
      omega
    · intro hstyle
      rw [if_neg (by rw [hstyle]; decide), if_pos hstyle] at hall
      have hlast := inArray_iff.mp (hall t.currParamIndex (List.mem_map.mpr
        ⟨n, List.mem_range.mpr (by omega), hindex.symm⟩))
      omega
  · intro hfew pre c hpre t ht
    have hparses := hstart.chars ht
    rw [accesses]
    by_cases hsquare : t.writeState = .square
    · rw [if_pos hsquare]
      cases hscan : pre.foldl Parse.next .text with
      | text =>
          rw [hscan, Parses, hsquare] at hparses
          cases hparses
      | esc =>
          rw [hscan, Parses, hsquare] at hparses
          cases hparses
      | params n =>
          rw [hscan] at hparses
          obtain ⟨-, hindex, hn⟩ := hparses
          have hlast := hfew pre c hpre n hscan
          split_ifs with hdigit hstyle
          · have hlt : n < 10 := by
              by_contra hge
              apply (hlast (by omega)).1 hdigit
            rw [List.forall_mem_singleton, inArray_iff]
            omega
          · have hlt : n < 10 := by
              by_contra hge
              apply (hlast (by omega)).2 hstyle
            intro i hi
            rw [List.mem_map] at hi
            obtain ⟨k, hk, rfl⟩ := hi
            rw [List.mem_range] at hk
            rw [inArray_iff]
            omega
          · intro i hi
            cases hi
    · rw [if_neg hsquare]
      intro i hi
      cases hi

/-- A console as it is at boot. -/
def blank : Console where
  writeState := .nomal
  dispBase := 0
  displayRows := consoleRowMax
  displayCols := consoleColMax
  cursorRow := 0
  cursorCol := 0
  foreground := .white
  background := .black
  oldCursorCol := 0
  oldCursorRow := 0
  escParam _ := 0
  currParamIndex := 0
  display := { cells := fun _ => ⟨32, 15, 0⟩, drawn := [] }

/-- `ESC [ 3 1 m`. -/
theorem accessesInside_iff_style :
  blank.AccessesInside [27, 91, 51, 49, 109] ↔ FewSeparators [27, 91, 51, 49, 109]
  := accessesInside_iff rfl _

/-- `ESC [` with ten separators and a digit. -/
theorem not_accessesInside_separators :
  ¬ blank.AccessesInside [27, 91, 59, 59, 59, 59, 59, 59, 59, 59, 59, 59, 53]
  := by
  intro hinside
  have hstart : ∃ t, consoleWrite.chars blank [27, 91, 59, 59, 59, 59, 59, 59, 59, 59, 59, 59]
      = some t ∧ t.accesses 53 = [10] := ⟨_, rfl, rfl⟩
  obtain ⟨t, ht, haccess⟩ := hstart
  have hall := hinside _ 53 (List.prefix_refl _) t ht 10 (by rw [haccess]; simp)
  rw [inArray_iff] at hall
  omega

end Console

end Dmos
