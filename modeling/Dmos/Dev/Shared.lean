import Dmos.Dev.Screen

/-!
# Consoles on one display

The consoles share the display memory.  A console on the shared memory and the same console on a
memory of its own (`Same`) do the same with every character: they agree in all but the memory,
and the memories agree in the cells of the screen.  What the one on its own memory has not drawn
is as it was in the shared memory.
-/

namespace Dmos

open Screen

namespace Display

/-- The memory `d` is like `e` on the screen `w`, and as it was in `old` where `e` has not been
written. -/
structure Matches (w : Screen) (old : Int → DispChar) (d e : Display) : Prop where
  inside : ∀ p, w.Cell p → d.cells p = e.cells p
  outside : ∀ p, p ∉ e.drawn → d.cells p = old p

variable {w : Screen} {old : Int → DispChar} {d e : Display}

theorem Matches.set (h : Matches w old d e) (p : Int) (v : DispChar) :
  Matches w old (d.set p v) (e.set p v)
  := by
  constructor
  · intro q hq
    dsimp only [Display.set]
    rw [Function.update_apply, Function.update_apply, h.inside q hq]
  · intro q hq
    obtain ⟨hne, hq⟩ := not_or.mp (mt List.mem_cons.mpr hq)
    exact (Function.update_of_ne hne _ _).trans (h.outside q hq)

theorem Matches.fill (h : Matches w old d e) (p : Int) (v : DispChar) (n : Nat) :
  Matches w old (d.fill p v n) (e.fill p v n)
  := by
  induction n generalizing d e p with
  | zero => apply h
  | succ n ih => apply ih (h.set p v)

/-- The cells that are copied are read on the screen. -/
theorem Matches.kMemcpy (h : Matches w old d e) {dest src : Int} {n : Nat}
    (hsrc : w.base ≤ src ∧ src + n ≤ w.base + w.rows * w.cols) :
  Matches w old (d.kMemcpy dest src n) (e.kMemcpy dest src n)
  := by
  induction n generalizing d e dest src with
  | zero => apply h
  | succ n ih =>
      have hcell : w.Cell src := by
        unfold Cell
        omega
      rw [Display.kMemcpy, Display.kMemcpy, h.inside src hcell]
      apply ih (h.set dest _)
      omega

end Display

namespace Console

open Display

variable {s t : Console} {w : Screen} {old : Int → DispChar}

/-- The console has the cells of the screen `w`. -/
structure Spans (s : Console) (w : Screen) : Prop where
  base : s.dispBase = w.base
  rows : s.displayRows = w.rows
  cols : s.displayCols = w.cols

/-- The console on another memory. -/
def on (s : Console) (d : Display) : Console :=
  { s with display := d }

/-- The console `t` is `s` on a memory that is like its own on the screen `w`. -/
def Same (w : Screen) (old : Int → DispChar) (t s : Console) : Prop :=
  ∃ d, t = s.on d ∧ s.Spans w ∧ Matches w old d s.display

/-- Both consoles take the same branch. -/
theorem Same.ite {s' t' : Console} {b c : Prop} [Decidable b] [Decidable c] (hiff : b ↔ c)
    (h : Same w old t s) (h' : Same w old t' s') :
  Same w old (if b then t else t') (if c then s else s')
  := by
  by_cases hb : b
  · rw [if_pos hb, if_pos (hiff.mp hb)]
    exact h
  · rw [if_neg hb, if_neg (mt hiff.mpr hb)]
    exact h'

/-! ### Drawing -/

theorem Same.ereaseRows (h : Same w old t s) (start stop : Int) :
  Same w old (t.ereaseRows start stop) (s.ereaseRows start stop)
  := by
  obtain ⟨d, rfl, hw, hd⟩ := h
  exact ⟨_, rfl, ⟨hw.base, hw.rows, hw.cols⟩, hd.fill _ _ _⟩

theorem Same.scrollUp (h : Same w old t s) :
  Same w old (t.scrollUp 1) (s.scrollUp 1)
  := by
  obtain ⟨d, rfl, hw, hd⟩ := h
  have hsize : (((s.displayRows - 1) * s.displayCols * 2) % 2 ^ 32 / 2).toNat
      = ((w.rows - 1) * w.cols).toNat := by
    have hrest := w.rest_nonneg
    have harea := w.area
    have hcols := w.cols_pos
    rw [hw.rows, hw.cols, Int.emod_eq_of_lt (by omega) (by omega),
      Int.mul_ediv_cancel _ (by decide)]
  have hrest := w.rest_nonneg
  have hcols := w.cols_pos
  have hbase := hw.base
  have hwidth := hw.cols
  have hcopied : Matches w old
      (d.kMemcpy s.dispBase (s.dispBase + s.displayCols * 1)
        (((s.displayRows - 1) * s.displayCols * 2) % 2 ^ 32 / 2).toNat)
      (s.display.kMemcpy s.dispBase (s.dispBase + s.displayCols * 1)
        (((s.displayRows - 1) * s.displayCols * 2) % 2 ^ 32 / 2).toNat) := by
    apply hd.kMemcpy
    rw [hsize]
    omega
  exact ⟨_, rfl, ⟨hw.base, hw.rows, hw.cols⟩, hcopied.fill _ _ _⟩

theorem Same.moveForward_step (h : Same w old t s) :
  Same w old (moveForward.step t) (moveForward.step s)
  := by
  obtain ⟨d, rfl, hw, hd⟩ := h
  have hnext : Same w old
      { s.on d with cursorRow := s.cursorRow + 1, cursorCol := 0 }
      { s with cursorRow := s.cursorRow + 1, cursorCol := 0 } :=
    ⟨d, rfl, ⟨hw.base, hw.rows, hw.cols⟩, hd⟩
  apply Same.ite Iff.rfl
  · exact Same.ite Iff.rfl hnext.scrollUp hnext
  · exact ⟨d, rfl, ⟨hw.base, hw.rows, hw.cols⟩, hd⟩

theorem Same.moveForward (h : Same w old t s) (n : Nat) :
  Same w old (t.moveForward n) (s.moveForward n)
  := by
  induction n generalizing t s with
  | zero => apply h
  | succ n ih => apply ih h.moveForward_step

theorem Same.moveBackward_loop (h : Same w old t s) (n : Nat) (status : Int) :
  (moveBackward.loop status t n).1 = (moveBackward.loop status s n).1
    ∧ Same w old (moveBackward.loop status t n).2 (moveBackward.loop status s n).2
  := by
  induction n generalizing t s status with
  | zero => exact ⟨rfl, h⟩
  | succ n ih =>
      obtain ⟨d, rfl, hw, hd⟩ := h
      rw [moveBackward.loop, moveBackward.loop]
      by_cases hcol : 0 < s.cursorCol
      · rw [if_pos hcol, if_pos (show 0 < (s.on d).cursorCol from hcol)]
        apply ih
        exact ⟨d, rfl, ⟨hw.base, hw.rows, hw.cols⟩, hd⟩
      rw [if_neg hcol, if_neg (show ¬ 0 < (s.on d).cursorCol from hcol)]
      by_cases hrow : 0 < s.cursorRow
      · rw [if_pos hrow, if_pos (show 0 < (s.on d).cursorRow from hrow)]
        apply ih
        exact ⟨d, rfl, ⟨hw.base, hw.rows, hw.cols⟩, hd⟩
      · rw [if_neg hrow, if_neg (show ¬ 0 < (s.on d).cursorRow from hrow)]
        apply ih
        exact ⟨d, rfl, hw, hd⟩

theorem Same.moveBackward (h : Same w old t s) (n : Nat) :
  (t.moveBackward n).1 = (s.moveBackward n).1
    ∧ Same w old (t.moveBackward n).2 (s.moveBackward n).2
  := h.moveBackward_loop n (-1)

theorem Same.showChar (h : Same w old t s) (c : UInt8) :
  Same w old (t.showChar c) (s.showChar c)
  := by
  obtain ⟨d, rfl, hw, hd⟩ := h
  apply Same.moveForward
  exact ⟨_, rfl, ⟨hw.base, hw.rows, hw.cols⟩, hd.set _ _⟩

theorem Same.ereaseBack (h : Same w old t s) :
  Same w old t.ereaseBack s.ereaseBack
  := by
  obtain ⟨hstatus, hback⟩ := h.moveBackward 1
  unfold Console.ereaseBack
  rcases ht : t.moveBackward 1 with ⟨status, t'⟩
  rcases hs : s.moveBackward 1 with ⟨status', s'⟩
  rw [ht, hs] at hstatus hback
  cases hstatus
  exact Same.ite Iff.rfl ((hback.showChar 32).moveBackward 1).2 hback

theorem Same.movNextRow (h : Same w old t s) :
  Same w old t.movNextRow s.movNextRow
  := by
  obtain ⟨d, rfl, hw, hd⟩ := h
  have hnext : Same w old { s.on d with cursorRow := s.cursorRow + 1 }
      { s with cursorRow := s.cursorRow + 1 } :=
    ⟨d, rfl, ⟨hw.base, hw.rows, hw.cols⟩, hd⟩
  exact Same.ite Iff.rfl hnext.scrollUp hnext

theorem Same.movToCol0 (h : Same w old t s) :
  Same w old t.movToCol0 s.movToCol0
  := by
  obtain ⟨d, rfl, hw, hd⟩ := h
  exact ⟨d, rfl, ⟨hw.base, hw.rows, hw.cols⟩, hd⟩

/-! ### Characters -/

theorem Same.writeNomal (h : Same w old t s) (ch : UInt8) :
  Same w old (t.writeNomal ch) (s.writeNomal ch)
  := by
  unfold Console.writeNomal
  split_ifs
  · obtain ⟨d, rfl, hw, hd⟩ := h
    exact ⟨d, rfl, ⟨hw.base, hw.rows, hw.cols⟩, hd⟩
  · apply h.ereaseBack
  · apply (h.moveBackward 1).2
  · apply h.movToCol0
  · apply h.movToCol0.movNextRow
  · apply h.showChar
  · apply h

theorem Same.writeEsc (h : Same w old t s) (ch : UInt8) :
  Same w old (t.writeEsc ch) (s.writeEsc ch)
  := by
  obtain ⟨d, rfl, hw, hd⟩ := h
  unfold Console.writeEsc
  split_ifs <;> exact ⟨d, rfl, ⟨hw.base, hw.rows, hw.cols⟩, hd⟩

theorem Same.moveLeft (h : Same w old t s) (n : Int) :
  Same w old (t.moveLeft n) (s.moveLeft n)
  := by
  obtain ⟨d, rfl, hw, hd⟩ := h
  exact ⟨d, rfl, ⟨hw.base, hw.rows, hw.cols⟩, hd⟩

theorem Same.moveRight (h : Same w old t s) (n : Int) :
  Same w old (t.moveRight n) (s.moveRight n)
  := by
  obtain ⟨d, rfl, hw, hd⟩ := h
  exact Same.ite Iff.rfl ⟨d, rfl, ⟨hw.base, hw.rows, hw.cols⟩, hd⟩
    ⟨d, rfl, ⟨hw.base, hw.rows, hw.cols⟩, hd⟩

theorem Same.moveCursor (h : Same w old t s) :
  Same w old t.moveCursor s.moveCursor
  := by
  obtain ⟨d, rfl, hw, hd⟩ := h
  unfold Console.moveCursor
  by_cases hrow : 1 ≤ s.currParamIndex
  · rw [if_pos hrow, if_pos (show 1 ≤ (s.on d).currParamIndex from hrow)]
    exact Same.ite Iff.rfl ⟨d, rfl, ⟨hw.base, hw.rows, hw.cols⟩, hd⟩
      ⟨d, rfl, ⟨hw.base, hw.rows, hw.cols⟩, hd⟩
  · rw [if_neg hrow, if_neg (show ¬ 1 ≤ (s.on d).currParamIndex from hrow)]
    exact Same.ite Iff.rfl ⟨d, rfl, ⟨hw.base, hw.rows, hw.cols⟩, hd⟩ ⟨d, rfl, hw, hd⟩

theorem Same.eraseInDisplay (h : Same w old t s) :
  Same w old t.eraseInDisplay s.eraseInDisplay
  := by
  have herased := h.ereaseRows 0 (s.displayRows - 1)
  obtain ⟨d, rfl, hw, hd⟩ := h
  obtain ⟨d', heq, hw', hd'⟩ := herased
  apply Same.ite Iff.rfl
  · exact ⟨d, rfl, hw, hd⟩
  apply Same.ite Iff.rfl
  · refine ⟨d', ?_, ⟨hw'.base, hw'.rows, hw'.cols⟩, hd'⟩
    change { (s.on d).ereaseRows 0 (s.displayRows - 1) with cursorCol := 0, cursorRow := 0 } = _
    rw [heq]
    rfl
  · exact ⟨d, rfl, hw, hd⟩

theorem Same.style (h : Same w old t s) (param : Int) :
  Same w old (setFontStyle.style t param) (setFontStyle.style s param)
  := by
  obtain ⟨d, rfl, hw, hd⟩ := h
  unfold setFontStyle.style
  split_ifs <;> exact ⟨d, rfl, ⟨hw.base, hw.rows, hw.cols⟩, hd⟩

theorem Same.setFontStyle_loop (h : Same w old t s) (i : Int) (n : Nat) :
  Option.Rel (Same w old) (setFontStyle.loop t i n) (setFontStyle.loop s i n)
  := by
  induction n generalizing t s i with
  | zero => exact .some h
  | succ n ih =>
      rw [setFontStyle.loop, setFontStyle.loop]
      cases paramIndex i with
      | none => exact .none
      | some k =>
          have hparam : t.escParam k = s.escParam k := by
            obtain ⟨d, rfl, -⟩ := h
            rfl
          dsimp only
          rw [hparam]
          apply ih (h.style _)

theorem Same.final (h : Same w old t s) (c : UInt8) :
  Option.Rel (Same w old) (writeEscSquare.final t c) (writeEscSquare.final s c)
  := by
  have hparam : t.escParam = s.escParam := by
    obtain ⟨d, rfl, -⟩ := h
    rfl
  have hindex : t.currParamIndex = s.currParamIndex := by
    obtain ⟨d, rfl, -⟩ := h
    rfl
  unfold writeEscSquare.final
  rw [hparam]
  split_ifs
  · unfold setFontStyle
    rw [hindex]
    apply h.setFontStyle_loop
  · exact .some (h.moveLeft _)
  · exact .some (h.moveRight _)
  · exact .some h.moveCursor
  · exact .some h.eraseInDisplay
  · exact .some h

theorem Same.writeEscSquare (h : Same w old t s) (c : UInt8) :
  Option.Rel (Same w old) (t.writeEscSquare c) (s.writeEscSquare c)
  := by
  have hindex : t.currParamIndex = s.currParamIndex := by
    obtain ⟨d, rfl, -⟩ := h
    rfl
  have hnext (i : Int) : Same w old { t with currParamIndex := i }
      { s with currParamIndex := i } := by
    obtain ⟨d, rfl, hw, hd⟩ := h
    exact ⟨d, rfl, ⟨hw.base, hw.rows, hw.cols⟩, hd⟩
  unfold Console.writeEscSquare
  rw [hindex]
  split_ifs
  · unfold writeEscSquare.digit
    rw [hindex]
    cases paramIndex s.currParamIndex with
    | none => exact .none
    | some k =>
        obtain ⟨d, rfl, hw, hd⟩ := h
        exact .some ⟨d, rfl, ⟨hw.base, hw.rows, hw.cols⟩, hd⟩
  · exact .some (hnext _)
  · have hfinal := (hnext (s.currParamIndex + 1)).final c
    revert hfinal
    generalize writeEscSquare.final { t with currParamIndex := s.currParamIndex + 1 } c = t'
    generalize writeEscSquare.final { s with currParamIndex := s.currParamIndex + 1 } c = s'
    rintro (hfinal | _)
    · obtain ⟨d, rfl, hw, hd⟩ := hfinal
      exact .some ⟨d, rfl, ⟨hw.base, hw.rows, hw.cols⟩, hd⟩
    · exact .none

/-- A character does the same on both memories. -/
theorem Same.char (h : Same w old t s) (ch : UInt8) :
  Option.Rel (Same w old) (consoleWrite.char t ch) (consoleWrite.char s ch)
  := by
  have hstate : t.writeState = s.writeState := by
    obtain ⟨d, rfl, -⟩ := h
    rfl
  unfold consoleWrite.char
  rw [hstate]
  cases s.writeState with
  | nomal => exact .some (h.writeNomal ch)
  | esc => exact .some (h.writeEsc ch)
  | square => apply h.writeEscSquare

-- the cells of a screen are not counted
attribute [local irreducible] Display.fill

/-- A console that is initialised spans its screen, whatever it was. -/
theorem same_consoleInit {idx : Int} {d : Display} (hd : Matches (screenOf idx) old d s.display)
    (cursorPos : Int) :
  Same (screenOf idx) old ((s.on d).consoleInit idx cursorPos) (s.consoleInit idx cursorPos)
  := by
  unfold consoleInit
  dsimp only
  by_cases hidx : idx = 0
  · rw [if_pos hidx, if_pos hidx]
    exact ⟨d, rfl, ⟨rfl, rfl, rfl⟩, hd⟩
  · rw [if_neg hidx, if_neg hidx]
    exact ⟨_, rfl, ⟨rfl, rfl, rfl⟩, hd.fill _ _ _⟩

theorem spans_consoleInit (s : Console) (idx cursorPos : Int) :
  (s.consoleInit idx cursorPos).Spans (screenOf idx)
  := by
  unfold consoleInit
  dsimp only
  split_ifs <;> exact ⟨rfl, rfl, rfl⟩

/-- A console is the same as itself. -/
theorem same_self (h : s.Spans w) :
  Same w s.display.cells s s
  := ⟨s.display, rfl, h, fun _ _ => rfl, fun _ _ => rfl⟩

end Console

end Dmos
