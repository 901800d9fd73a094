import Dmos.Dev.EscParam

/-!
# The screen of a console

A console draws in the cells of its own screen, and keeps its cursor and the saved one on it
(`OnScreen`), as long as the moves it is asked for by escape sequences lead to a place on the
screen (`Fits`).  `moveCursor` takes the place from the sequence as it is, and the relative
moves only look at one end of the row.
-/

namespace Dmos

/-- The rows and columns of a console, and its first cell. -/
structure Screen where
  base : Int
  rows : Int
  cols : Int
  rows_pos : 0 < rows
  cols_pos : 0 < cols
  area : rows * cols < 2 ^ 31

namespace Screen

variable (w : Screen)

/-- A place on the screen. -/
def Contains (row col : Int) : Prop :=
  (0 ≤ row ∧ row < w.rows) ∧ 0 ≤ col ∧ col < w.cols

/-- The cells of the screen. -/
def Cell (p : Int) : Prop :=
  w.base ≤ p ∧ p < w.base + w.rows * w.cols

variable {w}

/-- The offset of a place. -/
theorem offset_bounds {row col : Int} (h : w.Contains row col) :
  0 ≤ col + row * w.cols ∧ col + row * w.cols < w.rows * w.cols
  := by
  obtain ⟨⟨hrow, hrows⟩, hcol, hcols⟩ := h
  constructor
  · have := Int.mul_nonneg hrow w.cols_pos.le
    omega
  · have hle : row * w.cols ≤ (w.rows - 1) * w.cols :=
      Int.mul_le_mul_of_nonneg_right (by omega) w.cols_pos.le
    rw [Int.sub_mul, Int.one_mul] at hle
    omega

theorem cell_offset {row col : Int} (h : w.Contains row col) :
  w.Cell (w.base + (col + row * w.cols))
  := by
  have := offset_bounds h
  unfold Cell
  omega

theorem rest_nonneg (w : Screen) :
  0 ≤ (w.rows - 1) * w.cols ∧ (w.rows - 1) * w.cols = w.rows * w.cols - w.cols
  := by
  have hrows := w.rows_pos
  have hmul := Int.mul_nonneg (show 0 ≤ w.rows - 1 by omega) w.cols_pos.le
  use hmul
  rw [Int.sub_mul, Int.one_mul]

end Screen

theorem int32_of_bounds {x : Int} (hlo : -2 ^ 31 ≤ x) (hhi : x < 2 ^ 31) :
  int32 x = x
  := by
  rw [int32]
  apply Int.bmod_eq_of_le <;> omega

namespace Console

open Screen

variable {s t : Console} {w : Screen} {row col : Int}

/-- Everything but the cursor: the console draws on the screen `w`, it has done so, and the
saved cursor is on it. -/
structure DrawsOn (s : Console) (w : Screen) : Prop where
  base : s.dispBase = w.base
  rows : s.displayRows = w.rows
  cols : s.displayCols = w.cols
  saved : w.Contains s.oldCursorRow s.oldCursorCol
  drawn : ∀ p ∈ s.display.drawn, w.Cell p

/-- The console and its cursor keep to the screen `w`. -/
structure OnScreen (s : Console) (w : Screen) : Prop extends DrawsOn s w where
  cursor : w.Contains s.cursorRow s.cursorCol

/-! ### Drawing -/

theorem DrawsOn.setCursor (h : s.DrawsOn w) (row col : Int) :
  DrawsOn { s with cursorRow := row, cursorCol := col } w
  := ⟨h.base, h.rows, h.cols, h.saved, h.drawn⟩

theorem DrawsOn.setDisplay (h : s.DrawsOn w) {d : Display}
    (hdrawn : ∀ p ∈ d.drawn, p ∈ s.display.drawn ∨ w.Cell p) :
  DrawsOn { s with display := d } w
  := by
  refine ⟨h.base, h.rows, h.cols, h.saved, ?_⟩
  intro p hp
  rcases hdrawn p hp with hp | hp
  · apply h.drawn p hp
  · apply hp

theorem DrawsOn.ereaseRows (h : s.DrawsOn w) {start stop : Int} (hstart : 0 ≤ start)
    (hstop : stop < w.rows) :
  (s.ereaseRows start stop).DrawsOn w
  := by
  apply h.setDisplay
  intro p hp
  rw [Display.mem_drawn_fill, h.base, h.cols] at hp
  rcases hp with hp | hp
  · exact .inl hp
  · right
    have hlo := Int.mul_nonneg w.cols_pos.le hstart
    have hhi : w.cols * (stop + 1) ≤ w.cols * w.rows :=
      Int.mul_le_mul_of_nonneg_left (by omega) w.cols_pos.le
    rw [Int.mul_comm w.cols w.rows] at hhi
    unfold Cell
    omega

/-- The number of cells `scrollUp` copies. -/
theorem DrawsOn.scroll_size (h : s.DrawsOn w) :
  (((s.displayRows - 1) * s.displayCols * 2) % 2 ^ 32 / 2).toNat
    = ((w.rows - 1) * w.cols).toNat
  := by
  have hrest := w.rest_nonneg
  have harea := w.area
  have hcols := w.cols_pos
  rw [h.rows, h.cols, Int.emod_eq_of_lt (by omega) (by omega), Int.mul_ediv_cancel _ (by decide)]

theorem DrawsOn.scrollUp (h : s.DrawsOn w) :
  (s.scrollUp 1).DrawsOn w
  := by
  have hrest := w.rest_nonneg
  have hcols := w.cols_pos
  have hrows := w.rows_pos
  unfold Console.scrollUp
  dsimp only
  rw [h.scroll_size]
  have hcopied : DrawsOn
      { s with
        display := s.display.kMemcpy s.dispBase (s.dispBase + s.displayCols * 1)
          ((w.rows - 1) * w.cols).toNat } w := by
    apply h.setDisplay
    intro p hp
    rw [Display.mem_drawn_kMemcpy, h.base] at hp
    rcases hp with hp | hp
    · exact .inl hp
    · right
      unfold Cell
      omega
  have herased := hcopied.ereaseRows (show 0 ≤ s.displayRows - 1 by rw [h.rows]; omega)
    (show s.displayRows - 1 < w.rows by rw [h.rows]; omega)
  exact ⟨herased.base, herased.rows, herased.cols, herased.saved, herased.drawn⟩

/-- The cursor goes to the next row, which is the last one if it was. -/
theorem DrawsOn.nextRow (h : s.DrawsOn w) (hcursor : w.Contains row col)
    (hrow : s.cursorRow = row + 1) (hcol : 0 ≤ s.cursorCol ∧ s.cursorCol < w.cols) :
  (if s.displayRows ≤ s.cursorRow then s.scrollUp 1 else s).OnScreen w
  := by
  obtain ⟨⟨hlo, hhi⟩, -⟩ := hcursor
  have hrows := h.rows
  split_ifs with hlast
  · refine ⟨h.scrollUp, ?_, hcol⟩
    change 0 ≤ s.cursorRow - 1 ∧ s.cursorRow - 1 < w.rows
    omega
  · exact ⟨h, ⟨by omega, by omega⟩, hcol⟩

theorem OnScreen.moveForward_step (h : s.OnScreen w) :
  (moveForward.step s).OnScreen w
  := by
  obtain ⟨hdraws, hcursor⟩ := h
  have hcols := hdraws.cols
  obtain ⟨hrow, hcol, hcol'⟩ := hcursor
  unfold moveForward.step
  dsimp only
  split_ifs with hwrap hlast
  · have hnext := (hdraws.setCursor (s.cursorRow + 1) 0).nextRow ⟨hrow, hcol, hcol'⟩ rfl
      ⟨le_refl 0, w.cols_pos⟩
    rw [if_pos hlast] at hnext
    exact hnext
  · have hnext := (hdraws.setCursor (s.cursorRow + 1) 0).nextRow ⟨hrow, hcol, hcol'⟩ rfl
      ⟨le_refl 0, w.cols_pos⟩
    rw [if_neg hlast] at hnext
    exact hnext
  · refine ⟨hdraws.setCursor s.cursorRow (s.cursorCol + 1), hrow, ?_⟩
    change 0 ≤ s.cursorCol + 1 ∧ s.cursorCol + 1 < w.cols
    omega

theorem OnScreen.moveForward (h : s.OnScreen w) (n : Nat) :
  (s.moveForward n).OnScreen w
  := by
  induction n generalizing s with
  | zero => apply h
  | succ n ih => apply ih h.moveForward_step

theorem OnScreen.moveBackward_loop (h : s.OnScreen w) (n : Nat) (status : Int) :
  (moveBackward.loop status s n).2.OnScreen w
  := by
  induction n generalizing s status with
  | zero => apply h
  | succ n ih =>
      obtain ⟨hdraws, hrow, hcol⟩ := h
      rw [moveBackward.loop]
      split_ifs with hpos hpos'
      · apply ih
        refine ⟨hdraws.setCursor s.cursorRow (s.cursorCol - 1), hrow, ?_⟩
        change 0 ≤ s.cursorCol - 1 ∧ s.cursorCol - 1 < w.cols
        omega
      · apply ih
        refine ⟨hdraws.setCursor (s.cursorRow - 1) (s.displayCols - 1), ?_, ?_⟩
        · change 0 ≤ s.cursorRow - 1 ∧ s.cursorRow - 1 < w.rows
          omega
        · change 0 ≤ s.displayCols - 1 ∧ s.displayCols - 1 < w.cols
          have hcols := w.cols_pos
          rw [hdraws.cols]
          omega
      · exact ih ⟨hdraws, hrow, hcol⟩ status

theorem OnScreen.moveBackward (h : s.OnScreen w) (n : Nat) :
  (s.moveBackward n).2.OnScreen w
  := h.moveBackward_loop n (-1)

theorem OnScreen.showChar (h : s.OnScreen w) (c : UInt8) :
  (s.showChar c).OnScreen w
  := by
  have hoffset := offset_bounds h.cursor
  have hcell := cell_offset h.cursor
  have harea := w.area
  apply OnScreen.moveForward
  refine ⟨?_, h.cursor⟩
  apply h.toDrawsOn.setDisplay
  intro p hp
  rw [h.base, h.cols, int32_of_bounds (by omega) (by omega)] at hp
  rcases List.mem_cons.mp hp with rfl | hp
  · exact .inr hcell
  · exact .inl hp

theorem OnScreen.ereaseBack (h : s.OnScreen w) :
  s.ereaseBack.OnScreen w
  := by
  have hback := h.moveBackward 1
  unfold Console.ereaseBack
  rcases hs : s.moveBackward 1 with ⟨status, t⟩
  rw [hs] at hback
  dsimp only at hback ⊢
  split_ifs
  · apply (hback.showChar 32).moveBackward
  · apply hback

theorem OnScreen.movToCol0 (h : s.OnScreen w) :
  s.movToCol0.OnScreen w
  := ⟨h.toDrawsOn.setCursor s.cursorRow 0, h.cursor.1, le_refl 0, w.cols_pos⟩

theorem OnScreen.movNextRow (h : s.OnScreen w) :
  s.movNextRow.OnScreen w
  := (h.toDrawsOn.setCursor (s.cursorRow + 1) s.cursorCol).nextRow h.cursor rfl h.cursor.2

theorem OnScreen.writeNomal (h : s.OnScreen w) (ch : UInt8) :
  (s.writeNomal ch).OnScreen w
  := by
  unfold Console.writeNomal
  split_ifs
  · exact ⟨⟨h.base, h.rows, h.cols, h.saved, h.drawn⟩, h.cursor⟩
  · apply h.ereaseBack
  · apply h.moveBackward
  · apply h.movToCol0
  · apply h.movToCol0.movNextRow
  · apply h.showChar
  · apply h

theorem OnScreen.writeEsc (h : s.OnScreen w) (ch : UInt8) :
  (s.writeEsc ch).OnScreen w
  := by
  unfold Console.writeEsc
  split_ifs
  · exact ⟨⟨h.base, h.rows, h.cols, h.cursor, h.drawn⟩, h.cursor⟩
  · exact ⟨⟨h.base, h.rows, h.cols, h.saved, h.drawn⟩, h.saved⟩
  · exact ⟨⟨h.base, h.rows, h.cols, h.saved, h.drawn⟩, h.cursor⟩
  · exact ⟨⟨h.base, h.rows, h.cols, h.saved, h.drawn⟩, h.cursor⟩

/-! ### Escape sequences -/

/-- The column a move to the left leads to. -/
def leftCol (s : Console) : Int :=
  int32 (s.cursorCol - if s.escParam 0 = 0 then 1 else s.escParam 0)

/-- The column a move to the right leads to. -/
def rightCol (s : Console) : Int :=
  int32 (s.cursorCol + if s.escParam 0 = 0 then 1 else s.escParam 0)

/-- A character of a sequence does not lead off the screen: digits and the end of a sequence of
styles find their parameters in the array, and the cursor is moved to a place on the screen. -/
def FitsSequence (s : Console) (c : UInt8) : Prop :=
  -- '0' to '9', 'm', 'D', 'C', 'H', 'f'
  if 48 ≤ c ∧ c ≤ 57 then s.currParamIndex < escParamMax
  else if c = 109 then s.currParamIndex < escParamMax
  else if c = 68 then s.leftCol < s.displayCols
  else if c = 67 then 0 ≤ s.rightCol
  else if c = 72 ∨ c = 102 then
    (0 ≤ s.escParam 0 ∧ s.escParam 0 < s.displayRows)
      ∧ (1 ≤ s.currParamIndex → 0 ≤ s.escParam 1 ∧ s.escParam 1 < s.displayCols)
  else True

/-- The condition on a character and the state it finds. -/
def Fits (s : Console) (c : UInt8) : Prop :=
  s.writeState = .square → s.FitsSequence c

theorem OnScreen.moveLeft_iff (h : s.OnScreen w) :
  (s.moveLeft (s.escParam 0)).OnScreen w ↔ s.leftCol < s.displayCols
  := by
  have hcols := h.cols
  have hpos := w.cols_pos
  constructor
  · intro hleft
    have hcol := hleft.cursor.2
    change 0 ≤ (if 0 ≤ s.leftCol then s.leftCol else 0)
      ∧ (if 0 ≤ s.leftCol then s.leftCol else 0) < w.cols at hcol
    split_ifs at hcol <;> omega
  · intro hlt
    refine ⟨h.toDrawsOn.setCursor s.cursorRow _, h.cursor.1, ?_⟩
    change 0 ≤ (if 0 ≤ s.leftCol then s.leftCol else 0)
      ∧ (if 0 ≤ s.leftCol then s.leftCol else 0) < w.cols
    split_ifs <;> omega

theorem OnScreen.moveRight_iff (h : s.OnScreen w) :
  (s.moveRight (s.escParam 0)).OnScreen w ↔ 0 ≤ s.rightCol
  := by
  have hcols := h.cols
  have hpos := w.cols_pos
  have heq : s.moveRight (s.escParam 0)
      = { s with cursorCol :=
          if s.displayCols ≤ s.rightCol then s.displayCols - 1 else s.rightCol } := by
    by_cases hle : s.displayCols ≤ s.rightCol
    · rw [if_pos hle]
      exact if_pos hle
    · rw [if_neg hle]
      exact if_neg hle
  rw [heq]
  constructor
  · intro hright
    have hcol := hright.cursor.2
    dsimp only at hcol
    split_ifs at hcol <;> omega
  · intro hle
    refine ⟨h.toDrawsOn.setCursor s.cursorRow _, h.cursor.1, ?_⟩
    dsimp only
    split_ifs <;> omega

/-- The index has been advanced behind the last parameter. -/
theorem OnScreen.moveCursor_iff (h : s.OnScreen w) (hindex : 1 ≤ s.currParamIndex) :
  s.moveCursor.OnScreen w ↔ (0 ≤ s.escParam 0 ∧ s.escParam 0 < s.displayRows)
    ∧ (2 ≤ s.currParamIndex → 0 ≤ s.escParam 1 ∧ s.escParam 1 < s.displayCols)
  := by
  have hrows := h.rows
  have hcols := h.cols
  rw [moveCursor, if_pos hindex]
  dsimp only
  split_ifs with hcol
  · constructor
    · intro hmoved
      have hcursor := hmoved.cursor
      rw [hrows, hcols]
      exact ⟨hcursor.1, fun _ => hcursor.2⟩
    · rintro ⟨hrow, hcol'⟩
      refine ⟨h.toDrawsOn.setCursor _ _, ?_, ?_⟩
      · rw [hrows] at hrow
        exact hrow
      · rw [hcols] at hcol'
        exact hcol' hcol
  · constructor
    · intro hmoved
      rw [hrows]
      exact ⟨hmoved.cursor.1, fun hle => absurd hle hcol⟩
    · rintro ⟨hrow, -⟩
      refine ⟨h.toDrawsOn.setCursor _ _, ?_, h.cursor.2⟩
      rw [hrows] at hrow
      exact hrow

theorem OnScreen.eraseInDisplay (h : s.OnScreen w) :
  s.eraseInDisplay.OnScreen w
  := by
  unfold Console.eraseInDisplay
  split_ifs
  · apply h
  · have herased := h.toDrawsOn.ereaseRows (le_refl 0)
      (show s.displayRows - 1 < w.rows by rw [h.rows]; omega)
    exact ⟨herased.setCursor 0 0, ⟨le_refl 0, w.rows_pos⟩, le_refl 0, w.cols_pos⟩
  · apply h

/-- The end of a sequence, once the index is that behind the last parameter. -/
theorem OnScreen.final_iff (h : s.OnScreen w) (hindex : 1 ≤ s.currParamIndex) (c : UInt8) :
  (∃ t, writeEscSquare.final s c = some t ∧ t.OnScreen w) ↔
    if c = 109 then s.currParamIndex ≤ escParamMax
    else if c = 68 then s.leftCol < s.displayCols
    else if c = 67 then 0 ≤ s.rightCol
    else if c = 72 ∨ c = 102 then
      (0 ≤ s.escParam 0 ∧ s.escParam 0 < s.displayRows)
        ∧ (2 ≤ s.currParamIndex → 0 ≤ s.escParam 1 ∧ s.escParam 1 < s.displayCols)
    else True
  := by
  -- a move that has a result
  have hsome (t : Console) : (∃ t', some t = some t' ∧ t'.OnScreen w) ↔ t.OnScreen w := by
    constructor
    · rintro ⟨t', heq, ht'⟩
      cases heq
      exact ht'
    · intro ht
      exact ⟨t, rfl, ht⟩
  rw [writeEscSquare.final]
  by_cases hstyle : c = 109
  · rw [if_pos hstyle, if_pos hstyle, setFontStyle]
    by_cases hle : s.currParamIndex ≤ escParamMax
    · obtain ⟨foreground, background, hloop⟩ :=
        setFontStyle_loop (s := s) (le_refl 0) (n := s.currParamIndex.toNat) (by omega)
      rw [hloop, hsome]
      exact iff_of_true
        ⟨⟨h.base, h.rows, h.cols, h.saved, h.drawn⟩, h.cursor⟩ hle
    · rw [setFontStyle_loop_eq_none (by decide) (by omega)]
      exact iff_of_false (by rintro ⟨t, heq, -⟩; cases heq) hle
  rw [if_neg hstyle, if_neg hstyle]
  by_cases hleft : c = 68
  · rw [if_pos hleft, if_pos hleft, hsome]
    apply h.moveLeft_iff
  rw [if_neg hleft, if_neg hleft]
  by_cases hright : c = 67
  · rw [if_pos hright, if_pos hright, hsome]
    apply h.moveRight_iff
  rw [if_neg hright, if_neg hright]
  by_cases hmove : c = 72 ∨ c = 102
  · rw [if_pos hmove, if_pos hmove, hsome]
    apply h.moveCursor_iff hindex
  rw [if_neg hmove, if_neg hmove]
  split_ifs
  · rw [hsome]
    exact iff_of_true h.eraseInDisplay trivial
  · rw [hsome]
    exact iff_of_true h trivial

theorem OnScreen.writeEscSquare_iff (h : s.OnScreen w)
    (hindex : 0 ≤ s.currParamIndex ∧ s.currParamIndex ≤ escParamMax) (c : UInt8) :
  (∃ t, s.writeEscSquare c = some t ∧ t.OnScreen w) ↔ s.FitsSequence c
  := by
  rw [writeEscSquare, FitsSequence]
  by_cases hdigit : 48 ≤ c ∧ c ≤ 57
  · rw [if_pos hdigit, if_pos hdigit, writeEscSquare.digit]
    by_cases hlt : s.currParamIndex < escParamMax
    · obtain ⟨k, hk⟩ := paramIndex_of_range hindex.1 hlt
      rw [hk]
      exact iff_of_true
        ⟨_, rfl, ⟨h.base, h.rows, h.cols, h.saved, h.drawn⟩, h.cursor⟩ hlt
    · rw [paramIndex_eq_none (by omega)]
      exact iff_of_false (by rintro ⟨t, heq, -⟩; cases heq) hlt
  rw [if_neg hdigit, if_neg hdigit]
  by_cases hsep : c = 59 ∧ s.currParamIndex < escParamMax
  · rw [if_pos hsep]
    obtain ⟨rfl, -⟩ := hsep
    exact iff_of_true
      ⟨_, rfl, ⟨h.base, h.rows, h.cols, h.saved, h.drawn⟩, h.cursor⟩ (by simp)
  rw [if_neg hsep]
  have hnext : OnScreen { s with currParamIndex := s.currParamIndex + 1 } w :=
    ⟨⟨h.base, h.rows, h.cols, h.saved, h.drawn⟩, h.cursor⟩
  have hfinal := hnext.final_iff (show 1 ≤ s.currParamIndex + 1 by omega) c
  have hstyle : s.currParamIndex + 1 ≤ escParamMax ↔ s.currParamIndex < escParamMax := by omega
  have hcol : 2 ≤ s.currParamIndex + 1 ↔ 1 ≤ s.currParamIndex := by omega
  dsimp only at hfinal
  rw [hstyle, hcol] at hfinal
  refine Iff.trans ?_ hfinal
  cases writeEscSquare.final { s with currParamIndex := s.currParamIndex + 1 } c with
  | none =>
      constructor <;>
      · rintro ⟨t, heq, -⟩
        cases heq
  | some u =>
      constructor
      · rintro ⟨t, heq, ht⟩
        cases heq
        exact ⟨u, rfl, ⟨ht.base, ht.rows, ht.cols, ht.saved, ht.drawn⟩, ht.cursor⟩
      · rintro ⟨t, heq, ht⟩
        cases heq
        exact ⟨_, rfl, ⟨ht.base, ht.rows, ht.cols, ht.saved, ht.drawn⟩, ht.cursor⟩

/-! ### Sequences of characters -/

theorem OnScreen.char_iff (h : s.OnScreen w) {p : Parse} (hp : s.Parses p) (ch : UInt8) :
  (∃ t, consoleWrite.char s ch = some t ∧ t.OnScreen w) ↔ s.Fits ch
  := by
  rw [consoleWrite.char, Fits]
  cases hstate : s.writeState with
  | nomal =>
      refine iff_of_true ⟨_, rfl, h.writeNomal ch⟩ ?_
      intro hsquare
      cases hsquare
  | esc =>
      refine iff_of_true ⟨_, rfl, h.writeEsc ch⟩ ?_
      intro hsquare
      cases hsquare
  | square =>
      rw [h.writeEscSquare_iff ⟨hp.index_nonneg hstate, hp.index_le hstate⟩]
      exact ⟨fun hfits _ => hfits, fun hfits => hfits rfl⟩

/-- The screen of a console. -/
def screenOf (idx : Int) : Screen where
  base := idx * (consoleColMax * consoleRowMax)
  rows := consoleRowMax
  cols := consoleColMax
  rows_pos := by decide
  cols_pos := by decide
  area := by decide

/-- A console that is initialised, with nothing drawn outside its screen before and the cursor
that the hardware reports for the first console on its screen. -/
theorem consoleInit_keeps (s : Console) {idx cursorPos : Int}
    (hdrawn : ∀ p ∈ s.display.drawn, (screenOf idx).Cell p)
    (hcursor : idx = 0 → 0 ≤ cursorPos ∧ cursorPos < consoleColMax * consoleRowMax) :
  (s.consoleInit idx cursorPos).OnScreen (screenOf idx)
    ∧ (s.consoleInit idx cursorPos).Parses .text
  := by
  refine ⟨?_, rfl⟩
  by_cases hidx : idx = 0
  · obtain ⟨hlo, hhi⟩ := hcursor hidx
    have hplace : (screenOf idx).Contains (cursorPos / 80) (cursorPos % 80) := by
      change (0 ≤ cursorPos / 80 ∧ cursorPos / 80 < 25) ∧ 0 ≤ cursorPos % 80 ∧ cursorPos % 80 < 80
      unfold consoleColMax consoleRowMax at hhi
      omega
    unfold consoleInit
    dsimp only
    rw [if_pos hidx]
    exact ⟨⟨rfl, rfl, rfl, hplace, hdrawn⟩, hplace⟩
  · have hplace : (screenOf idx).Contains 0 0 :=
      ⟨⟨le_refl 0, Screen.rows_pos _⟩, le_refl 0, Screen.cols_pos _⟩
    unfold consoleInit
    dsimp only
    rw [if_neg hidx]
    refine ⟨⟨rfl, rfl, rfl, hplace, ?_⟩, hplace⟩
    intro p hp
    dsimp only [clearDisplay] at hp
    rw [Display.mem_drawn_fill] at hp
    rcases hp with hp | hp
    · exact hdrawn p hp
    · exact hp

theorem consoleInit_onScreen (s : Console) {idx cursorPos : Int} (hdrawn : s.display.drawn = [])
    (hcursor : idx = 0 → 0 ≤ cursorPos ∧ cursorPos < consoleColMax * consoleRowMax) :
  (s.consoleInit idx cursorPos).OnScreen (screenOf idx)
    ∧ (s.consoleInit idx cursorPos).Parses .text
  := by
  apply s.consoleInit_keeps _ hcursor
  intro p hp
  rw [hdrawn] at hp
  cases hp

/-- A console that has just been initialised keeps to its screen after each of a sequence of
characters exactly when they all fit. -/
theorem onScreen_iff (s : Console) {idx cursorPos : Int} (hdrawn : s.display.drawn = [])
    (hcursor : idx = 0 → 0 ≤ cursorPos ∧ cursorPos < consoleColMax * consoleRowMax)
    (chs : List UInt8) :
  (∀ pre, pre <+: chs → ∃ t, consoleWrite.chars (s.consoleInit idx cursorPos) pre = some t
      ∧ t.OnScreen (screenOf idx)) ↔
    ∀ pre c, pre ++ [c] <+: chs → ∀ t,
      consoleWrite.chars (s.consoleInit idx cursorPos) pre = some t → t.Fits c
  := by
  obtain ⟨hscreen, hparses⟩ := consoleInit_onScreen s hdrawn hcursor
  apply PartialRun.foldlM_keeps_iff (I := fun t => ∃ p, t.Parses p)
  · rintro t c t' ⟨p, hp⟩ hchar
    exact ⟨_, hp.char hchar⟩
  · rintro t c ⟨p, hp⟩ ht
    apply ht.char_iff hp
  · exact ⟨_, hparses⟩
  · apply hscreen

/-- `ESC [ 2 C` on the second console. -/
theorem onScreen_iff_blank :
  (∀ pre, pre <+: [27, 91, 50, 67] →
      ∃ t, consoleWrite.chars (blank.consoleInit 1 0) pre = some t
        ∧ t.OnScreen (screenOf 1)) ↔
    ∀ pre c, pre ++ [c] <+: [27, 91, 50, 67] → ∀ t,
      consoleWrite.chars (blank.consoleInit 1 0) pre = some t → t.Fits c
  := onScreen_iff blank rfl (by decide) _

/-- `ESC [ 3 0 H` and a letter on the first console: the letter is drawn on the second. -/
theorem not_onScreen_blank :
  ∃ t, consoleWrite.chars (blank.consoleInit 0 0) [27, 91, 51, 48, 72, 65] = some t
    ∧ 2400 ∈ t.display.drawn ∧ ¬ (screenOf 0).Cell 2400 ∧ ¬ t.OnScreen (screenOf 0)
  := by
  have hcell : ¬ (screenOf 0).Cell 2400 := by
    unfold Cell
    decide
  obtain ⟨t, ht, hdrawn⟩ : ∃ t,
      consoleWrite.chars (blank.consoleInit 0 0) [27, 91, 51, 48, 72, 65] = some t
        ∧ t.display.drawn = [2400] := ⟨_, rfl, rfl⟩
  have hmem : 2400 ∈ t.display.drawn := by
    rw [hdrawn]
    apply List.mem_singleton_self
  exact ⟨t, ht, hmem, hcell, fun h => hcell (h.drawn _ hmem)⟩

end Console

end Dmos
