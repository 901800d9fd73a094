import Dmos.Dev.Text

/-!
# Erasing a character

`0x7f` takes the cursor one cell back, writes a blank there and takes the cursor back again.
The cell behind the one that is written is the cell the cursor has come from, so the step forward
in between ends on the screen and never scrolls (`writeNomal_erease`).
-/

namespace Dmos

namespace Console

open Screen

variable {s t : Console} {w : Screen} {c : UInt8}

/-- The console draws on the screen, and its cursor is on it. -/
structure InRange (s : Console) (w : Screen) : Prop where
  base : s.dispBase = w.base
  rows : s.displayRows = w.rows
  cols : s.displayCols = w.cols
  cursor : w.Contains s.cursorRow s.cursorCol

/-- The number of the cell at the cursor, row by row. -/
def cursorCell (s : Console) (w : Screen) : Int :=
  s.cursorCol + s.cursorRow * w.cols

/-- The console with its cursor at another place. -/
def place (s : Console) (row col : Int) : Console :=
  { s with cursorRow := row, cursorCol := col }

theorem InRange.place (h : s.InRange w) {row col : Int} (hcursor : w.Contains row col) :
  (s.place row col).InRange w
  := ⟨h.base, h.rows, h.cols, hcursor⟩

/-- One step back, from any cell but the first. -/
theorem InRange.moveBackward_one (h : s.InRange w) (hpos : 0 < s.cursorCell w) :
  ∃ row col, w.Contains row col ∧ col + row * w.cols = s.cursorCell w - 1 ∧
    s.moveBackward 1 = (0, s.place row col)
  := by
  obtain ⟨⟨hrow, hrows⟩, hcol, hcols⟩ := h.cursor
  have hwidth := h.cols
  rw [cursorCell] at hpos ⊢
  rw [moveBackward, moveBackward.loop]
  by_cases hleft : 0 < s.cursorCol
  · rw [if_pos hleft]
    exact ⟨s.cursorRow, s.cursorCol - 1, ⟨⟨hrow, hrows⟩, by omega, by omega⟩, by omega, rfl⟩
  · have hzero : s.cursorCol = 0 := by omega
    have hup : 0 < s.cursorRow := by
      by_contra hle
      rw [hzero, show s.cursorRow = 0 by omega] at hpos
      omega
    rw [if_neg hleft, if_pos hup]
    refine ⟨s.cursorRow - 1, s.displayCols - 1, ⟨⟨by omega, by omega⟩, by omega, by omega⟩, ?_, rfl⟩
    rw [Int.sub_mul, Int.one_mul, hzero]
    omega

/-- One step forward, from any cell but the last. -/
theorem InRange.moveForward_one (h : s.InRange w) (hlast : s.cursorCell w + 1 < w.rows * w.cols) :
  ∃ row col, w.Contains row col ∧ col + row * w.cols = s.cursorCell w + 1 ∧
    s.moveForward 1 = s.place row col
  := by
  obtain ⟨⟨hrow, hrows⟩, hcol, hcols⟩ := h.cursor
  have hwidth := h.cols
  have hheight := h.rows
  rw [cursorCell] at hlast ⊢
  rw [moveForward, moveForward, moveForward.step]
  dsimp only
  by_cases hright : s.cursorCol + 1 < w.cols
  · rw [if_neg (by omega)]
    exact ⟨s.cursorRow, s.cursorCol + 1, ⟨⟨hrow, hrows⟩, by omega, hright⟩, by omega, rfl⟩
  · have hnext : (s.cursorRow + 1) * w.cols = s.cursorRow * w.cols + w.cols := by
      rw [Int.add_mul, Int.one_mul]
    have hdown : s.cursorRow + 1 < w.rows := by
      by_contra hle
      rw [show w.rows = s.cursorRow + 1 by omega] at hlast
      omega
    rw [if_pos (by omega), if_neg (by omega)]
    exact ⟨s.cursorRow + 1, 0, ⟨⟨by omega, hdown⟩, le_refl 0, w.cols_pos⟩, by omega, rfl⟩

/-- A character at any cell but the last. -/
theorem InRange.showChar (h : s.InRange w) (hlast : s.cursorCell w + 1 < w.rows * w.cols) :
  ∃ row col, w.Contains row col ∧ col + row * w.cols = s.cursorCell w + 1 ∧
    s.showChar c = { s.place row col with
      display := s.display.set (w.base + s.cursorCell w) (s.dispChar c) }
  := by
  have hcell := offset_bounds h.cursor
  have harea := w.area
  have hoffset : s.dispBase + int32 (s.cursorCol + s.cursorRow * s.displayCols)
      = w.base + s.cursorCell w := by
    rw [h.cols, int32_of_bounds (by omega) (by omega), h.base, cursorCell]
  rw [Console.showChar]
  dsimp only
  rw [hoffset]
  have hdrawn : InRange { s with
      display := s.display.set (w.base + s.cursorCell w) (s.dispChar c) } w :=
    ⟨h.base, h.rows, h.cols, h.cursor⟩
  apply hdrawn.moveForward_one hlast

/-- The cell before the cursor is blank, and the cursor is there. -/
theorem InRange.ereaseBack (h : s.InRange w) (hpos : 0 < s.cursorCell w) :
  ∃ row col, w.Contains row col ∧ col + row * w.cols = s.cursorCell w - 1 ∧
    s.ereaseBack = { s.place row col with
      display := s.display.set (w.base + (s.cursorCell w - 1)) (s.dispChar 32) }
  := by
  obtain ⟨row, col, hcursor, hcell, hback⟩ := h.moveBackward_one hpos
  refine ⟨row, col, hcursor, hcell, ?_⟩
  have hprev : (s.place row col).cursorCell w = s.cursorCell w - 1 := hcell
  -- the step forward comes back to the cell of the cursor, which is on the screen
  have hroom := offset_bounds h.cursor
  obtain ⟨row', col', hcursor', hcell', hshow⟩ := (h.place hcursor).showChar (c := 32)
    (by rw [hprev, cursorCell]; omega)
  have hshown : InRange ((s.place row col).showChar 32) w := by
    rw [hshow]
    exact ⟨h.base, h.rows, h.cols, hcursor'⟩
  have hshownCell : ((s.place row col).showChar 32).cursorCell w = s.cursorCell w := by
    rw [hshow]
    show col' + row' * w.cols = _
    omega
  obtain ⟨row'', col'', hcursor'', hcell'', hback'⟩ := hshown.moveBackward_one
    (by rw [hshownCell]; exact hpos)
  obtain ⟨rfl, rfl⟩ := offset_inj hcursor'' hcursor (by omega)
  rw [Console.ereaseBack, hback]
  dsimp only
  rw [if_pos rfl, hback', hshow, hprev]
  rfl

/-- The first cell is the only one without a cell before it. -/
theorem InRange.cursorCell_eq_zero_iff (h : s.InRange w) :
  s.cursorCell w = 0 ↔ s.cursorRow = 0 ∧ s.cursorCol = 0
  := by
  constructor
  · intro hzero
    have hfirst : w.Contains 0 0 := ⟨⟨le_refl 0, w.rows_pos⟩, le_refl 0, w.cols_pos⟩
    apply offset_inj h.cursor hfirst
    rw [Int.zero_mul]
    exact hzero
  · rintro ⟨hrow, hcol⟩
    rw [cursorCell, hrow, hcol, Int.zero_mul, Int.add_zero]

theorem ereaseBack_first (hrow : s.cursorRow = 0) (hcol : s.cursorCol = 0) :
  s.ereaseBack = s
  := by
  have hback : s.moveBackward 1 = (-1, s) := by
    rw [moveBackward, moveBackward.loop, if_neg (by omega), if_neg (by omega)]
    rfl
  rw [ereaseBack, hback]
  exact if_neg (by decide)

/-- A character that is erased again leaves a blank. -/
theorem InRange.showChar_ereaseBack (h : s.InRange w)
    (hlast : s.cursorCell w + 1 < w.rows * w.cols) :
  ∃ d : Display, (s.showChar c).ereaseBack = { s with display := d } ∧
    d.cells = Function.update s.display.cells (w.base + s.cursorCell w) (s.dispChar 32)
  := by
  have hcell := offset_bounds h.cursor
  obtain ⟨row, col, hcursor, hnext, hshow⟩ := h.showChar (c := c) hlast
  have hshown : InRange (s.showChar c) w := by
    rw [hshow]
    exact ⟨h.base, h.rows, h.cols, hcursor⟩
  have hshownCell : (s.showChar c).cursorCell w = s.cursorCell w + 1 := by
    rw [hshow]
    exact hnext
  obtain ⟨row', col', hcursor', hprev, hback⟩ := hshown.ereaseBack (by
    rw [hshownCell]
    show 0 < s.cursorCol + s.cursorRow * w.cols + 1
    omega)
  rw [hshownCell, Int.add_sub_cancel] at hprev hback
  obtain ⟨rfl, rfl⟩ := offset_inj hcursor' h.cursor hprev
  refine ⟨(s.display.set (w.base + s.cursorCell w) (s.dispChar c)).set
    (w.base + s.cursorCell w) (s.dispChar 32), ?_, ?_⟩
  · rw [hback, hshow]
    rfl
  · exact Function.update_idem _ _ _

/-! ### Characters outside of escape sequences -/

theorem writeNomal_printable (hc : 32 ≤ c ∧ c ≤ 126) :
  s.writeNomal c = s.showChar c
  := by
  have hcontrol : c ≠ asciiEsc ∧ c ≠ 0x7f ∧ c ≠ 8 ∧ c ≠ 13 ∧ c ≠ 10 := by
    refine ⟨?_, ?_, ?_, ?_, ?_⟩ <;>
    · rintro rfl
      revert hc
      decide
  obtain ⟨hesc, hdel, hbs, hcr, hlf⟩ := hcontrol
  rw [writeNomal, if_neg hesc, if_neg hdel, if_neg hbs, if_neg hcr, if_neg hlf, if_pos hc]

/-- `0x7f` erases the cell before the cursor, nothing on the first cell, and it takes back a
printable character that is not on the last cell. -/
theorem writeNomal_erease (h : s.InRange w) :
  (s.cursorRow = 0 ∧ s.cursorCol = 0 → s.writeNomal 0x7f = s) ∧
    (¬ (s.cursorRow = 0 ∧ s.cursorCol = 0) → ∃ row col, w.Contains row col ∧
      col + row * w.cols = s.cursorCell w - 1 ∧
      s.writeNomal 0x7f = { s.place row col with
        display := s.display.set (w.base + (s.cursorCell w - 1)) (s.dispChar 32) }) ∧
    (s.cursorCell w + 1 < w.rows * w.cols → 32 ≤ c ∧ c ≤ 126 →
      ∃ d : Display, (s.writeNomal c).writeNomal 0x7f = { s with display := d } ∧
        d.cells = Function.update s.display.cells (w.base + s.cursorCell w) (s.dispChar 32)) ∧
    (s.writeState = .nomal → consoleWrite.chars s [0x7f] = some (s.writeNomal 0x7f) ∧
      (32 ≤ c ∧ c ≤ 126 →
        consoleWrite.chars s [c, 0x7f] = some ((s.writeNomal c).writeNomal 0x7f)))
  := by
  have herase (t : Console) : t.writeNomal 0x7f = t.ereaseBack := rfl
  have hchar {t : Console} (ht : t.writeState = .nomal) (b : UInt8) :
      consoleWrite.char t b = some (t.writeNomal b) := by
    rw [consoleWrite.char, ht]
  refine ⟨?_, ?_, ?_, ?_⟩
  · rintro ⟨hrow, hcol⟩
    rw [herase, ereaseBack_first hrow hcol]
  · intro hne
    rw [← h.cursorCell_eq_zero_iff] at hne
    have hcell := offset_bounds h.cursor
    apply h.ereaseBack
    rw [cursorCell] at hne ⊢
    omega
  · intro hlast hc
    rw [herase, writeNomal_printable hc]
    apply h.showChar_ereaseBack hlast
  · intro hstate
    constructor
    · rw [consoleWrite.chars, PartialRun.foldlM_cons_of_some (hchar hstate _)]
      rfl
    · intro hc
      have hshown : (s.writeNomal c).writeState = .nomal := by
        rw [writeNomal_printable hc, writeState_showChar, hstate]
      rw [consoleWrite.chars, PartialRun.foldlM_cons_of_some (hchar hstate _),
        PartialRun.foldlM_cons_of_some (hchar hshown _)]
      rfl

/-- From the beginning of the fourth row to the end of the third. -/
theorem writeNomal_erease_row :
  ∃ row col, (screenOf 0).Contains row col ∧ col + row * 80 = 239 ∧
    (blank.place 3 0).writeNomal 0x7f = { (blank.place 3 0).place row col with
      display := blank.display.set (0 + (240 - 1)) ⟨32, 15, 0⟩ }
  := (writeNomal_erease (s := blank.place 3 0) (w := screenOf 0) (c := 65)
    ⟨rfl, rfl, rfl, by unfold Contains; decide⟩).2.1 (by decide)

end Console

end Dmos
