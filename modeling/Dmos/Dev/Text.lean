import Dmos.Dev.Screen

/-!
# Text on a console

A terminal with unlimited rows (`Terminal`) puts each printable character behind the one before
it, in the next row at the end of a row.  A console shows the last rows of that terminal that fit
on its screen (`Shows`), for every text of printable characters, `\r` and `\n`
(`renders_of_text`): it scrolls where the terminal goes on below.
-/

namespace Dmos

/-- A terminal without end: its cursor and what is written at each place. -/
structure Terminal where
  row : Int
  col : Int
  cell : Int → Int → UInt8

namespace Terminal

def blank : Terminal where
  row := 0
  col := 0
  cell := fun _ _ => 32

/-- The character at the cursor. -/
def put (t : Terminal) (c : UInt8) : Terminal :=
  { t with cell := fun row col => if row = t.row ∧ col = t.col then c else t.cell row col }

def nextRow (t : Terminal) : Terminal :=
  { t with row := t.row + 1, col := 0 }

/-- One character on a terminal with `cols` columns. -/
def write (cols : Int) (t : Terminal) (c : UInt8) : Terminal :=
  -- '\r', '\n'
  if c = 13 then { t with col := 0 }
  else if c = 10 then t.nextRow
  else if cols ≤ t.col + 1 then (t.put c).nextRow
  else { t.put c with col := t.col + 1 }

def text (cols : Int) (t : Terminal) (chs : List UInt8) : Terminal :=
  chs.foldl (write cols) t

/-- The first row of the last `rows` rows. -/
def top (t : Terminal) (rows : Int) : Int :=
  max 0 (t.row - (rows - 1))

end Terminal

/-- Printable characters, `\r` and `\n`. -/
def IsText (c : UInt8) : Prop :=
  32 ≤ c ∧ c ≤ 126 ∨ c = 13 ∨ c = 10

instance (c : UInt8) : Decidable (IsText c) :=
  inferInstanceAs (Decidable (_ ∨ _))

namespace Screen

variable {w : Screen}

/-- Places and cells correspond. -/
theorem offset_inj {row col row' col' : Int} (h : w.Contains row col) (h' : w.Contains row' col')
    (heq : col + row * w.cols = col' + row' * w.cols) :
  row = row' ∧ col = col'
  := by
  have hpos := w.cols_pos
  have hrow (r c : Int) (hc : 0 ≤ c ∧ c < w.cols) : (c + r * w.cols) / w.cols = r := by
    rw [Int.add_mul_ediv_right _ _ (by omega), Int.ediv_eq_zero_of_lt hc.1 hc.2, Int.zero_add]
  have hrows : row = row' := by
    rw [← hrow row col h.2, heq, hrow row' col' h'.2]
  subst hrows
  exact ⟨rfl, by omega⟩

end Screen

namespace Console

open Screen

variable {s : Console} {w : Screen} {paint : UInt8 → DispChar} {t : Terminal}

/-- The console shows the last rows of the terminal, in its colors, with the cursor there. -/
structure Shows (s : Console) (w : Screen) (paint : UInt8 → DispChar) (t : Terminal) :
    Prop where
  state : s.writeState = .nomal
  base : s.dispBase = w.base
  rows : s.displayRows = w.rows
  cols : s.displayCols = w.cols
  colors : s.dispChar = paint
  cursorRow : s.cursorRow = t.row - t.top w.rows
  cursorCol : s.cursorCol = t.col
  row : 0 ≤ t.row
  col : 0 ≤ t.col ∧ t.col < w.cols
  cells : ∀ row col, w.Contains row col →
    s.display.cells (w.base + (col + row * w.cols)) = paint (t.cell (row + t.top w.rows) col)
  below : ∀ row col, t.row < row → t.cell row col = 32

theorem Shows.contains (h : s.Shows w paint t) :
  w.Contains s.cursorRow s.cursorCol
  := by
  have hrows := w.rows_pos
  rw [h.cursorRow, h.cursorCol]
  refine ⟨?_, h.col⟩
  have hrow := h.row
  unfold Terminal.top
  omega

/-! ### Scrolling -/

/-- Each row but the last shows the one below it, and the last one is blank. -/
theorem cells_scrollUp (hbase : s.dispBase = w.base) (hrows : s.displayRows = w.rows)
    (hcols : s.displayCols = w.cols) {row col : Int} (h : w.Contains row col) :
  (s.scrollUp 1).display.cells (w.base + (col + row * w.cols))
    = if row + 1 < w.rows then s.display.cells (w.base + (col + (row + 1) * w.cols))
      else s.dispChar 32
  := by
  have hrest := w.rest_nonneg
  have harea := w.area
  have hpos := w.cols_pos
  have hoffset := offset_bounds h
  have hsize : (((w.rows - 1) * w.cols * 2) % 2 ^ 32 / 2).toNat
      = ((w.rows - 1) * w.cols).toNat := by
    rw [Int.emod_eq_of_lt (by omega) (by omega), Int.mul_ediv_cancel _ (by decide)]
  unfold scrollUp ereaseRows
  dsimp only
  rw [hbase, hrows, hcols, hsize, Display.cells_fill, Display.cells_kMemcpy (by omega),
    Int.sub_add_cancel, Int.mul_comm w.cols (w.rows - 1), Int.mul_comm w.cols w.rows, Int.mul_one]
  have hnext : (row + 1) * w.cols = row * w.cols + w.cols := by
    rw [Int.add_mul, Int.one_mul]
  by_cases hlast : row + 1 < w.rows
  · have hle : (row + 1) * w.cols ≤ (w.rows - 1) * w.cols :=
      Int.mul_le_mul_of_nonneg_right (by omega) hpos.le
    have hcol := h.2
    rw [if_pos hlast, if_neg (by omega), if_pos (by omega)]
    congr 1
    omega
  · have hrow : row = w.rows - 1 := by
      have := h.1
      omega
    rw [if_neg hlast, if_pos]
    · rfl
    · rw [hrow]
      have hcol := h.2
      omega

/-- The cursor goes to the start of the next row, and the console scrolls if there is none. -/
theorem Shows.nextRow (h : s.Shows w paint t) :
  Shows
    (if s.displayRows ≤ s.cursorRow + 1 then
      scrollUp { s with cursorRow := s.cursorRow + 1, cursorCol := 0 } 1
    else { s with cursorRow := s.cursorRow + 1, cursorCol := 0 }) w paint t.nextRow
  := by
  have hcontains := h.contains
  have hcursor := h.cursorRow
  have hrow := h.row
  have hpos := w.rows_pos
  have hbelow : ∀ row col, t.row + 1 < row → t.cell row col = 32 := by
    intro row col hlt
    apply h.below
    omega
  have hcol : 0 ≤ (0 : Int) ∧ 0 < w.cols := ⟨le_refl 0, w.cols_pos⟩
  split_ifs with hlast
  · rw [h.rows] at hlast
    have htop : t.nextRow.top w.rows = t.top w.rows + 1 := by
      have := hcontains.1
      unfold Terminal.top Terminal.nextRow at *
      dsimp only
      omega
    refine ⟨h.state, h.base, h.rows, h.cols, h.colors, ?_, rfl, ?_, hcol, ?_, hbelow⟩
    · rw [htop]
      change s.cursorRow + 1 - 1 = t.row + 1 - (t.top w.rows + 1)
      omega
    · change 0 ≤ t.row + 1
      omega
    · intro row col hplace
      have hscroll := cells_scrollUp
        (s := { s with cursorRow := s.cursorRow + 1, cursorCol := 0 }) h.base h.rows h.cols hplace
      rw [hscroll, htop]
      change _ = paint (t.cell (row + (t.top w.rows + 1)) col)
      split_ifs with hin
      · rw [show row + (t.top w.rows + 1) = row + 1 + t.top w.rows by omega]
        apply h.cells
        exact ⟨⟨by have := hplace.1; omega, hin⟩, hplace.2⟩
      · rw [h.below _ _ (by have := hplace.1; have := hcontains.1; omega)]
        exact congrFun h.colors 32
  · rw [h.rows] at hlast
    have htop : t.nextRow.top w.rows = t.top w.rows := by
      unfold Terminal.top Terminal.nextRow at *
      dsimp only
      omega
    refine ⟨h.state, h.base, h.rows, h.cols, h.colors, ?_, rfl, ?_, hcol, ?_, hbelow⟩
    · rw [htop]
      change s.cursorRow + 1 = t.row + 1 - t.top w.rows
      omega
    · change 0 ≤ t.row + 1
      omega
    · rw [htop]
      apply h.cells

/-! ### Characters -/

theorem Shows.movToCol0 (h : s.Shows w paint t) :
  s.movToCol0.Shows w paint { t with col := 0 }
  := ⟨h.state, h.base, h.rows, h.cols, h.colors, h.cursorRow, rfl, h.row, ⟨le_refl 0, w.cols_pos⟩,
    h.cells, h.below⟩

/-- The character is drawn at the cursor. -/
theorem Shows.put (h : s.Shows w paint t) (c : UInt8) :
  Shows
    { s with
      display := s.display.set
        (s.dispBase + int32 (s.cursorCol + s.cursorRow * s.displayCols)) (s.dispChar c) }
    w paint (t.put c)
  := by
  have hcontains := h.contains
  have hoffset := offset_bounds hcontains
  have harea := w.area
  rw [h.base, h.cols, int32_of_bounds (by omega) (by omega), h.colors]
  refine ⟨h.state, rfl, h.rows, rfl, h.colors, h.cursorRow, h.cursorCol, h.row, h.col, ?_, ?_⟩
  · intro row col hplace
    change Function.update s.display.cells _ _ _ = paint
      (if row + t.top w.rows = t.row ∧ col = t.col then c else t.cell (row + t.top w.rows) col)
    by_cases hcursor : row = s.cursorRow ∧ col = s.cursorCol
    · obtain ⟨rfl, rfl⟩ := hcursor
      rw [Function.update_self, if_pos]
      constructor
      · rw [h.cursorRow]
        omega
      · apply h.cursorCol
    · rw [Function.update_of_ne, if_neg]
      · apply h.cells row col hplace
      · rintro ⟨hrow, hcol⟩
        apply hcursor
        rw [h.cursorRow, h.cursorCol]
        change row + t.top w.rows = t.row at hrow
        exact ⟨by omega, hcol⟩
      · intro heq
        apply hcursor
        apply offset_inj hplace hcontains
        omega
  · intro row col hlt
    change (if row = t.row ∧ col = t.col then c else t.cell row col) = 32
    change t.row < row at hlt
    rw [if_neg (by omega)]
    apply h.below row col hlt

theorem Shows.showChar (h : s.Shows w paint t) (c : UInt8) :
  (s.showChar c).Shows w paint
    (if w.cols ≤ t.col + 1 then (t.put c).nextRow else { t.put c with col := t.col + 1 })
  := by
  have hput := h.put c
  have hnext := hput.nextRow
  have hcol := h.col
  have hcols : s.displayCols ≤ s.cursorCol + 1 ↔ w.cols ≤ t.col + 1 := by
    rw [h.cols, h.cursorCol]
  unfold Console.showChar
  rw [moveForward, moveForward, moveForward.step]
  dsimp only at hnext ⊢
  by_cases hwrap : w.cols ≤ t.col + 1
  · rw [if_pos (hcols.mpr hwrap), if_pos hwrap]
    exact hnext
  · rw [if_neg (fun hle => hwrap (hcols.mp hle)), if_neg hwrap]
    refine ⟨hput.state, hput.base, hput.rows, hput.cols, hput.colors, hput.cursorRow, ?_,
      hput.row, ?_, hput.cells, hput.below⟩
    · change s.cursorCol + 1 = t.col + 1
      rw [h.cursorCol]
    · change 0 ≤ t.col + 1 ∧ t.col + 1 < w.cols
      omega

theorem Shows.char (h : s.Shows w paint t) {c : UInt8} (hc : IsText c) :
  ∃ s', consoleWrite.char s c = some s' ∧ s'.Shows w paint (t.write w.cols c)
  := by
  rw [consoleWrite.char, h.state]
  refine ⟨_, rfl, ?_⟩
  have hcontrol : c ≠ asciiEsc ∧ c ≠ 0x7f ∧ c ≠ 8 := by
    refine ⟨?_, ?_, ?_⟩ <;>
    · rintro rfl
      revert hc
      unfold IsText
      decide
  unfold writeNomal Terminal.write
  rw [if_neg hcontrol.1, if_neg hcontrol.2.1, if_neg hcontrol.2.2]
  by_cases hcr : c = 13
  · rw [if_pos hcr, if_pos hcr]
    apply h.movToCol0
  rw [if_neg hcr, if_neg hcr]
  by_cases hlf : c = 10
  · rw [if_pos hlf, if_pos hlf]
    exact h.nextRow
  rw [if_neg hlf, if_neg hlf, if_pos]
  · apply h.showChar
  · rcases hc with hprint | hc | hc
    · apply hprint
    · cases hcr hc
    · cases hlf hc

/-- A text on a console that shows the terminal takes it to one that shows what the terminal
has become. -/
theorem Shows.chars (h : s.Shows w paint t) {chs : List UInt8} (htext : ∀ c ∈ chs, IsText c) :
  ∃ s', consoleWrite.chars s chs = some s' ∧ s'.Shows w paint (t.text w.cols chs)
  := by
  induction chs generalizing s t with
  | nil => exact ⟨s, rfl, h⟩
  | cons c chs ih =>
      obtain ⟨s', hchar, hs'⟩ := h.char (htext c List.mem_cons_self)
      obtain ⟨s'', hchars, hs''⟩ := ih hs' fun c hc => htext c (List.mem_cons_of_mem _ hc)
      refine ⟨s'', ?_, hs''⟩
      rw [consoleWrite.chars, PartialRun.foldlM_cons_of_some hchar]
      exact hchars

/-- A cleared console with its cursor in the first place shows the blank terminal. -/
theorem shows_blank (hstate : s.writeState = .nomal) (hbase : s.dispBase = w.base)
    (hrows : s.displayRows = w.rows) (hcols : s.displayCols = w.cols) (hrow : s.cursorRow = 0)
    (hcol : s.cursorCol = 0) (hclear : ∀ p, w.Cell p → s.display.cells p = s.dispChar 32) :
  s.Shows w s.dispChar Terminal.blank
  := by
  have hpos := w.rows_pos
  refine ⟨hstate, hbase, hrows, hcols, rfl, ?_, hcol, le_refl 0, ⟨le_refl 0, w.cols_pos⟩, ?_, ?_⟩
  · rw [hrow]
    unfold Terminal.top Terminal.blank
    dsimp only
    omega
  · intro row col hplace
    apply hclear
    apply cell_offset hplace
  · intro row col _
    rfl

/-- What is on the screen: the last rows of the terminal, with the cursor in its place. -/
structure Renders (s : Console) (w : Screen) (paint : UInt8 → DispChar) (t : Terminal) :
    Prop where
  cells : ∀ row col, w.Contains row col →
    s.display.cells (w.base + (col + row * w.cols))
      = paint (t.cell (row + max 0 (t.row - (w.rows - 1))) col)
  cursorRow : s.cursorRow = t.row - max 0 (t.row - (w.rows - 1))
  cursorCol : s.cursorCol = t.col

/-- Text on a cleared console looks like the last rows of the terminal without end. -/
theorem renders_of_text (hstate : s.writeState = .nomal) (hbase : s.dispBase = w.base)
    (hrows : s.displayRows = w.rows) (hcols : s.displayCols = w.cols) (hrow : s.cursorRow = 0)
    (hcol : s.cursorCol = 0) (hclear : ∀ p, w.Cell p → s.display.cells p = s.dispChar 32)
    {chs : List UInt8} (htext : ∀ c ∈ chs, IsText c) :
  ∃ s', consoleWrite.chars s chs = some s'
    ∧ s'.Renders w s.dispChar (Terminal.blank.text w.cols chs)
  := by
  have hblank := shows_blank hstate hbase hrows hcols hrow hcol hclear
  obtain ⟨s', hchars, hs'⟩ := hblank.chars htext
  exact ⟨s', hchars, hs'.cells, hs'.cursorRow, hs'.cursorCol⟩

/-- `H i`, and a new line. -/
theorem renders_blank :
  ∃ s', consoleWrite.chars blank [72, 105, 13, 10] = some s'
    ∧ s'.Renders (screenOf 0) blank.dispChar
      (Terminal.blank.text (screenOf 0).cols [72, 105, 13, 10])
  := by
  apply renders_of_text rfl rfl rfl rfl rfl rfl
  · intro p _
    rfl
  · simp [IsText]

end Console

end Dmos
