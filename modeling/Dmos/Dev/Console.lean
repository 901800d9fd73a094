import Mathlib.Algebra.Order.Ring.Int
import Mathlib.Data.Int.Order.Basic
import Mathlib.Logic.Function.Basic
import Mathlib.Tactic.SplitIfs

/-!
# The console

The functions of `console.c` that take the characters of a terminal to the display.  A console
shows `displayRows` rows of `displayCols` cells, which are the cells of the display memory from
`dispBase` on.  The display also tells which cells have been written.

`escParam` is an array of ten words, and what comes behind it in memory is not part of it: a
function that stores or reads outside of the array has no result.
-/

namespace Dmos

/-! ### Data -/

inductive Color where
  | black
  | blue
  | green
  | cyan
  | red
  | magenta
  | brown
  | gray
  | darkGray
  | lightBlue
  | lightGreen
  | lightCyan
  | lightRed
  | lightMagenta
  | yellow
  | white
  deriving DecidableEq

instance neZero_foreground : NeZero 16 := ⟨by decide⟩

instance neZero_background : NeZero 8 := ⟨by decide⟩

instance neZero_params : NeZero 10 := ⟨by decide⟩

/-- The number of a color in `color_t`. -/
def Color.code : Color → Fin 16
  | .black => 0
  | .blue => 1
  | .green => 2
  | .cyan => 3
  | .red => 4
  | .magenta => 5
  | .brown => 6
  | .gray => 7
  | .darkGray => 8
  | .lightBlue => 9
  | .lightGreen => 10
  | .lightCyan => 11
  | .lightRed => 12
  | .lightMagenta => 13
  | .yellow => 14
  | .white => 15

/-- A cell of the display: four bits of foreground, three bits of background. -/
structure DispChar where
  c : UInt8
  foreground : Fin 16
  background : Fin 8
  deriving DecidableEq

/-- The display memory, and the cells that have been written. -/
structure Display where
  cells : Int → DispChar
  drawn : List Int

inductive WriteState where
  | nomal
  | esc
  | square
  deriving DecidableEq

abbrev consoleRowMax : Int := 25
abbrev consoleColMax : Int := 80
abbrev asciiEsc : UInt8 := 0x1B
abbrev escParamMax : Int := 10

structure Console where
  writeState : WriteState
  dispBase : Int
  displayRows : Int
  displayCols : Int
  cursorRow : Int
  cursorCol : Int
  foreground : Color
  background : Color
  oldCursorCol : Int
  oldCursorRow : Int
  escParam : Fin 10 → Int
  currParamIndex : Int
  display : Display

/-- The value of an `int` after arithmetic that may overflow. -/
def int32 (x : Int) : Int :=
  x.bmod (2 ^ 32)

/-! ### The display -/

namespace Display

def set (d : Display) (p : Int) (v : DispChar) : Display where
  cells := Function.update d.cells p v
  drawn := p :: d.drawn

/-- The same character in `n` cells. -/
def fill (d : Display) (p : Int) (v : DispChar) : Nat → Display
  | 0 => d
  | n + 1 => fill (d.set p v) (p + 1) v n

/-- `k_memcpy` of `n` cells. -/
def kMemcpy (d : Display) (dest src : Int) : Nat → Display
  | 0 => d
  | n + 1 => kMemcpy (d.set dest (d.cells src)) (dest + 1) (src + 1) n

variable {d : Display} {p q dest src : Int} {v : DispChar} {n : Nat}

/-- The cells from `p` on are `p` and those that follow it. -/
theorem mem_range_succ {P : Prop} :
  ((q = p ∨ P) ∨ (p + 1 ≤ q ∧ q < p + 1 + n)) ↔ P ∨ (p ≤ q ∧ q < p + (n + 1))
  := by
  constructor
  · rintro ((rfl | h) | h)
    · right
      omega
    · exact .inl h
    · right
      omega
  · rintro (h | h)
    · exact .inl (.inr h)
    · by_cases hq : q = p
      · exact .inl (.inl hq)
      · right
        omega

theorem mem_drawn_fill :
  q ∈ (d.fill p v n).drawn ↔ q ∈ d.drawn ∨ (p ≤ q ∧ q < p + n)
  := by
  induction n generalizing d p with
  | zero =>
      rw [fill]
      constructor
      · exact .inl
      · rintro (h | h)
        · apply h
        · omega
  | succ n ih =>
      rw [fill, ih, set, List.mem_cons]
      apply mem_range_succ

theorem cells_fill :
  (d.fill p v n).cells q = if p ≤ q ∧ q < p + n then v else d.cells q
  := by
  induction n generalizing d p with
  | zero =>
      rw [fill, if_neg]
      omega
  | succ n ih =>
      rw [fill, ih]
      by_cases hq : q = p
      · rw [hq, if_neg (by omega), if_pos (by omega)]
        apply Function.update_self
      · have hcells : (d.set p v).cells q = d.cells q := Function.update_of_ne hq _ _
        rw [hcells]
        split_ifs <;> first | rfl | omega

theorem mem_drawn_kMemcpy :
  q ∈ (d.kMemcpy dest src n).drawn ↔ q ∈ d.drawn ∨ (dest ≤ q ∧ q < dest + n)
  := by
  induction n generalizing d dest src with
  | zero =>
      rw [kMemcpy]
      constructor
      · exact .inl
      · rintro (h | h)
        · apply h
        · omega
  | succ n ih =>
      rw [kMemcpy, ih, set, List.mem_cons]
      apply mem_range_succ

/-- Cells that are copied towards the front are read before they are overwritten. -/
theorem cells_kMemcpy (h : dest ≤ src) :
  (d.kMemcpy dest src n).cells q
    = if dest ≤ q ∧ q < dest + n then d.cells (q - dest + src) else d.cells q
  := by
  induction n generalizing d dest src with
  | zero =>
      rw [kMemcpy, if_neg]
      omega
  | succ n ih =>
      rw [kMemcpy, ih (by omega)]
      have hcells (x : Int) (hx : x ≠ dest) : (d.set dest (d.cells src)).cells x = d.cells x :=
        Function.update_of_ne hx _ _
      by_cases hq : q = dest
      · rw [hq, if_neg (by omega), if_pos (by omega), Int.sub_self, Int.zero_add]
        apply Function.update_self
      · by_cases hin : dest + 1 ≤ q ∧ q < dest + 1 + n
        · rw [if_pos hin, if_pos (by omega), hcells _ (by omega)]
          congr 1
          omega
        · rw [if_neg hin, if_neg (by omega), hcells q hq]

end Display

namespace Console

/-- A character in the colors of the console. -/
def dispChar (s : Console) (c : UInt8) : DispChar where
  c := c
  foreground := s.foreground.code
  background := Fin.ofNat 8 s.background.code

def ereaseRows (s : Console) (start stop : Int) : Console :=
  let disFrom := s.dispBase + s.displayCols * start
  let disTo := s.dispBase + s.displayCols * (stop + 1)
  -- ' '
  { s with display := s.display.fill disFrom (s.dispChar 32) (disTo - disFrom).toNat }

def scrollUp (s : Console) (lines : Int) : Console :=
  let dest := s.dispBase
  let src := s.dispBase + s.displayCols * lines
  -- the bytes of a cell are copied one after the other, two of them
  let size := ((s.displayRows - lines) * s.displayCols * 2) % 2 ^ 32
  let s := { s with display := s.display.kMemcpy dest src (size / 2).toNat }
  let s := s.ereaseRows (s.displayRows - lines) (s.displayRows - 1)
  { s with cursorRow := s.cursorRow - 1 }

/-- One step of `moveForward`. -/
def moveForward.step (s : Console) : Console :=
  let s := { s with cursorCol := s.cursorCol + 1 }
  if s.displayCols ≤ s.cursorCol then
    let s := { s with cursorRow := s.cursorRow + 1, cursorCol := 0 }
    if s.displayRows ≤ s.cursorRow then s.scrollUp 1 else s
  else s

def moveForward (s : Console) : Nat → Console
  | 0 => s
  | n + 1 => moveForward (moveForward.step s) n

def moveBackward.loop (status : Int) (s : Console) : Nat → Int × Console
  | 0 => (status, s)
  | n + 1 =>
      if 0 < s.cursorCol then
        loop 0 { s with cursorCol := s.cursorCol - 1 } n
      else if 0 < s.cursorRow then
        loop 0 { s with cursorRow := s.cursorRow - 1, cursorCol := s.displayCols - 1 } n
      else loop status s n

def moveBackward (s : Console) (n : Nat) : Int × Console :=
  moveBackward.loop (-1) s n

def showChar (s : Console) (c : UInt8) : Console :=
  let offset := int32 (s.cursorCol + s.cursorRow * s.displayCols)
  let s := { s with display := s.display.set (s.dispBase + offset) (s.dispChar c) }
  s.moveForward 1

def ereaseBack (s : Console) : Console :=
  match s.moveBackward 1 with
  | (status, s) => if status = 0 then ((s.showChar 32).moveBackward 1).2 else s

def clearDisplay (s : Console) : Console :=
  let size := s.displayCols * s.displayRows
  { s with display := s.display.fill s.dispBase (s.dispChar 32) size.toNat }

/-- `cursorPos` is the cursor the display hardware reports. -/
def consoleInit (s : Console) (idx cursorPos : Int) : Console :=
  let s :=
    { s with
      cursorRow := 0
      cursorCol := 0
      displayCols := consoleColMax
      displayRows := consoleRowMax
      dispBase := idx * (consoleColMax * consoleRowMax)
      foreground := .white
      background := .black }
  let s :=
    if idx = 0 then
      { s with
        cursorRow := cursorPos / s.displayCols
        cursorCol := cursorPos % s.displayCols }
    else { s with cursorRow := 0, cursorCol := 0 }.clearDisplay
  { s with
    oldCursorCol := s.cursorCol
    oldCursorRow := s.cursorRow
    writeState := .nomal }

/-! ### The cursor -/

def movToCol0 (s : Console) : Console :=
  { s with cursorCol := 0 }

def movNextRow (s : Console) : Console :=
  let s := { s with cursorRow := s.cursorRow + 1 }
  if s.displayRows ≤ s.cursorRow then s.scrollUp 1 else s

def moveLeft (s : Console) (n : Int) : Console :=
  let n := if n = 0 then 1 else n
  let col := int32 (s.cursorCol - n)
  { s with cursorCol := if 0 ≤ col then col else 0 }

def moveRight (s : Console) (n : Int) : Console :=
  let n := if n = 0 then 1 else n
  let col := int32 (s.cursorCol + n)
  if s.displayCols ≤ col then { s with cursorCol := s.displayCols - 1 }
  else { s with cursorCol := col }

def saveCursor (s : Console) : Console :=
  { s with oldCursorCol := s.cursorCol, oldCursorRow := s.cursorRow }

def restoreCursor (s : Console) : Console :=
  { s with cursorCol := s.oldCursorCol, cursorRow := s.oldCursorRow }

/-! ### Escape sequences -/

def clearEscParam (s : Console) : Console :=
  { s with escParam := fun _ => 0, currParamIndex := 0 }

/-- The place of an index in the array. -/
def paramIndex (i : Int) : Option (Fin 10) :=
  if h : 0 ≤ i ∧ i < escParamMax then some ⟨i.toNat, by unfold escParamMax at h; omega⟩ else none

def colorTable : Fin 8 → Color
  | 0 => .black
  | 1 => .red
  | 2 => .green
  | 3 => .yellow
  | 4 => .blue
  | 5 => .magenta
  | 6 => .cyan
  | 7 => .white

/-- One parameter of `set_font_style`. -/
def setFontStyle.style (s : Console) (param : Int) : Console :=
  if 30 ≤ param ∧ param ≤ 37 then
    { s with foreground := colorTable (Fin.ofNat 8 (param - 30).toNat) }
  else if 40 ≤ param ∧ param ≤ 47 then
    { s with background := colorTable (Fin.ofNat 8 (param - 40).toNat) }
  else if param = 39 then { s with foreground := .white }
  else if param = 49 then { s with background := .black }
  else s

/-- The loop of `setFontStyle`, from the index `i` on. -/
def setFontStyle.loop (s : Console) (i : Int) : Nat → Option Console
  | 0 => some s
  | n + 1 =>
      match paramIndex i with
      | none => none
      | some k => loop (setFontStyle.style s (s.escParam k)) (i + 1) n

def setFontStyle (s : Console) : Option Console :=
  setFontStyle.loop s 0 s.currParamIndex.toNat

def moveCursor (s : Console) : Console :=
  let s := if 1 ≤ s.currParamIndex then { s with cursorRow := s.escParam 0 } else s
  if 2 ≤ s.currParamIndex then { s with cursorCol := s.escParam 1 } else s

def eraseInDisplay (s : Console) : Console :=
  if s.currParamIndex ≤ 0 then s
  else if s.escParam 0 = 2 then
    { s.ereaseRows 0 (s.displayRows - 1) with cursorCol := 0, cursorRow := 0 }
  else s

/-! ### Characters -/

def writeNomal (s : Console) (ch : UInt8) : Console :=
  if ch = asciiEsc then { s with writeState := .esc }
  else if ch = 0x7f then s.ereaseBack
  -- '\b', '\r', '\n'
  else if ch = 8 then (s.moveBackward 1).2
  else if ch = 13 then s.movToCol0
  else if ch = 10 then s.movToCol0.movNextRow
  -- ' ' to '~'
  else if 32 ≤ ch ∧ ch ≤ 126 then s.showChar ch
  else s

def writeEsc (s : Console) (ch : UInt8) : Console :=
  -- '7', '8', '['
  if ch = 55 then { s.saveCursor with writeState := .nomal }
  else if ch = 56 then { s.restoreCursor with writeState := .nomal }
  else if ch = 91 then { s.clearEscParam with writeState := .square }
  else { s with writeState := .nomal }

/-- A digit of a parameter. -/
def writeEscSquare.digit (s : Console) (c : UInt8) : Option Console :=
  match paramIndex s.currParamIndex with
  | none => none
  | some k =>
      some { s with
        escParam := Function.update s.escParam k (int32 (s.escParam k * 10 + c.toNat - 48)) }

/-- The character at the end of a sequence. -/
def writeEscSquare.final (s : Console) (c : UInt8) : Option Console :=
  -- 'm', 'D', 'C', 'H', 'f', 'J'
  if c = 109 then s.setFontStyle
  else if c = 68 then some (s.moveLeft (s.escParam 0))
  else if c = 67 then some (s.moveRight (s.escParam 0))
  else if c = 72 ∨ c = 102 then some s.moveCursor
  else if c = 74 then some s.eraseInDisplay
  else some s

def writeEscSquare (s : Console) (c : UInt8) : Option Console :=
  -- '0' to '9', ';'
  if 48 ≤ c ∧ c ≤ 57 then writeEscSquare.digit s c
  else if c = 59 ∧ s.currParamIndex < escParamMax then
    some { s with currParamIndex := s.currParamIndex + 1 }
  else
    match writeEscSquare.final { s with currParamIndex := s.currParamIndex + 1 } c with
    | none => none
    | some s => some { s with writeState := .nomal }

/-- What `console_write` does with a character it has taken. -/
def consoleWrite.char (s : Console) (ch : UInt8) : Option Console :=
  match s.writeState with
  | .nomal => some (s.writeNomal ch)
  | .esc => some (s.writeEsc ch)
  | .square => s.writeEscSquare ch

/-- What it does with a sequence of characters. -/
def consoleWrite.chars (s : Console) (chs : List UInt8) : Option Console :=
  chs.foldlM consoleWrite.char s

end Console

end Dmos
