import Dmos.Dev.Selecting
import Dmos.Dev.Shared
import Dmos.Library.Transition

/-!
# The screens of the terminals

The consoles of all terminals, the display memory they share, the display controller that shows
a part of it, and the keyboard.  In any order of keyboard interrupts, openings of terminals,
characters written on their consoles and moves of the hardware cursor, what is typed goes to the
terminal that was selected last, and that is the one whose screen the controller shows
(`shows_of_reachable`).  Every console has on its screen what it would have on a memory of its
own, as long as the characters written on it fit (`alone_of_reachable`).
-/

open TransitionSystem History

namespace Dmos

/-! ### The display controller -/

/-- The registers of the controller, and the index of the one that is accessed. -/
structure Crtc where
  index : UInt8
  regs : UInt8 → UInt8

namespace Crtc

def outb (d : Crtc) (port : UInt16) (data : UInt8) : Crtc :=
  if port = 0x3D4 then { d with index := data }
  else if port = 0x3D5 then { d with regs := Function.update d.regs d.index data }
  else d

def inb (d : Crtc) (port : UInt16) : UInt8 :=
  if port = 0x3D5 then d.regs d.index else d.index

/-- The cell that is shown first. -/
def startAddress (d : Crtc) : Nat :=
  (d.regs 0xC).toNat * 256 + (d.regs 0xD).toNat

def readCursorPos (d : Crtc) : Int × Crtc :=
  let d := d.outb 0x3D4 0x0F
  let pos := (d.inb 0x3D5).toNat
  let d := d.outb 0x3D4 0x0E
  let pos := pos ||| ((d.inb 0x3D5).toNat <<< 8)
  (pos, d)

/-- The stores of `update_cursor_pos`, which nothing comes between. -/
def putCursorPos (d : Crtc) (pos : UInt16) : Crtc :=
  let d := d.outb 0x3D4 0x0F
  let d := d.outb 0x3D5 (pos &&& 0xFF).toUInt8
  let d := d.outb 0x3D4 0x0E
  d.outb 0x3D5 ((pos >>> 8) &&& 0xFF).toUInt8

/-- The stores of `console_select`. -/
def putStart (d : Crtc) (pos : UInt16) : Crtc :=
  let d := d.outb 0x3D4 0xC
  let d := d.outb 0x3D5 ((pos >>> 8) &&& 0xFF).toUInt8
  let d := d.outb 0x3D4 0xD
  d.outb 0x3D5 (pos &&& 0xFF).toUInt8

variable {d : Crtc}

/-- A store through the two ports changes one register. -/
theorem regs_outb (index data : UInt8) :
  ((d.outb 0x3D4 index).outb 0x3D5 data).regs = Function.update d.regs index data
  := by simp [outb]

theorem regs_outb_index (index : UInt8) :
  (d.outb 0x3D4 index).regs = d.regs
  := by simp [outb]

theorem startAddress_readCursorPos :
  d.readCursorPos.2.startAddress = d.startAddress
  := by
  rw [startAddress, startAddress, readCursorPos]
  dsimp only
  rw [regs_outb_index, regs_outb_index]

theorem startAddress_putCursorPos (pos : UInt16) :
  (d.putCursorPos pos).startAddress = d.startAddress
  := by
  rw [startAddress, startAddress, putCursorPos, regs_outb, regs_outb,
    Function.update_of_ne (by decide), Function.update_of_ne (by decide),
    Function.update_of_ne (by decide), Function.update_of_ne (by decide)]

theorem startAddress_putStart (pos : UInt16) :
  (d.putStart pos).startAddress = pos.toNat
  := by
  have hlt := pos.toNat_lt
  rw [startAddress, putStart, regs_outb, regs_outb, Function.update_of_ne (by decide), Function.update_self,
    Function.update_self, UInt16.toNat_toUInt8, UInt16.toNat_toUInt8, UInt16.toNat_and,
    UInt16.toNat_and, UInt16.toNat_shiftRight]
  change (pos.toNat >>> 8 &&& 2 ^ 8 - 1) % 256 * 256 + (pos.toNat &&& 2 ^ 8 - 1) % 256 = pos.toNat
  rw [Nat.and_two_pow_sub_one_eq_mod, Nat.and_two_pow_sub_one_eq_mod, Nat.shiftRight_eq_div_pow]
  omega

end Crtc

/-- The console as it is before it is initialised. -/
def Console.zero : Console where
  writeState := .nomal
  dispBase := 0
  displayRows := 0
  displayCols := 0
  cursorRow := 0
  cursorCol := 0
  foreground := .black
  background := .black
  oldCursorCol := 0
  oldCursorRow := 0
  escParam _ := 0
  currParamIndex := 0
  display := { cells := fun _ => ⟨0, 0, 0⟩, drawn := [] }

/-- The position that `update_cursor_pos` computes. -/
def Console.cursorPos (s : Console) (idx : Nat) : UInt16 :=
  UInt16.ofInt (idx * (s.displayCols * s.displayRows))
    + UInt16.ofInt (s.cursorRow * s.displayCols + s.cursorCol)

def Crtc.updateCursorPos (d : Crtc) (s : Console) (idx : Nat) : Crtc :=
  d.putCursorPos (s.cursorPos idx)

/-! ### The state -/

/-- What is done with a console. -/
inductive ConsoleCall where
  | init (cursorPos : Int)
  | char (ch : UInt8)

/-- What has been done: the keyboard interrupts with what the ports gave, the characters
`tty_in` was given for each terminal, and what was done with each console. -/
structure ScreensLog where
  interrupts : List (UInt8 × UInt8)
  input : Nat → List UInt8
  calls : Nat → List ConsoleCall

/-- `console_buf`, where a console whose `disp_base` is null is none, with `curr_tty`, the state
of the keyboard, the display memory and its controller. -/
structure Screens where
  kbd : Kbd
  currTty : Nat
  consoles : Nat → Option Console
  display : Display
  crtc : Crtc
  log : ScreensLog

inductive ScreensEvent where
  /-- A keyboard interrupt, with what the status and the data port give. -/
  | interrupt (status data : UInt8)
  | ttyOpen (idx : Nat)
  /-- `console_write` does what a character asks for. -/
  | write (idx : Nat) (ch : UInt8)
  /-- `console_write` moves the hardware cursor to the position it has computed before. -/
  | moveCursor (pos : UInt16)

namespace Screens

/-- The console, on the display memory. -/
def console (s : Screens) (idx : Nat) : Console :=
  ((s.consoles idx).getD .zero).on s.display

/-- The console becomes `c`, with the display memory that `c` has. -/
def setConsole (s : Screens) (idx : Nat) (c : Console) (call : ConsoleCall) : Screens :=
  { s with
    consoles := Function.update s.consoles idx (some c)
    display := c.display
    log := { s.log with calls := Function.update s.log.calls idx (s.log.calls idx ++ [call]) } }

def setCrtc (s : Screens) (crtc : Crtc) : Screens :=
  { s with crtc }

def consoleInit (s : Screens) (idx : Nat) : Screens :=
  if idx = 0 then
    let (cursorPos, crtc) := s.crtc.readCursorPos
    let c := (s.console idx).consoleInit idx cursorPos
    (s.setConsole idx c (.init cursorPos)).setCrtc crtc
  else
    let c := (s.console idx).consoleInit idx 0
    (s.setConsole idx c (.init 0)).setCrtc (s.crtc.updateCursorPos c idx)

def consoleSelect (s : Screens) (idx : Nat) : Screens :=
  let s := if (s.consoles idx).isNone then s.consoleInit idx else s
  let c := s.console idx
  let pos := UInt16.ofInt (idx * c.displayCols * c.displayRows)
  s.setCrtc ((s.crtc.putStart pos).updateCursorPos c idx)

def ttySelect (s : Screens) (tty : Nat) : Screens :=
  if tty ≠ s.currTty then { s.consoleSelect tty with currTty := tty } else s

/-- The terminal that `tty_in` gives the character to. -/
def ttyIn (s : Screens) (ch : UInt8) : Screens :=
  { s with log :=
      { s.log with
        input := Function.update s.log.input s.currTty (s.log.input s.currTty ++ [ch]) } }

def call (s : Screens) : KbdCall → Screens
  | .ttyIn ch => s.ttyIn ch
  | .ttySelect tty => s.ttySelect tty

def handleKbd (s : Screens) (status data : UInt8) : Screens :=
  let (kbd, calls) := s.kbd.handleKbd status data
  let log := { s.log with interrupts := s.log.interrupts ++ [(status, data)] }
  calls.foldl call { s with kbd, log }

/-- `console_write` takes a character, on a console that has been initialised. -/
def consoleWrite (s : Screens) (idx : Nat) (ch : UInt8) : Option Screens :=
  match s.consoles idx with
  | none => none
  | some _ =>
      (Console.consoleWrite.char (s.console idx) ch).map fun c => s.setConsole idx c (.char ch)

/-- The log has the first terminal open from the start, so it is not opened again. -/
inductive Step : Screens → ScreensEvent → Screens → Prop
  | interrupt (s : Screens) (status data : UInt8) :
      Step s (.interrupt status data) (s.handleKbd status data)
  | ttyOpen (s : Screens) {idx : Nat} (h : 0 < idx ∧ idx < 8) :
      Step s (.ttyOpen idx) (s.consoleInit idx)
  | write {s s' : Screens} {idx : Nat} {ch : UInt8} (h : s.consoleWrite idx ch = some s') :
      Step s (.write idx ch) s'
  | moveCursor (s : Screens) (pos : UInt16) :
      Step s (.moveCursor pos) (s.setCrtc (s.crtc.putCursorPos pos))

/-- Before the first terminal is opened. -/
def zero (cells : Int → DispChar) (crtc : Crtc) : Screens where
  kbd := .init
  currTty := 0
  consoles _ := none
  display := { cells, drawn := [] }
  crtc := crtc
  log := { interrupts := [], input := fun _ => [], calls := fun _ => [] }

/-- The runs from where the first terminal has just been opened, on a display that shows the
memory from its first cell on, with the cursor on the screen. -/
def screens (cells : Int → DispChar) : TransitionSystem Screens ScreensEvent where
  init s := ∃ crtc : Crtc, crtc.startAddress = 0 ∧ crtc.readCursorPos.1 < 2000
    ∧ s = (zero cells crtc).consoleInit 0
  step := Step

/-! ### What is shown -/

/-- The scan codes that have come. -/
abbrev codes (s : Screens) : List UInt8 :=
  scanCodes s.log.interrupts

/-- The characters that were typed while the terminal was the selected one. -/
def typedTo (idx : Nat) (codes : List UInt8) : List UInt8 :=
  reports (fun codes code => if selected codes = idx then types codes code else none) codes

/-- The terminal that was selected last is the current one, its console is initialised and the
one that is shown, and every terminal was given what was typed for it. -/
structure Shows (s : Screens) : Prop where
  currTty : s.currTty = selected s.codes
  shown : ∃ c, s.consoles s.currTty = some c ∧ s.crtc.startAddress = c.dispBase
  input : ∀ idx, s.log.input idx = typedTo idx s.codes

/-- What holds besides: the consoles have the cells of their screens. -/
structure Keeps (s : Screens) : Prop where
  kbd : s.kbd.TracksCtrl s.codes
  currTty : s.currTty = selected s.codes
  lt : s.currTty < 8
  isSome : (s.consoles s.currTty).isSome = true
  start : s.crtc.startAddress = 2000 * s.currTty
  spans : ∀ idx c, s.consoles idx = some c → c.Spans (Console.screenOf idx)
  input : ∀ idx, s.log.input idx = typedTo idx s.codes

theorem Keeps.shows {s : Screens} (h : s.Keeps) :
  s.Shows
  := by
  refine ⟨h.currTty, ?_, h.input⟩
  obtain ⟨c, hc⟩ := Option.isSome_iff_exists.mp h.isSome
  have hbase : c.dispBase = s.currTty * (80 * 25) := (h.spans _ c hc).base
  have hstart := h.start
  exact ⟨c, hc, by omega⟩

variable {s s' : Screens} {idx tty : Nat}

/-- What `console_init` does to the consoles and to the controller. -/
theorem consoleInit_eq (s : Screens) (idx : Nat) :
  ∃ cursorPos crtc, s.consoleInit idx
      = (s.setConsole idx ((s.console idx).consoleInit idx cursorPos) (.init cursorPos)).setCrtc crtc
    ∧ crtc.startAddress = s.crtc.startAddress
    ∧ cursorPos = (if idx = 0 then s.crtc.readCursorPos.1 else 0)
  := by
  rw [Screens.consoleInit]
  split_ifs
  · exact ⟨_, _, rfl, Crtc.startAddress_readCursorPos, rfl⟩
  · exact ⟨_, _, rfl, Crtc.startAddress_putCursorPos _, rfl⟩

/-- The consoles that are initialised have the cells of their screens. -/
def Spanned (s : Screens) : Prop :=
  ∀ idx c, s.consoles idx = some c → c.Spans (Console.screenOf idx)

theorem Spanned.setConsole (h : s.Spanned) {c : Console} (hc : c.Spans (Console.screenOf idx))
    (call : ConsoleCall) :
  (s.setConsole idx c call).Spanned
  := by
  intro i c' hc'
  change Function.update s.consoles idx (some c) i = some c' at hc'
  by_cases hi : i = idx
  · subst hi
    rw [Function.update_self] at hc'
    cases hc'
    exact hc
  · rw [Function.update_of_ne hi] at hc'
    exact h i c' hc'

theorem Spanned.consoleInit (h : s.Spanned) (idx : Nat) :
  (s.consoleInit idx).Spanned
  := by
  obtain ⟨cursorPos, crtc, heq, -⟩ := s.consoleInit_eq idx
  rw [heq]
  exact h.setConsole (Console.spans_consoleInit _ idx cursorPos) (.init cursorPos)

/-- `console_select` leads to an initialised console. -/
theorem isSome_consoleInit (s : Screens) (idx : Nat) :
  ((s.consoleInit idx).consoles idx).isSome = true
  := by
  obtain ⟨cursorPos, crtc, heq, -⟩ := s.consoleInit_eq idx
  rw [heq]
  change (Function.update s.consoles idx _ idx).isSome = true
  rw [Function.update_self, Option.isSome_some]

/-- What `console_init` leaves alone. -/
theorem consoleInit_keeps (s : Screens) (idx : Nat) :
  (s.consoleInit idx).kbd = s.kbd ∧ (s.consoleInit idx).currTty = s.currTty
    ∧ (s.consoleInit idx).crtc.startAddress = s.crtc.startAddress
    ∧ (s.consoleInit idx).log.interrupts = s.log.interrupts
    ∧ (s.consoleInit idx).log.input = s.log.input
  := by
  obtain ⟨cursorPos, crtc, heq, hstart, -⟩ := s.consoleInit_eq idx
  rw [heq]
  exact ⟨rfl, rfl, hstart, rfl, rfl⟩

/-- What `console_select` leads to. -/
theorem Spanned.consoleSelect (h : s.Spanned) (hidx : idx < 8) :
  (s.consoleSelect idx).Spanned ∧ ((s.consoleSelect idx).consoles idx).isSome = true
    ∧ (s.consoleSelect idx).crtc.startAddress = 2000 * idx
    ∧ (s.consoleSelect idx).kbd = s.kbd
    ∧ (s.consoleSelect idx).log.interrupts = s.log.interrupts
    ∧ (s.consoleSelect idx).log.input = s.log.input
  := by
  -- the consoles once this one is initialised
  obtain ⟨s', heq, hspans, hsome, hkeys⟩ : ∃ s' : Screens,
      (if (s.consoles idx).isNone then s.consoleInit idx else s) = s' ∧ s'.Spanned
        ∧ (s'.consoles idx).isSome = true ∧ s'.kbd = s.kbd
        ∧ s'.log.interrupts = s.log.interrupts ∧ s'.log.input = s.log.input := by
    split_ifs with hnone
    · obtain ⟨hkbd, -, -, hints, hinput⟩ := s.consoleInit_keeps idx
      exact ⟨_, rfl, h.consoleInit idx, s.isSome_consoleInit idx, hkbd, hints, hinput⟩
    · have hsome : (s.consoles idx).isSome = true := by
        rwa [Option.isNone_iff_eq_none, ← ne_eq, Option.ne_none_iff_isSome] at hnone
      exact ⟨s, rfl, h, hsome, rfl, rfl, rfl⟩
  have hselect : s.consoleSelect idx = s'.setCrtc
      ((s'.crtc.putStart (UInt16.ofInt (idx * (s'.console idx).displayCols
        * (s'.console idx).displayRows))).updateCursorPos (s'.console idx) idx) := by
    rw [← heq]
    rfl
  obtain ⟨c, hc⟩ := Option.isSome_iff_exists.mp hsome
  have hconsole : s'.console idx = c.on s'.display := by
    rw [console, hc, Option.getD_some]
  have hcols : (s'.console idx).displayCols = 80 := by
    rw [hconsole]
    exact (hspans idx c hc).cols
  have hrows : (s'.console idx).displayRows = 25 := by
    rw [hconsole]
    exact (hspans idx c hc).rows
  rw [hselect]
  refine ⟨hspans, hsome, ?_, hkeys⟩
  change (Crtc.putCursorPos (s'.crtc.putStart _) _).startAddress = _
  rw [Crtc.startAddress_putCursorPos, Crtc.startAddress_putStart, hcols, hrows, UInt16.ofInt,
    UInt16.toNat_ofNat']
  omega

theorem typedTo_concat (idx : Nat) (codes : List UInt8) (code : UInt8) :
  typedTo idx (codes ++ [code])
    = typedTo idx codes ++ (if selected codes = idx then types codes code else none).toList
  := reports_concat _

/-- The state once the scan code has been taken, before what it asks for is done. -/
def received (s : Screens) (status data : UInt8) : Screens :=
  { s with
    kbd := (s.kbd.handleKbd status data).1
    log := { s.log with interrupts := s.log.interrupts ++ [(status, data)] } }

theorem handleKbd_eq (s : Screens) (status data : UInt8) :
  s.handleKbd status data
    = (s.kbd.handleKbd status data).2.foldl call (s.received status data)
  := rfl

theorem Keeps.select (h : s.Keeps) {status data : UInt8} {n : Nat}
    (hkbd : (s.received status data).kbd.TracksCtrl (s.received status data).codes)
    (hcodes : (s.received status data).codes = s.codes ++ [data])
    (hselects : selects s.codes data = some n) :
  ((s.received status data).ttySelect n).Keeps
  := by
  have hspans : (s.received status data).Spanned := h.spans
  have hlt := selects_lt hselects
  have hselected : n = selected (s.received status data).codes := by
    rw [hcodes, selected_concat, hselects, Option.getD_some]
  have hinput (idx : Nat) : s.log.input idx = typedTo idx (s.received status data).codes := by
    rw [hcodes, typedTo_concat, types_of_selects hselects, ite_self, Option.toList_none,
      List.append_nil]
    apply h.input
  rw [ttySelect]
  split_ifs with hne
  · obtain ⟨hspans', hsome, hstart, hkbd', hints, hinput'⟩ := hspans.consoleSelect hlt
    have hcodes' : ((s.received status data).consoleSelect n).codes
        = (s.received status data).codes := by rw [codes, hints]
    constructor
    · change ((s.received status data).consoleSelect n).kbd.TracksCtrl
        ((s.received status data).consoleSelect n).codes
      rw [hkbd', hcodes']
      exact hkbd
    · change n = selected ((s.received status data).consoleSelect n).codes
      rw [hcodes']
      exact hselected
    · exact hlt
    · exact hsome
    · exact hstart
    · exact hspans'
    · intro idx
      change ((s.received status data).consoleSelect n).log.input idx
        = typedTo idx ((s.received status data).consoleSelect n).codes
      rw [hinput', hcodes']
      apply hinput
  · have heq : n = s.currTty := not_not.mp hne
    exact ⟨hkbd, heq ▸ hselected, h.lt, h.isSome, h.start, h.spans, hinput⟩

theorem Keeps.handleKbd (h : s.Keeps) (status data : UInt8) :
  (s.handleKbd status data).Keeps
  := by
  have hcodes : (s.received status data).codes
      = if status &&& kbdStatRecvReady = 0 then s.codes else s.codes ++ [data] :=
    Kbd.scanCodes_concat _ _ _
  rw [handleKbd_eq, Kbd.handleKbd]
  split_ifs at hcodes ⊢ with hready
  · have hkbd : (s.received status data).kbd = s.kbd := by
      change (s.kbd.handleKbd status data).1 = s.kbd
      rw [Kbd.handleKbd, if_pos hready]
    constructor
    · change (s.received status data).kbd.TracksCtrl (s.received status data).codes
      rw [hkbd, hcodes]
      exact h.kbd
    · change s.currTty = selected (s.received status data).codes
      rw [hcodes]
      exact h.currTty
    · exact h.lt
    · exact h.isSome
    · exact h.start
    · exact h.spans
    · change ∀ idx, s.log.input idx = typedTo idx (s.received status data).codes
      rw [hcodes]
      exact h.input
  · have hkbd : (s.received status data).kbd.TracksCtrl (s.received status data).codes := by
      change (s.kbd.handleKbd status data).1.TracksCtrl _
      rw [Kbd.handleKbd, if_neg hready, hcodes]
      exact h.kbd.handleCode data
    rw [h.kbd.handleCode_calls]
    cases hselects : selects s.codes data with
    | some n =>
        rw [types_of_selects hselects]
        exact h.select hkbd hcodes hselects
    | none =>
        have hselected : s.currTty = selected (s.received status data).codes := by
          rw [hcodes, selected_concat, hselects, Option.getD_none]
          exact h.currTty
        cases htypes : types s.codes data with
        | none =>
            refine ⟨hkbd, hselected, h.lt, h.isSome, h.start, h.spans, ?_⟩
            intro idx
            change s.log.input idx = typedTo idx (s.received status data).codes
            rw [hcodes, typedTo_concat, htypes, ite_self, Option.toList_none, List.append_nil]
            apply h.input
        | some ch =>
            refine ⟨hkbd, hselected, h.lt, h.isSome, h.start, h.spans, ?_⟩
            intro idx
            change Function.update s.log.input s.currTty (s.log.input s.currTty ++ [ch]) idx
              = typedTo idx (s.received status data).codes
            rw [hcodes, typedTo_concat, htypes, h.currTty]
            by_cases hidx : selected s.codes = idx
            · rw [hidx, Function.update_self, if_pos rfl, h.input]
              rfl
            · rw [Function.update_of_ne (Ne.symm hidx), if_neg hidx, h.input,
                Option.toList_none, List.append_nil]

/-- A console that is initialised remains so. -/
theorem isSome_setConsole {i : Nat} (h : (s.consoles i).isSome = true) (idx : Nat) (c : Console)
    (call : ConsoleCall) :
  ((s.setConsole idx c call).consoles i).isSome = true
  := by
  change (Function.update s.consoles idx (some c) i).isSome = true
  by_cases heq : i = idx
  · rw [heq, Function.update_self, Option.isSome_some]
  · rw [Function.update_of_ne heq]
    exact h

theorem isSome_consoleInit_of {i : Nat} (h : (s.consoles i).isSome = true) (idx : Nat) :
  ((s.consoleInit idx).consoles i).isSome = true
  := by
  obtain ⟨cursorPos, crtc, heq, -⟩ := s.consoleInit_eq idx
  rw [heq]
  exact isSome_setConsole h idx _ (.init cursorPos)

/-- What `console_write` does with a character. -/
theorem consoleWrite_eq {ch : UInt8} (h : s.consoleWrite idx ch = some s') :
  (s.consoles idx).isSome = true
    ∧ ∃ c, Console.consoleWrite.char (s.console idx) ch = some c
      ∧ s' = s.setConsole idx c (.char ch)
  := by
  rw [Screens.consoleWrite] at h
  cases hc : s.consoles idx with
  | none =>
      rw [hc] at h
      cases h
  | some c =>
      rw [hc] at h
      obtain ⟨c', hc', heq⟩ := Option.map_eq_some_iff.mp h
      exact ⟨rfl, c', hc', heq.symm⟩

theorem Keeps.setConsole (h : s.Keeps) {c : Console} (hc : c.Spans (Console.screenOf idx))
    (call : ConsoleCall) :
  (s.setConsole idx c call).Keeps
  := by
  exact ⟨h.kbd, h.currTty, h.lt, isSome_setConsole h.isSome idx c call, h.start,
    Spanned.setConsole h.spans hc call, h.input⟩

theorem Keeps.setCrtc (h : s.Keeps) {crtc : Crtc}
    (hstart : crtc.startAddress = s.crtc.startAddress) :
  (s.setCrtc crtc).Keeps
  := ⟨h.kbd, h.currTty, h.lt, h.isSome, hstart.trans h.start, h.spans, h.input⟩

theorem Keeps.consoleInit (h : s.Keeps) (idx : Nat) :
  (s.consoleInit idx).Keeps
  := by
  obtain ⟨cursorPos, crtc, heq, hstart, -⟩ := s.consoleInit_eq idx
  rw [heq]
  exact (h.setConsole (Console.spans_consoleInit _ idx cursorPos) _).setCrtc hstart

theorem Keeps.consoleWrite (h : s.Keeps) {ch : UInt8} (hwrite : s.consoleWrite idx ch = some s') :
  s'.Keeps
  := by
  obtain ⟨hsome, c', hchar, rfl⟩ := consoleWrite_eq hwrite
  obtain ⟨c, hc⟩ := Option.isSome_iff_exists.mp hsome
  have hspans : (s.console idx).Spans (Console.screenOf idx) := by
    rw [console, hc, Option.getD_some]
    obtain ⟨hbase, hrows, hcols⟩ := h.spans idx c hc
    exact ⟨hbase, hrows, hcols⟩
  have hsame := (Console.same_self hspans).char ch
  rw [hchar] at hsame
  cases hsame with
  | some hsame =>
      obtain ⟨-, -, hspans', -⟩ := hsame
      exact h.setConsole hspans' _

theorem Keeps.step (h : s.Keeps) {e : ScreensEvent} (hstep : Step s e s') :
  s'.Keeps
  := by
  cases hstep with
  | interrupt status data => apply h.handleKbd
  | @ttyOpen idx => apply h.consoleInit
  | write hwrite => apply h.consoleWrite hwrite
  | moveCursor pos => exact h.setCrtc (Crtc.startAddress_putCursorPos pos)

theorem Keeps.init {cells : Int → DispChar} (h : (screens cells).init s) :
  s.Keeps
  := by
  obtain ⟨crtc, hstart, -, rfl⟩ := h
  obtain ⟨cursorPos, crtc', heq, hstart', -⟩ := (zero cells crtc).consoleInit_eq 0
  have hnone : (zero cells crtc).Spanned := fun _ _ => nofun
  have hsome := (zero cells crtc).isSome_consoleInit 0
  rw [heq] at hsome ⊢
  constructor
  · exact Kbd.tracksCtrl_init
  · rfl
  · exact Nat.zero_lt_succ 7
  · exact hsome
  · exact hstart'.trans hstart
  · exact hnone.setConsole (Console.spans_consoleInit _ 0 cursorPos) (.init cursorPos)
  · exact fun _ => rfl

/-- In every run, what is typed goes to the terminal that was selected last, and the display
shows the screen of that terminal. -/
theorem shows_of_reachable {cells : Int → DispChar}
    (h : (screens cells).Reachable (fun _ => True) s) :
  s.Shows
  := by
  have hkeeps : s.Keeps := h.invariant (fun _ => Keeps.init) (fun _ _ _ hs _ => hs.step)
  exact hkeeps.shows

/-- The first terminal on a blank display. -/
def booted : Screens :=
  (zero (fun _ => ⟨32, 15, 0⟩) ⟨0, fun _ => 0⟩).consoleInit 0

theorem booted_init :
  (screens fun _ => ⟨32, 15, 0⟩).init booted
  := ⟨_, rfl, by decide, rfl⟩

/-- Control and the second function key, and the letter a. -/
theorem shows_second :
  ∃ s, (screens fun _ => ⟨32, 15, 0⟩).Reachable (fun _ => True) s ∧ s.Shows ∧ s.currTty = 1
    ∧ s.log.input 1 = [97]
  := by
  have hinit : (screens fun _ => ⟨32, 15, 0⟩).Reachable (fun _ => True) booted :=
    Reachable.init booted_init
  have hrun := ((hinit.step trivial (Step.interrupt _ 1 0x1D)).step trivial
    (Step.interrupt _ 1 0x3C)).step trivial (Step.interrupt _ 1 0x1E)
  have hshows := shows_of_reachable hrun
  have hselected : selected [0x1D, 0x3C, 0x1E] = 1 := by decide
  have htyped : typedTo 1 [0x1D, 0x3C, 0x1E] = [97] := by decide
  exact ⟨_, hrun, hshows, hshows.currTty.trans hselected, (hshows.input 1).trans htyped⟩

/-! ### What is on the screens -/

end Screens

namespace Console

def call (idx : Nat) (s : Console) : ConsoleCall → Option Console
  | .init cursorPos => some (s.consoleInit idx cursorPos)
  | .char ch => consoleWrite.char s ch

/-- The console on a memory of its own, after the calls. -/
def alone (cells : Int → DispChar) (idx : Nat) (calls : List ConsoleCall) : Option Console :=
  calls.foldlM (call idx) (zero.on { cells, drawn := [] })

theorem alone_concat (cells : Int → DispChar) (idx : Nat) (calls : List ConsoleCall)
    (c : ConsoleCall) :
  alone cells idx (calls ++ [c]) = (alone cells idx calls).bind fun s => call idx s c
  := by
  rw [alone, List.foldlM_append, ← alone, Option.bind_eq_bind]
  congr 1
  funext s
  exact bind_pure _

end Console

namespace Screens

/-- The console is what it would be on a memory of its own, and so are the cells of its screen. -/
structure Isolated (cells : Int → DispChar) (s : Screens) (idx : Nat) (t : Console) : Prop where
  alone : Console.alone cells idx (s.log.calls idx) = some t
  console : s.console idx = t.on s.display
  display : ∀ p, (Console.screenOf idx).Cell p → s.display.cells p = t.display.cells p

/-- A character that is written fits on the console it finds. -/
def Fits (s : Screens) : ScreensEvent → Prop
  | .write idx ch => (s.console idx).Fits ch
  | _ => True

/-- What holds of the console on its own memory besides. -/
structure Sound (cells : Int → DispChar) (s : Screens) (idx : Nat) (t : Console) : Prop
    extends Isolated cells s idx t where
  drawn : ∀ p ∈ t.display.drawn, (Console.screenOf idx).Cell p
  onScreen : (s.consoles idx).isSome = true →
    t.OnScreen (Console.screenOf idx) ∧ ∃ parse, t.Parses parse

/-- All consoles are isolated. -/
def AllSound (cells : Int → DispChar) (s : Screens) : Prop :=
  ∀ idx, ∃ t, Sound cells s idx t

variable {cells : Int → DispChar} {s s' : Screens} {idx : Nat}

/-- The isolation is about the consoles, their memory and what was done with them. -/
theorem AllSound.congr (h : AllSound cells s) (hconsoles : s'.consoles = s.consoles)
    (hdisplay : s'.display = s.display) (hcalls : s'.log.calls = s.log.calls) :
  AllSound cells s'
  := by
  have hconsole (idx : Nat) : s'.console idx = s.console idx := by
    rw [Screens.console, Screens.console, hconsoles, hdisplay]
  intro idx
  obtain ⟨t, ht⟩ := h idx
  refine ⟨t, ⟨?_, ?_, ?_⟩, ht.drawn, ?_⟩
  · rw [hcalls]
    exact ht.alone
  · rw [hconsole, hdisplay]
    exact ht.console
  · rw [hdisplay]
    exact ht.display
  · rw [hconsoles]
    exact ht.onScreen

/-- Two screens have no cell in common. -/
theorem not_cell_of_ne {i j : Nat} (hne : i ≠ j) {p : Int} (hi : (Console.screenOf i).Cell p) :
  ¬ (Console.screenOf j).Cell p
  := by
  have hi' : (i : Int) * (80 * 25) ≤ p ∧ p < i * (80 * 25) + 25 * 80 := hi
  intro hj
  have hj' : (j : Int) * (80 * 25) ≤ p ∧ p < j * (80 * 25) + 25 * 80 := hj
  omega

/-- A call that does the same on both memories, and draws on its screen where it is on its
own. -/
theorem AllSound.setConsole (h : AllSound cells s) {c t t' : Console} {call : ConsoleCall}
    (halone : Console.alone cells idx (s.log.calls idx) = some t)
    (hcall : Console.call idx t call = some t')
    (hsame : Console.Same (Console.screenOf idx) s.display.cells c t')
    (honscreen : t'.OnScreen (Console.screenOf idx)) (hparses : ∃ parse, t'.Parses parse) :
  AllSound cells (s.setConsole idx c call)
  := by
  obtain ⟨d, rfl, -, hd⟩ := hsame
  have hself : Function.update s.consoles idx (some (t'.on d)) idx = some (t'.on d) :=
    Function.update_self ..
  intro i
  by_cases hi : i = idx
  · subst hi
    refine ⟨t', ⟨?_, ?_, hd.inside⟩, honscreen.drawn, fun _ => ⟨honscreen, hparses⟩⟩
    · change Console.alone cells i (Function.update s.log.calls i (s.log.calls i ++ [call]) i)
        = some t'
      rw [Function.update_self, Console.alone_concat, halone]
      exact hcall
    · change ((Function.update s.consoles i (some (t'.on d)) i).getD .zero).on d = t'.on d
      rw [hself]
      rfl
  · obtain ⟨t₀, ht₀⟩ := h i
    have hother : Function.update s.consoles idx (some (t'.on d)) i = s.consoles i :=
      Function.update_of_ne hi ..
    refine ⟨t₀, ⟨?_, ?_, ?_⟩, ht₀.drawn, ?_⟩
    · change Console.alone cells i (Function.update s.log.calls idx _ i) = some t₀
      rw [Function.update_of_ne hi]
      exact ht₀.alone
    · change ((Function.update s.consoles idx (some (t'.on d)) i).getD .zero).on d = t₀.on d
      rw [hother]
      have hon : (s.console i).on d = (t₀.on s.display).on d := by rw [ht₀.console]
      exact hon
    · intro p hp
      rw [← ht₀.display p hp]
      exact hd.outside p fun hdrawn => not_cell_of_ne hi hp (honscreen.drawn p hdrawn)
    · change (Function.update s.consoles idx (some (t'.on d)) i).isSome = true → _
      rw [hother]
      exact ht₀.onScreen

theorem AllSound.matches (h : AllSound cells s) (idx : Nat) :
  ∃ t, Sound cells s idx t
    ∧ Display.Matches (Console.screenOf idx) s.display.cells s.display t.display
  := by
  obtain ⟨t, ht⟩ := h idx
  exact ⟨t, ht, ht.display, fun _ _ => rfl⟩

/-- The first console takes the position of the hardware cursor, which is on its screen. -/
theorem AllSound.consoleInit (h : AllSound cells s)
    (hcursor : idx = 0 → s.crtc.readCursorPos.1 < 2000) :
  AllSound cells (s.consoleInit idx)
  := by
  obtain ⟨t, ht, hmatches⟩ := h.matches idx
  obtain ⟨cursorPos, crtc, heq, -, hpos⟩ := s.consoleInit_eq idx
  have hrange : (idx : Int) = 0 → 0 ≤ cursorPos ∧ cursorPos < 80 * 25 := by
    intro hidx
    have hzero : idx = 0 := by omega
    rw [hpos, if_pos hzero]
    exact ⟨Int.natCast_nonneg _, hcursor hzero⟩
  obtain ⟨honscreen, hparses⟩ := t.consoleInit_keeps ht.drawn hrange
  have hcall : Console.call idx t (.init cursorPos) = some (t.consoleInit idx cursorPos) := rfl
  have hset := h.setConsole ht.alone hcall (Console.same_consoleInit hmatches cursorPos) honscreen
    ⟨_, hparses⟩
  rw [heq, ht.console]
  exact hset.congr rfl rfl rfl

theorem isSome_call {i : Nat} (h : (s.consoles i).isSome = true) (c : KbdCall) :
  ((s.call c).consoles i).isSome = true
  := by
  cases c with
  | ttyIn ch => exact h
  | ttySelect tty =>
      change ((s.ttySelect tty).consoles i).isSome = true
      rw [ttySelect]
      split_ifs
      · change ((if (s.consoles tty).isNone then s.consoleInit tty else s).consoles i).isSome = true
        split_ifs
        · exact isSome_consoleInit_of h tty
        · exact h
      · exact h

theorem AllSound.call (h : AllSound cells s) (hfirst : (s.consoles 0).isSome = true)
    (c : KbdCall) :
  AllSound cells (s.call c)
  := by
  cases c with
  | ttyIn ch => exact h.congr rfl rfl rfl
  | ttySelect tty =>
      change AllSound cells (s.ttySelect tty)
      rw [ttySelect]
      split_ifs
      · have hinit : AllSound cells
            (if (s.consoles tty).isNone then s.consoleInit tty else s) := by
          split_ifs with hnone
          · apply h.consoleInit
            rintro rfl
            rw [Option.isNone_iff_eq_none] at hnone
            rw [hnone] at hfirst
            cases hfirst
          · exact h
        exact hinit.congr rfl rfl rfl
      · exact h

theorem AllSound.consoleWrite (h : AllSound cells s) {ch : UInt8} (hfits : s.Fits (.write idx ch))
    (hwrite : s.consoleWrite idx ch = some s') :
  AllSound cells s'
  := by
  obtain ⟨t, ht, hmatches⟩ := h.matches idx
  obtain ⟨hsome, c', hout, rfl⟩ := consoleWrite_eq hwrite
  obtain ⟨honscreen, parse, hparse⟩ := ht.onScreen hsome
  have hsame : Console.Same (Console.screenOf idx) s.display.cells (t.on s.display) t :=
    ⟨_, rfl, ⟨honscreen.base, honscreen.rows, honscreen.cols⟩, hmatches⟩
  have hfits' : t.Fits ch := by
    change (s.console idx).Fits ch at hfits
    rw [ht.console] at hfits
    exact hfits
  obtain ⟨t', hchar, honscreen'⟩ := (honscreen.char_iff hparse ch).mpr hfits'
  have hrel := hsame.char ch
  rw [hchar, ← ht.console, hout] at hrel
  cases hrel with
  | some hsame' => exact h.setConsole ht.alone hchar hsame' honscreen' ⟨_, hparse.char hchar⟩

/-- What holds in all states. -/
structure Stands (cells : Int → DispChar) (s : Screens) : Prop where
  sound : AllSound cells s
  first : (s.consoles 0).isSome = true

theorem Stands.handleKbd (h : Stands cells s) (status data : UInt8) :
  Stands cells (s.handleKbd status data)
  := by
  have hcalls (calls : List KbdCall) (t : Screens) (ht : Stands cells t) :
      Stands cells (calls.foldl Screens.call t) := by
    induction calls generalizing t with
    | nil => exact ht
    | cons c calls ih =>
        apply ih
        exact ⟨ht.sound.call ht.first c, isSome_call ht.first c⟩
  rw [handleKbd_eq]
  apply hcalls
  exact ⟨h.sound.congr rfl rfl rfl, h.first⟩

theorem Stands.step (h : Stands cells s) {e : ScreensEvent} (hfits : s.Fits e)
    (hstep : Step s e s') :
  Stands cells s'
  := by
  cases hstep with
  | interrupt status data => apply h.handleKbd
  | @ttyOpen idx hidx =>
      exact ⟨h.sound.consoleInit (by omega), isSome_consoleInit_of h.first idx⟩
  | write hwrite =>
      refine ⟨h.sound.consoleWrite hfits hwrite, ?_⟩
      obtain ⟨-, c, -, rfl⟩ := consoleWrite_eq hwrite
      exact isSome_setConsole h.first _ c _
  | moveCursor pos => exact ⟨h.sound.congr rfl rfl rfl, h.first⟩

theorem Stands.init (h : (screens cells).init s) :
  Stands cells s
  := by
  obtain ⟨crtc, -, hcursor, rfl⟩ := h
  have hzero : AllSound cells (zero cells crtc) :=
    fun idx => ⟨_, ⟨rfl, rfl, fun _ _ => rfl⟩, fun _ => nofun, nofun⟩
  exact ⟨hzero.consoleInit fun _ => hcursor, isSome_consoleInit _ 0⟩

/-- In every run in which the characters that are written fit, the consoles do not disturb one
another: each is what it would be on a memory of its own, and the cells of its screen too. -/
theorem alone_of_reachable
    (h : ((screens cells).restrict Fits).Reachable (fun _ => True) s) (idx : Nat) :
  ∃ t, s.Isolated cells idx t
  := by
  have hinit : ∀ s, ((screens cells).restrict Fits).init s → Stands cells s := fun _ => Stands.init
  have hstep : ∀ s e s', Stands cells s → True → ((screens cells).restrict Fits).step s e s' →
      Stands cells s' := by
    rintro s e s' hs - ⟨hfits, hstep⟩
    exact hs.step hfits hstep
  obtain ⟨t, ht⟩ := (h.invariant hinit hstep).sound idx
  exact ⟨t, ht.toIsolated⟩

/-- A character is written. -/
def wrote (s : Screens) (idx : Nat) (ch : UInt8) : Screens :=
  (s.consoleWrite idx ch).getD s

/-- Letters on the first console, before and after the second terminal is opened and written to. -/
def lettered : Screens :=
  (((booted.wrote 0 65).consoleInit 1).wrote 1 66).wrote 0 67

theorem alone_second :
  lettered.log.calls 0 = [.init 0, .char 65, .char 67] ∧ lettered.log.calls 1 = [.init 0, .char 66]
    ∧ (∃ t, lettered.Isolated (fun _ => ⟨32, 15, 0⟩) 0 t)
    ∧ ∃ t, lettered.Isolated (fun _ => ⟨32, 15, 0⟩) 1 t
  := by
  have hfirst : ((screens fun _ => ⟨32, 15, 0⟩).restrict Fits).Reachable (fun _ => True)
      (booted.wrote 0 65) :=
    .step (a := .write 0 65) (.init booted_init) trivial ⟨nofun, .write rfl⟩
  have hopened : ((screens fun _ => ⟨32, 15, 0⟩).restrict Fits).Reachable (fun _ => True)
      ((booted.wrote 0 65).consoleInit 1) :=
    .step (a := .ttyOpen 1) hfirst trivial ⟨trivial, .ttyOpen _ (by decide)⟩
  have hsecond : ((screens fun _ => ⟨32, 15, 0⟩).restrict Fits).Reachable (fun _ => True)
      (((booted.wrote 0 65).consoleInit 1).wrote 1 66) :=
    .step (a := .write 1 66) hopened trivial ⟨nofun, .write rfl⟩
  have hthird : ((screens fun _ => ⟨32, 15, 0⟩).restrict Fits).Reachable (fun _ => True) lettered :=
    .step (a := .write 0 67) hsecond trivial ⟨nofun, .write rfl⟩
  exact ⟨rfl, rfl, alone_of_reachable hthird 0, alone_of_reachable hthird 1⟩

end Screens

end Dmos
