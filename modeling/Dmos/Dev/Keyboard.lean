import Mathlib.Algebra.Ring.Parity
import Dmos.Library.History

/-!
# The keyboard

`handle_kbd` takes scan codes one at a time and keeps what it needs of the earlier ones in a few
bits.  They say of the history what they should (`Tracks`): whether a prefix comes right before,
which keys are held, and whether caps lock is on.  The letter that a key then gives to the
terminal is the one it should, except where the table of keys has a wrong one
(`letterKey_delivers_iff`).
-/

open History

namespace Dmos

abbrev kbdStatRecvReady : UInt8 := 1

abbrev keyE0 : UInt8 := 0xE0
abbrev keyE1 : UInt8 := 0xE1

abbrev keyRshift : UInt8 := 0x36
abbrev keyLshift : UInt8 := 0x2A
abbrev keyCaps : UInt8 := 0x3A
abbrev keyCtrl : UInt8 := 0x1D
abbrev keyAlt : UInt8 := 0x38
abbrev keyF1 : UInt8 := 0x3B
abbrev keyF8 : UInt8 := 0x42

abbrev asciiDel : Char := Char.ofNat 0x7F

structure KeyMap where
  normal : UInt8
  func : UInt8

def keyMap (normal func : Char) : KeyMap :=
  ⟨normal.toUInt8, func.toUInt8⟩

/-- The initializers of `map_table`; the other entries are zero. -/
def mapTable.entries : List (UInt8 × KeyMap) :=
  [(0x02, keyMap '1' '!'), (0x03, keyMap '2' '@'), (0x04, keyMap '3' '#'),
    (0x05, keyMap '4' '$'), (0x06, keyMap '5' '%'), (0x07, keyMap '6' '^'),
    (0x08, keyMap '7' '&'), (0x09, keyMap '8' '*'), (0x0A, keyMap '9' '('),
    (0x0B, keyMap '0' ')'), (0x0C, keyMap '-' '_'), (0x0D, keyMap '=' '+'),
    (0x0E, keyMap asciiDel asciiDel), (0x0F, keyMap '\t' '\t'),
    (0x10, keyMap 'q' 'Q'), (0x11, keyMap 'w' 'W'), (0x12, keyMap 'e' 'E'),
    (0x13, keyMap 'r' 'R'), (0x14, keyMap 't' 'T'), (0x15, keyMap 'y' 'Y'),
    (0x16, keyMap 'u' 'U'), (0x17, keyMap 'i' 'I'), (0x18, keyMap 'o' 'O'),
    (0x19, keyMap 'p' 'P'),
    -- square brackets, curly brackets
    (0x1A, keyMap '[' (Char.ofNat 0x7B)), (0x1B, keyMap ']' (Char.ofNat 0x7D)),
    (0x1C, keyMap '\n' '\n'),
    (0x1E, keyMap 'a' 'A'), (0x1F, keyMap 's' 'B'), (0x20, keyMap 'd' 'D'),
    (0x21, keyMap 'f' 'F'), (0x22, keyMap 'g' 'G'), (0x23, keyMap 'h' 'H'),
    (0x24, keyMap 'j' 'J'), (0x25, keyMap 'k' 'K'), (0x26, keyMap 'l' 'L'),
    (0x27, keyMap ';' ':'),
    -- quotes, the backtick and the tilde
    (0x28, keyMap (Char.ofNat 0x27) (Char.ofNat 0x22)), (0x29, keyMap (Char.ofNat 0x60) '~'),
    -- the backslash
    (0x2B, keyMap (Char.ofNat 0x5C) '|'),
    (0x2C, keyMap 'z' 'Z'), (0x2D, keyMap 'x' 'X'), (0x2E, keyMap 'c' 'C'),
    (0x2F, keyMap 'v' 'V'), (0x30, keyMap 'b' 'B'), (0x31, keyMap 'n' 'N'),
    (0x32, keyMap 'm' 'M'), (0x33, keyMap ',' '<'), (0x34, keyMap '.' '>'),
    (0x35, keyMap '/' '?'), (0x39, keyMap ' ' ' ')]

def mapTable (key : UInt8) : KeyMap :=
  (mapTable.entries.lookup key).getD ⟨0, 0⟩

/-- `recv_state`. -/
inductive RecvState where
  | normal
  | beginE0
  | beginE1
deriving DecidableEq

/-- `kbd_state`, whose fields have one bit, with `recv_state`. -/
structure Kbd where
  capsLock : Bool
  lshiftPress : Bool
  rshiftPress : Bool
  raltPress : Bool
  laltPress : Bool
  lctrlPress : Bool
  rctrlPress : Bool
  recvState : RecvState
deriving DecidableEq

/-- The calls that are made of the terminal. -/
inductive KbdCall where
  | ttyIn (ch : UInt8)
  | ttySelect (tty : Nat)
deriving DecidableEq

namespace Kbd

def init : Kbd :=
  ⟨false, false, false, false, false, false, false, .normal⟩

def isMakeCode (keyCode : UInt8) : Bool :=
  keyCode &&& 0x80 = 0

def getKey (keyCode : UInt8) : UInt8 :=
  keyCode &&& 0x7F

def doFxKey (s : Kbd) (key : UInt8) : List KbdCall :=
  if s.lctrlPress ∨ s.rctrlPress then [.ttySelect (key.toNat - keyF1.toNat)] else []

/-- The character of a key in the last branch of `do_normal_key`. -/
def doNormalKey.char (shift capsLock : Bool) (key : UInt8) : UInt8 :=
  let key := if shift then (mapTable key).func else (mapTable key).normal
  if capsLock then
    -- 'A' to 'Z', 'a' to 'z'
    if 65 ≤ key ∧ key ≤ 90 then key - 65 + 97
    else if 97 ≤ key ∧ key ≤ 122 then key - 97 + 65
    else key
  else key

def doNormalKey (s : Kbd) (rawCode : UInt8) : Kbd × List KbdCall :=
  let key := getKey rawCode
  let isMake := isMakeCode rawCode
  if key = keyRshift then ({ s with rshiftPress := isMake }, [])
  else if key = keyLshift then ({ s with lshiftPress := isMake }, [])
  else if key = keyCaps then ({ s with capsLock := if isMake then !s.capsLock else s.capsLock }, [])
  else if key = keyAlt then ({ s with laltPress := isMake }, [])
  else if key = keyCtrl then ({ s with lctrlPress := isMake }, [])
  -- the keys between them too
  else if keyF1 ≤ key ∧ key ≤ keyF8 then (s, s.doFxKey key)
  else if isMake then
    (s, [.ttyIn (doNormalKey.char (s.rshiftPress || s.lshiftPress) s.capsLock key)])
  else (s, [])

def doE0Key (s : Kbd) (rawCode : UInt8) : Kbd :=
  let key := getKey rawCode
  let isMake := isMakeCode rawCode
  if key = keyCtrl then { s with rctrlPress := isMake }
  else if key = keyAlt then { s with raltPress := isMake }
  else s

/-- The part of `handle_kbd` after the scan code has been read. -/
def handleCode (s : Kbd) (rawCode : UInt8) : Kbd × List KbdCall :=
  if rawCode = keyE0 then ({ s with recvState := .beginE0 }, [])
  else if rawCode = keyE1 then ({ s with recvState := .beginE1 }, [])
  else
    match s.recvState with
    | .normal => s.doNormalKey rawCode
    | .beginE0 => ({ s.doE0Key rawCode with recvState := .normal }, [])
    | .beginE1 => ({ s with recvState := .normal }, [])

/-- `status` and `data` are what the two ports give. -/
def handleKbd (s : Kbd) (status data : UInt8) : Kbd × List KbdCall :=
  if status &&& kbdStatRecvReady = 0 then (s, []) else s.handleCode data

/-- The state after the interrupts `xs`. -/
def run (xs : List (UInt8 × UInt8)) : Kbd :=
  xs.foldl (fun s x => (s.handleKbd x.1 x.2).1) init

end Kbd

/-! ### What the keys mean -/

/-- The scan codes that were there to be read at the interrupts. -/
def scanCodes (xs : List (UInt8 × UInt8)) : List UInt8 :=
  (xs.filter fun x => x.1 &&& kbdStatRecvReady ≠ 0).map Prod.snd

/-- The next scan code belongs to a prefix. -/
def Prefixed (codes : List UInt8) : Prop :=
  codes.getLast? = some keyE0 ∨ codes.getLast? = some keyE1

instance (codes : List UInt8) : Decidable (Prefixed codes) :=
  inferInstanceAs (Decidable (_ ∨ _))

/-- The code `c` comes outside a prefix. -/
abbrev Plain (c : UInt8) (codes : List UInt8) (code : UInt8) : Prop :=
  code = c ∧ ¬ Prefixed codes

/-- The key has been pressed and not been released: a break code has the highest bit too. -/
def Held (key : UInt8) (codes : List UInt8) : Prop :=
  Since (Plain key) (Plain (key ||| 0x80)) codes

instance (key : UInt8) (codes : List UInt8) : Decidable (Held key codes) :=
  inferInstanceAs (Decidable (Since _ _ _))

def ShiftHeld (codes : List UInt8) : Prop :=
  Held keyLshift codes ∨ Held keyRshift codes

instance (codes : List UInt8) : Decidable (ShiftHeld codes) :=
  inferInstanceAs (Decidable (_ ∨ _))

/-- Caps lock has been pressed an odd number of times. -/
def CapsOn (codes : List UInt8) : Prop :=
  Odd (times (Plain keyCaps) codes)

instance (codes : List UInt8) : Decidable (CapsOn codes) :=
  inferInstanceAs (Decidable (Odd _))

/-- The letter keys, with their letters. -/
def letterKeys : List (UInt8 × Char) :=
  [(0x10, 'q'), (0x11, 'w'), (0x12, 'e'), (0x13, 'r'), (0x14, 't'), (0x15, 'y'), (0x16, 'u'),
    (0x17, 'i'), (0x18, 'o'), (0x19, 'p'), (0x1E, 'a'), (0x1F, 's'), (0x20, 'd'), (0x21, 'f'),
    (0x22, 'g'), (0x23, 'h'), (0x24, 'j'), (0x25, 'k'), (0x26, 'l'), (0x2C, 'z'), (0x2D, 'x'),
    (0x2E, 'c'), (0x2F, 'v'), (0x30, 'b'), (0x31, 'n'), (0x32, 'm')]

/-- The letter in upper or lower case. -/
def letterCase (upper : Bool) (c : Char) : UInt8 :=
  if upper then c.toUpper.toUInt8 else c.toUInt8

/-- After the interrupts `xs`, the press of the key of the letter `c` gives the terminal one
character, the letter, in upper case when either shift is held or caps lock is on. -/
def DeliversLetter (xs : List (UInt8 × UInt8)) (status key : UInt8) (c : Char) : Prop :=
  ((Kbd.run xs).handleKbd status key).2
    = [.ttyIn (letterCase (decide (ShiftHeld (scanCodes xs)) ^^ decide (CapsOn (scanCodes xs))) c)]

namespace Kbd

theorem eq_getKey_of_make {c : UInt8} (h : isMakeCode c = true) :
  c = getKey c
  := by
  have hall : ∀ i : Fin 256, isMakeCode (UInt8.ofFin i) = true →
      UInt8.ofFin i = getKey (UInt8.ofFin i) := by decide +kernel
  apply hall c.toFin h

theorem eq_getKey_of_break {c : UInt8} (h : isMakeCode c = false) :
  c = getKey c ||| 0x80
  := by
  have hall : ∀ i : Fin 256, isMakeCode (UInt8.ofFin i) = false →
      UInt8.ofFin i = getKey (UInt8.ofFin i) ||| 0x80 := by decide +kernel
  apply hall c.toFin h

theorem getKey_break {key : UInt8} (h : isMakeCode key = true) :
  getKey (key ||| 0x80) = key ∧ isMakeCode (key ||| 0x80) = false
  := by
  have hall : ∀ i : Fin 256, isMakeCode (UInt8.ofFin i) = true →
      getKey (UInt8.ofFin i ||| 0x80) = UInt8.ofFin i
        ∧ isMakeCode (UInt8.ofFin i ||| 0x80) = false := by decide +kernel
  apply hall key.toFin h

/-! ### One scan code -/

variable {s : Kbd} {codes : List UInt8} {code : UInt8}

theorem prefixed_concat :
  Prefixed (codes ++ [code]) ↔ code = keyE0 ∨ code = keyE1
  := by rw [Prefixed, List.getLast?_concat, Option.some_inj, Option.some_inj]

/-- A code that is no press of a key outside a prefix, and no release, does not change whether it
is held. -/
theorem held_concat_of_not {key : UInt8} (hpress : ¬ Plain key codes code)
    (hrelease : ¬ Plain (key ||| 0x80) codes code) :
  Held key (codes ++ [code]) ↔ Held key codes
  := by
  rw [Held, since_concat, or_iff_right hpress]
  exact and_iff_left hrelease

/-- Where codes count, the last code of a key says whether it is held. -/
theorem since_concat_key {P : List UInt8 → Prop} {key : UInt8} (hkey : isMakeCode key = true)
    (hcounts : P codes) :
  Since (fun codes c => c = key ∧ P codes) (fun codes c => c = key ||| 0x80 ∧ P codes)
      (codes ++ [code])
    ↔ if getKey code = key then isMakeCode code = true
      else Since (fun codes c => c = key ∧ P codes) (fun codes c => c = key ||| 0x80 ∧ P codes) codes
  := by
  rw [since_concat]
  split_ifs with hcode
  · cases hmake : isMakeCode code with
    | true =>
        have heq := eq_getKey_of_make hmake
        rw [hcode] at heq
        exact iff_of_true (.inl ⟨heq, hcounts⟩) rfl
    | false =>
        have heq := eq_getKey_of_break hmake
        rw [hcode] at heq
        apply iff_of_false _ nofun
        rintro (⟨hpress, -⟩ | ⟨-, hrelease⟩)
        · rw [hpress, hkey] at hmake
          cases hmake
        · exact hrelease ⟨heq, hcounts⟩
  · have hpress : ¬ (code = key ∧ P codes) := by
      rintro ⟨rfl, -⟩
      exact hcode (eq_getKey_of_make hkey).symm
    have hrelease : ¬ (code = key ||| 0x80 ∧ P codes) := by
      rintro ⟨rfl, -⟩
      exact hcode (getKey_break hkey).1
    rw [or_iff_right hpress]
    exact and_iff_left hrelease

/-- Outside a prefix, the last code of a key says whether it is held. -/
theorem held_concat {key : UInt8} (hkey : isMakeCode key = true) (hplain : ¬ Prefixed codes) :
  Held key (codes ++ [code])
    ↔ if getKey code = key then isMakeCode code = true else Held key codes
  := since_concat_key (P := fun codes => ¬ Prefixed codes) hkey hplain

theorem capsOn_concat :
  CapsOn (codes ++ [code])
    ↔ if code = keyCaps ∧ ¬ Prefixed codes then ¬ CapsOn codes else CapsOn codes
  := by
  rw [CapsOn, CapsOn, times_concat]
  split_ifs
  · rw [Nat.odd_add_one]
  · rw [Nat.add_zero]

/-- The state says of the scan codes before it what matters of them. -/
structure Tracks (s : Kbd) (codes : List UInt8) : Prop where
  recvState : s.recvState = .normal ↔ ¬ Prefixed codes
  lshiftPress : s.lshiftPress = true ↔ Held keyLshift codes
  rshiftPress : s.rshiftPress = true ↔ Held keyRshift codes
  capsLock : s.capsLock = true ↔ CapsOn codes

theorem tracks_init :
  init.Tracks []
  := by constructor <;> decide

/-- What `do_normal_key` does to the state. -/
theorem doNormalKey_state (s : Kbd) (code : UInt8) :
  (s.doNormalKey code).1.recvState = s.recvState
    ∧ (s.doNormalKey code).1.lshiftPress
      = (if getKey code = keyLshift then isMakeCode code else s.lshiftPress)
    ∧ (s.doNormalKey code).1.rshiftPress
      = (if getKey code = keyRshift then isMakeCode code else s.rshiftPress)
    ∧ (s.doNormalKey code).1.capsLock
      = (if getKey code = keyCaps ∧ isMakeCode code = true then !s.capsLock else s.capsLock)
  := by
  rw [doNormalKey]
  generalize getKey code = key
  generalize isMakeCode code = isMake
  by_cases hr : key = keyRshift
  · subst hr
    cases isMake <;> exact ⟨rfl, rfl, rfl, rfl⟩
  by_cases hl : key = keyLshift
  · subst hl
    cases isMake <;> exact ⟨rfl, rfl, rfl, rfl⟩
  by_cases hc : key = keyCaps
  · subst hc
    cases isMake <;> exact ⟨rfl, rfl, rfl, rfl⟩
  rw [if_neg hr, if_neg hl, if_neg hc, if_neg hl, if_neg hr,
    if_neg (show ¬ (key = keyCaps ∧ isMake = true) from fun h => hc h.1)]
  split_ifs <;> exact ⟨rfl, rfl, rfl, rfl⟩

/-- What `do_e0_key` leaves alone. -/
theorem doE0Key_state (s : Kbd) (code : UInt8) :
  (s.doE0Key code).lshiftPress = s.lshiftPress ∧ (s.doE0Key code).rshiftPress = s.rshiftPress
    ∧ (s.doE0Key code).capsLock = s.capsLock
  := by
  rw [doE0Key]
  split_ifs <;> exact ⟨rfl, rfl, rfl⟩

/-- A code that changes no key and leaves the bits alone. -/
theorem Tracks.setRecvState {t : Kbd} (h : s.Tracks codes)
    (hrecv : t.recvState = .normal ↔ ¬ (code = keyE0 ∨ code = keyE1))
    (hbits : t.lshiftPress = s.lshiftPress ∧ t.rshiftPress = s.rshiftPress
      ∧ t.capsLock = s.capsLock)
    (hquiet : ∀ key, key ≠ keyE0 → key ≠ keyE1 → ¬ Plain key codes code) :
  t.Tracks (codes ++ [code])
  := by
  obtain ⟨hl, hr, hc⟩ := hbits
  constructor
  · rw [prefixed_concat]
    exact hrecv
  · rw [hl, h.lshiftPress]
    exact (held_concat_of_not (hquiet _ (by decide) (by decide))
      (hquiet _ (by decide) (by decide))).symm
  · rw [hr, h.rshiftPress]
    exact (held_concat_of_not (hquiet _ (by decide) (by decide))
      (hquiet _ (by decide) (by decide))).symm
  · rw [hc, h.capsLock, capsOn_concat, if_neg (hquiet _ (by decide) (by decide))]

theorem Tracks.handleCode (h : s.Tracks codes) (code : UInt8) :
  (s.handleCode code).1.Tracks (codes ++ [code])
  := by
  rw [Kbd.handleCode]
  split_ifs with hE0 hE1
  · apply h.setRecvState
    · exact iff_of_false nofun (not_not_intro (.inl hE0))
    · exact ⟨rfl, rfl, rfl⟩
    · rintro key hne - ⟨rfl, -⟩
      exact hne hE0
  · apply h.setRecvState
    · exact iff_of_false nofun (not_not_intro (.inr hE1))
    · exact ⟨rfl, rfl, rfl⟩
    · rintro key - hne ⟨rfl, -⟩
      exact hne hE1
  · have hend : ¬ (code = keyE0 ∨ code = keyE1) := not_or_intro hE0 hE1
    -- the code after a prefix
    have hprefixed (hne : s.recvState ≠ .normal) (key : UInt8) : ¬ Plain key codes code := by
      rintro ⟨-, hplain⟩
      exact hne (h.recvState.mpr hplain)
    cases hrecv : s.recvState with
    | beginE0 =>
        apply h.setRecvState
        · exact iff_of_true rfl hend
        · exact doE0Key_state s code
        · intro key _ _
          apply hprefixed (by rw [hrecv]; nofun)
    | beginE1 =>
        apply h.setRecvState
        · exact iff_of_true rfl hend
        · exact ⟨rfl, rfl, rfl⟩
        · intro key _ _
          apply hprefixed (by rw [hrecv]; nofun)
    | normal =>
        have hplain := h.recvState.mp hrecv
        obtain ⟨hrecv', hl, hr, hc⟩ := doNormalKey_state s code
        dsimp only
        constructor
        · rw [hrecv', prefixed_concat]
          exact iff_of_true hrecv hend
        · rw [hl, held_concat (by decide) hplain, ← h.lshiftPress]
          split_ifs <;> exact Iff.rfl
        · rw [hr, held_concat (by decide) hplain, ← h.rshiftPress]
          split_ifs <;> exact Iff.rfl
        · have hmake : getKey code = keyCaps ∧ isMakeCode code = true
              ↔ code = keyCaps ∧ ¬ Prefixed codes := by
            constructor
            · rintro ⟨hkey, hmake⟩
              exact ⟨(eq_getKey_of_make hmake).trans hkey, hplain⟩
            · rintro ⟨rfl, -⟩
              decide
          rw [hc, capsOn_concat, ← h.capsLock]
          simp only [hmake]
          split_ifs
          · rw [Bool.not_eq_true', Bool.not_eq_true]
          · exact Iff.rfl

/-- One more interrupt. -/
theorem scanCodes_concat (xs : List (UInt8 × UInt8)) (status data : UInt8) :
  scanCodes (xs ++ [(status, data)])
    = if status &&& kbdStatRecvReady = 0 then scanCodes xs else scanCodes xs ++ [data]
  := by
  rw [scanCodes, List.filter_append, List.map_append, ← scanCodes]
  split_ifs with hready
  · rw [List.filter_cons_of_neg (by simpa using hready), List.filter_nil, List.map_nil,
      List.append_nil]
  · rw [List.filter_cons_of_pos (by simpa using hready), List.filter_nil, List.map_cons,
      List.map_nil]

/-- What every scan code preserves, of the state and the codes before it, holds after any
interrupts. -/
theorem run_keeps {I : Kbd → List UInt8 → Prop} (hinit : I init [])
    (hstep : ∀ s codes code, I s codes → I (s.handleCode code).1 (codes ++ [code]))
    (xs : List (UInt8 × UInt8)) :
  I (run xs) (scanCodes xs)
  := by
  induction xs using List.reverseRecOn with
  | nil => exact hinit
  | append_singleton xs x ih =>
      obtain ⟨status, data⟩ := x
      rw [run, List.foldl_append, List.foldl_cons, List.foldl_nil, ← run, scanCodes_concat,
        handleKbd]
      split_ifs
      · exact ih
      · apply hstep _ _ _ ih

/-- The state after any interrupts. -/
theorem tracks_run (xs : List (UInt8 × UInt8)) :
  (run xs).Tracks (scanCodes xs)
  := run_keeps tracks_init (fun _ _ code h => h.handleCode code) xs

end Kbd

/-! ### Letters -/

open Kbd

theorem letterKey_normal {key : UInt8} {c : Char} (h : (key, c) ∈ letterKeys) :
  key ≠ keyE0 ∧ key ≠ keyE1 ∧ ∀ s : Kbd, s.doNormalKey key
    = (s, [.ttyIn (doNormalKey.char (s.rshiftPress || s.lshiftPress) s.capsLock key)])
  := by
  have hall : ∀ p ∈ letterKeys, getKey p.1 = p.1 ∧ isMakeCode p.1 = true ∧ p.1 ≠ keyE0
      ∧ p.1 ≠ keyE1 ∧ p.1 ≠ keyRshift ∧ p.1 ≠ keyLshift ∧ p.1 ≠ keyCaps ∧ p.1 ≠ keyAlt
      ∧ p.1 ≠ keyCtrl ∧ ¬ (keyF1 ≤ p.1 ∧ p.1 ≤ keyF8) := by decide
  obtain ⟨hkey, hmake, hE0, hE1, hr, hl, hcaps, halt, hctrl, hfx⟩ := hall _ h
  dsimp only at hkey hmake hE0 hE1 hr hl hcaps halt hctrl hfx
  use hE0, hE1
  intro s
  rw [doNormalKey, hkey, if_neg hr, if_neg hl, if_neg hcaps, if_neg halt, if_neg hctrl,
    if_neg hfx, if_pos hmake]

theorem char_letterKey_iff {key : UInt8} {c : Char} (h : (key, c) ∈ letterKeys)
    (shift capsLock : Bool) :
  doNormalKey.char shift capsLock key = letterCase (shift ^^ capsLock) c
    ↔ ¬ (key = 0x1F ∧ shift = true)
  := by
  have hall : ∀ p ∈ letterKeys, ∀ shift capsLock : Bool,
      doNormalKey.char shift capsLock p.1 = letterCase (shift ^^ capsLock) p.2
        ↔ ¬ (p.1 = 0x1F ∧ shift = true) := by decide +kernel
  exact hall _ h shift capsLock

/-- A letter key pressed outside a prefix gives the terminal its letter, in the case that shift
and caps lock ask for, exactly when it is not the key of the letter s together with shift. -/
theorem letterKey_delivers_iff {xs : List (UInt8 × UInt8)} {status key : UInt8} {c : Char}
    (hready : status &&& kbdStatRecvReady ≠ 0) (hplain : ¬ Prefixed (scanCodes xs))
    (hkey : (key, c) ∈ letterKeys) :
  DeliversLetter xs status key c ↔ ¬ (key = 0x1F ∧ ShiftHeld (scanCodes xs))
  := by
  have h := tracks_run xs
  obtain ⟨hE0, hE1, hnormal⟩ := letterKey_normal hkey
  have hshift : ((run xs).rshiftPress || (run xs).lshiftPress) = decide (ShiftHeld (scanCodes xs)) := by
    rw [Bool.eq_iff_iff, Bool.or_eq_true, h.rshiftPress, h.lshiftPress, decide_eq_true_iff,
      ShiftHeld, or_comm]
  have hcaps : (run xs).capsLock = decide (CapsOn (scanCodes xs)) := by
    rw [Bool.eq_iff_iff, h.capsLock, decide_eq_true_iff]
  rw [DeliversLetter, handleKbd, if_neg hready, handleCode, if_neg hE0, if_neg hE1, h.recvState.mpr hplain]
  dsimp only
  rw [hnormal, hshift, hcaps, List.singleton_inj, KbdCall.ttyIn.injEq, char_letterKey_iff hkey,
    decide_eq_true_iff]

/-- The letter a with shift, after caps lock. -/
theorem letterKey_delivers_capsShift :
  DeliversLetter [(1, 0x3A), (1, 0xBA), (1, 0x2A)] 1 0x1E 'a'
    ↔ ¬ ((0x1E : UInt8) = 0x1F ∧ ShiftHeld (scanCodes [(1, 0x3A), (1, 0xBA), (1, 0x2A)]))
  := letterKey_delivers_iff (by decide) (by decide) (by decide)

/-- The letter s with shift: the terminal gets the letter B. -/
theorem not_deliversLetter_s :
  ¬ DeliversLetter [(1, 0x2A)] 1 0x1F 's'
    ∧ ((run [(1, 0x2A)]).handleKbd 1 0x1F).2 = [.ttyIn 'B'.toUInt8]
    ∧ ¬ Prefixed (scanCodes [(1, 0x2A)]) ∧ (0x1F, 's') ∈ letterKeys
  := by
  unfold DeliversLetter
  decide

end Dmos
