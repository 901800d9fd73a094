import Dmos.Klib.Itoa

/-!
# Formatted text

`k_vsprint` of `lib/klib.c`, and the buffer of `klog` that it writes to.  A format with its
arguments stands for a sequence of pieces (`pieces`): characters, and numerals, behind each of
which `k_itoa` stores a null byte.  Nothing bounds their length: the text stays in the buffer and
ends in it exactly when the pieces are short enough (`klog_fits_iff`).
-/

open ByteMemory StoreLog

namespace Dmos.Klib

/-- An argument: an integer, or a pointer to a string; `none` is the null pointer. -/
inductive Arg where
  | int (num : BitVec 32)
  | str (str : Option (List UInt8))

/-- `k_strlen` of a string in memory, which is read up to `fuel` bytes. -/
def kStrlen (m : Memory) : Nat → Nat → Nat
  | 0, _ => 0
  | fuel + 1, str => if m str = 0 then 0 else kStrlen m fuel (str + 1) + 1

def kMemset.loop (r : Log) (d : Nat) (v : UInt8) : Nat → Log
  | 0 => r
  | size + 1 => loop (r.store d v) (d + 1) v size

def kMemset (r : Log) (dest : Nat) (v : UInt8) (size : Nat) : Log :=
  if dest = 0 ∨ size = 0 then r else kMemset.loop r dest v size

/-- The loop for `%s`, and for the characters of the format. -/
def storeChars (r : Log) (curr : Nat) : List UInt8 → Log
  | [] => r
  | c :: cs => storeChars (r.store curr c) (curr + 1) cs

inductive FmtState where
  | normal
  | readFmt

/-- The loop of `k_vsprint`; `none` if an argument is missing or of another type. -/
def kVsprint.loop (r : Log) (curr : Nat) : List UInt8 → FmtState → List Arg → Option Log
  | [], _, _ => some r
  | ch :: fmt, .normal, args =>
      -- "%"
      if ch = 37 then loop r curr fmt .readFmt args
      else loop (r.store curr ch) (curr + 1) fmt .normal args
  | ch :: fmt, .readFmt, args =>
      -- "d"
      if ch = 100 then
        match args with
        | .int num :: args =>
            let r := kItoa r curr num.toInt 10
            loop r (curr + kStrlen r.byte (2 ^ 32) curr) fmt .normal args
        | _ => none
      -- "x"
      else if ch = 120 then
        match args with
        | .int num :: args =>
            let r := kItoa r curr num.toInt 16
            loop r (curr + kStrlen r.byte (2 ^ 32) curr) fmt .normal args
        | _ => none
      -- "c"
      else if ch = 99 then
        match args with
        | .int num :: args => loop (r.store curr (.ofNat num.toNat)) (curr + 1) fmt .normal args
        | _ => none
      -- "s"
      else if ch = 115 then
        match args with
        | .str str :: args =>
            loop (storeChars r curr (str.getD [])) (curr + (str.getD []).length) fmt .normal args
        | _ => none
      else loop r curr fmt .normal args

def kVsprint (r : Log) (buf : Nat) (fmt : List UInt8) (args : List Arg) : Option Log :=
  kVsprint.loop r buf fmt .normal args

/-- `klog` up to where it locks its mutex, with `buf` on the stack. -/
def klog (m : Memory) (buf : Nat) (fmt : List UInt8) (args : List Arg) : Option Log :=
  kVsprint (kMemset ⟨m, []⟩ buf 0 128) buf fmt args

/-! ### Pieces of a text -/

/-- A piece of the text: characters, or a numeral. -/
inductive Piece where
  | chars (cs : List UInt8)
  | numeral (cs : List UInt8)

def Piece.text : Piece → List UInt8
  | chars cs => cs
  | numeral cs => cs

/-- The pieces that a directive stands for, and the arguments behind it. -/
def directive (ch : UInt8) (args : List Arg) : Option (List Piece × List Arg) :=
  if ch = 100 then
    match args with
    | .int num :: args => some ([.numeral (itoaText num.toInt 10)], args)
    | _ => none
  else if ch = 120 then
    match args with
    | .int num :: args => some ([.numeral (itoaText num.toInt 16)], args)
    | _ => none
  else if ch = 99 then
    match args with
    | .int num :: args => some ([.chars [.ofNat num.toNat]], args)
    | _ => none
  else if ch = 115 then
    match args with
    | .str str :: args => some ([.chars (str.getD [])], args)
    | _ => none
  else some ([], args)

/-- The pieces of a format with its arguments, if they match it. -/
def pieces : List UInt8 → List Arg → Option (List Piece)
  | [], _ => some []
  | [ch], _ => if ch = 37 then some [] else some [.chars [ch]]
  | ch :: ch' :: fmt, args =>
      if ch = 37 then
        match directive ch' args with
        | some (ps, args) => (pieces fmt args).map (ps ++ ·)
        | none => none
      else (pieces (ch' :: fmt) args).map (.chars [ch] :: ·)

/-- The text of some pieces. -/
def textOf (ps : List Piece) : List UInt8 :=
  ps.flatMap Piece.text

/-- The last of the pieces that are not empty is a numeral: a null byte is behind it. -/
def endsInNumeral (ps : List Piece) : Bool :=
  ps.foldl (fun b p => match p with
    | .chars [] => b
    | .chars (_ :: _) => false
    | .numeral _ => true) false

/-- The text is shorter than the buffer.  It may be as long as it when there is a null byte in it
and none is stored behind it. -/
def Fits (ps : List Piece) : Prop :=
  (textOf ps).length ≤ 127
    ∨ (textOf ps).length = 128 ∧ 0 ∈ textOf ps ∧ endsInNumeral ps = false

/-- All stores are to the 128 bytes of the buffer, and there is a null byte among these. -/
structure InBuffer (r : Log) (buf : Nat) : Prop where
  stores : ∀ p ∈ r.stores, buf ≤ p.1 ∧ p.1 < buf + 128
  terminated : ∃ i < 128, r.byte (buf + i) = 0

/-! ### Loops -/

variable {r : Log} {m : Memory} {a buf curr fuel : Nat} {cs : List UInt8} {ps : List Piece}

theorem kStrlen_of_cString (h : CString m a cs) (hfuel : cs.length < fuel) :
  kStrlen m fuel a = cs.length
  := by
  induction cs generalizing a fuel with
  | nil =>
      cases fuel with
      | zero => cases hfuel
      | succ fuel => rw [kStrlen, if_pos (cString_nil_iff.mp h), List.length_nil]
  | cons c cs ih =>
      obtain ⟨hfirst, hc, hrest⟩ := cString_cons_iff.mp h
      cases fuel with
      | zero => cases hfuel
      | succ fuel =>
          rw [List.length_cons] at hfuel ⊢
          rw [kStrlen, hfirst, if_neg hc, ih hrest (by omega)]

theorem kMemset_loop (r : Log) (d : Nat) (v : UInt8) (size : Nat) :
  r.Within (kMemset.loop r d v size) d (d + size)
    ∧ ∀ x, d ≤ x → x < d + size → (kMemset.loop r d v size).byte x = v
  := by
  induction size generalizing r d with
  | zero =>
      use Log.Within.refl _ _ _
      intro x hx hx'
      omega
  | succ size ih =>
      obtain ⟨hwithin, hbytes⟩ := ih (r.store d v) (d + 1)
      rw [kMemset.loop]
      constructor
      · apply ((Log.within_store r d v).mono (le_refl _) (by omega)).trans
        apply hwithin.mono (by omega)
        omega
      · intro x hx hx'
        by_cases hfirst : x = d
        · rw [hwithin.byte (by omega), hfirst, Log.byte_store_self]
        · apply hbytes x (by omega)
          omega

theorem storeChars_text (r : Log) (curr : Nat) (cs : List UInt8) :
  r.Within (storeChars r curr cs) curr (curr + cs.length)
    ∧ Text (storeChars r curr cs).byte curr cs
    ∧ (cs ≠ [] → ∃ p ∈ (storeChars r curr cs).stores, p.1 + 1 = curr + cs.length)
  := by
  induction cs generalizing r curr with
  | nil => exact ⟨Log.Within.refl _ _ _, trivial, fun h => absurd rfl h⟩
  | cons c cs ih =>
      obtain ⟨hwithin, htext, hlast⟩ := ih (r.store curr c) (curr + 1)
      rw [storeChars, List.length_cons]
      refine ⟨?_, ⟨?_, htext⟩, ?_⟩
      · apply ((Log.within_store r curr c).mono (le_refl _) (by omega)).trans
        apply hwithin.mono (by omega)
        omega
      · rw [hwithin.byte (by omega), Log.byte_store_self]
      · intro _
        by_cases hcs : cs = []
        · rw [hcs]
          exact ⟨(curr, c), List.mem_cons_self, rfl⟩
        · obtain ⟨p, hp, heq⟩ := hlast hcs
          use p, hp
          omega

/-! ### What has been written -/

/-- How far the text of the pieces reaches, with the null byte behind a numeral. -/
def textEnd (ps : List Piece) : Nat :=
  (textOf ps).length + if endsInNumeral ps then 1 else 0

/-- The pieces have been written to the buffer: their text is there and zeros behind it, and the
last store is where they reach. -/
structure Wrote (buf : Nat) (ps : List Piece) (r : Log) : Prop where
  text : Text r.byte buf (textOf ps)
  zeros : ∀ x, buf + (textOf ps).length ≤ x → x < buf + 128 → r.byte x = 0
  range : ∀ p ∈ r.stores, buf ≤ p.1 ∧ p.1 < buf + max 128 (textEnd ps)
  last : textEnd ps ≠ 0 → ∃ p ∈ r.stores, p.1 + 1 = buf + textEnd ps

theorem textOf_snoc (ps : List Piece) (p : Piece) :
  textOf (ps ++ [p]) = textOf ps ++ p.text
  := by rw [textOf, List.flatMap_append, List.flatMap_singleton]; rfl

theorem textEnd_chars_nil (ps : List Piece) :
  textEnd (ps ++ [.chars []]) = textEnd ps
  := by
  rw [textEnd, textOf_snoc, Piece.text, List.append_nil, endsInNumeral, List.foldl_append]
  rfl

theorem textEnd_chars (ps : List Piece) (h : cs ≠ []) :
  textEnd (ps ++ [.chars cs]) = (textOf ps).length + cs.length
  := by
  cases cs with
  | nil => cases h rfl
  | cons c cs =>
      rw [textEnd, textOf_snoc, Piece.text, List.length_append, endsInNumeral, List.foldl_append]
      rfl

theorem textEnd_numeral (ps : List Piece) (cs : List UInt8) :
  textEnd (ps ++ [.numeral cs]) = (textOf ps).length + cs.length + 1
  := by
  rw [textEnd, textOf_snoc, Piece.text, List.length_append, endsInNumeral, List.foldl_append]
  rfl

theorem textEnd_le (ps : List Piece) :
  textEnd ps ≤ (textOf ps).length + 1
  := by
  rw [textEnd]
  split_ifs <;> omega

/-- Stores from the end of the text on leave it. -/
theorem Wrote.text_within {r' : Log} {hi : Nat} (h : Wrote buf ps r)
    (hwithin : r.Within r' (buf + (textOf ps).length) hi) :
  Text r'.byte buf (textOf ps)
  := h.text.congr (fun _ _ hx => hwithin.byte (.inl hx))

/-- Stores from the end of the text on are in a range, if they and what was written are. -/
theorem Wrote.range_within {r' : Log} {hi lim : Nat} (h : Wrote buf ps r)
    (hwithin : r.Within r' (buf + (textOf ps).length) hi) (hhi : hi ≤ buf + max 128 lim)
    (hend : textEnd ps ≤ lim) :
  ∀ p ∈ r'.stores, buf ≤ p.1 ∧ p.1 < buf + max 128 lim
  := by
  obtain ⟨-, new, hnew, hall⟩ := hwithin
  rw [hnew]
  intro p hp
  rcases List.mem_append.mp hp with hp | hp
  · have hrange := hall p hp
    omega
  · have hrange := h.range p hp
    omega

theorem Wrote.chars (h : Wrote buf ps r) (cs : List UInt8) :
  Wrote buf (ps ++ [.chars cs]) (storeChars r (buf + (textOf ps).length) cs)
  := by
  obtain ⟨hwithin, htext, hlast⟩ := storeChars_text r (buf + (textOf ps).length) cs
  by_cases hcs : cs = []
  · subst hcs
    have hsame : textOf (ps ++ [.chars []]) = textOf ps := by
      rw [textOf_snoc, Piece.text, List.append_nil]
    constructor
    · rw [hsame]
      exact h.text
    · rw [hsame]
      exact h.zeros
    · rw [textEnd_chars_nil]
      exact h.range
    · rw [textEnd_chars_nil]
      exact h.last
  · have hpos := List.length_pos_iff.mpr hcs
    have hend := textEnd_le ps
    constructor
    · rw [textOf_snoc, text_append]
      exact ⟨h.text_within hwithin, htext⟩
    · rw [textOf_snoc, List.length_append]
      intro x hx hx'
      change _ + (_ + cs.length) ≤ x at hx
      rw [hwithin.byte (by omega)]
      apply h.zeros x (by omega) hx'
    · rw [textEnd_chars ps hcs]
      apply h.range_within hwithin
      · omega
      · omega
    · rw [textEnd_chars ps hcs, ← Nat.add_assoc]
      intro _
      exact hlast hcs

theorem Wrote.numeral {b : Nat} (h : Wrote buf ps r) (hb : b = 2 ∨ b = 8 ∨ b = 10 ∨ b = 16)
    (num : Int) :
  Wrote buf (ps ++ [.numeral (itoaText num b)]) (kItoa r (buf + (textOf ps).length) num b)
  := by
  obtain ⟨hstring, hwithin, hmem⟩ := kItoa_string hb r (buf + (textOf ps).length) num
  have hend := textEnd_le ps
  constructor
  · rw [textOf_snoc, text_append]
    exact ⟨h.text_within hwithin, hstring.text⟩
  · rw [textOf_snoc, List.length_append]
    intro x hx hx'
    change _ + (_ + (itoaText num b).length) ≤ x at hx
    by_cases hnull : x = buf + (textOf ps).length + (itoaText num b).length
    · rw [hnull]
      apply hstring.null
    · rw [hwithin.byte (by omega)]
      apply h.zeros x (by omega) hx'
  · rw [textEnd_numeral]
    apply h.range_within hwithin
    · omega
    · omega
  · rw [textEnd_numeral]
    intro _
    refine ⟨_, hmem, ?_⟩
    dsimp only
    omega

theorem length_itoaText_le (num : Int) (b : Nat) :
  (itoaText num b).length ≤ (Numeral.lowDigits b num.natAbs).length + 1
  := by
  have hmisplaced : (misplaced b num.natAbs).length = (Numeral.lowDigits b num.natAbs).length := by
    rw [misplaced, List.length_map, List.length_append, List.length_reverse, ← List.length_append,
      List.take_append_drop]
  have hnumeral : (Numeral.numeralOf b num.natAbs).length
      = (Numeral.lowDigits b num.natAbs).length := by
    rw [Numeral.numeralOf, List.length_map, List.length_reverse]
  rw [itoaText]
  split_ifs
  · rw [List.length_cons, hnumeral]
  · omega
  · omega

/-- The length of a numeral that has just been stored. -/
theorem kStrlen_kItoa {b : Nat} (hb : b = 2 ∨ b = 8 ∨ b = 10 ∨ b = 16) (r : Log) (curr : Nat)
    (num : BitVec 32) :
  kStrlen (kItoa r curr num.toInt b).byte (2 ^ 32) curr = (itoaText num.toInt b).length
  := by
  apply kStrlen_of_cString (kItoa_string hb r curr num.toInt).1
  have hlow := BitVec.le_toInt num
  have hhigh := BitVec.toInt_lt (x := num)
  have hpow : 2 ^ 32 ≤ b ^ (31 + 1) := Nat.pow_le_pow_left (by omega) 32
  have hdigits : (Numeral.lowDigits b num.toInt.natAbs).length ≤ 31 + 1 :=
    (Numeral.length_lowDigits_le_iff (by omega)).mpr (by omega)
  have hle := length_itoaText_le num.toInt b
  omega

/-- A directive writes its pieces. -/
theorem directive_wrote {ch : UInt8} {args args' : List Arg} {ps' : List Piece}
    (hdirective : directive ch args = some (ps', args')) (h : Wrote buf ps r) :
  ∃ r', Wrote buf (ps ++ ps') r' ∧ ∀ fmt,
    kVsprint.loop r (buf + (textOf ps).length) (ch :: fmt) .readFmt args
      = kVsprint.loop r' (buf + (textOf (ps ++ ps')).length) fmt .normal args'
  := by
  have hlength (b : Nat) (hb : b = 2 ∨ b = 8 ∨ b = 10 ∨ b = 16) (num : BitVec 32) :
      buf + (textOf ps).length
          + kStrlen (kItoa r (buf + (textOf ps).length) num.toInt b).byte (2 ^ 32)
            (buf + (textOf ps).length)
        = buf + (textOf (ps ++ [.numeral (itoaText num.toInt b)])).length := by
    rw [kStrlen_kItoa hb, textOf_snoc, List.length_append, Nat.add_assoc]
    rfl
  have hchars (cs : List UInt8) :
      buf + (textOf ps).length + cs.length = buf + (textOf (ps ++ [.chars cs])).length := by
    rw [textOf_snoc, List.length_append, Nat.add_assoc]
    rfl
  unfold directive at hdirective
  split_ifs at hdirective with hd hx hc hs
  · rcases args with _ | ⟨num | str, args⟩ <;> cases hdirective
    refine ⟨_, h.numeral (b := 10) (by decide) num.toInt, fun fmt => ?_⟩
    rw [kVsprint.loop, if_pos hd, ← hlength 10 (by decide)]
    rfl
  · rcases args with _ | ⟨num | str, args⟩ <;> cases hdirective
    refine ⟨_, h.numeral (b := 16) (by decide) num.toInt, fun fmt => ?_⟩
    rw [kVsprint.loop, if_neg hd, if_pos hx, ← hlength 16 (by decide)]
    rfl
  · rcases args with _ | ⟨num | str, args⟩ <;> cases hdirective
    refine ⟨_, h.chars [.ofNat num.toNat], fun fmt => ?_⟩
    rw [kVsprint.loop, if_neg hd, if_neg hx, if_pos hc, ← hchars]
    rfl
  · rcases args with _ | ⟨num | str, args⟩ <;> cases hdirective
    refine ⟨_, h.chars (str.getD []), fun fmt => ?_⟩
    rw [kVsprint.loop, if_neg hd, if_neg hx, if_neg hc, if_pos hs, ← hchars]
  · cases hdirective
    rw [List.append_nil]
    refine ⟨r, h, fun fmt => ?_⟩
    rw [kVsprint.loop.eq_def]
    dsimp only
    rw [if_neg hd, if_neg hx, if_neg hc, if_neg hs]

theorem loop_char {ch : UInt8} (hch : ch ≠ 37) (ps : List Piece) (fmt : List UInt8)
    (args : List Arg) :
  kVsprint.loop r (buf + (textOf ps).length) (ch :: fmt) .normal args
    = kVsprint.loop (storeChars r (buf + (textOf ps).length) [ch])
      (buf + (textOf (ps ++ [.chars [ch]])).length) fmt .normal args
  := by
  rw [kVsprint.loop, if_neg hch, textOf_snoc, List.length_append, ← Nat.add_assoc]
  rfl

/-- The loop writes the pieces of its format. -/
theorem loop_wrote {fmt : List UInt8} {args : List Arg} {ps' : List Piece}
    (hpieces : pieces fmt args = some ps') (h : Wrote buf ps r) :
  ∃ r', kVsprint.loop r (buf + (textOf ps).length) fmt .normal args = some r'
    ∧ Wrote buf (ps ++ ps') r'
  := by
  induction fmt, args using pieces.induct generalizing r ps ps' with
  | case1 args =>
      cases hpieces
      rw [List.append_nil]
      exact ⟨r, rfl, h⟩
  | case2 args =>
      rw [pieces, if_pos rfl] at hpieces
      cases hpieces
      rw [List.append_nil]
      exact ⟨r, rfl, h⟩
  | case3 ch args hch =>
      rw [pieces, if_neg hch] at hpieces
      cases hpieces
      rw [loop_char hch]
      exact ⟨_, rfl, h.chars [ch]⟩
  | case4 ch' fmt args ps₁ args' hdirective ih =>
      rw [pieces, if_pos rfl, hdirective] at hpieces
      obtain ⟨ps₂, hrest, rfl⟩ := Option.map_eq_some_iff.mp hpieces
      obtain ⟨r₁, hwrote, heq⟩ := directive_wrote hdirective h
      rw [kVsprint.loop, if_pos rfl, heq, ← List.append_assoc]
      apply ih hrest hwrote
  | case5 ch' fmt args hdirective =>
      rw [pieces, if_pos rfl, hdirective] at hpieces
      cases hpieces
  | case6 ch ch' fmt args hch ih =>
      rw [pieces, if_neg hch] at hpieces
      obtain ⟨ps₂, hrest, rfl⟩ := Option.map_eq_some_iff.mp hpieces
      rw [loop_char hch, List.append_cons ps _ ps₂]
      apply ih hrest (h.chars [ch])

theorem wrote_kMemset (m : Memory) (buf : Nat) (hbuf : buf ≠ 0) :
  Wrote buf [] (kMemset ⟨m, []⟩ buf 0 128)
  := by
  obtain ⟨hwithin, hbytes⟩ := kMemset_loop ⟨m, []⟩ buf 0 128
  rw [kMemset, if_neg (by omega)]
  refine ⟨trivial, hbytes, hwithin.stores rfl, ?_⟩
  intro hend
  cases hend rfl

/-- What has been written stays in the buffer, and ends there, exactly when the pieces fit. -/
theorem Wrote.inBuffer_iff (h : Wrote buf ps r) :
  InBuffer r buf ↔ Fits ps
  := by
  have hend : textEnd ps = (textOf ps).length + if endsInNumeral ps then 1 else 0 := rfl
  constructor
  · rintro ⟨hstores, i, hi, hzero⟩
    have hreach : textEnd ps ≤ 128 := by
      by_contra hgt
      obtain ⟨p, hp, hlast⟩ := h.last (by omega)
      have hrange := hstores p hp
      omega
    rw [Fits]
    by_cases hshort : (textOf ps).length ≤ 127
    · exact .inl hshort
    · right
      have hnumeral : endsInNumeral ps = false := by
        cases hlast : endsInNumeral ps with
        | false => rfl
        | true =>
            rw [hlast, if_pos rfl] at hend
            omega
      have hi' : i < (textOf ps).length := by omega
      rw [text_iff.mp h.text i hi'] at hzero
      rw [hend] at hreach
      exact ⟨by omega, hzero ▸ List.getElem_mem hi', hnumeral⟩
  · rintro (hshort | ⟨hfull, hzero, hnumeral⟩)
    · have hle := textEnd_le ps
      constructor
      · intro p hp
        have hrange := h.range p hp
        omega
      · refine ⟨127, by decide, h.zeros _ (by omega) (by omega)⟩
    · rw [hnumeral, if_neg nofun] at hend
      constructor
      · intro p hp
        have hrange := h.range p hp
        omega
      · obtain ⟨i, hi, heq⟩ := List.getElem_of_mem hzero
        refine ⟨i, by omega, ?_⟩
        rw [text_iff.mp h.text i hi, heq]

/-- `klog` returns for every format with arguments that match it; its text stays in the buffer
and ends there exactly when the pieces fit. -/
theorem klog_fits_iff {fmt : List UInt8} {args : List Arg} (hbuf : buf ≠ 0)
    (hpieces : pieces fmt args = some ps) (m : Memory) :
  ∃ r, klog m buf fmt args = some r ∧ (InBuffer r buf ↔ Fits ps)
  := by
  obtain ⟨r, heq, hwrote⟩ := loop_wrote hpieces (wrote_kMemset m buf hbuf)
  exact ⟨r, heq, hwrote.inBuffer_iff⟩

/-- `pid: %d` with the process id 7. -/
theorem klog_pid :
  ∃ r, klog (fun _ => 0) 4096 [112, 105, 100, 58, 32, 37, 100] [.int 7] = some r
    ∧ InBuffer r 4096
  := by
  have hbuf : 4096 ≠ 0 := by decide
  obtain ⟨r, heq, hiff⟩ := klog_fits_iff hbuf
    (show pieces [112, 105, 100, 58, 32, 37, 100] [.int 7]
      = some [.chars [112], .chars [105], .chars [100], .chars [58], .chars [32],
        .numeral (itoaText (7 : BitVec 32).toInt 10)] from rfl) (fun _ => 0)
  refine ⟨r, heq, hiff.mpr (.inl ?_)⟩
  have hlow : Numeral.lowDigits 10 7 = [7] := Numeral.lowDigits_of_lt (by decide)
  have htext : itoaText (7 : BitVec 32).toInt 10 = [55] := by
    change Numeral.numeralOf 10 7 = _
    rw [Numeral.numeralOf, hlow]
    rfl
  rw [htext]
  decide

/-- A program prints a string of 129 characters `a`. -/
theorem not_inBuffer_string :
  ∃ r, klog (fun _ => 0) 4096 [37, 115] [.str (some (List.replicate 129 97))] = some r
    ∧ (4096 + 128, 97) ∈ r.stores ∧ ¬ InBuffer r 4096
  := by
  have hmem : (4096 + 128, 97)
      ∈ (storeChars (kMemset ⟨fun _ => 0, []⟩ 4096 0 128) 4096 (List.replicate 129 97)).stores := by
    decide +kernel
  refine ⟨_, rfl, hmem, ?_⟩
  intro hbuffer
  have hrange := hbuffer.stores _ hmem
  dsimp only at hrange
  omega

end Dmos.Klib
