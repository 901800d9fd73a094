import Dmos.Dev.Keyboard

/-!
# Selecting a terminal

The first eight function keys select a terminal while a control key is held, and the other keys
type a character.  What `handle_kbd` asks of the terminals is told by the scan codes before it
(`handleCode_calls`): whether a control key is held, which has the same code on both sides of
the keyboard, on the right behind `E0`, and whether a shift is held and caps lock on.
-/

open History

namespace Dmos

open Kbd

/-! ### What the keys ask for -/

/-- The next scan code comes right behind `E0`. -/
def AfterE0 (codes : List UInt8) : Prop :=
  codes.getLast? = some keyE0

instance (codes : List UInt8) : Decidable (AfterE0 codes) :=
  inferInstanceAs (Decidable (_ = _))

def RightCtrlHeld (codes : List UInt8) : Prop :=
  Since (fun codes c => c = keyCtrl ∧ AfterE0 codes)
    (fun codes c => c = keyCtrl ||| 0x80 ∧ AfterE0 codes) codes

instance (codes : List UInt8) : Decidable (RightCtrlHeld codes) :=
  inferInstanceAs (Decidable (Since _ _ _))

def CtrlHeld (codes : List UInt8) : Prop :=
  Held keyCtrl codes ∨ RightCtrlHeld codes

instance (codes : List UInt8) : Decidable (CtrlHeld codes) :=
  inferInstanceAs (Decidable (_ ∨ _))

/-- The key is one of the first eight function keys, or has a number between theirs. -/
def FunctionKey (key : UInt8) : Prop :=
  keyF1 ≤ key ∧ key ≤ keyF8

instance (key : UInt8) : Decidable (FunctionKey key) :=
  inferInstanceAs (Decidable (_ ∧ _))

/-- The terminal that the scan code selects: a function key selects one both when it is pressed
and when it is released. -/
def selects (codes : List UInt8) (code : UInt8) : Option Nat :=
  if ¬ Prefixed codes ∧ CtrlHeld codes ∧ FunctionKey (getKey code) then
    some ((getKey code).toNat - keyF1.toNat)
  else none

/-- The terminal that was selected last, and the first one before that. -/
def selected (codes : List UInt8) : Nat :=
  (reports selects codes).getLast?.getD 0

/-- The keys that are held for the sake of others. -/
def modifierKeys : List UInt8 :=
  [keyRshift, keyLshift, keyCaps, keyAlt, keyCtrl]

theorem mem_modifierKeys {key : UInt8} :
  key ∈ modifierKeys
    ↔ key = keyRshift ∨ key = keyLshift ∨ key = keyCaps ∨ key = keyAlt ∨ key = keyCtrl
  := by simp [modifierKeys]

theorem not_functionKey_of_mem {key : UInt8} (h : key ∈ modifierKeys) :
  ¬ FunctionKey key
  := by rcases mem_modifierKeys.mp h with rfl | rfl | rfl | rfl | rfl <;> decide

/-- The character that the scan code types. -/
def types (codes : List UInt8) (code : UInt8) : Option UInt8 :=
  if ¬ Prefixed codes ∧ isMakeCode code = true ∧ getKey code ∉ modifierKeys
      ∧ ¬ FunctionKey (getKey code) then
    some (doNormalKey.char (decide (ShiftHeld codes)) (decide (CapsOn codes)) (getKey code))
  else none

theorem selected_concat (codes : List UInt8) (code : UInt8) :
  selected (codes ++ [code]) = (selects codes code).getD (selected codes)
  := by
  rw [selected, selected, reports_concat]
  cases selects codes code with
  | none => rw [Option.toList_none, List.append_nil, Option.getD_none]
  | some n => rw [Option.toList_some, List.getLast?_concat, Option.getD_some, Option.getD_some]

/-- A scan code that selects a terminal types nothing. -/
theorem types_of_selects {codes : List UInt8} {code : UInt8} {n : Nat}
    (h : selects codes code = some n) :
  types codes code = none
  := by
  rw [selects] at h
  split_ifs at h with hfx
  apply if_neg
  rintro ⟨-, -, -, hother⟩
  exact hother hfx.2.2

theorem selects_lt {codes : List UInt8} {code : UInt8} {n : Nat}
    (h : selects codes code = some n) :
  n < 8
  := by
  rw [selects] at h
  split_ifs at h with hfx
  obtain ⟨-, -, hlo, hhi⟩ := hfx
  rw [UInt8.le_iff_toNat_le] at hlo hhi
  rw [Option.some_inj] at h
  change 0x3B ≤ (getKey code).toNat at hlo
  change (getKey code).toNat ≤ 0x42 at hhi
  change (getKey code).toNat - 0x3B = n at h
  omega

namespace Kbd

variable {s : Kbd} {codes : List UInt8} {code : UInt8}

/-! ### One scan code -/

/-- The state says which control keys are held. -/
structure TracksCtrl (s : Kbd) (codes : List UInt8) : Prop extends Tracks s codes where
  beginE0 : s.recvState = .beginE0 ↔ AfterE0 codes
  lctrlPress : s.lctrlPress = true ↔ Held keyCtrl codes
  rctrlPress : s.rctrlPress = true ↔ RightCtrlHeld codes

theorem tracksCtrl_init :
  init.TracksCtrl []
  := by
  refine ⟨tracks_init, ?_, ?_, ?_⟩ <;> decide

theorem afterE0_concat :
  AfterE0 (codes ++ [code]) ↔ code = keyE0
  := by rw [AfterE0, List.getLast?_concat, Option.some_inj]

/-- A code that is not that of the key behind `E0`. -/
theorem rightCtrlHeld_concat_of_not (h : AfterE0 codes → code = keyE0 ∨ code = keyE1) :
  RightCtrlHeld (codes ++ [code]) ↔ RightCtrlHeld codes
  := by
  have hquiet (c : UInt8) (hE0 : c ≠ keyE0) (hE1 : c ≠ keyE1) : ¬ (code = c ∧ AfterE0 codes) := by
    rintro ⟨rfl, hafter⟩
    rcases h hafter with rfl | rfl
    · exact hE0 rfl
    · exact hE1 rfl
  rw [RightCtrlHeld, since_concat, or_iff_right (hquiet _ (by decide) (by decide))]
  exact and_iff_left (hquiet _ (by decide) (by decide))

/-- What `do_normal_key` does to the control keys. -/
theorem doNormalKey_ctrl (s : Kbd) (code : UInt8) :
  (s.doNormalKey code).1.lctrlPress
      = (if getKey code = keyCtrl then isMakeCode code else s.lctrlPress)
    ∧ (s.doNormalKey code).1.rctrlPress = s.rctrlPress
  := by
  rw [doNormalKey]
  generalize getKey code = key
  generalize isMakeCode code = isMake
  by_cases hctrl : key = keyCtrl
  · subst hctrl
    cases isMake <;> exact ⟨rfl, rfl⟩
  rw [if_neg hctrl, if_neg hctrl]
  split_ifs <;> exact ⟨rfl, rfl⟩

theorem doE0Key_ctrl (s : Kbd) (code : UInt8) :
  (s.doE0Key code).rctrlPress
      = (if getKey code = keyCtrl then isMakeCode code else s.rctrlPress)
    ∧ (s.doE0Key code).lctrlPress = s.lctrlPress
  := by
  rw [doE0Key]
  split_ifs <;> exact ⟨rfl, rfl⟩

theorem TracksCtrl.handleCode (h : s.TracksCtrl codes) (code : UInt8) :
  (s.handleCode code).1.TracksCtrl (codes ++ [code])
  := by
  have hnext := h.toTracks.handleCode code
  -- a code that is no code of the left control key
  have hleft (hquiet : ∀ c, c ≠ keyE0 → c ≠ keyE1 → ¬ Plain c codes code) :
      s.lctrlPress = true ↔ Held keyCtrl (codes ++ [code]) :=
    h.lctrlPress.trans (held_concat_of_not (hquiet _ (by decide) (by decide))
      (hquiet _ (by decide) (by decide))).symm
  have hright (hquiet : AfterE0 codes → code = keyE0 ∨ code = keyE1) :
      s.rctrlPress = true ↔ RightCtrlHeld (codes ++ [code]) :=
    h.rctrlPress.trans (rightCtrlHeld_concat_of_not hquiet).symm
  rw [Kbd.handleCode] at hnext ⊢
  by_cases hE0 : code = keyE0
  · rw [if_pos hE0] at hnext ⊢
    refine ⟨hnext, iff_of_true rfl (afterE0_concat.mpr hE0), hleft ?_, hright fun _ => .inl hE0⟩
    rintro c hne - ⟨rfl, -⟩
    exact hne hE0
  rw [if_neg hE0] at hnext ⊢
  have hafter : ¬ AfterE0 (codes ++ [code]) := mt afterE0_concat.mp hE0
  by_cases hE1 : code = keyE1
  · rw [if_pos hE1] at hnext ⊢
    refine ⟨hnext, iff_of_false (by simp) hafter, hleft ?_, hright fun _ => .inr hE1⟩
    rintro c - hne ⟨rfl, -⟩
    exact hne hE1
  rw [if_neg hE1] at hnext ⊢
  have hprefixed (hne : s.recvState ≠ .normal) (c : UInt8) : ¬ Plain c codes code := by
    rintro ⟨-, hplain⟩
    exact hne (h.recvState.mpr hplain)
  cases hrecv : s.recvState with
  | beginE0 =>
      rw [hrecv] at hnext
      obtain ⟨hrctrl, hlctrl⟩ := doE0Key_ctrl s code
      dsimp only at hnext ⊢
      refine ⟨hnext, iff_of_false (by simp) hafter, ?_, ?_⟩
      · rw [hlctrl]
        apply hleft
        intro c _ _
        apply hprefixed (by rw [hrecv]; decide)
      · rw [hrctrl, RightCtrlHeld, since_concat_key (by decide) (h.beginE0.mp hrecv),
          ← RightCtrlHeld, ← h.rctrlPress]
        split_ifs <;> exact Iff.rfl
  | beginE1 =>
      rw [hrecv] at hnext
      refine ⟨hnext, iff_of_false (by simp) hafter, hleft ?_, hright ?_⟩
      · intro c _ _
        apply hprefixed (by rw [hrecv]; decide)
      · intro hE0'
        rw [h.beginE0.mpr hE0'] at hrecv
        cases hrecv
  | normal =>
      rw [hrecv] at hnext
      have hplain := h.recvState.mp hrecv
      obtain ⟨hlctrl, hrctrl⟩ := doNormalKey_ctrl s code
      obtain ⟨hrecv', -⟩ := doNormalKey_state s code
      dsimp only at hnext ⊢
      refine ⟨hnext, iff_of_false ?_ hafter, ?_, ?_⟩
      · rw [hrecv', hrecv]
        decide
      · rw [hlctrl, held_concat (by decide) hplain, ← h.lctrlPress]
        split_ifs <;> exact Iff.rfl
      · rw [hrctrl]
        apply hright
        intro hE0'
        rw [h.beginE0.mpr hE0'] at hrecv
        cases hrecv

/-! ### What is asked of the terminals -/

theorem TracksCtrl.doNormalKey_calls (h : s.TracksCtrl codes) (hplain : ¬ Prefixed codes)
    (code : UInt8) :
  (s.doNormalKey code).2 = ((selects codes code).map .ttySelect).toList
    ++ ((types codes code).map .ttyIn).toList
  := by
  have hctrl : (s.lctrlPress = true ∨ s.rctrlPress = true) ↔ CtrlHeld codes := by
    rw [h.lctrlPress, h.rctrlPress, CtrlHeld]
  have hshift : (s.rshiftPress || s.lshiftPress) = decide (ShiftHeld codes) := by
    rw [Bool.eq_iff_iff, Bool.or_eq_true, h.rshiftPress, h.lshiftPress, decide_eq_true_iff,
      ShiftHeld, or_comm]
  have hcaps : s.capsLock = decide (CapsOn codes) := by
    rw [Bool.eq_iff_iff, h.capsLock, decide_eq_true_iff]
  by_cases hmod : getKey code ∈ modifierKeys
  · have hselects : selects codes code = none :=
      if_neg fun hand => not_functionKey_of_mem hmod hand.2.2
    have htypes : types codes code = none := if_neg fun hand => hand.2.2.1 hmod
    rw [hselects, htypes, doNormalKey]
    rcases mem_modifierKeys.mp hmod with hkey | hkey | hkey | hkey | hkey <;> rw [hkey] <;> rfl
  · obtain ⟨hr, hl, hc, ha, hct⟩ : getKey code ≠ keyRshift ∧ getKey code ≠ keyLshift
        ∧ getKey code ≠ keyCaps ∧ getKey code ≠ keyAlt ∧ getKey code ≠ keyCtrl := by
      simpa only [mem_modifierKeys, not_or] using hmod
    rw [doNormalKey, if_neg hr, if_neg hl, if_neg hc, if_neg ha, if_neg hct]
    by_cases hfx : FunctionKey (getKey code)
    · have htypes : types codes code = none := if_neg fun hand => hand.2.2.2 hfx
      rw [if_pos (show keyF1 ≤ getKey code ∧ getKey code ≤ keyF8 from hfx), htypes, doFxKey]
      by_cases hheld : CtrlHeld codes
      · have hselects : selects codes code = some ((getKey code).toNat - keyF1.toNat) :=
          if_pos ⟨hplain, hheld, hfx⟩
        rw [if_pos (hctrl.mpr hheld), hselects]
        rfl
      · have hselects : selects codes code = none := if_neg fun hand => hheld hand.2.1
        rw [if_neg (mt hctrl.mp hheld), hselects]
        rfl
    · have hselects : selects codes code = none := if_neg fun hand => hfx hand.2.2
      rw [if_neg (show ¬ (keyF1 ≤ getKey code ∧ getKey code ≤ keyF8) from hfx), hselects]
      by_cases hmake : isMakeCode code = true
      · have htypes : types codes code = some (doNormalKey.char (decide (ShiftHeld codes))
            (decide (CapsOn codes)) (getKey code)) := if_pos ⟨hplain, hmake, hmod, hfx⟩
        rw [if_pos hmake, htypes, hshift, hcaps]
        rfl
      · have htypes : types codes code = none := if_neg fun hand => hmake hand.2.1
        rw [if_neg hmake, htypes]
        rfl

/-- A scan code asks to select the terminal that the codes before it tell, or to take the
character that they tell. -/
theorem TracksCtrl.handleCode_calls (h : s.TracksCtrl codes) (code : UInt8) :
  (s.handleCode code).2 = ((selects codes code).map .ttySelect).toList
    ++ ((types codes code).map .ttyIn).toList
  := by
  have hprefix (c : UInt8) (hfx : ¬ FunctionKey (getKey c)) (hmake : ¬ isMakeCode c = true) :
      selects codes c = none ∧ types codes c = none :=
    ⟨if_neg fun hand => hfx hand.2.2, if_neg fun hand => hmake hand.2.1⟩
  rw [Kbd.handleCode]
  by_cases hE0 : code = keyE0
  · obtain ⟨hselects, htypes⟩ := hprefix code (by rw [hE0]; decide) (by rw [hE0]; decide)
    rw [if_pos hE0, hselects, htypes]
    rfl
  by_cases hE1 : code = keyE1
  · obtain ⟨hselects, htypes⟩ := hprefix code (by rw [hE1]; decide) (by rw [hE1]; decide)
    rw [if_neg hE0, if_pos hE1, hselects, htypes]
    rfl
  rw [if_neg hE0, if_neg hE1]
  have hquiet (hne : s.recvState ≠ .normal) :
      selects codes code = none ∧ types codes code = none := by
    have hpre : ¬ ¬ Prefixed codes := fun hplain => hne (h.recvState.mpr hplain)
    exact ⟨if_neg fun hand => hpre hand.1, if_neg fun hand => hpre hand.1⟩
  cases hrecv : s.recvState with
  | normal => apply h.doNormalKey_calls (h.recvState.mp hrecv)
  | beginE0 =>
      obtain ⟨hselects, htypes⟩ := hquiet (by rw [hrecv]; decide)
      rw [hselects, htypes]
      rfl
  | beginE1 =>
      obtain ⟨hselects, htypes⟩ := hquiet (by rw [hrecv]; decide)
      rw [hselects, htypes]
      rfl

end Kbd

end Dmos
