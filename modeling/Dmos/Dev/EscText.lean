import Dmos.Dev.Screen
import Mathlib.Data.List.GetD

/-!
# The text of an escape sequence

A sequence is sent as `ESC [`, its parameters with `;` between them, and a character that ends
it.  A parameter is a numeral, or absent, that is empty.  The console reads back what was sent
(`chars_escText`), whatever an earlier sequence has left in the array: at each place of the text
it is a console that has received the parameters up to there (`Console.received`), and no
character before the last changes anything on the screen (`Quiet`).
-/

namespace Dmos

/-- The characters of a numeral, none if it is absent. -/
def IsNumeral (ds : List UInt8) : Prop :=
  ∀ c ∈ ds, 48 ≤ c ∧ c ≤ 57

/-- The value of a numeral, `0` if it is absent. -/
def numeral (ds : List UInt8) : Nat :=
  ds.foldl (fun v c => 10 * v + (c.toNat - 48)) 0

theorem numeral_append_one (ds : List UInt8) (c : UInt8) :
  numeral (ds ++ [c]) = 10 * numeral ds + (c.toNat - 48)
  := by rw [numeral, List.foldl_append]; rfl

/-- What has been read of a numeral is at most the numeral. -/
theorem numeral_le_append (ds cs : List UInt8) :
  numeral ds ≤ numeral (ds ++ cs)
  := by
  induction cs using List.reverseRecOn with
  | nil => rw [List.append_nil]
  | append_singleton cs c ih =>
      rw [← List.append_assoc, numeral_append_one]
      omega

/-- The array for a sequence of parameters, `0` behind them. -/
def paramArray (params : List (List UInt8)) : Fin 10 → Int :=
  fun k => numeral (params.getD k [])

/-- A separator makes room for a parameter that is absent up to here. -/
theorem paramArray_absent (params : List (List UInt8)) :
  paramArray (params ++ [[]]) = paramArray params
  := by
  funext k
  rw [paramArray, paramArray]
  by_cases hk : k.val < params.length
  · rw [List.getD_append _ _ _ _ hk]
  · rw [List.getD_append_right _ _ _ _ (by omega), List.getD_eq_default params _ (by omega)]
    cases k.val - params.length <;> rfl

/-- A digit changes the last parameter only. -/
theorem update_paramArray (params : List (List UInt8)) (ds es : List UInt8) {k : Fin 10}
    (hk : k.val = params.length) :
  Function.update (paramArray (params ++ [ds])) k (numeral es : Int) = paramArray (params ++ [es])
  := by
  funext i
  by_cases hi : i = k
  · rw [hi, Function.update_self, paramArray, List.getD_append_right _ _ _ _ (by omega), hk,
      Nat.sub_self]
    rfl
  · rw [Function.update_of_ne hi, paramArray, paramArray]
    have hne : i.val ≠ params.length := fun h => hi (Fin.ext (by omega))
    by_cases hlt : i.val < params.length
    · rw [List.getD_append _ _ _ _ hlt, List.getD_append _ _ _ _ hlt]
    · have hend (es : List UInt8) : (params ++ [es]).length ≤ i.val := by
        rw [List.length_append, List.length_singleton]
        omega
      rw [List.getD_eq_default _ _ (hend ds), List.getD_eq_default _ _ (hend es)]

/-- Parameters with separators between them. -/
def joinParams : List (List UInt8) → List UInt8
  | [] => []
  | [ds] => ds
  | ds :: params => ds ++ 59 :: joinParams params

/-- A sequence up to the character that ends it. -/
def escText (params : List (List UInt8)) : List UInt8 :=
  27 :: 91 :: joinParams params

namespace Console

variable {s t u : Console} {c : UInt8} {chs : List UInt8} {params : List (List UInt8)}

/-! ### Characters without effect on the screen -/

/-- Nothing but the state of writing and the parameters has changed. -/
def Untouched (s t : Console) : Prop :=
  t = { s with
    writeState := t.writeState
    escParam := t.escParam
    currParamIndex := t.currParamIndex }

theorem Untouched.refl (s : Console) :
  s.Untouched s
  := rfl

theorem Untouched.trans (h : s.Untouched t) (h' : t.Untouched u) :
  s.Untouched u
  := by
  rw [Untouched] at h h' ⊢
  rw [h', h]

/-- A text that leads from `s` to `t` without a change of anything but the state of writing and
the parameters. -/
inductive Quiet : Console → List UInt8 → Console → Prop where
  | nil (s : Console) : Quiet s [] s
  | cons {s t u : Console} {c : UInt8} {chs : List UInt8} (hchar : consoleWrite.char s c = some t)
      (htouch : s.Untouched t) (hrest : Quiet t chs u) : Quiet s (c :: chs) u

theorem Quiet.append {chs' : List UInt8} (h : Quiet s chs t) (h' : Quiet t chs' u) :
  Quiet s (chs ++ chs') u
  := by
  induction h with
  | nil s => apply h'
  | cons hchar htouch hrest ih => exact .cons hchar htouch (ih h')

theorem Quiet.chars (h : Quiet s chs t) :
  consoleWrite.chars s chs = some t
  := by
  induction h with
  | nil s => rfl
  | cons hchar htouch hrest ih =>
      rw [consoleWrite.chars, PartialRun.foldlM_cons_of_some hchar]
      apply ih

/-- At each place of the text nothing on the screen has changed. -/
theorem Quiet.prefix (h : Quiet s chs t) {pre : List UInt8} (hpre : pre <+: chs) :
  ∃ u, consoleWrite.chars s pre = some u ∧ s.Untouched u
  := by
  induction h generalizing pre with
  | nil s =>
      rw [List.prefix_nil] at hpre
      rw [hpre]
      exact ⟨s, rfl, .refl s⟩
  | @cons s t u c chs hchar htouch hrest ih =>
      cases pre with
      | nil => exact ⟨s, rfl, .refl s⟩
      | cons b pre =>
          rw [List.cons_prefix_cons] at hpre
          obtain ⟨v, hv, htouch'⟩ := ih hpre.2
          refine ⟨v, ?_, htouch.trans htouch'⟩
          rw [consoleWrite.chars, hpre.1, PartialRun.foldlM_cons_of_some hchar]
          apply hv

/-! ### The parameters -/

/-- The console in a sequence, up to the parameters `params`. -/
def received (s : Console) (params : List (List UInt8)) : Console :=
  { s with
    writeState := .square
    escParam := paramArray params
    currParamIndex := params.length - 1 }

theorem untouched_received (s : Console) (params params' : List (List UInt8)) :
  (s.received params).Untouched (s.received params')
  := rfl

/-- `ESC [`. -/
theorem quiet_start (hstate : s.writeState = .nomal) :
  Quiet s [27, 91] (s.received [[]])
  := by
  have hesc : consoleWrite.char s 27 = some { s with writeState := .esc } := by
    rw [consoleWrite.char, hstate]
    rfl
  refine .cons hesc rfl (.cons (t := s.received [[]]) ?_ rfl (.nil _))
  have harray : paramArray [[]] = fun _ => 0 := by
    rw [← List.nil_append [[]], paramArray_absent]
    rfl
  rw [received, harray]
  rfl

/-- A digit of the last parameter. -/
theorem char_digit (s : Console) {params : List (List UInt8)} {ds : List UInt8}
    (hlen : params.length < 10) (hc : 48 ≤ c ∧ c ≤ 57)
    (hvalue : numeral (ds ++ [c]) < 2 ^ 31 - 48) :
  consoleWrite.char (s.received (params ++ [ds])) c = some (s.received (params ++ [ds ++ [c]]))
  := by
  have hlast (es : List UInt8) : ((params ++ [es]).length : Int) - 1 = params.length := by
    rw [List.length_append, List.length_singleton]
    omega
  have hk : paramIndex (params.length : Int) = some ⟨params.length, hlen⟩ := by
    rw [paramIndex, dif_pos ⟨by omega, by rw [show escParamMax = 10 from rfl]; omega⟩]
    rfl
  have hread : paramArray (params ++ [ds]) ⟨params.length, hlen⟩ = numeral ds := by
    rw [paramArray, List.getD_append_right _ _ _ _ (le_refl _), Nat.sub_self]
    rfl
  have hdigit : 48 ≤ c.toNat := hc.1
  have hvalue' := numeral_append_one ds c
  have hint : int32 ((numeral ds : Int) * 10 + c.toNat - 48) = numeral (ds ++ [c]) := by
    rw [int32_of_bounds (by omega) (by omega)]
    omega
  show writeEscSquare _ c = _
  rw [writeEscSquare, if_pos hc, writeEscSquare.digit, received, received]
  dsimp only
  rw [hlast, hlast, hk]
  dsimp only
  rw [hread, hint, update_paramArray params ds _ rfl]

/-- The digits of the last parameter. -/
theorem quiet_digits (s : Console) {params : List (List UInt8)} {ds cs : List UInt8}
    (hlen : params.length < 10) (hcs : IsNumeral cs) (hvalue : numeral (ds ++ cs) < 2 ^ 31 - 48) :
  Quiet (s.received (params ++ [ds])) cs (s.received (params ++ [ds ++ cs]))
  := by
  induction cs generalizing ds with
  | nil =>
      rw [List.append_nil]
      apply Quiet.nil
  | cons c cs ih =>
      rw [List.append_cons ds c cs] at hvalue ⊢
      have hdigit := char_digit s hlen (hcs c List.mem_cons_self)
        (lt_of_le_of_lt (numeral_le_append (ds ++ [c]) cs) hvalue)
      have hrest := ih (fun b hb => hcs b (List.mem_cons_of_mem c hb)) hvalue
      exact .cons hdigit (untouched_received s _ _) hrest

/-- A separator. -/
theorem quiet_separator (s : Console) (params : List (List UInt8)) (hpos : 0 < params.length)
    (hlen : params.length < 10) :
  Quiet (s.received params) [59] (s.received (params ++ [[]]))
  := by
  refine .cons (t := s.received (params ++ [[]])) ?_ (untouched_received s _ _) (.nil _)
  have hroom : (params.length : Int) - 1 < escParamMax := by
    rw [show escParamMax = 10 from rfl]
    omega
  show writeEscSquare _ 59 = _
  rw [writeEscSquare, if_neg (by decide), if_pos ⟨rfl, hroom⟩, received, received,
    paramArray_absent, List.length_append, List.length_singleton]
  congr 2
  dsimp only
  omega

/-- The rest of the parameters. -/
theorem quiet_params (s : Console) (done : List (List UInt8)) {params : List (List UInt8)}
    (hne : params ≠ []) (hlen : done.length + params.length ≤ 10)
    (hnum : ∀ ds ∈ params, IsNumeral ds ∧ numeral ds < 2 ^ 31 - 48) :
  Quiet (s.received (done ++ [[]])) (joinParams params) (s.received (done ++ params))
  := by
  induction params generalizing done with
  | nil => exact absurd rfl hne
  | cons ds params ih =>
      obtain ⟨hds, hvalue⟩ := hnum ds List.mem_cons_self
      rw [List.length_cons] at hlen
      have hdigits : Quiet (s.received (done ++ [[]])) ds (s.received (done ++ [ds])) :=
        quiet_digits s (by omega) hds hvalue
      cases params with
      | nil => apply hdigits
      | cons es params =>
          rw [List.length_cons] at hlen
          have hsep := quiet_separator s (done ++ [ds])
            (by rw [List.length_append, List.length_singleton]; omega)
            (by rw [List.length_append, List.length_singleton]; omega)
          have hrest := ih (done ++ [ds]) (List.cons_ne_nil es params)
            (by rw [List.length_append, List.length_singleton, List.length_cons]; omega)
            fun e he => hnum e (List.mem_cons_of_mem ds he)
          rw [List.append_assoc done [ds] (es :: params), List.singleton_append] at hrest
          exact hdigits.append (hsep.append hrest)

/-! ### The end of a sequence -/

theorem setFontStyle_loop_params {i : Int} {n : Nat} (h : setFontStyle.loop s i n = some t) :
  t.escParam = s.escParam ∧ t.currParamIndex = s.currParamIndex
  := by
  induction n generalizing s i with
  | zero =>
      cases h
      exact ⟨rfl, rfl⟩
  | succ n ih =>
      rw [setFontStyle.loop] at h
      cases hk : paramIndex i with
      | none =>
          rw [hk] at h
          cases h
      | some k =>
          rw [hk] at h
          obtain ⟨harray, hindex⟩ := ih h
          rw [harray, hindex, setFontStyle.style]
          split_ifs <;> exact ⟨rfl, rfl⟩

/-- The action at the end leaves the parameters as they are. -/
theorem writeEscSquare_final_params (h : writeEscSquare.final s c = some t) :
  t.escParam = s.escParam ∧ t.currParamIndex = s.currParamIndex
  := by
  rw [writeEscSquare.final] at h
  split_ifs at h
  · apply setFontStyle_loop_params h
  · cases h
    exact ⟨rfl, rfl⟩
  · cases h
    unfold moveRight
    dsimp only
    split_ifs <;> exact ⟨rfl, rfl⟩
  · cases h
    rw [moveCursor]
    split_ifs <;> exact ⟨rfl, rfl⟩
  · cases h
    rw [eraseInDisplay]
    split_ifs <;> exact ⟨rfl, rfl⟩
  · cases h
    exact ⟨rfl, rfl⟩

/-- From a console outside of escape sequences, with a character that ends a sequence.  `t` is
the console before this character, and its action is taken with the index one further. -/
theorem chars_escText (hstate : s.writeState = .nomal)
    (hlen : 1 ≤ params.length ∧ params.length ≤ 10)
    (hnum : ∀ ds ∈ params, IsNumeral ds ∧ numeral ds < 2 ^ 31 - 48)
    (hfinal : ¬ (48 ≤ c ∧ c ≤ 57) ∧ c ≠ 59) :
  (∀ pre, pre <+: escText params → ∃ t, consoleWrite.chars s pre = some t ∧ s.Untouched t) ∧
    ∃ t u, consoleWrite.chars s (escText params) = some t ∧
      t.escParam = paramArray params ∧ t.currParamIndex + 1 = params.length ∧
      writeEscSquare.final { t with currParamIndex := t.currParamIndex + 1 } c = some u ∧
      consoleWrite.chars s (escText params ++ [c]) = some { u with writeState := .nomal } ∧
      u.escParam = paramArray params ∧ u.currParamIndex = params.length
  := by
  have hquiet : Quiet s (escText params) (s.received params) := by
    have hparams := quiet_params s [] (List.ne_nil_of_length_pos hlen.1)
      (by rw [List.length_nil]; omega) hnum
    exact (quiet_start hstate).append hparams
  use fun pre hpre => hquiet.prefix hpre
  have hindex : (s.received params).currParamIndex + 1 = params.length := Int.sub_add_cancel _ 1
  have hmax : (s.received params).currParamIndex + 1 ≤ escParamMax := by
    rw [hindex, show escParamMax = 10 from rfl]
    omega
  obtain ⟨u, hu⟩ := (writeEscSquare_final (c := c)
    (s := { s.received params with currParamIndex := (s.received params).currParamIndex + 1 })
    (show 0 ≤ (s.received params).currParamIndex + 1 by omega)).mpr fun _ => hmax
  have hchar : consoleWrite.char (s.received params) c
      = some { u with writeState := .nomal } := by
    show writeEscSquare _ c = _
    rw [writeEscSquare, if_neg hfinal.1, if_neg fun h => hfinal.2 h.1, hu]
  obtain ⟨harray, hafter⟩ := writeEscSquare_final_params hu
  refine ⟨s.received params, u, hquiet.chars, rfl, hindex, hu, ?_, harray, hafter.trans hindex⟩
  rw [consoleWrite.chars, List.foldlM_append]
  show (consoleWrite.chars s (escText params)).bind _ = _
  rw [hquiet.chars, Option.bind_some]
  show consoleWrite.chars _ [c] = _
  rw [consoleWrite.chars, PartialRun.foldlM_cons_of_some hchar]
  rfl

/-- `ESC [ 5 ; ; 1 2 H`. -/
theorem chars_escText_three :
  (∀ pre, pre <+: escText [[53], [], [49, 50]] →
      ∃ t, consoleWrite.chars blank pre = some t ∧ blank.Untouched t) ∧
    ∃ t u, consoleWrite.chars blank (escText [[53], [], [49, 50]]) = some t ∧
      t.escParam = paramArray [[53], [], [49, 50]] ∧ t.currParamIndex + 1 = 3 ∧
      writeEscSquare.final { t with currParamIndex := t.currParamIndex + 1 } 72 = some u ∧
      consoleWrite.chars blank (escText [[53], [], [49, 50]] ++ [72])
        = some { u with writeState := .nomal } ∧
      u.escParam = paramArray [[53], [], [49, 50]] ∧ u.currParamIndex = 3
  := by
  have hnum : ∀ ds ∈ [[53], [], [49, 50]], IsNumeral ds ∧ numeral ds < 2 ^ 31 - 48 := by
    rw [List.forall_mem_cons, List.forall_mem_cons, List.forall_mem_singleton]
    unfold IsNumeral
    refine ⟨⟨by simp, by decide⟩, ⟨by simp, by decide⟩, by simp, by decide⟩
  apply chars_escText rfl (by decide) hnum (by decide)

end Console

end Dmos
