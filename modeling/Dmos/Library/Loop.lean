/-!
# Counted loops

`forEach` runs a body for consecutive values of a counter; `forLoop` does the same with a
body that may leave the loop early.  Each comes with its invariant rule.
-/

namespace Loop

variable {σ ε : Type}

/-- The state after `body` has run for `n` values of the counter, from `i` on. -/
def forEach (body : Nat → σ → σ) : Nat → Nat → σ → σ
  | _, 0, s => s
  | i, n + 1, s => forEach body (i + 1) n (body i s)

/-- As `forEach`, where `body` may leave the loop with an exit value. -/
def forLoop (body : Nat → σ → Except ε σ) : Nat → Nat → σ → Except ε σ
  | _, 0, s => .ok s
  | i, n + 1, s =>
      match body i s with
      | .ok s' => forLoop body (i + 1) n s'
      | .error e => .error e

/-- `P` holds of the final state, or `Q` of the exit value. -/
def Ends (r : Except ε σ) (P : σ → Prop) (Q : ε → Prop) : Prop :=
  match r with
  | .ok s => P s
  | .error e => Q e

/-- What every iteration preserves holds at the end of the loop. -/
theorem forEach_rule (body : Nat → σ → σ) (I : Nat → σ → Prop) {i n : Nat} {s : σ}
    (hstep : ∀ k t, i ≤ k → k < i + n → I k t → I (k + 1) (body k t)) (h : I i s) :
  I (i + n) (forEach body i n s)
  := by
  induction n generalizing i s with
  | zero => apply h
  | succ n ih =>
      have hnext := hstep i s (by omega) (by omega) h
      have hrest := ih (fun k t hk hk' => hstep k t (by omega) (by omega)) hnext
      rw [show i + 1 + n = i + (n + 1) by omega] at hrest
      apply hrest

/-- A loop with early exit ends in its invariant, or leaves with what each iteration
guarantees on leaving. -/
theorem forLoop_rule (body : Nat → σ → Except ε σ) (I : Nat → σ → Prop) {Q : ε → Prop}
    {i n : Nat} {s : σ}
    (hstep : ∀ k t, i ≤ k → k < i + n → I k t → Ends (body k t) (I (k + 1)) Q) (h : I i s) :
  Ends (forLoop body i n s) (I (i + n)) Q
  := by
  induction n generalizing i s with
  | zero => apply h
  | succ n ih =>
      have hnext := hstep i s (by omega) (by omega) h
      unfold forLoop
      cases hbody : body i s with
      | error e =>
          rw [hbody] at hnext
          apply hnext
      | ok s' =>
          rw [hbody] at hnext
          have hrest := ih (fun k t hk hk' => hstep k t (by omega) (by omega)) hnext
          rw [show i + 1 + n = i + (n + 1) by omega] at hrest
          apply hrest

/-- What a loop ends with can be weakened. -/
theorem Ends.mono {r : Except ε σ} {P P' : σ → Prop} {Q Q' : ε → Prop} (h : Ends r P Q)
    (hP : ∀ s, P s → P' s) (hQ : ∀ e, Q e → Q' e) :
  Ends r P' Q'
  := by
  cases r with
  | ok s => apply hP _ h
  | error e => apply hQ _ h

end Loop
