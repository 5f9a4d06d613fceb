import Argand.Equation
import Argand.Proofs.Computation

/-!
# The steps of a solution

`Isolates A scope left right s` says how an equation is solved: either the unknown stands alone
on the left, or one operator around it is undone and what is left is solved. Facts about
solutions are proved by induction over these steps.

## Main definitions

* `Argand.Isolates`: the steps.

## Main results

* `Argand.isolates_of_isolate`: every solution is reached by steps.
-/

namespace Argand

variable {α : Type} (A : Arithmetic α) (scope : Scope α)

/-- The **steps** from the two sides of an equation to a solution. -/
inductive Isolates : Expr α → Expr α → Solution α → Prop
  | alone {x : String} {c : α} {right : Expr α} {w v u : Value α} :
      right.hasVariable = false → right.evaluate A scope = .ok w →
      (Expr.ofValue w).evaluate A scope = .ok v → v.mapM (A.divide · c) = .ok u →
      Isolates (.scaled x c) right ⟨x, u⟩
  | undone {a b right l r l' r' : Expr α} {op : Operator} {w : Value α} {s : Solution α} :
      right.hasVariable = false → (a.hasVariable || b.hasVariable) = true →
      (a.hasVariable && b.hasVariable) = false → right.evaluate A scope = .ok w →
      Equation.undo A scope a.hasVariable a op b (Expr.ofValue w) = .ok (l, r) →
      l.simplify A scope = .ok l' → r.simplify A scope = .ok r' → Isolates l' r' s →
      Isolates (.node a op b) right s

variable {A scope}

/-- **A solution is reached by steps.** -/
theorem isolates_of_isolate {steps : Nat} {left right : Expr α} {s : Solution α}
    (h : (Equation.isolate A scope steps left right).outcome = .ok s) :
    Isolates A scope left right s := by
  induction steps generalizing left right with
  | zero => cases h
  | succ steps ih =>
      rw [Equation.isolate, Traced.outcome_bind, Traced.outcome_note, bind_eq_ok] at h
      obtain ⟨_, -, h⟩ := h
      cases hr : right.hasVariable with
      | true => simp [hr] at h
      | false =>
      cases hl : left.hasVariable with
      | false => simp [hr, hl] at h
      | true =>
      simp only [hr, hl, Bool.false_eq_true, if_false, Bool.not_true, Traced.outcome_bind] at h
      obtain ⟨w, hw, h⟩ := bind_eq_ok.mp h
      have hw : right.evaluate A scope = .ok w := hw
      cases left with
      | atom x =>
          cases x with
          | scaled x c =>
              simp only [Traced.outcome_bind, Traced.outcome_pure] at h
              obtain ⟨v, hv, h⟩ := bind_eq_ok.mp h
              obtain ⟨u, hu, h⟩ := bind_eq_ok.mp h
              obtain rfl := Except.ok.inj h
              exact .alone hr hw hv hu
          | _ => cases h
      | node a op b =>
          cases hab : a.hasVariable && b.hasVariable with
          | true => simp [hab] at h
          | false =>
              simp only [hab, Bool.false_eq_true, if_false, Traced.outcome_bind] at h
              obtain ⟨⟨l, r⟩, hundo, h⟩ := bind_eq_ok.mp h
              obtain ⟨l', hl', h⟩ := bind_eq_ok.mp h
              obtain ⟨r', hr', h⟩ := bind_eq_ok.mp h
              exact .undone hr hl hab hw hundo hl' hr' (ih h)

/-- The right side of an equation that is solved has a value. -/
theorem Isolates.evaluate_right {left right : Expr α} {s : Solution α}
    (h : Isolates A scope left right s) : ∃ w, right.evaluate A scope = .ok w := by
  cases h with
  | alone _ hw _ _ => exact ⟨_, hw⟩
  | undone _ _ _ hw _ _ _ _ => exact ⟨_, hw⟩

/-- What a formula that is no stray thing evaluates to is its value. -/
theorem value_of_evaluate {e : Expr α} {w : Value α} (h : e.evaluate A scope = .ok w) :
    e.value A scope = .ok w := by
  unfold Expr.evaluate at h
  split at h
  · cases h
  · exact h

end Argand
