import Argand.Expr.Evaluation
import Argand.Expr.Simplification
import Argand.Traced

/-!
# Equations

The unknown of an equation is isolated by undoing the operators around it, outermost first. The
side with the unknown stands on the left and is simplified before every step; the other side is
reduced to its value. Each step moves one operand over:

* from `a + u = r` to `u = r - a`, and so on for the other operators;
* from `a / u = r` to `r * u = a`, with the unknown still on the left;
* from `u ^ n = r` to `u =` all `n`-th roots of `r`;
* from `b ^ u = r` to `u = log r / log b`.

## Main definitions

* `Argand.Solution`: a name and its value.
* `Argand.Equation.undo`: the two sides after one step.
* `Argand.Equation.isolate`: the steps.
* `Argand.Equation.solve`: the solution of an equation in a scope.
-/

namespace Argand

/-- A **solution**: the unknown and what it is equal to. -/
structure Solution (α : Type) where
  name : String
  value : Value α
deriving Repr

/-- A scope in which a solution holds. -/
def Scope.bind {α : Type} (scope : Scope α) (s : Solution α) : Scope α :=
  Entries.insert scope s.name (some s.value)

/-- A solution **kept** in a scope, which has to be there. -/
def Solution.keptIn {α : Type} (s : Solution α) : Option (Scope α) → Except Fault (Scope α)
  | some scope => .ok (scope.bind s)
  | none => .error (.notAScope Json.null.kind)

namespace Equation

variable {α : Type} (A : Arithmetic α)

/-- One over a formula. -/
def reciprocal (e : Expr α) : Expr α :=
  .node (Expr.number A.one) .divide e

/-- The two sides **after one step**, for an operator on the left with the unknown in one of its
operands: in the first one if `inFirst`, else in the second. The right side is a value. -/
def undo (scope : Scope α) (inFirst : Bool) (a : Expr α) (op : Operator) (b right : Expr α) :
    Except Fault (Expr α × Expr α) :=
  match op, inFirst with
  | .power, true =>
    match b with
    | .atom (.number n) => do return (a, ← right.roots A n)
    | _ => return (a, .node right .power (reciprocal A b))
  | .power, false => do
    let x ← right.logarithm A scope
    let y ← a.logarithm A scope
    return (b, .node x .divide y)
  | .multiply, true => return (a, .node right .divide b)
  | .multiply, false => return (b, .node right .divide a)
  | .divide, true => return (a, .node right .multiply b)
  | .divide, false => return (.node right .multiply b, a)
  | .add, true => return (a, .node right .subtract b)
  | .add, false => return (b, .node right .subtract a)
  | .subtract, true => return (a, .node right .add b)
  | .subtract, false => return (b, .node a .subtract right)
  | .plusMinus, true => return (a, .node right .plusMinus b)
  | .plusMinus, false =>
    return (b, .node (Expr.number A.zero) .plusMinus (.node right .subtract a))
  | .other _, _ => .error (.notIsolable ((Expr.node a op b).describe A))

/-- The unknown **isolated** from two simplified sides, in at most the given number of steps. -/
def isolate (scope : Scope α) : Nat → Expr α → Expr α → Traced α (Solution α)
  | 0, left, _ => Traced.fail (.notIsolable (left.describe A))
  | steps + 1, left, right => do
    Traced.note (.equation left right)
    if right.hasVariable then Traced.fail .unknownOnRight
    else if !left.hasVariable then Traced.fail .noSolution
    else
      let value := Expr.ofValue (← right.evaluate A scope)
      match left with
      | .atom (.scaled name c) => do
        let v ← (value.evaluate A scope : Except Fault _)
        return ⟨name, ← (v.mapM (A.divide · c) : Except Fault _)⟩
      | .atom _ => Traced.fail .noSolution
      | .node a op b =>
        if a.hasVariable && b.hasVariable then Traced.fail (.notLinear op.symbol)
        else do
          let (left, right) ← undo A scope a.hasVariable a op b value
          let left ← left.simplify A scope
          let right ← right.simplify A scope
          isolate scope steps left right

/-- A number of steps that is **enough** for a simplified left side: each step undoes one
operator above the unknown, and a divisor with the unknown in it costs one more. -/
def stepBound (left : Expr α) : Nat :=
  4 * (left.size + 1)

/-- The **solution** of an equation whose left side has the unknown. -/
def solve (left right : Expr α) (scope : Scope α) : Traced α (Solution α) := do
  let left ← left.simplify A scope
  let right ← right.simplify A scope
  isolate A scope (stepBound left) left right

end Equation

end Argand
