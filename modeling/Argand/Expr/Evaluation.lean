import Argand.Expr.Basic

/-!
# Evaluation of formulas

The value of a formula when every variable in it has one. An operator on single numbers gives a
single number; if one of its operands is a list, or the operator is `±`, it is lifted to all
combinations.

## Main definitions

* `Argand.Expr.operate`: an operator on two values.
* `Argand.Expr.value`: the value of a tree.
* `Argand.Expr.evaluate`: the same, with its own fault for something that is no formula.
-/

namespace Argand.Expr

variable {α : Type} (A : Arithmetic α)

/-- Sum and difference of two numbers. -/
def plusMinus (a b : α) : Except Fault (Value α) := do
  return .many [← A.add a b, ← A.subtract a b]

/-- An **operator** on two values. -/
def operate (op : Operator) (x y : Value α) : Except Fault (Value α) :=
  match op with
  | .add => combineValues A.equals A.add x y
  | .subtract => combineValues A.equals A.subtract x y
  | .multiply => combineValues A.equals A.multiply x y
  | .divide => combineValues A.equals A.divide x y
  | .power => combineValues A.equals A.power x y
  | .plusMinus => (lift A.equals (plusMinus A) x y).map .many
  | .other symbol => .error (.unknownOperator symbol)

/-- The value of a leaf. -/
def atomValue (scope : Scope α) : Atom α → Except Fault (Value α)
  | .number a => .ok (A.contents a)
  | .scaled name c =>
    match scope.value? name with
    | some v => v.mapM (A.multiply c)
    | none => .error (.unbound name)
  | .constant name =>
    match A.constant? name with
    | some a => .ok (.one a)
    | none => .error (.noSuchConstant name)
  | .list items => .ok (.many items)
  | .stray a => .error (.noMember (A.kind a) "evaluate")

/-- The **value** of a tree; the left operand of an operator comes first. -/
def value (scope : Scope α) : Expr α → Except Fault (Value α)
  | atom a => atomValue A scope a
  | node l op r => do
    let x ← l.value scope
    let y ← r.value scope
    operate A op x y

/-- The **value** of a formula; a stray thing is not one. -/
def evaluate (scope : Scope α) : Expr α → Except Fault (Value α)
  | .atom (.stray a) => .error (.invalidNode (A.describe a))
  | e => e.value A scope

/-- All **roots** of a formula without variables for an index. -/
def roots (e : Expr α) (index : α) : Except Fault (Expr α) := do
  let v ← e.value A []
  return ofItems (← lift A.equals (fun a n => (A.roots a n).map .many) v (A.contents index))

/-- The logarithms of a formula's values. -/
def logarithm (scope : Scope α) (e : Expr α) : Except Fault (Expr α) := do
  match ← e.evaluate A scope with
  | .one a => return number (← A.log a)
  | .many items => return .atom (.list (← items.mapM A.log))

end Argand.Expr
