import Argand.Equation
import Argand.Expr.Grammar

/-!
# Answers

An entered text is a formula, which has a value, or an equation, which has a solution. Formulas of
every depth are worked on, as if there were no end to the stack of calls; `Traced.onStack` is what
comes of a text where there is one.

## Main definitions

* `Argand.Formula.read`: the formula of a text.
* `Argand.Formula.evaluate`: the value of a text in a scope, without simplification.
* `Argand.Answer`: a value or a solution.
* `Argand.sides`: the sides of an equation.
* `Argand.answer`: the answer to an entered text in a scope.
* `Argand.resolve`: the answer and the scope afterwards.
-/

namespace Argand

variable {α : Type} (A : Arithmetic α)

namespace Formula

/-- The **formula** of a text under a depth limit, which is looked up once the text is known to
have tokens. -/
def read (limit : Except Fault DepthLimit) (source : String) : Traced α (Expr α) := do
  let tokens ← (tokenize source : Except Fault _)
  let limit ← limit
  Traced.note (.tokens tokens)
  let rule := Grammar.formula A limit (!tokens.isEmpty)
  let tree ← (rule (Cursor.start tokens)).toExcept
  Traced.note (.tree tree)
  return tree

/-- The value of a text in a scope, **evaluated** as it stands. -/
def evaluate (limit : Except Fault DepthLimit) (source : String) (scope : Scope α) :
    Traced α (Value α) := do
  let tree ← read A limit source
  (tree.evaluate A scope : Except Fault _)

/-- The formula of a text, **simplified** in a scope. -/
def simplified (limit : Except Fault DepthLimit) (scope : Scope α) (source : String) :
    Traced α (Expr α) := do
  let tree ← read A limit source
  (tree.simplify A scope : Except Fault _)

end Formula

/-- The **answer** to an entered text. -/
inductive Answer (α : Type) where
  | value (v : Value α)
  | solution (s : Solution α)
deriving Repr

/-- The answer to an **equation** with simplified sides, one of which has the unknown. -/
def answerEquation (scope : Scope α) (left right : Expr α) : Traced α (Solution α) :=
  if left.hasVariable && !right.hasVariable then Equation.solve A left right scope
  else if right.hasVariable && !left.hasVariable then Equation.solve A right left scope
  else Traced.fail .notOneSided

/-- The **sides** of an entered text: what stands between its equality signs. -/
def sides (source : String) : List String :=
  (source.toList.splitOn '=').map String.ofList

/-- The **answer** to an entered text in a scope: a text with one equality sign is an equation,
one without is a formula. -/
def answer (limit : Except Fault DepthLimit) (source : String) (scope : Scope α) :
    Traced α (Answer α) := do
  match sides source with
  | [left, right] => do
    let left ← Formula.simplified A limit scope left
    let right ← Formula.simplified A limit scope right
    return .solution (← answerEquation A scope left right)
  | [formula] => do
    let e ← Formula.simplified A limit scope formula
    return .value (← (e.evaluate A scope : Except Fault _))
  | _ => Traced.fail (.severalEqualities source)

/-- Work **on a stack** of calls, which is refused as nested too deeply where the stack does not
hold all of its calls. How many calls a stack holds is up to what runs them. -/
def Traced.onStack {β : Type} (holds : Bool) (work : Traced α β) : Traced α β :=
  if holds then work else .fail .nestingExhausted

/-! ### Scopes -/

/-- The scope **after** an answer: a solution stays in it. -/
def Answer.scopeAfter (scope : Scope α) : Answer α → Scope α
  | .value _ => scope
  | .solution s => scope.bind s

/-- What came of **resolving** a text. -/
structure Resolution (α : Type) where
  outcome : Except Fault (Answer α)
  scope : Scope α
  notes : List (Note α)

/-- What comes of a text that was **answered** in a scope: a solution stays in it. -/
def Resolution.ofAnswer (scope : Scope α) (answered : Traced α (Answer α)) : Resolution α :=
  match answered.outcome with
  | .error f => ⟨.error f, scope, answered.notes⟩
  | .ok a => ⟨.ok a, a.scopeAfter scope, answered.notes⟩

/-- An entered text **resolved** in a scope: it is answered, and a solution stays in the scope. -/
def resolve (limit : Except Fault DepthLimit) (source : String) (scope : Scope α) :
    Resolution α :=
  .ofAnswer scope (answer A limit source scope)

end Argand
