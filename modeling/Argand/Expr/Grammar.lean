import Argand.Expr.Basic
import Argand.Token

/-!
# The grammar of formulas

Tokens are read by rules, one for each level of precedence:

* an expression is a sum, perhaps followed by a further expression as a factor;
* a sum is a chain of products joined by `+` and `-`;
* a product is a chain of powers joined by `*` and `/`, perhaps followed by a further product as
  a factor, so `2x y` is `2 * (x * y)`;
* a power is a value, perhaps raised to an exponent, which takes a following product along, so
  `2^3x` is `2 ^ (3 * x)`;
* a value is an expression in brackets, a constant, a variable, a numeral, or the negative of a
  value, which is read as zero minus it.

A cursor stands in the token list. It keeps the nesting depth too: a rule that nests counts one
level while it runs, and each link of a chain counts one level to the end of the chain. A rule
that fails leaves the cursor where it failed.

Each rule is given a budget of nested calls; `Grammar.budget` is always enough.

## Main definitions

* `Argand.DepthLimit`, `Argand.Cursor`, `Argand.Outcome`, `Argand.Rule`.
* `Argand.Grammar.expression`, …: the rules under a budget.
* `Argand.Cursor.parse`: a whole formula.
-/

namespace Argand

/-! ### Cursors -/

/-- How deep formulas may nest, and the fault of one that nests deeper. Without a bound every
depth is allowed. -/
structure DepthLimit where
  bound : Option Int
  fault : Fault
deriving DecidableEq, Repr

/-- A whole number as limit. -/
def DepthLimit.ofInt (n : Int) : DepthLimit :=
  ⟨some n, .tooDeep (toString n)⟩

/-- Whether a depth is allowed. -/
def DepthLimit.allows (l : DepthLimit) (depth : Nat) : Bool :=
  match l.bound with
  | some n => decide ((depth : Int) ≤ n)
  | none => true

/-- A **cursor** in a token list. -/
structure Cursor where
  rest : List Token
  consumed : Nat
  depth : Nat
deriving DecidableEq, Repr

/-- The cursor at the start of a token list. -/
def Cursor.start (tokens : List Token) : Cursor :=
  ⟨tokens, 0, 0⟩

/-- The token at the cursor. -/
def Cursor.current? (c : Cursor) : Option Token :=
  c.rest.head?

/-- The token after the one at the cursor. -/
def Cursor.following? (c : Cursor) : Option Token :=
  c.rest.tail.head?

/-- The cursor one token on. -/
def Cursor.advance (c : Cursor) : Cursor :=
  { c with rest := c.rest.tail, consumed := c.consumed + 1 }

/-- A token that can begin a value, so that directly after a value it means a product. -/
def TokenKind.beginsValue : TokenKind → Bool
  | .opening _ | .constant | .letter | .number => true
  | _ => false

/-- Whether a value can begin at the cursor. -/
def Cursor.atValue (c : Cursor) : Bool :=
  c.current?.any (·.kind.beginsValue)

/-- The operator at the cursor, if it is among some operators. -/
def Cursor.operator? (c : Cursor) (among : List Operator) : Option Operator :=
  c.current?.bind fun t =>
    let op := Operator.ofSymbol t.text
    if t.kind = .operator && among.contains op then some op else none

/-! ### Rules -/

/-- The **outcome** of a rule: a result or a fault, and the cursor where it ended. -/
inductive Outcome (β : Type) where
  | done (result : β) (cursor : Cursor)
  | failed (fault : Fault) (cursor : Cursor)
deriving Repr

namespace Outcome

variable {β : Type}

/-- The cursor where a rule ended. -/
def cursor : Outcome β → Cursor
  | done _ c => c
  | failed _ c => c

/-- The result or fault of a rule. -/
def toExcept : Outcome β → Except Fault β
  | done b _ => .ok b
  | failed f _ => .error f

/-- The same outcome with the cursor changed. -/
def mapCursor (g : Cursor → Cursor) : Outcome β → Outcome β
  | done b c => done b (g c)
  | failed f c => failed f (g c)

end Outcome

/-- A **rule** reads tokens from a cursor on. -/
abbrev Rule (β : Type) := Cursor → Outcome β

namespace Rule

variable {β γ : Type}

/-- The result `b` without reading. -/
def pure (b : β) : Rule β := fun c => .done b c

/-- One rule after another; a fault ends both. -/
def andThen (p : Rule β) (q : β → Rule γ) : Rule γ := fun c =>
  match p c with
  | .done b c => q b c
  | .failed f c => .failed f c

instance : Monad Rule where
  pure := pure
  bind := andThen

/-- A fault at the cursor. -/
def fail (f : Fault) : Rule β := fun c => .failed f c

/-- The cursor. -/
def cursor : Rule Cursor := fun c => .done c c

/-- The token at the cursor is read. -/
def eat : Rule Token := fun c =>
  match c.current? with
  | some t => .done t c.advance
  | none => .failed .missingNumber c

/-- One level deeper, if the limit allows it; the level is counted even if not. -/
def deepen (l : DepthLimit) : Rule Unit := fun c =>
  let c := { c with depth := c.depth + 1 }
  if l.allows c.depth then .done () c else .failed l.fault c

/-- A rule that runs **one level deeper**. The level is given back when it ends; one that was
refused is not. -/
def nested (l : DepthLimit) (p : Rule β) : Rule β := fun c =>
  match deepen l c with
  | .done _ c => (p c).mapCursor fun c => { c with depth := c.depth - 1 }
  | .failed f c => .failed f c

/-- A rule whose **chain** of links gives back all its levels when it ends. -/
def chained (p : Rule β) : Rule β := fun c =>
  (p c).mapCursor fun c' => { c' with depth := c.depth }

end Rule

/-! ### The rules of the grammar -/

namespace Grammar

variable {α : Type}

/-- The letters of constants, which name no variable. -/
def reservedNames : List String := ["e", "i"]

/-- The names of variables: the other letters in lower case. -/
def variableNames : List String :=
  ("abcdefghijklmnopqrstuvwxyz".toList.map Char.toString).filter (!reservedNames.contains ·)

/-- A variable in lower case; its name must not be reserved. -/
def variableNode (A : Arithmetic α) (t : Token) : Rule (Expr α) :=
  let name := t.text.toLower
  if reservedNames.contains name then Rule.fail (.reservedName t.text t.position)
  else pure (Expr.scaled name A.one)

/-- The closing bracket that belongs to an opening one is read. -/
def closeBracket (opening : Token) (b : Bracket) : Rule Unit := fun c =>
  match c.current? with
  | some t =>
    if t.kind = .closing b then .done () c.advance
    else .failed (.missingClosing opening.text opening.position) c
  | none => .failed (.missingClosing opening.text opening.position) c

variable (A : Arithmetic α) (l : DepthLimit)

mutual

/-- A sum, perhaps followed by a factor. -/
def expression : Nat → Rule (Expr α)
  | 0 => Rule.fail .nestingExhausted
  | n + 1 => do
    let left ← addition n
    if (← Rule.cursor).atValue then return .node left .multiply (← expression n)
    return left

/-- A chain of products. -/
def addition : Nat → Rule (Expr α)
  | 0 => Rule.fail .nestingExhausted
  | n + 1 => do
    let first ← multiplication n
    Rule.chained (additionLinks n first)

/-- The links of a chain of products, of which the tree so far is given. -/
def additionLinks : Nat → Expr α → Rule (Expr α)
  | 0, _ => Rule.fail .nestingExhausted
  | n + 1, tree => do
    match (← Rule.cursor).operator? [.add, .subtract] with
    | some op =>
      Rule.deepen l
      let _ ← Rule.eat
      let right ← multiplication n
      additionLinks n (.node tree op right)
    | none => return tree

/-- A chain of powers, perhaps followed by a factor. -/
def multiplication : Nat → Rule (Expr α)
  | 0 => Rule.fail .nestingExhausted
  | n + 1 =>
    Rule.nested l <| Rule.chained do
      let first ← power n
      multiplicationLinks n first

/-- The links of a chain of powers, of which the tree so far is given. -/
def multiplicationLinks : Nat → Expr α → Rule (Expr α)
  | 0, _ => Rule.fail .nestingExhausted
  | n + 1, tree => do
    let c ← Rule.cursor
    match c.operator? [.multiply, .divide] with
    | some op =>
      Rule.deepen l
      let _ ← Rule.eat
      let right ← power n
      multiplicationLinks n (.node tree op right)
    | none =>
      if c.atValue then return .node tree .multiply (← multiplication n)
      return tree

/-- A value, perhaps raised to an exponent. -/
def power : Nat → Rule (Expr α)
  | 0 => Rule.fail .nestingExhausted
  | n + 1 =>
    Rule.nested l do
      let base ← value n
      match (← Rule.cursor).operator? [.power] with
      | some _ =>
        let _ ← Rule.eat
        let exponent ← powerValue n
        return .node base .power exponent
      | none => return base

/-- An exponent: a power, perhaps followed by a factor. -/
def powerValue : Nat → Rule (Expr α)
  | 0 => Rule.fail .nestingExhausted
  | n + 1 => do
    let exponent ← power n
    if (← Rule.cursor).atValue then return .node exponent .multiply (← multiplication n)
    return exponent

/-- A value. -/
def value : Nat → Rule (Expr α)
  | 0 => Rule.fail .nestingExhausted
  | n + 1 =>
    Rule.nested l do
      match (← Rule.cursor).current? with
      | none => Rule.fail .missingNumber
      | some t =>
        match t.kind with
        | .opening b =>
          let _ ← Rule.eat
          let inner ← expression n
          closeBracket t b
          return inner
        | .constant =>
          let _ ← Rule.eat
          return .atom (.constant t.text)
        | .letter =>
          let _ ← Rule.eat
          variableNode A t
        | .number =>
          let _ ← Rule.eat
          return Expr.number (A.literal t.text)
        | .operator =>
          if t.text = "-" then
            let _ ← Rule.eat
            return .node (Expr.number A.zero) .subtract (← value n)
          else Rule.fail (.unexpectedToken t.text t.position)
        | .closing _ => Rule.fail (.unexpectedToken t.text t.position)

end

/-- A number of nested calls that is always **enough**: between two tokens at most six rules call
one another. -/
def budget (c : Cursor) : Nat :=
  6 * c.rest.length + 6

/-- The names of the rules. -/
inductive Name where
  | expression
  | addition
  | multiplication
  | power
  | powerValue
  | value
deriving DecidableEq, Repr

/-- The rule of a name under a budget. -/
def rule : Name → Nat → Rule (Expr α)
  | .expression => expression A l
  | .addition => addition A l
  | .multiplication => multiplication A l
  | .power => power A l
  | .powerValue => powerValue A l
  | .value => value A l

/-- A **rule of the grammar** at a cursor, with enough budget. -/
def apply (name : Name) : Rule (Expr α) := fun c =>
  rule A l name (budget c) c

/-- Nothing may be left after a formula. -/
def finish : Rule Unit := fun c =>
  match c.current? with
  | none => .done () c
  | some t =>
    match t.kind with
    | .closing _ => .failed (.missingOpening t.text t.position) c
    | _ => .failed (.unexpectedToken t.text t.position) c

/-- The **formula** from the cursor to the end. `any` tells whether there are tokens at all. -/
def formula (any : Bool) : Rule (Expr α) := do
  if !any then Rule.fail .missingNumber
  else
    let tree ← apply A l .expression
    finish
    return tree

end Grammar

end Argand
