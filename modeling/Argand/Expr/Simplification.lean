import Argand.Expr.Basic

/-!
# Simplification of formulas

Variables with a value are replaced by it, numbers are folded, and what remains is kept in a form
in which sums are spread out over factors, a number stands in at most one factor of a product,
and powers of products, quotients and powers are resolved. Each operator has one rule, which
takes operands that are simplified already and recurs only into their parts:

* `combine` adds and subtracts. A number is folded with a number inside a sum.
* `divide` divides. A quotient of a sum is spread out.
* `multiply` multiplies. A leaf is multiplied into the other factor, from the side on which it
  stands.
* `raise` takes powers.

## Main definitions

* `Argand.Simplify.combine`, `divide`, `multiply`, `raise`: the rules.
* `Argand.Expr.simplify`: a formula simplified in a scope.
-/

namespace Argand

namespace Simplify

variable {α : Type} (A : Arithmetic α)

/-! ### Leaves -/

/-- Whether a leaf is a number equal to `b`. -/
def isNumber (b : α) : Atom α → Except Fault Bool
  | .number a => A.equals a b
  | _ => .ok false

/-- Whether a formula is a number equal to `b`. -/
def isNumberExpr (b : α) : Expr α → Except Fault Bool
  | .atom a => isNumber A b a
  | _ => .ok false

/-- A number times a formula: nothing for zero, the formula itself for one. -/
def scaledBy (c : α) (e : Expr α) : Except Fault (Expr α) := do
  if ← A.equals c A.zero then return Expr.number A.zero
  if ← A.equals c A.one then return e
  return .node (Expr.number c) .multiply e

/-- A variable without a factor. -/
def plain (name : String) : Expr α :=
  Expr.scaled name A.one

/-! ### Sums -/

/-- The sum or difference of two numbers. -/
def apply (s : Sign) (a b : α) : Except Fault α :=
  match s with
  | .plus => A.add a b
  | .minus => A.subtract a b

/-- A number or its negative. -/
def signed (s : Sign) (a : α) : Except Fault α :=
  match s with
  | .plus => .ok a
  | .minus => A.negate a

/-- Whether a number in front of a sign can be left out: a zero before a plus sign. -/
def isNeutral (s : Sign) (n : α) : Except Fault Bool :=
  match s with
  | .plus => A.equals n A.zero
  | .minus => .ok false

/-- The sum or difference of a number and a formula. A number in a sum on the right is folded
with it, and what is left of that sum comes to the right in its place. -/
def combineNumber (s : Sign) (n : α) : Expr α → Except Fault (Expr α)
  | .atom (.number m) => return Expr.number (← apply A s n m)
  | .atom a => do
    if ← isNeutral A s n then return .atom a
    return .node (Expr.number n) s.operator (.atom a)
  | .node a op b => do
    if ← isNeutral A s n then return .node a op b
    match op.sign?, a, b with
    | some inner, .atom (.number x), _ =>
      combineNumber (s.times inner) (← A.add n (← signed A s x)) b
    | some inner, _, .atom (.number y) =>
      combineNumber s (← A.add n (← signed A (s.times inner) y)) a
    | _, _, _ => return .node (Expr.number n) s.operator (.node a op b)

/-- The **sum or difference** of two formulas. -/
def combine (s : Sign) (l r : Expr α) : Except Fault (Expr α) :=
  match l, r with
  | .atom (.number n), _ => combineNumber A s n r
  | .atom a, .atom (.number m) => do
    if ← A.equals m A.zero then return .atom a
    return .node (.atom a) s.operator r
  | .node a op b, .atom (.number m) => do
    if ← A.equals m A.zero then return l
    match op.sign?, a, b with
    | some inner, .atom (.number x), _ =>
      combineNumber A inner (← A.add x (← signed A s m)) b
    | some inner, _, .atom (.number y) =>
      combineNumber A .plus (← A.add (← signed A inner y) (← signed A s m)) a
    | _, _, _ => return .node l s.operator r
  | _, _ => .ok (.node l s.operator r)

/-! ### Quotients -/

/-- The quotient of two leaves. -/
def divideAtoms (x y : Atom α) : Except Fault (Expr α) := do
  match x, y with
  | .number a, .number b => return Expr.number (← A.divide a b)
  | _, _ =>
    if ← isNumber A A.one y then return .atom x
    match x, y with
    | .scaled v a, .scaled w b =>
      let ratio ← A.divide a b
      if v = w then return Expr.number ratio
      scaledBy A ratio (.node (plain A v) .divide (plain A w))
    | .scaled v a, .number b => return Expr.scaled v (← A.divide a b)
    | _, _ => return .node (.atom x) .divide (.atom y)

/-- The **quotient** of a formula by a leaf. A sum is divided term by term. -/
def divideByAtom (y : Atom α) : Expr α → Except Fault (Expr α)
  | .atom x => divideAtoms A x y
  | .node a op b => do
    if ← isNumber A A.one y then return .node a op b
    match op.sign? with
    | some s =>
      let left ← divideByAtom y a
      let right ← divideByAtom y b
      combine A s left right
    | none => return .node (.node a op b) .divide (.atom y)

/-- The **quotient** of two formulas. -/
def divide (l : Expr α) : Expr α → Except Fault (Expr α)
  | .atom y => divideByAtom A y l
  | r => .ok (.node l .divide r)

/-! ### Products -/

/-- The side on which a factor stands. -/
inductive Side where
  | left
  | right
deriving DecidableEq, Repr

/-- The product of two leaves. -/
def multiplyAtoms (x y : Atom α) : Except Fault (Expr α) := do
  match x, y with
  | .number a, .number b => return Expr.number (← A.multiply a b)
  | _, _ =>
    if ← isNumber A A.one x then return .atom y
    if ← isNumber A A.one y then return .atom x
    if ← isNumber A A.zero x then return Expr.number A.zero
    if ← isNumber A A.zero y then return Expr.number A.zero
    match x, y with
    | .scaled v a, .scaled w b =>
      let c ← A.multiply a b
      if v = w then scaledBy A c (.node (plain A v) .power (Expr.number A.two))
      else scaledBy A c (.node (plain A v) .multiply (plain A w))
    | .scaled v a, .number b => return Expr.scaled v (← A.multiply a b)
    | .number a, .scaled w b => return Expr.scaled w (← A.multiply a b)
    | _, _ => return .node (.atom x) .multiply (.atom y)

/-- A number times a leaf that takes up the number: a number or a multiple of a variable. For any
other leaf, and for an operator, there is no result. -/
def absorb (n : α) : Expr α → Except Fault (Option (Atom α))
  | .atom (.number m) => return some (.number (← A.multiply n m))
  | .atom (.scaled v c) => do
    if ← A.equals n A.one then return some (.scaled v c)
    if ← A.equals n A.zero then return some (.number A.zero)
    return some (.scaled v (← A.multiply n c))
  | _ => .ok none

/-- The product of a leaf and a formula, the leaf on a given side. A sum is multiplied term by
term; a number goes into the first factor of a product, or the dividend of a quotient, that
takes it up. -/
def multiplyAtom (side : Side) (x : Atom α) : Expr α → Except Fault (Expr α)
  | .atom y =>
    match side with
    | .left => multiplyAtoms A x y
    | .right => multiplyAtoms A y x
  | .node a op b => do
    let whole := Expr.node a op b
    if ← isNumber A A.one x then return whole
    if ← isNumber A A.zero x then return Expr.number A.zero
    match x, op.sign? with
    | .number n, some s =>
      let left ← multiplyAtom .left (.number n) a
      let right ← multiplyAtom .left (.number n) b
      combine A s left right
    | .number n, none =>
      match op with
      | .multiply =>
        if let some leaf ← absorb A n a then return ← multiplyAtom .left leaf b
        if let some leaf ← absorb A n b then return ← multiplyAtom .right leaf a
        return .node (Expr.number n) .multiply whole
      | .divide =>
        if let some leaf ← absorb A n a then return ← divide A (.atom leaf) b
        return .node (Expr.number n) .multiply whole
      | _ => return .node (Expr.number n) .multiply whole
    | x, some s =>
      let left ← multiplyAtom side x a
      let right ← multiplyAtom side x b
      combine A s left right
    | x, none =>
      match side with
      | .left => return .node (.atom x) .multiply whole
      | .right => return .node whole .multiply (.atom x)

/-- The **product** of two formulas. -/
def multiply (l r : Expr α) : Except Fault (Expr α) :=
  match l, r with
  | .atom x, _ => multiplyAtom A .left x r
  | _, .atom y => multiplyAtom A .right y l
  | _, _ => .ok (.node l .multiply r)

/-! ### Powers -/

/-- The **power** of two formulas. Products and quotients are raised factor by factor, and the
power of a power multiplies the exponents. -/
def raise : Expr α → Expr α → Except Fault (Expr α)
  | l, r => do
    if ← isNumberExpr A A.zero r then return Expr.number A.one
    if ← isNumberExpr A A.one r then return l
    match l, r with
    | .atom (.number a), .atom (.number b) => return Expr.number (← A.power a b)
    | .node a .multiply b, r =>
      let left ← raise a r
      let right ← raise b r
      multiply A left right
    | .node a .divide b, r =>
      let left ← raise a r
      let right ← raise b r
      divide A left right
    | .node a .power b, r => raise a (← multiply A b r)
    | l, r => return .node l .power r

/-! ### Formulas -/

/-- The rule of an operator on simplified operands. Operators without a rule keep them. -/
def rule (op : Operator) (l r : Expr α) : Except Fault (Expr α) :=
  match op with
  | .add => combine A .plus l r
  | .subtract => combine A .minus l r
  | .multiply => multiply A l r
  | .divide => divide A l r
  | .power => raise A l r
  | op => .ok (.node l op r)

/-- A leaf simplified: a variable with a value is replaced by its multiple of that value. -/
def atom (scope : Scope α) : Atom α → Except Fault (Expr α)
  | .scaled name c =>
    match scope.value? name with
    | none => .ok (Expr.scaled name c)
    | some v => do return Expr.ofValue (← v.mapM (A.multiply c))
  | a => .ok (.atom a)

end Simplify

/-- A formula **simplified** as far as a scope allows. -/
def Expr.simplify {α : Type} (A : Arithmetic α) (scope : Scope α) :
    Expr α → Except Fault (Expr α)
  | .atom a => Simplify.atom A scope a
  | .node l op r => do
    let left ← l.simplify A scope
    let right ← r.simplify A scope
    Simplify.rule A op left right

end Argand
