import Argand.Arithmetic

/-!
# Formulas

A formula is a tree whose inner nodes are operators and whose leaves are numbers, multiples of
variables, named constants, lists of values, and stray things that are no part of a formula and
make evaluation fail.

## Main definitions

* `Argand.Operator`: the five operators, the operator `±` and unknown ones.
* `Argand.Atom`: the leaves.
* `Argand.Expr`: the trees.
* `Argand.Expr.hasVariable`, `size`, `depth`: what solving needs to know of a tree.
* `Argand.Expr.describe`: a tree as messages show it.
-/

namespace Argand

/-! ### Operators -/

/-- The **operators**. -/
inductive Operator where
  | add
  | subtract
  | multiply
  | divide
  | power
  /-- `±`, both sum and difference -/
  | plusMinus
  /-- Any other symbol. It has no value. -/
  | other (symbol : String)
deriving DecidableEq, Repr

/-- The symbol of an operator. -/
def Operator.symbol : Operator → String
  | add => "+"
  | subtract => "-"
  | multiply => "*"
  | divide => "/"
  | power => "^"
  | plusMinus => "±"
  | other symbol => symbol

/-- The operator of a symbol. -/
def Operator.ofSymbol : String → Operator
  | "+" => add
  | "-" => subtract
  | "*" => multiply
  | "/" => divide
  | "^" => power
  | "±" => plusMinus
  | symbol => other symbol

theorem Operator.symbol_ofSymbol (s : String) : (ofSymbol s).symbol = s := by
  unfold ofSymbol
  split <;> rfl

/-- A **sign**: which of sum and difference is meant. -/
inductive Sign where
  | plus
  | minus
deriving DecidableEq, Repr

/-- The sign of an operator of a sum. -/
def Operator.sign? : Operator → Option Sign
  | add => some .plus
  | subtract => some .minus
  | _ => none

/-- The operator of a sign. -/
def Sign.operator : Sign → Operator
  | plus => .add
  | minus => .subtract

/-- The product of two signs. -/
def Sign.times : Sign → Sign → Sign
  | plus, s => s
  | minus, plus => minus
  | minus, minus => plus

/-! ### Trees -/

/-- The **leaves** of a formula. -/
inductive Atom (α : Type) where
  | number (a : α)
  | scaled (name : String) (coefficient : α)
  | constant (name : String)
  | list (items : List α)
  /-- Something that is no formula. -/
  | stray (a : α)
deriving Repr, DecidableEq

/-- A **formula**. -/
inductive Expr (α : Type) where
  | atom (a : Atom α)
  | node (left : Expr α) (op : Operator) (right : Expr α)
deriving Repr, DecidableEq

namespace Expr

variable {α : Type}

/-- A number as a formula. -/
@[match_pattern] abbrev number (a : α) : Expr α := .atom (.number a)

/-- A multiple of a variable as a formula. -/
@[match_pattern] abbrev scaled (name : String) (coefficient : α) : Expr α :=
  .atom (.scaled name coefficient)

/-- A value as a formula: a number if it is a single one, else a list. -/
def ofItems : List α → Expr α
  | [a] => number a
  | items => .atom (.list items)

/-- A value as a formula; a list of one is the number in it. -/
def ofValue : Value α → Expr α
  | .one a => number a
  | .many items => ofItems items

/-! ### What occurs in a tree -/

/-- Whether a variable occurs. -/
def hasVariable : Expr α → Bool
  | scaled .. => true
  | atom _ => false
  | node l _ r => l.hasVariable || r.hasVariable

/-- The names of the variables that occur, from left to right. -/
def names : Expr α → List String
  | scaled name _ => [name]
  | atom _ => []
  | node l _ r => l.names ++ r.names

/-- The number of leaves and operators. -/
def size : Expr α → Nat
  | atom _ => 1
  | node l _ r => l.size + r.size + 1

/-- The greatest number of operators above a leaf. -/
def depth : Expr α → Nat
  | atom _ => 0
  | node l _ r => max l.depth r.depth + 1

theorem hasVariable_iff (e : Expr α) : e.hasVariable = true ↔ e.names ≠ [] := by
  induction e with
  | atom a => cases a <;> simp [hasVariable, names]
  | node l op r ihl ihr =>
    simp only [hasVariable, names, Bool.or_eq_true, ihl, ihr, ne_eq, List.append_eq_nil_iff]
    exact Decidable.not_and_iff_not_or_not.symm

theorem hasVariable_eq_false (e : Expr α) : e.hasVariable = false ↔ e.names = [] := by
  rw [Bool.eq_false_iff, ne_eq, hasVariable_iff, Decidable.not_not]

/-! ### Description -/

/-- Several values as messages show a list of fixed length: one alone keeps its comma. -/
def describeList (A : Arithmetic α) : List α → String
  | [a] => "(" ++ A.describe a ++ ",)"
  | items => "(" ++ ", ".intercalate (items.map A.describe) ++ ")"

/-- A leaf as messages show it. -/
def describeAtom (A : Arithmetic α) : Atom α → String
  | .number a => "Number(value=" ++ A.describe a ++ ")"
  | .scaled name c =>
    "Variable(name=" ++ Text.quote name ++ ", coefficient=" ++ A.describe c ++ ")"
  | .constant name => "Constant(name=" ++ Text.quote name ++ ")"
  | .list items => "ValueList(values=" ++ describeList A items ++ ")"
  | .stray a => A.describe a

/-- A tree **as messages show it**. -/
def describe (A : Arithmetic α) : Expr α → String
  | atom a => describeAtom A a
  | node l op r =>
    "BinOp(left=" ++ l.describe A ++ ", operator=" ++ Text.quote op.symbol ++ ", right=" ++
      r.describe A ++ ")"

/-! ### Agreement -/

/-- Agreement of leaves up to a relation of numbers. -/
def atomAgrees (same : α → α → Bool) : Atom α → Atom α → Bool
  | .number a, .number b => same a b
  | .scaled x a, .scaled y b => x == y && same a b
  | .constant x, .constant y => x == y
  | .list xs, .list ys => xs.length == ys.length && (xs.zip ys).all fun (a, b) => same a b
  | .stray a, .stray b => same a b
  | _, _ => false

/-- Agreement of trees up to a relation of numbers. -/
def agrees (same : α → α → Bool) : Expr α → Expr α → Bool
  | atom a, atom b => atomAgrees same a b
  | node l op r, node l' op' r' => op == op' && l.agrees same l' && r.agrees same r'
  | _, _ => false

end Expr

end Argand
