import Argand.Fault
import Argand.Json.Basic

/-!
# Values and their arithmetic

Formulas are evaluated, simplified and solved over any kind of number for which the operations
of this module's structure are given. The calculator uses the operands with float arithmetic;
an exact field is another instance.

A value is one number or several: a power has several roots, and a variable solved for may have
several solutions. An operation on several numbers is carried out on every combination, and
results that are equal to an earlier one are dropped.

## Main definitions

* `Argand.Value`: one number or several.
* `Argand.Scope`: what each name is bound to.
* `Argand.Arithmetic`: the operations on numbers.
* `Argand.lift`: an operation on all combinations of two values.
-/

namespace Argand

/-- A **value**: one number or several. -/
inductive Value (α : Type) where
  | one (a : α)
  | many (items : List α)
deriving Repr, DecidableEq, Inhabited

namespace Value

variable {α β : Type}

/-- The numbers of a value. -/
def items : Value α → List α
  | one a => [a]
  | many as => as

/-- An operation on each number of a value. -/
def mapM (f : α → Except Fault β) : Value α → Except Fault (Value β)
  | one a => (f a).map one
  | many as => (as.mapM f).map many

end Value

/-! ### Scopes -/

/-- A **scope** binds names to values, in the order in which they were bound. A name may be
bound to nothing, which counts as unbound. -/
abbrev Scope (α : Type) := Entries (Option (Value α))

/-- The value of a name. -/
def Scope.value? {α : Type} (scope : Scope α) (name : String) : Option (Value α) :=
  (Entries.get? scope name).join

/-! ### Operations -/

/-- The **operations** on numbers that formulas need. Those that can fail say why. -/
structure Arithmetic (α : Type) where
  zero : α
  one : α
  two : α
  literal : String → α
  constant? : String → Option α
  add : α → α → Except Fault α
  subtract : α → α → Except Fault α
  multiply : α → α → Except Fault α
  divide : α → α → Except Fault α
  power : α → α → Except Fault α
  negate : α → Except Fault α
  log : α → Except Fault α
  roots : α → α → Except Fault (List α)
  equals : α → α → Except Fault Bool
  /-- The value that a number in a formula stands for; a number that is itself a list stands for
  its items. -/
  contents : α → Value α
  describe : α → String
  /-- Something that is no formula, as a line shows it in the place of one. -/
  spell : α → String
  kind : α → String

/-! ### Combinations -/

section Lift

variable {α : Type}

/-- An item is kept unless it is equal to one kept before. -/
def keepDistinct (equals : α → α → Except Fault Bool) (kept : List α) (item : α) :
    Except Fault (List α) := do
  if ← kept.anyM (equals · item) then return kept
  return kept ++ [item]

/-- An operation on **all combinations** of the numbers of two values, those of the first value
outermost. Of equal results only the first is kept. -/
def lift (equals : α → α → Except Fault Bool) (f : α → α → Except Fault (Value α))
    (x y : Value α) : Except Fault (List α) :=
  x.items.foldlM (fun kept a =>
    y.items.foldlM (fun kept b => do
      (← f a b).items.foldlM (keepDistinct equals) kept) kept) []

/-- An operation on two values: a single result for single numbers, else all combinations. -/
def combineValues (equals : α → α → Except Fault Bool) (f : α → α → Except Fault α) :
    Value α → Value α → Except Fault (Value α)
  | .one a, .one b => (f a b).map .one
  | x, y => (lift equals (fun a b => (f a b).map .one) x y).map .many

end Lift

end Argand
