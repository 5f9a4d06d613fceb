import Argand.Fault
import Argand.Json.Basic
import Argand.Number.Basic

/-!
# Operands

What may stand where a number is wanted: numbers, but also plain whole numbers, floats and pairs
of floats, which are taken as numbers, and things that are refused with a fault that shows them.

## Main definitions

* `Argand.Operand`: the operands.
* `Argand.Operand.toNumber`: the snapped number of an operand.
* `Argand.Operand.describe`, `Argand.Operand.kind`: an operand and its kind in messages.
* `Argand.Operand.same`: equality across the kinds of numbers.
* `Argand.Operand.identical`: being one and the same operand, part by part.
-/

namespace Argand

/-- An **operand**. -/
inductive Operand where
  /-- A number of the calculator; its parts need not be snapped. -/
  | number (z : Number)
  | whole (n : Int)
  | real (x : Float)
  | pair (z : Number)
  | list (items : List Operand)
  | other (value : Json)
deriving Inhabited, Repr

namespace Operand

/-- The **kind** of an operand as messages call it. -/
def kind : Operand → String
  | number _ => "ComplexNumber"
  | whole _ => "int"
  | real _ => "float"
  | pair _ => "complex"
  | list _ => "list"
  | other v => v.kind

/-- A bare pair as messages show it; a real part that is positive zero is left out. -/
def pairText (z : Number) : String :=
  let re := writeFloat Layout.bare z.re
  let im := writeFloat Layout.bare z.im
  if z.re == 0 && !isNegative z.re then im ++ "j"
  else "(" ++ re ++ (if isNegative z.im && !z.im.isNaN then "" else "+") ++ im ++ "j)"

mutual

/-- An operand **as messages show it**. -/
def describe : Operand → String
  | number z => z.describe
  | whole n => toString n
  | real x => floatText x
  | pair z => pairText z
  | list items => "[" ++ describeItems items ++ "]"
  | other v => v.describe

/-- Several operands, separated by commas. -/
def describeItems : List Operand → String
  | [] => ""
  | [x] => describe x
  | x :: rest => describe x ++ ", " ++ describeItems rest

end

/-- An operand **as a line shows it** on its own: a text stands without quotes. -/
def spell : Operand → String
  | other (.text s) => s
  | x => x.describe

/-! ### Numbers -/

/-- The float nearest to a whole number, which must not lie beyond the floats. -/
def wholeToFloat (n : Int) : Except Fault Float :=
  let x := Decimal.toFloat ⟨decide (n < 0), n.natAbs, 0⟩
  if x.isInf then .error .wholeTooLarge else .ok x

/-- The **snapped number** of an operand. -/
def toNumber : Operand → Except Fault Number
  | number z => .ok z.snap
  | pair z => .ok z.snap
  | whole n => (wholeToFloat n).map fun x => (Number.ofReal x).snap
  | real x => .ok (Number.ofReal x).snap
  | v => .error (.notANumber v.describe)

/-- The float of an operand given as a part of a number: truth values count as zero and one, and
texts are read. -/
def toPart : Operand → Except Fault Float
  | whole n => wholeToFloat n
  | real x => .ok x
  | other (.truth b) => .ok (if b then 1 else 0)
  | other (.text s) =>
    match readFloat? s with
    | some x => .ok x
    | none => .error (.notANumeral s)
  | v => .error (.notReal v.kind)

/-- The number of an operand and an imaginary part, which counts only beside a plain real
operand. -/
def withImaginary (value imaginary : Operand) : Except Fault Number :=
  match value with
  | whole _ | real _ => do
    let re ← value.toPart
    let im ← imaginary.toPart
    return (⟨re, im⟩ : Number).snap
  | _ => value.toNumber

/-- A truth value as an operand. -/
def truth (b : Bool) : Operand := .other (.truth b)

/-! ### Equality -/

/-- A plain operand as a structured value. -/
def plain? : Operand → Option Json
  | whole n => some (.whole n)
  | real x => some (.real x)
  | other v => some v
  | _ => none

/-- Equality of a number and a plain operand: the number is real and its real part equal. A
truth value equals a bare pair only. -/
def realIs (z : Number) (bare : Bool) : Operand → Bool
  | whole n => wholePart? z.re == some n && z.im == 0
  | real x => z.re == x && z.im == 0
  | other (.truth b) => bare && z.re == (if b then 1 else 0) && z.im == 0
  | _ => false

/-- The one NaN that snapped numbers have. -/
def isSnappedNaN : Operand → Bool
  | number z => z.re.isNaN && z.im == 0
  | _ => false

mutual

/-- **Equality** of operands: numbers of any kind by their exact values, other things by what
they are. -/
def same : Operand → Operand → Bool
  | number z, number w | number z, pair w | pair z, number w | pair z, pair w => z.equals w
  | number z, v | v, number z => realIs z false v
  | pair z, v | v, pair z => realIs z true v
  | list xs, list ys => sameItems xs ys
  | v, w =>
    match v.plain?, w.plain? with
    | some v, some w => v.same w
    | _, _ => false

/-- Equality of several operands. The NaN of snapped numbers, which is one thing, does not make
lists that hold it unequal. -/
def sameItems : List Operand → List Operand → Bool
  | [], [] => true
  | x :: xs, y :: ys => (same x y || (x.isSnappedNaN && y.isSnappedNaN)) && sameItems xs ys
  | _, _ => false

end

/-! ### Identity -/

mutual

/-- Whether two operands are **one and the same**: of one kind, with the same parts. -/
def identical : Operand → Operand → Bool
  | number z, number w | pair z, pair w => decide (z = w)
  | whole n, whole m => n == m
  | real x, real y => decide (x = y)
  | list xs, list ys => identicalItems xs ys
  | other v, other w => decide (v = w)
  | _, _ => false

/-- Whether several operands are the same ones. -/
def identicalItems : List Operand → List Operand → Bool
  | [], [] => true
  | x :: xs, y :: ys => identical x y && identicalItems xs ys
  | _, _ => false

end

mutual

/-- Operands are one and the same exactly if they are equal terms. -/
theorem identical_iff (x y : Operand) : identical x y = true ↔ x = y := by
  cases x with
  | list xs => cases y <;> simp [identical, identicalItems_iff xs]
  | _ => cases y <;> simp [identical]

theorem identicalItems_iff (xs ys : List Operand) : identicalItems xs ys = true ↔ xs = ys := by
  cases xs with
  | nil => cases ys <;> simp [identicalItems]
  | cons x xs => cases ys <;> simp [identicalItems, identical_iff x, identicalItems_iff xs]

end

instance : DecidableEq Operand := fun x y => decidable_of_iff _ (identical_iff x y)

end Operand

end Argand
