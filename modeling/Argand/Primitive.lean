import Argand.Arithmetic
import Argand.Number.Elementary
import Argand.Operand

/-!
# Primitives

The operations of the calculator on operands. Each takes the snapped numbers of its operands,
from the first to the last, computes on floats and snaps the result.

## Main definitions

* `Argand.Primitive.add`, …: the operations.
* `Argand.Primitive.roots`: the distinct roots of a number.
* `Argand.calculator`: the arithmetic of the calculator.
-/

namespace Argand.Primitive

/-- An operation on one number. -/
def unary (f : Number → Except Fault Number) (x : Operand) : Except Fault Number := do
  return (← f (← x.toNumber)).snap

/-- An operation on two numbers. -/
def binary (f : Number → Number → Except Fault Number) (x y : Operand) :
    Except Fault Number := do
  let z ← x.toNumber
  let w ← y.toNumber
  return (← f z w).snap

/-! ### Field operations -/

/-- The sum. -/
def add : Operand → Operand → Except Fault Number :=
  binary fun z w => .ok (z.add w)

/-- The difference. -/
def subtract : Operand → Operand → Except Fault Number :=
  binary fun z w => .ok (z.sub w)

/-- The product. -/
def multiply : Operand → Operand → Except Fault Number :=
  binary fun z w => .ok (z.mul w)

/-- The quotient; dividing by zero is a fault. -/
def divide : Operand → Operand → Except Fault Number :=
  binary fun z w => if w.isZero then .error .divisionByZero else .ok (z.div w)

/-- The negative. -/
def negate : Operand → Except Fault Number :=
  unary fun z => .ok z.neg

/-- The sum and the difference. -/
def plusMinus (x y : Operand) : Except Fault (List Number) := do
  return [← add x y, ← subtract x y]

/-! ### Powers and functions -/

/-- The power; zero to a negative or complex power is a division by zero. -/
def power : Operand → Operand → Except Fault Number :=
  binary fun z w =>
    if z.isZero && (w.re < 0 || w.im != 0) then .error .divisionByZero else z.power w

/-- The principal root. -/
def root (x index : Operand) : Except Fault Number := do
  power x (.number (← divide (.number Number.one) index))

/-- An entire function: any overflow, of the argument too, is its own. -/
def entire (f : Number → Except Fault Number) (x : Operand) : Except Fault Number :=
  (unary f x).mapError fun fault => if fault.faultClass = .overflow then .tooLarge else fault

/-- The exponential. -/
def exp : Operand → Except Fault Number := entire Number.exp

/-- The principal logarithm. -/
def log : Operand → Except Fault Number :=
  unary fun z => if z.isZero then .error .logarithmOfZero else .ok z.log

/-- The sine. -/
def sin : Operand → Except Fault Number := entire Number.sin

/-- The cosine. -/
def cos : Operand → Except Fault Number := entire Number.cos

/-- The quotient of two computed numbers. -/
def quotient (numerator divisor : Except Fault Number) : Except Fault Number := do
  divide (.number (← numerator)) (.number (← divisor))

/-- The tangent. -/
def tan (x : Operand) : Except Fault Number := quotient (sin x) (cos x)

/-- The cotangent. -/
def cot (x : Operand) : Except Fault Number := quotient (cos x) (sin x)

/-- The secant. -/
def sec (x : Operand) : Except Fault Number := quotient (.ok Number.one) (cos x)

/-- The cosecant. -/
def csc (x : Operand) : Except Fault Number := quotient (.ok Number.one) (sin x)

/-- The absolute value. -/
def absolute (x : Operand) : Except Fault Float := do
  (← x.toNumber).abs

/-! ### Parts and rounding -/

/-- The real part. -/
def realPart (x : Operand) : Except Fault Float := return (← x.toNumber).re

/-- The imaginary part. -/
def imaginaryPart (x : Operand) : Except Fault Float := return (← x.toNumber).im

/-- Both parts rounded down; NaN and the infinities stay. -/
def floor (x : Operand) : Except Fault Number := do
  let z ← x.toNumber
  return if z.isFinite then (⟨z.re.floor, z.im.floor⟩ : Number).snap else z

/-- The remainder of a quotient whose parts are rounded down. -/
def modulo (x y : Operand) : Except Fault Number := do
  let q ← floor (.number (← divide x y))
  subtract x (.number (← multiply (.number q) y))

/-- The whole number next to a finite float towards zero. -/
def truncate (x : Float) : Except Fault Int :=
  if x.isNaN then .error .nanToWhole
  else if x.isInf then .error .infinityToWhole
  else
    let (n, d) := (Magnitude.ofFloat x).scaled 0
    let q : Int := (n / d : Nat)
    .ok (if isNegative x then -q else q)

/-- A float rounded to places; the rounding must not lie beyond the floats. -/
def roundPart (x : Float) (places : Int) : Except Fault Float :=
  let y := roundToPlaces x places
  if y.isInf && x.isFinite then .error .roundingTooLarge else .ok y

/-- Both parts rounded to places; the count of places is the whole part of a number. -/
def round (x places : Operand) : Except Fault Number := do
  let z ← x.toNumber
  let n ← truncate (← places.toNumber).re
  return (⟨← roundPart z.re n, ← roundPart z.im n⟩ : Number).snap

/-! ### Comparison -/

/-- A relation of two numbers. -/
def relation (r : Number → Number → Bool) (x y : Operand) : Except Fault Bool := do
  let z ← x.toNumber
  let w ← y.toNumber
  return r z w

/-- Equality of both parts. -/
def equals : Operand → Operand → Except Fault Bool := relation Number.equals

/-- The real parts decide, and between equal ones the imaginary parts. -/
def below (z w : Number) : Bool :=
  z.re < w.re || (z.re == w.re && z.im < w.im)

/-- The order by real and then imaginary part. -/
def lessThan : Operand → Operand → Except Fault Bool := relation below

/-- The order, or equality. -/
def lessOrEqual : Operand → Operand → Except Fault Bool :=
  relation fun z w => below z w || z.equals w

/-- The reverse order. -/
def greaterThan (x y : Operand) : Except Fault Bool := lessThan y x

/-- The reverse order, or equality. -/
def greaterOrEqual (x y : Operand) : Except Fault Bool := do
  if ← lessThan y x then return true
  equals x y

/-- A finite whole real number. -/
def isWholeNumber (z : Number) : Bool :=
  (wholePart? z.re).isSome && z.im == 0

/-- Whether an operand is a whole number. -/
def isWhole (x : Operand) : Except Fault Bool := return isWholeNumber (← x.toNumber)

/-! ### Roots -/

/-- At most this many roots are listed. -/
def mostRoots : Nat := 100

/-- How many candidates are tried: the index, if it is a positive whole number. -/
def rootLimit (index : Number) : Nat :=
  if isWholeNumber index && index.re > 0 then
    min ((wholePart? index.re).getD 0).toNat mostRoots
  else mostRoots

/-- The **candidate** number `k` for a root: the length's root, turned by the `k`-th part of the
angle. -/
def rootCandidate (length : Number) (angle : Float) (index : Number) (k : Nat) :
    Except Fault Number := do
  let turned ← divide (.real (angle + 2 * Number.pi.re * Float.ofNat k)) (.number index)
  let c ← cos (.number turned)
  let s ← sin (.number turned)
  let direction ← add (.number c) (.number (← multiply (.number Number.unit) (.number s)))
  multiply (.number length) (.number direction)

/-- The candidates from number `k` on, up to the first one that equals a root already found.
`count` of them are tried. -/
def distinctCandidates (candidate : Nat → Except Fault Number) :
    (count k : Nat) → (found : List Number) → Except Fault (List Number)
  | 0, _, found => .ok found
  | count + 1, k, found => do
    let z ← candidate k
    if found.any (·.equals z) then return found
    distinctCandidates candidate count (k + 1) (found ++ [z])

/-- The distinct **roots** of a number for an index, in the order of their angles. -/
def roots (x index : Operand) : Except Fault (List Number) := do
  let n ← index.toNumber
  let p ← Polar.ofNumber (← x.toNumber)
  let length ← power (.real p.magnitude) (.number (← divide (.number Number.one) (.number n)))
  distinctCandidates (rootCandidate length p.angle n) (rootLimit n) 0 []

end Primitive

/-! ### The arithmetic of the calculator -/

/-- The named constants of formulas. -/
def namedConstant? : String → Option Number
  | "i" => some Number.unit
  | "e" => some Number.euler
  | "π" => some Number.pi
  | _ => none

/-- The number of a numeral in a formula. -/
def numeralValue (text : String) : Number :=
  match readNumeral? text.toList with
  | some d => (Number.ofReal d.toFloat).snap
  | none => Number.nan

/-- What an operand in a formula stands for. -/
def Operand.contents : Operand → Value Operand
  | .list items => .many items
  | x => .one x

/-- The **arithmetic of the calculator**: numbers with float parts, snapped after every
operation. -/
def calculator : Arithmetic Operand where
  zero := .number Number.zero
  one := .number Number.one
  two := .number Number.two
  literal text := .number (numeralValue text)
  constant? name := (namedConstant? name).map .number
  add x y := (Primitive.add x y).map .number
  subtract x y := (Primitive.subtract x y).map .number
  multiply x y := (Primitive.multiply x y).map .number
  divide x y := (Primitive.divide x y).map .number
  power x y := (Primitive.power x y).map .number
  negate x := (Primitive.negate x).map .number
  log x := (Primitive.log x).map .number
  roots x index := (Primitive.roots x index).map (·.map .number)
  equals := Primitive.equals
  contents := Operand.contents
  describe := Operand.describe
  spell := Operand.spell
  kind := Operand.kind

end Argand
