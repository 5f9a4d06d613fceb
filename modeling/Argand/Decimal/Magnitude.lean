/-!
# The exact value of a float

A finite float is a whole number times a power of two. Everything that turns a float into
digits starts from this exact value, so that rounding happens once and is decided by whole
numbers.

## Main definitions

* `Argand.Magnitude`: a whole number times a power of two.
* `Argand.Magnitude.ofFloat`: the magnitude of a finite float.
* `Argand.Magnitude.scaled`: a magnitude times a power of ten, as a fraction.
* `Argand.isNegative`: the sign bit of a float.
* `Argand.wholePart?`: the whole number that a float is.
-/

namespace Argand

/-- A nonnegative **binary fraction**: `mantissa * 2 ^ exponent`. -/
structure Magnitude where
  mantissa : Nat
  exponent : Int
deriving DecidableEq, Repr

namespace Magnitude

/-- The least exponent of a finite float. -/
def leastExponent : Int := -1074

/-- The mantissas of normal floats start here; all smaller ones are subnormal. -/
def leastNormalMantissa : Nat := Nat.pow 2 52

/-- The biased exponents of floats end before this. -/
def exponentRange : Nat := Nat.pow 2 11

/-- The magnitude of a **finite** float, read off its bits. -/
def ofFloat (x : Float) : Magnitude :=
  let bits : Nat := x.toBits.toNat
  let fraction : Nat := bits % leastNormalMantissa
  let biased : Nat := bits / leastNormalMantissa % exponentRange
  if biased = 0 then ⟨fraction, leastExponent⟩
  else ⟨fraction + leastNormalMantissa, leastExponent + (biased : Int) - 1⟩

/-- A power as a fraction: `base ^ e` is the quotient of the two numbers. -/
def powerFraction (base : Nat) (e : Int) : Nat × Nat :=
  (Nat.pow base e.toNat, Nat.pow base (-e).toNat)

/-- The fraction `n * 2 ^ binary * 10 ^ decimal`. -/
def scaledBy (n : Nat) (binary decimal : Int) : Nat × Nat :=
  let (two, half) := powerFraction 2 binary
  let (ten, tenth) := powerFraction 10 decimal
  (n * two * ten, half * tenth)

/-- The magnitude times a power of ten, as a fraction. -/
def scaled (m : Magnitude) (decimal : Int) : Nat × Nat :=
  scaledBy m.mantissa m.exponent decimal

/-- The number of decimal digits of a whole number; zero has one. -/
def digitCount (n : Nat) : Nat :=
  (Nat.toDigits 10 n).length

/-- The **decimal order** of a positive magnitude: the `e` with `10 ^ e ≤ m < 10 ^ (e + 1)`. -/
def decimalOrder (m : Magnitude) : Int :=
  let (n, d) := m.scaled 0
  let estimate : Int := digitCount n - digitCount d
  let (ten, tenth) := powerFraction 10 estimate
  if d * ten ≤ n * tenth then estimate else estimate - 1

end Magnitude

/-- The **sign bit** of a float: set for negative numbers and for negative zero. -/
def isNegative (x : Float) : Bool :=
  decide (Nat.pow 2 63 ≤ x.toBits.toNat)

/-- The whole number that a finite float is, if it is one. -/
def wholePart? (x : Float) : Option Int :=
  if !x.isFinite then none
  else
    let (n, d) := (Magnitude.ofFloat x).scaled 0
    if n % d = 0 then
      let q : Int := (n / d : Nat)
      some (if isNegative x then -q else q)
    else none

end Argand
