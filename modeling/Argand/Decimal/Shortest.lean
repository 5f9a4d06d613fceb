import Argand.Decimal.Basic
import Argand.Decimal.Magnitude

/-!
# Shortest digits

The shortest decimal number that reads back as a given float; among those of equal length the
one nearest to the float. The search tries one digit, two digits and so on: on each decimal
grid only the two neighbours of the float can be the nearest point, and seventeen digits always
suffice.

## Main definitions

* `Argand.shortestDecimal`: the shortest decimal number that rounds to a finite nonzero float.
-/

namespace Argand

/-- The reals that round to a float, in units of a quarter of its last place, and the float
itself. The ends belong to the interval when the mantissa is even. -/
structure RoundingInterval where
  low : Nat
  value : Nat
  high : Nat
  /-- Whether the ends round to the float. -/
  closed : Bool
  /-- The unit is this power of two. -/
  exponent : Int
deriving Repr

/-- The rounding interval of a positive magnitude. Below a power of two the floats lie twice as
dense, so that the lower end is only half as far away there. -/
def Magnitude.roundingInterval (m : Magnitude) : RoundingInterval :=
  let boundary := m.mantissa = leastNormalMantissa && leastExponent < m.exponent
  { low := 4 * m.mantissa - (if boundary then 1 else 2)
    value := 4 * m.mantissa
    high := 4 * m.mantissa + 2
    closed := m.mantissa % 2 = 0
    exponent := m.exponent - 2 }

/-- The grid point nearest to the float among its two neighbours on the grid of multiples of
`10 ^ (-places)`, if one of them lies in the rounding interval. -/
def RoundingInterval.nearest? (i : RoundingInterval) (places : Int) : Option Nat :=
  let (unit, d) := Magnitude.scaledBy 1 i.exponent places
  let inside (c : Nat) : Bool :=
    if i.closed then i.low * unit ≤ c * d && c * d ≤ i.high * unit
    else i.low * unit < c * d && c * d < i.high * unit
  let below := i.value * unit / d
  let nearest := roundHalfEven (i.value * unit) d
  let other := if nearest = below then below + 1 else below
  if inside nearest then some nearest
  else if inside other then some other
  else none

/-- A decimal number without the zeros at the end of its coefficient; at most `count` are
dropped. -/
def Decimal.dropZeros : Nat → Decimal → Decimal
  | 0, d => d
  | count + 1, d =>
    if d.coefficient % 10 = 0 then
      dropZeros count { d with coefficient := d.coefficient / 10, exponent := d.exponent + 1 }
    else d

/-- Every float is told apart from its neighbours by this many digits. -/
def sufficientDigits : Nat := 17

/-- The **shortest** decimal number that rounds to a finite nonzero float, the nearest one to it
among the shortest. Its coefficient does not end in zero. -/
def shortestDecimal (x : Float) : Decimal :=
  let m := Magnitude.ofFloat x
  let order := m.decimalOrder
  let interval := m.roundingInterval
  let found := (List.range sufficientDigits).findSome? fun (k : Nat) =>
    (interval.nearest? (k - order)).map fun c => (⟨isNegative x, c, order - k⟩ : Decimal)
  (found.getD ⟨isNegative x, 0, 0⟩).dropZeros sufficientDigits

end Argand
