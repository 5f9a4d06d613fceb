import Argand.Decimal.Basic
import Argand.Decimal.Magnitude

/-!
# Rounding floats in decimal

A float is rounded in decimal by rounding its exact value once and taking the float nearest to
the decimal result. Ties, which are rare because few decimals are exact in binary, go to the
even digit.

## Main definitions

* `Argand.roundToPlaces`: a float rounded to a number of decimal places, possibly negative.
* `Argand.roundToSignificant`: a float rounded to a number of significant digits.
-/

namespace Argand

/-- With more places than this a float is its own rounding. -/
def mostPlaces : Int := 323

/-- With fewer places than this every float rounds to zero. -/
def fewestPlaces : Int := -308

/-- The sign of `x` on the float `magnitude`. -/
def withSignOf (x magnitude : Float) : Float :=
  if isNegative x then -magnitude else magnitude

/-- The decimal number with the given number of places nearest to a finite float. -/
def decimalWithPlaces (x : Float) (places : Int) : Decimal :=
  let (n, d) := (Magnitude.ofFloat x).scaled places
  ⟨isNegative x, roundHalfEven n d, -places⟩

/-- A float **rounded to places** after the decimal point, before it for a negative count.
A rounding beyond the largest float is infinite. -/
def roundToPlaces (x : Float) (places : Int) : Float :=
  if !x.isFinite || x == 0 || mostPlaces < places then x
  else if places < fewestPlaces then withSignOf x 0
  else (decimalWithPlaces x places).toFloat

/-- The decimal number with `digits` significant digits nearest to a finite nonzero float. -/
def decimalWithDigits (x : Float) (digits : Nat) : Decimal :=
  let m := Magnitude.ofFloat x
  decimalWithPlaces x (digits - 1 - m.decimalOrder)

/-- A float **rounded to significant digits**; zero, infinities and NaN stay as they are. -/
def roundToSignificant (x : Float) (digits : Nat) : Float :=
  if !x.isFinite || x == 0 then x else (decimalWithDigits x digits).toFloat

end Argand
