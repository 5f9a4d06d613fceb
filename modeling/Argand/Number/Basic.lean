import Argand.Decimal.Rounding
import Argand.Decimal.Text

/-!
# Numbers

A number of the calculator is a complex number with float parts. Results are **snapped**: parts
below `1e-14` become zero, and a part whose seventh to fourteenth digits are only noise is
rounded to twelve places, so that `0.1 + 0.2` is `0.3`. A number with a NaN part is the one NaN
of the calculator, a number with an infinite part one of its two infinities.

## Main definitions

* `Argand.snapPart`: one part, snapped.
* `Argand.Number`: real and imaginary part.
* `Argand.Number.snap`: a number, snapped.
* `Argand.Number.equals`: both parts are equal floats.
* `Argand.Number.text`: a number as results show it.
* `Argand.Number.constantName?`: the name of a number that is one of the fixed constants.
-/

namespace Argand

/-! ### Snapping -/

/-- Significant digits of a part that are told apart. -/
def precision : Nat := 14

/-- Parts smaller than this are zero. -/
def epsilon : Float := 1e-14

/-- The digits of a part beyond its first seven are only **noise**: it is the same number with
fourteen and with seven significant digits. -/
def isNoisy (x : Float) : Bool :=
  roundToSignificant x precision == roundToSignificant x (precision / 2)

/-- A part **snapped**: zero if tiny, rounded to twelve places if its tail is noise. Zero has no
sign. -/
def snapPart (x : Float) : Float :=
  if !x.isFinite then x
  else if x.abs < epsilon then 0
  else
    let y := if isNoisy x then roundToPlaces x (precision - 2) else x
    if y == 0 then 0 else y

/-! ### Numbers -/

/-- A **number**: a point of the plane. -/
structure Number where
  re : Float
  im : Float
deriving DecidableEq, Repr, Inhabited

namespace Number

/-- A real number. -/
def ofReal (x : Float) : Number := ⟨x, 0⟩

/-- Zero. -/
def zero : Number := ofReal 0

/-- One. -/
def one : Number := ofReal 1

/-- Two. -/
def two : Number := ofReal 2

/-- One half. -/
def half : Number := ofReal 0.5

/-- The base of the natural logarithm. -/
def euler : Number := ofReal 2.718281828459045

/-- The ratio of circumference to diameter. -/
def pi : Number := ofReal 3.141592653589793

/-- The imaginary unit. -/
def unit : Number := ⟨0, 1⟩

/-- The one NaN. -/
def nan : Number := ofReal (0.0 / 0.0)

/-- The positive infinity. -/
def infinity : Number := ofReal (1.0 / 0.0)

/-- The negative infinity. -/
def negativeInfinity : Number := ofReal (-1.0 / 0.0)

/-- A number with a NaN part. -/
def isNaN (z : Number) : Bool :=
  z.re.isNaN || z.im.isNaN

/-- A number with finite parts. -/
def isFinite (z : Number) : Bool :=
  z.re.isFinite && z.im.isFinite

/-- **Equality of numbers**: both parts are equal as floats, so NaN differs from itself and the
sign of zero does not matter. -/
def equals (z w : Number) : Bool :=
  z.re == w.re && z.im == w.im

/-- A number is zero when both parts are. -/
def isZero (z : Number) : Bool :=
  z.equals zero

/-- A number **snapped**: its parts are, and NaN and the infinities have one form each. -/
def snap (z : Number) : Number :=
  let re := snapPart z.re
  let im := snapPart z.im
  let inf := infinity.re
  if re.isNaN || im.isNaN then nan
  else if re == inf || im == inf then infinity
  else if re == -inf || im == -inf then negativeInfinity
  else ⟨re, im⟩

/-- A number that is its own snapped form. -/
def IsSnapped (z : Number) : Prop :=
  z.snap = z

instance (z : Number) : Decidable z.IsSnapped :=
  inferInstanceAs (Decidable (z.snap = z))

/-! ### Text -/

/-- A part as results show it: all digits of a whole number, else the shortest digits. -/
def partText (x : Float) : String :=
  match wholePart? x with
  | some n => toString n
  | none => floatText x

/-- A number **as results show it**: `2`, `-i`, `1.5+2i`. -/
def text (z : Number) : String :=
  let sign := if z.im < 0 then "-" else ""
  let imaginary := if z.im.abs == 1 then "i" else partText z.im.abs ++ "i"
  if z.im == 0 then partText z.re
  else if z.re == 0 then sign ++ imaginary
  else partText z.re ++ (if z.im < 0 then "-" else "+") ++ imaginary

/-- A number as messages show it: both parts as floats. -/
def describe (z : Number) : String :=
  s!"ComplexNumber({floatText z.re}, {floatText z.im})"

/-- The fixed constants and their names. -/
def constants : List (String × Number) :=
  [ ("ZERO", zero), ("ONE", one), ("TWO", two), ("E", euler), ("PI", pi), ("I", unit),
    ("ONE_HALF", half), ("INFINITY", infinity), ("NEGATIVE_INFINITY", negativeInfinity) ]

/-- The name of a snapped number that is one of the **fixed constants**. -/
def constantName? (z : Number) : Option String :=
  if z.isNaN then some "NAN" else (constants.find? (·.2.equals z)).map (·.1)

end Number

end Argand
