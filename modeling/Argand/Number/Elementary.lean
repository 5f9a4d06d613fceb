import Argand.Fault
import Argand.Number.Arithmetic

/-!
# Elementary functions

Powers, exponential, logarithm, sine and cosine of numbers, and polar form. The arguments are
snapped numbers, so an infinite one is real. The results of the functions are not snapped here.

## Main definitions

* `Argand.logOnePlus`: the logarithm of one plus a float, exact for small floats.
* `Argand.Number.power`: a power with any exponent.
* `Argand.Number.exp`, `log`, `sin`, `cos`: the functions.
* `Argand.Number.magnitude`, `Argand.Polar`: polar form.
-/

namespace Argand

/-! ### The logarithm near one -/

/-- The high and the low part of the natural logarithm of two. -/
def lnTwo : Float × Float :=
  (6.93147180369123816490e-01, 1.90821492927058770002e-10)

/-- The error term of `log (1 + f)`: a polynomial in the square of `f / (2 + f)`. -/
def logTail (z : Float) : Float :=
  let z2 := z * z
  let z4 := z2 * z2
  let z6 := z4 * z2
  let r1 := z * 6.666666666666735130e-01
  let r2 := 3.999999999940941908e-01 + z * 2.857142874366239149e-01
  let r3 := 2.222219843214978396e-01 + z * 1.818357216161805012e-01
  let r4 := 1.531383769920937332e-01 + z * 1.479819860511658591e-01
  r1 + z2 * r2 + z4 * r3 + z6 * r4

/-- The sum `k * log 2 + log (1 + f) + c` for a whole `k`, `1 + f` near one and a correction `c`
that counts only for `k ≠ 0`. A tiny `f` needs two terms of the series only. -/
def logSum (k : Int) (f c : Float) (tiny : Bool) : Float :=
  let n := Float.ofInt k
  let (high, low) := lnTwo
  let halfSquare := 0.5 * f * f
  if tiny then
    if f == 0 then if k = 0 then 0 else n * high + (c + n * low)
    else
      let r := halfSquare * (1.0 - 0.66666666666666666 * f)
      if k = 0 then f - r else n * high - ((r - (n * low + c)) - f)
  else
    let s := f / (2.0 + f)
    let r := logTail (s * s)
    if k = 0 then f - (halfSquare - s * (halfSquare + r))
    else n * high - ((halfSquare - (s * (halfSquare + r) + (n * low + c))) - f)

/-- The **logarithm of one plus** a float between `-0.5` and `2`. The sum is split into a power
of two and a factor between `1 / √2` and `√2`; what adding one lost is corrected. -/
def logOnePlus (x : Float) : Float :=
  if x.abs < twoPow (-54) then x
  else if x.abs < twoPow (-29) then x - x * x * 0.5
  else if (0 < x && x < Float.ofBits 0x3FDA827A00000000) ||
      (x < 0 && -x < Float.ofBits 0x3FD2BEC400000000) then
    logSum 0 x 0 false
  else
    let u := 1.0 + x
    let bits : Nat := u.toBits.toNat
    let k : Int := (bits / Magnitude.leastNormalMantissa : Nat) - 1023
    let fraction : Nat := bits % Magnitude.leastNormalMantissa
    let lost := (if 0 < k then 1.0 - (u - x) else x - (u - 1.0)) / u
    if fraction < 0x6A09E00000000 then
      let f := Float.ofBits (UInt64.ofNat (0x3FF0000000000000 + fraction)) - 1.0
      logSum k f lost (fraction < 0x100000000)
    else
      let f := Float.ofBits (UInt64.ofNat (0x3FE0000000000000 + fraction)) - 1.0
      logSum (k + 1) f lost (0xFFFFD00000000 ≤ fraction)

/-! ### Functions -/

namespace Number

/-- The largest float. -/
def largest : Float := 1.7976931348623157e308

/-- Parts beyond this are scaled before their length is taken. -/
def largePart : Float := largest / 4

/-- Beyond this the exponential is computed with its argument reduced by one. -/
def largeExponent : Float := largePart.log

/-- The angle of a number, in radians from `-π` to `π`. -/
def angle (z : Number) : Float :=
  Float.atan2 z.im z.re

/-- The **absolute value**, infinite for an infinite number. -/
def magnitude (z : Number) : Float :=
  hypotenuse z.re z.im

/-- A result that must not be infinite. -/
def checked (z : Number) : Except Fault Number :=
  if z.re.isInf || z.im.isInf then .error .tooLarge else .ok z

/-- A power that is not computed by repeated multiplication, from the polar form of the base.
An infinite angle has no cosine. -/
def polarPower (z w : Number) : Except Fault Number :=
  let length := z.magnitude.pow w.re
  let turned := z.angle * w.re
  let (length, turned) :=
    if w.im != 0 then (length / (z.angle * w.im).exp, turned + w.im * z.magnitude.log)
    else (length, turned)
  if turned.isInf then .error .zeroPower
  else checked ⟨length * turned.cos, length * turned.sin⟩

/-- The largest whole exponent, up to sign, for which powers are repeated products. -/
def mostProducts : Float := 100

/-- A **power**. Whole exponents up to a hundred are repeated products, `z ^ 0` is one, and zero
to a positive power is zero. -/
def power (z w : Number) : Except Fault Number :=
  if w.im == 0 && w.re.abs ≤ mostProducts && (wholePart? w.re).isSome then
    match z.wholePower? ((wholePart? w.re).getD 0) with
    | some p => checked p
    | none => .error .zeroPower
  else if w.isZero then .ok one
  else if z.isZero then
    if w.im != 0 || w.re < 0 then .error .zeroPower else .ok zero
  else polarPower z w

/-- A real part spread by the cosine and sine of an angle. -/
def spread (re im angle : Float) : Number :=
  ⟨re * angle.cos, im * angle.sin⟩

/-- The **exponential**. -/
def exp (z : Number) : Except Fault Number :=
  if z.isNaN then .ok nan
  else if z.re.isInf then .ok (if z.re < 0 then zero else infinity)
  else if largeExponent < z.re then
    let l := (z.re - 1).exp
    checked ⟨l * z.im.cos * euler.re, l * z.im.sin * euler.re⟩
  else
    let l := z.re.exp
    checked ⟨l * z.im.cos, l * z.im.sin⟩

/-- The logarithm of the length of a nonzero number. Near one it is taken of the distance from
one, so that no digits are lost. -/
def logMagnitude (z : Number) : Float :=
  let x := z.re.abs
  let y := z.im.abs
  if largePart < x || largePart < y then
    (hypotenuse (x / 2) (y / 2)).log + 0.6931471805599453
  else
    let h := hypotenuse x y
    if 0.71 ≤ h && h ≤ 1.73 then
      let (long, short) := if y < x then (x, y) else (y, x)
      let d := (long - 1) * (long + 1) + short * short
      (if d == 0 then d else logOnePlus d) / 2
    else h.log

/-- The principal **logarithm** of a nonzero number. -/
def log (z : Number) : Number :=
  if z.isNaN then nan
  else if z.re.isInf then ⟨infinity.re, z.angle⟩
  else ⟨z.logMagnitude, z.angle⟩

/-- Hyperbolic cosine and sine of a float times the cosine and sine of an angle, scaled so that
only an overflowing result overflows. -/
def hyperbolic (x : Float) : Float × Float :=
  if largeExponent < x.abs then
    let reduced := if x < 0 then x + 1 else x - 1
    (reduced.cosh, reduced.sinh)
  else (x.cosh, x.sinh)

/-- What the results of `hyperbolic` are still to be multiplied by. -/
def hyperbolicScale (x : Float) : Float :=
  if largeExponent < x.abs then euler.re else 1

/-- The **sine**. It is not defined at the infinities. -/
def sin (z : Number) : Except Fault Number :=
  if z.isNaN then .ok nan
  else if z.re.isInf then .error .outOfDomain
  else
    let (c, s) := hyperbolic z.im
    let scale := hyperbolicScale z.im
    checked ⟨z.re.sin * c * scale, z.re.cos * s * scale⟩

/-- The **cosine**. It is not defined at the infinities. -/
def cos (z : Number) : Except Fault Number :=
  if z.isNaN then .ok nan
  else if z.re.isInf then .error .outOfDomain
  else
    let (c, s) := hyperbolic z.im
    let scale := hyperbolicScale z.im
    checked ⟨z.re.cos * c * scale, -(z.re.sin * s * scale)⟩

/-- The absolute value of a number; that of a finite number must be finite. -/
def abs (z : Number) : Except Fault Float :=
  let r := z.magnitude
  if r.isInf && z.isFinite then .error .absoluteTooLarge else .ok r

end Number

/-! ### Polar form -/

/-- A number in **polar form**, the angle in radians. -/
structure Polar where
  magnitude : Float
  angle : Float
deriving Repr

namespace Polar

/-- The polar form of a number. -/
def ofNumber (z : Number) : Except Fault Polar :=
  let r := z.magnitude
  if r.isInf && z.isFinite then .error .outOfRange
  else .ok ⟨r, if z.isNaN then 0.0 / 0.0 else z.angle⟩

/-- An infinity with the sign of `x`. -/
def signedInfinity (x : Float) : Float :=
  if isNegative x then -1.0 / 0.0 else 1.0 / 0.0

/-- The point of a polar form. An infinite angle is allowed only for length zero. -/
def point (p : Polar) : Except Fault Number :=
  let r := p.magnitude
  let a := p.angle
  if r.isFinite && a.isFinite then
    if a == 0 then .ok ⟨r, r * a⟩ else .ok ⟨r * a.cos, r * a.sin⟩
  else if r == 0 then .ok Number.zero
  else if a.isInf && !r.isNaN then .error .outOfDomain
  else if r.isInf && a.isFinite then
    if a == 0 then .ok ⟨r, 0⟩
    else
      let sign := if r < 0 then -1.0 else 1.0
      .ok ⟨signedInfinity (sign * a.cos), signedInfinity (sign * a.sin)⟩
  else .ok ⟨Number.nan.re, Number.nan.re⟩

/-- The snapped **number** of a polar form. -/
def toNumber (p : Polar) : Except Fault Number :=
  p.point.map Number.snap

/-- A polar form as messages show it. -/
def describe (p : Polar) : String :=
  s!"Polar({floatText p.magnitude}, {floatText p.angle})"

end Polar

end Argand
