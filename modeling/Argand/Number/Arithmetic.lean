import Argand.Number.Basic

/-!
# Arithmetic of numbers

The field operations part by part on floats. Results are not snapped here.

## Main definitions

* `Argand.Number.add`, `sub`, `mul`, `neg`: the ring operations.
* `Argand.Number.div`: division that scales by the larger part of the divisor.
* `Argand.Number.natPower`, `Argand.Number.wholePower?`: powers by repeated squaring.
* `Argand.hypotenuse`: the length of a pair of floats.
-/

namespace Argand

namespace Number

/-- The sum. -/
def add (z w : Number) : Number := ⟨z.re + w.re, z.im + w.im⟩

/-- The difference. -/
def sub (z w : Number) : Number := ⟨z.re - w.re, z.im - w.im⟩

/-- The product. -/
def mul (z w : Number) : Number :=
  ⟨z.re * w.re - z.im * w.im, z.re * w.im + z.im * w.re⟩

/-- The negative. -/
def neg (z : Number) : Number := ⟨-z.re, -z.im⟩

/-- The **quotient**. Numerator and divisor are first divided by the larger part of the divisor,
so that no square of a part is formed. A divisor with a NaN part gives NaN. -/
def div (z w : Number) : Number :=
  if w.im.abs ≤ w.re.abs then
    let ratio := w.im / w.re
    let d := w.re + w.im * ratio
    ⟨(z.re + z.im * ratio) / d, (z.im - z.re * ratio) / d⟩
  else if w.re.abs ≤ w.im.abs then
    let ratio := w.re / w.im
    let d := w.re * ratio + w.im
    ⟨(z.re * ratio + z.im) / d, (z.im * ratio - z.re) / d⟩
  else ⟨nan.re, nan.re⟩

/-- The product of `acc` and `z ^ n`: the binary digits of `n` are used up from the lowest.
`bits` bounds their count. -/
def powerStep : Nat → Number → Number → Nat → Number
  | 0, acc, _, _ => acc
  | bits + 1, acc, z, n =>
    if n = 0 then acc
    else powerStep bits (if n % 2 = 1 then acc.mul z else acc) (z.mul z) (n / 2)

/-- A **power** with a natural exponent, by repeated squaring. -/
def natPower (z : Number) (n : Nat) : Number :=
  powerStep (n.log2 + 1) one z n

/-- A power with a whole exponent; negative ones, and zero, divide one by the opposite power.
`none` if that power is zero. -/
def wholePower? (z : Number) (n : Int) : Option Number :=
  if 0 < n then some (z.natPower n.toNat)
  else
    let d := z.natPower (-n).toNat
    if d.isZero then none else some (one.div d)

end Number

/-! ### Lengths -/

/-- A power of two that is a normal float. -/
def twoPow (e : Int) : Float :=
  Float.ofBits (UInt64.ofNat ((e + 1023).toNat * Magnitude.leastNormalMantissa))

/-- The square root of `x * x + y * y` for `0 ≤ y ≤ x` in a range where no square overflows or
underflows: the rounded root is corrected by its error. -/
def correctedHypotenuse (x y : Float) : Float :=
  let h := (x * x + y * y).sqrt
  let (s, t) :=
    if h ≤ 2 * y then
      let d := h - y
      (x * (2 * d - x), (d - 2 * (x - y)) * d)
    else
      let d := h - x
      (2 * d * (x - 2 * y), (4 * d - y) * y + d * d)
  h - (s + t) / (2 * h)

/-- The **length** of a pair of floats, without intermediate overflow or underflow. -/
def hypotenuse (x y : Float) : Float :=
  if x.isInf || y.isInf then 1.0 / 0.0
  else if x.isNaN || y.isNaN then 0.0 / 0.0
  else
    let (long, short) := if x.abs < y.abs then (y.abs, x.abs) else (x.abs, y.abs)
    let tiny := twoPow (-54)
    let scale := twoPow (-600)
    if long > twoPow 511 then
      if short ≤ long * tiny then long + short
      else correctedHypotenuse (long * scale) (short * scale) / scale
    else if short < twoPow (-459) then
      if long ≥ short / tiny then long + short
      else correctedHypotenuse (long / scale) (short / scale) * scale
    else if short ≤ long * tiny then long + short
    else correctedHypotenuse long short

end Argand
