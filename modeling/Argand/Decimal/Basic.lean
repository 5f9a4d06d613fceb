/-!
# Decimal numbers

A decimal number is a sign, a whole coefficient and a power of ten. It is what a numeral
denotes, and what rounding a float to places or to significant digits produces.

## Main definitions

* `Argand.Decimal`: sign, coefficient, exponent.
* `Argand.Decimal.toFloat`: the float nearest to a decimal number.
* `Argand.roundHalfEven`: a quotient rounded to the nearest whole number.

## Main results

* `Argand.two_mul_roundHalfEven_le` and `Argand.le_two_mul_roundHalfEven`: the rounded quotient
  is within one half of the exact one.
-/

namespace Argand

/-- A **decimal number**: `coefficient * 10 ^ exponent`, negated if `negative`. -/
structure Decimal where
  /-- The sign; a negative zero is told apart from zero. -/
  negative : Bool
  coefficient : Nat
  exponent : Int
deriving DecidableEq, Repr

/-- The float nearest to a decimal number, ties to even; infinite beyond the largest float. -/
def Decimal.toFloat (d : Decimal) : Float :=
  let magnitude :=
    if 0 ≤ d.exponent then Float.ofScientific d.coefficient false d.exponent.toNat
    else Float.ofScientific d.coefficient true (-d.exponent).toNat
  if d.negative then -magnitude else magnitude

/-- The whole number nearest to `n / d`; of two equally near ones the **even** one. -/
def roundHalfEven (n d : Nat) : Nat :=
  let q := n / d
  let r := n % d
  if 2 * r < d then q
  else if d < 2 * r then q + 1
  else q + q % 2

/-- The rounded quotient exceeds the exact one by at most one half. -/
theorem two_mul_roundHalfEven_le (n d : Nat) : 2 * (roundHalfEven n d * d) ≤ 2 * n + d := by
  have h := Nat.div_add_mod n d
  have hc : n / d * d = d * (n / d) := Nat.mul_comm ..
  simp only [roundHalfEven]
  split
  · omega
  · split
    · rw [Nat.add_mul]; omega
    · rcases Nat.mod_two_eq_zero_or_one (n / d) with h2 | h2 <;> rw [h2, Nat.add_mul] <;> omega

/-- The exact quotient exceeds the rounded one by at most one half. -/
theorem le_two_mul_roundHalfEven (n : Nat) {d : Nat} (hd : 0 < d) :
    2 * n ≤ 2 * (roundHalfEven n d * d) + d := by
  have h := Nat.div_add_mod n d
  have hr := Nat.mod_lt n hd
  have hc : n / d * d = d * (n / d) := Nat.mul_comm ..
  simp only [roundHalfEven]
  split
  · omega
  · split
    · rw [Nat.add_mul]; omega
    · rw [Nat.add_mul]; omega

end Argand
