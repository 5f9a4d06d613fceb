import Argand.Proofs.Display.Snapping

/-!
# One is neutral for snapped numbers

Dividing a float by one changes nothing. So a number with stable parts, multiplied with one or
divided by one, is itself: the products with the zero part of one are zeros, and adding a zero
keeps a part that is no negative zero.

## Main results

* `Argand.divCore_one`: a quotient by one loses no bits.
* `Argand.float_div_one`: a float divided by one.
* `Argand.float_mul_comm`: the factors of a product of floats commute.
* `Argand.IsStable.mul_one`, `Argand.IsStable.one_mul`, `Argand.IsStable.div_one`: a number with
  stable parts times one, one times such a number, and the number over one.
-/

namespace Argand

open Float.Model Float.Model.UnpackedFloat

/-! ### Floats -/

/-- The quotient of a canonical float and one has all its bits, and perhaps a zero more. -/
theorem divCore_one {s : UnpackedFloat.Sign} {m : Nat} {e : Int} {hm : 0 < m}
    (h : IsCanonical (.finite s m e hm)) :
    ∃ k : Nat, divCore Format.binary64 m e (2 ^ 52) (-52) = (m * 2 ^ k, e - k, .exact) := by
  have htarget := targetExponent_of_canonical h
  have hbits : (Format.binary64.mantissaBits : Int) = 53 := rfl
  have hmin : Format.binary64.minExponent = -1074 := rfl
  have hone : totalExponent (2 ^ 52) (-52) = 1 := by decide
  rw [Format.targetExponent, hbits, hmin] at htarget
  obtain ⟨k, hk⟩ : ∃ k : Nat, min (e - -52) (Format.binary64.targetExponent
      (totalExponent m e - totalExponent (2 ^ 52) (-52))) = e - k := by
    rw [hone, Format.targetExponent, hbits, hmin]
    exact ⟨(e - max (totalExponent m e - 1 - 53) (-1074)).toNat, by omega⟩
  have hshift : (e - -52 - (e - k)).toNat = k + 52 := by omega
  have hquotient : m <<< (k + 52) = m * 2 ^ k * 2 ^ 52 := by
    rw [Nat.shiftLeft_eq]
    ring
  refine ⟨k, ?_⟩
  simp only [divCore, hk, hshift, hquotient]
  rw [Nat.mul_div_cancel _ (by positivity), Nat.mul_mod_left]
  rfl

/-- A float **divided by one**. -/
@[simp] theorem float_div_one (x : Float) : x / 1 = x := by
  have hsign (s : UnpackedFloat.Sign) : s / .positive = s := by cases s <;> rfl
  have hcanonical := (unpack_spec x.toModel).1
  refine ofModel_pack_eq ?_
  rw [unpack_float_one]
  cases hu : x.toModel.unpack with
  | notANumber => rfl
  | infinity s => simp [UnpackedFloat.div, hsign]
  | zero s => simp [UnpackedFloat.div, hsign]
  | finite s m e hm =>
      rw [hu] at hcanonical
      obtain ⟨k, hk⟩ := divCore_one hcanonical
      simp only [UnpackedFloat.div, hk, hsign]
      exact roundWithAccuracy_exact hcanonical k

/-- The factors of a product of floats **commute**. -/
theorem float_mul_comm (x y : Float) : x * y = y * x := by
  have hsign (s t : UnpackedFloat.Sign) : s * t = t * s := by cases s <;> cases t <;> rfl
  have hmul (u v : UnpackedFloat) :
      UnpackedFloat.mul Format.binary64 u v = UnpackedFloat.mul Format.binary64 v u := by
    cases u <;> cases v <;> simp only [UnpackedFloat.mul, hsign, Nat.mul_comm, Int.add_comm]
  exact congrArg (fun u => Float.ofModel (Float.Model.pack u)) (hmul _ _)

/-- A float **plus a negative zero**. -/
theorem float_add_negative_zero (x : Float) : x + -0 = x := by
  refine ofModel_pack_eq ?_
  rw [unpack_neg, unpack_float_zero]
  cases x.toModel.unpack with
  | zero s => cases s <;> rfl
  | _ => rfl

/-- A negative zero **plus a float**. -/
theorem float_negative_zero_add (x : Float) : -0 + x = x := by
  refine ofModel_pack_eq ?_
  rw [unpack_neg, unpack_float_zero]
  cases x.toModel.unpack with
  | zero s => cases s <;> rfl
  | _ => rfl

/-- A float that is no negative zero **minus a negative zero**. -/
theorem float_sub_negative_zero {x : Float} (h : x.toModel.unpack ≠ .zero .negative) :
    x - -0 = x := by
  refine ofModel_pack_eq ?_
  rw [unpack_neg, unpack_float_zero]
  cases hu : x.toModel.unpack with
  | zero s =>
      cases s with
      | positive => rfl
      | negative => exact absurd hu h
  | _ => rfl

/-! ### Numbers -/

namespace IsStable

variable {x y : Float}

/-- A product with zero **adds nothing** to a stable part. -/
theorem add_mul_zero (hx : IsStable x) (hy : IsStable y) : x + y * 0 = x := by
  obtain h | h := float_mul_zero hy.finite
  · rw [h, float_add_zero hx.ne_negative_zero]
  · rw [h, float_add_negative_zero]

theorem mul_zero_add (hx : IsStable x) (hy : IsStable y) : y * 0 + x = x := by
  obtain h | h := float_mul_zero hy.finite
  · rw [h, float_zero_add hx.ne_negative_zero]
  · rw [h, float_negative_zero_add]

/-- A product with zero **takes nothing** from a stable part. -/
theorem sub_mul_zero (hx : IsStable x) (hy : IsStable y) : x - y * 0 = x := by
  obtain h | h := float_mul_zero hy.finite
  · rw [h, float_sub_zero]
  · rw [h, float_sub_negative_zero hx.ne_negative_zero]

variable {z : Number}

/-- A number with stable parts **times one**. -/
theorem mul_one (hre : IsStable z.re) (him : IsStable z.im) : z.mul Number.one = z := by
  show (⟨z.re * 1 - z.im * 0, z.re * 0 + z.im * 1⟩ : Number) = z
  rw [float_mul_one, float_mul_one, hre.sub_mul_zero him, him.mul_zero_add hre]

/-- One **times a number** with stable parts. -/
theorem one_mul (hre : IsStable z.re) (him : IsStable z.im) : Number.one.mul z = z := by
  calc Number.one.mul z
      = ⟨z.re * 1 - z.im * 0, z.im * 1 + z.re * 0⟩ := by
        simp only [Number.mul, Number.one, Number.ofReal, float_mul_comm 1, float_mul_comm 0]
    _ = z := by rw [float_mul_one, float_mul_one, hre.sub_mul_zero him, him.add_mul_zero hre]

/-- A number with stable parts **over one**. -/
theorem div_one (hre : IsStable z.re) (him : IsStable z.im) : z.div Number.one = z := by
  have hlarger : (0 : Float).abs ≤ (1 : Float).abs := by decide +kernel
  have hratio : (0 : Float) / 1 = 0 := float_div_one 0
  have hdivisor : (1 : Float) + 0 * 0 = 1 := by decide +kernel
  calc z.div Number.one
      = ⟨(z.re + z.im * (0 / 1)) / (1 + 0 * (0 / 1)),
          (z.im - z.re * (0 / 1)) / (1 + 0 * (0 / 1))⟩ := if_pos hlarger
    _ = z := by
        rw [hratio, hdivisor, float_div_one, float_div_one, hre.add_mul_zero him,
          him.sub_mul_zero hre]

end IsStable

end Argand
