import Argand.Proofs.Digits
import Argand.Proofs.Display.Canonical

/-!
# Floats of opposite sign

The sign of a float passes through rounding, snapping and writing: what a negative float is rounded
to is the negative of what its absolute value is rounded to, and its text is that of its absolute
value after a minus sign.

## Main definitions

* `Argand.IsPositive`: a finite float above zero.
* `Argand.withSign`: a float or its negative.

## Main results

* `Argand.exists_withSign`: a snapped finite part is zero, or a positive one with a sign.
* `Argand.partText_withSign`: the text of a part with a sign.
-/

namespace Argand

open Float.Model Float.Model.UnpackedFloat

/-- A finite float **above zero**. -/
def IsPositive (x : Float) : Prop :=
  ∃ m e hm, x.toModel.unpack = .finite .positive m e hm

/-- A float, or its **negative**. -/
def withSign (negative : Bool) (x : Float) : Float :=
  if negative then -x else x

/-! ### Signs of floats -/

section Signs

variable {negative : Bool} {x y : Float}

/-- Floats with the same sign are told apart without it. -/
theorem withSign_inj (h : withSign negative x = withSign negative y) : x = y := by
  cases negative with
  | false => exact h
  | true => exact (float_neg_neg x).symm.trans ((congrArg (- ·) h).trans (float_neg_neg y))

theorem isZero_unpack_withSign : (∃ s, (withSign negative x).toModel.unpack = .zero s) ↔
    ∃ s, x.toModel.unpack = .zero s := by
  cases negative with
  | false => exact Iff.rfl
  | true =>
      simp only [withSign, if_true, unpack_neg]
      cases x.toModel.unpack <;> simp [UnpackedFloat.neg]

/-- A float with a sign is equal to zero when the float is. -/
@[simp] theorem withSign_beq_zero : (withSign negative x == 0) = (x == 0) := by
  rw [Bool.eq_iff_iff, float_beq_zero, float_beq_zero, isZero_unpack_withSign]

/-- A sign on both sides keeps an equality of floats. -/
@[simp] theorem withSign_beq_withSign :
    (withSign negative x == withSign negative y) = (x == y) := by
  have hsame : withSign negative x = withSign negative y ↔ x = y :=
    ⟨withSign_inj, fun h => by rw [h]⟩
  have hnumber : (withSign negative x).toModel.unpack = .notANumber ↔
      x.toModel.unpack = .notANumber := by
    cases negative with
    | false => exact Iff.rfl
    | true =>
        simp only [withSign, if_true, unpack_neg]
        cases x.toModel.unpack <;> simp [UnpackedFloat.neg]
  rw [Bool.eq_iff_iff, float_beq_iff, float_beq_iff, isZero_unpack_withSign,
    isZero_unpack_withSign, hsame, ne_eq, ne_eq, hnumber]

end Signs

/-- The float of a decimal number has its sign. -/
theorem toFloat_withSign (negative : Bool) (c : Nat) (e : Int) :
    Decimal.toFloat ⟨negative, c, e⟩ = withSign negative (Decimal.toFloat ⟨false, c, e⟩) := by
  cases negative <;> rfl

/-! ### Positive floats -/

section Positive

variable {y : Float} (hy : IsPositive y) (negative : Bool)

include hy

theorem IsPositive.unpack_withSign : ∃ m e hm, y.toModel.unpack = .finite .positive m e hm ∧
    (withSign negative y).toModel.unpack =
      .finite (if negative then .negative else .positive) m e hm := by
  obtain ⟨m, e, hm, hu⟩ := hy
  refine ⟨m, e, hm, hu, ?_⟩
  cases negative with
  | false => exact hu
  | true =>
      simp only [withSign, if_true, unpack_neg, hu]
      rfl

theorem IsPositive.isFinite_withSign : (withSign negative y).isFinite = true := by
  obtain ⟨m, e, hm, -, hu⟩ := hy.unpack_withSign negative
  show (withSign negative y).toModel.unpack.isFinite = true
  rw [hu]
  rfl

theorem IsPositive.isNaN_withSign : (withSign negative y).isNaN = false := by
  obtain ⟨m, e, hm, -, hu⟩ := hy.unpack_withSign negative
  show (withSign negative y).toModel.unpack.isNaN = false
  rw [hu]
  rfl

theorem IsPositive.isInf_withSign : (withSign negative y).isInf = false :=
  isInf_eq_false (hy.isFinite_withSign negative)

/-- The absolute value drops the sign. -/
theorem IsPositive.abs_withSign : (withSign negative y).abs = y := by
  obtain ⟨m, e, hm, hu, hsign⟩ := hy.unpack_withSign negative
  refine eq_of_unpack ?_
  rw [unpack_abs, hsign, hu]
  rfl

theorem IsPositive.beq_zero : (y == 0) = false := by
  obtain ⟨m, e, hm, hu⟩ := hy
  rw [Bool.eq_false_iff]
  intro h
  obtain ⟨s, hs⟩ := float_beq_zero.mp h
  cases hu.symm.trans hs

theorem IsPositive.pos : 0 < y := by
  obtain ⟨m, e, hm, hu⟩ := hy
  have hlt : (UnpackedFloat.compare (0 : Float).toModel.unpack y.toModel.unpack == some .lt) =
      true := by
    rw [hu, unpack_float_zero]
    rfl
  exact decide_eq_true hlt

/-- A float with a minus sign is **below zero**, one without is not. -/
theorem IsPositive.withSign_lt_zero : decide (withSign negative y < 0) = negative := by
  obtain ⟨m, e, hm, -, hu⟩ := hy.unpack_withSign negative
  have hlt : decide (withSign negative y < 0) =
      (UnpackedFloat.compare (withSign negative y).toModel.unpack (0 : Float).toModel.unpack ==
        some .lt) := by
    rw [Bool.eq_iff_iff, decide_eq_true_iff]
    exact ⟨of_decide_eq_true, decide_eq_true⟩
  rw [hlt, hu, unpack_float_zero]
  cases negative <;> rfl

theorem IsPositive.isNegative_withSign : isNegative (withSign negative y) = negative := by
  obtain ⟨m, e, hm, -, hu⟩ := hy.unpack_withSign negative
  rw [isNegative_of_unpack hu]
  cases negative <;> rfl

theorem IsPositive.magnitude_withSign :
    Magnitude.ofFloat (withSign negative y) = Magnitude.ofFloat y := by
  obtain ⟨m, e, hm, hu, hsign⟩ := hy.unpack_withSign negative
  rw [magnitude_of_unpack hsign, magnitude_of_unpack hu]

theorem IsPositive.isFinite : y.isFinite = true :=
  hy.isFinite_withSign false

theorem IsPositive.isNegative : isNegative y = false :=
  hy.isNegative_withSign false

/-! ### Rounding and snapping -/

theorem IsPositive.toFloat_decimalWithPlaces (places : Int) :
    (decimalWithPlaces (withSign negative y) places).toFloat =
      withSign negative (decimalWithPlaces y places).toFloat := by
  rw [decimalWithPlaces, decimalWithPlaces, hy.magnitude_withSign, hy.isNegative_withSign,
    hy.isNegative]
  exact toFloat_withSign negative _ _

/-- **Rounding to places** keeps the sign. -/
theorem IsPositive.roundToPlaces_withSign (places : Int) :
    roundToPlaces (withSign negative y) places = withSign negative (roundToPlaces y places) := by
  have hzero : withSignOf (withSign negative y) 0 = withSign negative (withSignOf y 0) := by
    rw [withSignOf, withSignOf, hy.isNegative_withSign, hy.isNegative]
    rfl
  rw [roundToPlaces, roundToPlaces, hy.isFinite_withSign, hy.isFinite, withSign_beq_zero]
  split
  · rfl
  · split
    · exact hzero
    · exact hy.toFloat_decimalWithPlaces negative places

theorem IsPositive.roundToSignificant_withSign (digits : Nat) :
    roundToSignificant (withSign negative y) digits =
      withSign negative (roundToSignificant y digits) := by
  rw [roundToSignificant, roundToSignificant, hy.isFinite_withSign, hy.isFinite, withSign_beq_zero]
  split
  · rfl
  · rw [decimalWithDigits, decimalWithDigits, hy.magnitude_withSign]
    exact hy.toFloat_decimalWithPlaces negative _

theorem IsPositive.isNoisy_withSign : isNoisy (withSign negative y) = isNoisy y := by
  rw [isNoisy, isNoisy, hy.roundToSignificant_withSign, hy.roundToSignificant_withSign,
    withSign_beq_withSign]

/-- **Snapping** keeps the sign, but for zero. -/
theorem IsPositive.snapPart_withSign : snapPart (withSign negative y) =
    if snapPart y == 0 then 0 else withSign negative (snapPart y) := by
  have habs : y.abs = y := hy.abs_withSign false
  rw [snapPart, snapPart, hy.isFinite_withSign, hy.abs_withSign, hy.isNoisy_withSign,
    hy.roundToPlaces_withSign, hy.isFinite, habs]
  have hif : (if isNoisy y = true then withSign negative (roundToPlaces y (precision - 2))
      else withSign negative y) =
      withSign negative (if isNoisy y = true then roundToPlaces y (precision - 2) else y) := by
    split <;> rfl
  simp only [Bool.not_true, Bool.false_eq_true, if_false, hif, withSign_beq_zero]
  generalize (if isNoisy y = true then roundToPlaces y (precision - 2) else y) = z
  split
  · rfl
  · split <;> rfl

/-- **The absolute value of a snapped part** is snapped. -/
theorem IsPositive.snapPart_of_withSign
    (h : snapPart (withSign negative y) = withSign negative y) : snapPart y = y := by
  rw [hy.snapPart_withSign] at h
  split at h
  · obtain ⟨m, e, hm, -, hu⟩ := hy.unpack_withSign negative
    rw [← h] at hu
    cases hu
  · exact withSign_inj h

end Positive

/-- **A finite float** is a zero, or a positive one with a sign. -/
theorem isZero_or_withSign {x : Float} (hx : x.isFinite) :
    (∃ s, x.toModel.unpack = .zero s) ∨ ∃ negative y, x = withSign negative y ∧ IsPositive y := by
  obtain hzero | ⟨s, m, e, hm, hu⟩ := unpack_of_isFinite hx
  · exact .inl hzero
  · refine .inr ?_
    cases s with
    | positive => exact ⟨false, x, rfl, ⟨m, e, hm, hu⟩⟩
    | negative => exact ⟨true, -x, (float_neg_neg x).symm, ⟨m, e, hm, by rw [unpack_neg, hu]; rfl⟩⟩

/-- **A finite part** is snapped to zero, or a positive one with a sign. -/
theorem zero_or_withSign {x : Float} (hx : x.isFinite) :
    snapPart x = 0 ∨ ∃ negative y, x = withSign negative y ∧ IsPositive y := by
  refine (isZero_or_withSign hx).imp_left fun ⟨s, hu⟩ => ?_
  obtain rfl | rfl := eq_zero_or_neg_zero hu <;> decide +kernel

/-- **A snapped finite part** is zero, or a positive one with a sign. -/
theorem exists_withSign {x : Float} (hx : x.isFinite) (hsnap : snapPart x = x) :
    x = 0 ∨ ∃ negative y, x = withSign negative y ∧ IsPositive y :=
  (zero_or_withSign hx).imp_left fun hzero => hsnap.symm.trans hzero

/-! ### Writing -/

/-- Zeros are dropped whatever the sign is. -/
theorem dropZeros_withSign (negative : Bool) (count : Nat) (d : Decimal) :
    Decimal.dropZeros count { d with negative := negative } =
      { d.dropZeros count with negative := negative } := by
  induction count generalizing d with
  | zero => rfl
  | succ count ih =>
      rw [Decimal.dropZeros, Decimal.dropZeros]
      split
      · exact ih { d with coefficient := d.coefficient / 10, exponent := d.exponent + 1 }
      · rfl

section Positive

variable {y : Float} (hy : IsPositive y) (negative : Bool)

include hy

/-- **The shortest digits** do not depend on the sign. -/
theorem IsPositive.shortestDecimal_withSign :
    shortestDecimal (withSign negative y) = { shortestDecimal y with negative := negative } := by
  simp only [shortestDecimal, hy.magnitude_withSign, hy.isNegative_withSign, hy.isNegative]
  rw [← dropZeros_withSign]
  congr 1
  generalize List.range sufficientDigits = ks
  induction ks with
  | nil => rfl
  | cons k ks ih =>
      simp only [List.findSome?_cons]
      cases (Magnitude.ofFloat y).roundingInterval.nearest?
        ((k : Int) - (Magnitude.ofFloat y).decimalOrder) with
      | none => exact ih
      | some c => rfl

/-- A float with a sign **as text**. -/
theorem IsPositive.floatText_withSign :
    floatText (withSign negative y) = (if negative then "-" else "") ++
      Layout.standard.digits (shortestDecimal y) := by
  rw [floatText, writeFloat, hy.isNaN_withSign, hy.isNegative_withSign, hy.isInf_withSign,
    withSign_beq_zero, hy.beq_zero, hy.shortestDecimal_withSign]
  rfl

/-- The whole number that a float with a sign is. -/
theorem IsPositive.wholePart?_withSign :
    wholePart? (withSign negative y) =
      (wholePart? y).map fun n => if negative then -n else n := by
  rw [wholePart?, wholePart?, hy.isFinite_withSign, hy.magnitude_withSign, hy.isNegative_withSign,
    hy.isFinite, hy.isNegative]
  simp only [Bool.not_true, Bool.false_eq_true, if_false]
  split <;> rfl

/-- A part with a sign **as text**. -/
theorem IsPositive.partText_withSign :
    Number.partText (withSign negative y) =
      (if negative then "-" else "") ++ Number.partText y := by
  have hplain := hy.floatText_withSign false
  rw [Number.partText, Number.partText, hy.wholePart?_withSign]
  cases hwhole : wholePart? y with
  | none =>
      show floatText (withSign negative y) = _ ++ floatText (withSign false y)
      rw [hy.floatText_withSign, hplain]
      rfl
  | some n =>
      obtain ⟨m, e, hm, hu⟩ := hy
      obtain ⟨k, rfl, hk, -⟩ := exists_of_wholePart? hu hwhole
      cases negative with
      | false => exact String.toList_inj.mp rfl
      | true =>
          have hsign : -(k : Int) < 0 := by omega
          refine String.toList_inj.mp ?_
          show (toString (-(k : Int))).toList = ("-" ++ toString (k : Int)).toList
          rw [String.toList_append, Text.toList_toString_int, Text.toList_toString_int,
            if_pos hsign, if_neg (by omega), Int.natAbs_neg]
          rfl

end Positive

end Argand
