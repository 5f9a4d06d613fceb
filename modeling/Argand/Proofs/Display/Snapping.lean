import Argand.Proofs.Display.Positional

/-!
# Snapped parts stay as they are

Snapping a part sets a tiny one to zero and rounds one with a noisy tail to twelve places. What it
gives is snapped: a float of which the last bit is worth more than a place is its own rounding, the
float of a decimal fraction with twelve places is rounded to that fraction again, and no such float
but zero is tiny. So snapping a number twice is snapping it once, and both parts of a snapped number
that is finite are themselves snapped.

## Main definitions

* `Argand.IsStable`: a part that is finite and snapped.

## Main results

* `Argand.IsPositive.roundToPlaces_twice`: rounding to twelve places twice is rounding once.
* `Argand.snapPart_snapPart`, `Argand.Number.isSnapped_snap`: so is snapping.
* `Argand.Number.isStable_snap`: the parts of a finite snapped number are stable.
* `Argand.Number.IsSnapped.eq_of_equals`: snapped numbers that are equal are the same.
-/

namespace Argand

open Float.Model Float.Model.UnpackedFloat

/-! ### Rounding to places twice -/

/-- A distance counted in places. -/
theorem abs_sub_div_pow (v c : ℚ) (p : Nat) : |v - c / 10 ^ p| * 10 ^ p = |c - v * 10 ^ p| := by
  have hten : (0 : ℚ) < 10 ^ p := by positivity
  have hscaled : c - v * 10 ^ p = -((v - c / 10 ^ p) * 10 ^ p) := by
    field_simp
    ring
  rw [hscaled, abs_neg, abs_mul, abs_of_pos hten]

section Places

variable {y : Float}

/-- **The decimal fraction** that a positive float is rounded to. -/
theorem IsPositive.exists_roundToPlaces (hy : IsPositive y) {p : Nat} (hp : p ≤ 22) :
    ∃ c : Nat, |(c : ℚ) - (Magnitude.ofFloat y).value * 10 ^ p| ≤ 1 / 2 ∧
      roundToPlaces y p = Decimal.toFloat ⟨false, c, -p⟩ := by
  obtain ⟨hd, hvalue⟩ := Magnitude.scaledBy_eq (Magnitude.ofFloat y).mantissa
    (Magnitude.ofFloat y).exponent p
  have hnear := abs_roundHalfEven_sub (Magnitude.scaledBy (Magnitude.ofFloat y).mantissa
    (Magnitude.ofFloat y).exponent p).1 hd
  rw [hvalue, zpow_natCast] at hnear
  refine ⟨_, hnear, ?_⟩
  have hmost : ¬ mostPlaces < (p : Int) := by
    unfold mostPlaces
    omega
  have hfewest : ¬ (p : Int) < fewestPlaces := by
    unfold fewestPlaces
    omega
  rw [roundToPlaces, hy.isFinite, hy.beq_zero, if_neg (by simpa using hmost), if_neg hfewest,
    decimalWithPlaces, hy.isNegative]
  rfl

/-- A float of which the last bit is worth more than a place **is its own rounding**. -/
theorem IsPositive.roundToPlaces_eq_self (hy : IsPositive y) {m : Nat} {e : Int} {hm : 0 < m}
    (hu : y.toModel.unpack = .finite .positive m e hm) (he : -39 ≤ e) :
    roundToPlaces y (12 : Nat) = y := by
  obtain ⟨c, hnear, hround⟩ := hy.exists_roundToPlaces (show 12 ≤ 22 by decide)
  rw [hround]
  rw [magnitude_of_unpack hu, Magnitude.value] at hnear
  have hcanonical : IsCanonical (.finite .positive m e hm) := hu ▸ (unpack_spec y.toModel).1
  have hfull : 2 ^ 52 ≤ m := by cases hcanonical <;> omega
  have hscale : (2 : ℚ) ^ (-40 : Int) ≤ 2 ^ (e - 1) :=
    zpow_le_zpow_right₀ (by norm_num) (by omega)
  refine toFloat_eq_of_near (by decide) (by decide) hu hfull ?_ fun hpower => ?_
  · rw [← abs_sub_div_pow] at hnear
    have hsmall : (1 / 2 : ℚ) < 2 ^ (-40 : Int) * 10 ^ 12 := by norm_num
    refine lt_of_mul_lt_mul_right ?_ (show (0 : ℚ) ≤ 10 ^ 12 by norm_num)
    calc |(m : ℚ) * 2 ^ e - c / 10 ^ 12| * 10 ^ 12 ≤ 1 / 2 := hnear
      _ < 2 ^ (-40 : Int) * 10 ^ 12 := hsmall
      _ ≤ 2 ^ (e - 1) * 10 ^ 12 := by gcongr
  · -- a power of two is a whole number
    have hwhole : (m : ℚ) * 2 ^ e * 10 ^ 12 = (2 ^ (e + 52).toNat * 10 ^ 12 : Nat) := by
      have hpow : (2 : ℚ) ^ (e + 52).toNat = 2 ^ 52 * 2 ^ e := by
        rw [← zpow_natCast, mul_comm, ← zpow_natCast, ← zpow_add₀ two_ne_zero]
        congr 1
        push_cast
        omega
      push_cast
      rw [hpower, hpow]
      push_cast
      ring
    have hc : c = 2 ^ (e + 52).toNat * 10 ^ 12 :=
      eq_of_abs_sub hnear (by rw [hwhole, sub_self, abs_zero]; norm_num)
    rw [le_div_iff₀ (by norm_num), hwhole, hc]

/-- A float of which the last bit is worth less than a place is rounded to **the decimal fraction
that it is the float of**. -/
theorem IsPositive.roundToPlaces_of_near (hy : IsPositive y) {m : Nat} {e : Int} {hm : 0 < m}
    (hu : y.toModel.unpack = .finite .positive m e hm) (he : e ≤ -40) {c : Nat}
    (hnear : |(m : ℚ) * 2 ^ e - c / 10 ^ 12| ≤ 2 ^ (e - 1)) :
    roundToPlaces y (12 : Nat) = Decimal.toFloat ⟨false, c, -(12 : Nat)⟩ := by
  obtain ⟨c', hagain, hround⟩ := hy.exists_roundToPlaces (show 12 ≤ 22 by decide)
  rw [magnitude_of_unpack hu, Magnitude.value] at hagain
  have hclose : |(c : ℚ) - m * 2 ^ e * 10 ^ 12| < 1 / 2 := by
    rw [← abs_sub_div_pow]
    have hhalf : (2 : ℚ) ^ (e - 1) ≤ 2 ^ (-41 : Int) :=
      zpow_le_zpow_right₀ (by norm_num) (by omega)
    calc |(m : ℚ) * 2 ^ e - c / 10 ^ 12| * 10 ^ 12 ≤ 2 ^ (-41 : Int) * 10 ^ 12 := by
          gcongr
          exact hnear.trans hhalf
      _ < 1 / 2 := by norm_num
  obtain rfl := eq_of_abs_sub hagain hclose
  exact hround

/-- A float of which the last bit is worth less than a place is **not large**. -/
theorem value_lt_of_exponent {m : Nat} {e : Int} {hm : 0 < m}
    (hu : y.toModel.unpack = .finite .positive m e hm) (he : e ≤ -40) :
    (Magnitude.ofFloat y).value < 2 ^ 13 := by
  have hless : (m : ℚ) < 2 ^ 53 := by exact_mod_cast (bounds_of_unpack hu).1
  rw [magnitude_of_unpack hu, Magnitude.value]
  calc (m : ℚ) * 2 ^ e < 2 ^ 53 * 2 ^ e := by gcongr
    _ ≤ 2 ^ 53 * 2 ^ (-40 : Int) := by
      gcongr
      norm_num
    _ = 2 ^ 13 := by norm_num

/-- The float of a decimal fraction that is not zero is **not much smaller than one unit** of the
last place. -/
theorem one_le_value_of_near {m c : Nat} {e : Int} {hm : 0 < m}
    (hu : y.toModel.unpack = .finite .positive m e hm) (hc : 0 < c)
    (hnear : |(m : ℚ) * 2 ^ e - c / 10 ^ 12| ≤ 2 ^ (e - 1)) :
    (1 : ℚ) ≤ (Magnitude.ofFloat y).value * (2 * 10 ^ 12) := by
  rw [magnitude_of_unpack hu, Magnitude.value]
  have hunit : (1 : ℚ) / 10 ^ 12 ≤ c / 10 ^ 12 := by
    gcongr
    exact_mod_cast hc
  have hmore := hunit.trans (bounds_of_near hm hnear).1
  rw [div_le_iff₀ (by norm_num)] at hmore
  linarith

/-- **Rounding to places twice** is rounding once. What it gives is not much smaller than one unit
of the last place. -/
theorem IsPositive.roundToPlaces_twice (hy : IsPositive y) :
    roundToPlaces y (12 : Nat) = y ∨ roundToPlaces y (12 : Nat) = 0 ∨
      ∃ z, roundToPlaces y (12 : Nat) = z ∧ IsPositive z ∧ roundToPlaces z (12 : Nat) = z ∧
        (1 : ℚ) ≤ (Magnitude.ofFloat z).value * (2 * 10 ^ 12) := by
  obtain ⟨m, e, hm, hu⟩ := id hy
  by_cases hcoarse : -39 ≤ e
  · exact .inl (hy.roundToPlaces_eq_self hu hcoarse)
  refine .inr ?_
  obtain ⟨c, hnear, hround⟩ := hy.exists_roundToPlaces (show 12 ≤ 22 by decide)
  obtain rfl | hc := Nat.eq_zero_or_pos c
  · exact .inl (hround.trans (by decide +kernel))
  refine .inr ⟨_, rfl, ?_⟩
  have hsmall : (c : ℚ) / 10 ^ 12 < 2 ^ (971 : Int) := by
    have hvalue := value_lt_of_exponent hu (by omega)
    have hle := (abs_le.mp hnear).2
    calc (c : ℚ) / 10 ^ 12 < 2 ^ (14 : Int) := by
          rw [div_lt_iff₀ (by norm_num), show (2 : ℚ) ^ (14 : Int) = 2 * 2 ^ 13 by norm_num]
          linarith
      _ ≤ 2 ^ (971 : Int) := zpow_le_zpow_right₀ (by norm_num) (by norm_num)
  obtain ⟨m', k, hm', hu', hnear'⟩ := toFloat_near (by decide) (show 12 ≤ 22 by decide) hc hsmall
  rw [← hround] at hu'
  have hz : IsPositive (roundToPlaces y (12 : Nat)) := ⟨m', k, hm', hu'⟩
  refine ⟨hz, ?_, one_le_value_of_near hu' hc hnear'⟩
  by_cases hcoarse' : -39 ≤ k
  · exact hz.roundToPlaces_eq_self hu' hcoarse'
  · exact (hz.roundToPlaces_of_near hu' (by omega) hnear').trans hround.symm

end Places

/-! ### Snapping twice -/

section Positive

variable {y : Float} (hy : IsPositive y)

include hy

/-- A part that is not tiny, and that rounding leaves alone if its tail is noise, **is snapped**. -/
theorem IsPositive.snapPart_eq_self (hlarge : ¬ y < epsilon)
    (hround : isNoisy y = true → roundToPlaces y (12 : Nat) = y) : snapPart y = y := by
  have habs : y.abs = y := hy.abs_withSign false
  have hsame : (if isNoisy y = true then roundToPlaces y (precision - 2) else y) = y := by
    split
    · exact hround ‹_›
    · rfl
  rw [snapPart, hy.isFinite, habs, hsame, if_neg (by decide), if_neg hlarge]
  exact if_neg (by rw [hy.beq_zero]; decide)

/-- A float with more than half a unit of the twelfth place is not tiny. -/
theorem IsPositive.not_lt_epsilon (h : (1 : ℚ) ≤ (Magnitude.ofFloat y).value * (2 * 10 ^ 12)) :
    ¬ y < epsilon := by
  have hepsilon : epsilon.toModel.unpack =
      .finite .positive 6338253001141147 (-99) (by decide) := rfl
  intro hlt
  have hvalue := hy.value_lt_value ⟨_, _, _, hepsilon⟩ hlt
  rw [magnitude_of_unpack hepsilon] at hvalue
  have hsmall : (⟨6338253001141147, -99⟩ : Magnitude).value * (2 * 10 ^ 12) < 1 := by
    rw [Magnitude.value]
    norm_num
  have hless := mul_lt_mul_of_pos_right hvalue (show (0 : ℚ) < 2 * 10 ^ 12 by norm_num)
  linarith

/-- **A snapped positive part** is zero, or positive and its own snapped form. -/
theorem IsPositive.snapPart_snapPart :
    snapPart y = 0 ∨ IsPositive (snapPart y) ∧ snapPart (snapPart y) = snapPart y := by
  have habs : y.abs = y := hy.abs_withSign false
  by_cases htiny : y < epsilon
  · refine .inl ?_
    rw [snapPart, hy.isFinite, habs, if_neg (by decide), if_pos htiny]
  by_cases hnoisy : isNoisy y = true
  · have hsnap : snapPart y =
        if roundToPlaces y (12 : Nat) == 0 then 0 else roundToPlaces y (12 : Nat) := by
      rw [snapPart, hy.isFinite, habs, if_neg (by decide), if_neg htiny, if_pos hnoisy]
      rfl
    obtain hsame | hzero | ⟨z, hround, hz, hagain, hlarge⟩ := hy.roundToPlaces_twice
    · have hself := hy.snapPart_eq_self htiny fun _ => hsame
      exact .inr ⟨hself.symm ▸ hy, by rw [hself, hself]⟩
    · refine .inl (hsnap.trans ?_)
      rw [hzero]
      decide +kernel
    · have hself := hz.snapPart_eq_self (hz.not_lt_epsilon hlarge) fun _ => hagain
      rw [hround, hz.beq_zero, if_neg (by decide)] at hsnap
      exact .inr ⟨hsnap.symm ▸ hz, by rw [hsnap, hself]⟩
  · have hself := hy.snapPart_eq_self htiny fun h => absurd h hnoisy
    exact .inr ⟨hself.symm ▸ hy, by rw [hself, hself]⟩

end Positive

/-- **Snapping a part twice** is snapping it once. -/
theorem snapPart_snapPart (x : Float) : snapPart (snapPart x) = snapPart x := by
  have hzero : snapPart 0 = 0 := by decide +kernel
  cases hfinite : x.isFinite with
  | false =>
      have hself : snapPart x = x := by
        rw [snapPart, hfinite]
        rfl
      rw [hself, hself]
  | true =>
      obtain hsmall | ⟨negative, y, rfl, hy⟩ := zero_or_withSign hfinite
      · rw [hsmall, hzero]
      · rw [hy.snapPart_withSign]
        obtain hsnap | ⟨hpositive, hagain⟩ := hy.snapPart_snapPart
        · rw [hsnap]
          exact hzero
        · rw [hpositive.beq_zero, if_neg (by decide), hpositive.snapPart_withSign, hagain,
            hpositive.beq_zero, if_neg (by decide)]

/-! ### Stable parts -/

/-- A part that is **finite and snapped**. -/
structure IsStable (x : Float) : Prop where
  finite : x.isFinite
  snapped : snapPart x = x

namespace IsStable

variable {x y : Float}

/-- Zero has no sign. -/
theorem ne_negative_zero (hx : IsStable x) : x.toModel.unpack ≠ .zero .negative := by
  intro hu
  have hneg : x = -0 := eq_of_unpack (hu.trans (unpack_neg 0).symm)
  have hsnap : snapPart (-0) = 0 := by decide +kernel
  have hx := hx.snapped
  rw [hneg, hsnap] at hx
  cases congrArg (fun x : Float => x.toModel.unpack) hx

theorem zero : IsStable 0 where
  finite := rfl
  snapped := by decide +kernel

/-- A finite part is not infinite. -/
theorem beq_of_not_isFinite (hx : IsStable x) (hy : y.isFinite = false) : (x == y) = false := by
  have hfinite := hx.finite
  rw [Bool.eq_false_iff]
  intro h
  obtain ⟨rfl, -⟩ | ⟨-, s, hs⟩ := float_beq_iff.mp h
  · rw [hy] at hfinite
    cases hfinite
  · have : y.toModel.unpack.isFinite = false := hy
    rw [hs] at this
    cases this

theorem isNaN (hx : IsStable x) : x.isNaN = false := by
  obtain ⟨s, hu⟩ | ⟨s, m, e, hm, hu⟩ := unpack_of_isFinite hx.finite <;>
  · show x.toModel.unpack.isNaN = false
    rw [hu]
    rfl

/-- **A number with stable parts** is snapped. -/
theorem isSnapped {z : Number} (hre : IsStable z.re) (him : IsStable z.im) : z.IsSnapped := by
  have hinf : Number.infinity.re.isFinite = false := by decide +kernel
  have hneg : (-Number.infinity.re).isFinite = false := by decide +kernel
  unfold Number.IsSnapped Number.snap
  simp only [hre.snapped, him.snapped, hre.isNaN, him.isNaN, hre.beq_of_not_isFinite hinf,
    him.beq_of_not_isFinite hinf, hre.beq_of_not_isFinite hneg, him.beq_of_not_isFinite hneg,
    Bool.or_self, Bool.false_eq_true, if_false]

end IsStable

/-- A float that is neither NaN nor equal to an infinity **is finite**. -/
theorem isFinite_of_beq {x : Float} (hnan : x.isNaN = false)
    (hinf : (x == Number.infinity.re) = false) (hneg : (x == -Number.infinity.re) = false) :
    x.isFinite = true := by
  have hpos : Number.infinity.re.toModel.unpack = .infinity .positive := rfl
  have hneg' : (-Number.infinity.re).toModel.unpack = .infinity .negative := rfl
  have hsame {y : Float} {s : UnpackedFloat.Sign} (hx : x.toModel.unpack = .infinity s)
      (hy : y.toModel.unpack = .infinity s) : (x == y) = true :=
    float_beq_iff.mpr (.inl ⟨eq_of_unpack (hx.trans hy.symm), by rw [hx]; exact nofun⟩)
  show x.toModel.unpack.isFinite = true
  replace hnan : x.toModel.unpack.isNaN = false := hnan
  cases hu : x.toModel.unpack with
  | notANumber =>
      rw [hu] at hnan
      cases hnan
  | infinity s =>
      cases s with
      | positive => cases hinf.symm.trans (hsame hu hpos)
      | negative => cases hneg.symm.trans (hsame hu hneg')
  | zero s => rfl
  | finite s m e hm => rfl

/-- Floats that are equal and no negative zeros **are the same**. -/
theorem eq_of_beq_of_ne {x y : Float} (h : (x == y) = true)
    (hx : x.toModel.unpack ≠ .zero .negative) (hy : y.toModel.unpack ≠ .zero .negative) :
    x = y := by
  have hpositive {z : Float} (hz : ∃ s, z.toModel.unpack = .zero s)
      (hne : z.toModel.unpack ≠ .zero .negative) : z.toModel.unpack = .zero .positive := by
    obtain ⟨s, hs⟩ := hz
    cases s with
    | positive => exact hs
    | negative => exact absurd hs hne
  obtain ⟨rfl, -⟩ | ⟨hzero, hzero'⟩ := float_beq_iff.mp h
  · rfl
  · exact eq_of_unpack ((hpositive hzero hx).trans (hpositive hzero' hy).symm)

namespace Number

/-- A snapped number is NaN, one of the infinities, or has **stable parts**. -/
theorem snap_cases (z : Number) : z.snap = nan ∨ z.snap = infinity ∨ z.snap = negativeInfinity ∨
    IsStable z.snap.re ∧ IsStable z.snap.im := by
  by_cases hnan : ((snapPart z.re).isNaN || (snapPart z.im).isNaN) = true
  · exact .inl (if_pos hnan)
  by_cases hinf : (snapPart z.re == infinity.re || snapPart z.im == infinity.re) = true
  · exact .inr (.inl ((if_neg hnan).trans (if_pos hinf)))
  by_cases hneg : (snapPart z.re == -infinity.re || snapPart z.im == -infinity.re) = true
  · exact .inr (.inr (.inl ((if_neg hnan).trans ((if_neg hinf).trans (if_pos hneg)))))
  have hsnap : z.snap = ⟨snapPart z.re, snapPart z.im⟩ :=
    (if_neg hnan).trans ((if_neg hinf).trans (if_neg hneg))
  simp only [Bool.or_eq_true, not_or, Bool.not_eq_true] at hnan hinf hneg
  rw [hsnap]
  exact .inr (.inr (.inr ⟨⟨isFinite_of_beq hnan.1 hinf.1 hneg.1, snapPart_snapPart z.re⟩,
    ⟨isFinite_of_beq hnan.2 hinf.2 hneg.2, snapPart_snapPart z.im⟩⟩))

/-- **Snapping twice is snapping once.** -/
theorem isSnapped_snap (z : Number) : z.snap.IsSnapped := by
  obtain h | h | h | ⟨hre, him⟩ := z.snap_cases
  · rw [h]
    decide +kernel
  · rw [h]
    decide +kernel
  · rw [h]
    decide +kernel
  · exact IsStable.isSnapped hre him

/-- **The parts of a finite snapped number** are stable. -/
theorem isStable_snap {z : Number} (hfinite : z.snap.isFinite) :
    IsStable z.snap.re ∧ IsStable z.snap.im := by
  have hnan : nan.isFinite = false := by decide +kernel
  have hinf : infinity.isFinite = false := by decide +kernel
  have hneg : negativeInfinity.isFinite = false := by decide +kernel
  obtain h | h | h | hstable := z.snap_cases
  · cases (h ▸ hfinite).symm.trans hnan
  · cases (h ▸ hfinite).symm.trans hinf
  · cases (h ▸ hfinite).symm.trans hneg
  · exact hstable

/-- The parts of a snapped number **are no negative zeros**. -/
theorem IsSnapped.ne_negative_zero {z : Number} (hz : z.IsSnapped) :
    z.re.toModel.unpack ≠ .zero .negative ∧ z.im.toModel.unpack ≠ .zero .negative := by
  rw [← show z.snap = z from hz]
  obtain h | h | h | ⟨hre, him⟩ := z.snap_cases
  · rw [h]
    exact ⟨nofun, nofun⟩
  · rw [h]
    exact ⟨nofun, nofun⟩
  · rw [h]
    exact ⟨nofun, nofun⟩
  · exact ⟨hre.ne_negative_zero, him.ne_negative_zero⟩

/-- **Snapped numbers that are equal** are the same. -/
theorem IsSnapped.eq_of_equals {z w : Number} (hz : z.IsSnapped) (hw : w.IsSnapped)
    (h : z.equals w = true) : z = w := by
  obtain ⟨hre, him⟩ := Bool.and_eq_true_iff.mp h
  have hreal := eq_of_beq_of_ne hre hz.ne_negative_zero.1 hw.ne_negative_zero.1
  have himaginary := eq_of_beq_of_ne him hz.ne_negative_zero.2 hw.ne_negative_zero.2
  calc z = ⟨z.re, z.im⟩ := rfl
    _ = w := by rw [hreal, himaginary]

end Number

end Argand
