import Argand.Proofs.Display.Canonical

/-!
# The float nearest to a fraction

Rounding keeps a mantissa with two more bits, which tell the remainder of a fraction: shifting a bit
out doubles the denominator, and the mantissa is rounded to the nearest whole number, in a tie to
the even one. So the float that a fraction is rounded to differs from it by half a unit of its last
bit at most, and a float that is that close to a fraction is the one it is rounded to. The float of
a decimal number with a few places is a quotient of two whole numbers and so rounded in this way.

## Main definitions

* `Argand.fractionMantissa`: the mantissa of a fraction, with its two bits.
* `Argand.roundingExponent`, `Argand.roundingMantissa`: the parts that a fraction is rounded to.

## Main results

* `Argand.roundWithAccuracy_fraction`: how a fraction is rounded.
* `Argand.roundWithAccuracy_near`, `Argand.roundWithAccuracy_eq`: the float nearest to a fraction.
* `Argand.toFloat_near`, `Argand.toFloat_eq_of_near`: the float nearest to a decimal fraction.
-/

namespace Argand

open Float.Model Float.Model.UnpackedFloat

/-! ### Mantissas of fractions -/

/-- The **extended mantissa** of a fraction. -/
def fractionMantissa (n d : Nat) : ExtendedMantissa :=
  .ofMantissaAndAccuracy (n / d) (accuracyOfFraction (n % d) d)

section Fractions

variable {n d : Nat} (hd : 0 < d)

include hd

/-- The two bits after the mantissa tell the remainder of a fraction. -/
theorem fractionMantissa_eq : fractionMantissa n d =
    ⟨n / d, decide (d ≤ 2 * (n % d)), decide (0 < n % d ∧ 2 * (n % d) ≠ d)⟩ := by
  unfold fractionMantissa accuracyOfFraction
  split
  · rename_i hzero
    simp [hzero, ExtendedMantissa.ofMantissaAndAccuracy, hd.ne']
  · rename_i hne
    have hpos : 0 < n % d := Nat.pos_of_ne_zero hne
    obtain hlt | heq | hgt := Nat.lt_trichotomy (2 * (n % d)) d
    · simp [Nat.compare_eq_lt.mpr hlt, ExtendedMantissa.ofMantissaAndAccuracy, hlt, hlt.ne, hpos]
    · simp [ExtendedMantissa.ofMantissaAndAccuracy, heq]
    · simp [Nat.compare_eq_gt.mpr hgt, ExtendedMantissa.ofMantissaAndAccuracy, hgt.le, hgt.ne',
        hpos]

/-- Shifting one bit out **doubles the denominator**. -/
theorem shiftRightOne_fractionMantissa :
    (fractionMantissa n d).shiftRightOne = fractionMantissa n (d * 2) := by
  have hmod : n % (d * 2) = n % d + d * (n / d % 2) := Nat.mod_mul
  have hlt := Nat.mod_lt n hd
  rw [fractionMantissa_eq hd, fractionMantissa_eq (by omega), ExtendedMantissa.shiftRightOne,
    ← Nat.div_div_eq_div_mul, hmod]
  obtain hbit | hbit := Nat.mod_two_eq_zero_or_one (n / d)
  · simp only [hbit]
    congr 1
    · simp; omega
    · rw [Bool.eq_iff_iff]; simp; omega
  · simp only [hbit]
    congr 1
    · simp; omega
    · rw [Bool.eq_iff_iff]; simp; omega

/-- Shifting bits out **multiplies the denominator** with a power of two. -/
theorem shiftRight_fractionMantissa (k : Nat) :
    fractionMantissa n d >>> k = fractionMantissa n (d * 2 ^ k) := by
  change k.repeat ExtendedMantissa.shiftRightOne (fractionMantissa n d) = _
  induction k with
  | zero => simp [Nat.repeat]
  | succ k ih =>
      rw [Nat.repeat, ih, shiftRightOne_fractionMantissa (by positivity), pow_succ, Nat.mul_assoc]

/-- The mantissa of a fraction is rounded to the **nearest whole number**. -/
theorem roundedMantissa_fractionMantissa :
    (fractionMantissa n d).roundedMantissa = roundHalfEven n d := by
  rw [fractionMantissa_eq hd, ExtendedMantissa.roundedMantissa, roundHalfEven]
  obtain hzero | hpos := Nat.eq_zero_or_pos (n % d)
  · simp [hzero, ExtendedMantissa.accuracy, Accuracy.roundToNearestEven, hd, hd.ne']
  obtain hlt | heq | hgt := Nat.lt_trichotomy (2 * (n % d)) d
  · simp [ExtendedMantissa.accuracy, Accuracy.roundToNearestEven, hlt, hlt.not_ge, hlt.ne, hpos]
  · simp [ExtendedMantissa.accuracy, Accuracy.roundToNearestEven, heq]
  · simp [ExtendedMantissa.accuracy, Accuracy.roundToNearestEven, hgt, hgt.le, hgt.ne', hgt.asymm,
      hpos]

end Fractions

/-! ### Rounding -/

/-- A quotient is rounded to one of its two neighbours. -/
theorem roundHalfEven_cases (n d : Nat) :
    roundHalfEven n d = n / d ∨ roundHalfEven n d = n / d + 1 := by
  simp only [roundHalfEven]
  split
  · exact .inl rfl
  · split
    · exact .inr rfl
    · obtain h | h := Nat.mod_two_eq_zero_or_one (n / d) <;> rw [h]
      · exact .inl rfl
      · exact .inr rfl

/-- The exponent that a fraction times a power of two is **rounded at**. -/
def roundingExponent (n d : Nat) (e : Int) : Int :=
  max ((n / d).log2 + e - 52) (-1074)

theorem targetExponent_eq (n d : Nat) (e : Int) :
    Format.binary64.targetExponent (totalExponent (n / d) e) = roundingExponent n d e := by
  have hbits : (Format.binary64.mantissaBits : Int) = 53 := rfl
  have hmin : Format.binary64.minExponent = -1074 := rfl
  rw [Format.targetExponent, totalExponent, hbits, hmin, roundingExponent]
  omega

/-- A mantissa after rounding is shifted at most once more, when it **carries**. -/
theorem shiftToTargetExponent_rounded {m : Nat} {e : Int} (hm : m ≤ 2 ^ 53) (he : -1074 ≤ e) :
    shiftToTargetExponent Format.binary64 m e .exact =
      if m = 2 ^ 53 then (.ofMantissaAndAccuracy (2 ^ 52) .exact, e + 1)
      else (.ofMantissaAndAccuracy m .exact, e) := by
  have htarget := targetExponent_eq m 1 e
  rw [Nat.div_one] at htarget
  rw [shiftToTargetExponent, htarget, roundingExponent, Nat.div_one, shiftToExponent]
  split
  · rename_i hcarry
    have hlog : (2 ^ 53 : Nat).log2 = 53 := Nat.log2_two_pow
    have hshift := shiftRight_exact (2 ^ 52) 1
    rw [hcarry, hlog]
    have hamount : (max (((53 : Nat) : Int) + e - 52) (-1074) - e).toNat = 1 := by omega
    rw [hamount]
    exact congrArg (·, e + 1) hshift
  · rename_i hless
    have hlog : m.log2 ≤ 52 := by
      obtain rfl | hpos := Nat.eq_zero_or_pos m
      · decide
      · exact Nat.lt_succ_iff.mp ((Nat.log2_lt hpos.ne').mpr (by omega))
    have hamount : (max ((m.log2 : Int) + e - 52) (-1074) - e).toNat = 0 := by omega
    have hshift := shiftRight_exact m 0
    rw [pow_zero, Nat.mul_one] at hshift
    rw [hamount, hshift, Nat.cast_zero, Int.add_zero]

/-- The mantissa that a fraction is **rounded to**. -/
def roundingMantissa (n d : Nat) (e : Int) : Nat :=
  roundHalfEven n (d * 2 ^ (roundingExponent n d e - e).toNat)

section Rounding

variable {n d : Nat} {e : Int}

/-- Rounding leaves at most the bits that a mantissa has. -/
theorem roundingMantissa_le (n d : Nat) (e : Int) : roundingMantissa n d e ≤ 2 ^ 53 := by
  have hless : n / (d * 2 ^ (roundingExponent n d e - e).toNat) < 2 ^ 53 := by
    rw [← Nat.div_div_eq_div_mul, Nat.div_lt_iff_lt_mul (by positivity), ← pow_add]
    refine lt_of_lt_of_le Nat.lt_log2_self (Nat.pow_le_pow_right (by decide) ?_)
    rw [roundingExponent]
    omega
  obtain h | h := roundHalfEven_cases n (d * 2 ^ (roundingExponent n d e - e).toNat) <;>
    rw [roundingMantissa, h] <;> omega

/-- Above the least exponent it leaves all of them. -/
theorem le_roundingMantissa (he : e ≤ roundingExponent n d e)
    (hleast : -1074 < roundingExponent n d e) :
    2 ^ 52 ≤ roundingMantissa n d e := by
  have hlog : 52 ≤ (n / d).log2 := by
    rw [roundingExponent] at he hleast
    omega
  have hne : n / d ≠ 0 := by
    intro hzero
    rw [hzero] at hlog
    exact absurd hlog (by decide)
  have hmore : 2 ^ 52 ≤ n / (d * 2 ^ (roundingExponent n d e - e).toNat) := by
    rw [← Nat.div_div_eq_div_mul, Nat.le_div_iff_mul_le (by positivity), ← pow_add]
    refine le_trans (Nat.pow_le_pow_right (by decide) ?_) (Nat.log2_self_le hne)
    rw [roundingExponent] at hleast ⊢
    omega
  obtain h | h := roundHalfEven_cases n (d * 2 ^ (roundingExponent n d e - e).toNat) <;>
    rw [roundingMantissa, h] <;> omega

/-- **A fraction is rounded** to the nearest mantissa, which may carry. -/
theorem roundWithAccuracy_fraction (hd : 0 < d) (he : e ≤ roundingExponent n d e)
    (s : UnpackedFloat.Sign) :
    roundWithAccuracy Format.binary64 s (n / d) e (accuracyOfFraction (n % d) d) =
      if h : roundingMantissa n d e = 0 then .zero s
      else if roundingMantissa n d e = 2 ^ 53 then
        .finite s (2 ^ 52) (roundingExponent n d e + 1) (by positivity)
      else .finite s (roundingMantissa n d e) (roundingExponent n d e) (Nat.pos_of_ne_zero h) := by
  have hle := roundingMantissa_le n d e
  have hfirst : shiftToTargetExponent Format.binary64 (n / d) e (accuracyOfFraction (n % d) d) =
      (fractionMantissa n (d * 2 ^ (roundingExponent n d e - e).toNat),
        roundingExponent n d e) := by
    rw [shiftToTargetExponent, targetExponent_eq, shiftToExponent]
    have hexponent : e + ((roundingExponent n d e - e).toNat : Int) = roundingExponent n d e := by
      omega
    rw [hexponent]
    exact congrArg (·, _) (shiftRight_fractionMantissa hd _)
  have hleast : -1074 ≤ roundingExponent n d e := le_max_right _ _
  have hrounded :
      (fractionMantissa n (d * 2 ^ (roundingExponent n d e - e).toNat)).roundedMantissa =
        roundingMantissa n d e := roundedMantissa_fractionMantissa (by positivity)
  rw [roundWithAccuracy, hfirst]
  simp only [hrounded, shiftToTargetExponent_rounded hle hleast]
  split
  · rename_i hcarry
    simp [hcarry, ExtendedMantissa.ofMantissaAndAccuracy]
  · rfl

end Rounding

/-! ### Division -/

/-- A number of bits is enough for a quotient. -/
theorem le_roundingExponent_div {m₁ m₂ : Nat} (hm₁ : 0 < m₁) (hm₂ : 0 < m₂) {e T : Int} {k : Nat}
    (hT : T ≤ max ((m₁.log2 : Int) - m₂.log2 + e - 53) (-1074)) (hk : e - k = T) :
    T ≤ roundingExponent (m₁ * 2 ^ k) m₂ T := by
  rw [roundingExponent]
  obtain hsmall | hlarge := Int.lt_or_le (-1074) T
  · -- the quotient has all bits of a mantissa
    have hbits : m₂.log2 + 53 ≤ m₁.log2 + k := by omega
    have hquotient : 2 ^ 52 ≤ m₁ * 2 ^ k / m₂ := by
      rw [Nat.le_div_iff_mul_le hm₂]
      calc 2 ^ 52 * m₂ ≤ 2 ^ 52 * 2 ^ (m₂.log2 + 1) :=
            Nat.mul_le_mul_left _ Nat.lt_log2_self.le
        _ = 2 ^ (m₂.log2 + 53) := by rw [← pow_add]; congr 1; omega
        _ ≤ 2 ^ (m₁.log2 + k) := Nat.pow_le_pow_right (by decide) hbits
        _ = 2 ^ m₁.log2 * 2 ^ k := pow_add _ _ _
        _ ≤ m₁ * 2 ^ k := Nat.mul_le_mul_right _ (Nat.log2_self_le hm₁.ne')
    have hlog := (Nat.le_log2 (by omega)).mpr hquotient
    omega
  · omega

/-- **A quotient** is a fraction that is rounded. -/
theorem div_finite {s₁ s₂ : UnpackedFloat.Sign} {m₁ m₂ : Nat} {e₁ e₂ : Int} (hm₁ : 0 < m₁)
    (hm₂ : 0 < m₂) : ∃ n e, e ≤ roundingExponent n m₂ e ∧
      (n : ℚ) / m₂ * 2 ^ e = m₁ * 2 ^ e₁ / (m₂ * 2 ^ e₂) ∧
      UnpackedFloat.div Format.binary64 (.finite s₁ m₁ e₁ hm₁) (.finite s₂ m₂ e₂ hm₂) =
        roundWithAccuracy Format.binary64 (s₁ / s₂) (n / m₂) e
          (accuracyOfFraction (n % m₂) m₂) := by
  have htarget : Format.binary64.targetExponent (totalExponent m₁ e₁ - totalExponent m₂ e₂) =
      max ((m₁.log2 : Int) - m₂.log2 + (e₁ - e₂) - 53) (-1074) := by
    have hbits : (Format.binary64.mantissaBits : Int) = 53 := rfl
    have hmin : Format.binary64.minExponent = -1074 := rfl
    rw [Format.targetExponent, totalExponent, totalExponent, hbits, hmin]
    omega
  generalize hT : min (e₁ - e₂) (max ((m₁.log2 : Int) - m₂.log2 + (e₁ - e₂) - 53) (-1074)) = T
  generalize hk : (e₁ - e₂ - T).toNat = k
  have hshift : e₁ - e₂ - k = T := by omega
  refine ⟨m₁ * 2 ^ k, T, le_roundingExponent_div hm₁ hm₂ (by omega) hshift, ?_, ?_⟩
  · have htwo : (2 : ℚ) ≠ 0 := two_ne_zero
    have hne : (m₂ : ℚ) ≠ 0 := by exact_mod_cast hm₂.ne'
    have hpow : (2 : ℚ) ^ k * 2 ^ T * 2 ^ e₂ = 2 ^ e₁ := by
      rw [← zpow_natCast, ← zpow_add₀ htwo, ← zpow_add₀ htwo]
      congr 1
      omega
    push_cast
    rw [← hpow]
    field_simp
  · simp only [UnpackedFloat.div, divCore, htarget, hT, hk, Nat.shiftLeft_eq]

/-! ### The nearest float -/

/-- Rounding a quotient leaves **at most one half**. -/
theorem abs_roundHalfEven_sub (n : Nat) {d : Nat} (hd : 0 < d) :
    |(roundHalfEven n d : ℚ) - n / d| ≤ 1 / 2 := by
  have hd' : (0 : ℚ) < d := by exact_mod_cast hd
  have hle : 2 * ((roundHalfEven n d : ℚ) * d) ≤ 2 * n + d := by
    exact_mod_cast two_mul_roundHalfEven_le n d
  have hge : (2 * n : ℚ) ≤ 2 * (roundHalfEven n d * d) + d := by
    exact_mod_cast le_two_mul_roundHalfEven n hd
  have hn : (n : ℚ) / d * d = n := div_mul_cancel₀ _ hd'.ne'
  rw [abs_le]
  constructor <;> refine le_of_mul_le_mul_right ?_ hd' <;> rw [sub_mul, hn] <;> linarith

/-- At most **one whole number** is within one half of a fraction, but for ties. -/
theorem eq_of_abs_sub {a b : Nat} {q : ℚ} (ha : |(a : ℚ) - q| ≤ 1 / 2)
    (hb : |(b : ℚ) - q| < 1 / 2) : a = b := by
  have hb' : |q - b| < 1 / 2 := by rwa [abs_sub_comm]
  have hless : |((a : Int) : ℚ) - (b : Int)| < 1 := by
    push_cast
    calc |(a : ℚ) - b| ≤ |(a : ℚ) - q| + |q - b| := abs_sub_le _ _ _
      _ < 1 / 2 + 1 / 2 := add_lt_add_of_le_of_lt ha hb'
      _ = 1 := by norm_num
  have hint : |(a : Int) - b| < 1 := by exact_mod_cast hless
  rw [abs_lt] at hint
  omega

/-- A whole number is up to a quotient if it is up to the fraction. -/
theorem le_div_iff_cast {a n d : Nat} : a ≤ n / d ↔ (a : ℚ) ≤ n / d := by
  rw [← Nat.floor_div_eq_div (K := ℚ), Nat.le_floor_iff (by positivity)]

section Nearest

variable {n d : Nat} {e : Int}

/-- A fraction **at a greater exponent**. -/
theorem fraction_eq (n : Nat) (hd : 0 < d) {k : Int} (he : e ≤ k) :
    (n : ℚ) / d * 2 ^ e = n / (d * 2 ^ (k - e).toNat : Nat) * 2 ^ k := by
  have hpow : (2 : ℚ) ^ k = 2 ^ (k - e).toNat * 2 ^ e := by
    rw [← zpow_natCast, ← zpow_add₀ two_ne_zero]
    congr 1
    omega
  have hne : (d : ℚ) ≠ 0 := by exact_mod_cast hd.ne'
  rw [hpow]
  push_cast
  field_simp

/-- The mantissa that a fraction is rounded to differs from it by **one half at most**. -/
theorem abs_roundingMantissa_sub (hd : 0 < d) (he : e ≤ roundingExponent n d e) :
    |(roundingMantissa n d e : ℚ) * 2 ^ roundingExponent n d e - n / d * 2 ^ e| ≤
      2 ^ (roundingExponent n d e - 1) := by
  have hscale : (0 : ℚ) < 2 ^ roundingExponent n d e := by positivity
  rw [fraction_eq n hd he, ← sub_mul, abs_mul, abs_of_pos hscale, zpow_sub_one₀ two_ne_zero,
    mul_comm, ← one_div]
  exact mul_le_mul_of_nonneg_left (abs_roundHalfEven_sub _ (by positivity)) hscale.le

/-- **The float nearest to a fraction** differs from it by half a unit at most, and is zero only if
the fraction is tiny. -/
theorem roundWithAccuracy_near (hd : 0 < d) (he : e ≤ roundingExponent n d e)
    (s : UnpackedFloat.Sign) :
    roundWithAccuracy Format.binary64 s (n / d) e (accuracyOfFraction (n % d) d) = .zero s ∧
        (n : ℚ) / d * 2 ^ e ≤ 2 ^ (-1075 : Int) ∨
      ∃ m k hm, roundWithAccuracy Format.binary64 s (n / d) e (accuracyOfFraction (n % d) d) =
          .finite s m k hm ∧ (k ≤ 971 → IsCanonical (.finite s m k hm)) ∧
        |(m : ℚ) * 2 ^ k - n / d * 2 ^ e| ≤ 2 ^ (k - 1) := by
  have hnear := abs_roundingMantissa_sub hd he
  have hle := roundingMantissa_le n d e
  have hleast : -1074 ≤ roundingExponent n d e := le_max_right _ _
  have hfull (h : -1074 < roundingExponent n d e) := le_roundingMantissa he h
  rw [roundWithAccuracy_fraction hd he]
  generalize roundingMantissa n d e = m at hnear hle hfull ⊢
  generalize roundingExponent n d e = k at hnear hleast hfull ⊢
  split
  · rename_i hzero
    subst hzero
    have hk : k = -1074 := by
      by_contra hne
      have := hfull (by omega)
      omega
    rw [hk, Nat.cast_zero, zero_mul, zero_sub, abs_neg] at hnear
    exact .inl ⟨rfl, (le_abs_self _).trans (by simpa using hnear)⟩
  · rename_i hne
    refine .inr ?_
    split
    · rename_i hcarry
      refine ⟨2 ^ 52, k + 1, by positivity, rfl, fun hk => .normal s _ le_rfl (by norm_num)
        (by omega) hk, ?_⟩
      have hsame : ((2 ^ 52 : Nat) : ℚ) * 2 ^ (k + 1) = (m : ℚ) * 2 ^ k := by
        rw [hcarry, zpow_add_one₀ two_ne_zero]
        push_cast
        ring
      rw [hsame]
      exact hnear.trans (zpow_le_zpow_right₀ (by norm_num) (by omega))
    · rename_i hless
      refine ⟨m, k, Nat.pos_of_ne_zero hne, rfl, fun hk => ?_, hnear⟩
      obtain hlt | heq := lt_or_eq_of_le hleast
      · exact .normal s _ (hfull hlt) (by omega) hleast hk
      · subst heq
        obtain hsmall | hlarge := Nat.lt_or_ge m (2 ^ 52)
        · exact .subnormal s _ hsmall
        · exact .normal s _ hlarge (by omega) (by norm_num) (by norm_num)

/-- The bits of a quotient are those of the fraction. -/
theorem log2_div_eq {j : Nat} (hlo : (2 : ℚ) ^ j ≤ n / d) (hhi : (n : ℚ) / d < 2 ^ (j + 1)) :
    (n / d).log2 = j := by
  have hle : 2 ^ j ≤ n / d := le_div_iff_cast.mpr (by exact_mod_cast hlo)
  have hlt : n / d < 2 ^ (j + 1) := by
    refine Nat.lt_of_not_le fun hge => hhi.not_ge ?_
    exact_mod_cast le_div_iff_cast.mp hge
  have hne : n / d ≠ 0 := (Nat.two_pow_pos j |>.trans_le hle).ne'
  exact (Nat.log2_eq_iff hne).mpr ⟨hle, hlt⟩

/-- **The exponent of a fraction** is that of the floats around it. -/
theorem roundingExponent_eq (he : e ≤ roundingExponent n d e) {k : Int} (hk : -1074 ≤ k)
    (hlo : (2 : ℚ) ^ 52 * 2 ^ k ≤ n / d * 2 ^ e) (hhi : (n : ℚ) / d * 2 ^ e < 2 ^ 53 * 2 ^ k) :
    roundingExponent n d e = k := by
  have hek : e ≤ k := by
    by_contra hgt
    have hlog : 52 ≤ (n / d).log2 := by
      rw [roundingExponent] at he
      omega
    have hne : n / d ≠ 0 := fun hzero => absurd (hzero ▸ hlog) (by decide)
    have hquotient : (2 : ℚ) ^ 52 ≤ n / d := by
      exact_mod_cast le_div_iff_cast.mp ((Nat.le_log2 hne).mp hlog)
    refine hhi.not_ge ?_
    calc (2 : ℚ) ^ 53 * 2 ^ k = (2 : ℚ) ^ 52 * 2 ^ (k + 1) := by
          rw [zpow_add_one₀ two_ne_zero]
          ring
      _ ≤ (n : ℚ) / d * 2 ^ e := by
          gcongr
          · norm_num
          · omega
  obtain ⟨j, rfl⟩ : ∃ j : Nat, k = e + j := ⟨(k - e).toNat, by omega⟩
  have hpow : (2 : ℚ) ^ (e + j) = 2 ^ j * 2 ^ e := by
    rw [zpow_add₀ two_ne_zero, zpow_natCast, mul_comm]
  rw [hpow, ← mul_assoc, ← pow_add] at hlo hhi
  have hlog := log2_div_eq (le_of_mul_le_mul_right hlo (by positivity)) <| by
    rw [Nat.add_right_comm]
    exact lt_of_mul_lt_mul_right hhi (by positivity)
  rw [roundingExponent]
  omega

/-- **A float within half a unit of a fraction** is what the fraction is rounded to. Below a power
of two floats lie twice as dense, so a power of two must not exceed the fraction. -/
theorem roundWithAccuracy_eq (hd : 0 < d) (he : e ≤ roundingExponent n d e)
    (s : UnpackedFloat.Sign) {m : Nat} {k : Int} (hm : 0 < m) (hfull : 2 ^ 52 ≤ m)
    (hlt : m < 2 ^ 53) (hk : -1074 ≤ k) (hnear : |(m : ℚ) * 2 ^ k - n / d * 2 ^ e| < 2 ^ (k - 1))
    (hpower : m = 2 ^ 52 → (m : ℚ) * 2 ^ k ≤ n / d * 2 ^ e) :
    roundWithAccuracy Format.binary64 s (n / d) e (accuracyOfFraction (n % d) d) =
      .finite s m k hm := by
  have hscale : (0 : ℚ) < 2 ^ k := by positivity
  rw [abs_lt, zpow_sub_one₀ two_ne_zero] at hnear
  have hlo : (2 : ℚ) ^ 52 * 2 ^ k ≤ n / d * 2 ^ e := by
    obtain heq | hgt := Nat.eq_or_lt_of_le hfull
    · have := hpower heq.symm
      rw [← heq] at this
      exact_mod_cast this
    · have : ((2 : ℚ) ^ 52 + 1) * 2 ^ k ≤ m * 2 ^ k := by
        gcongr
        exact_mod_cast hgt
      linarith
  have hhi : (n : ℚ) / d * 2 ^ e < 2 ^ 53 * 2 ^ k := by
    have : ((m : ℚ) + 1) * 2 ^ k ≤ 2 ^ 53 * 2 ^ k := by
      gcongr
      exact_mod_cast hlt
    linarith
  have hexponent := roundingExponent_eq he hk hlo hhi
  have hmantissa : roundingMantissa n d e = m := by
    rw [roundingMantissa, hexponent]
    refine eq_of_abs_sub (abs_roundHalfEven_sub n (by positivity)) ?_
    rw [fraction_eq n hd (hexponent ▸ he)] at hnear
    rw [abs_lt]
    constructor <;> refine lt_of_mul_lt_mul_right ?_ hscale.le <;> linarith
  rw [roundWithAccuracy_fraction hd he, dif_neg (by omega), if_neg (by omega)]
  simp only [hmantissa, hexponent]

end Nearest

/-! ### The nearest float to a decimal fraction -/

/-- A small whole number **as a float**. -/
theorem unpack_toFloat {c : Nat} (hc : 0 < c) (hlt : c < 2 ^ 53) :
    ∃ m e hm, c.toUInt64.toFloat.toModel.unpack = .finite .positive m e hm ∧
      (m : ℚ) * 2 ^ e = c := by
  have hlog : c.log2 ≤ 52 := Nat.lt_succ_iff.mp ((Nat.log2_lt hc.ne').mpr hlt)
  obtain ⟨k, hk⟩ := Nat.exists_eq_add_of_le hlog
  have hm : 0 < c * 2 ^ k := by positivity
  have hcanonical : IsCanonical (.finite .positive (c * 2 ^ k) (-k) hm) := by
    refine .normal _ hm ?_ ?_ (by omega) (by omega)
    · calc 2 ^ 52 = 2 ^ c.log2 * 2 ^ k := by rw [← pow_add, ← hk]
        _ ≤ c * 2 ^ k := Nat.mul_le_mul_right _ (Nat.log2_self_le hc.ne')
    · calc c * 2 ^ k < 2 ^ (c.log2 + 1) * 2 ^ k :=
            Nat.mul_lt_mul_of_pos_right Nat.lt_log2_self (by positivity)
        _ = 2 ^ 53 := by rw [← pow_add]; congr 1; omega
  have hround := round_exact hcanonical hc (n := c) (by simp)
  refine ⟨c * 2 ^ k, -k, hm, ?_, ?_⟩
  · have hnat : c.toUInt64.toNat = c := by
      rw [Nat.toUInt64_eq, UInt64.toNat_ofNat']
      omega
    have hgreater : compare ((c : Nat) : Int) 0 = .gt := Int.compare_eq_gt.mpr (by omega)
    have hunpacked : UnpackedFloat.ofUInt64 Format.binary64 c.toUInt64 =
        .finite .positive (c * 2 ^ k) (-k) hm := by
      rw [UnpackedFloat.ofUInt64, hnat, UnpackedFloat.ofNat, UnpackedFloat.ofInt,
        UnpackedFloat.normalize, hgreater]
      exact hround
    exact hunpacked ▸ unpack_pack (hunpacked.symm ▸ hcanonical)
  · push_cast
    rw [zpow_neg, zpow_natCast, mul_assoc, mul_inv_cancel₀ (by positivity), mul_one]

/-- The powers of ten that are floats. -/
theorem powerOfTen_exact : ∀ k : Fin 23,
    isNegative Float.exactlyRepresentablePowersOfTen[k] = false ∧
      HasParts (fun m e => m * 2 ^ e.toNat = 10 ^ (k : Nat) * 2 ^ (-e).toNat)
        (Float.exactlyRepresentablePowersOfTen[k]).toModel.unpack := by
  decide +kernel

theorem unpack_powerOfTen {p : Nat} (hp : p < 23) :
    ∃ m e hm, (Float.exactlyRepresentablePowersOfTen[p]).toModel.unpack = .finite .positive m e hm ∧
      (m : ℚ) * 2 ^ e = 10 ^ p := by
  obtain ⟨hsign, hparts⟩ := powerOfTen_exact ⟨p, hp⟩
  obtain ⟨s, m, e, hm, hu, hexact⟩ := hparts.exists_finite
  have hpositive : s = .positive := by
    rw [isNegative_of_unpack hu] at hsign
    cases s with
    | positive => rfl
    | negative => cases hsign
  refine ⟨m, e, hm, hpositive ▸ hu, ?_⟩
  have hexact' : (m : ℚ) * 2 ^ e.toNat = 10 ^ p * 2 ^ (-e).toNat := by exact_mod_cast hexact
  have hpow : (2 : ℚ) ^ e * 2 ^ (-e).toNat = 2 ^ e.toNat := by
    rw [← zpow_natCast, ← zpow_natCast, ← zpow_add₀ two_ne_zero]
    congr 1
    omega
  have hne : (2 : ℚ) ^ (-e).toNat ≠ 0 := by positivity
  refine mul_right_cancel₀ hne ?_
  rw [mul_assoc, hpow, hexact']

/-- **The float of a decimal fraction** is a quotient. -/
theorem toFloat_eq_div {c p : Nat} (hc : 0 < c) (hp : 0 < p) (hp' : p ≤ 22) :
    ∃ (m₁ m₂ : Nat) (e₁ e₂ : Int) (hm₁ : 0 < m₁) (hm₂ : 0 < m₂),
      (m₁ : ℚ) * 2 ^ e₁ / (m₂ * 2 ^ e₂) = c / 10 ^ p ∧
        Decimal.toFloat ⟨false, c, -p⟩ = Float.ofModel (Float.Model.pack
          (UnpackedFloat.div Format.binary64 (.finite .positive m₁ e₁ hm₁)
            (.finite .positive m₂ e₂ hm₂))) := by
  have hfloat : Decimal.toFloat ⟨false, c, -p⟩ = Float.ofScientific c true p := by
    have hneg : ¬ 0 ≤ -(p : Int) := by omega
    simp only [Decimal.toFloat, hneg, if_false, Int.neg_neg, Int.toNat_natCast, Bool.false_eq_true]
  rw [hfloat, Float.ofScientific]
  split
  · -- both are floats
    rename_i h
    obtain ⟨m₁, e₁, hm₁, hu₁, hvalue₁⟩ := unpack_toFloat hc h.1
    obtain ⟨m₂, e₂, hm₂, hu₂, hvalue₂⟩ := unpack_powerOfTen (show p < 23 by omega)
    refine ⟨m₁, m₂, e₁, e₂, hm₁, hm₂, by rw [hvalue₁, hvalue₂], ?_⟩
    rw [← hu₁, ← hu₂]
    rfl
  · refine ⟨c, 10 ^ p, 0, 0, hc, by positivity, by simp, ?_⟩
    have hexponent : Int.negOfNat p = -(p : Int) := Int.negOfNat_eq
    have hbits : (2 : Int) ^ Format.binary64.exponentBits = 2048 := rfl
    show Float.ofModel (Float.Model.ofScientific c (Int.negOfNat p)) = _
    rw [hexponent, Float.Model.ofScientific]
    unfold UnpackedFloat.ofScientific
    rw [dif_neg hc.ne', hbits, if_neg (by omega), if_neg (by omega), if_neg (by omega)]
    simp only [Int.neg_neg, Int.toNat_natCast]

/-- A float within half a unit of a number is at least **half of it, and at most twice it**. -/
theorem bounds_of_near {m : Nat} {k : Int} {v : ℚ} (hm : 0 < m)
    (hnear : |(m : ℚ) * 2 ^ k - v| ≤ 2 ^ (k - 1)) :
    v ≤ 2 * (m * 2 ^ k) ∧ m * 2 ^ k ≤ 2 * v := by
  have hscale : (0 : ℚ) < 2 ^ k := by positivity
  have hunit : (2 : ℚ) ^ k ≤ m * 2 ^ k :=
    le_mul_of_one_le_left hscale.le (by exact_mod_cast hm)
  rw [zpow_sub_one₀ two_ne_zero, abs_le] at hnear
  constructor <;> linarith

section Decimals

variable {c p : Nat} (hp : 0 < p) (hp' : p ≤ 22)

include hp hp'

/-- **The float of a decimal fraction** differs from it by half a unit at most. -/
theorem toFloat_near (hc : 0 < c) (hv : (c : ℚ) / 10 ^ p < 2 ^ (971 : Int)) :
    ∃ m k hm, (Decimal.toFloat ⟨false, c, -p⟩).toModel.unpack = .finite .positive m k hm ∧
      |(m : ℚ) * 2 ^ k - c / 10 ^ p| ≤ 2 ^ (k - 1) := by
  obtain ⟨m₁, m₂, e₁, e₂, hm₁, hm₂, hvalue, hfloat⟩ := toFloat_eq_div hc hp hp'
  obtain ⟨n, e, he, hfraction, hdiv⟩ := div_finite hm₁ hm₂
  rw [hfloat, hdiv]
  rw [hvalue] at hfraction
  obtain ⟨-, htiny⟩ | ⟨m, k, hm, hround, hcanonical, hnear⟩ :=
    roundWithAccuracy_near hm₂ he (.positive / .positive)
  · -- a fraction that is not zero is not that tiny
    rw [hfraction] at htiny
    have hone : (1 : ℚ) / 10 ^ 22 ≤ c / 10 ^ p := by
      gcongr
      · exact_mod_cast hc
      · norm_num
    have hless : (2 : ℚ) ^ (-1075 : Int) ≤ 2 ^ (-100 : Int) :=
      zpow_le_zpow_right₀ (by norm_num) (by norm_num)
    have := (hone.trans htiny).trans hless
    norm_num at this
  · rw [hfraction] at hnear
    have hk : k ≤ 971 := by
      have hunit : (2 : ℚ) ^ k ≤ m * 2 ^ k :=
        le_mul_of_one_le_left (by positivity) (by exact_mod_cast hm)
      have hless : (2 : ℚ) ^ k < 2 ^ (972 : Int) := by
        calc (2 : ℚ) ^ k ≤ 2 * (c / 10 ^ p) := hunit.trans (bounds_of_near hm hnear).2
          _ < 2 * 2 ^ (971 : Int) := by gcongr
          _ = 2 ^ (972 : Int) := by rw [← zpow_one_add₀ two_ne_zero]; rfl
      have := (zpow_lt_zpow_iff_right₀ (by norm_num : (1 : ℚ) < 2)).mp hless
      omega
    refine ⟨m, k, hm, ?_, hnear⟩
    rw [hround]
    exact unpack_pack (hcanonical hk)

/-- **A float within half a unit of a decimal fraction** is its float. -/
theorem toFloat_eq_of_near {x : Float} {m : Nat} {k : Int} {hm : 0 < m}
    (hx : x.toModel.unpack = .finite .positive m k hm) (hfull : 2 ^ 52 ≤ m)
    (hnear : |(m : ℚ) * 2 ^ k - c / 10 ^ p| < 2 ^ (k - 1))
    (hpower : m = 2 ^ 52 → (m : ℚ) * 2 ^ k ≤ c / 10 ^ p) :
    Decimal.toFloat ⟨false, c, -p⟩ = x := by
  have hc : 0 < c := by
    refine Nat.pos_of_ne_zero ?_
    rintro rfl
    have hvalue : (0 : ℚ) < m * 2 ^ k := mul_pos (by exact_mod_cast hm) (by positivity)
    have hle := (bounds_of_near hm hnear.le).2
    rw [Nat.cast_zero, zero_div, mul_zero] at hle
    exact hvalue.not_ge hle
  have hcanonical : IsCanonical (.finite .positive m k hm) := hx ▸ (unpack_spec x.toModel).1
  have hbounds : m < 2 ^ 53 ∧ -1074 ≤ k := by cases hcanonical <;> omega
  obtain ⟨m₁, m₂, e₁, e₂, hm₁, hm₂, hvalue, hfloat⟩ := toFloat_eq_div hc hp hp'
  obtain ⟨n, e, he, hfraction, hdiv⟩ := div_finite hm₁ hm₂
  rw [hvalue] at hfraction
  rw [hfloat, hdiv]
  refine ofModel_pack_eq ?_
  rw [hx]
  exact roundWithAccuracy_eq hm₂ he _ hm hfull hbounds.1 hbounds.2 (hfraction ▸ hnear)
    (hfraction ▸ hpower)

end Decimals

end Argand
