import Argand.Primitive
import Mathlib

/-!
# Rounding to places does not overflow

The largest float is a whole number, so it is its own rounding to any number of places after the
point, and no finite float is rounded beyond it. What is left to show is that the float nearest
to a decimal number that is no greater than the largest float is finite. This is done along the
arithmetic of floats: a mantissa with its two residual bits stays at most a given whole number
when it is shifted and when it is rounded.

## Main definitions

* `Argand.largestAt`: the largest float in units of a power of two.
* `Argand.AtMost`: an extended mantissa stands for at most a whole number.
* `Argand.IsBounded`: an unpacked float that has a finite packed form.

## Main results

* `Argand.isBounded_roundWithAccuracy`: what is no greater than the largest float is rounded to a
  finite one.
* `Argand.isFinite_toFloat`: so is a decimal number.
* `Argand.roundPart_eq_ok`: a part can be rounded to any number of places after the point.
-/

namespace Argand

open Float.Model Float.Model.UnpackedFloat

/-! ### Mantissas -/

/-- The **largest float**, as a multiple of a power of two with an exponent up to that of the float
itself. It is too large to be computed. -/
@[irreducible] def largestAt (e : Int) : Nat :=
  (2 ^ 53 - 1) * 2 ^ (971 - e).toNat

/-- A smaller unit makes a larger multiple. -/
theorem largestAt_sub {e : Int} (k : Nat) (h : e ≤ 971) :
    largestAt (e - k) = largestAt e * 2 ^ k := by
  have hexp : (971 - (e - k)).toNat = (971 - e).toNat + k := by omega
  rw [largestAt, largestAt, hexp, pow_add, mul_assoc]

/-- All mantissas of floats are within the largest float. -/
theorem le_largestAt {m : Nat} (hm : m < 2 ^ 53) (e : Int) : m ≤ largestAt e := by
  rw [largestAt]
  exact le_trans (Nat.le_sub_one_of_lt hm) (Nat.le_mul_of_pos_right _ (Nat.two_pow_pos _))

/-- An extended mantissa stands for **at most** a whole number. -/
def AtMost (em : ExtendedMantissa) (b : Nat) : Prop :=
  em.mantissa < b ∨ em.mantissa = b ∧ em.roundBit = false ∧ em.stickyBit = false

/-- A mantissa without residual bits is a whole number. -/
theorem atMost_exact {m b : Nat} (h : m ≤ b) :
    AtMost (ExtendedMantissa.ofMantissaAndAccuracy m .exact) b :=
  (Nat.lt_or_eq_of_le h).imp_right fun h => ⟨h, rfl, rfl⟩

/-- One bit is shifted out. -/
theorem AtMost.shiftRightOne {em : ExtendedMantissa} {b : Nat} (h : AtMost em (2 * b)) :
    AtMost em.shiftRightOne b := by
  obtain h | ⟨h, hr, hs⟩ := h
  · exact .inl (Nat.div_lt_of_lt_mul h)
  · refine .inr ⟨?_, ?_, ?_⟩
    · simp [ExtendedMantissa.shiftRightOne, h]
    · simp [ExtendedMantissa.shiftRightOne, h]
    · simp [ExtendedMantissa.shiftRightOne, hr, hs]

/-- Several bits are shifted out. -/
theorem AtMost.shiftRight {em : ExtendedMantissa} {b : Nat} (k : Nat)
    (h : AtMost em (b * 2 ^ k)) : AtMost (em >>> k) b := by
  change AtMost (k.repeat ExtendedMantissa.shiftRightOne em) b
  induction k generalizing b with
  | zero => simpa [Nat.repeat] using h
  | succ k ih =>
      have hb : b * 2 ^ (k + 1) = 2 * b * 2 ^ k := by ring
      rw [hb] at h
      exact (ih h).shiftRightOne

/-- Rounding does not pass a whole number. -/
theorem AtMost.roundedMantissa_le {em : ExtendedMantissa} {b : Nat} (h : AtMost em b) :
    em.roundedMantissa ≤ b := by
  obtain ⟨m, r, s⟩ := em
  obtain h | ⟨h, rfl, rfl⟩ := h
  · have h : m < b := h
    cases r <;> cases s <;>
      simp only [ExtendedMantissa.roundedMantissa, ExtendedMantissa.accuracy,
        Accuracy.roundToNearestEven] <;> omega
  · exact le_of_eq h

/-! ### Rounding in binary -/

/-- The exponent that a number no greater than the largest float is rounded to. -/
theorem targetExponent_le {m : Nat} {e : Int} (he : e ≤ 971) (hm : m ≤ largestAt e) :
    Format.binary64.targetExponent (totalExponent m e) ≤ 971 := by
  have hlog : (m.log2 : Int) + e < 1024 := by
    by_cases h0 : m = 0
    · subst h0
      simp
      omega
    · have hlt : m < 2 ^ (53 + (971 - e).toNat) := by
        refine lt_of_le_of_lt hm ?_
        rw [largestAt, pow_add]
        exact Nat.mul_lt_mul_of_pos_right (by norm_num) (Nat.two_pow_pos _)
      have := (Nat.log2_lt h0).mpr hlt
      omega
  simp only [Format.targetExponent, totalExponent, Format.mantissaBits, Format.minExponent]
  norm_num
  omega

/-- The shift before rounding stays within the floats. -/
theorem atMost_shiftToTargetExponent {m : Nat} {e : Int} {a : Accuracy} (he : e ≤ 971)
    (h : AtMost (ExtendedMantissa.ofMantissaAndAccuracy m a) (largestAt e)) :
    (shiftToTargetExponent Format.binary64 m e a).2 ≤ 971 ∧
      AtMost (shiftToTargetExponent Format.binary64 m e a).1
        (largestAt (shiftToTargetExponent Format.binary64 m e a).2) := by
  have hm : m ≤ largestAt e := by
    have hmantissa : (ExtendedMantissa.ofMantissaAndAccuracy m a).mantissa = m := by
      cases a with
      | exact => rfl
      | inexact o => cases o <;> rfl
    rw [← hmantissa]
    exact h.elim le_of_lt fun h => le_of_eq h.1
  have htarget := targetExponent_le he hm
  simp only [shiftToTargetExponent, shiftToExponent]
  generalize Format.binary64.targetExponent (totalExponent m e) = t at htarget ⊢
  have hle : e + (t - e).toNat ≤ 971 := by omega
  have hlargest := largestAt_sub (t - e).toNat hle
  rw [Int.add_sub_cancel] at hlargest
  exact ⟨hle, .shiftRight _ (hlargest ▸ h)⟩

/-- An unpacked float that **has a finite packed form**. -/
def IsBounded : UnpackedFloat → Prop
  | .zero _ => True
  | .finite _ _ e _ => e ≤ 971
  | .infinity _ | .notANumber => False

/-- **Rounding in binary** gives a finite float, up to the largest one. -/
theorem isBounded_roundWithAccuracy {s : UnpackedFloat.Sign} {m : Nat} {e : Int} {a : Accuracy}
    (he : e ≤ 971) (h : AtMost (ExtendedMantissa.ofMantissaAndAccuracy m a) (largestAt e)) :
    IsBounded (roundWithAccuracy Format.binary64 s m e a) := by
  obtain ⟨he₁, h₁⟩ := atMost_shiftToTargetExponent he h
  -- rounding may carry into one more bit, which is shifted out again
  obtain ⟨he₂, -⟩ := atMost_shiftToTargetExponent he₁ (atMost_exact h₁.roundedMantissa_le)
  unfold roundWithAccuracy
  generalize shiftToTargetExponent Format.binary64 m e a = shifted at he₂ ⊢
  obtain ⟨em, e₁⟩ := shifted
  dsimp only at he₂ ⊢
  split
  · trivial
  · exact he₂

/-- A float is finite if its biased exponent is not the largest one. -/
theorem isFinite_unpack {bits : BitVec Format.binary64.numBits}
    (h : @unpackExponent Format.binary64 bits ≠ -1#_) :
    (UnpackedFloat.unpack Format.binary64 bits).isFinite = true := by
  unfold UnpackedFloat.unpack
  simp only [h, if_false]
  split
  · split <;> rfl
  · rfl

/-- A float up to the largest one is **finite** when it is packed. -/
theorem isFinite_pack {u : UnpackedFloat} (h : IsBounded u) : (Float.Model.pack u).isFinite := by
  refine @isFinite_unpack (UnpackedFloat.pack Format.binary64 u) ?_
  cases u with
  | notANumber => exact h.elim
  | infinity s => exact h.elim
  | zero s => simp [UnpackedFloat.pack, packedZero]
  | finite s m e hm =>
      have h : e ≤ 971 := h
      have hbiased : (e + 1023 + 52).toNat ≤ 2046 := by omega
      simp only [UnpackedFloat.pack, Format.exponentBias]
      norm_num
      rw [if_neg (by omega)]
      split
      · rw [unpackExponent_packComponents]
        intro hb
        have := congrArg BitVec.toNat hb
        simp at this
        omega
      · simp

/-- The biased exponent of a finite float is not the largest one. -/
theorem unpackExponent_ne {x : Float.Model} (h : x.isFinite) :
    @unpackExponent Format.binary64 x.toBits.toBitVec ≠ -1#_ := by
  intro he
  unfold Float.Model.isFinite Float.Model.unpack UnpackedFloat.unpack at h
  simp only [he, if_true] at h
  split at h <;> cases h

/-- The biased exponents of finite floats, as numbers. -/
theorem biased_lt {x : Float.Model} (h : x.isFinite) :
    x.toBits.toNat / 2 ^ 52 % 2 ^ 11 < 2047 := by
  have htoNat : (@unpackExponent Format.binary64 x.toBits.toBitVec).toNat =
      x.toBits.toNat / 2 ^ 52 % 2 ^ 11 := by
    rw [← Nat.shiftRight_eq_div_pow]
    rfl
  have hmax : (@unpackExponent Format.binary64 x.toBits.toBitVec).toNat ≠ 2047 :=
    fun hb => unpackExponent_ne h (BitVec.eq_of_toNat_eq hb)
  omega

/-- A finite float is **no greater than the largest one**. -/
theorem bounds_of_unpack {x : Float.Model} {s : UnpackedFloat.Sign} {m : Nat} {e : Int}
    {hm : 0 < m} (h : x.unpack = .finite s m e hm) : m < 2 ^ 53 ∧ e ≤ 971 := by
  have hfinite : x.isFinite := by
    rw [Float.Model.isFinite, h]
    rfl
  have hexp : (@unpackExponent Format.binary64 x.toBits.toBitVec).toNat < 2047 := by
    have := biased_lt hfinite
    rw [← Nat.shiftRight_eq_div_pow] at this
    exact this
  have hmantissa := (@unpackMantissa Format.binary64 x.toBits.toBitVec).isLt
  unfold Float.Model.unpack UnpackedFloat.unpack at h
  simp only [unpackExponent_ne hfinite, if_false] at h
  split at h
  · rename_i hzero
    split at h
    · cases h
    · cases h
      rw [hzero]
      norm_num [Format.exponentBias] at hmantissa ⊢
      omega
  · cases h
    rw [BitVec.toNat_append, ← Nat.shiftLeft_add_eq_or_of_lt hmantissa]
    norm_num [Format.exponentBias, Nat.shiftLeft_eq] at hmantissa ⊢
    omega

/-! ### Operations -/

/-- A quotient rounded down, with what it leaves, is at most a whole number that bounds it. -/
theorem atMost_quotient {n d b : Nat} (h : n ≤ b * d) :
    AtMost (ExtendedMantissa.ofMantissaAndAccuracy (n / d) (accuracyOfFraction (n % d) d)) b := by
  obtain hlt | heq := Nat.lt_or_eq_of_le (Nat.div_le_of_le_mul (Nat.mul_comm b d ▸ h))
  · refine .inl ?_
    unfold accuracyOfFraction
    split
    · exact hlt
    · cases compare (2 * (n % d)) d <;> exact hlt
  · have hmod := Nat.div_add_mod n d
    rw [heq, Nat.mul_comm d b] at hmod
    have hzero : n % d = 0 := by omega
    rw [heq, hzero]
    exact .inr ⟨rfl, rfl, rfl⟩

/-- A whole number up to the largest float is rounded to a finite float. -/
theorem isBounded_round {s : UnpackedFloat.Sign} {m : Nat} {e : Int} (he : e ≤ 971)
    (hm : m ≤ largestAt e) : IsBounded (UnpackedFloat.round Format.binary64 s m e) := by
  simp only [UnpackedFloat.round, decreaseExponent]
  generalize (e - Format.binary64.targetExponent (totalExponent m e)).toNat = k
  refine isBounded_roundWithAccuracy (by omega) (atMost_exact ?_)
  rw [Nat.shiftLeft_eq, largestAt_sub k he]
  exact Nat.mul_le_mul_right _ hm

/-- A float that fits 64 bits as a whole number is finite. -/
theorem isFinite_toFloat_uint64 {n : UInt64} (hn : n.toNat < 2 ^ 53) : n.toFloat.isFinite := by
  refine isFinite_pack ?_
  simp only [UnpackedFloat.ofUInt64, UnpackedFloat.ofNat, UnpackedFloat.ofInt,
    UnpackedFloat.normalize]
  split
  · rename_i h
    have := Int.compare_eq_lt.mp h
    omega
  · trivial
  · exact isBounded_round (by norm_num) (le_largestAt hn 0)

/-- What is left of a float when it is unpacked. -/
theorem unpack_of_isFinite {x : Float} (hx : x.isFinite) :
    (∃ s, x.toModel.unpack = .zero s) ∨ ∃ s m e hm, x.toModel.unpack = .finite s m e hm := by
  have hx : x.toModel.unpack.isFinite = true := hx
  cases hu : x.toModel.unpack with
  | notANumber => rw [hu] at hx; cases hx
  | infinity s => rw [hu] at hx; cases hx
  | zero s => exact .inl ⟨s, rfl⟩
  | finite s m e hm => exact .inr ⟨s, m, e, hm, rfl⟩

/-- A float that is neither zero nor infinite, and whose **parts** satisfy a condition. -/
def HasParts (P : Nat → Int → Prop) : UnpackedFloat → Prop
  | .finite _ m e _ => P m e
  | .zero _ | .infinity _ | .notANumber => False

instance (P : Nat → Int → Prop) [∀ m e, Decidable (P m e)] : DecidablePred (HasParts P)
  | .finite _ m e _ => inferInstanceAs (Decidable (P m e))
  | .zero _ | .infinity _ | .notANumber => .isFalse id

/-- The parts of such a float. -/
theorem HasParts.exists_finite {P : Nat → Int → Prop} {u : UnpackedFloat} (h : HasParts P u) :
    ∃ s m e hm, u = .finite s m e hm ∧ P m e := by
  cases u with
  | finite s m e hm => exact ⟨s, m, e, hm, rfl, h⟩
  | _ => exact h.elim

/-- A finite float times one is finite. -/
theorem isFinite_mul_one {x y : Float} (hx : x.isFinite)
    (hy : HasParts (fun m e => m = 2 ^ 52 ∧ e = -52) y.toModel.unpack) : (x * y).isFinite := by
  obtain ⟨_, _, _, _, hv, rfl, rfl⟩ := hy.exists_finite
  refine isFinite_pack ?_
  rw [hv]
  obtain ⟨s, hu⟩ | ⟨s, m, e, hm, hu⟩ := unpack_of_isFinite hx
  · rw [hu]
    trivial
  · rw [hu]
    obtain ⟨hmantissa, he⟩ := bounds_of_unpack hu
    refine isBounded_roundWithAccuracy (by omega) (atMost_exact ?_)
    rw [show e + -52 = e - (52 : Nat) by omega, largestAt_sub 52 he]
    exact Nat.mul_le_mul_right _ (le_largestAt hmantissa e)

/-- A finite float divided by one that is no less than one is finite. -/
theorem isFinite_div {x y : Float} (hx : x.isFinite)
    (hy : HasParts (fun m e => 2 ^ 52 ≤ m ∧ -52 ≤ e) y.toModel.unpack) : (x / y).isFinite := by
  obtain ⟨_, m₂, e₂, _, hv, hm, he⟩ := hy.exists_finite
  refine isFinite_pack ?_
  rw [hv]
  obtain ⟨s, hu⟩ | ⟨s, m₁, e₁, hm₁, hu⟩ := unpack_of_isFinite hx
  · rw [hu]
    trivial
  · rw [hu]
    obtain ⟨hmantissa, he₁⟩ := bounds_of_unpack hu
    have hlog₁ : m₁.log2 < 53 := (Nat.log2_lt (by omega)).mpr hmantissa
    have hlog₂ : 52 ≤ m₂.log2 := (Nat.le_log2 (by omega)).mpr hm
    have htarget : Format.binary64.targetExponent (totalExponent m₁ e₁ - totalExponent m₂ e₂) ≤
        971 := by
      simp only [Format.targetExponent, totalExponent, Format.mantissaBits, Format.minExponent]
      norm_num
      omega
    simp only [UnpackedFloat.div, divCore]
    generalize Format.binary64.targetExponent (totalExponent m₁ e₁ - totalExponent m₂ e₂) = T
      at htarget ⊢
    generalize ht : min (e₁ - e₂) T = t
    refine isBounded_roundWithAccuracy (by omega) (atMost_quotient ?_)
    have hshift : (e₁ - e₂ - t).toNat ≤ (971 - t).toNat + 52 := by omega
    rw [Nat.shiftLeft_eq, largestAt]
    calc m₁ * 2 ^ (e₁ - e₂ - t).toNat
        ≤ (2 ^ 53 - 1) * 2 ^ ((971 - t).toNat + 52) :=
          Nat.mul_le_mul (Nat.le_sub_one_of_lt hmantissa)
            (Nat.pow_le_pow_right (by norm_num) hshift)
      _ = (2 ^ 53 - 1) * 2 ^ (971 - t).toNat * 2 ^ 52 := by rw [pow_add, mul_assoc]
      _ ≤ (2 ^ 53 - 1) * 2 ^ (971 - t).toNat * m₂ := Nat.mul_le_mul_left _ hm

/-! ### Decimal numbers -/

/-- Every power of ten that is a float is no less than one. -/
theorem powerOfTen_hasParts : ∀ k : Fin 23, HasParts (fun m e => 2 ^ 52 ≤ m ∧ -52 ≤ e)
    (Float.exactlyRepresentablePowersOfTen[k]).toModel.unpack := by
  decide +kernel

/-- The zeroth power of ten is one. -/
theorem one_hasParts : HasParts (fun m e => m = 2 ^ 52 ∧ e = -52)
    (Float.exactlyRepresentablePowersOfTen[0]).toModel.unpack := by
  decide +kernel

/-- **Rounding a decimal number in binary** gives a finite float, up to the largest one. -/
theorem isBounded_ofScientific {m k : Nat} (hm : m ≤ largestAt 0 * 10 ^ k) :
    IsBounded (UnpackedFloat.ofScientific Format.binary64 m (-k)) := by
  unfold UnpackedFloat.ofScientific
  split
  · trivial
  · rw [if_neg (by norm_num)]
    split
    · trivial
    · split
      · -- a whole number: it is multiplied with one
        obtain rfl : k = 0 := by omega
        have hlargest := largestAt_sub 53 (show (0 : Int) ≤ 971 by norm_num)
        have hmantissa : m * 2 ^ 53 * 10 ^ (-((0 : Nat) : Int)).toNat ≤ largestAt (-53 + 0) := by
          norm_num at hm hlargest ⊢
          rw [hlargest]
          exact Nat.mul_le_mul_right _ hm
        simp only [UnpackedFloat.mul, Nat.shiftLeft_eq, Format.mantissaBits]
        generalize m * 2 ^ 53 * 10 ^ (-((0 : Nat) : Int)).toNat = n at hmantissa
        exact isBounded_roundWithAccuracy (by norm_num) (atMost_exact hmantissa)
      · -- a fraction: it is divided by a power of ten
        simp only [UnpackedFloat.div, divCore]
        generalize Format.binary64.targetExponent _ = T
        have hlargest := largestAt_sub (0 - 0 - min (0 - 0) T).toNat
          (show (0 : Int) ≤ 971 by norm_num)
        rw [show (0 : Int) - (0 - 0 - min (0 - 0) T).toNat = min (0 - 0) T by omega] at hlargest
        refine isBounded_roundWithAccuracy (by omega) (atMost_quotient ?_)
        rw [Nat.shiftLeft_eq, hlargest, Int.neg_neg, Int.toNat_natCast, Nat.mul_right_comm]
        exact Nat.mul_le_mul_right _ hm

/-- The float nearest to a decimal fraction up to the largest float is finite. -/
theorem isFinite_ofScientific {m k : Nat} {s : Bool} (hs : s = false → k = 0)
    (hm : m ≤ largestAt 0 * 10 ^ k) : (Float.ofScientific m s k).isFinite := by
  unfold Float.ofScientific
  split
  · rename_i h
    have hx : m.toUInt64.toFloat.isFinite := by
      refine isFinite_toFloat_uint64 ?_
      rw [Nat.toUInt64_eq, UInt64.toNat_ofNat']
      omega
    cases s with
    | true => exact isFinite_div hx (powerOfTen_hasParts ⟨k, by omega⟩)
    | false =>
        obtain rfl := hs rfl
        exact isFinite_mul_one hx one_hasParts
  · have he : (if s then Int.negOfNat k else Int.ofNat k) = -(k : Int) := by
      cases s with
      | true => exact Int.negOfNat_eq
      | false =>
          obtain rfl := hs rfl
          rfl
    simp only [he]
    exact isFinite_pack (isBounded_ofScientific hm)

/-- The negative of a finite float is finite. -/
theorem isFinite_neg {x : Float} (hx : x.isFinite) : (-x).isFinite := by
  refine isFinite_pack ?_
  obtain ⟨s, hu⟩ | ⟨s, m, e, hm, hu⟩ := unpack_of_isFinite hx
  · rw [hu]
    trivial
  · rw [hu]
    exact (bounds_of_unpack hu).2

/-- **The float nearest to a decimal number** up to the largest float is finite. -/
theorem isFinite_toFloat {negative : Bool} {c places : Nat} (hc : c ≤ largestAt 0 * 10 ^ places) :
    (Decimal.toFloat ⟨negative, c, -places⟩).isFinite := by
  have hmagnitude : (if 0 ≤ -(places : Int) then Float.ofScientific c false (-(places : Int)).toNat
      else Float.ofScientific c true (- -(places : Int)).toNat).isFinite := by
    split
    · obtain rfl : places = 0 := by omega
      exact isFinite_ofScientific (fun _ => rfl) hc
    · rw [Int.neg_neg, Int.toNat_natCast]
      exact isFinite_ofScientific nofun hc
  unfold Decimal.toFloat
  cases negative with
  | true => exact isFinite_neg hmagnitude
  | false => exact hmagnitude

/-! ### Rounding to places -/

/-- The magnitude of a finite float. -/
theorem ofFloat_bounds {x : Float} (hx : x.isFinite) :
    (Magnitude.ofFloat x).mantissa < 2 ^ 53 ∧ (Magnitude.ofFloat x).exponent ≤ 971 := by
  have hbiased : x.toBits.toNat / 2 ^ 52 % 2 ^ 11 < 2047 := biased_lt hx
  have hfraction : x.toBits.toNat % 2 ^ 52 < 2 ^ 52 := Nat.mod_lt _ (by norm_num)
  have hnormal : Magnitude.leastNormalMantissa = 2 ^ 52 := rfl
  have hrange : Magnitude.exponentRange = 2 ^ 11 := rfl
  unfold Magnitude.ofFloat
  rw [hnormal, hrange, Magnitude.leastExponent]
  dsimp only
  split
  · exact ⟨by show _ % _ < _; omega, by norm_num⟩
  · exact ⟨by show _ % _ + _ < _; omega, by show _ + _ - _ ≤ _; omega⟩

/-- A finite float is no greater than the largest one, as a fraction. -/
theorem scaled_le {x : Float} (hx : x.isFinite) (places : Nat) :
    ((Magnitude.ofFloat x).scaled places).1 ≤
      largestAt 0 * 10 ^ places * ((Magnitude.ofFloat x).scaled places).2 := by
  obtain ⟨hm, he⟩ := ofFloat_bounds hx
  generalize Magnitude.ofFloat x = magnitude at hm he ⊢
  have hlargest : magnitude.mantissa * 2 ^ magnitude.exponent.toNat ≤ largestAt 0 := by
    rw [largestAt]
    exact Nat.mul_le_mul (Nat.le_sub_one_of_lt hm) (Nat.pow_le_pow_right (by norm_num) (by omega))
  calc magnitude.mantissa * 2 ^ magnitude.exponent.toNat * 10 ^ (places : Int).toNat
      ≤ largestAt 0 * 10 ^ places := by
        rw [Int.toNat_natCast]
        exact Nat.mul_le_mul_right _ hlargest
    _ ≤ largestAt 0 * 10 ^ places *
          (2 ^ (-magnitude.exponent).toNat * 10 ^ (-(places : Int)).toNat) :=
        Nat.le_mul_of_pos_right _ (by positivity)

/-- A fraction up to a whole number is rounded to no more than that. -/
theorem roundHalfEven_le {n d b : Nat} (hd : 0 < d) (h : n ≤ b * d) : roundHalfEven n d ≤ b := by
  have hrounded := two_mul_roundHalfEven_le n d
  by_contra hgreater
  have hstep : (b + 1) * d ≤ roundHalfEven n d * d := Nat.mul_le_mul_right d (by omega)
  rw [Nat.add_mul] at hstep
  omega

/-- A float is not both finite and infinite. -/
theorem isInf_eq_false {x : Float} (hx : x.isFinite) : x.isInf = false := by
  show x.toModel.unpack.isInf = false
  obtain ⟨s, hu⟩ | ⟨s, m, e, hm, hu⟩ := unpack_of_isFinite hx <;> rw [hu] <;> rfl

/-- **A finite float stays finite** when it is rounded to places after the point. -/
theorem isFinite_roundToPlaces {x : Float} (hx : x.isFinite) (places : Nat) :
    (roundToPlaces x places).isFinite := by
  unfold roundToPlaces
  split
  · exact hx
  · rw [if_neg (by rw [fewestPlaces]; omega)]
    refine isFinite_toFloat (roundHalfEven_le ?_ (scaled_le hx places))
    show 0 < 2 ^ _ * 10 ^ _
    positivity

/-- **A part can be rounded** to any number of places after the point. -/
theorem roundPart_eq_ok (x : Float) {places : Int} (hp : 0 ≤ places) :
    Primitive.roundPart x places = .ok (roundToPlaces x places) := by
  obtain ⟨places, rfl⟩ := Int.eq_ofNat_of_zero_le hp
  unfold Primitive.roundPart
  cases hx : x.isFinite with
  | false => simp
  | true => simp [isInf_eq_false (isFinite_roundToPlaces hx places)]

end Argand
