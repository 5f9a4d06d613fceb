import Argand.Proofs.Display.Rounding

/-!
# Floats by their parts

Floats compute with a sign, a mantissa and an exponent. Every float is the packed form of what it is
unpacked to, and the unpacked forms that occur are canonical: what is unpacked after packing them is
the same again. So an operation whose exact result is a float gives that float, and the magnitude
and the sign bit that are read off the bits of a float are its parts.

## Main definitions

* `Argand.IsCanonical`: an unpacked float that floats are unpacked to.

## Main results

* `Argand.unpack_pack`, `Argand.ofModel_pack_unpack`: packing and unpacking are inverse.
* `Argand.roundWithAccuracy_exact`: a canonical float is its own rounding.
* `Argand.magnitude_of_unpack`: the magnitude of a float has its parts.
* `Argand.ofScientific_whole`: the float nearest to a whole number that is a float.
-/

namespace Argand

open Float.Model Float.Model.UnpackedFloat

/-! ### Components -/

/-- A sign is one bit. -/
theorem toBitVec_ofBitVec (b : BitVec 1) : (UnpackedFloat.Sign.ofBitVec b).toBitVec = b := by
  revert b
  decide

@[simp] theorem ofBitVec_toBitVec (s : UnpackedFloat.Sign) : .ofBitVec s.toBitVec = s := by
  cases s <;> rfl

section Components

variable (s : UnpackedFloat.Sign) (e : BitVec 11) (m : BitVec 52)

/-- The bits of the components as a number. -/
theorem toNat_packComponents : (packComponents Format.binary64 s e m).toNat =
    (s.toBitVec.toNat * 2 ^ 11 + e.toNat) * 2 ^ 52 + m.toNat := by
  rw [packComponents, BitVec.toNat_append, BitVec.toNat_append,
    ← Nat.shiftLeft_add_eq_or_of_lt m.isLt, ← Nat.shiftLeft_add_eq_or_of_lt e.isLt,
    Nat.shiftLeft_eq, Nat.shiftLeft_eq]

/-- The components of some bits as numbers. -/
theorem toNat_unpackExponent (b : BitVec Format.binary64.numBits) :
    (unpackExponent b).toNat = b.toNat / 2 ^ 52 % 2 ^ 11 := by
  rw [← Nat.shiftRight_eq_div_pow]
  rfl

theorem toNat_unpackSign (b : BitVec Format.binary64.numBits) :
    (unpackSign b).toNat = b.toNat / 2 ^ 63 % 2 := by
  rw [← Nat.shiftRight_eq_div_pow]
  rfl

/-- All bits are **packed components**. -/
theorem packComponents_unpack (b : BitVec Format.binary64.numBits) :
    packComponents Format.binary64 (.ofBitVec (unpackSign b)) (unpackExponent b)
      (unpackMantissa b) = b := by
  refine BitVec.eq_of_toNat_eq ?_
  have hmantissa : (@unpackMantissa Format.binary64 b).toNat = b.toNat % 2 ^ 52 := rfl
  have hb := b.isLt
  rw [toNat_packComponents, toBitVec_ofBitVec, toNat_unpackSign, toNat_unpackExponent, hmantissa]
  norm_num at hb ⊢
  omega

@[simp] theorem unpackSign_packComponents :
    @unpackSign Format.binary64 (packComponents Format.binary64 s e m) = s.toBitVec := by
  refine BitVec.eq_of_toNat_eq ?_
  have hs := s.toBitVec.isLt
  have he := e.isLt
  have hm := m.isLt
  rw [toNat_unpackSign, toNat_packComponents]
  norm_num at hs he hm ⊢
  omega

/-- The components of a **normal** float. -/
theorem unpack_normal {e : BitVec 11} (hzero : e ≠ 0#11) (hones : e ≠ -1#11) :
    UnpackedFloat.unpack Format.binary64 (packComponents Format.binary64 s e m) =
      .finite s (2 ^ 52 + m.toNat) (e.toNat - 1075) (by positivity) := by
  have hleading : (1#1 ++ m).toNat = 2 ^ 52 + m.toNat := by
    rw [BitVec.toNat_append, ← Nat.shiftLeft_add_eq_or_of_lt m.isLt]
    rfl
  simp only [UnpackedFloat.unpack, unpackMantissa_packComponents, unpackExponent_packComponents,
    unpackSign_packComponents, ofBitVec_toBitVec]
  rw [if_neg hones, if_neg hzero]
  congr 1

/-- The components of a **subnormal** float. -/
theorem unpack_subnormal {m : BitVec 52} (hm : m ≠ 0#52) :
    UnpackedFloat.unpack Format.binary64 (packComponents Format.binary64 s 0#11 m) =
      .finite s m.toNat (-1074) (Nat.pos_of_ne_zero fun h => hm (BitVec.eq_of_toNat_eq h)) := by
  simp only [UnpackedFloat.unpack, unpackMantissa_packComponents, unpackExponent_packComponents,
    unpackSign_packComponents, ofBitVec_toBitVec]
  rw [if_neg (by decide), if_pos trivial, dif_neg hm]
  rfl

theorem unpack_zero :
    UnpackedFloat.unpack Format.binary64 (packComponents Format.binary64 s 0#11 0#52) =
      .zero s := by
  cases s <;> rfl

theorem unpack_infinity :
    UnpackedFloat.unpack Format.binary64 (packComponents Format.binary64 s (-1#11) 0#52) =
      .infinity s := by
  cases s <;> rfl

theorem unpack_notANumber {m : BitVec 52} (hm : m ≠ 0#52) :
    UnpackedFloat.unpack Format.binary64 (packComponents Format.binary64 s (-1#11) m) =
      .notANumber := by
  simp only [UnpackedFloat.unpack, unpackMantissa_packComponents, unpackExponent_packComponents]
  rw [if_pos trivial, if_neg hm]

variable {m : Nat} {e : Int}

/-- A normal float **packed**. -/
theorem pack_normal (hm : 0 < m) (hle : 2 ^ 52 ≤ m) (hlt : m < 2 ^ 53) (he : e ≤ 971) :
    UnpackedFloat.pack Format.binary64 (.finite s m e hm) =
      packComponents Format.binary64 s (BitVec.ofNat 11 (e + 1075).toNat) (BitVec.ofNat 52 m) := by
  have hlog : m.log2 + 1 = Format.binary64.mantissaBits := by
    have hlo := (Nat.le_log2 (by omega)).mpr hle
    have hhi := (Nat.log2_lt (by omega)).mpr hlt
    have hbits : Format.binary64.mantissaBits = 53 := rfl
    omega
  have hbiased : (e + Format.binary64.exponentBias + (52 : Nat)).toNat = (e + 1075).toNat := by
    have hbias : (Format.binary64.exponentBias : Int) = 1023 := rfl
    omega
  have hrange : ¬ 2 ^ 11 ≤ (e + 1075).toNat + 1 := by omega
  simp only [UnpackedFloat.pack]
  rw [hbiased, if_neg hrange, if_pos hlog]

/-- A subnormal float **packed**. -/
theorem pack_subnormal (hm : 0 < m) (hlt : m < 2 ^ 52) :
    UnpackedFloat.pack Format.binary64 (.finite s m (-1074) hm) =
      packComponents Format.binary64 s 0#11 (BitVec.ofNat 52 m) := by
  have hlog : m.log2 + 1 ≠ Format.binary64.mantissaBits := by
    have hhi := (Nat.log2_lt (by omega)).mpr hlt
    have hbits : Format.binary64.mantissaBits = 53 := rfl
    omega
  simp only [UnpackedFloat.pack]
  rw [if_neg (by decide), if_neg hlog]

end Components

/-! ### Canonical floats -/

/-- An unpacked float in the form that floats are **unpacked to**. -/
inductive IsCanonical : UnpackedFloat → Prop
  | notANumber : IsCanonical .notANumber
  | infinity (s : UnpackedFloat.Sign) : IsCanonical (.infinity s)
  | zero (s : UnpackedFloat.Sign) : IsCanonical (.zero s)
  | subnormal (s : UnpackedFloat.Sign) {m : Nat} (hm : 0 < m) (hlt : m < 2 ^ 52) :
      IsCanonical (.finite s m (-1074) hm)
  | normal (s : UnpackedFloat.Sign) {m : Nat} {e : Int} (hm : 0 < m) (hle : 2 ^ 52 ≤ m)
      (hlt : m < 2 ^ 53) (hlo : -1074 ≤ e) (hhi : e ≤ 971) : IsCanonical (.finite s m e hm)

/-- **What is packed is unpacked again.** -/
theorem unpack_pack {u : UnpackedFloat} (h : IsCanonical u) : (Float.Model.pack u).unpack = u := by
  show UnpackedFloat.unpack Format.binary64 (UnpackedFloat.pack Format.binary64 u) = u
  cases h with
  | notANumber => rfl
  | infinity s => exact unpack_infinity s
  | zero s => exact unpack_zero s
  | @subnormal s m hm hlt =>
      have hmantissa : (BitVec.ofNat 52 m).toNat = m := by
        rw [BitVec.toNat_ofNat, Nat.mod_eq_of_lt hlt]
      have hzero : BitVec.ofNat 52 m ≠ 0#52 := fun heq => by
        have := congrArg BitVec.toNat heq
        rw [hmantissa, BitVec.toNat_zero] at this
        omega
      rw [pack_subnormal s hm hlt, unpack_subnormal s hzero]
      congr 1
  | @normal s m e hm hle hlt hlo hhi =>
      have hexponent : (BitVec.ofNat 11 (e + 1075).toNat).toNat = (e + 1075).toNat := by
        rw [BitVec.toNat_ofNat, Nat.mod_eq_of_lt (by omega)]
      have hne {k : Nat} (hk : k < 2 ^ 11) (hk' : (e + 1075).toNat ≠ k) :
          BitVec.ofNat 11 (e + 1075).toNat ≠ BitVec.ofNat 11 k := fun heq => by
        have := congrArg BitVec.toNat heq
        rw [hexponent, BitVec.toNat_ofNat, Nat.mod_eq_of_lt hk] at this
        exact hk' this
      have hzero : (e + 1075).toNat ≠ 0 := by omega
      have hones : (e + 1075).toNat ≠ 2047 := by omega
      rw [pack_normal s hm hle hlt hhi,
        unpack_normal s _ (hne (by decide) hzero) (hne (by decide) hones)]
      congr 1
      · rw [BitVec.toNat_ofNat]
        omega
      · rw [hexponent]
        omega

/-- Floats are **unpacked to canonical ones**, and packed again to their bits. -/
theorem unpack_spec (x : Float.Model) : IsCanonical x.unpack ∧
    UnpackedFloat.pack Format.binary64 x.unpack = x.toBits.toBitVec := by
  obtain ⟨s, e, m, hbits⟩ : ∃ (s : UnpackedFloat.Sign) (e : BitVec 11) (m : BitVec 52),
      x.toBits.toBitVec = packComponents Format.binary64 s e m :=
    ⟨_, _, _, (packComponents_unpack _).symm⟩
  have hvalid := x.valid.eq_packedNaN
  have he := e.isLt
  have hm := m.isLt
  unfold Float.Model.unpack
  rw [hbits, unpackExponent_packComponents, unpackMantissa_packComponents] at hvalid
  rw [hbits]
  by_cases hzero : e = 0#11
  · subst hzero
    by_cases hmantissa : m = 0#52
    · subst hmantissa
      rw [unpack_zero]
      exact ⟨.zero s, rfl⟩
    · rw [unpack_subnormal s hmantissa, pack_subnormal s _ hm, BitVec.ofNat_toNat,
        BitVec.setWidth_eq]
      exact ⟨.subnormal s _ hm, rfl⟩
  by_cases hones : e = -1#11
  · subst hones
    by_cases hmantissa : m = 0#52
    · subst hmantissa
      rw [unpack_infinity]
      exact ⟨.infinity s, rfl⟩
    · rw [unpack_notANumber s hmantissa]
      exact ⟨.notANumber, (hvalid rfl hmantissa).symm⟩
  have hlo : e.toNat ≠ 0 := fun h => hzero (BitVec.eq_of_toNat_eq h)
  have hhi : e.toNat ≠ 2047 := fun h => hones (BitVec.eq_of_toNat_eq h)
  have hexponent : BitVec.ofNat 11 ((e.toNat : Int) - 1075 + 1075).toNat = e := by
    rw [Int.sub_add_cancel, Int.toNat_natCast, BitVec.ofNat_toNat, BitVec.setWidth_eq]
  have hmantissa : BitVec.ofNat 52 (2 ^ 52 + m.toNat) = m := by
    refine BitVec.eq_of_toNat_eq ?_
    rw [BitVec.toNat_ofNat]
    omega
  rw [unpack_normal s m hzero hones, pack_normal s _ (by omega) (by omega) (by omega), hexponent,
    hmantissa]
  exact ⟨.normal s _ (by omega) (by omega) (by omega) (by omega), rfl⟩

/-- A float is **its own packed form**. -/
theorem ofModel_pack_unpack (x : Float) :
    Float.ofModel (Float.Model.pack x.toModel.unpack) = x := by
  obtain ⟨⟨bits, hvalid⟩⟩ := x
  have h := (unpack_spec ⟨bits, hvalid⟩).2
  simp only [Float.Model.pack, h]

/-- A float is told by what it is unpacked to. -/
theorem eq_of_unpack {x y : Float} (h : x.toModel.unpack = y.toModel.unpack) : x = y := by
  rw [← ofModel_pack_unpack x, h, ofModel_pack_unpack]

/-! ### The parts of a float -/

/-- The bits of a float that is not zero. -/
theorem toNat_pack {s : UnpackedFloat.Sign} {m : Nat} {e : Int} {hm : 0 < m}
    (h : IsCanonical (.finite s m e hm)) :
    (UnpackedFloat.pack Format.binary64 (.finite s m e hm)).toNat =
      (s.toBitVec.toNat * 2 ^ 11 + (if m < 2 ^ 52 then 0 else (e + 1075).toNat)) * 2 ^ 52 +
        m % 2 ^ 52 := by
  cases h with
  | subnormal _ _ hlt =>
      rw [pack_subnormal s hm hlt, toNat_packComponents, BitVec.toNat_ofNat, if_pos hlt]
      rfl
  | normal _ _ hle hlt hlo hhi =>
      rw [pack_normal s hm hle hlt hhi, toNat_packComponents, BitVec.toNat_ofNat,
        BitVec.toNat_ofNat, if_neg (by omega), Nat.mod_eq_of_lt (by omega : (e + 1075).toNat < 2 ^ 11)]

variable {x : Float} {s : UnpackedFloat.Sign} {m : Nat} {e : Int} {hm : 0 < m}

/-- **The magnitude of a float** has its parts. -/
theorem magnitude_of_unpack (h : x.toModel.unpack = .finite s m e hm) :
    Magnitude.ofFloat x = ⟨m, e⟩ := by
  obtain ⟨hcanonical, hpack⟩ := unpack_spec x.toModel
  rw [h] at hcanonical hpack
  have hnat : x.toBits.toNat = _ := hpack ▸ toNat_pack hcanonical
  have hs := s.toBitVec.isLt
  have hnormal : Magnitude.leastNormalMantissa = 2 ^ 52 := rfl
  have hrange : Magnitude.exponentRange = 2 ^ 11 := rfl
  unfold Magnitude.ofFloat
  rw [hnormal, hrange, Magnitude.leastExponent, hnat]
  cases hcanonical with
  | subnormal _ _ hlt =>
      have hexponent : (if m < 2 ^ 52 then 0 else ((-1074 : Int) + 1075).toNat) = 0 := if_pos hlt
      rw [hexponent]
      dsimp only
      rw [if_pos (by omega)]
      congr 1
      omega
  | normal _ _ hle hlt hlo hhi =>
      have hexponent : (if m < 2 ^ 52 then 0 else (e + 1075).toNat) = (e + 1075).toNat :=
        if_neg (Nat.not_lt.mpr hle)
      rw [hexponent]
      dsimp only
      rw [if_neg (by omega)]
      congr 1 <;> omega

/-- **The sign bit of a float** is its sign. -/
theorem isNegative_of_unpack (h : x.toModel.unpack = .finite s m e hm) :
    isNegative x = (s == .negative) := by
  obtain ⟨hcanonical, hpack⟩ := unpack_spec x.toModel
  rw [h] at hcanonical hpack
  have hnat : x.toBits.toNat = _ := hpack ▸ toNat_pack hcanonical
  have hpow : Nat.pow 2 63 = 2 ^ 63 := rfl
  have hlo : (if m < 2 ^ 52 then 0 else (e + 1075).toNat) < 2 ^ 11 := by
    cases hcanonical <;> split <;> omega
  rw [isNegative, hpow, hnat]
  cases s with
  | negative => exact decide_eq_true (by show _ ≤ (1 * _ + _) * _ + _; omega)
  | positive => exact decide_eq_false (by show ¬ _ ≤ (0 * _ + _) * _ + _; omega)

/-! ### Exact rounding -/

/-- A multiple of a power of two loses no bits when it is shifted by that power. -/
theorem shiftRight_exact (m k : Nat) :
    ExtendedMantissa.ofMantissaAndAccuracy (m * 2 ^ k) .exact >>> k =
      ExtendedMantissa.ofMantissaAndAccuracy m .exact := by
  change k.repeat ExtendedMantissa.shiftRightOne (.ofMantissaAndAccuracy (m * 2 ^ k) .exact) = _
  induction k generalizing m with
  | zero => simp [Nat.repeat]
  | succ k ih =>
      have hsplit : m * 2 ^ (k + 1) = 2 * m * 2 ^ k := by ring
      rw [hsplit, Nat.repeat, ih]
      simp [ExtendedMantissa.ofMantissaAndAccuracy, ExtendedMantissa.shiftRightOne]

/-- The number of bits of a multiple of a power of two. -/
theorem log2_mul_two_pow {m : Nat} (hm : 0 < m) (k : Nat) : (m * 2 ^ k).log2 = m.log2 + k := by
  induction k with
  | zero => simp
  | succ k ih =>
      have hsplit : m * 2 ^ (k + 1) = 2 * (m * 2 ^ k) := by ring
      have hpos : m * 2 ^ k ≠ 0 := by positivity
      rw [hsplit, Nat.log2_two_mul hpos, ih, Nat.add_assoc]

/-- A canonical float **has the exponent** that its rounding aims at. -/
theorem targetExponent_of_canonical (h : IsCanonical (.finite s m e hm)) :
    Format.binary64.targetExponent (totalExponent m e) = e := by
  have hbits : (Format.binary64.mantissaBits : Int) = 53 := rfl
  have hmin : Format.binary64.minExponent = -1074 := rfl
  rw [Format.targetExponent, totalExponent, hbits, hmin]
  cases h with
  | subnormal _ _ hlt =>
      have hlog := (Nat.log2_lt (by omega)).mpr hlt
      omega
  | normal _ _ hle hlt hlo hhi =>
      have hmore := (Nat.le_log2 (by omega)).mpr hle
      have hless := (Nat.log2_lt (by omega)).mpr hlt
      omega

/-- **A canonical float is its own rounding**, from however many bits. -/
theorem roundWithAccuracy_exact (h : IsCanonical (.finite s m e hm)) (k : Nat) :
    roundWithAccuracy Format.binary64 s (m * 2 ^ k) (e - k) .exact = .finite s m e hm := by
  have hshift (k : Nat) : shiftToTargetExponent Format.binary64 (m * 2 ^ k) (e - k) .exact =
      (ExtendedMantissa.ofMantissaAndAccuracy m .exact, e) := by
    have htotal : totalExponent (m * 2 ^ k) (e - k) = totalExponent m e := by
      rw [totalExponent, totalExponent, log2_mul_two_pow hm]
      omega
    have hamount : (e - (e - k)).toNat = k := by omega
    rw [shiftToTargetExponent, htotal, targetExponent_of_canonical h, shiftToExponent, hamount]
    simp only [shiftRight_exact, Int.sub_add_cancel]
  have hround : (ExtendedMantissa.ofMantissaAndAccuracy m .exact).roundedMantissa = m := rfl
  have hagain := hshift 0
  simp only [pow_zero, mul_one, Nat.cast_zero, sub_zero] at hagain
  unfold roundWithAccuracy
  simp only [hshift k, hround, hagain]
  exact dif_neg (Nat.ne_of_gt hm)

/-! ### Exact operations -/

/-- What an operation gives is the float that its result is unpacked from. -/
theorem ofModel_pack_eq {u : UnpackedFloat} {x : Float} (h : u = x.toModel.unpack) :
    Float.ofModel (Float.Model.pack u) = x := by
  rw [h, ofModel_pack_unpack]

theorem IsCanonical.neg {u : UnpackedFloat} (h : IsCanonical u) : IsCanonical u.neg := by
  cases h with
  | notANumber => exact .notANumber
  | infinity s => exact .infinity _
  | zero s => exact .zero _
  | subnormal s hm hlt => exact .subnormal _ hm hlt
  | normal s hm hle hlt hlo hhi => exact .normal _ hm hle hlt hlo hhi

theorem IsCanonical.abs {u : UnpackedFloat} (h : IsCanonical u) : IsCanonical u.abs := by
  cases h with
  | notANumber => exact .notANumber
  | infinity s => exact .infinity _
  | zero s => exact .zero _
  | subnormal s hm hlt => exact .subnormal _ hm hlt
  | normal s hm hle hlt hlo hhi => exact .normal _ hm hle hlt hlo hhi

/-- The negative of a float has the other sign. -/
@[simp] theorem unpack_neg (x : Float) : (-x).toModel.unpack = x.toModel.unpack.neg :=
  unpack_pack (unpack_spec x.toModel).1.neg

/-- The absolute value of a float has a positive sign. -/
@[simp] theorem unpack_abs (x : Float) : x.abs.toModel.unpack = x.toModel.unpack.abs :=
  unpack_pack (unpack_spec x.toModel).1.abs

@[simp] theorem unpack_float_zero : (0 : Float).toModel.unpack = .zero .positive := rfl

@[simp] theorem unpack_float_one :
    (1 : Float).toModel.unpack = .finite .positive (2 ^ 52) (-52) (by positivity) := rfl

/-- There are two floats that are **zero**. -/
theorem eq_zero_or_neg_zero {s : UnpackedFloat.Sign} (h : x.toModel.unpack = .zero s) :
    x = 0 ∨ x = -0 := by
  cases s with
  | positive => exact .inl (eq_of_unpack (h.trans unpack_float_zero.symm))
  | negative => exact .inr (eq_of_unpack (h.trans (unpack_neg 0).symm))

/-- The negative of the negative. -/
theorem float_neg_neg (x : Float) : - -x = x := by
  have hsign (s : UnpackedFloat.Sign) : - -s = s := by cases s <;> rfl
  refine eq_of_unpack ?_
  rw [unpack_neg, unpack_neg]
  cases x.toModel.unpack <;> simp [UnpackedFloat.neg, hsign]

/-- A float times **one**. -/
@[simp] theorem float_mul_one (x : Float) : x * 1 = x := by
  have hsign (s : UnpackedFloat.Sign) : s * .positive = s := by cases s <;> rfl
  have hcanonical := (unpack_spec x.toModel).1
  refine ofModel_pack_eq ?_
  rw [unpack_float_one]
  cases hu : x.toModel.unpack with
  | notANumber => rfl
  | infinity s => simp [UnpackedFloat.mul, hsign]
  | zero s => simp [UnpackedFloat.mul, hsign]
  | finite s m e hm =>
      rw [hu] at hcanonical
      simp only [UnpackedFloat.mul, hsign]
      exact roundWithAccuracy_exact hcanonical 52

/-- A finite float times **zero** is a zero. -/
theorem float_mul_zero (hx : x.isFinite) : x * 0 = 0 ∨ x * 0 = -0 := by
  obtain ⟨s, hzero⟩ : ∃ s, UnpackedFloat.mul Format.binary64 x.toModel.unpack
      (0 : Float).toModel.unpack = .zero s := by
    rw [unpack_float_zero]
    obtain ⟨s, hu⟩ | ⟨s, m, e, hm, hu⟩ := unpack_of_isFinite hx <;> rw [hu] <;> exact ⟨_, rfl⟩
  cases s with
  | positive => exact .inl (ofModel_pack_eq hzero)
  | negative => exact .inr (ofModel_pack_eq (hzero.trans (unpack_neg 0).symm))

/-- A float **minus zero**. -/
@[simp] theorem float_sub_zero (x : Float) : x - 0 = x := by
  refine ofModel_pack_eq ?_
  rw [unpack_float_zero]
  cases x.toModel.unpack with
  | zero s => cases s <;> rfl
  | _ => rfl

/-- A float that is no negative zero **plus zero**. -/
theorem float_add_zero (h : x.toModel.unpack ≠ .zero .negative) : x + 0 = x := by
  refine ofModel_pack_eq ?_
  rw [unpack_float_zero]
  cases hu : x.toModel.unpack with
  | zero s =>
      cases s with
      | positive => rfl
      | negative => exact absurd hu h
  | _ => rfl

theorem float_zero_add (h : x.toModel.unpack ≠ .zero .negative) : 0 + x = x := by
  refine ofModel_pack_eq ?_
  rw [unpack_float_zero]
  cases hu : x.toModel.unpack with
  | zero s =>
      cases s with
      | positive => rfl
      | negative => exact absurd hu h
  | _ => rfl

/-- **Zero minus** a float that is no positive zero. -/
theorem float_zero_sub (h : x.toModel.unpack ≠ .zero .positive) : 0 - x = -x := by
  refine ofModel_pack_eq ?_
  rw [unpack_float_zero, unpack_neg]
  cases hu : x.toModel.unpack with
  | zero s =>
      cases s with
      | positive => exact absurd hu h
      | negative => rfl
  | _ => rfl

/-! ### Equality -/

/-- Unpacked floats compare as equal if they are the same number, or both zero. -/
theorem compare_eq_iff (u v : UnpackedFloat) : UnpackedFloat.compare u v = some .eq ↔
    (u = v ∧ u ≠ .notANumber) ∨ (∃ s, u = .zero s) ∧ ∃ s, v = .zero s := by
  rcases u with s | _ | s | ⟨s, m, e, hm⟩ <;> rcases v with t | _ | t | ⟨t, m', e', hm'⟩ <;>
    (try cases s) <;> (try cases t) <;>
    simp [UnpackedFloat.compare, Ordering.then_eq_eq, and_comm]
  all_goals rfl

/-- **Equal floats** are the same float, or both zero. -/
theorem float_beq_iff {y : Float} : (x == y) = true ↔
    (x = y ∧ x.toModel.unpack ≠ .notANumber) ∨
      (∃ s, x.toModel.unpack = .zero s) ∧ ∃ s, y.toModel.unpack = .zero s := by
  have hsame : x.toModel.unpack = y.toModel.unpack ↔ x = y := ⟨eq_of_unpack, fun h => by rw [h]⟩
  show (UnpackedFloat.compare x.toModel.unpack y.toModel.unpack == some .eq) = true ↔ _
  rw [beq_iff_eq, compare_eq_iff, hsame]

/-- Equality of floats is symmetric. -/
theorem float_beq_symm {y : Float} (h : (x == y) = true) : (y == x) = true := by
  rw [float_beq_iff] at h ⊢
  obtain ⟨rfl, hnan⟩ | ⟨hx, hy⟩ := h
  · exact .inl ⟨rfl, hnan⟩
  · exact .inr ⟨hy, hx⟩

/-- Equality of floats is transitive. -/
theorem float_beq_trans {y z : Float} (hxy : (x == y) = true) (hyz : (y == z) = true) :
    (x == z) = true := by
  rw [float_beq_iff] at hxy hyz ⊢
  obtain ⟨rfl, -⟩ | ⟨hx, hy⟩ := hxy
  · exact hyz
  · obtain ⟨rfl, -⟩ | ⟨-, hz⟩ := hyz
    · exact .inr ⟨hx, hy⟩
    · exact .inr ⟨hx, hz⟩

/-- A float is equal to itself unless it is NaN. -/
theorem float_beq_self (x : Float) : (x == x) = !x.isNaN := by
  have hnan : x.isNaN = x.toModel.unpack.isNaN := rfl
  rw [Bool.eq_iff_iff, float_beq_iff, hnan]
  cases x.toModel.unpack <;> simp [UnpackedFloat.isNaN]

/-- Zeros alone are equal to zero. -/
theorem float_beq_zero : (x == 0) = true ↔ ∃ s, x.toModel.unpack = .zero s := by
  rw [float_beq_iff]
  constructor
  · rintro (⟨rfl, -⟩ | ⟨hzero, -⟩)
    · exact ⟨_, rfl⟩
    · exact hzero
  · exact fun hzero => .inr ⟨hzero, _, rfl⟩

/-! ### Whole numbers -/

/-- A whole number that is a float is **rounded to it**. -/
theorem round_exact (h : IsCanonical (.finite s m e hm)) {n : Nat} (hpos : 0 < n)
    (hn : n * 2 ^ (-e).toNat = m * 2 ^ e.toNat) :
    UnpackedFloat.round Format.binary64 s n 0 = .finite s m e hm := by
  have htotal : totalExponent n 0 = totalExponent m e := by
    have hlog := log2_mul_two_pow hpos (-e).toNat
    rw [hn, log2_mul_two_pow hm] at hlog
    rw [totalExponent, totalExponent]
    omega
  have hshift : -((-e).toNat : Int) = e - (e.toNat : Int) := by omega
  rw [UnpackedFloat.round, htotal, targetExponent_of_canonical h, decreaseExponent]
  simp only [Nat.shiftLeft_eq, zero_sub, hn, hshift]
  exact roundWithAccuracy_exact h e.toNat

/-- **The float nearest to a whole number** that is a float. -/
theorem ofScientific_whole (hx : x.toModel.unpack = .finite .positive m e hm) {n : Nat}
    (hn : n * 2 ^ (-e).toNat = m * 2 ^ e.toNat) : Float.ofScientific n false 0 = x := by
  have hcanonical : IsCanonical (.finite .positive m e hm) := hx ▸ (unpack_spec x.toModel).1
  have hpos : 0 < n := by
    have hproduct : 0 < m * 2 ^ e.toNat := by positivity
    exact Nat.pos_of_mul_pos_right (hn ▸ hproduct)
  unfold Float.ofScientific
  split
  · -- a small whole number is made a float, which is multiplied by one
    rename_i hsmall
    have hone : Float.exactlyRepresentablePowersOfTen[0] = 1 := rfl
    have hnat : n.toUInt64.toNat = n := by
      rw [Nat.toUInt64_eq, UInt64.toNat_ofNat']
      omega
    simp only [hone, float_mul_one, Bool.false_eq_true, if_false]
    refine ofModel_pack_eq ?_
    have hgreater : compare ((n : Nat) : Int) 0 = .gt := Int.compare_eq_gt.mpr (by omega)
    rw [hx, UnpackedFloat.ofUInt64, hnat, UnpackedFloat.ofNat, UnpackedFloat.ofInt,
      UnpackedFloat.normalize, hgreater]
    exact round_exact hcanonical hpos hn
  · -- a large one is shifted, and rounded with a nonnegative exponent
    rename_i hlarge
    have hle : 2 ^ 53 ≤ n := by omega
    have hexponent : 0 ≤ e := by
      by_contra hneg
      have hm : m < 2 ^ 53 := (bounds_of_unpack hx).1
      have hzero : e.toNat = 0 := by omega
      rw [hzero, pow_zero, mul_one] at hn
      have : n ≤ n * 2 ^ (-e).toNat := Nat.le_mul_of_pos_right _ (by positivity)
      omega
    have hwhole : n = m * 2 ^ e.toNat := by
      have hzero : (-e).toNat = 0 := by omega
      rwa [hzero, pow_zero, mul_one] at hn
    have hbits : Format.binary64.mantissaBits = 53 := rfl
    refine ofModel_pack_eq ?_
    have hmul : n * 2 ^ 53 * 10 ^ (Int.ofNat 0).toNat = m * 2 ^ (e.toNat + 53) := by
      rw [hwhole, Int.ofNat_eq_natCast, Int.toNat_natCast, pow_add]
      ring
    have hshift : -(53 : Int) + 0 = e - ((e.toNat + 53 : Nat) : Int) := by omega
    rw [hx]
    simp only [Bool.false_eq_true, if_false]
    unfold UnpackedFloat.ofScientific
    rw [dif_neg (by omega), if_neg (by norm_num), if_neg (by norm_num), if_pos (by norm_num)]
    simp only [UnpackedFloat.mul, hbits, Nat.shiftLeft_eq, hmul]
    exact hshift ▸ roundWithAccuracy_exact hcanonical (e.toNat + 53)

/-- The whole number that a positive float is, **from its parts**. -/
theorem wholePart?_of_unpack (hx : x.toModel.unpack = .finite .positive m e hm) :
    wholePart? x = if m * 2 ^ e.toNat % 2 ^ (-e).toNat = 0 then
      some ((m * 2 ^ e.toNat / 2 ^ (-e).toNat : Nat) : Int) else none := by
  have hfinite : x.isFinite = true := by
    show x.toModel.unpack.isFinite = true
    rw [hx]
    rfl
  have hscaled : (Magnitude.mk m e).scaled 0 = (m * 2 ^ e.toNat, 2 ^ (-e).toNat) := by
    simp [Magnitude.scaled, Magnitude.scaledBy, Magnitude.powerFraction, Nat.pow_eq]
  have hsign : isNegative x = false := isNegative_of_unpack hx
  rw [wholePart?, hfinite, magnitude_of_unpack hx, hscaled, hsign]
  rfl

/-- **A positive whole number** that is a float. -/
theorem exists_of_wholePart? (hx : x.toModel.unpack = .finite .positive m e hm) {n : Int}
    (h : wholePart? x = some n) :
    ∃ k : Nat, n = k ∧ 0 < k ∧ k * 2 ^ (-e).toNat = m * 2 ^ e.toNat := by
  rw [wholePart?_of_unpack hx] at h
  split at h
  · rename_i hmod
    have hproduct := Nat.div_mul_cancel (Nat.dvd_of_mod_eq_zero hmod)
    have hpositive : 0 < m * 2 ^ e.toNat := by positivity
    exact ⟨_, (Option.some.inj h).symm, Nat.pos_of_mul_pos_right (hproduct ▸ hpositive), hproduct⟩
  · cases h

/-- A float that is no whole number has bits after the point. -/
theorem exponent_neg_of_wholePart? (hx : x.toModel.unpack = .finite .positive m e hm)
    (h : wholePart? x = none) : e < 0 := by
  by_contra hexponent
  have hzero : (-e).toNat = 0 := by omega
  rw [wholePart?_of_unpack hx, hzero, pow_zero, Nat.mod_one, if_pos rfl] at h
  cases h

end Argand
