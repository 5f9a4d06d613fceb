import Argand.Proofs.Display.Rounding
import Argand.Proofs.Valid

/-!
# There is a root

The index of a root limits the number of candidates that are tried, if it is a positive whole
number. The limit is one at least: a positive float is no zero, and its sign bit is not set, so
that the whole number it is, if it is one, is positive. The first candidate is always kept. So
all results of the calculator are numbers, and there is a root.

## Main results

* `Argand.wholePart_pos`: the whole number that a positive float is.
* `Argand.roots_ne_nil`: there is a root.
* `Argand.gives_of_number`, `Argand.gives_calculator`: the results of the calculator are numbers.
-/

namespace Argand

open Float.Model Float.Model.UnpackedFloat

/-! ### Positive floats -/

/-- A positive finite float is unpacked with a positive sign. -/
theorem unpack_of_pos {x : Float} (hx : 0 < x) (hfinite : x.isFinite) :
    ∃ m e hm, x.toModel.unpack = .finite .positive m e hm := by
  have hzero : (0 : Float).toModel.unpack = .zero .positive := rfl
  have hlt : (UnpackedFloat.compare (0 : Float).toModel.unpack x.toModel.unpack == some .lt) = true :=
    of_decide_eq_true hx
  rw [hzero] at hlt
  obtain ⟨s, hu⟩ | ⟨s, m, e, hm, hu⟩ := unpack_of_isFinite hfinite
  · rw [hu] at hlt
    cases hlt
  · cases s with
    | positive => exact ⟨m, e, hm, hu⟩
    | negative =>
        rw [hu] at hlt
        cases hlt

/-- The sign bit of a float with a positive sign is not set. -/
theorem isNegative_eq_false {x : Float} {m : Nat} {e : Int} {hm : 0 < m}
    (h : x.toModel.unpack = .finite .positive m e hm) : isNegative x = false := by
  have hsign : @unpackSign Format.binary64 x.toModel.toBits.toBitVec = 0#1 := by
    by_contra hne
    unfold Float.Model.unpack UnpackedFloat.unpack at h
    simp only [Sign.ofBitVec, hne, if_false] at h
    split at h
    · split at h <;> cases h
    · split at h
      · split at h <;> cases h
      · cases h
  have hbit : x.toBits.toNat / 2 ^ 63 % 2 = 0 := by
    have := congrArg BitVec.toNat hsign
    rw [← Nat.shiftRight_eq_div_pow]
    exact this
  have hlt : x.toBits.toNat < 2 ^ 64 := x.toBits.toNat_lt
  have hpow : Nat.pow 2 63 = 2 ^ 63 := rfl
  rw [isNegative, decide_eq_false_iff_not, hpow]
  omega

/-- The magnitude of a float that is not zero. -/
theorem mantissa_pos {x : Float} {s : UnpackedFloat.Sign} {m : Nat} {e : Int} {hm : 0 < m}
    (h : x.toModel.unpack = .finite s m e hm) : 0 < (Magnitude.ofFloat x).mantissa := by
  have hnormal : Magnitude.leastNormalMantissa = 2 ^ 52 := rfl
  have hrange : Magnitude.exponentRange = 2 ^ 11 := rfl
  unfold Magnitude.ofFloat
  rw [hnormal, hrange]
  dsimp only
  split
  · -- without an exponent the float is zero unless it has a fraction
    rename_i hbiased
    refine Nat.pos_of_ne_zero fun hfraction => ?_
    have hexponent : @unpackExponent Format.binary64 x.toModel.toBits.toBitVec = 0#_ := by
      refine BitVec.eq_of_toNat_eq ?_
      rw [← Nat.shiftRight_eq_div_pow] at hbiased
      exact hbiased
    have hmantissa : @unpackMantissa Format.binary64 x.toModel.toBits.toBitVec = 0#_ :=
      BitVec.eq_of_toNat_eq hfraction
    unfold Float.Model.unpack UnpackedFloat.unpack at h
    simp only [hexponent, hmantissa] at h
    cases h
  · show 0 < _ + _
    positivity

/-- **The whole number that a positive float is** is positive. -/
theorem wholePart_pos {x : Float} (hx : 0 < x) {n : Int} (h : wholePart? x = some n) : 0 < n := by
  unfold wholePart? at h
  split at h
  · cases h
  · rename_i hnot
    obtain ⟨m, e, hm, hu⟩ := unpack_of_pos hx (by simpa using hnot)
    have hmantissa := mantissa_pos hu
    rw [isNegative_eq_false hu] at h
    generalize Magnitude.ofFloat x = magnitude at h hmantissa
    have hpos : 0 < (magnitude.scaled 0).1 := by
      show 0 < magnitude.mantissa * 2 ^ magnitude.exponent.toNat * 10 ^ (0 : Int).toNat
      positivity
    dsimp only at h
    split at h
    · rename_i hmod
      obtain rfl := Option.some.inj h
      have hdiv := Nat.div_add_mod (magnitude.scaled 0).1 (magnitude.scaled 0).2
      simp only [Bool.false_eq_true, if_false]
      refine Int.natCast_pos.mpr (Nat.pos_of_ne_zero fun hzero => ?_)
      rw [hzero, hmod] at hdiv
      omega
    · cases h

/-! ### Roots -/

/-- At least one candidate is tried. -/
theorem rootLimit_pos (index : Number) : 0 < Primitive.rootLimit index := by
  unfold Primitive.rootLimit
  split
  · rename_i h
    simp only [Bool.and_eq_true, decide_eq_true_eq, Primitive.isWholeNumber] at h
    obtain ⟨⟨hwhole, -⟩, hpos⟩ := h
    obtain ⟨n, hn⟩ := Option.isSome_iff_exists.mp hwhole
    have := wholePart_pos hpos hn
    rw [hn, Option.getD_some, Primitive.mostRoots]
    omega
  · decide

/-- What has been found stays found. -/
theorem distinctCandidates_ne_nil {candidate : Nat → Except Fault Number} {count k : Nat}
    {found roots : List Number} (hne : 0 < count ∨ found ≠ [])
    (h : Primitive.distinctCandidates candidate count k found = .ok roots) : roots ≠ [] := by
  induction count generalizing k found with
  | zero =>
      obtain rfl := Except.ok.inj h
      exact hne.resolve_left (Nat.lt_irrefl 0)
  | succ count ih =>
      obtain ⟨z, -, h⟩ := bind_eq_ok.mp h
      split at h
      · obtain rfl := pure_eq_ok.mp h
        rintro rfl
        cases ‹_ = true›
      · exact ih (.inr (by simp)) h

/-- **There is a root.** -/
theorem roots_ne_nil {x index : Operand} {roots : List Number}
    (h : Primitive.roots x index = .ok roots) : roots ≠ [] := by
  obtain ⟨n, -, h⟩ := bind_eq_ok.mp h
  obtain ⟨z, -, h⟩ := bind_eq_ok.mp h
  obtain ⟨p, -, h⟩ := bind_eq_ok.mp h
  obtain ⟨w, -, h⟩ := bind_eq_ok.mp h
  obtain ⟨length, -, h⟩ := bind_eq_ok.mp h
  exact distinctCandidates_ne_nil (.inl (rootLimit_pos n)) h

/-- The results of the calculator are **numbers of its own**, so they are of every kind that these
are of. -/
theorem gives_of_number {ok : Operand → Prop} (hnumber : ∀ z, ok (.number z))
    (hcontents : ∀ {a}, ok a → a.contents = .one a) : calculator.Gives ok where
  zero := hnumber _
  one := hnumber _
  two := hnumber _
  literal _ := hnumber _
  constant h := by
    obtain ⟨z, -, rfl⟩ := Option.map_eq_some_iff.mp h
    exact hnumber z
  contents := hcontents
  add h := by
    obtain ⟨z, rfl⟩ := exists_number h
    exact hnumber z
  subtract h := by
    obtain ⟨z, rfl⟩ := exists_number h
    exact hnumber z
  multiply h := by
    obtain ⟨z, rfl⟩ := exists_number h
    exact hnumber z
  divide h := by
    obtain ⟨z, rfl⟩ := exists_number h
    exact hnumber z
  power h := by
    obtain ⟨z, rfl⟩ := exists_number h
    exact hnumber z
  log h := by
    obtain ⟨z, rfl⟩ := exists_number h
    exact hnumber z
  roots {a n rs} h := by
    obtain ⟨zs, hzs, rfl⟩ := map_eq_ok.mp h
    refine ⟨by simpa using roots_ne_nil hzs, fun c hc => ?_⟩
    obtain ⟨z, -, rfl⟩ := List.mem_map.mp hc
    exact hnumber z

/-- **The results of the calculator are numbers.** -/
theorem gives_calculator : calculator.Gives Operand.IsNumeric :=
  gives_of_number .number Operand.IsNumeric.contents

end Argand
