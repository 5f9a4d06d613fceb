import Argand.Operand
import Argand.Proofs.Display.Snapping

/-!
# The form of a constructed number

A number is constructed by snapping two floats, whatever they are. Snapping keeps the kind of a
part: NaN and the infinities stay as they are, and a finite part stays finite. So the number is NaN
exactly if a part was, it is one of the infinities exactly if one was infinite and none NaN, and
otherwise its parts are stable. None of these has a negative zero or a part between zero and the
least part that is told apart from it, and equal ones are the same.

## Main definitions

* `Argand.IsTiny`: a part that is not zero and still taken for it.

## Main results

* `Argand.isFinite_snapPart`: snapping keeps finite parts finite.
* `Argand.Number.snap_eq_nan_iff`, `Argand.Number.snap_infinite_iff`: which numbers collapse.
* `Argand.Number.constantName?_of_equals`: a snapped number that is equal to a constant is it.
* `Argand.Number.snap_canonical`: the form of a constructed number.
-/

namespace Argand

open Float.Model Float.Model.UnpackedFloat

/-! ### Kinds of parts -/

/-- A float is finite if it is neither NaN nor infinite. -/
theorem isFinite_iff (x : Float) : x.isFinite = true ↔ x.isNaN = false ∧ x.isInf = false := by
  show x.toModel.unpack.isFinite = true ↔
    x.toModel.unpack.isNaN = false ∧ x.toModel.unpack.isInf = false
  cases x.toModel.unpack <;>
    simp [UnpackedFloat.isFinite, UnpackedFloat.isNaN, UnpackedFloat.isInf]

/-- An infinite float is equal to one of the two infinities. -/
theorem isInf_iff (x : Float) : x.isInf = true ↔
    (x == Number.infinity.re) = true ∨ (x == -Number.infinity.re) = true := by
  have hpos : Number.infinity.re.toModel.unpack = .infinity .positive := rfl
  have hneg : (-Number.infinity.re).toModel.unpack = .infinity .negative := rfl
  have hbeq {y : Float} {s : UnpackedFloat.Sign} (hy : y.toModel.unpack = .infinity s) :
      (x == y) = true ↔ x.toModel.unpack = .infinity s := by
    rw [float_beq_iff]
    constructor
    · rintro (⟨rfl, -⟩ | ⟨-, t, ht⟩)
      · exact hy
      · cases hy.symm.trans ht
    · exact fun hx => .inl ⟨eq_of_unpack (hx.trans hy.symm), by rw [hx]; exact nofun⟩
  rw [hbeq hpos, hbeq hneg]
  show x.toModel.unpack.isInf = true ↔ _
  cases x.toModel.unpack with
  | infinity s => cases s <;> simp [UnpackedFloat.isInf]
  | _ => simp [UnpackedFloat.isInf]

/-- A part that is not finite is not snapped to anything else. -/
theorem snapPart_of_not_isFinite {x : Float} (hx : x.isFinite = false) : snapPart x = x := by
  rw [snapPart, hx]
  rfl

/-- **Snapping keeps finite parts finite.** -/
theorem isFinite_snapPart (x : Float) : (snapPart x).isFinite = x.isFinite := by
  cases hx : x.isFinite with
  | false => rw [snapPart_of_not_isFinite hx, hx]
  | true =>
      obtain hzero | ⟨negative, y, rfl, hy⟩ := zero_or_withSign hx
      · rw [hzero]
        rfl
      · rw [hy.snapPart_withSign]
        obtain hzero | ⟨hpositive, -⟩ := hy.snapPart_snapPart
        · rw [hzero, if_pos (by decide +kernel)]
          rfl
        · rw [hpositive.beq_zero, if_neg (by decide)]
          exact hpositive.isFinite_withSign negative

/-- Snapping a part keeps NaN, and makes none. -/
theorem isNaN_snapPart (x : Float) : (snapPart x).isNaN = x.isNaN := by
  have hsnap := isFinite_snapPart x
  cases hx : x.isFinite with
  | false => rw [snapPart_of_not_isFinite hx]
  | true => rw [((isFinite_iff _).mp (hsnap.trans hx)).1, ((isFinite_iff x).mp hx).1]

/-- Snapping a part keeps the infinities, and makes none. -/
theorem isInf_snapPart (x : Float) : (snapPart x).isInf = x.isInf := by
  have hsnap := isFinite_snapPart x
  cases hx : x.isFinite with
  | false => rw [snapPart_of_not_isFinite hx]
  | true => rw [((isFinite_iff _).mp (hsnap.trans hx)).2, ((isFinite_iff x).mp hx).2]

/-! ### Tiny parts -/

/-- A part that is **tiny**: not zero, but below the least part that is told apart from it. -/
def IsTiny (x : Float) : Prop :=
  0 < x.abs ∧ x.abs < epsilon

instance (x : Float) : Decidable (IsTiny x) :=
  inferInstanceAs (Decidable (_ ∧ _))

/-- No stable part is tiny: tiny ones are snapped to zero. -/
theorem IsStable.not_isTiny {x : Float} (hx : IsStable x) : ¬ IsTiny x := by
  rintro ⟨hpos, hlt⟩
  have hzero : x = 0 := by
    have hsnap := hx.snapped
    rw [snapPart, hx.finite, if_neg (by decide), if_pos hlt] at hsnap
    exact hsnap.symm
  subst hzero
  exact absurd hpos (by decide +kernel)

namespace Number

/-! ### Kinds of numbers -/

section Kinds

variable {z : Number}

/-- **NaN collapses**: one part is enough. -/
theorem snap_of_isNaN (h : z.isNaN = true) : z.snap = nan :=
  if_pos (by rwa [isNaN_snapPart, isNaN_snapPart])

/-- **The infinities collapse**, unless there is a NaN beside them. -/
theorem snap_of_isInf (hnan : z.isNaN = false) (h : z.re.isInf = true ∨ z.im.isInf = true) :
    z.snap = infinity ∨ z.snap = negativeInfinity := by
  have hnumber : ¬ ((snapPart z.re).isNaN || (snapPart z.im).isNaN) = true := by
    rw [isNaN_snapPart, isNaN_snapPart]
    exact Bool.eq_false_iff.mp hnan
  rw [← isInf_snapPart z.re, ← isInf_snapPart z.im, isInf_iff, isInf_iff] at h
  rw [snap, if_neg hnumber]
  by_cases hinf : (snapPart z.re == infinity.re || snapPart z.im == infinity.re) = true
  · exact .inl (if_pos hinf)
  · have hneg : (snapPart z.re == -infinity.re || snapPart z.im == -infinity.re) = true := by
      rw [Bool.or_eq_true] at hinf ⊢
      tauto
    exact .inr ((if_neg hinf).trans (if_pos hneg))

/-- **A number with finite parts** is constructed with stable parts. -/
theorem isStable_of_isFinite (h : z.isFinite = true) :
    IsStable z.snap.re ∧ IsStable z.snap.im := by
  obtain ⟨hre, him⟩ := Bool.and_eq_true_iff.mp h
  have hstable {x : Float} (hx : x.isFinite = true) : IsStable (snapPart x) :=
    ⟨(isFinite_snapPart x).trans hx, snapPart_snapPart x⟩
  have hsnap : z.snap = ⟨snapPart z.re, snapPart z.im⟩ := by
    rw [← show Number.snap ⟨snapPart z.re, snapPart z.im⟩ = _ from
      IsStable.isSnapped (hstable hre) (hstable him)]
    simp only [snap, snapPart_snapPart]
  rw [hsnap]
  exact ⟨hstable hre, hstable him⟩

/-- A number with a stable part has not collapsed. -/
theorem ne_of_isStable (h : IsStable z.re) :
    z ≠ nan ∧ z ≠ infinity ∧ z ≠ negativeInfinity := by
  have hne {w : Number} (hw : w.re.isFinite = false) : z ≠ w := by
    rintro rfl
    exact absurd h.finite (Bool.eq_false_iff.mp hw)
  exact ⟨hne (by decide +kernel), hne (by decide +kernel), hne (by decide +kernel)⟩

end Kinds

/-- A number is NaN, infinite or neither, and **so is what it is constructed to**. -/
theorem snap_kinds (z : Number) :
    z.isNaN = true ∧ z.snap = nan ∨
      z.isNaN = false ∧ (z.re.isInf = true ∨ z.im.isInf = true) ∧
        (z.snap = infinity ∨ z.snap = negativeInfinity) ∨
      z.isNaN = false ∧ ¬ (z.re.isInf = true ∨ z.im.isInf = true) ∧
        IsStable z.snap.re ∧ IsStable z.snap.im := by
  cases hnan : z.isNaN with
  | true => exact .inl ⟨rfl, snap_of_isNaN hnan⟩
  | false =>
      obtain ⟨hre, him⟩ := Bool.or_eq_false_iff.mp hnan
      by_cases hinf : z.re.isInf = true ∨ z.im.isInf = true
      · exact .inr (.inl ⟨rfl, hinf, snap_of_isInf hnan hinf⟩)
      · simp only [not_or, Bool.not_eq_true] at hinf
        have hfinite : z.isFinite = true :=
          Bool.and_eq_true_iff.mpr
            ⟨(isFinite_iff _).mpr ⟨hre, hinf.1⟩, (isFinite_iff _).mpr ⟨him, hinf.2⟩⟩
        exact .inr (.inr ⟨rfl, by simp [hinf], isStable_of_isFinite hfinite⟩)

/-! ### The form of a number -/

/-- **Equal to a constant** is being it, for a snapped number. -/
theorem constantName?_of_equals {z : Number} (hz : z.IsSnapped) {entry : String × Number}
    (hentry : entry ∈ constants) (h : z.equals entry.2 = true) :
    z = entry.2 ∧ z.constantName? = some entry.1 := by
  have hconstants : (constants.all fun entry =>
      decide (entry.2.IsSnapped) && decide (entry.2.constantName? = some entry.1)) = true := by
    decide +kernel
  have hall := List.all_eq_true.mp hconstants entry hentry
  simp only [Bool.and_eq_true, decide_eq_true_eq] at hall
  obtain rfl := hz.eq_of_equals hall.1 h
  exact ⟨rfl, hall.2⟩

/-- The parts of a constructed number are **no negative zeros and not tiny**. -/
theorem part_of_snap (z : Number) {x : Float} (hx : x ∈ [z.snap.re, z.snap.im]) :
    x ≠ -0 ∧ ¬ IsTiny x := by
  have collapsed {w : Number} (hw : ∀ x ∈ [w.re, w.im], x ≠ -0 ∧ ¬ IsTiny x) (h : z.snap = w) :
      x ≠ -0 ∧ ¬ IsTiny x :=
    hw x (h ▸ hx)
  obtain ⟨-, h⟩ | ⟨-, -, h | h⟩ | ⟨-, -, hre, him⟩ := z.snap_kinds
  · exact collapsed (by decide +kernel) h
  · exact collapsed (by decide +kernel) h
  · exact collapsed (by decide +kernel) h
  · have hstable : IsStable x := by
      obtain rfl | rfl : x = z.snap.re ∨ x = z.snap.im := by simpa using hx
      · exact hre
      · exact him
    refine ⟨?_, hstable.not_isTiny⟩
    rintro rfl
    exact hstable.ne_negative_zero (unpack_neg 0)

/-- **The form of a constructed number**, whatever its parts are made from. No part is a negative
zero or tiny; it is NaN exactly if a part was, and else one of the infinities exactly if a part was
infinite; if it is equal to a constant, it is that constant; and constructing it again from its
parts, as is done with every number that is an operand, gives it back. -/
theorem snap_canonical (z : Number) :
    (∀ x ∈ [z.snap.re, z.snap.im], x ≠ -0 ∧ ¬ IsTiny x) ∧
    (z.snap = nan ↔ z.re.isNaN = true ∨ z.im.isNaN = true) ∧
    (z.snap = infinity ∨ z.snap = negativeInfinity ↔
      ¬ (z.re.isNaN = true ∨ z.im.isNaN = true) ∧ (z.re.isInf = true ∨ z.im.isInf = true)) ∧
    (∀ entry ∈ constants, z.snap.equals entry.2 = true →
      z.snap = entry.2 ∧ z.snap.constantName? = some entry.1) ∧
    snap ⟨z.snap.re, z.snap.im⟩ = z.snap ∧
    (Operand.number z.snap).toNumber = .ok z.snap := by
  have hnumber : z.re.isNaN = true ∨ z.im.isNaN = true ↔ z.isNaN = true :=
    Bool.or_eq_true_iff.symm
  have hne : nan ≠ infinity ∧ nan ≠ negativeInfinity := by decide +kernel
  rw [hnumber]
  refine ⟨fun x => z.part_of_snap, ?_, ?_, fun entry => constantName?_of_equals z.isSnapped_snap,
    z.isSnapped_snap, congrArg _ z.isSnapped_snap⟩
  · obtain ⟨hnan, h⟩ | ⟨hnan, -, h | h⟩ | ⟨hnan, -, hre, -⟩ := z.snap_kinds
    · simp [hnan, h]
    · simp [hnan, h, hne.1.symm]
    · simp [hnan, h, hne.2.symm]
    · simp [hnan, (ne_of_isStable hre).1]
  · obtain ⟨hnan, h⟩ | ⟨hnan, hinf, h⟩ | ⟨hnan, hinf, hre, -⟩ := z.snap_kinds
    · simp [hnan, h, hne.1, hne.2]
    · simp [hnan, hinf, h]
    · simp [hinf, (ne_of_isStable hre).2]

end Number

end Argand
