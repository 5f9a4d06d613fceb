import Argand.Proofs.Calculator
import Argand.Proofs.Equation.Soundness
import Argand.Proofs.Refinement
import Mathlib.Algebra.QuadraticAlgebra.Basic
import Mathlib.Tactic.Linarith

/-!
# The calculator without rounding

A finite float is a rational number, so a number with finite parts is a point of the plane with
rational coordinates. The exact calculator is the calculator, except that it refuses every result
that is not the exact one: as long as it does not refuse, no operation of the calculator has
rounded.

## Main definitions

* `Argand.Gaussian`: the points with rational coordinates, a field.
* `Argand.Operand.exact`: the exact value of an operand.
* `Argand.exactCalculator`: the calculator without rounding.

## Main results

* `Argand.isExactSolver_exactCalculator`: it is an exact arithmetic.
* `Argand.refines_exactCalculator`: its results are those of the calculator.
-/

namespace Argand

/-! ### Exact values -/

/-- The **points** of the plane with rational coordinates: `-1` is the square of one of them. -/
abbrev Gaussian := QuadraticAlgebra ℚ (-1) 0

instance Gaussian.not_square : Fact (∀ r : ℚ, r ^ 2 ≠ -1 + 0 * r) :=
  ⟨fun r h => by linarith [sq_nonneg r]⟩

/-- The rational number that a finite float is. -/
def floatValue (x : Float) : ℚ :=
  let (n, d) := (Magnitude.ofFloat x).scaled 0
  if isNegative x then -(n / d : ℚ) else n / d

/-- The point that a number with finite parts is. -/
def Number.exact (z : Number) : Gaussian :=
  ⟨floatValue z.re, floatValue z.im⟩

/-- The **exact value** of an operand. What is no number has the value zero. -/
def Operand.exact : Operand → Gaussian
  | number z | pair z => z.exact
  | whole n => ⟨n, 0⟩
  | real x => ⟨floatValue x, 0⟩
  | list _ | other _ => 0

/-- A number with finite parts. -/
def Operand.isFinite : Operand → Bool
  | number z | pair z => z.isFinite
  | whole _ => true
  | real x => x.isFinite
  | list _ | other _ => false

/-! ### The exact calculator -/

/-- A computation whose result is **refused** unless it is a finite number of the given value. -/
def exactly (v : Gaussian) (x : Except Fault Operand) : Except Fault Operand := do
  let c ← x
  if c.isFinite ∧ c.exact = v then return c else .error .outOfRange

/-- The **exact calculator**: the calculator, refusing results that are not exact. -/
def exactCalculator : Arithmetic Operand :=
  { calculator with
    add := fun x y => exactly (x.exact + y.exact) (calculator.add x y)
    subtract := fun x y => exactly (x.exact - y.exact) (calculator.subtract x y)
    multiply := fun x y => exactly (x.exact * y.exact) (calculator.multiply x y)
    divide := fun x y =>
      if y.exact = 0 then .error .divisionByZero
      else exactly (x.exact / y.exact) (calculator.divide x y)
    power := fun x y =>
      if y.exact = calculator.two.exact then exactly (x.exact * x.exact) (calculator.power x y)
      else calculator.power x y
    negate := fun x => exactly (-x.exact) (calculator.negate x)
    roots := fun x index => do
      let rs ← calculator.roots x index
      if index.exact = calculator.two.exact ∧ ¬ ∀ c ∈ rs, c.exact * c.exact = x.exact then
        .error .outOfRange
      else return rs
    equals := fun x y => do
      let t ← calculator.equals x y
      if t = decide (x.exact = y.exact) then return t else .error .outOfRange }

/-- A result that is not refused is exact. -/
theorem exactly_eq_ok {v : Gaussian} {x : Except Fault Operand} {c : Operand} :
    exactly v x = .ok c ↔ x = .ok c ∧ c.isFinite ∧ c.exact = v := by
  rw [exactly]
  rw [bind_eq_ok]
  constructor
  · rintro ⟨d, rfl, h⟩
    split at h
    · obtain rfl := pure_eq_ok.mp h
      exact ⟨rfl, ‹_›⟩
    · cases h
  · rintro ⟨rfl, h⟩
    exact ⟨c, rfl, by simp [h]; rfl⟩

/-- The exact calculator **computes in the field of points**. -/
theorem isExact_exactCalculator : exactCalculator.IsExact Operand.exact where
  zero := by decide +kernel
  one := by decide +kernel
  two := by decide +kernel
  add h := (exactly_eq_ok.mp h).2.2
  subtract h := (exactly_eq_ok.mp h).2.2
  multiply h := (exactly_eq_ok.mp h).2.2
  divisor_ne_zero {x y c} h := by
    intro hy
    simp [exactCalculator, hy] at h
  divide {x y c} h := by
    by_cases hy : y.exact = 0
    · simp [exactCalculator, hy] at h
    · simp only [exactCalculator, hy, if_false] at h
      exact (exactly_eq_ok.mp h).2.2
  square {x c} h := by
    simp only [exactCalculator, if_true] at h
    exact (exactly_eq_ok.mp h).2.2
  negate h := (exactly_eq_ok.mp h).2.2
  equals {x y t} h := by
    obtain ⟨t', -, h⟩ := bind_eq_ok.mp h
    split at h
    · obtain rfl := pure_eq_ok.mp h
      simp [*]
    · cases h

/-! ### Results -/

/-- The results of the calculator are numbers. -/
theorem exists_number {f : Except Fault Number} {c : Operand} (h : f.map Operand.number = .ok c) :
    ∃ z, c = .number z := by
  obtain ⟨z, -, rfl⟩ := map_eq_ok.mp h
  exact ⟨z, rfl⟩

/-- A number of the calculator stands for itself. -/
theorem isNumber_number (z : Number) : exactCalculator.IsNumber (.number z) := rfl

/-- An exact result that is a number of the calculator. -/
theorem yields_exactly {v : Gaussian} {f : Except Fault Number} :
    Yields (fun _ => True) exactCalculator.IsNumber (exactly v (f.map .number)) := by
  refine yields_iff.mpr ⟨fun c hc => ?_, fun _ _ => trivial⟩
  obtain ⟨z, rfl⟩ := exists_number (exactly_eq_ok.mp hc).1
  exact isNumber_number z

/-- **The exact calculator solves exactly**: its results are numbers, and its square roots are
square roots. -/
theorem isExactSolver_exactCalculator : exactCalculator.IsExactSolver Operand.exact where
  exact := isExact_exactCalculator
  handles :=
    { zero := rfl
      one := rfl
      two := rfl
      divisor_one := trivial
      add := fun _ _ => yields_exactly
      subtract := fun _ _ => yields_exactly
      multiply := fun _ _ => yields_exactly
      divide := fun {x y} _ _ _ => by
        simp only [exactCalculator]
        split
        · trivial
        · exact yields_exactly
      negate := fun _ => yields_exactly
      equals := fun {x y} _ _ => yields_iff.mpr ⟨fun _ _ => trivial, fun _ _ => trivial⟩ }
  constant {x a} h := by
    obtain ⟨z, -, rfl⟩ := Option.map_eq_some_iff.mp h
    exact isNumber_number z
  roots {x n rs} h := by
    obtain ⟨rs', hrs, h⟩ := bind_eq_ok.mp h
    split at h
    · cases h
    · obtain rfl := pure_eq_ok.mp h
      obtain ⟨zs, -, rfl⟩ := map_eq_ok.mp hrs
      intro c hc
      obtain ⟨z, -, rfl⟩ := List.mem_map.mp hc
      exact isNumber_number z
  square_of_root {x rs} h := by
    obtain ⟨rs', hrs, h⟩ := bind_eq_ok.mp h
    split at h
    · cases h
    · obtain rfl := pure_eq_ok.mp h
      have hrefused : ¬ (exactCalculator.two.exact = calculator.two.exact ∧
          ¬ ∀ c ∈ rs', c.exact * c.exact = x.exact) := ‹_›
      exact not_and_not_right.mp hrefused rfl
  two_ne_zero := two_ne_zero

/-- A computation that may be refused has the results of the computation. -/
theorem refines_exactly (v : Gaussian) (x : Except Fault Operand) : Refines (exactly v x) x :=
  fun _ h => (exactly_eq_ok.mp h).1

/-- **What the exact calculator computes, the calculator computes.** -/
theorem refines_exactCalculator : exactCalculator.Refines calculator where
  zero := rfl
  one := rfl
  two := rfl
  literal := rfl
  constant := rfl
  contents := rfl
  add _ _ := refines_exactly _ _
  subtract _ _ := refines_exactly _ _
  multiply _ _ := refines_exactly _ _
  divide x y := by
    simp only [exactCalculator]
    split
    · exact .error _ _
    · exact refines_exactly _ _
  power x y := by
    simp only [exactCalculator]
    split
    · exact refines_exactly _ _
    · exact .refl _
  negate _ := refines_exactly _ _
  log _ := .refl _
  roots x n := by
    intro rs h
    obtain ⟨rs', hrs, h⟩ := bind_eq_ok.mp h
    split at h
    · cases h
    · obtain rfl := pure_eq_ok.mp h
      exact hrs
  equals x y := by
    intro t h
    obtain ⟨t', ht, h⟩ := bind_eq_ok.mp h
    split at h
    · obtain rfl := pure_eq_ok.mp h
      exact ht
    · cases h

end Argand
