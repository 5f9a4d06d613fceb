import Argand.Primitive
import Argand.Proofs.Simplification.Remainder

/-!
# Simplification is idempotent

The nodes of a simplified formula are those that its rules leave alone, and the products of a
computed number with a product, a quotient or a square of variables without a factor. A rule takes
such a product apart and computes its number again, which gives the same one as long as one is
neutral for it. So a simplified formula is normal, and simplifying it once more changes nothing.

## Main definitions

* `Argand.Expr.numbers`: the numbers in a formula.
* `Argand.Expr.IsNormal`: formulas that the rules leave alone.

## Main results

* `Argand.Rewrites.isNormal`: an identity of normal operands gives a normal formula.
* `Argand.isNormal_simplify`: simplification makes every formula normal.
* `Argand.simplify_idempotent`: simplifying once more changes nothing.
-/

namespace Argand

open Simplify

variable {α : Type}

/-! ### Settled formulas -/

/-- The numbers in a leaf. -/
def Atom.numbers : Atom α → List α
  | .number a => [a]
  | .scaled _ c => [c]
  | .list items => items
  | .constant _ | .stray _ => []

/-- The **numbers** in a formula. -/
def Expr.numbers : Expr α → List α
  | .atom x => x.numbers
  | .node l _ r => l.numbers ++ r.numbers

/-- The numbers zero, one and two are told apart, and one by one is one. -/
structure Arithmetic.HasUnits (A : Arithmetic α) : Prop where
  one_ne_zero : A.equals A.one A.zero = .ok false
  one_eq_one : A.equals A.one A.one = .ok true
  two_ne_zero : A.equals A.two A.zero = .ok false
  two_ne_one : A.equals A.two A.one = .ok false
  one_mul_one : A.multiply A.one A.one = .ok A.one
  one_div_one : A.divide A.one A.one = .ok A.one

variable (A : Arithmetic α)

/-- A number that was **computed**, as a product or a quotient. -/
def Arithmetic.IsComputed (c : α) : Prop :=
  ∃ a b, A.multiply a b = .ok c ∨ A.divide a b = .ok c

/-- One is **neutral** for a number. -/
def Arithmetic.OneNeutral (c : α) : Prop :=
  A.multiply c A.one = .ok c ∧ A.divide c A.one = .ok c

/-- A **normal** formula: the rules leave all its nodes alone, if one is neutral for the computed
numbers in them. -/
def Expr.IsNormal : Expr α → Prop
  | .atom _ => True
  | .node l op r =>
    ((∀ c ∈ (Expr.node l op r).numbers, A.IsComputed c → A.OneNeutral c) →
      rule A op l r = .ok (.node l op r)) ∧ l.IsNormal ∧ r.IsNormal

variable {A}

/-! ### Products of variables -/

section

variable {a b c : α} {v w : String}

/-- A number that is neither zero nor one stays in front. -/
theorem scaledBy_of_ne (h0 : A.equals c A.zero = .ok false) (h1 : A.equals c A.one = .ok false)
    (e : Expr α) : scaledBy A c e = .ok (.node (.number c) .multiply e) := by
  simp only [scaledBy, h0, h1]
  rfl

/-- One is left out. -/
theorem Arithmetic.HasUnits.scaledBy_one (hA : A.HasUnits) (e : Expr α) :
    scaledBy A A.one e = .ok e := by
  simp only [scaledBy, hA.one_ne_zero, hA.one_eq_one]
  rfl

theorem multiplyAtoms_scaled (hvw : v ≠ w) (hc : A.multiply a b = .ok c) :
    multiplyAtoms A (.scaled v a) (.scaled w b) =
      scaledBy A c (.node (plain A v) .multiply (plain A w)) := by
  simp only [multiplyAtoms, isNumber, hc]
  exact if_neg hvw

theorem divideAtoms_scaled (hvw : v ≠ w) (hc : A.divide a b = .ok c) :
    divideAtoms A (.scaled v a) (.scaled w b) =
      scaledBy A c (.node (plain A v) .divide (plain A w)) := by
  simp only [divideAtoms, isNumber, hc]
  exact if_neg hvw

/-- The square of a variable stays. -/
theorem Arithmetic.HasUnits.rule_square (hA : A.HasUnits) (v : String) :
    rule A .power (plain A v) (.number A.two) =
      .ok (.node (plain A v) .power (.number A.two)) := by
  simp only [rule, raise, isNumberExpr, isNumber, hA.two_ne_zero, hA.two_ne_one, plain]
  rfl

/-- A number in front of a square stays there. -/
theorem rule_multiple_square (h0 : A.equals c A.zero = .ok false)
    (h1 : A.equals c A.one = .ok false) (v : String) :
    rule A .multiply (.number c) (.node (plain A v) .power (.number A.two)) =
      .ok (.node (.number c) .multiply (.node (plain A v) .power (.number A.two))) := by
  simp only [rule, multiply, multiplyAtom, isNumber, h0, h1]
  rfl

/-- A number in front of a variable is taken up by it. -/
theorem absorb_plain (h0 : A.equals c A.zero = .ok false) (h1 : A.equals c A.one = .ok false)
    (hc : A.OneNeutral c) (v : String) :
    absorb A c (plain A v) = .ok (some (.scaled v c)) := by
  simp only [absorb, plain, h0, h1, hc.1]
  rfl

/-- A number in front of a product of variables is taken up and put in front again. -/
theorem rule_multiple_product (h0 : A.equals c A.zero = .ok false)
    (h1 : A.equals c A.one = .ok false) (hc : A.OneNeutral c) (hvw : v ≠ w) :
    rule A .multiply (.number c) (.node (plain A v) .multiply (plain A w)) =
      .ok (.node (.number c) .multiply (.node (plain A v) .multiply (plain A w))) := by
  calc rule A .multiply (.number c) (.node (plain A v) .multiply (plain A w))
      = multiplyAtoms A (.scaled v c) (.scaled w A.one) := by
        simp only [rule, multiply, multiplyAtom, isNumber, h0, h1, Operator.sign?,
          absorb_plain h0 h1 hc]
        rfl
    _ = .ok (.node (.number c) .multiply (.node (plain A v) .multiply (plain A w))) := by
        rw [multiplyAtoms_scaled hvw hc.1, scaledBy_of_ne h0 h1]

/-- A number in front of a quotient of variables is taken up and put in front again. -/
theorem rule_multiple_quotient (h0 : A.equals c A.zero = .ok false)
    (h1 : A.equals c A.one = .ok false) (hc : A.OneNeutral c) (hvw : v ≠ w) :
    rule A .multiply (.number c) (.node (plain A v) .divide (plain A w)) =
      .ok (.node (.number c) .multiply (.node (plain A v) .divide (plain A w))) := by
  calc rule A .multiply (.number c) (.node (plain A v) .divide (plain A w))
      = divideAtoms A (.scaled v c) (.scaled w A.one) := by
        simp only [rule, multiply, multiplyAtom, isNumber, h0, h1, Operator.sign?,
          absorb_plain h0 h1 hc]
        rfl
    _ = .ok (.node (.number c) .multiply (.node (plain A v) .divide (plain A w))) := by
        rw [divideAtoms_scaled hvw hc.2, scaledBy_of_ne h0 h1]

/-- A computed number in front of a normal formula that takes it up and gives it back. -/
theorem isNormal_scaledBy {e e' : Expr α} (h : scaledBy A c e = .ok e') (he : e.IsNormal A)
    (hc : A.IsComputed c)
    (hback : A.equals c A.zero = .ok false → A.equals c A.one = .ok false → A.OneNeutral c →
      rule A .multiply (.number c) e = .ok (.node (.number c) .multiply e)) :
    e'.IsNormal A := by
  obtain ⟨-, rfl⟩ | ⟨-, rfl⟩ | ⟨h0, h1, rfl⟩ := scaledBy_cases h
  · trivial
  · exact he
  · exact ⟨fun hone => hback h0 h1 (hone c List.mem_cons_self hc), trivial, he⟩

end

/-! ### Identities -/

/-- **An identity of normal operands gives a normal formula.** -/
theorem Rewrites.isNormal (hA : A.HasUnits) {op : Operator} {l r e : Expr α}
    (h : Rewrites A op l r e) (hl : l.IsNormal A) (hr : r.IsNormal A) : e.IsNormal A := by
  induction h with
  | kept hi => exact ⟨fun _ => hi.fixed, hl, hr⟩
  | addNumbers | divideNumbers | divideSame | divideScaledNumber | multiplyNumbers | zeroMultiply
  | multiplyZero | multiplyScaledNumber | multiplyNumberScaled | powerZero | powerNumbers =>
      trivial
  | zeroAdd | oneMultiply => exact hr
  | addZero | divideOne | multiplyOne | powerOne => exact hl
  | foldOuterFirst _ _ _ _ _ ih => exact ih trivial hr.2.2
  | foldOuterSecond _ _ _ _ _ ih => exact ih trivial hr.2.1
  | foldInnerFirst _ _ _ _ _ ih => exact ih trivial hl.2.2
  | foldInnerSecond _ _ _ _ _ _ ih => exact ih trivial hl.2.1
  -- a quotient or product of variables without a factor is fixed, as one by one is one
  | divideScaled hvw hc he =>
      refine isNormal_scaledBy he ⟨fun _ => ?_, trivial, trivial⟩ ⟨_, _, .inr hc⟩
        fun h0 h1 hone => rule_multiple_quotient h0 h1 hone hvw
      exact (divideAtoms_scaled hvw hA.one_div_one).trans (hA.scaledBy_one _)
  | multiplyScaled hvw hc he =>
      refine isNormal_scaledBy he ⟨fun _ => ?_, trivial, trivial⟩ ⟨_, _, .inl hc⟩
        fun h0 h1 hone => rule_multiple_product h0 h1 hone hvw
      exact (multiplyAtoms_scaled hvw hA.one_mul_one).trans (hA.scaledBy_one _)
  | multiplySame hc he =>
      exact isNormal_scaledBy he ⟨fun _ => hA.rule_square _, trivial, trivial⟩ ⟨_, _, .inl hc⟩
        fun h0 h1 _ => rule_multiple_square h0 h1 _
  | divideSum _ _ _ _ iha ihb ihe => exact ihe (iha hl.2.1 hr) (ihb hl.2.2 hr)
  | multiplySum _ _ _ _ iha ihb ihe => exact ihe (iha hl hr.2.1) (ihb hl hr.2.2)
  | sumMultiply _ _ _ _ iha ihb ihe => exact ihe (iha hl.2.1 hr) (ihb hl.2.2 hr)
  | multiplyNumber _ ih => exact ih hr hl
  | absorbFirst _ _ _ ihy ihe => exact ihe (ihy trivial trivial) hr.2.2
  | absorbSecond _ _ _ ihy ihe => exact ihe hr.2.1 (ihy trivial trivial)
  | absorbDividend _ _ _ ihy ihe => exact ihe (ihy trivial trivial) hr.2.2
  | powerProduct _ _ _ iha ihb ihe => exact ihe (iha hl.2.1 hr) (ihb hl.2.2 hr)
  | powerQuotient _ _ _ iha ihb ihe => exact ihe (iha hl.2.1 hr) (ihb hl.2.2 hr)
  | powerPower _ _ ihp ihe => exact ihe hl.2.1 (ihp hl.2.2 hr)

/-! ### Simplified formulas -/

/-- **Simplification makes every formula normal.** -/
theorem isNormal_simplify (hA : A.HasUnits) {scope : Scope α} {e e' : Expr α}
    (h : e.simplify A scope = .ok e') : e'.IsNormal A :=
  simplify_induction (fun _ => trivial) (fun h hl hr => (rewrites_of_rule h).isNormal hA hl hr) h

/-- **A normal formula is fixed** if one is neutral for the computed numbers in it. -/
theorem Expr.IsNormal.isFixed {e : Expr α} (he : e.IsNormal A)
    (hone : ∀ c ∈ e.numbers, A.IsComputed c → A.OneNeutral c) : e.IsFixed A := by
  induction e with
  | atom x => trivial
  | node l op r ihl ihr =>
      obtain ⟨hfixed, hl, hr⟩ := he
      refine ⟨hfixed hone, ihl hl fun c hc => ?_, ihr hr fun c hc => ?_⟩
      · exact hone c (List.mem_append_left _ hc)
      · exact hone c (List.mem_append_right _ hc)

/-! ### The calculator -/

/-- A product of two numbers. -/
theorem multiply_number {z w v : Number}
    (h : Primitive.multiply (.number z) (.number w) = .ok v) :
    calculator.multiply (.number z) (.number w) = .ok (.number v) :=
  congrArg (·.map Operand.number) h

/-- A quotient of two numbers. -/
theorem divide_number {z w v : Number}
    (h : Primitive.divide (.number z) (.number w) = .ok v) :
    calculator.divide (.number z) (.number w) = .ok (.number v) :=
  congrArg (·.map Operand.number) h

theorem hasUnits_calculator : calculator.HasUnits where
  one_ne_zero := by decide +kernel
  one_eq_one := by decide +kernel
  two_ne_zero := by decide +kernel
  two_ne_one := by decide +kernel
  one_mul_one := multiply_number (by decide +kernel)
  one_div_one := divide_number (by decide +kernel)

/-- An **infinite** number. -/
def Operand.IsInfinite : Operand → Prop
  | .number z => z.re.isInf = true ∨ z.im.isInf = true
  | _ => False

instance : (x : Operand) → Decidable x.IsInfinite
  | .number z => inferInstanceAs (Decidable (z.re.isInf = true ∨ z.im.isInf = true))
  | .whole _ | .real _ | .pair _ | .list _ | .other _ => inferInstanceAs (Decidable False)

/-- A **normalized** number: the snapped form of one. -/
def Operand.IsNormalized (x : Operand) : Prop :=
  ∃ z : Number, x = .number z.snap

/-- An operation on two numbers gives a normalized one. -/
theorem isNormalized_of_binary {f : Number → Number → Except Fault Number} {x y c : Operand}
    (h : (Primitive.binary f x y).map Operand.number = .ok c) : c.IsNormalized := by
  obtain ⟨z, hz, rfl⟩ := map_eq_ok.mp h
  obtain ⟨x, -, hz⟩ := bind_eq_ok.mp hz
  obtain ⟨y, -, hz⟩ := bind_eq_ok.mp hz
  obtain ⟨w, -, hz⟩ := bind_eq_ok.mp hz
  obtain rfl := pure_eq_ok.mp hz
  exact ⟨w, rfl⟩

/-- What the calculator computes is normalized. -/
theorem isNormalized_of_isComputed {c : Operand} (hc : calculator.IsComputed c) :
    c.IsNormalized := by
  obtain ⟨a, b, h | h⟩ := hc
  · exact isNormalized_of_binary h
  · exact isNormalized_of_binary h

/-- **Simplification is idempotent**: a formula without infinite numbers that was simplified is
left alone in the same scope, as long as one is neutral for the normalized numbers in it. -/
theorem simplify_idempotent {scope : Scope Operand} {e e' : Expr Operand}
    (h : e.simplify calculator scope = .ok e') (hfinite : ∀ c ∈ e'.numbers, ¬ c.IsInfinite)
    (hone : ∀ c ∈ e'.numbers, c.IsNormalized → ¬ c.IsInfinite → calculator.OneNeutral c) :
    e'.simplify calculator scope = .ok e' := by
  have hfixed : e'.IsFixed calculator :=
    (isNormal_simplify hasUnits_calculator h).isFixed fun c hc hcomputed =>
      hone c hc (isNormalized_of_isComputed hcomputed) (hfinite c hc)
  exact hfixed.simplify_eq fun y hy => (unbound_of_simplify h y hy).2

/-- `2x * 3y` becomes `6 * (x * y)`, which is left alone. -/
theorem simplify_idempotent_product :
    ∃ e' : Expr Operand,
      (Expr.node (Expr.scaled "x" (.number ⟨2, 0⟩)) .multiply
        (Expr.scaled "y" (.number ⟨3, 0⟩))).simplify calculator [] = .ok e' ∧
      e'.simplify calculator [] = .ok e' := by
  let six : Operand := .number ⟨6, 0⟩
  have h0 : calculator.equals six calculator.zero = .ok false := by decide +kernel
  have h1 : calculator.equals six calculator.one = .ok false := by decide +kernel
  have hsix : calculator.multiply (.number ⟨2, 0⟩) (.number ⟨3, 0⟩) = .ok six :=
    multiply_number (by decide +kernel)
  have hatoms (A : Arithmetic Operand) (a b : Operand) :
      (Expr.node (Expr.scaled "x" a) .multiply (Expr.scaled "y" b)).simplify A [] =
        multiplyAtoms A (.scaled "x" a) (.scaled "y" b) := rfl
  have h : (Expr.node (Expr.scaled "x" (.number ⟨2, 0⟩)) .multiply
      (Expr.scaled "y" (.number ⟨3, 0⟩))).simplify calculator [] =
        .ok (.node (.number six) .multiply (.node (plain calculator "x") .multiply
          (plain calculator "y"))) :=
    (hatoms calculator _ _).trans
      ((multiplyAtoms_scaled (by decide) hsix).trans (scaledBy_of_ne h0 h1 _))
  have hone : calculator.OneNeutral calculator.one :=
    ⟨hasUnits_calculator.one_mul_one, hasUnits_calculator.one_div_one⟩
  have hsixone : calculator.OneNeutral six :=
    ⟨multiply_number (by decide +kernel), divide_number (by decide +kernel)⟩
  refine ⟨_, h, simplify_idempotent h (by decide +kernel) fun c hc _ _ => ?_⟩
  have hc : c ∈ [six, calculator.one, calculator.one] := hc
  obtain rfl | hc := List.mem_cons.mp hc
  · exact hsixone
  · obtain rfl : c = calculator.one := List.eq_of_mem_replicate (n := 2) hc
    exact hone

end Argand
