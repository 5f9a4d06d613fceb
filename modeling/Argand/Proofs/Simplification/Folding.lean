import Argand.Proofs.Equation.Isolation
import Argand.Proofs.Evaluation
import Argand.Proofs.Grammar.Printing
import Argand.Proofs.Reader
import Argand.Proofs.Simplification.Settled
import Argand.Proofs.Simplification.Tidy

/-!
# Formulas of numbers fold

If every leaf of a formula is a number or a variable bound to one, its simplified form is a number
too, and where the formula has a value, that number is the value. Simplification and evaluation are
followed side by side, from the leaves to the root: both hold the same number at each node, as the
rule of an operator computes what the operator computes. The rule of powers alone has shortcuts: it
does not compute powers with the exponents zero and one, which are one and the base.

## Main definitions

* `Argand.Expr.IsNumeric`: formulas of numbers, with the operators of formulas.
* `Argand.FoldsTo`: a simplified form that is the number a value is.
* `Argand.Arithmetic.Folds`: what simplification relies on when it folds numbers.

## Main results

* `Argand.Arithmetic.Folds.rule`: the rule of an operator on two numbers.
* `Argand.Arithmetic.Folds.simplify`: a formula of numbers folds to its value.
* `Argand.folds_calculator`: the calculator folds normalized numbers.
* `Argand.simplify_numeric`: so do its formulas of normalized numbers.
-/

namespace Argand

open Simplify

variable {α : Type}

/-! ### Formulas of numbers -/

/-- A **numeric leaf**: a number of a kind, or a multiple of a variable that a scope binds to a
single number. -/
def Atom.IsNumeric (ok : α → Prop) (scope : Scope α) : Atom α → Prop
  | .number a => ok a
  | .scaled x _ => ∃ a, scope.value? x = some (.one a)
  | .constant _ | .list _ | .stray _ => False

/-- A **numeric formula**: one with numeric leaves and the operators of formulas. -/
structure Expr.IsNumeric (ok : α → Prop) (scope : Scope α) (e : Expr α) : Prop where
  operators : e.HasOperators (· ∈ arithmeticOperators)
  leaves : e.HasLeaves (Atom.IsNumeric ok scope)

/-! ### Values and simplified forms -/

variable {A : Arithmetic α} {ok : α → Prop}

/-- A simplified form **folds to a value**: if there is a simplified form, it is a number of a kind,
and if there is a value, it is that number. -/
structure FoldsTo (ok : α → Prop) (value : Except Fault (Value α))
    (simplified : Except Fault (Expr α)) : Prop where
  number : ∀ {e}, simplified = .ok e → ∃ a, ok a ∧ e = Expr.number a
  complete : ∀ {w}, value = .ok w → ∃ a, ok a ∧ w = .one a ∧ simplified = .ok (Expr.number a)

namespace FoldsTo

/-- One number, in both ways. -/
theorem computed {x : Except Fault α} (hx : ∀ {c}, x = .ok c → ok c) :
    FoldsTo ok (x.map .one) (x.map Expr.number) where
  number h := by
    obtain ⟨c, hc, rfl⟩ := map_eq_ok.mp h
    exact ⟨c, hx hc, rfl⟩
  complete h := by
    obtain ⟨c, hc, rfl⟩ := map_eq_ok.mp h
    exact ⟨c, hx hc, rfl, map_eq_ok.mpr ⟨c, hc, rfl⟩⟩

/-- A shortcut to a number that the value can only be. -/
theorem shortcut {x : Except Fault α} {a : α} (ha : ok a) (hx : ∀ {c}, x = .ok c → c = a) :
    FoldsTo ok (x.map .one) (.ok (Expr.number a)) where
  number h := ⟨a, ha, (Except.ok.inj h).symm⟩
  complete h := by
    obtain ⟨c, hc, rfl⟩ := map_eq_ok.mp h
    obtain rfl := hx hc
    exact ⟨c, ha, rfl, rfl⟩

/-- **Two steps** fold if the second ones do on the number that the first ones give. -/
theorem bind {x : Except Fault (Value α)} {y : Except Fault (Expr α)}
    {f : Value α → Except Fault (Value α)} {g : Expr α → Except Fault (Expr α)}
    (h : FoldsTo ok x y) (hfg : ∀ a, ok a → FoldsTo ok (f (.one a)) (g (Expr.number a))) :
    FoldsTo ok (x >>= f) (y >>= g) where
  number h' := by
    obtain ⟨e, he, h'⟩ := bind_eq_ok.mp h'
    obtain ⟨a, ha, rfl⟩ := h.number he
    exact (hfg a ha).number h'
  complete h' := by
    obtain ⟨v, hv, h'⟩ := bind_eq_ok.mp h'
    obtain ⟨a, ha, rfl, hy⟩ := h.complete hv
    obtain ⟨b, hb, rfl, hg⟩ := (hfg a ha).complete h'
    exact ⟨b, hb, rfl, bind_eq_ok.mpr ⟨_, hy, hg⟩⟩

end FoldsTo

/-! ### Folding in an arithmetic -/

/-- An arithmetic that **folds** numbers of a kind. What it computes is of the kind, and such
numbers can be compared. A power with the exponent zero is one, and one with the exponent one is
the base. -/
structure Arithmetic.Folds (A : Arithmetic α) (ok : α → Prop) : Prop where
  zero : ok A.zero
  one : ok A.one
  contents : ∀ {a}, ok a → A.contents a = .one a
  onNumbers : ∀ {op : Operator} {a b c}, op.onNumbers A a b = .ok c → ok c
  power : ∀ {a b c}, A.power a b = .ok c → ok c
  equals : ∀ {a b}, ok a → ok b → ∃ t, A.equals a b = .ok t
  power_zero : ∀ {a b c}, ok a → ok b → A.equals b A.zero = .ok true → A.power a b = .ok c →
    c = A.one
  power_one : ∀ {a b c}, ok a → ok b → A.equals b A.one = .ok true → A.power a b = .ok c → c = a

/-- The rule of a sum or product **computes it** on two numbers. -/
theorem rule_numbers {op : Operator} (hop : op.IsField) (a b : α) :
    rule A op (Expr.number a) (Expr.number b) = (op.onNumbers A a b).map Expr.number := by
  cases op with
  | power | plusMinus | other => exact hop.elim
  | _ => exact bind_pure_comp _ _

namespace Arithmetic.Folds

variable (hA : A.Folds ok)

include hA

/-- **A power of two numbers** folds to its value. -/
theorem raise {a b : α} (ha : ok a) (hb : ok b) :
    FoldsTo ok ((A.power a b).map .one) (Simplify.raise A (Expr.number a) (Expr.number b)) := by
  obtain ⟨isZero, hzero⟩ := hA.equals hb hA.zero
  obtain ⟨isOne, hone⟩ := hA.equals hb hA.one
  simp only [Simplify.raise, isNumberExpr, isNumber, hzero, hone]
  cases isZero with
  | true => exact .shortcut hA.one (hA.power_zero ha hb hzero)
  | false =>
  cases isOne with
  | true => exact .shortcut ha (hA.power_one ha hb hone)
  | false => exact bind_pure_comp Expr.number (A.power a b) ▸ .computed hA.power

/-- **A sum or product of two numbers** folds to its value. -/
theorem field {op : Operator} (hop : op.IsField) (a b : α) :
    FoldsTo ok (Expr.operate A op (.one a) (.one b))
      (Simplify.rule A op (Expr.number a) (Expr.number b)) := by
  rw [rule_numbers hop, operate_eq_combineValues hop]
  exact .computed hA.onNumbers

/-- **The rule of an operator** on two numbers folds to what the operator computes. -/
theorem rule {op : Operator} (hop : op ∈ arithmeticOperators) {a b : α} (ha : ok a) (hb : ok b) :
    FoldsTo ok (Expr.operate A op (.one a) (.one b))
      (Simplify.rule A op (Expr.number a) (Expr.number b)) := by
  cases op with
  | power => exact hA.raise ha hb
  | plusMinus | other => simp [arithmeticOperators] at hop
  | add | subtract | multiply | divide => exact hA.field (by trivial) a b

/-- A numeric leaf folds to its value. -/
theorem atom {scope : Scope α} {x : Atom α} (hx : x.IsNumeric ok scope) :
    FoldsTo ok (Expr.atomValue A scope x) (Simplify.atom A scope x) := by
  cases x with
  | number a =>
      rw [Expr.atomValue, hA.contents hx]
      exact .computed (x := .ok a) fun h => Except.ok.inj h ▸ hx
  | scaled y c =>
      obtain ⟨a, ha⟩ := hx
      have hformula : Simplify.atom A scope (.scaled y c) = (A.multiply c a).map Expr.number := by
        simp only [Simplify.atom, ha, Value.mapM]
        cases A.multiply c a <;> rfl
      simp only [hformula, Expr.atomValue, ha, Value.mapM]
      exact .computed fun {d} h =>
        hA.onNumbers (show Operator.multiply.onNumbers A c a = .ok d from h)
  | constant | list | stray => exact hx.elim

/-- **A numeric formula folds to its value.** -/
theorem simplify {scope : Scope α} {e : Expr α} (he : e.IsNumeric ok scope) :
    FoldsTo ok (e.value A scope) (e.simplify A scope) := by
  induction e with
  | atom x => exact hA.atom he.leaves
  | node l op r ihl ihr =>
      obtain ⟨⟨hop, hopl, hopr⟩, hl, hr⟩ := he
      exact (ihl ⟨hopl, hl⟩).bind fun a ha => (ihr ⟨hopr, hr⟩).bind fun b hb => hA.rule hop ha hb

end Arithmetic.Folds

/-! ### The calculator -/

namespace Number

/-- A power with a whole exponent up to a hundred is a repeated product. -/
theorem power_whole (z : Number) {w : Number} {n : Int} (hreal : w.im = 0)
    (hsmall : w.re.abs ≤ mostProducts) (hwhole : wholePart? w.re = some n) :
    z.power w = match z.wholePower? n with
      | some p => checked p
      | none => .error .zeroPower := by
  have hzero : ((0 : Float) == 0) = true := by decide +kernel
  rw [power, hreal, hwhole, decide_eq_true hsmall, hzero]
  exact if_pos rfl

/-- **The exponent zero.** -/
theorem power_zero (z : Number) : z.power zero = .ok one := by
  have hempty : z.natPower 0 = one := by simp [natPower, powerStep]
  have hone : one.isZero = false := by decide +kernel
  have hwhole : z.wholePower? 0 = some (one.div one) := by
    simp [wholePower?, hempty, hone]
  rw [z.power_whole (n := 0) rfl (by decide +kernel) (by decide +kernel), hwhole]
  show checked (one.div one) = .ok one
  decide +kernel

/-- **The exponent one.** -/
theorem power_one (z : Number) : z.power one = checked (one.mul z) := by
  have hwhole : z.wholePower? 1 = some (one.mul z) := rfl
  rw [z.power_whole (n := 1) rfl (by decide +kernel) (by decide +kernel), hwhole]

/-- A snapped number to the power one **is itself**, if the power is computed. -/
theorem IsSnapped.power_one {z v : Number} (hz : z.IsSnapped) (h : z.power one = .ok v) :
    v.snap = z := by
  rw [Number.power_one] at h
  replace hz : z.snap = z := hz
  obtain hnan | hinf | hneg | ⟨hre, him⟩ := z.snap_cases
  · obtain rfl := hz.symm.trans hnan
    have hpower : checked (one.mul nan) = .ok ⟨nan.re, nan.re⟩ := by decide +kernel
    obtain rfl := Except.ok.inj (hpower.symm.trans h)
    decide +kernel
  · obtain rfl := hz.symm.trans hinf
    have hpower : checked (one.mul infinity) = .error .tooLarge := by decide +kernel
    cases hpower.symm.trans h
  · obtain rfl := hz.symm.trans hneg
    have hpower : checked (one.mul negativeInfinity) = .error .tooLarge := by decide +kernel
    cases hpower.symm.trans h
  · rw [hz] at hre him
    rw [hre.one_mul him, checked] at h
    split at h
    · cases h
    · obtain rfl := Except.ok.inj h
      exact hz

end Number

/-- The power of two numbers, for an exponent that zero can have. -/
theorem power_numbers (z : Number) {w : Number} (hw : w.IsSnapped)
    (hallowed : (w.re < 0 || w.im != 0) = false) :
    calculator.power (.number z) (.number w) =
      (z.snap.power w).map fun v => .number v.snap := by
  have hpower : Primitive.power (.number z) (.number w) =
      z.snap.power w >>= fun v => pure v.snap := by
    rw [Primitive.power, binary_number, show w.snap = w from hw, hallowed, Bool.and_false]
    rfl
  show (Primitive.power (.number z) (.number w)).map Operand.number = _
  rw [hpower]
  cases z.snap.power w <;> rfl

/-- A normalized number that is equal to a snapped one **is that number**. -/
theorem Operand.IsNormalized.eq_of_equals {x : Operand} (hx : x.IsNormalized) {w : Number}
    (hw : w.IsSnapped) (h : Primitive.equals x (.number w) = .ok true) : x = .number w := by
  obtain ⟨z, rfl⟩ := hx
  have hequals : z.snap.snap.equals w.snap = true := Except.ok.inj h
  rw [show z.snap.snap = z.snap from z.isSnapped_snap, show w.snap = w from hw] at hequals
  rw [z.isSnapped_snap.eq_of_equals hw hequals]

/-- **The calculator folds** normalized numbers. -/
theorem folds_calculator : calculator.Folds Operand.IsNormalized where
  zero := ⟨.zero, congrArg Operand.number (by decide +kernel)⟩
  one := ⟨.one, congrArg Operand.number (by decide +kernel)⟩
  contents := by
    rintro _ ⟨z, rfl⟩
    rfl
  onNumbers {op} {a b c} h := by
    cases op with
    | add | subtract | multiply | divide => exact isNormalized_of_binary h
    | power | plusMinus | other => cases h
  power h := isNormalized_of_binary h
  equals := by
    rintro _ _ ⟨z, rfl⟩ ⟨w, rfl⟩
    exact ⟨_, rfl⟩
  power_zero := by
    rintro _ b c ⟨z, rfl⟩ hb hzero h
    obtain rfl := hb.eq_of_equals (by decide +kernel) hzero
    rw [power_numbers z.snap (by decide +kernel) (by decide +kernel), Number.power_zero] at h
    obtain rfl := Except.ok.inj h
    exact congrArg Operand.number (by decide +kernel)
  power_one := by
    rintro _ b c ⟨z, rfl⟩ hb hone h
    obtain rfl := hb.eq_of_equals (by decide +kernel) hone
    rw [power_numbers z.snap (by decide +kernel) (by decide +kernel)] at h
    obtain ⟨v, hv, rfl⟩ := map_eq_ok.mp h
    rw [show z.snap.snap = z.snap from z.isSnapped_snap] at hv
    rw [z.isSnapped_snap.power_one hv]

/-- **Formulas of numbers fold completely and correctly.** If a formula of normalized numbers and
variables bound to single numbers is simplified, the result is a number; if it has a value, the
simplified form is that value. -/
theorem simplify_numeric {scope : Scope Operand} {e : Expr Operand}
    (he : e.IsNumeric Operand.IsNormalized scope) :
    (∀ e', e.simplify calculator scope = .ok e' → ∃ a, e' = Expr.number a) ∧
      ∀ w, e.evaluate calculator scope = .ok w →
        ∃ a, w = .one a ∧ e.simplify calculator scope = .ok (Expr.number a) := by
  have hfolds := folds_calculator.simplify he
  constructor
  · intro e' h
    obtain ⟨a, -, rfl⟩ := hfolds.number h
    exact ⟨a, rfl⟩
  · intro w h
    obtain ⟨a, -, rfl, hsimplify⟩ := hfolds.complete (value_of_evaluate h)
    exact ⟨a, rfl, hsimplify⟩

/-- The formula `(2x)^1 - x^0` where `x` is three: both powers are shortcuts. -/
theorem simplify_numeric_shortcuts :
    let scope : Scope Operand := [("x", some (.one (.number ⟨3, 0⟩)))]
    let e : Expr Operand :=
      .node (.node (.scaled "x" calculator.two) .power (.number calculator.one)) .subtract
        (.node (.scaled "x" calculator.one) .power (.number calculator.zero))
    e.evaluate calculator scope = .ok (.one (.number ⟨5, 0⟩)) ∧
      e.simplify calculator scope = .ok (Expr.number (.number ⟨5, 0⟩)) := by
  intro scope e
  have hscope : scope.value? "x" = some (.one (.number ⟨3, 0⟩)) := rfl
  have hnumeric : e.IsNumeric Operand.IsNormalized scope :=
    ⟨by decide, ⟨⟨_, hscope⟩, folds_calculator.one⟩, ⟨_, hscope⟩, folds_calculator.zero⟩
  have hleaf {c v : Number} (h : Primitive.multiply (.number c) (.number ⟨3, 0⟩) = .ok v) :
      (Expr.scaled "x" (.number c)).value calculator scope = .ok (.one (.number v)) := by
    simp only [Expr.value, Expr.atomValue, hscope, Value.mapM, multiply_number h]
    rfl
  have hnode {l r : Expr Operand} {op : Operator} {f : Operand → Operand → Except Fault Number}
      {z w v : Number} (hl : l.value calculator scope = .ok (.one (.number z)))
      (hop : Expr.operate calculator op =
        combineValues calculator.equals fun a b => (f a b).map .number)
      (hr : r.value calculator scope = .ok (.one (.number w)))
      (h : f (.number z) (.number w) = .ok v) :
      (Expr.node l op r).value calculator scope = .ok (.one (.number v)) := by
    simp only [Expr.value, hl, hr, hop, bind, Except.bind, combineValues, h]
    rfl
  have hdouble : Primitive.multiply (.number .two) (.number ⟨3, 0⟩) = .ok ⟨6, 0⟩ := by
    decide +kernel
  have hsingle : Primitive.multiply (.number .one) (.number ⟨3, 0⟩) = .ok ⟨3, 0⟩ := by
    decide +kernel
  have hfirst : Primitive.power (.number ⟨6, 0⟩) (.number .one) = .ok ⟨6, 0⟩ := by decide +kernel
  have hzeroth : Primitive.power (.number ⟨3, 0⟩) (.number .zero) = .ok .one := by decide +kernel
  have hrest : Primitive.subtract (.number ⟨6, 0⟩) (.number .one) = .ok ⟨5, 0⟩ := by
    decide +kernel
  have hvalue : e.evaluate calculator scope = .ok (.one (.number ⟨5, 0⟩)) :=
    hnode (hnode (hleaf hdouble) rfl rfl hfirst) rfl (hnode (hleaf hsingle) rfl rfl hzeroth) hrest
  obtain ⟨a, ha, hsimplify⟩ := (simplify_numeric hnumeric).2 _ hvalue
  obtain rfl := Value.one.inj ha
  exact ⟨hvalue, hsimplify⟩

end Argand
