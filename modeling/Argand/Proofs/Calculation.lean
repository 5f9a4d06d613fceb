import Argand.Proofs.Grammar.Outcomes
import Argand.Proofs.Numbers
import Argand.Proofs.Roots
import Argand.Proofs.Simplification.Effort

/-!
# Calculating does not get stuck

A formula can be calculated with if its numbers are numbers, its constants are known, its operators
have a value and nothing in it is a stray thing. Then it is simplified, and evaluated once it has no
variables, up to the faults that the operations on numbers have: nothing is unbound, unknown or no
number.

## Main definitions

* `Argand.Fault.IsArithmetic`: the faults that operations on numbers have.
* `Argand.Expr.Calculable`: formulas that can be calculated with.
* `Argand.Arithmetic.Calculates`: operations that succeed up to some faults, powers, logarithms and
  roots included.

## Main results

* `Argand.yields_calculable`: simplification succeeds up to these faults.
* `Argand.yields_closed`: so does evaluation.
* `Argand.calculates_calculator`: the faults of the calculator are of arithmetic.
* `Argand.calculable_of_read`: what is read can be calculated with.
-/

namespace Argand

open Simplify

variable {α : Type}

/-- A fault **of arithmetic**: an operation on numbers has no result, or one beyond the floats. -/
inductive Fault.IsArithmetic : Fault → Prop
  | divisionByZero : IsArithmetic .divisionByZero
  | tooLarge : IsArithmetic .tooLarge
  | logarithmOfZero : IsArithmetic .logarithmOfZero
  | zeroPower : IsArithmetic .zeroPower
  | outOfRange : IsArithmetic .outOfRange
  | outOfDomain : IsArithmetic .outOfDomain

/-! ### Formulas that can be calculated with -/

section

variable (A : Arithmetic α) (ok : α → Prop)

/-- A leaf that **has a value** or is a variable: a constant that is known, and no stray thing. -/
def Atom.IsCalculable : Atom α → Prop
  | .constant x => (A.constant? x).isSome
  | .stray _ => False
  | .number _ | .scaled .. | .list _ => True

/-- A formula that **can be calculated** with. -/
structure Expr.Calculable (e : Expr α) : Prop where
  numbers : e.Sound ok fun _ => True
  leaves : e.HasLeaves (Atom.IsCalculable A)
  operators : e.HasKnownOperators

/-- Operations that **succeed** on numbers that are `ok`, up to the faults `P`: also those that no
identity needs. -/
structure Arithmetic.Calculates (P : Fault → Prop) : Prop where
  handles : A.Handles P ok fun _ => True
  gives : A.Gives ok
  power : ∀ {a b}, ok a → ok b → Yields P ok (A.power a b)
  log : ∀ {a}, ok a → Yields P ok (A.log a)
  roots : ∀ {a n}, ok a → ok n → Yields P (fun rs => ∀ c ∈ rs, ok c) (A.roots a n)

end

variable {A : Arithmetic α} {ok : α → Prop} {P : Fault → Prop}

namespace Expr.Calculable

variable {l r : Expr α} {op : Operator}

theorem node (hop : op.IsKnown) (hl : l.Calculable A ok) (hr : r.Calculable A ok) :
    (Expr.node l op r).Calculable A ok :=
  ⟨.any hl.numbers hr.numbers, ⟨hl.leaves, hr.leaves⟩,
    hop, hl.operators, hr.operators⟩

theorem left (h : (Expr.node l op r).Calculable A ok) : l.Calculable A ok :=
  ⟨h.numbers.1, h.leaves.1, h.operators.2.1⟩

theorem right (h : (Expr.node l op r).Calculable A ok) : r.Calculable A ok :=
  ⟨h.numbers.2.1, h.leaves.2, h.operators.2.2⟩

theorem number {a : α} (ha : ok a) : (Expr.number a).Calculable A ok :=
  ⟨ha, trivial, trivial⟩

theorem list {items : List α} (h : ∀ c ∈ items, ok c) :
    (Expr.atom (.list items)).Calculable A ok :=
  ⟨h, trivial, trivial⟩

/-- Several values can be calculated with. -/
theorem ofItems {items : List α} (h : ∀ c ∈ items, ok c) :
    (Expr.ofItems items).Calculable A ok := by
  unfold Expr.ofItems
  split
  · exact number (h _ (List.mem_singleton.mpr rfl))
  · exact list h

/-- **A value** can be calculated with. -/
theorem ofValue {v : Value α} (h : ∀ c ∈ v.items, ok c) : (Expr.ofValue v).Calculable A ok := by
  cases v with
  | one a => exact number (h a (List.mem_singleton.mpr rfl))
  | many items => exact ofItems h

end Expr.Calculable

/-! ### Simplification -/

/-- The operators of sums are known. -/
theorem Sign.isKnown_operator (s : Sign) : s.operator.IsKnown := by
  cases s <;> trivial

/-- A number in front of a formula. -/
theorem isKnown_of_scaledBy {c : α} {e e' : Expr α} (h : scaledBy A c e = .ok e')
    (he : e.HasKnownOperators) : e'.HasKnownOperators := by
  obtain ⟨-, rfl⟩ | ⟨-, rfl⟩ | ⟨-, -, rfl⟩ := scaledBy_cases h
  · trivial
  · exact he
  · exact ⟨trivial, trivial, he⟩

/-- **An identity** brings in no unknown operators. -/
theorem Rewrites.isKnown {op : Operator} {l r e : Expr α} (h : Rewrites A op l r e)
    (hop : op.IsKnown) (hl : l.HasKnownOperators) (hr : r.HasKnownOperators) :
    e.HasKnownOperators := by
  induction h with
  | kept => exact ⟨hop, hl, hr⟩
  | addNumbers | divideNumbers | divideSame | divideScaledNumber | multiplyNumbers | zeroMultiply
  | multiplyZero | multiplyScaledNumber | multiplyNumberScaled | powerZero | powerNumbers =>
      trivial
  | zeroAdd | oneMultiply => exact hr
  | addZero | divideOne | multiplyOne | powerOne => exact hl
  | foldOuterFirst _ _ _ _ _ ih => exact ih (Sign.isKnown_operator _) trivial hr.2.2
  | foldOuterSecond _ _ _ _ _ ih => exact ih (Sign.isKnown_operator _) trivial hr.2.1
  | foldInnerFirst _ _ _ _ _ ih => exact ih (Sign.isKnown_operator _) trivial hl.2.2
  | foldInnerSecond _ _ _ _ _ _ ih => exact ih trivial trivial hl.2.1
  | divideScaled _ _ he | multiplySame _ he | multiplyScaled _ _ he =>
      exact isKnown_of_scaledBy he ⟨trivial, trivial, trivial⟩
  | divideSum _ _ _ _ iha ihb ihe | sumMultiply _ _ _ _ iha ihb ihe =>
      exact ihe hl.1 (iha hop hl.2.1 hr) (ihb hop hl.2.2 hr)
  | multiplySum _ _ _ _ iha ihb ihe => exact ihe hr.1 (iha hop hl hr.2.1) (ihb hop hl hr.2.2)
  | multiplyNumber _ ih => exact ih hop hr hl
  | absorbFirst _ _ _ ihy ihe => exact ihe hop (ihy hop hl hr.2.1) hr.2.2
  | absorbSecond _ _ _ ihy ihe => exact ihe hop hr.2.1 (ihy hop hl hr.2.2)
  | absorbDividend _ _ _ ihy ihe => exact ihe hr.1 (ihy hop hl hr.2.1) hr.2.2
  | powerProduct _ _ _ iha ihb ihe | powerQuotient _ _ _ iha ihb ihe =>
      exact ihe hl.1 (iha hop hl.2.1 hr) (ihb hop hl.2.2 hr)
  | powerPower _ _ ihp ihe => exact ihe hop hl.2.1 (ihp trivial hl.2.2 hr)

/-- **Simplification** brings in no unknown operators. -/
theorem isKnown_simplify {scope : Scope α} {e e' : Expr α} (he : e.HasKnownOperators)
    (h : e.simplify A scope = .ok e') : e'.HasKnownOperators := by
  induction e generalizing e' with
  | atom x =>
      obtain ⟨y, rfl⟩ := exists_atom_of_simplify h
      trivial
  | node l op r ihl ihr =>
      obtain ⟨l', r', hl, hr, hrw⟩ := rewrites_of_simplify h
      exact hrw.isKnown he.1 (ihl he.2.1 hl) (ihr he.2.2 hr)

section

variable (hA : A.Calculates ok P)

include hA

/-- Testing for zero and one succeeds. -/
theorem yields_isNumberExpr {b : α} (hb : ok b) {e : Expr α} (he : e.Sound ok fun _ => True) :
    Yields P (fun _ => True) (isNumberExpr A b e) := by
  cases e with
  | atom x => exact yields_isNumber hA.handles hb he
  | node l op r => trivial

/-- **Powers.** -/
theorem yields_raise {l r : Expr α} (hl : l.Sound ok fun _ => True)
    (hr : r.Sound ok fun _ => True) :
    Yields P (Expr.Sound ok fun _ => True) (raise A l r) := by
  induction l generalizing r with
  | atom x =>
      unfold raise
      refine (yields_isNumberExpr hA hA.gives.zero hr).test hA.gives.one ?_
      refine (yields_isNumberExpr hA hA.gives.one hr).test hl ?_
      cases x with
      | number a =>
          cases r with
          | atom y =>
              cases y with
              | number b => exact (hA.power hl hr).bind fun c hc => hc
              | _ => exact .any hl hr
          | node => exact .any hl hr
      | _ => exact .any hl hr
  | node a op b iha ihb =>
      unfold raise
      refine (yields_isNumberExpr hA hA.gives.zero hr).test hA.gives.one ?_
      refine (yields_isNumberExpr hA hA.gives.one hr).test hl ?_
      cases op with
      | multiply =>
          exact (iha hl.1 hr).bind fun a' ha => (ihb hl.2.1 hr).bind fun b' hb =>
            yields_multiply hA.handles ha hb
      | divide =>
          exact (iha hl.1 hr).bind fun a' ha => (ihb hl.2.1 hr).bind fun b' hb =>
            yields_divide hA.handles ha hb b'.divides_true
      | power => exact (yields_multiply hA.handles hl.2.1 hr).bind fun b' hb => iha hl.1 hb
      | _ => exact .any hl hr

variable {scope : Scope α} (hs : ∀ x v, scope.value? x = some v → ∀ a ∈ v.items, ok a)

include hs

/-- Simplification keeps the numbers of a formula `ok`. -/
theorem yields_sound {e : Expr α} (he : e.Sound ok fun _ => True) :
    Yields P (Expr.Sound ok fun _ => True) (e.simplify A scope) := by
  induction e with
  | atom x => exact yields_atom hA.handles hs he
  | node l op r ihl ihr =>
      refine (ihl he.1).bind fun l' hl => (ihr he.2.1).bind fun r' hr => ?_
      by_cases hop : op = .power
      · subst hop
        exact yields_raise hA hl hr
      · exact yields_rule hA.handles hop hl hr fun _ => r'.divides_true

/-- **Simplification succeeds** on formulas that can be calculated with, and leaves such. -/
theorem yields_calculable {e : Expr α} (he : e.Calculable A ok) :
    Yields P (Expr.Calculable A ok) (e.simplify A scope) := by
  refine (yields_sound hA hs he.numbers).and_eq.mono (fun _ => id) fun e' ⟨hnumbers, h⟩ => ?_
  refine ⟨hnumbers, ?_, isKnown_simplify he.operators h⟩
  exact hasLeaves_simplify hA.gives (fun _ _ => trivial) (fun _ _ => trivial)
    (fun _ hw => (Expr.Calculable.ofValue (items_of_scaled hA.gives hw)).leaves) he.leaves h

end

/-! ### Evaluation -/

section

variable (hA : A.Calculates ok P)

include hA

/-- **An operator** succeeds on values of numbers. -/
theorem yields_known {op : Operator} (hop : op.IsKnown) {x y : Value α}
    (hx : ∀ a ∈ x.items, ok a) (hy : ∀ b ∈ y.items, ok b) :
    Yields P (fun w => ∀ c ∈ w.items, ok c) (Expr.operate A op x y) := by
  have field (hop : op.IsField) : Yields P (fun w => ∀ c ∈ w.items, ok c)
      (Expr.operate A op x y) :=
    yields_operate hA.handles hop hx hy fun _ _ _ => trivial
  cases op with
  | add | subtract | multiply | divide => exact field trivial
  | power => exact yields_combineValues hA.handles fun a ha b hb => hA.power (hx a ha) (hy b hb)
  | plusMinus =>
      refine (yields_lift hA.handles fun a ha b hb => ?_).map fun items hitems => hitems
      refine (hA.handles.add (hx a ha) (hy b hb)).bind fun c hc => ?_
      refine (hA.handles.subtract (hx a ha) (hy b hb)).bind fun d hd => ?_
      intro e he
      obtain rfl | he := List.mem_cons.mp he
      · exact hc
      · exact List.mem_singleton.mp he ▸ hd
  | other symbol => exact hop.elim

/-- **The value of a formula without variables** is computed. -/
theorem yields_closed {scope : Scope α} {e : Expr α} (he : e.Calculable A ok)
    (hclosed : e.names = []) :
    Yields P (fun w => ∀ c ∈ w.items, ok c) (e.value A scope) := by
  induction e with
  | atom x =>
      cases x with
      | number a =>
          have ha : ok a := he.numbers
          show ∀ c ∈ (A.contents a).items, ok c
          rw [hA.gives.contents ha]
          exact fun c hc => List.mem_singleton.mp hc ▸ ha
      | scaled x c => cases hclosed
      | constant x =>
          obtain ⟨a, ha⟩ := Option.isSome_iff_exists.mp he.leaves
          simp only [Expr.value, Expr.atomValue, ha]
          exact fun c hc => List.mem_singleton.mp hc ▸ hA.gives.constant ha
      | list items => exact he.numbers
      | stray a => exact he.leaves.elim
  | node l op r ihl ihr =>
      exact (ihl he.left (Expr.closed_left hclosed)).bind fun x hx =>
        (ihr he.right (Expr.closed_right hclosed)).bind fun y hy =>
          yields_known hA he.operators.1 hx hy

/-- The same with the fault of something that is no formula, which it is not. -/
theorem yields_evaluate {scope : Scope α} {e : Expr α} (he : e.Calculable A ok)
    (hclosed : e.names = []) :
    Yields P (fun w => ∀ c ∈ w.items, ok c) (e.evaluate A scope) := by
  have hstray (a : α) : e ≠ .atom (.stray a) := by
    rintro rfl
    exact he.leaves
  rw [evaluate_eq_value hstray]
  exact yields_closed hA he hclosed

/-- **Roots** of a formula without variables. -/
theorem yields_roots {e : Expr α} (he : e.Calculable A ok) (hclosed : e.names = []) {n : α}
    (hn : ok n) : Yields P (fun e' => e'.Calculable A ok ∧ e'.names = []) (e.roots A n) := by
  refine (yields_closed hA he hclosed).bind fun v hv => ?_
  rw [hA.gives.contents hn]
  refine (yields_lift hA.handles fun a ha m hm => ?_).bind fun items hitems =>
    ⟨.ofItems hitems, names_ofValue (.many items)⟩
  obtain rfl := List.mem_singleton.mp hm
  exact (hA.roots (hv a ha) hn).map fun rs hrs => hrs

/-- **Logarithms** of a formula without variables. -/
theorem yields_logarithm {scope : Scope α} {e : Expr α} (he : e.Calculable A ok)
    (hclosed : e.names = []) :
    Yields P (fun e' => e'.Calculable A ok ∧ e'.names = []) (e.logarithm A scope) := by
  refine (yields_evaluate hA he hclosed).bind fun v hv => ?_
  cases v with
  | one a => exact (hA.log (hv a (List.mem_singleton.mpr rfl))).bind fun c hc => ⟨.number hc, rfl⟩
  | many items => exact (Yields.mapM fun a ha => hA.log (hv a ha)).bind fun logs hlogs =>
      ⟨.list hlogs, rfl⟩

end

/-! ### What is read -/

/-- **A formula that is read** can be calculated with, if the constants of the grammar are known. -/
theorem calculable_of_read (hA : A.Gives ok)
    (hconstant : ∀ x ∈ ["i", "e", "π"], (A.constant? x).isSome) {limit : Except Fault DepthLimit}
    {source : String} {e : Expr α} (h : (Formula.read A limit source).outcome = .ok e) :
    e.Calculable A ok where
  numbers := sound_of_isEntered hA.zero hA.one hA.literal (isEntered_of_read h)
  leaves := hasLeaves_of_read trivial (fun _ => trivial) hconstant (fun _ _ _ _ => trivial) h
  operators := (yields_read A (P := fun _ => True) (fun _ _ => trivial)
    (yields_iff.mpr ⟨fun _ _ => trivial, fun _ _ => trivial⟩) source).of_ok h

/-! ### The calculator -/

section

open Fault.IsArithmetic

variable {x y : Operand}

/-- A result that must not be infinite. -/
theorem yields_checked (z : Number) : Yields Fault.IsArithmetic (fun _ => True) z.checked := by
  unfold Number.checked
  split
  · exact tooLarge
  · trivial

/-- A power from the polar form of the base. -/
theorem yields_polarPower (z w : Number) :
    Yields Fault.IsArithmetic (fun _ => True) (z.polarPower w) := by
  unfold Number.polarPower
  dsimp only
  split <;>
  · split
    · exact zeroPower
    · exact yields_checked _

/-- The power of floats. -/
theorem yields_numberPower (z w : Number) :
    Yields Fault.IsArithmetic (fun _ => True) (z.power w) := by
  unfold Number.power
  split
  · split
    · exact yields_checked _
    · exact zeroPower
  split
  · trivial
  split
  · split
    · exact zeroPower
    · trivial
  exact yields_polarPower z w

/-- The power of numbers. -/
theorem yields_power (hx : x.IsNumeric) (hy : y.IsNumeric) :
    Yields Fault.IsArithmetic (fun _ => True) (Primitive.power x y) := by
  refine yields_floats hx hy fun z w _ _ => ?_
  split
  · exact divisionByZero
  · exact yields_numberPower z w

/-- The quotient of numbers. -/
theorem yields_quotient (hx : x.IsNumeric) (hy : y.IsNumeric) :
    Yields Fault.IsArithmetic (fun _ => True) (Primitive.divide x y) := by
  refine yields_floats hx hy fun z w _ _ => ?_
  split
  · exact divisionByZero
  · trivial

/-- An entire function has the faults of its operation on floats, or its own. -/
theorem yields_entire {f : Number → Except Fault Number}
    (hf : ∀ z, Yields Fault.IsArithmetic (fun _ => True) (f z)) (hx : x.IsNumeric) :
    Yields Fault.IsArithmetic (fun _ => True) (Primitive.entire f x) := by
  obtain ⟨z, hz⟩ := hx
  have h := hf z
  simp only [Primitive.entire, Primitive.unary, hz]
  show Yields _ _ ((f z >>= fun w => pure w.snap).mapError _)
  cases hfz : f z with
  | ok w => trivial
  | error fault =>
      rw [hfz] at h
      show Fault.IsArithmetic (if _ then _ else _)
      split
      · exact tooLarge
      · exact h

/-- The sine and the cosine of numbers. -/
theorem yields_sin_cos (hx : x.IsNumeric) :
    Yields Fault.IsArithmetic (fun _ => True) (Primitive.sin x) ∧
      Yields Fault.IsArithmetic (fun _ => True) (Primitive.cos x) := by
  refine ⟨yields_entire (fun z => ?_) hx, yields_entire (fun z => ?_) hx⟩
  · unfold Number.sin
    split
    · trivial
    split
    · exact outOfDomain
    · exact yields_checked _
  · unfold Number.cos
    split
    · trivial
    split
    · exact outOfDomain
    · exact yields_checked _

/-- A candidate for a root. -/
theorem yields_rootCandidate (length : Number) (angle : Float) (index : Number) (k : Nat) :
    Yields Fault.IsArithmetic (fun _ => True) (Primitive.rootCandidate length angle index k) := by
  have number := Operand.IsNumeric.number
  have product (z w : Number) : Yields Fault.IsArithmetic (fun _ => True)
      (Primitive.multiply (.number z) (.number w)) :=
    yields_floats (number z) (number w) fun _ _ _ _ => trivial
  refine (yields_quotient ⟨_, rfl⟩ (number index)).bind fun turned _ => ?_
  obtain ⟨hsin, hcos⟩ := yields_sin_cos (number turned)
  refine hcos.bind fun c _ => hsin.bind fun s _ => ?_
  refine (product _ s).bind fun t _ => ?_
  refine Yields.bind (Q := fun _ => True) ?_ fun direction _ => product length direction
  exact yields_floats (number c) (number t) fun _ _ _ _ => trivial

/-- The distinct candidates, if each of them is found. -/
theorem yields_distinctCandidates {P : Fault → Prop} {candidate : Nat → Except Fault Number}
    (h : ∀ k, Yields P (fun _ => True) (candidate k)) (count k : Nat) (found : List Number) :
    Yields P (fun _ => True) (Primitive.distinctCandidates candidate count k found) := by
  induction count generalizing k found with
  | zero => trivial
  | succ count ih =>
      refine (h k).bind fun z _ => ?_
      split
      · trivial
      · exact ih _ _

/-- The roots of a number. -/
theorem yields_primitiveRoots (hx : x.IsNumeric) (hy : y.IsNumeric) :
    Yields Fault.IsArithmetic (fun _ => True) (Primitive.roots x y) := by
  obtain ⟨z, hz⟩ := hx
  obtain ⟨w, hw⟩ := hy
  have number := Operand.IsNumeric.number
  have hpolar : Yields Fault.IsArithmetic (fun _ => True) (Polar.ofNumber z) := by
    unfold Polar.ofNumber
    dsimp only
    split
    · exact outOfRange
    · trivial
  simp only [Primitive.roots, hz, hw]
  refine hpolar.bind fun p _ => ?_
  refine (yields_quotient (number _) (number w)).bind fun q _ => ?_
  refine (yields_power ⟨_, rfl⟩ (number q)).bind fun length _ => ?_
  exact yields_distinctCandidates (yields_rootCandidate length p.angle w) _ _ _

/-- The logarithm of a number. -/
theorem yields_primitiveLog (hx : x.IsNumeric) :
    Yields Fault.IsArithmetic (fun _ => True) (Primitive.log x) := by
  obtain ⟨z, hz⟩ := hx
  simp only [Primitive.log, Primitive.unary, hz]
  refine Yields.bind (Q := fun _ => True) (x := if z.isZero then _ else _) ?_ fun _ _ => trivial
  split
  · exact logarithmOfZero
  · trivial

/-- **The faults of the calculator** on numbers are of arithmetic. -/
theorem calculates_calculator : calculator.Calculates Operand.IsNumeric Fault.IsArithmetic where
  handles := handles_calculator.mono fun f hf => hf ▸ divisionByZero
  gives := gives_calculator
  power ha hb := (yields_power ha hb).map fun c _ => .number c
  log ha := (yields_primitiveLog ha).map fun c _ => .number c
  roots ha hn := (yields_primitiveRoots ha hn).map fun zs _ c hc => by
    obtain ⟨z, -, rfl⟩ := List.mem_map.mp hc
    exact .number z

end

end Argand
