import Argand.Primitive
import Argand.Proofs.Evaluation

/-!
# What the calculator computes

The operations of a field that the calculator uses succeed on all operands that are numbers, and
give numbers. Only dividing by zero fails.

## Main definitions

* `Argand.Operand.IsNumeric`: the operands that are numbers.
* `Argand.Scope.IsNumeric`: the scopes that bind variables to single numbers.
* `Argand.Expr.IsDefined`: formulas without unbound names and without zero divisors.

## Main results

* `Argand.handles_calculator`: the operations fail by a division by zero only.
* `Argand.exists_value_iff_isDefined`: which rational formulas have a value.
-/

namespace Argand

/-! ### Numeric operands -/

/-- An operand that **is a number**. -/
def Operand.IsNumeric (x : Operand) : Prop :=
  ∃ z, x.toNumber = .ok z

/-- A number of the calculator is one. -/
theorem Operand.IsNumeric.number (z : Number) : (Operand.number z).IsNumeric :=
  ⟨z.snap, rfl⟩

/-- A number stands for itself. -/
theorem Operand.IsNumeric.contents {x : Operand} (h : x.IsNumeric) : x.contents = .one x := by
  obtain ⟨z, hz⟩ := h
  cases x with
  | list items => cases hz
  | _ => rfl

/-- The named constants are numbers. -/
theorem isNumeric_constant {x : String} {a : Operand} (h : calculator.constant? x = some a) :
    a.IsNumeric := by
  obtain ⟨z, -, rfl⟩ := Option.map_eq_some_iff.mp h
  exact .number z

/-- The calculator knows the constants that can be entered. -/
theorem isSome_constant {x : String} (h : x ∈ ["i", "e", "π"]) :
    (calculator.constant? x).isSome := by
  simp only [List.mem_cons, List.not_mem_nil, or_false] at h
  obtain rfl | rfl | rfl := h <;> decide

/-- An operation on two numbers succeeds if the operation on their floats does. -/
theorem yields_floats {P : Fault → Prop} {f : Number → Number → Except Fault Number}
    {x y : Operand} (hx : x.IsNumeric) (hy : y.IsNumeric)
    (hf : ∀ z w, x.toNumber = .ok z → y.toNumber = .ok w → Yields P (fun _ => True) (f z w)) :
    Yields P (fun _ => True) (Primitive.binary f x y) := by
  obtain ⟨z, hz⟩ := hx
  obtain ⟨w, hw⟩ := hy
  simp only [Primitive.binary, hz, hw]
  exact (hf z w hz hw).bind fun _ _ => trivial

/-- An operation on two numbers gives a number, if the operation on their floats succeeds. -/
theorem yields_binary {P : Fault → Prop} {f : Number → Number → Except Fault Number}
    {x y : Operand} (hx : x.IsNumeric) (hy : y.IsNumeric)
    (hf : ∀ z w, x.toNumber = .ok z → y.toNumber = .ok w → Yields P (fun _ => True) (f z w)) :
    Yields P Operand.IsNumeric ((Primitive.binary f x y).map .number) :=
  (yields_floats hx hy hf).map fun c _ => .number c

/-- A divisor that is **not zero**. -/
def Operand.IsNonzero (x : Operand) : Prop :=
  calculator.equals x calculator.zero = .ok false

/-- Comparing with zero tests the number of an operand. -/
theorem equals_zero {x : Operand} {z : Number} (hz : x.toNumber = .ok z) :
    calculator.equals x calculator.zero = .ok z.isZero := by
  have hzero : Operand.toNumber (.number Number.zero) = .ok Number.zero := by decide +kernel
  simp only [calculator, Primitive.equals, Primitive.relation, hz, hzero, Number.isZero]
  rfl

/-- A number divides exactly if it is not zero. -/
theorem divide_eq_ok_iff {x y : Operand} (hx : x.IsNumeric) (hy : y.IsNumeric) :
    (∃ c, calculator.divide x y = .ok c) ↔ y.IsNonzero := by
  obtain ⟨z, hz⟩ := hx
  obtain ⟨w, hw⟩ := hy
  rw [Operand.IsNonzero, equals_zero hw]
  simp only [calculator, Primitive.divide, Primitive.binary, hz, hw]
  cases hw0 : w.isZero <;> simp [hw0, bind, Except.bind, Except.map, pure, Except.pure]

/-- **The operations of the calculator succeed** on numbers, if no divisor is zero. -/
theorem handles_calculator_nonzero :
    calculator.Handles (fun _ => False) Operand.IsNumeric Operand.IsNonzero where
  zero := .number _
  one := .number _
  two := .number _
  divisor_one := by
    rw [Operand.IsNonzero, equals_zero (z := Number.one) (by decide +kernel)]
    decide +kernel
  add ha hb := yields_binary ha hb fun _ _ _ _ => trivial
  subtract ha hb := yields_binary ha hb fun _ _ _ _ => trivial
  multiply ha hb := yields_binary ha hb fun _ _ _ _ => trivial
  divide {a b} ha hb hd := by
    refine yields_binary ha hb fun z w hz hw => ?_
    rw [Operand.IsNonzero, equals_zero hw] at hd
    simp [Except.ok.inj hd]
  negate {a} ha := by
    obtain ⟨z, hz⟩ := ha
    simp only [calculator, Primitive.negate, Primitive.unary, hz]
    exact Operand.IsNumeric.number _
  equals {a b} ha hb := by
    obtain ⟨z, hz⟩ := ha
    obtain ⟨w, hw⟩ := hb
    simp only [calculator, Primitive.equals, Primitive.relation, hz, hw]
    trivial

/-- The operations of the calculator fail on numbers **by a division by zero only**. -/
theorem handles_calculator :
    calculator.Handles (fun f => f = .divisionByZero) Operand.IsNumeric fun _ => True where
  zero := .number _
  one := .number _
  two := .number _
  divisor_one := trivial
  add ha hb := (handles_calculator_nonzero.add ha hb).mono (fun _ => False.elim) fun _ h => h
  subtract ha hb :=
    (handles_calculator_nonzero.subtract ha hb).mono (fun _ => False.elim) fun _ h => h
  multiply ha hb :=
    (handles_calculator_nonzero.multiply ha hb).mono (fun _ => False.elim) fun _ h => h
  divide {a b} ha hb _ := by
    refine yields_binary ha hb fun z w _ _ => ?_
    split <;> trivial
  negate ha := (handles_calculator_nonzero.negate ha).mono (fun _ => False.elim) fun _ h => h
  equals ha hb := (handles_calculator_nonzero.equals ha hb).mono (fun _ => False.elim) fun _ h => h

/-! ### Scopes of numbers -/

/-- A scope **of numbers** binds each of its variables to a single number. -/
def Scope.IsNumeric (scope : Scope Operand) : Prop :=
  ∀ x v, scope.value? x = some v → ∃ a, v = .one a ∧ a.IsNumeric

/-- A scope of numbers has single values. -/
theorem Scope.IsNumeric.isSingle {scope : Scope Operand} (hs : scope.IsNumeric) :
    scope.IsSingle :=
  fun x v hv => (hs x v hv).imp fun _ h => h.1

/-- All values in a scope of numbers are numbers. -/
theorem Scope.IsNumeric.items {scope : Scope Operand} (hs : scope.IsNumeric) :
    ∀ x v, scope.value? x = some v → ∀ a ∈ v.items, a.IsNumeric := by
  intro x v hv
  obtain ⟨a, rfl, ha⟩ := hs x v hv
  exact fun b hb => List.mem_singleton.mp hb ▸ ha

/-- The scope with **one whole number**. -/
def Scope.whole (x : String) (n : Int) : Scope Operand :=
  [(x, some (.one (.whole n)))]

/-- A scope with one whole number is one of numbers, if the number is none beyond the floats. -/
theorem Scope.isNumeric_whole {x : String} {n : Int} (hn : (Operand.whole n).IsNumeric) :
    (Scope.whole x n).IsNumeric := by
  intro y v hv
  obtain ⟨-, rfl⟩ : y = x ∧ v = .one (.whole n) := by simpa [whole] using mem_of_value? hv
  exact ⟨.whole n, rfl, hn⟩

/-! ### Which formulas have a value -/

/-- A formula is **defined** in a scope if its variables are bound, its constants exist, and no
divisor in it is zero. -/
def Expr.IsDefined (scope : Scope Operand) : Expr Operand → Prop
  | .scaled x _ => (scope.value? x).isSome
  | .atom (.constant x) => (calculator.constant? x).isSome
  | .atom _ => True
  | .node l op r => l.IsDefined scope ∧ r.IsDefined scope ∧
      (op = .divide → ∀ y, r.value calculator scope = .ok y → ∀ b ∈ y.items, b.IsNonzero)

/-- **A rational formula has a value** in a scope of numbers exactly if it is defined there. -/
theorem exists_value_iff_isDefined {scope : Scope Operand} (hs : scope.IsNumeric)
    {e : Expr Operand} (he : e.IsRational) (hok : e.Sound Operand.IsNumeric fun _ => True) :
    (∃ w, e.value calculator scope = .ok w) ↔ e.IsDefined scope := by
  have hone : ∀ a : Operand, a.IsNumeric → calculator.contents a = .one a :=
    fun a ha => ha.contents
  have hA := handles_calculator
  have hvalue {e : Expr Operand} (he : e.IsRational) (hok : e.Sound Operand.IsNumeric fun _ => True)
      {w : Value Operand} (h : e.value calculator scope = .ok w) :
      ∃ a, w = .one a ∧ a.IsNumeric := by
    obtain ⟨a, rfl⟩ := exists_one_of_value hone hs.isSingle he hok h
    have hover : e.Over calculator Atom.IsPlain (fun _ => False) := he.over
    exact ⟨a, rfl, ok_of_value hA hone (fun _ _ => isNumeric_constant)
      (fun x _ _ => hs.items x) hover hok h a (List.mem_singleton.mpr rfl)⟩
  induction e with
  | atom x =>
      cases x with
      | number a => exact ⟨fun _ => trivial, fun _ => ⟨_, rfl⟩⟩
      | scaled x c =>
          simp only [Expr.value, Expr.atomValue, Expr.IsDefined]
          cases hx : scope.value? x with
          | none => simp
          | some v =>
              obtain ⟨w, hw, -⟩ := (yields_valueMapM fun a ha =>
                handles_calculator_nonzero.multiply hok (hs.items x v hx a ha)).exists_ok
              exact ⟨fun _ => rfl, fun _ => ⟨w, hw⟩⟩
      | constant x =>
          simp only [Expr.value, Expr.atomValue, Expr.IsDefined]
          cases calculator.constant? x <;> simp
      | list items => exact he.elim
      | stray a => exact he.elim
  | node l op r ihl ihr =>
      obtain ⟨hop, hl, hr⟩ := he
      obtain ⟨hlok, hrok, -⟩ := hok
      constructor
      · rintro ⟨w, h⟩
        obtain ⟨x, hx, h⟩ := bind_eq_ok.mp h
        obtain ⟨y, hy, h⟩ := bind_eq_ok.mp h
        refine ⟨(ihl hl hlok).mp ⟨x, hx⟩, (ihr hr hrok).mp ⟨y, hy⟩, ?_⟩
        rintro rfl y' hy' b hb
        obtain ⟨a, rfl, ha⟩ := hvalue hl hlok hx
        obtain ⟨b', rfl, hb'⟩ := hvalue hr hrok hy
        obtain rfl : y' = .one b' := Except.ok.inj (hy'.symm.trans hy)
        obtain rfl := List.mem_singleton.mp hb
        obtain ⟨c, hc, -⟩ := map_eq_ok.mp h
        exact (divide_eq_ok_iff ha hb').mp ⟨c, hc⟩
      · rintro ⟨hld, hrd, hdiv⟩
        obtain ⟨x, hx⟩ := (ihl hl hlok).mpr hld
        obtain ⟨y, hy⟩ := (ihr hr hrok).mpr hrd
        obtain ⟨a, rfl, ha⟩ := hvalue hl hlok hx
        obtain ⟨b, rfl, hb⟩ := hvalue hr hrok hy
        have hone {c : Operand} (hc : c.IsNumeric) : ∀ d ∈ (Value.one c).items, d.IsNumeric :=
          fun d hd => List.mem_singleton.mp hd ▸ hc
        obtain ⟨w, hw, -⟩ := (yields_operate handles_calculator_nonzero hop (hone ha) (hone hb)
          fun h => hdiv h _ hy).exists_ok
        exact ⟨w, by simp only [Expr.value, hx, hy]; exact hw⟩

end Argand
