import Argand.Proofs.Simplification.Meaning

/-!
# Simplification over a field

Formulas can be evaluated over any field. There simplification never fails on a formula that has
a value, and the simplified formula has the same value.

## Main definitions

* `Argand.Arithmetic.ofField`: the arithmetic of a field.

## Main results

* `Argand.simplify_preserves_value`: simplification keeps the value of a rational formula.
-/

namespace Argand

open Simplify

variable {α K : Type} [Field K] [DecidableEq K]

/-! ### The arithmetic of a field -/

/-- The arithmetic **of a field**. Constants, numerals, texts and all that a field lacks are those
of a given arithmetic. -/
def Arithmetic.ofField (base : Arithmetic K) : Arithmetic K :=
  { base with
    zero := 0
    one := 1
    two := 1 + 1
    add := fun a b => .ok (a + b)
    subtract := fun a b => .ok (a - b)
    multiply := fun a b => .ok (a * b)
    divide := fun a b => if b = 0 then .error .divisionByZero else .ok (a / b)
    power := fun a b => if b = 1 + 1 then .ok (a * a) else base.power a b
    negate := fun a => .ok (-a)
    equals := fun a b => .ok (decide (a = b))
    contents := .one }

variable (base : Arithmetic K)

/-- The arithmetic of a field is exact. -/
theorem isExact_ofField : base.ofField.IsExact (fun a : K => a) where
  zero := rfl
  one := rfl
  two := one_add_one_eq_two
  add h := (Except.ok.inj h).symm
  subtract h := (Except.ok.inj h).symm
  multiply h := (Except.ok.inj h).symm
  divisor_ne_zero {a b c} h := by
    rintro rfl
    simp [Arithmetic.ofField] at h
  divide {a b c} h := by
    by_cases hb : b = 0
    · simp [Arithmetic.ofField, hb] at h
    · simpa [Arithmetic.ofField, hb] using h.symm
  square {a c} h := by simpa [Arithmetic.ofField] using h.symm
  negate h := (Except.ok.inj h).symm
  equals {a b t} h := by
    obtain rfl := Except.ok.inj h
    exact decide_eq_true_iff

/-- The operations of a field never fail, if no divisor is zero. -/
theorem handles_ofField :
    base.ofField.Handles (fun _ => False) (fun _ => True) (fun b => b ≠ 0) where
  zero := trivial
  one := trivial
  two := trivial
  divisor_one := one_ne_zero
  add _ _ := trivial
  subtract _ _ := trivial
  multiply _ _ := trivial
  divide {a b} _ _ hb := by simp [Arithmetic.ofField, hb]
  negate _ := trivial
  equals _ _ := trivial

variable {base}

/-! ### Values -/

/-- A value of a field operation on single numbers. -/
theorem operate_ofField {op : Operator} (hop : op.IsField) {a b v : K}
    (h : op.result? a b = some v) :
    Expr.operate base.ofField op (.one a) (.one b) = .ok (.one v) := by
  cases op with
  | divide =>
      obtain ⟨hb, rfl⟩ := Operator.result?_divide.mp h
      simp [Expr.operate, combineValues, Arithmetic.ofField, hb, Except.map]
  | add =>
      obtain rfl := Option.some.inj h
      rfl
  | subtract =>
      obtain rfl := Option.some.inj h
      rfl
  | multiply =>
      obtain rfl := Option.some.inj h
      rfl
  | power => exact hop.elim
  | plusMinus => exact hop.elim
  | other => exact hop.elim

/-- **A reading is the value** of a formula without lists, if every variable has one value. -/
theorem value_of_reads {scope : Scope K} (hs : scope.IsSingle) {squared : String → Prop}
    {e : Expr K} (he : e.Over base.ofField Atom.IsPlain squared) {v : K}
    (hv : Reads base.ofField (fun a => a) (scope.readings fun a => a) e v) :
    e.value base.ofField scope = .ok (.one v) := by
  have variable_ {x : String} {c v : K}
      (h : Reads base.ofField (fun a => a) (scope.readings fun a => a) (.scaled x c) v) :
      (Expr.scaled x c).value base.ofField scope = .ok (.one v) := by
    obtain ⟨b, hb, rfl⟩ := reads_scaled.mp h
    cases hx : scope.value? x with
    | none => simp [Scope.readings, hx] at hb
    | some w =>
        obtain ⟨a, rfl⟩ := hs x w hx
        obtain rfl : b = a := by simpa [Scope.readings, hx, Value.items] using hb
        simp only [Expr.value, Expr.atomValue, hx]
        rfl
  induction he generalizing v with
  | @atom x hx =>
      cases x with
      | number a =>
          obtain rfl := reads_number.mp hv
          rfl
      | scaled x c => exact variable_ hv
      | constant x =>
          cases hv with
          | constant ha =>
              simp only [Expr.value, Expr.atomValue]
              rw [ha]
      | list items => exact hx.elim
      | stray a => exact hx.elim
  | node hop _ _ ihl ihr =>
      obtain ⟨a, b, ha, hb, hab⟩ := reads_node.mp hv
      simp only [Expr.value, ihl ha, ihr hb]
      exact operate_ofField hop hab
  | square _ =>
      obtain ⟨a, b, ha, hb, hab⟩ := reads_node.mp hv
      obtain rfl := reads_number.mp hb
      obtain rfl : a * a = v := by
        simpa [Operator.result?, Arithmetic.ofField, one_add_one_eq_two] using hab
      have htwo : (Expr.number base.ofField.two).value base.ofField scope = .ok (.one (1 + 1)) :=
        rfl
      rw [Expr.squareOf, Expr.value, plain, variable_ ha, htwo]
      simp [Arithmetic.ofField, Expr.operate, combineValues, Except.map, bind, Except.bind]

/-! ### Simplification -/

/-- A formula that reads a nonzero element can be divided by. -/
theorem divides_of_reads {ρ : String → List K} {e : Expr K} {v : K}
    (h : Reads base.ofField (fun a => a) ρ e v) (hv : v ≠ 0) : e.Divides (fun b => b ≠ 0) := by
  cases h with
  | number a => exact hv
  | scaled _ => exact left_ne_zero_of_mul hv
  | constant _ => trivial
  | list _ => trivial
  | node _ _ _ => trivial

/-- **Simplification succeeds** on every rational formula that has a reading. -/
theorem exists_simplify {scope : Scope K} {ρ : String → List K}
    (hρ : scope.Respects (fun a => a) ρ) {e : Expr K} (he : e.IsRational) {v : K}
    (hv : Reads base.ofField (fun a => a) ρ e v) :
    ∃ e', e.simplify base.ofField scope = .ok e' ∧ e'.Sound (fun _ => True) (fun b => b ≠ 0) := by
  have hA := handles_ofField base
  induction e generalizing v with
  | atom x =>
      refine (yields_atom hA (fun _ _ _ _ _ => trivial) ?_).exists_ok
      cases x <;> simp [Atom.All]
  | node l op r ihl ihr =>
      obtain ⟨a, b, ha, hb, hab⟩ := reads_node.mp hv
      obtain ⟨l', hl', hls⟩ := ihl he.2.1 ha
      obtain ⟨r', hr', hrs⟩ := ihr he.2.2 hb
      have hdiv : op = .divide → r'.Divides (fun b => b ≠ 0) := by
        rintro rfl
        have hover : r.Over base.ofField Atom.IsPlain (fun _ => False) := he.2.2.over
        have hb' := reads_simplify (isExact_ofField base) hρ (fun _ hx => hx.elim) hover hr' hb
        exact divides_of_reads hb' (Operator.result?_divide.mp hab).1
      obtain ⟨e', he', hes⟩ := (yields_rule hA he.1.ne_power hls hrs hdiv).exists_ok
      exact ⟨e', by simp only [Expr.simplify, hl', hr']; exact he', hes⟩

/-- **Simplification preserves meaning** over a field. If a rational formula has a value under an
assignment that extends a scope, then it can be simplified in the scope, and the simplified
formula has the same value. -/
theorem simplify_preserves_value (base : Arithmetic K) {scope assignment : Scope K}
    (hsingle : assignment.IsSingle)
    (hext : ∀ x v, scope.value? x = some v → assignment.value? x = some v)
    {e : Expr K} (he : e.IsRational) {w : Value K}
    (hw : e.value base.ofField assignment = .ok w) :
    ∃ e', e.simplify base.ofField scope = .ok e' ∧
      e'.value base.ofField assignment = .ok w := by
  have hA := isExact_ofField base
  have hone : ∀ a : K, True → base.ofField.contents a = .one a := fun _ _ => rfl
  have hover : e.Over base.ofField Atom.IsPlain (fun _ => False) := he.over
  have hρ : scope.Respects (fun a => a) (assignment.readings fun a => a) := by
    constructor
    · intro x w hx
      simp [Scope.readings, hext x w hx]
    · intro x _ a ha b hb
      cases hx : assignment.value? x with
      | none => simp [Scope.readings, hx] at ha
      | some w =>
          obtain ⟨c, rfl⟩ := hsingle x w hx
          simp only [Scope.readings, hx, Option.map_some, Option.getD_some, Value.items,
            List.map_cons, List.map_nil, List.mem_singleton] at ha hb
          rw [ha, hb]
  obtain ⟨v, rfl⟩ := exists_one_of_value hone hsingle he e.sound_true hw
  have hreads := reads_of_value hA hone trivial hover e.sound_true hw v
    (List.mem_singleton.mpr rfl)
  obtain ⟨e', he', -⟩ := exists_simplify hρ he hreads
  have hplain : e'.Over base.ofField Atom.IsPlain (fun _ => True) :=
    over_simplify leafKind_isPlain
      (fun x hx e h => over_simplifyAtom (fun y w hy => hsingle y w (hext y w hy)) hx h)
      (fun _ hx => hx.elim)
      hover he'
  refine ⟨e', he', value_of_reads hsingle hplain ?_⟩
  exact (reads_simplify hA hρ (fun _ hx => hx.elim) hover he' hreads).mono
    fun x b hb => (Scope.mem_of_mem_free hb).2

/-- The rational numbers, with no constants. -/
def rationals : Arithmetic ℚ where
  zero := 0
  one := 1
  two := 2
  literal _ := 0
  constant? _ := none
  add _ _ := .error .divisionByZero
  subtract _ _ := .error .divisionByZero
  multiply _ _ := .error .divisionByZero
  divide _ _ := .error .divisionByZero
  power _ _ := .error .divisionByZero
  negate _ := .error .divisionByZero
  log _ := .error .logarithmOfZero
  roots _ _ := .error .logarithmOfZero
  equals _ _ := .error .divisionByZero
  contents := .one
  describe := toString
  spell := toString
  kind _ := "rational"

/-- The formula `y * y / (x - 1)` for `x = 3`, with `y = 4`. -/
theorem simplify_preserves_value_quotient :
    ∃ e', (Expr.node (.node (.scaled "y" 1) .multiply (.scaled "y" 1)) .divide
        (.node (.scaled "x" 1) .subtract (.number 1))).simplify rationals.ofField
          [("x", some (.one 3))] = .ok e' ∧
      e'.value rationals.ofField [("x", some (.one 3)), ("y", some (.one 4))] =
        .ok (.one 8) := by
  refine simplify_preserves_value rationals ?_ ?_ (by decide) (by decide +kernel)
  · intro x v h
    obtain ⟨-, rfl⟩ | ⟨-, rfl⟩ : x = "x" ∧ v = .one 3 ∨ x = "y" ∧ v = .one 4 := by
      simpa using Scope.mem_of_value? h
    all_goals exact ⟨_, rfl⟩
  · intro x v h
    obtain ⟨rfl, rfl⟩ : x = "x" ∧ v = .one 3 := by simpa using Scope.mem_of_value? h
    rfl

end Argand
