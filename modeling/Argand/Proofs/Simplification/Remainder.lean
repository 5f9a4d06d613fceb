import Argand.Primitive
import Argand.Proofs.Simplification.Rewriting

/-!
# What remains of a formula

Simplification brings in no variables, and it replaces all those that have a value. So what
remains are variables of the formula that the scope leaves unbound. Simplified once more, a formula
is left alone if the rules leave all its nodes alone.

## Main definitions

* `Argand.Expr.IsFixed`: formulas that the rules leave alone.

## Main results

* `Argand.Rewrites.names_subset`: an identity brings in no names.
* `Argand.simplify_induction`: what the rules keep holds of simplified formulas.
* `Argand.unbound_of_simplify`: simplification leaves unbound names of the formula.
* `Argand.simplify_eliminates_scope`: the same for every scope, and for each rule.
* `Argand.Expr.IsFixed.simplify_eq`: a fixed formula is left alone.
-/

namespace Argand

open Simplify

variable {α : Type} {A : Arithmetic α}

/-! ### Names -/

/-- A number in front of a formula brings in no names. -/
theorem names_scaledBy {c : α} {e e' : Expr α} (h : scaledBy A c e = .ok e') :
    e'.names ⊆ e.names := by
  obtain ⟨-, rfl⟩ | ⟨-, rfl⟩ | ⟨-, -, rfl⟩ := scaledBy_cases h
  · exact List.nil_subset _
  · exact List.Subset.refl _
  · exact List.Subset.refl _

/-- **An identity brings in no names.** -/
theorem Rewrites.names_subset {op : Operator} {l r e : Expr α} (h : Rewrites A op l r e) :
    e.names ⊆ l.names ++ r.names := by
  induction h with
  | kept => exact List.Subset.refl _
  | addNumbers | divideNumbers | divideSame | multiplyNumbers | zeroMultiply | multiplyZero
  | powerZero | powerNumbers => exact List.nil_subset _
  | zeroAdd | oneMultiply => exact List.Subset.refl _
  | addZero | divideOne | multiplyOne | powerOne => exact List.subset_append_left _ _
  | divideScaledNumber | multiplyScaledNumber | multiplyNumberScaled =>
      exact List.Subset.refl _
  | foldOuterFirst _ _ _ _ _ ih => exact ih
  | foldOuterSecond _ _ _ _ _ ih => exact List.Subset.trans ih (List.subset_append_left _ _)
  | foldInnerFirst _ _ _ _ _ ih => exact List.Subset.trans ih (List.subset_append_left _ _)
  | foldInnerSecond _ _ _ _ _ _ ih =>
      exact List.Subset.trans (List.Subset.trans ih (List.subset_append_left _ _))
        (List.subset_append_left _ _)
  | divideScaled _ _ he | multiplyScaled _ _ he => exact names_scaledBy he
  | multiplySame _ he => exact List.Subset.trans (names_scaledBy he) (List.subset_append_left _ _)
  | divideSum _ _ _ _ iha ihb ihe | multiplySum _ _ _ _ iha ihb ihe
  | sumMultiply _ _ _ _ iha ihb ihe | powerProduct _ _ _ iha ihb ihe
  | powerQuotient _ _ _ iha ihb ihe => grind [Expr.names]
  | multiplyNumber _ ih => exact List.Subset.trans ih (List.subset_append_left _ _)
  | absorbFirst _ _ _ ihy ihe | absorbSecond _ _ _ ihy ihe | absorbDividend _ _ _ ihy ihe =>
      grind [Expr.names]
  | powerPower _ _ ihp ihe => grind [Expr.names]

/-! ### Simplified formulas -/

/-- A value is a leaf without variables. -/
theorem exists_ofValue_eq_atom (v : Value α) :
    ∃ x : Atom α, Expr.ofValue v = .atom x ∧ (Expr.atom x).names = [] := by
  cases v with
  | one a => exact ⟨_, rfl, rfl⟩
  | many items => rcases items with - | ⟨a, - | ⟨b, rest⟩⟩ <;> exact ⟨_, rfl, rfl⟩

@[simp] theorem names_ofValue (v : Value α) : (Expr.ofValue v).names = [] := by
  obtain ⟨x, hx, hnames⟩ := exists_ofValue_eq_atom v
  rw [hx, hnames]

/-- A simplified leaf is a leaf. -/
theorem exists_atom_of_simplify {scope : Scope α} {x : Atom α} {e : Expr α}
    (h : (Expr.atom x).simplify A scope = .ok e) : ∃ y : Atom α, e = .atom y := by
  obtain ⟨rfl, -⟩ | ⟨-, -, -, w, -, -, -, rfl⟩ := atom_cases h
  · exact ⟨x, rfl⟩
  · obtain ⟨y, hy, -⟩ := exists_ofValue_eq_atom w
    exact ⟨y, hy⟩

/-- **What the rules keep holds of every simplified formula**, if it holds of leaves. -/
theorem simplify_induction {P : Expr α → Prop} (hatom : ∀ x : Atom α, P (.atom x))
    (hrule : ∀ {op : Operator} {l r e : Expr α}, rule A op l r = .ok e → P l → P r → P e)
    {scope : Scope α} {e e' : Expr α} (h : e.simplify A scope = .ok e') : P e' := by
  induction e generalizing e' with
  | atom x =>
      obtain ⟨y, rfl⟩ := exists_atom_of_simplify h
      exact hatom y
  | node l op r ihl ihr =>
      obtain ⟨l', hl, h⟩ := bind_eq_ok.mp h
      obtain ⟨r', hr, h⟩ := bind_eq_ok.mp h
      exact hrule h (ihl hl) (ihr hr)

/-- **Simplification leaves unbound names** of the formula, and no others. -/
theorem unbound_of_simplify {scope : Scope α} {e e' : Expr α}
    (h : e.simplify A scope = .ok e') : ∀ y ∈ e'.names, y ∈ e.names ∧ scope.value? y = none := by
  induction e generalizing e' with
  | atom x =>
      obtain ⟨rfl, hnone⟩ | ⟨-, -, -, w, -, -, -, rfl⟩ := atom_cases h
      · exact fun y hy => ⟨hy, hnone y hy⟩
      · simp
  | node l op r ihl ihr =>
      obtain ⟨l', r', hl, hr, hrw⟩ := rewrites_of_simplify h
      intro y hy
      obtain hy | hy := List.mem_append.mp (hrw.names_subset hy)
      · exact (ihl hl y hy).imp_left (List.mem_append_left _)
      · exact (ihr hr y hy).imp_left (List.mem_append_right _)

variable (A) in
/-- **Simplification eliminates the scope and invents nothing**: what remains are variables of the
formula that the scope leaves unbound, so none that it binds, and each rule keeps to the variables
of its operands. -/
theorem simplify_eliminates_scope :
    (∀ (scope : Scope α) (e e' : Expr α), e.simplify A scope = .ok e' →
      (∀ x ∈ e'.names, x ∈ e.names ∧ scope.value? x = none) ∧
        ∀ x v, scope.value? x = some v → x ∉ e'.names) ∧
    ∀ l r e : Expr α,
      (multiply A l r = .ok e → e.names ⊆ l.names ++ r.names) ∧
      (divide A l r = .ok e → e.names ⊆ l.names ++ r.names) ∧
      (∀ s, combine A s l r = .ok e → e.names ⊆ l.names ++ r.names) ∧
      (raise A l r = .ok e → e.names ⊆ l.names ++ r.names) := by
  constructor
  · intro scope e e' h
    refine ⟨unbound_of_simplify h, fun x v hv hx => ?_⟩
    cases (unbound_of_simplify h x hx).2.symm.trans hv
  · intro l r e
    refine ⟨fun h => ?_, fun h => ?_, fun s h => ?_, fun h => ?_⟩
    · exact (rewrites_of_multiply h).names_subset
    · exact (rewrites_of_divide h).names_subset
    · exact (rewrites_of_combine s.sign?_operator h).names_subset
    · exact (rewrites_of_raise h).names_subset

/-- Of `x + y` with two values of `x` the name `y` remains. -/
theorem simplify_eliminates_scope_list :
    let values : Value Operand := .many [.number ⟨2, 0⟩, .number ⟨3, 0⟩]
    let scope : Scope Operand := [("x", some values)]
    let e := Expr.node (plain calculator "x") .add (plain calculator "y")
    ∃ e', e.simplify calculator scope = .ok e' ∧ e'.names = ["y"] ∧
      (∀ x ∈ e'.names, x ∈ e.names ∧ scope.value? x = none) ∧
      ∀ x v, scope.value? x = some v → x ∉ e'.names := by
  intro values scope e
  have hvalues : values.mapM (calculator.multiply calculator.one) = .ok values := by
    have htwo : calculator.multiply calculator.one (.number ⟨2, 0⟩) = .ok (.number ⟨2, 0⟩) :=
      congrArg (·.map Operand.number) (by decide +kernel :
        Primitive.multiply calculator.one (.number ⟨2, 0⟩) = .ok ⟨2, 0⟩)
    have hthree : calculator.multiply calculator.one (.number ⟨3, 0⟩) = .ok (.number ⟨3, 0⟩) :=
      congrArg (·.map Operand.number) (by decide +kernel :
        Primitive.multiply calculator.one (.number ⟨3, 0⟩) = .ok ⟨3, 0⟩)
    simp only [values, Value.mapM, List.mapM_cons, htwo, hthree]
    rfl
  have hx : (plain calculator "x").simplify calculator scope = .ok (.ofValue values) := by
    have hvalue : scope.value? "x" = some values := rfl
    simp only [plain, Expr.simplify, Simplify.atom, hvalue, hvalues]
    rfl
  have h : e.simplify calculator scope =
      .ok (.node (.ofValue values) .add (plain calculator "y")) := by
    simp only [e, Expr.simplify, hx]
    rfl
  exact ⟨_, h, rfl, (simplify_eliminates_scope calculator).1 scope e _ h⟩

variable (A) in
/-- A **fixed** formula: the rules leave all its nodes alone. -/
def Expr.IsFixed : Expr α → Prop
  | .atom _ => True
  | .node l op r => rule A op l r = .ok (.node l op r) ∧ l.IsFixed ∧ r.IsFixed

/-- **A fixed formula is left alone** in a scope that leaves its variables unbound. -/
theorem Expr.IsFixed.simplify_eq {scope : Scope α} {e : Expr α} (he : e.IsFixed A)
    (hnames : ∀ y ∈ e.names, scope.value? y = none) : e.simplify A scope = .ok e := by
  induction e with
  | atom x =>
      cases x with
      | scaled x c => simp [Expr.simplify, Simplify.atom, hnames x (List.mem_singleton.mpr rfl)]
      | _ => rfl
  | node l op r ihl ihr =>
      obtain ⟨hfixed, hl, hr⟩ := he
      simp only [Expr.simplify, ihl hl fun y hy => hnames y (List.mem_append_left _ hy),
        ihr hr fun y hy => hnames y (List.mem_append_right _ hy)]
      exact hfixed

end Argand
