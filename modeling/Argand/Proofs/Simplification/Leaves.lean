import Argand.Proofs.Simplification.Rewriting

/-!
# What simplified formulas are made of

Simplification of a formula over the four operators of a field leaves these operators, the
squares of variables and leaves of the same kinds.

## Main definitions

* `Argand.Operator.IsField`: the four operators.
* `Argand.Expr.IsRational`: formulas over them, with plain leaves.
* `Argand.Expr.Over`: formulas over them and squares, with leaves of a given kind.

## Main results

* `Argand.Rewrites.over`: an identity brings in no other leaves or operators.
-/

namespace Argand

open Simplify

variable {α : Type}

/-! ### Rational formulas -/

/-- The operators of a **field**. -/
def Operator.IsField : Operator → Prop
  | .add | .subtract | .multiply | .divide => True
  | .power | .plusMinus | .other _ => False

/-- A **plain** leaf: a number, a multiple of a variable or a constant. -/
def Atom.IsPlain : Atom α → Prop
  | .number _ | .scaled .. | .constant _ => True
  | .list _ | .stray _ => False

/-- A formula is **rational** if it is built from plain leaves by the operators of a field. -/
def Expr.IsRational : Expr α → Prop
  | .atom x => x.IsPlain
  | .node l op r => op.IsField ∧ l.IsRational ∧ r.IsRational

instance : (op : Operator) → Decidable op.IsField
  | .add | .subtract | .multiply | .divide => .isTrue trivial
  | .power | .plusMinus | .other _ => .isFalse id

instance : (x : Atom α) → Decidable x.IsPlain
  | .number _ | .scaled .. | .constant _ => .isTrue trivial
  | .list _ | .stray _ => .isFalse id

/-- Rationality is decided leaf by leaf. -/
instance Expr.decidableIsRational : (e : Expr α) → Decidable e.IsRational
  | .atom x => inferInstanceAs (Decidable x.IsPlain)
  | .node l op r =>
      have := decidableIsRational l
      have := decidableIsRational r
      inferInstanceAs (Decidable (op.IsField ∧ l.IsRational ∧ r.IsRational))

theorem Operator.IsField.ne_power {op : Operator} (h : op.IsField) : op ≠ .power := by
  rintro rfl
  exact h

/-- Sums and differences are operators of a field. -/
theorem Operator.isField_of_sign? {op : Operator} {s : Sign} (h : op.sign? = some s) :
    op.IsField := by
  obtain rfl := Operator.eq_operator_of_sign? h
  cases s <;> trivial

@[simp] theorem Sign.isField_operator (s : Sign) : s.operator.IsField :=
  Operator.isField_of_sign? s.sign?_operator

/-! ### Leaves and squares -/

/-- The square of a variable, as simplification writes it. -/
def Expr.squareOf (A : Arithmetic α) (x : String) : Expr α :=
  .node (plain A x) .power (.number A.two)

/-- A formula **over** a kind of leaves: they are joined by the operators of a field, and some
variables may be squared. -/
inductive Expr.Over (A : Arithmetic α) (leaf : Atom α → Prop) (squared : String → Prop) :
    Expr α → Prop
  | atom {x : Atom α} : leaf x → Over A leaf squared (.atom x)
  | node {l r : Expr α} {op : Operator} : op.IsField → Over A leaf squared l →
      Over A leaf squared r → Over A leaf squared (.node l op r)
  | square {x : String} : squared x → Over A leaf squared (squareOf A x)

/-- A kind of leaves to which numbers belong, and multiples of a variable with each other. Its
variables may be squared. -/
structure LeafKind (leaf : Atom α → Prop) (squared : String → Prop) : Prop where
  number : ∀ n, leaf (.number n)
  scaled : ∀ {x c} d, leaf (.scaled x c) → leaf (.scaled x d)
  square : ∀ {x c}, leaf (.scaled x c) → squared x

variable {A : Arithmetic α} {leaf : Atom α → Prop} {squared : String → Prop}

/-- The leaf of a formula that is one. -/
theorem Expr.Over.leaf_of {x : Atom α} (h : (Expr.atom x).Over A leaf squared) : leaf x := by
  cases h
  assumption

/-- The operands of an operator of a field. -/
theorem Expr.Over.operands {l r : Expr α} {op : Operator}
    (h : (Expr.node l op r).Over A leaf squared) (hop : op.IsField) :
    l.Over A leaf squared ∧ r.Over A leaf squared := by
  cases h with
  | node _ hl hr => exact ⟨hl, hr⟩
  | square _ => exact hop.elim

/-- A kind of leaves may be widened. -/
theorem Expr.Over.mono {leaf' : Atom α → Prop} {squared' : String → Prop} {e : Expr α}
    (h : e.Over A leaf squared) (hleaf : ∀ x, leaf x → leaf' x)
    (hsquared : ∀ x, squared x → squared' x) : e.Over A leaf' squared' := by
  induction h with
  | atom hx => exact .atom (hleaf _ hx)
  | node hop _ _ ihl ihr => exact .node hop ihl ihr
  | square hx => exact .square (hsquared _ hx)

/-- A rational formula is one over plain leaves. -/
theorem Expr.IsRational.over {e : Expr α} (h : e.IsRational) : e.Over A Atom.IsPlain squared := by
  induction e with
  | atom x => exact .atom h
  | node l op r ihl ihr => exact .node h.1 (ihl h.2.1) (ihr h.2.2)

/-- A number in front of a formula. -/
theorem over_of_scaledBy (hk : LeafKind leaf squared) {c : α} {e e' : Expr α}
    (h : scaledBy A c e = .ok e') (he : e.Over A leaf squared) : e'.Over A leaf squared := by
  obtain ⟨-, rfl⟩ | ⟨-, rfl⟩ | ⟨-, -, rfl⟩ := scaledBy_cases h
  · exact .atom (hk.number _)
  · exact he
  · exact .node trivial (.atom (hk.number _)) he

/-- **An identity brings in no leaves** of another kind, and no operators but squares. -/
theorem Rewrites.over (hk : LeafKind leaf squared) {op : Operator} {l r e : Expr α}
    (h : Rewrites A op l r e) (hop : op.IsField) (hl : l.Over A leaf squared)
    (hr : r.Over A leaf squared) :
    e.Over A leaf squared := by
  have number (n : α) : (Expr.number n).Over A leaf squared := .atom (hk.number n)
  induction h with
  | kept _ => exact .node hop hl hr
  | addNumbers _ _ => exact number _
  | zeroAdd _ => exact hr
  | addZero _ _ => exact hl
  | foldOuterFirst _ hs' _ _ _ ih =>
      exact ih (Sign.isField_operator _) (number _)
        (hr.operands (Operator.isField_of_sign? hs')).2
  | foldOuterSecond _ hs' _ _ _ ih =>
      exact ih (Sign.isField_operator _) (number _)
        (hr.operands (Operator.isField_of_sign? hs')).1
  | foldInnerFirst _ hs' _ _ _ ih =>
      exact ih (Sign.isField_operator _) (number _)
        (hl.operands (Operator.isField_of_sign? hs')).2
  | foldInnerSecond _ hs' _ _ _ _ ih =>
      exact ih trivial (number _) (hl.operands (Operator.isField_of_sign? hs')).1
  | divideNumbers _ => exact number _
  | divideOne _ => exact hl
  | divideSame _ => exact number _
  | divideScaled _ _ he =>
      exact over_of_scaledBy hk he (.node trivial (.atom (hk.scaled _ hl.leaf_of))
        (.atom (hk.scaled _ hr.leaf_of)))
  | divideScaledNumber _ => exact .atom (hk.scaled _ hl.leaf_of)
  | divideSum hs _ _ _ iha ihb ihe =>
      have hs := Operator.isField_of_sign? hs
      exact ihe hs (iha trivial (hl.operands hs).1 hr) (ihb trivial (hl.operands hs).2 hr)
  | multiplyNumbers _ => exact number _
  | oneMultiply _ => exact hr
  | multiplyOne _ => exact hl
  | zeroMultiply _ _ => exact number _
  | multiplyZero _ _ => exact number _
  | multiplySame _ he => exact over_of_scaledBy hk he (.square (hk.square hl.leaf_of))
  | multiplyScaled _ _ he =>
      exact over_of_scaledBy hk he (.node trivial (.atom (hk.scaled _ hl.leaf_of))
        (.atom (hk.scaled _ hr.leaf_of)))
  | multiplyScaledNumber _ _ => exact .atom (hk.scaled _ hl.leaf_of)
  | multiplyNumberScaled _ _ => exact .atom (hk.scaled _ hr.leaf_of)
  | multiplySum hs _ _ _ iha ihb ihe =>
      have hs := Operator.isField_of_sign? hs
      exact ihe hs (iha trivial hl (hr.operands hs).1) (ihb trivial hl (hr.operands hs).2)
  | sumMultiply hs _ _ _ iha ihb ihe =>
      have hs := Operator.isField_of_sign? hs
      exact ihe hs (iha trivial (hl.operands hs).1 hr) (ihb trivial (hl.operands hs).2 hr)
  | multiplyNumber _ ih => exact ih trivial hr hl
  | absorbFirst _ _ _ ihy ihe =>
      obtain ⟨hx, hb⟩ := hr.operands trivial
      exact ihe trivial (ihy trivial hl hx) hb
  | absorbSecond _ _ _ ihy ihe =>
      obtain ⟨ha, hx⟩ := hr.operands trivial
      exact ihe trivial ha (ihy trivial hl hx)
  | absorbDividend _ _ _ ihy ihe =>
      obtain ⟨hx, hb⟩ := hr.operands trivial
      exact ihe trivial (ihy trivial hl hx) hb
  | powerZero _ => exact hop.elim
  | powerOne _ => exact hop.elim
  | powerNumbers _ => exact hop.elim
  | powerProduct _ _ _ _ _ _ => exact hop.elim
  | powerQuotient _ _ _ _ _ _ => exact hop.elim
  | powerPower _ _ _ _ => exact hop.elim

end Argand
