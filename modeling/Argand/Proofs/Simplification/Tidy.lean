import Argand.Proofs.Simplification.Leaves
import Argand.Proofs.Simplification.Remainder

/-!
# Tidy formulas

No identity applies to the nodes of a simplified formula, as long as variables are not
multiplied with each other: then it is tidy, and simplifying it once more changes nothing.

## Main definitions

* `Argand.Expr.IsTidy`: formulas of inert nodes.
* `Argand.Expr.unbound`: the variables of a formula that a scope leaves unbound.

## Main results

* `Argand.Rewrites.isTidy`: an identity of tidy operands gives a tidy formula.
* `Argand.isTidy_simplify`: formulas with one unbound variable at most become tidy.
* `Argand.Expr.IsTidy.simplify_eq`: a tidy formula is left alone.
-/

namespace Argand

open Simplify

variable {α : Type}

/-! ### Tidy formulas -/

/-- A product or a quotient. -/
def Operator.IsProduct : Operator → Prop
  | .multiply | .divide => True
  | .add | .subtract | .power | .plusMinus | .other _ => False

/-- A sum is no product. -/
theorem Operator.not_isProduct_of_sign? {op : Operator} {s : Sign} (h : op.sign? = some s) :
    ¬ op.IsProduct := by
  obtain rfl := Operator.eq_operator_of_sign? h
  cases s <;> exact id

/-- A kind of operators of a field to which the sums belong. -/
structure OperatorKind (ops : Operator → Prop) : Prop where
  field : ∀ {op}, ops op → op.IsField
  sum : ∀ s : Sign, ops s.operator

theorem operatorKind_isField : OperatorKind Operator.IsField :=
  ⟨id, Sign.isField_operator⟩

variable (A : Arithmetic α) (ops : Operator → Prop)

/-- A **tidy** formula: its operators are of a kind, its nodes are inert, and of the operands of a
product or a quotient one has no variable. -/
def Expr.IsTidy : Expr α → Prop
  | .atom _ => True
  | .node l op r => ops op ∧ Inert A op l r ∧ (op.IsProduct → l.names = [] ∨ r.names = []) ∧
      l.IsTidy ∧ r.IsTidy

/-- The operators in a formula are of a kind. -/
def Expr.HasOperators : Expr α → Prop
  | .atom _ => True
  | .node l op r => ops op ∧ l.HasOperators ∧ r.HasOperators

variable {A ops}

instance Expr.decidableHasOperators (ops : Operator → Prop) [DecidablePred ops] :
    (e : Expr α) → Decidable (e.HasOperators ops)
  | .atom _ => inferInstanceAs (Decidable True)
  | .node l op r =>
      have := decidableHasOperators ops l
      have := decidableHasOperators ops r
      inferInstanceAs (Decidable (ops op ∧ l.HasOperators ops ∧ r.HasOperators ops))

/-- The operators of a tidy formula are of its kind. -/
theorem Expr.IsTidy.hasOperators {e : Expr α} (he : e.IsTidy A ops) :
    e.HasOperators ops := by
  induction e with
  | atom x => trivial
  | node l op r ihl ihr => exact ⟨he.1, ihl he.2.2.2.1, ihr he.2.2.2.2⟩

/-- The operands of a formula without variables have none. -/
theorem Expr.names_eq_nil_of_node {l r : Expr α} {op : Operator}
    (h : (Expr.node l op r).names = []) : l.names = [] ∧ r.names = [] :=
  List.append_eq_nil_iff.mp h

theorem Expr.closed_left {l r : Expr α} {op : Operator} (h : (Expr.node l op r).names = []) :
    l.names = [] :=
  (Expr.names_eq_nil_of_node h).1

theorem Expr.closed_right {l r : Expr α} {op : Operator} (h : (Expr.node l op r).names = []) :
    r.names = [] :=
  (Expr.names_eq_nil_of_node h).2

theorem Expr.length_names_node (l : Expr α) (op : Operator) (r : Expr α) :
    (Expr.node l op r).names.length = l.names.length + r.names.length :=
  List.length_append

/-- A formula whose names are among none has no variables. -/
theorem names_eq_nil_of_forall {names : List String} {e : Expr α}
    (h : ∀ y ∈ e.names, y ∈ names) (hnone : names = []) : e.names = [] :=
  List.eq_nil_of_subset_nil (hnone ▸ h)

/-- A formula made from formulas without variables has none. -/
theorem Rewrites.names_eq_nil {op : Operator} {l r e : Expr α} (h : Rewrites A op l r e)
    (hl : l.names = []) (hr : r.names = []) : e.names = [] :=
  names_eq_nil_of_forall h.names_subset (by rw [hl, hr, List.append_nil])

/-- A number that is taken up by a leaf without variables is taken up by a number. -/
theorem Rewrites.exists_number {n : α} {x y : Atom α}
    (h : Rewrites A .multiply (.number n) (.atom x) (.atom y)) (hx : x.TakesUp)
    (hnames : (Expr.atom x).names = []) : ∃ m k, x = .number m ∧ y = .number k := by
  cases x with
  | number m => cases h <;> exact ⟨_, _, rfl, rfl⟩
  | scaled => cases hnames
  | constant => exact hx.elim
  | list => exact hx.elim
  | stray => exact hx.elim

/-- **An identity of tidy operands gives a tidy formula**, if no variables are multiplied. -/
theorem Rewrites.isTidy (hops : OperatorKind ops) {op : Operator} {l r e : Expr α}
    (h : Rewrites A op l r e) (hop : ops op)
    (hone : op.IsProduct → l.names = [] ∨ r.names = []) (hl : l.IsTidy A ops)
    (hr : r.IsTidy A ops) : e.IsTidy A ops := by
  have sum {s : Sign} {l r : Expr α} : s.operator.IsProduct → l.names = [] ∨ r.names = [] :=
    fun h => absurd h (Operator.not_isProduct_of_sign? s.sign?_operator)
  induction h with
  | kept hi => exact ⟨hop, hi, hone, hl, hr⟩
  | addNumbers _ _ => trivial
  | zeroAdd _ => exact hr
  | addZero _ _ => exact hl
  | foldOuterFirst _ _ _ _ _ ih => exact ih (hops.sum _) sum trivial hr.2.2.2.2
  | foldOuterSecond _ _ _ _ _ ih => exact ih (hops.sum _) sum trivial hr.2.2.2.1
  | foldInnerFirst _ _ _ _ _ ih => exact ih (hops.sum _) sum trivial hl.2.2.2.2
  | foldInnerSecond _ _ _ _ _ _ ih =>
      exact ih (hops.sum .plus) (sum (s := .plus)) trivial hl.2.2.2.1
  | divideNumbers _ => trivial
  | divideOne _ => exact hl
  | divideSame _ => trivial
  | divideScaled _ _ _ => exact absurd (hone trivial) (by simp [Expr.names])
  | divideScaledNumber _ => trivial
  | divideSum hs _ _ _ iha ihb ihe =>
      obtain ⟨hop', -, -, ha, hb⟩ := hl
      refine ihe hop' (fun h => absurd h (Operator.not_isProduct_of_sign? hs)) ?_ ?_
      · exact iha hop (fun h => (hone h).imp_left Expr.closed_left) ha hr
      · exact ihb hop (fun h => (hone h).imp_left Expr.closed_right) hb hr
  | multiplyNumbers _ => trivial
  | oneMultiply _ => exact hr
  | multiplyOne _ => exact hl
  | zeroMultiply _ _ => trivial
  | multiplyZero _ _ => trivial
  | multiplySame _ _ => exact absurd (hone trivial) (by simp [Expr.names])
  | multiplyScaled _ _ _ => exact absurd (hone trivial) (by simp [Expr.names])
  | multiplyScaledNumber _ _ => trivial
  | multiplyNumberScaled _ _ => trivial
  | multiplySum hs _ _ _ iha ihb ihe =>
      obtain ⟨hop', -, -, ha, hb⟩ := hr
      refine ihe hop' (fun h => absurd h (Operator.not_isProduct_of_sign? hs)) ?_ ?_
      · exact iha hop (fun h => (hone h).imp_right Expr.closed_left) hl ha
      · exact ihb hop (fun h => (hone h).imp_right Expr.closed_right) hl hb
  | sumMultiply hs _ _ _ iha ihb ihe =>
      obtain ⟨hop', -, -, ha, hb⟩ := hl
      refine ihe hop' (fun h => absurd h (Operator.not_isProduct_of_sign? hs)) ?_ ?_
      · exact iha hop (fun h => (hone h).imp_left Expr.closed_left) ha hr
      · exact ihb hop (fun h => (hone h).imp_left Expr.closed_right) hb hr
  | multiplyNumber _ ih => exact ih hop (fun h => (hone h).symm) hr hl
  | absorbFirst _ hy _ ihy ihe =>
      obtain ⟨-, -, hpart, hx, hb⟩ := hr
      refine ihe hop (fun _ => ?_) (ihy hop (fun _ => .inl rfl) hl hx) hb
      exact (hpart trivial).imp_left (hy.names_eq_nil rfl)
  | absorbSecond _ hy _ ihy ihe =>
      obtain ⟨-, -, hpart, ha, hx⟩ := hr
      refine ihe hop (fun _ => ?_) ha (ihy hop (fun _ => .inl rfl) hl hx)
      exact (hpart trivial).imp_right (hy.names_eq_nil rfl)
  | absorbDividend _ hy _ ihy ihe =>
      obtain ⟨hdiv, -, hpart, hx, hb⟩ := hr
      refine ihe hdiv (fun _ => ?_) (ihy hop (fun _ => .inl rfl) hl hx) hb
      exact (hpart trivial).imp_left (hy.names_eq_nil rfl)
  | powerZero _ => exact (hops.field hop).elim
  | powerOne _ => exact (hops.field hop).elim
  | powerNumbers _ => exact (hops.field hop).elim
  | powerProduct _ _ _ _ _ _ => exact (hops.field hop).elim
  | powerQuotient _ _ _ _ _ _ => exact (hops.field hop).elim
  | powerPower _ _ _ _ => exact (hops.field hop).elim

/-! ### Simplified formulas -/

/-- The occurrences of variables that a scope leaves **unbound**. -/
def Expr.unbound (scope : Scope α) (e : Expr α) : List String :=
  e.names.filter fun x => (scope.value? x).isNone

theorem Expr.unbound_node {scope : Scope α} {l r : Expr α} {op : Operator} :
    (Expr.node l op r).unbound scope = l.unbound scope ++ r.unbound scope :=
  List.filter_append ..

/-- Nothing is unbound if the scope has a value for every name. -/
theorem Expr.unbound_eq_nil {scope : Scope α} {e : Expr α} :
    e.unbound scope = [] ↔ ∀ x ∈ e.names, (scope.value? x).isSome := by
  simp [Expr.unbound, Option.isSome_iff_ne_none]

/-- Every name is unbound if the scope has no value for any. -/
theorem Expr.unbound_eq_names {scope : Scope α} {e : Expr α}
    (h : ∀ x ∈ e.names, scope.value? x = none) : e.unbound scope = e.names :=
  List.filter_eq_self.mpr fun x hx => by rw [h x hx, Option.isNone_none]

/-- A value is tidy. -/
theorem isTidy_ofValue (v : Value α) : (Expr.ofValue v).IsTidy A ops := by
  obtain ⟨x, hx, -⟩ := exists_ofValue_eq_atom v
  rw [hx]
  trivial

/-- Of two formulas with one occurrence of an unbound variable at most, one has none. -/
theorem names_eq_nil_or {scope : Scope α} {l r l' r' : Expr α}
    (hone : (l.unbound scope).length + (r.unbound scope).length ≤ 1)
    (hl : ∀ y ∈ l'.names, y ∈ l.unbound scope) (hr : ∀ y ∈ r'.names, y ∈ r.unbound scope) :
    l'.names = [] ∨ r'.names = [] := by
  obtain h | h : (l.unbound scope).length = 0 ∨ (r.unbound scope).length = 0 := by omega
  · exact .inl (names_eq_nil_of_forall hl (List.length_eq_zero_iff.mp h))
  · exact .inr (names_eq_nil_of_forall hr (List.length_eq_zero_iff.mp h))

/-- **Simplification gives a tidy formula** with no names but the unbound ones, if there is one of
these at most. -/
theorem isTidy_simplify (hops : OperatorKind ops) {scope : Scope α} {e e' : Expr α}
    (he : e.HasOperators ops) (hone : (e.unbound scope).length ≤ 1)
    (h : e.simplify A scope = .ok e') :
    e'.IsTidy A ops ∧ ∀ y ∈ e'.names, y ∈ e.unbound scope := by
  induction e generalizing e' with
  | atom x =>
      obtain ⟨rfl, hnone⟩ | ⟨-, -, -, w, -, -, -, rfl⟩ := atom_cases h
      · rw [Expr.unbound_eq_names hnone]
        exact ⟨trivial, fun y hy => hy⟩
      · exact ⟨isTidy_ofValue w, by simp⟩
  | node l op r ihl ihr =>
      rw [Expr.unbound_node, List.length_append] at hone
      obtain ⟨l', r', hl, hr, hrw⟩ := rewrites_of_simplify h
      obtain ⟨hl', hln⟩ := ihl he.2.1 (by omega) hl
      obtain ⟨hr', hrn⟩ := ihr he.2.2 (by omega) hr
      refine ⟨hrw.isTidy hops he.1 (fun _ => names_eq_nil_or hone hln hrn) hl' hr', fun y hy => ?_⟩
      rw [Expr.unbound_node]
      exact List.mem_append.mpr ((List.mem_append.mp (hrw.names_subset hy)).imp (hln y) (hrn y))

/-- A tidy formula is fixed. -/
theorem Expr.IsTidy.isFixed {e : Expr α} (he : e.IsTidy A ops) : e.IsFixed A := by
  induction e with
  | atom x => trivial
  | node l op r ihl ihr =>
      obtain ⟨-, hinert, -, hl, hr⟩ := he
      exact ⟨hinert.fixed, ihl hl, ihr hr⟩

/-- **A tidy formula is left alone** in a scope that leaves its variables unbound. -/
theorem Expr.IsTidy.simplify_eq {scope : Scope α} {e : Expr α} (he : e.IsTidy A ops)
    (hnames : ∀ y ∈ e.names, scope.value? y = none) : e.simplify A scope = .ok e :=
  he.isFixed.simplify_eq hnames

end Argand
