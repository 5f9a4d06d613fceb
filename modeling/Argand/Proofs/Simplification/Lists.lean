import Argand.Proofs.Simplification.Tidy
import Argand.Proofs.Values

/-!
# Lists in simplified formulas

A formula with lists in it means the list of its results for all combinations of their items. An
identity keeps them, each in its place, unless a list is copied or lost: a list that is
multiplied with a sum comes to stand in each of its terms, and a product with zero is zero
whatever the other factor.

## Main definitions

* `Argand.Expr.meaning`: the results for all combinations.
* `Argand.KeepsLists`: factors whose product neither copies nor loses a list.
* `Argand.Expr.KeepsLists`: formulas with such factors only.

## Main results

* `Argand.Rewrites.meaning`: an identity keeps the results in order.
* `Argand.meaning_simplify`: so does simplification.
-/

namespace Argand

open Simplify

variable {α K : Type}

/-! ### Formulas without division -/

/-- The operators of a **ring**. -/
def Operator.IsRing : Operator → Prop
  | .add | .subtract | .multiply => True
  | .divide | .power | .plusMinus | .other _ => False

instance : (op : Operator) → Decidable op.IsRing
  | .add | .subtract | .multiply => .isTrue trivial
  | .divide | .power | .plusMinus | .other _ => .isFalse id

/-- Rings have sums. -/
theorem operatorKind_isRing : OperatorKind Operator.IsRing where
  field {op} h := by
    cases op with
    | divide => exact h.elim
    | power => exact h.elim
    | _ => trivial
  sum s := by cases s <;> trivial

/-- A sum is no product. -/
theorem Operator.ne_multiply_of_sign? {op : Operator} {s : Sign} (h : op.sign? = some s) :
    op ≠ .multiply := by
  rintro rfl
  cases h

/-! ### Lists -/

/-- A list of values. -/
def Expr.IsList : Expr α → Prop
  | .atom (.list _) => True
  | _ => False

/-- A formula with a **list** in it. -/
def Expr.HasList : Expr α → Prop
  | .atom (.list _) => True
  | .atom _ => False
  | .node l _ r => l.HasList ∨ r.HasList

instance : (e : Expr α) → Decidable e.IsList
  | .atom (.list _) => inferInstanceAs (Decidable True)
  | .atom (.number _) | .atom (.scaled ..) | .atom (.constant _) | .atom (.stray _) | .node .. =>
      inferInstanceAs (Decidable False)

instance Expr.decidableHasList : (e : Expr α) → Decidable e.HasList
  | .atom (.list _) => inferInstanceAs (Decidable True)
  | .atom (.number _) | .atom (.scaled ..) | .atom (.constant _) | .atom (.stray _) =>
      inferInstanceAs (Decidable False)
  | .node l _ r =>
      have := decidableHasList l
      have := decidableHasList r
      inferInstanceAs (Decidable (l.HasList ∨ r.HasList))

/-- Factors whose product **keeps the lists** in them: no list is multiplied with a sum, and
nothing with a list in it with zero. -/
structure KeepsLists [Field K] (val : α → K) (l r : Expr α) : Prop where
  left_sum : l.IsList → ¬ r.IsSum
  right_sum : r.IsList → ¬ l.IsSum
  left_zero : l.IsZero val → ¬ r.HasList
  right_zero : r.IsZero val → ¬ l.HasList

instance [Field K] [DecidableEq K] (val : α → K) (l r : Expr α) : Decidable (KeepsLists val l r) :=
  decidable_of_iff ((l.IsList → ¬ r.IsSum) ∧ (r.IsList → ¬ l.IsSum) ∧
    (l.IsZero val → ¬ r.HasList) ∧ (r.IsZero val → ¬ l.HasList))
    ⟨fun ⟨h₁, h₂, h₃, h₄⟩ => ⟨h₁, h₂, h₃, h₄⟩, fun ⟨h₁, h₂, h₃, h₄⟩ => ⟨h₁, h₂, h₃, h₄⟩⟩

/-- A formula **keeps its lists** in a scope if all of its factors do, once simplified. -/
def Expr.KeepsLists [Field K] (A : Arithmetic α) (val : α → K) (scope : Scope α) : Expr α → Prop
  | .atom _ => True
  | .node l op r => l.KeepsLists A val scope ∧ r.KeepsLists A val scope ∧
      (op = .multiply → Yields (fun _ => True)
        (fun l' => Yields (fun _ => True) (fun r' => Argand.KeepsLists val l' r')
          (r.simplify A scope)) (l.simplify A scope))

instance Expr.decidableKeepsLists [Field K] [DecidableEq K] (A : Arithmetic α) (val : α → K)
    (scope : Scope α) : (e : Expr α) → Decidable (e.KeepsLists A val scope)
  | .atom _ => inferInstanceAs (Decidable True)
  | .node l _ r =>
      have := decidableKeepsLists A val scope l
      have := decidableKeepsLists A val scope r
      inferInstanceAs (Decidable (_ ∧ _ ∧ (_ → Yields _ (fun _ => Yields _ (fun _ => _) _) _)))

/-! ### The meaning of a formula -/

section Meaning

variable [Field K] [DecidableEq K]

/-- The **result** of an operator of a ring. -/
def Operator.result (op : Operator) (a b : K) : K :=
  (op.result? a b).getD 0

theorem Operator.result_of_sign? {op : Operator} {s : Sign} (h : op.sign? = some s) :
    (op.result : K → K → K) = fun a b => a + s.factor * b := by
  funext a b
  simp [Operator.result, (Operator.result?_of_sign? h (v := a + s.factor * b)).mpr rfl]

@[simp] theorem Operator.result_multiply :
    (Operator.multiply.result : K → K → K) = fun a b => a * b := rfl

/-- The **meaning** of a formula without division: the results for all combinations of the items
of its lists, in the order of evaluation. Variables have a meaning `ρ`. -/
def Expr.meaning (A : Arithmetic α) (val : α → K) (ρ : String → Value K) : Expr α → Value K
  | .number a => .one (val a)
  | .scaled x c => (ρ x).map (val c * ·)
  | .atom (.constant x) => .one (((A.constant? x).map val).getD 0)
  | .atom (.list items) => .many (items.map val)
  | .atom (.stray a) => .one (val a)
  | .node l op r => .product op.result (l.meaning A val ρ) (r.meaning A val ρ)

/-- The **meanings of the variables** in a scope, where a list of one is the number in it. -/
def Scope.meanings (val : α → K) (scope : Scope α) (x : String) : Value K :=
  ((scope.value? x).map fun v => (v.map val).unwrapped).getD (.many [])

/-- A **settled** formula: it is tidy, without division, and has no variables. -/
structure Expr.IsSettled (A : Arithmetic α) (e : Expr α) : Prop where
  tidy : e.IsTidy A Operator.IsRing
  closed : e.names = []

variable {A : Arithmetic α} {val : α → K} {ρ : String → Value K}

/-- A leaf that is no variable is settled. -/
theorem Expr.IsSettled.atom {x : Atom α} (h : (Expr.atom x).names = []) :
    (Expr.atom x).IsSettled A :=
  ⟨trivial, h⟩

/-- The operands of a settled formula. -/
theorem Expr.IsSettled.operands {l r : Expr α} {op : Operator}
    (h : (Expr.node l op r).IsSettled A) : l.IsSettled A ∧ r.IsSettled A :=
  ⟨⟨h.tidy.2.2.2.1, (List.append_eq_nil_iff.mp h.closed).1⟩,
    ⟨h.tidy.2.2.2.2, (List.append_eq_nil_iff.mp h.closed).2⟩⟩

/-- An identity of settled operands gives a settled formula. -/
theorem Rewrites.isSettled {op : Operator} {l r e : Expr α} (h : Rewrites A op l r e)
    (hop : op.IsRing) (hl : l.IsSettled A) (hr : r.IsSettled A) : e.IsSettled A :=
  ⟨h.isTidy operatorKind_isRing hop (fun _ => .inl hl.closed) hl.tidy hr.tidy,
    h.names_eq_nil hl.closed hr.closed⟩

/-- A settled formula without lists means a single number. -/
theorem Expr.IsSettled.exists_meaning_eq_one (val : α → K) (ρ : String → Value K) {e : Expr α}
    (he : e.IsSettled A) (hlist : ¬ e.HasList) : ∃ u, e.meaning A val ρ = .one u := by
  induction e with
  | atom x =>
      cases x with
      | number a => exact ⟨_, rfl⟩
      | scaled x c => exact absurd he.closed (by simp [Expr.names])
      | constant x => exact ⟨_, rfl⟩
      | list items => exact absurd trivial hlist
      | stray a => exact ⟨_, rfl⟩
  | node l op r ihl ihr =>
      obtain ⟨hl, hr⟩ := he.operands
      obtain ⟨hll, hlr⟩ := not_or.mp hlist
      obtain ⟨u, hu⟩ := ihl hl hll
      obtain ⟨w, hw⟩ := ihr hr hlr
      exact ⟨op.result u w, by simp [Expr.meaning, hu, hw, Value.map]⟩

/-! ### Factors -/

omit [DecidableEq K] in
/-- The factors may change places. -/
theorem KeepsLists.symm {l r : Expr α} (h : KeepsLists val l r) : KeepsLists val r l :=
  ⟨h.right_sum, h.left_sum, h.right_zero, h.left_zero⟩

omit [Field K] [DecidableEq K] in
/-- A leaf with a list in it is the list. -/
theorem hasList_atom {x : Atom α} : (Expr.atom x).HasList ↔ (Expr.atom x).IsList := by
  cases x <;> exact Iff.rfl

omit [DecidableEq K] in
/-- A leaf that is no list keeps the lists of the other factor if it is not zero. -/
theorem KeepsLists.atom {x : Atom α} {r : Expr α} (hx : ¬ (Expr.atom x).IsList)
    (h0 : (Expr.atom x).IsZero val → ¬ r.HasList) : KeepsLists val (.atom x) r where
  left_sum h := absurd h hx
  right_sum _ := id
  left_zero := h0
  right_zero _ h := hx (hasList_atom.mp h)

omit [DecidableEq K] in
/-- A leaf that is multiplied with a sum is no list, and keeps the lists of each term. -/
theorem KeepsLists.of_sum {x : Atom α} {a b : Expr α} {op : Operator} {s : Sign}
    (h : KeepsLists val (.atom x) (.node a op b)) (hs : op.sign? = some s) :
    ¬ (Expr.atom x).IsList ∧ KeepsLists val (.atom x) a ∧ KeepsLists val (.atom x) b := by
  have hx : ¬ (Expr.atom x).IsList := fun hx => h.left_sum hx (by simp [Expr.IsSum, hs])
  exact ⟨hx, .atom hx fun h0 ha => h.left_zero h0 (.inl ha),
    .atom hx fun h0 hb => h.left_zero h0 (.inr hb)⟩

/-! ### Identities keep the meaning -/

section

variable (hA : A.IsExact val)

include hA

/-- **An identity keeps the meaning** of settled operands, unless a list is copied or lost. -/
theorem Rewrites.meaning {op : Operator} {l r e : Expr α} (h : Rewrites A op l r e)
    (hop : op.IsRing) (hl : l.IsSettled A) (hr : r.IsSettled A)
    (hk : op = .multiply → KeepsLists val l r) :
    e.meaning A val ρ = .product op.result (l.meaning A val ρ) (r.meaning A val ρ) := by
  have sum {s : Sign} {l r : Expr α} : s.operator = .multiply → KeepsLists val l r := by
    cases s <;> exact fun h => by cases h
  have sum' {l r : Expr α} : Operator.add = .multiply → KeepsLists val l r := fun h => by cases h
  have hadd : Operator.sign? .add = some .plus := rfl
  induction h with
  | kept _ => rfl
  | addNumbers hs hc =>
      simp [Expr.meaning, Operator.result_of_sign? hs, hA.apply hc, Value.map]
  | zeroAdd h0 =>
      have hn := (hA.eq_of_equals h0).trans hA.zero
      simp [Expr.meaning, Operator.result_of_sign? hadd, hn]
  | addZero hs h0 =>
      have hm := (hA.eq_of_equals h0).trans hA.zero
      simp [Expr.meaning, Operator.result_of_sign? hs, hm]
  | foldOuterFirst hs hs' hx ht _ ih =>
      rw [ih (operatorKind_isRing.sum _) (.atom rfl) hr.operands.2 sum]
      simp only [Expr.meaning, Operator.result_of_sign? hs, Operator.result_of_sign? hs',
        Operator.result_of_sign? (Sign.sign?_operator _), Value.product_one_left, Value.map_map]
      refine Value.map_congr (fun b => ?_) _
      rw [hA.add ht, hA.signed hx, Sign.factor_times]
      ring
  | foldOuterSecond hs hs' hy ht _ ih =>
      rw [ih (operatorKind_isRing.sum _) (.atom rfl) hr.operands.1 sum]
      simp only [Expr.meaning, Operator.result_of_sign? hs, Operator.result_of_sign? hs',
        Operator.result_of_sign? (Sign.sign?_operator _), Value.product_one_left,
        Value.product_one_right, Value.map_map]
      refine Value.map_congr (fun a => ?_) _
      rw [hA.add ht, hA.signed hy, Sign.factor_times]
      ring
  | foldInnerFirst hs hs' hm ht _ ih =>
      rw [ih (operatorKind_isRing.sum _) (.atom rfl) hl.operands.2 sum]
      simp only [Expr.meaning, Operator.result_of_sign? hs, Operator.result_of_sign? hs',
        Operator.result_of_sign? (Sign.sign?_operator _), Value.product_one_left,
        Value.product_one_right, Value.map_map]
      refine Value.map_congr (fun b => ?_) _
      rw [hA.add ht, hA.signed hm]
      ring
  | foldInnerSecond hs hs' hy hm ht _ ih =>
      rw [ih (operatorKind_isRing.sum .plus) (.atom rfl) hl.operands.1 sum']
      simp only [Expr.meaning, Operator.result_of_sign? hs, Operator.result_of_sign? hs',
        Operator.result_of_sign? hadd, Value.product_one_left,
        Value.product_one_right, Value.map_map]
      refine Value.map_congr (fun a => ?_) _
      rw [hA.add ht, hA.signed hy, hA.signed hm, Sign.factor_plus]
      ring
  | multiplyNumbers hc => simp [Expr.meaning, hA.multiply hc, Value.map]
  | oneMultiply h1 =>
      have hn := (hA.eq_of_equals h1).trans hA.one
      simp [Expr.meaning, hn]
  | multiplyOne h1 =>
      have hm := (hA.eq_of_equals h1).trans hA.one
      simp [Expr.meaning, hm]
  | zeroMultiply _ h0 =>
      -- the other factor is single, so that nothing is lost
      have hn := (hA.eq_of_equals h0).trans hA.zero
      obtain ⟨u, hu⟩ := hr.exists_meaning_eq_one val ρ ((hk rfl).left_zero hn)
      simp [Expr.meaning, hn, hu, hA.zero, Value.map]
  | multiplyZero _ h0 =>
      have hm := (hA.eq_of_equals h0).trans hA.zero
      obtain ⟨u, hu⟩ := hl.exists_meaning_eq_one val ρ ((hk rfl).right_zero hm)
      simp [Expr.meaning, hm, hu, hA.zero, Value.map]
  | multiplySum hs ha hb _ iha ihb ihe =>
      obtain ⟨hx, hka, hkb⟩ := (hk rfl).of_sum hs
      obtain ⟨u, hu⟩ := hl.exists_meaning_eq_one val ρ (mt hasList_atom.mp hx)
      rw [ihe hr.tidy.1 (ha.isSettled hop hl hr.operands.1) (hb.isSettled hop hl hr.operands.2)
        fun h => absurd h (Operator.ne_multiply_of_sign? hs),
        iha hop hl hr.operands.1 fun _ => hka, ihb hop hl hr.operands.2 fun _ => hkb]
      simp only [Expr.meaning, hu, Operator.result_of_sign? hs, Operator.result_multiply,
        Value.product_one_left, Value.product_map, Value.map_product]
      refine Value.product_congr (fun a b => ?_) _ _
      ring
  | sumMultiply hs ha hb _ iha ihb ihe =>
      obtain ⟨hx, hka, hkb⟩ := (hk rfl).symm.of_sum hs
      obtain ⟨u, hu⟩ := hr.exists_meaning_eq_one val ρ (mt hasList_atom.mp hx)
      rw [ihe hl.tidy.1 (ha.isSettled hop hl.operands.1 hr) (hb.isSettled hop hl.operands.2 hr)
        fun h => absurd h (Operator.ne_multiply_of_sign? hs),
        iha hop hl.operands.1 hr fun _ => hka.symm, ihb hop hl.operands.2 hr fun _ => hkb.symm]
      simp only [Expr.meaning, hu, Operator.result_of_sign? hs, Operator.result_multiply,
        Value.product_one_right, Value.product_map, Value.map_product]
      refine Value.product_congr (fun a b => ?_) _ _
      ring
  | multiplyNumber _ ih =>
      rw [ih hop hr hl fun _ => (hk rfl).symm]
      simp only [Expr.meaning, Operator.result_multiply, Value.product_one_left,
        Value.product_one_right]
      exact Value.map_congr (fun a => mul_comm _ _) _
  | @absorbFirst n x y b e hx hy _ ihy ihe =>
      obtain ⟨hxs, hbs⟩ := hr.operands
      obtain ⟨m, k, rfl, rfl⟩ := hy.exists_number hx hxs.closed
      have hkm : val k = val n * val m := by
        simpa [Expr.meaning, Value.map] using ihy hop hl hxs fun _ => .atom id fun _ => id
      have hkeeps : KeepsLists val (.number k) b := .atom id fun h0 hb =>
        (hk rfl).left_zero (eq_zero_of_mul (hkm ▸ h0)
          (hA.not_isZero (hr.tidy.2.1.left_ne_zero rfl))) (.inr hb)
      rw [ihe hop (.atom rfl) hbs fun _ => hkeeps]
      simp only [Expr.meaning, Operator.result_multiply, Value.product_one_left, Value.map_map,
        hkm]
      exact Value.map_congr (fun b => mul_assoc _ _ _) _
  | @absorbSecond n x y a e hx hy _ ihy ihe =>
      obtain ⟨has, hxs⟩ := hr.operands
      obtain ⟨m, k, rfl, rfl⟩ := hy.exists_number hx hxs.closed
      have hkm : val k = val n * val m := by
        simpa [Expr.meaning, Value.map] using ihy hop hl hxs fun _ => .atom id fun _ => id
      have hkeeps : KeepsLists val (.number k) a := .atom id fun h0 ha =>
        (hk rfl).left_zero (eq_zero_of_mul (hkm ▸ h0)
          (hA.not_isZero (hr.tidy.2.1.right_ne_zero rfl))) (.inl ha)
      rw [ihe hop has (.atom rfl) fun _ => hkeeps.symm]
      simp only [Expr.meaning, Operator.result_multiply, Value.product_one_left,
        Value.product_one_right, Value.map_map, hkm]
      refine Value.map_congr (fun a => ?_) _
      ring
  | absorbDividend _ _ _ _ _ => exact hr.tidy.1.elim
  | divideNumbers _ => exact hop.elim
  | divideOne _ => exact hop.elim
  | divideSame _ => exact hop.elim
  | divideScaled _ _ _ => exact hop.elim
  | divideScaledNumber _ => exact hop.elim
  | divideSum _ _ _ _ _ _ _ => exact hop.elim
  | multiplySame _ _ => cases hl.closed
  | multiplyScaled _ _ _ => cases hl.closed
  | multiplyScaledNumber _ _ => cases hl.closed
  | multiplyNumberScaled _ _ => cases hr.closed
  | powerZero _ => exact hop.elim
  | powerOne _ => exact hop.elim
  | powerNumbers _ => exact hop.elim
  | powerProduct _ _ _ _ _ _ => exact hop.elim
  | powerQuotient _ _ _ _ _ _ => exact hop.elim
  | powerPower _ _ _ _ => exact hop.elim

/-! ### Simplification keeps the meaning -/

omit hA in
/-- A value as a formula means the value, where a list of one is the number in it. -/
theorem meaning_ofValue (v : Value α) :
    (Expr.ofValue v).meaning A val ρ = (v.map val).unwrapped := by
  rcases v with a | (- | ⟨a, - | ⟨b, rest⟩⟩) <;> rfl

/-- **Simplification keeps the meaning** of a formula without division and unbound variables, if it
keeps its lists. -/
theorem meaning_simplify {scope : Scope α} {e e' : Expr α} (he : e.HasOperators Operator.IsRing)
    (hbound : e.unbound scope = []) (hk : e.KeepsLists A val scope)
    (h : e.simplify A scope = .ok e') :
    e'.IsSettled A ∧ e'.meaning A val ρ = e.meaning A val (scope.meanings val) := by
  induction e generalizing e' with
  | atom x =>
      obtain ⟨rfl, hnone⟩ | ⟨y, c, v, w, rfl, hv, hw, rfl⟩ := atom_cases h
      · rw [Expr.unbound_eq_names hnone] at hbound
        cases x with
        | scaled => cases hbound
        | _ => exact ⟨.atom rfl, rfl⟩
      · refine ⟨⟨isTidy_ofValue w, names_ofValue w⟩, ?_⟩
        rw [meaning_ofValue, map_eq_of_valueMapM (fun _ _ => hA.multiply) hw, Value.unwrapped_map]
        simp [Expr.meaning, Scope.meanings, hv]
  | node l op r ihl ihr =>
      rw [Expr.unbound_node, List.append_eq_nil_iff] at hbound
      obtain ⟨l', r', hl, hr, hrw⟩ := rewrites_of_simplify h
      obtain ⟨hl', hlm⟩ := ihl he.2.1 hbound.1 hk.1 hl
      obtain ⟨hr', hrm⟩ := ihr he.2.2 hbound.2 hk.2.1 hr
      refine ⟨hrw.isSettled he.1 hl' hr', ?_⟩
      have hfactors (hop : op = .multiply) : KeepsLists val l' r' :=
        ((hk.2.2 hop).of_ok hl).of_ok hr
      rw [hrw.meaning hA he.1 hl' hr' hfactors, hlm, hrm]
      rfl

end

end Meaning

end Argand
