import Argand.Proofs.Simplification.Effort

/-!
# No redex survives simplification

A redex is a node that some identity would make simpler: an operator of two numbers, a neutral
operand, a leaf multiplied with a sum, a number beside a sum that has one in it, a product of
multiples of variables, a power of a product, a quotient or a power. A simplified formula has no
redex in it, wherever one looks.

The nodes of a simplified formula are of three kinds: those that their rule leaves alone, monomials
of two variables without a factor, and computed numbers in front of such monomials. A property that
all of these have is upheld by the rules, so it holds of all nodes of a simplified formula.

## Main definitions

* `Argand.Expr.AllNodes`: formulas all nodes of which have a property.
* `Argand.Monomial`, `Argand.Multiple`: what becomes of two multiples of variables.
* `Argand.Upheld`: properties that the rules uphold.
* `Argand.Redex`, `Argand.Expr.Irreducible`: nodes that can be made simpler, and formulas without.

## Main results

* `Argand.allNodes_simplify`: an upheld property holds of all nodes of a simplified formula.
* `Argand.Inert.not_redex`: a node that its rule leaves alone is no redex.
* `Argand.irreducible_simplify`: no redex survives simplification.
-/

namespace Argand

open Simplify

variable {α : Type}

/-! ### Nodes -/

/-- A formula **all nodes** of which have a property. -/
def Expr.AllNodes (Q : Operator → Expr α → Expr α → Prop) : Expr α → Prop
  | .atom _ => True
  | .node l op r => Q op l r ∧ l.AllNodes Q ∧ r.AllNodes Q

section

variable (A : Arithmetic α)

/-- A **monomial**: what two multiples of variables leave once their numbers are taken out. -/
inductive Monomial : Expr α → Prop
  | product {v w : String} : v ≠ w → Monomial (.node (plain A v) .multiply (plain A w))
  | quotient {v w : String} : v ≠ w → Monomial (.node (plain A v) .divide (plain A w))
  | square {v : String} : Monomial (.node (plain A v) .power (.number A.two))

/-- A **multiple** of a monomial by a computed number other than zero and one. -/
inductive Multiple : Operator → Expr α → Expr α → Prop
  | mk {c : α} {e : Expr α} : Monomial A e → A.IsComputed c → A.equals c A.zero = .ok false →
      A.equals c A.one = .ok false → Multiple .multiply (.number c) e

/-- A property of nodes that the rules **uphold**: those that they leave alone have it, and those
that they make. -/
structure Upheld (Q : Operator → Expr α → Expr α → Prop) : Prop where
  inert : ∀ {op l r}, op ≠ .power → Inert A op l r → l.AllNodes Q → r.AllNodes Q → Q op l r
  power : ∀ {l r}, InertPower A l r → Q .power l r
  monomial : ∀ {op l r}, Monomial A (.node l op r) → Q op l r
  multiple : ∀ {op l r}, Multiple A op l r → Q op l r

end

variable {A : Arithmetic α} {Q : Operator → Expr α → Expr α → Prop}

/-- A computed number in front of a monomial. -/
theorem allNodes_scaledBy (hQ : Upheld A Q) {c : α} {e e' : Expr α} (h : scaledBy A c e = .ok e')
    (he : Monomial A e) (hc : A.IsComputed c) : e'.AllNodes Q := by
  have hnodes : e.AllNodes Q := by
    cases he with
    | product hvw => exact ⟨hQ.monomial (.product hvw), trivial, trivial⟩
    | quotient hvw => exact ⟨hQ.monomial (.quotient hvw), trivial, trivial⟩
    | square => exact ⟨hQ.monomial .square, trivial, trivial⟩
  obtain ⟨-, rfl⟩ | ⟨-, rfl⟩ | ⟨hzero, hone, rfl⟩ := scaledBy_cases h
  · trivial
  · exact hnodes
  · exact ⟨hQ.multiple (.mk he hc hzero hone), trivial, hnodes⟩

/-- **An identity upholds the property**, powers apart. -/
theorem Rewrites.allNodes (hQ : Upheld A Q) {op : Operator} {l r e : Expr α}
    (h : Rewrites A op l r e) (hop : op ≠ .power) (hl : l.AllNodes Q) (hr : r.AllNodes Q) :
    e.AllNodes Q := by
  induction h with
  | kept hi => exact ⟨hQ.inert hop hi hl hr, hl, hr⟩
  | addNumbers | divideNumbers | divideSame | divideScaledNumber | multiplyNumbers | zeroMultiply
  | multiplyZero | multiplyScaledNumber | multiplyNumberScaled => trivial
  | powerZero | powerOne | powerNumbers | powerProduct | powerQuotient | powerPower =>
      exact absurd rfl hop
  | zeroAdd | oneMultiply => exact hr
  | addZero | divideOne | multiplyOne => exact hl
  | foldOuterFirst _ _ _ _ _ ih =>
      exact ih (Operator.ne_power_of_sign? (Sign.sign?_operator _)) trivial hr.2.2
  | foldOuterSecond _ _ _ _ _ ih =>
      exact ih (Operator.ne_power_of_sign? (Sign.sign?_operator _)) trivial hr.2.1
  | foldInnerFirst _ _ _ _ _ ih =>
      exact ih (Operator.ne_power_of_sign? (Sign.sign?_operator _)) trivial hl.2.2
  | foldInnerSecond _ _ _ _ _ _ ih => exact ih nofun trivial hl.2.1
  | divideScaled hvw hc he => exact allNodes_scaledBy hQ he (.quotient hvw) ⟨_, _, .inr hc⟩
  | multiplySame hc he => exact allNodes_scaledBy hQ he .square ⟨_, _, .inl hc⟩
  | multiplyScaled hvw hc he => exact allNodes_scaledBy hQ he (.product hvw) ⟨_, _, .inl hc⟩
  | divideSum hs _ _ _ iha ihb ihe | sumMultiply hs _ _ _ iha ihb ihe =>
      exact ihe (Operator.ne_power_of_sign? hs) (iha nofun hl.2.1 hr) (ihb nofun hl.2.2 hr)
  | multiplySum hs _ _ _ iha ihb ihe =>
      exact ihe (Operator.ne_power_of_sign? hs) (iha nofun hl hr.2.1) (ihb nofun hl hr.2.2)
  | multiplyNumber _ ih => exact ih nofun hr hl
  | absorbFirst _ _ _ ihy ihe => exact ihe nofun (ihy nofun trivial trivial) hr.2.2
  | absorbSecond _ _ _ ihy ihe => exact ihe nofun hr.2.1 (ihy nofun trivial trivial)
  | absorbDividend _ _ _ ihy ihe => exact ihe nofun (ihy nofun trivial trivial) hr.2.2

/-- **A power upholds the property.** -/
theorem allNodes_raise (hQ : Upheld A Q) {l r e : Expr α} (h : raise A l r = .ok e)
    (hl : l.AllNodes Q) (hr : r.AllNodes Q) : e.AllNodes Q := by
  replace h := raises_of_raise h
  induction h with
  | zero | numbers => trivial
  | one => exact hl
  | product _ _ h iha ihb =>
      exact (rewrites_of_multiply h).allNodes hQ nofun (iha hl.2.1 hr) (ihb hl.2.2 hr)
  | quotient _ _ h iha ihb =>
      exact (rewrites_of_divide h).allNodes hQ nofun (iha hl.2.1 hr) (ihb hl.2.2 hr)
  | power h _ ih => exact ih hl.2.1 ((rewrites_of_multiply h).allNodes hQ nofun hl.2.2 hr)
  | kept _ hi => exact ⟨hQ.power hi, hl, hr⟩

/-- **The rules uphold the property.** -/
theorem allNodes_rule (hQ : Upheld A Q) {op : Operator} {l r e : Expr α}
    (h : rule A op l r = .ok e) (hl : l.AllNodes Q) (hr : r.AllNodes Q) : e.AllNodes Q := by
  by_cases hop : op = .power
  · subst hop
    exact allNodes_raise hQ h hl hr
  · exact (rewrites_of_rule h).allNodes hQ hop hl hr

/-- **An upheld property holds of all nodes** of a simplified formula. -/
theorem allNodes_simplify (hQ : Upheld A Q) {scope : Scope α} {e e' : Expr α}
    (h : e.simplify A scope = .ok e') : e'.AllNodes Q :=
  simplify_induction (fun _ => trivial) (allNodes_rule hQ) h

/-! ### Redexes -/

section

variable (A : Arithmetic α)

/-- A **neutral** number beside an operator leaves the other operand `e`. -/
inductive Neutral : Operator → Expr α → Expr α → Expr α → Prop
  | oneMultiply {n : α} {e : Expr α} : A.equals n A.one = .ok true →
      Neutral .multiply (.number n) e e
  | multiplyOne {n : α} {e : Expr α} : A.equals n A.one = .ok true →
      Neutral .multiply e (.number n) e
  | divideOne {n : α} {e : Expr α} : A.equals n A.one = .ok true →
      Neutral .divide e (.number n) e
  | zeroAdd {n : α} {e : Expr α} : A.equals n A.zero = .ok true →
      Neutral .add (.number n) e e
  | addZero {n : α} {e : Expr α} : A.equals n A.zero = .ok true →
      Neutral .add e (.number n) e
  | subtractZero {n : α} {e : Expr α} : A.equals n A.zero = .ok true →
      Neutral .subtract e (.number n) e

/-- A **redex**: an operator with two operands that can be made simpler. -/
inductive Redex : Operator → Expr α → Expr α → Prop
  | numbers {op : Operator} {a b : α} : op ∈ [.add, .subtract, .multiply, .divide, .power] →
      Redex op (.number a) (.number b)
  | neutral {op : Operator} {l r e : Expr α} : Neutral A op l r e → Redex op l r
  | zeroMultiply {n : α} {r : Expr α} : A.equals n A.zero = .ok true →
      Redex .multiply (.number n) r
  | multiplyZero {l : Expr α} {m : α} : A.equals m A.zero = .ok true →
      Redex .multiply l (.number m)
  | powerZero {l : Expr α} {m : α} : A.equals m A.zero = .ok true → Redex .power l (.number m)
  | powerOne {l : Expr α} {m : α} : A.equals m A.one = .ok true → Redex .power l (.number m)
  | atomMultiplySum {x : Atom α} {r : Expr α} : r.IsSum → Redex .multiply (.atom x) r
  | sumMultiplyAtom {l : Expr α} {y : Atom α} : l.IsSum → Redex .multiply l (.atom y)
  | sumDivideAtom {l : Expr α} {y : Atom α} : l.IsSum → Redex .divide l (.atom y)
  | numberBeforeSum {op inner : Operator} {n : α} {a b : Expr α} : op.sign?.isSome →
      inner.sign?.isSome → a.IsNumber ∨ b.IsNumber → Redex op (.number n) (.node a inner b)
  | numberBehindSum {op inner : Operator} {m : α} {a b : Expr α} : op.sign?.isSome →
      inner.sign?.isSome → a.IsNumber ∨ b.IsNumber → Redex op (.node a inner b) (.number m)
  | multiplyScaled {v w : String} {a b : α} : ¬ (a = A.one ∧ b = A.one) →
      Redex .multiply (.scaled v a) (.scaled w b)
  | powerNode {inner : Operator} {a b r : Expr α} : inner ∈ [.multiply, .divide, .power] →
      Redex .power (.node a inner b) r

/-- An **irreducible** formula: none of its nodes is a redex. -/
def Expr.Irreducible (e : Expr α) : Prop :=
  e.AllNodes fun op l r => ¬ Redex A op l r

end

theorem Expr.not_isNumber_node (l : Expr α) (op : Operator) (r : Expr α) :
    ¬ (Expr.node l op r).IsNumber :=
  fun ⟨_, h⟩ => by cases h

theorem Expr.ne_node_left (l : Expr α) (op : Operator) (r : Expr α) : l ≠ .node l op r := by
  intro h
  have hsize := congrArg size h
  simp only [size] at hsize
  omega

theorem Expr.ne_node_right (l : Expr α) (op : Operator) (r : Expr α) : r ≠ .node l op r := by
  intro h
  have hsize := congrArg size h
  simp only [size] at hsize
  omega

/-! ### Rules on redexes -/

/-- An operator of two numbers gives a number. -/
theorem isNumber_rule {op : Operator} {a b : α} {e : Expr α}
    (hop : op ∈ [.add, .subtract, .multiply, .divide]) (h : rule A op (.number a) (.number b) = .ok e) :
    e.IsNumber := by
  have hmap {x : Except Fault α} (h : (x >>= fun c => pure (Expr.number c)) = .ok e) :
      e.IsNumber := by
    obtain ⟨c, -, h⟩ := bind_eq_ok.mp h
    exact ⟨c, (pure_eq_ok.mp h).symm⟩
  simp only [List.mem_cons, List.not_mem_nil, or_false] at hop
  obtain rfl | rfl | rfl | rfl := hop <;> exact hmap h

/-- Beside a neutral number, a rule gives the other operand, or a number. -/
theorem Neutral.eq_or_isNumber {op : Operator} {l r e e' : Expr α} (hn : Neutral A op l r e)
    (h : rule A op l r = .ok e') : e' = e ∨ e'.IsNumber := by
  cases e with
  | atom x =>
      cases x with
      | number m =>
          right
          cases hn <;> exact isNumber_rule (by simp) h
      | _ =>
          left
          cases hn with
          | oneMultiply hn | multiplyOne hn =>
              simp only [rule, multiply, multiplyAtom, multiplyAtoms, isNumber, hn] at h
              exact (pure_eq_ok.mp h).symm
          | divideOne hn =>
              simp only [rule, divide, divideByAtom, divideAtoms, isNumber, hn] at h
              exact (pure_eq_ok.mp h).symm
          | zeroAdd hn | addZero hn | subtractZero hn =>
              simp only [rule, combine, combineNumber, isNeutral, hn] at h
              exact (pure_eq_ok.mp h).symm
  | node a op b =>
      left
      cases hn with
      | oneMultiply hn | multiplyOne hn =>
          simp only [rule, multiply, multiplyAtom, isNumber, hn] at h
          exact (pure_eq_ok.mp h).symm
      | divideOne hn =>
          simp only [rule, divide, divideByAtom, isNumber, hn] at h
          exact (pure_eq_ok.mp h).symm
      | zeroAdd hn | addZero hn | subtractZero hn =>
          simp only [rule, combine, combineNumber, isNeutral, hn] at h
          exact (pure_eq_ok.mp h).symm

/-- A rule does not leave an operand beside a neutral number alone. -/
theorem Neutral.rule_ne {op : Operator} {l r e : Expr α} (hn : Neutral A op l r e) :
    rule A op l r ≠ .ok (.node l op r) := by
  intro h
  obtain he | he := hn.eq_or_isNumber h
  · cases hn with
    | oneMultiply | zeroAdd => exact Expr.ne_node_right _ _ _ he.symm
    | multiplyOne | divideOne | addZero | subtractZero => exact Expr.ne_node_left _ _ _ he.symm
  · exact Expr.not_isNumber_node _ _ _ he

/-- A number beside a formula takes one step more than the formula at most. -/
theorem effort_fold_le (hA : A.HasUnits) {s : Sign} {n : α} {r e : Expr α}
    (h : combineNumber A s n r = .ok e) : e.effort A ≤ r.effort A + 1 := by
  have hle := (rewrites_of_combineNumber h).effort_le hA
  rwa [Expr.effort_sum (Sign.sign?_operator _), Expr.effort_number, Nat.zero_max] at hle

/-- A number before a sum of which a term is a number is folded into the sum. -/
theorem effort_combineNumber_le (hA : A.HasUnits) {s : Sign} {inner : Operator} {n : α}
    {a b e : Expr α} (hinner : inner.sign?.isSome) (hab : a.IsNumber ∨ b.IsNumber)
    (h : combineNumber A s n (.node a inner b) = .ok e) :
    e.effort A ≤ (Expr.node a inner b).effort A := by
  obtain ⟨s', hs'⟩ := Option.isSome_iff_exists.mp hinner
  rw [Expr.effort_sum hs']
  unfold combineNumber at h
  obtain ⟨-, rfl⟩ | ⟨-, h⟩ := test_eq_ok.mp h
  · exact Nat.le_of_eq (Expr.effort_sum hs' a b)
  · simp only [hs'] at h
    split at h
    · obtain ⟨_, -, h⟩ := bind_eq_ok.mp h
      obtain ⟨_, -, h⟩ := bind_eq_ok.mp h
      have hle := effort_fold_le hA h
      omega
    · obtain ⟨_, -, h⟩ := bind_eq_ok.mp h
      obtain ⟨_, -, h⟩ := bind_eq_ok.mp h
      have hle := effort_fold_le hA h
      omega
    · rename_i hfirst hsecond _
      obtain ⟨n, rfl⟩ | ⟨n, rfl⟩ := hab
      · exact (hfirst _ _ rfl rfl).elim
      · exact (hsecond _ _ rfl rfl).elim

/-- A number behind a sum of which a term is a number is folded into the sum. -/
theorem effort_combine_le (hA : A.HasUnits) {s : Sign} {inner : Operator} {m : α}
    {a b e : Expr α} (hinner : inner.sign?.isSome) (hab : a.IsNumber ∨ b.IsNumber)
    (h : combine A s (.node a inner b) (.number m) = .ok e) :
    e.effort A ≤ (Expr.node a inner b).effort A := by
  obtain ⟨s', hs'⟩ := Option.isSome_iff_exists.mp hinner
  rw [Expr.effort_sum hs']
  unfold combine at h
  obtain ⟨-, rfl⟩ | ⟨-, h⟩ := test_eq_ok.mp h
  · exact Nat.le_of_eq (Expr.effort_sum hs' a b)
  · simp only [hs'] at h
    split at h
    · obtain ⟨_, -, h⟩ := bind_eq_ok.mp h
      obtain ⟨_, -, h⟩ := bind_eq_ok.mp h
      have hle := effort_fold_le hA h
      omega
    · obtain ⟨_, -, h⟩ := bind_eq_ok.mp h
      obtain ⟨_, -, h⟩ := bind_eq_ok.mp h
      obtain ⟨_, -, h⟩ := bind_eq_ok.mp h
      have hle := effort_fold_le hA h
      omega
    · rename_i hfirst hsecond _
      obtain ⟨n, rfl⟩ | ⟨n, rfl⟩ := hab
      · exact (hfirst _ _ rfl rfl).elim
      · exact (hsecond _ _ rfl rfl).elim

/-- The product of two multiples of variables. -/
theorem multiply_scaled (v w : String) (a b : α) :
    multiply A (.scaled v a) (.scaled w b) = (do
      let c ← A.multiply a b
      if v = w then scaledBy A c (.node (plain A v) .power (.number A.two))
      else scaledBy A c (.node (plain A v) .multiply (plain A w))) := rfl

/-- Only variables without a factor are left alone in a product of two. -/
theorem eq_one_of_multiply_scaled {v w : String} {a b : α}
    (h : multiply A (.scaled v a) (.scaled w b) =
      .ok (.node (.scaled v a) .multiply (.scaled w b))) : a = A.one ∧ b = A.one := by
  rw [multiply_scaled] at h
  obtain ⟨c, -, h⟩ := bind_eq_ok.mp h
  split at h <;> obtain ⟨-, h⟩ | ⟨-, h⟩ | ⟨-, -, h⟩ := scaledBy_cases h <;> cases h
  exact ⟨rfl, rfl⟩

/-- **A node that its rule leaves alone is no redex**, unless it is a power. -/
theorem Inert.not_redex (hA : A.HasUnits) {op : Operator} {l r : Expr α} (h : Inert A op l r)
    (hop : op ≠ .power) : ¬ Redex A op l r := by
  intro hredex
  have hfixed := h.fixed
  cases hredex with
  | numbers hmem =>
      refine Expr.not_isNumber_node _ _ _ (isNumber_rule ?_ hfixed)
      simp_all
  | neutral hn => exact hn.rule_ne hfixed
  | zeroMultiply hn => cases hn.symm.trans (h.left_ne_zero rfl _ rfl)
  | multiplyZero hm => cases hm.symm.trans (h.right_ne_zero rfl _ rfl)
  | powerZero | powerOne | powerNode => exact hop rfl
  | atomMultiplySum hr => exact h.not_atom_mul_sum rfl ⟨trivial, hr⟩
  | sumMultiplyAtom hl => exact h.not_sum_mul_atom rfl ⟨hl, trivial⟩
  | sumDivideAtom hl => exact h.not_sum_div_atom rfl ⟨hl, trivial⟩
  | numberBeforeSum hs hinner hab =>
      obtain ⟨s, hs⟩ := Option.isSome_iff_exists.mp hs
      rw [rule_of_sign? A hs] at hfixed
      have hle := effort_combineNumber_le hA hinner hab hfixed
      exact absurd (Expr.effort_operand_lt _ op _).2 (Nat.not_lt.mpr hle)
  | numberBehindSum hs hinner hab =>
      obtain ⟨s, hs⟩ := Option.isSome_iff_exists.mp hs
      rw [rule_of_sign? A hs] at hfixed
      have hle := effort_combine_le hA hinner hab hfixed
      exact absurd (Expr.effort_operand_lt _ op _).1 (Nat.not_lt.mpr hle)
  | multiplyScaled hone => exact hone (eq_one_of_multiply_scaled hfixed)

/-- A power that its rule leaves alone is no redex. -/
theorem InertPower.not_redex {l r : Expr α} (h : InertPower A l r) : ¬ Redex A .power l r := by
  intro hredex
  cases hredex with
  | numbers => exact h.not_numbers ⟨_, rfl⟩ ⟨_, rfl⟩
  | neutral hn => cases hn
  | powerZero hm => cases h.ne_zero.symm.trans hm
  | powerOne hm => cases h.ne_one.symm.trans hm
  | powerNode hinner => exact h.not_node _ _ _ rfl hinner
  | numberBeforeSum hs | numberBehindSum hs => cases hs

/-- A monomial is no redex. -/
theorem Monomial.not_redex (hA : A.HasUnits) {op : Operator} {l r : Expr α}
    (h : Monomial A (.node l op r)) : ¬ Redex A op l r := by
  intro hredex
  cases h with
  | product =>
      cases hredex with
      | neutral hn => cases hn
      | atomMultiplySum hr => exact hr
      | sumMultiplyAtom hl => exact hl
      | multiplyScaled hone => exact hone ⟨rfl, rfl⟩
  | quotient =>
      cases hredex with
      | neutral hn => cases hn
      | sumDivideAtom hl => exact hl
  | square =>
      cases hredex with
      | neutral hn => cases hn
      | powerZero hm => cases hm.symm.trans hA.two_ne_zero
      | powerOne hm => cases hm.symm.trans hA.two_ne_one

/-- A multiple of a monomial is no redex. -/
theorem Multiple.not_redex {op : Operator} {l r : Expr α} (h : Multiple A op l r) :
    ¬ Redex A op l r := by
  obtain ⟨hmonomial, -, hzero, hone⟩ := h
  intro hredex
  cases hredex with
  | neutral hn =>
      cases hn with
      | oneMultiply hn => cases hone.symm.trans hn
      | multiplyOne => cases hmonomial
  | zeroMultiply hn => cases hzero.symm.trans hn
  | atomMultiplySum hr => cases hmonomial <;> cases hr
  | numberBeforeSum hs => cases hs
  | numbers | multiplyZero | sumMultiplyAtom => cases hmonomial

/-- **The rules make no redex.** -/
theorem upheld_not_redex (hA : A.HasUnits) : Upheld A fun op l r => ¬ Redex A op l r where
  inert hop hi _ _ := hi.not_redex hA hop
  power h := h.not_redex
  monomial h := h.not_redex hA
  multiple h := h.not_redex

/-! ### Simplified formulas -/

/-- **No redex survives simplification**, wherever it is looked for in the formula. -/
theorem irreducible_simplify {scope : Scope Operand} {e e' : Expr Operand}
    (h : e.simplify calculator scope = .ok e') : e'.Irreducible calculator :=
  allNodes_simplify (upheld_not_redex hasUnits_calculator) h

/-- Of `1 * ((x + y) / 1)` the sum remains. -/
theorem irreducible_simplify_sum :
    let one : Expr Operand := .number calculator.one
    let sum := Expr.node (plain calculator "x") .add (plain calculator "y")
    (Expr.node one .multiply (.node sum .divide one)).simplify calculator [] = .ok sum ∧
      sum.Irreducible calculator := by
  intro one sum
  have h : (Expr.node one .multiply (.node sum .divide one)).simplify calculator [] = .ok sum := by
    have hdivide : divide calculator sum one = .ok sum := by
      simp only [divide, one, sum, divideByAtom, isNumber, hasUnits_calculator.one_eq_one]
      rfl
    have hmultiply : multiply calculator one sum = .ok sum := by
      simp only [multiply, one, sum, multiplyAtom, isNumber, hasUnits_calculator.one_eq_one]
      rfl
    calc (Expr.node one .multiply (.node sum .divide one)).simplify calculator []
        = divide calculator sum one >>= multiply calculator one := rfl
      _ = .ok sum := by
          rw [hdivide]
          exact hmultiply
  exact ⟨h, irreducible_simplify h⟩

end Argand
