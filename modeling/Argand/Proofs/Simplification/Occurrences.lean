import Argand.Proofs.Reading
import Argand.Proofs.Simplification.Tidy

/-!
# How often a variable occurs after an identity

An identity adds no occurrences of a variable, unless the variable is multiplied with a sum or
divides one. Then it comes to stand in every term, but for those that are zero. An occurrence that
is not spread can only be lost, by a factor that is zero.

## Main definitions

* `Argand.BesideSum`: operands of which one is a variable and the other a sum.
* `Argand.Spreads`: such operands that give a variable in two terms at least.

## Main results

* `Argand.Rewrites.length_names_eq_copies`: the occurrences of a variable that is beside a sum.
* `Argand.Rewrites.length_names_le`: without a sum beside it no occurrences are added.
* `Argand.Rewrites.le_length_names`: with exact arithmetic none is lost but by a zero.
-/

namespace Argand

open Simplify

variable {α K : Type}

/-! ### Terms -/

/-- The number of **terms** of a sum. -/
def Expr.terms : Expr α → Nat
  | .atom _ => 1
  | .node l op r => if op.sign?.isSome then l.terms + r.terms else 1

/-- The number of terms of a sum that **are not zero**. -/
def Expr.weight (A : Arithmetic α) : Expr α → Nat
  | .number n =>
    match A.equals n A.one, A.equals n A.zero with
    | .ok true, _ => 1
    | _, .ok true => 0
    | _, _ => 1
  | .atom _ => 1
  | .node l op r => if op.sign?.isSome then l.weight A + r.weight A else 1

variable {A : Arithmetic α}

theorem Expr.terms_node {l r : Expr α} {op : Operator} {s : Sign} (h : op.sign? = some s) :
    (Expr.node l op r).terms = l.terms + r.terms := by
  simp [terms, h]

theorem Expr.weight_node {l r : Expr α} {op : Operator} {s : Sign} (h : op.sign? = some s) :
    (Expr.node l op r).weight A = l.weight A + r.weight A := by
  simp [weight, h]

/-- A formula that is no sum is one term. -/
theorem Expr.terms_eq_one {e : Expr α} (h : ¬ e.IsSum) : e.terms = 1 := by
  cases e with
  | atom x => rfl
  | node l op r => exact if_neg h

/-- A leaf that is not zero is one term that is not zero. -/
theorem Expr.weight_atom {x : Atom α}
    (h0 : ∀ n, Expr.atom x = .number n → A.equals n A.zero = .ok false) :
    (Expr.atom x).weight A = 1 := by
  cases x with
  | number n =>
      simp only [weight, h0 n rfl]
      split
      · rfl
      · cases ‹_ = Except.ok true›
      · rfl
  | _ => rfl

/-- A node that is no sum is one term that is not zero. -/
theorem Expr.weight_eq_one {l r : Expr α} {op : Operator} (h : ¬ (Expr.node l op r).IsSum) :
    (Expr.node l op r).weight A = 1 :=
  if_neg h

/-- A sum has the variables of its terms. -/
theorem Rewrites.length_names_of_sum {op : Operator} {s : Sign} {l r e : Expr α}
    (h : Rewrites A op l r e) (hs : op.sign? = some s) :
    e.names.length = l.names.length + r.names.length := by
  induction h generalizing s with
  | kept _ => exact Expr.length_names_node _ _ _
  | addNumbers _ _ => rfl
  | zeroAdd _ => simp [Expr.names]
  | addZero _ _ => rfl
  | foldOuterFirst _ _ _ _ _ ih =>
      rw [ih (Sign.sign?_operator _), Expr.length_names_node]
      simp [Expr.names]
  | foldOuterSecond _ _ _ _ _ ih =>
      rw [ih (Sign.sign?_operator _), Expr.length_names_node]
      simp [Expr.names]
  | foldInnerFirst _ _ _ _ _ ih =>
      rw [ih (Sign.sign?_operator _), Expr.length_names_node]
      simp [Expr.names]
  | foldInnerSecond _ _ _ _ _ _ ih =>
      rw [ih (s := .plus) rfl, Expr.length_names_node]
      simp [Expr.names]
  | _ => cases hs

/-! ### What is spread -/

/-- A variable beside a sum, as a factor or as the divisor. -/
def BesideSum (op : Operator) (l r : Expr α) : Prop :=
  match op with
  | .multiply => (l.IsScaled ∧ r.IsSum) ∨ (l.IsSum ∧ r.IsScaled)
  | .divide => l.IsSum ∧ r.IsScaled
  | _ => False

/-- A multiple of a variable is one. -/
theorem Expr.IsScaled.exists_eq {e : Expr α} (he : e.IsScaled) : ∃ v k, e = .scaled v k := by
  cases e with
  | atom x =>
      cases x with
      | scaled v k => exact ⟨v, k, rfl⟩
      | _ => exact he.elim
  | node => exact he.elim

/-- One of the operands is the variable. -/
theorem BesideSum.isScaled {op : Operator} {l r : Expr α} (h : BesideSum op l r) :
    l.IsScaled ∨ r.IsScaled := by
  cases op with
  | multiply => exact h.imp And.left And.right
  | divide => exact .inr h.2
  | add => exact h.elim
  | subtract => exact h.elim
  | power => exact h.elim
  | plusMinus => exact h.elim
  | other => exact h.elim

/-- The number of terms in which a variable beside a sum comes to stand. -/
def copies (A : Arithmetic α) (op : Operator) (l r : Expr α) : Nat :=
  match op, r with
  | .multiply, .atom (.scaled _ _) => l.weight A
  | .multiply, _ => r.weight A
  | _, _ => l.terms

/-- A variable is **spread** if it stands beside a sum and comes to stand in two terms at
least. -/
def Spreads (A : Arithmetic α) (op : Operator) (l r : Expr α) : Prop :=
  BesideSum op l r ∧ 2 ≤ copies A op l r

/-- A variable times a sum stands in each of its terms that is not zero. -/
theorem length_names_scaled_mul {v : String} {k : α} {r e : Expr α}
    (h : Rewrites A .multiply (.scaled v k) r e) (hr : r.names = []) :
    e.names.length = r.weight A := by
  induction r generalizing e with
  | atom y =>
      cases h with
      | kept hi =>
          rw [Expr.weight_atom (hi.right_ne_zero rfl)]
          simp [Expr.names, hr]
      | multiplyOne h1 => simp [Expr.weight, h1, Expr.names]
      | multiplyZero h1 h0 => simp [Expr.weight, h1, h0, Expr.names]
      | multiplyScaledNumber h0 _ =>
          rw [Expr.weight_atom fun n hn => by cases hn; exact h0]
          rfl
      | addZero hs _ => cases hs
      | multiplySame _ _ => cases hr
      | multiplyScaled _ _ _ => cases hr
  | node a op b iha ihb =>
      obtain ⟨ha, hb⟩ := Expr.names_eq_nil_of_node hr
      cases h with
      | kept hi =>
          rw [Expr.weight_eq_one (fun h => hi.not_atom_mul_sum rfl ⟨trivial, h⟩)]
          simp [Expr.names, ha, hb]
      | multiplySum hs hma hmb he =>
          rw [he.length_names_of_sum hs, iha hma ha, ihb hmb hb, Expr.weight_node hs]

/-- A sum times a variable. -/
theorem length_names_mul_scaled {v : String} {k : α} {l e : Expr α}
    (h : Rewrites A .multiply l (.scaled v k) e) (hl : l.names = []) :
    e.names.length = l.weight A := by
  induction l generalizing e with
  | atom x =>
      cases h with
      | kept hi =>
          rw [Expr.weight_atom (hi.left_ne_zero rfl)]
          simp [Expr.names, hl]
      | oneMultiply h1 => simp [Expr.weight, h1, Expr.names]
      | zeroMultiply h1 h0 => simp [Expr.weight, h1, h0, Expr.names]
      | multiplyNumberScaled h0 _ =>
          rw [Expr.weight_atom fun n hn => by cases hn; exact h0]
          rfl
      | multiplySame _ _ => cases hl
      | multiplyScaled _ _ _ => cases hl
  | node a op b iha ihb =>
      obtain ⟨ha, hb⟩ := Expr.names_eq_nil_of_node hl
      cases h with
      | kept hi =>
          rw [Expr.weight_eq_one (fun h => hi.not_sum_mul_atom rfl ⟨h, trivial⟩)]
          simp [Expr.names, ha, hb]
      | sumMultiply hs hma hmb he =>
          rw [he.length_names_of_sum hs, iha hma ha, ihb hmb hb, Expr.weight_node hs]

/-- A sum divided by a variable. -/
theorem length_names_div_scaled {v : String} {k : α} {l e : Expr α}
    (h : Rewrites A .divide l (.scaled v k) e) (hl : l.names = []) :
    e.names.length = l.terms := by
  induction l generalizing e with
  | atom x =>
      cases h with
      | kept _ => simp [Expr.names, hl, Expr.terms]
      | divideSame _ => cases hl
      | divideScaled _ _ _ => cases hl
  | node a op b iha ihb =>
      obtain ⟨ha, hb⟩ := Expr.names_eq_nil_of_node hl
      cases h with
      | kept hi =>
          rw [Expr.terms_eq_one fun h => hi.not_sum_div_atom rfl ⟨h, trivial⟩]
          simp [Expr.names, ha, hb]
      | divideSum hs hda hdb he =>
          rw [he.length_names_of_sum hs, iha hda ha, ihb hdb hb, Expr.terms_node hs]

/-- **The occurrences** of a variable that was beside a closed sum. -/
theorem Rewrites.length_names_eq_copies {op : Operator} {l r e : Expr α} (h : Rewrites A op l r e)
    (hbeside : BesideSum op l r) (hone : l.names = [] ∨ r.names = []) :
    e.names.length = copies A op l r := by
  cases op with
  | multiply =>
      obtain ⟨hl, hr⟩ | ⟨hl, hr⟩ := hbeside
      · obtain ⟨v, k, rfl⟩ := hl.exists_eq
        cases r with
        | atom y => exact hr.elim
        | node a op b =>
            exact length_names_scaled_mul h (hone.resolve_left (List.cons_ne_nil _ _))
      · obtain ⟨v, k, rfl⟩ := hr.exists_eq
        exact length_names_mul_scaled h (hone.resolve_right (List.cons_ne_nil _ _))
  | divide =>
      obtain ⟨v, k, rfl⟩ := hbeside.2.exists_eq
      exact length_names_div_scaled h (hone.resolve_right (List.cons_ne_nil _ _))
  | add => exact hbeside.elim
  | subtract => exact hbeside.elim
  | power => exact hbeside.elim
  | plusMinus => exact hbeside.elim
  | other => exact hbeside.elim

/-! ### What is not spread -/

/-- A leaf that is no variable has none. -/
theorem names_eq_nil_of_not_isScaled {x : Atom α} (h : ¬ (Expr.atom x).IsScaled) :
    (Expr.atom x).names = [] := by
  cases x with
  | scaled => exact absurd trivial h
  | _ => rfl

/-- A leaf and a formula that are not beside each other as a variable and a sum. -/
theorem not_besideSum_atom_mul {x : Atom α} {r : Expr α}
    (h : (Expr.atom x).IsScaled → ¬ r.IsSum) : ¬ BesideSum .multiply (.atom x) r := by
  rintro (⟨hx, hr⟩ | ⟨hx, -⟩)
  · exact h hx hr
  · exact hx

/-- The same with the leaf on the other side. -/
theorem not_besideSum_mul_atom {x : Atom α} {l : Expr α}
    (h : (Expr.atom x).IsScaled → ¬ l.IsSum) : ¬ BesideSum .multiply l (.atom x) := by
  rintro (⟨-, hx⟩ | ⟨hl, hx⟩)
  · exact hx
  · exact h hx hl

/-- A leaf that is multiplied with a sum, and no variable beside it, is no variable. -/
theorem not_isScaled_of_mul_sum {op : Operator} {s : Sign} (hs : op.sign? = some s) {x : Atom α}
    {a b : Expr α} (h : ¬ BesideSum .multiply (.atom x) (.node a op b)) :
    ¬ (Expr.atom x).IsScaled :=
  fun hx => h (.inl ⟨hx, by simp [Expr.IsSum, hs]⟩)

/-- The same with the sum on the other side. -/
theorem not_isScaled_of_sum_mul {op : Operator} {s : Sign} (hs : op.sign? = some s) {x : Atom α}
    {a b : Expr α} (h : ¬ BesideSum .multiply (.node a op b) (.atom x)) :
    ¬ (Expr.atom x).IsScaled :=
  fun hx => h (.inr ⟨by simp [Expr.IsSum, hs], hx⟩)

/-- A leaf that divides a sum, and no variable below it, is no variable. -/
theorem not_isScaled_of_sum_div {op : Operator} {s : Sign} (hs : op.sign? = some s) {x : Atom α}
    {a b : Expr α} (h : ¬ BesideSum .divide (.node a op b) (.atom x)) :
    ¬ (Expr.atom x).IsScaled :=
  fun hx => h ⟨by simp [Expr.IsSum, hs], hx⟩

variable {ops : Operator → Prop}

/-- **An identity adds no occurrences**, unless a variable is beside a sum. -/
theorem Rewrites.length_names_le (hops : OperatorKind ops) {op : Operator} {l r e : Expr α}
    (h : Rewrites A op l r e) (hop : ops op)
    (hone : op.IsProduct → l.names = [] ∨ r.names = []) (hl : l.IsTidy A ops)
    (hr : r.IsTidy A ops) (hbeside : ¬ BesideSum op l r) :
    e.names.length ≤ l.names.length + r.names.length := by
  induction h with
  | kept _ => exact (Expr.length_names_node _ _ _).le
  | addNumbers _ _ => exact Nat.zero_le _
  | zeroAdd _ => exact Nat.le_add_left _ _
  | addZero _ _ => exact Nat.le_add_right _ _
  | foldOuterFirst _ _ _ _ he _ =>
      rw [he.length_names_of_sum (Sign.sign?_operator _), Expr.length_names_node]
      simp [Expr.names]
  | foldOuterSecond _ _ _ _ he _ =>
      rw [he.length_names_of_sum (Sign.sign?_operator _), Expr.length_names_node]
      simp [Expr.names]
  | foldInnerFirst _ _ _ _ he _ =>
      rw [he.length_names_of_sum (Sign.sign?_operator _), Expr.length_names_node]
      simp [Expr.names]
  | foldInnerSecond _ _ _ _ _ he _ =>
      rw [he.length_names_of_sum (s := .plus) rfl, Expr.length_names_node]
      simp [Expr.names]
  | divideNumbers _ => exact Nat.zero_le _
  | divideOne _ => exact Nat.le_add_right _ _
  | divideSame _ => exact Nat.zero_le _
  | divideScaled _ _ _ => exact absurd (hone trivial) (by simp [Expr.names])
  | divideScaledNumber _ => exact Nat.le_add_right _ _
  | @divideSum _ _ a b _ _ _ y hs _ _ he iha ihb _ =>
      have hy := not_isScaled_of_sum_div hs hbeside
      have ha := iha hop (fun h => (hone h).imp_left Expr.closed_left) hl.2.2.2.1 hr fun h => hy h.2
      have hb := ihb hop (fun h => (hone h).imp_left Expr.closed_right) hl.2.2.2.2 hr fun h => hy h.2
      rw [he.length_names_of_sum hs, Expr.length_names_node]
      simp only [names_eq_nil_of_not_isScaled hy, List.length_nil] at ha hb ⊢
      omega
  | multiplyNumbers _ => exact Nat.zero_le _
  | oneMultiply _ => exact Nat.le_add_left _ _
  | multiplyOne _ => exact Nat.le_add_right _ _
  | zeroMultiply _ _ => exact Nat.zero_le _
  | multiplyZero _ _ => exact Nat.zero_le _
  | multiplySame _ _ => exact absurd (hone trivial) (by simp [Expr.names])
  | multiplyScaled _ _ _ => exact absurd (hone trivial) (by simp [Expr.names])
  | multiplyScaledNumber _ _ => exact Nat.le_add_right _ _
  | multiplyNumberScaled _ _ => exact Nat.le_add_left _ _
  | multiplySum hs _ _ he iha ihb _ =>
      have hx := not_isScaled_of_mul_sum hs hbeside
      have ha := iha hop (fun h => (hone h).imp_right Expr.closed_left) hl hr.2.2.2.1
        (not_besideSum_atom_mul fun h => absurd h hx)
      have hb := ihb hop (fun h => (hone h).imp_right Expr.closed_right) hl hr.2.2.2.2
        (not_besideSum_atom_mul fun h => absurd h hx)
      rw [he.length_names_of_sum hs, Expr.length_names_node]
      simp only [names_eq_nil_of_not_isScaled hx, List.length_nil] at ha hb ⊢
      omega
  | sumMultiply hs _ _ he iha ihb _ =>
      have hx := not_isScaled_of_sum_mul hs hbeside
      have ha := iha hop (fun h => (hone h).imp_left Expr.closed_left) hl.2.2.2.1 hr
        (not_besideSum_mul_atom fun h => absurd h hx)
      have hb := ihb hop (fun h => (hone h).imp_left Expr.closed_right) hl.2.2.2.2 hr
        (not_besideSum_mul_atom fun h => absurd h hx)
      rw [he.length_names_of_sum hs, Expr.length_names_node]
      simp only [names_eq_nil_of_not_isScaled hx, List.length_nil] at ha hb ⊢
      omega
  | multiplyNumber _ ih =>
      rw [Nat.add_comm]
      exact ih hop (fun h => (hone h).symm) hr hl (not_besideSum_atom_mul fun h => h.elim)
  | absorbFirst _ hy _ ihy ihe =>
      obtain ⟨-, hinert, hpart, hx, hb⟩ := hr
      have hyx := ihy hop (fun _ => .inl rfl) hl hx (not_besideSum_atom_mul fun h => h.elim)
      have he := ihe hop (fun h => (hpart h).imp_left (hy.names_eq_nil rfl))
        (hy.isTidy hops hop (fun _ => .inl rfl) hl hx) hb
        (not_besideSum_atom_mul fun _ h => hinert.not_atom_mul_sum rfl ⟨trivial, h⟩)
      rw [Expr.length_names_node]
      omega
  | absorbSecond _ hy _ ihy ihe =>
      obtain ⟨-, hinert, hpart, ha, hx⟩ := hr
      have hyx := ihy hop (fun _ => .inl rfl) hl hx (not_besideSum_atom_mul fun h => h.elim)
      have he := ihe hop (fun h => (hpart h).imp_right (hy.names_eq_nil rfl)) ha
        (hy.isTidy hops hop (fun _ => .inl rfl) hl hx)
        (not_besideSum_mul_atom fun _ h => hinert.not_sum_mul_atom rfl ⟨h, trivial⟩)
      rw [Expr.length_names_node]
      omega
  | absorbDividend _ hy _ ihy ihe =>
      obtain ⟨hdiv, -, hpart, hx, hb⟩ := hr
      have hyx := ihy hop (fun _ => .inl rfl) hl hx (not_besideSum_atom_mul fun h => h.elim)
      have he := ihe hdiv (fun h => (hpart h).imp_left (hy.names_eq_nil rfl))
        (hy.isTidy hops hop (fun _ => .inl rfl) hl hx) hb fun h => h.1
      rw [Expr.length_names_node]
      omega
  | powerZero _ => exact (hops.field hop).elim
  | powerOne _ => exact (hops.field hop).elim
  | powerNumbers _ => exact (hops.field hop).elim
  | powerProduct _ _ _ _ _ _ => exact (hops.field hop).elim
  | powerQuotient _ _ _ _ _ _ => exact (hops.field hop).elim
  | powerPower _ _ _ _ => exact (hops.field hop).elim

/-! ### What is not lost -/

section Exact

variable [Field K] [DecidableEq K] {val : α → K} (hA : A.IsExact val)

include hA

/-- Taking up a number multiplies. -/
theorem Rewrites.val_eq_mul {n m k : α}
    (h : Rewrites A .multiply (.number n) (.number m) (.number k)) : val k = val n * val m := by
  have hread := h.reads hA (ρ := fun _ => []) (fun _ _ ha => absurd ha List.not_mem_nil) nofun
    (.number n) (.number m) rfl
  exact (reads_number.mp hread).symm

/-- A number beside a factor with variables has not become zero by taking up another one. -/
theorem not_isZero_of_takesUp {n : α} {x y : Atom α}
    (h : Rewrites A .multiply (.number n) (.atom x) (.atom y)) (hx : x.TakesUp)
    (hnames : (Expr.atom x).names = []) (hn : val n ≠ 0)
    (hx0 : ¬ (Expr.atom x).IsZero val) : ¬ (Expr.atom y).IsZero val := by
  obtain ⟨m, k, rfl, rfl⟩ := h.exists_number hx hnames
  exact fun h0 => hn (eq_zero_of_mul ((h.val_eq_mul hA).symm.trans h0) hx0)

/-- **An identity loses no occurrences** in exact arithmetic, unless a factor is zero or a variable
is beside a sum. -/
theorem Rewrites.le_length_names (hops : OperatorKind ops) {op : Operator} {l r e : Expr α}
    (h : Rewrites A op l r e) (hop : ops op)
    (hone : op.IsProduct → l.names = [] ∨ r.names = []) (hl : l.IsTidy A ops)
    (hr : r.IsTidy A ops) (hbeside : ¬ BesideSum op l r)
    (hzero : op = .multiply →
      (r.names ≠ [] → ¬ l.IsZero val) ∧ (l.names ≠ [] → ¬ r.IsZero val)) :
    l.names.length + r.names.length ≤ e.names.length := by
  induction h with
  | kept _ => exact (Expr.length_names_node _ _ _).ge
  | addNumbers _ _ => exact Nat.zero_le _
  | zeroAdd _ => exact (Nat.zero_add _).le
  | addZero _ _ => exact le_rfl
  | foldOuterFirst _ _ _ _ he _ =>
      rw [he.length_names_of_sum (Sign.sign?_operator _), Expr.length_names_node]
      simp [Expr.names]
  | foldOuterSecond _ _ _ _ he _ =>
      rw [he.length_names_of_sum (Sign.sign?_operator _), Expr.length_names_node]
      simp [Expr.names]
  | foldInnerFirst _ _ _ _ he _ =>
      rw [he.length_names_of_sum (Sign.sign?_operator _), Expr.length_names_node]
      simp [Expr.names]
  | foldInnerSecond _ _ _ _ _ he _ =>
      rw [he.length_names_of_sum (s := .plus) rfl, Expr.length_names_node]
      simp [Expr.names]
  | divideNumbers _ => exact le_rfl
  | divideOne _ => exact le_rfl
  | divideSame _ => exact absurd (hone trivial) (by simp [Expr.names])
  | divideScaled _ _ _ => exact absurd (hone trivial) (by simp [Expr.names])
  | divideScaledNumber _ => exact le_rfl
  | divideSum hs _ _ he iha ihb _ =>
      have hy := not_isScaled_of_sum_div hs hbeside
      have ha := iha hop (fun h => (hone h).imp_left Expr.closed_left) hl.2.2.2.1 hr (fun h => hy h.2)
        fun h => by cases h
      have hb := ihb hop (fun h => (hone h).imp_left Expr.closed_right) hl.2.2.2.2 hr (fun h => hy h.2)
        fun h => by cases h
      rw [he.length_names_of_sum hs, Expr.length_names_node]
      simp only [names_eq_nil_of_not_isScaled hy, List.length_nil] at ha hb ⊢
      omega
  | multiplyNumbers _ => exact le_rfl
  | oneMultiply _ => exact (Nat.zero_add _).le
  | multiplyOne _ => exact le_rfl
  | @zeroMultiply n r _ h0 =>
      have hn : val n = 0 := (hA.eq_of_equals h0).trans hA.zero
      have hr : r.names = [] := by
        by_contra hr
        exact (hzero rfl).1 hr hn
      simp [Expr.names, hr]
  | @multiplyZero l m _ h0 =>
      have hm : val m = 0 := (hA.eq_of_equals h0).trans hA.zero
      have hl : l.names = [] := by
        by_contra hl
        exact (hzero rfl).2 hl hm
      simp [Expr.names, hl]
  | multiplySame _ _ => exact absurd (hone trivial) (by simp [Expr.names])
  | multiplyScaled _ _ _ => exact absurd (hone trivial) (by simp [Expr.names])
  | multiplyScaledNumber _ _ => exact le_rfl
  | multiplyNumberScaled _ _ => exact le_rfl
  | multiplySum hs _ _ he iha ihb _ =>
      have hx := not_isScaled_of_mul_sum hs hbeside
      have hnil := names_eq_nil_of_not_isScaled hx
      have ha := iha hop (fun h => (hone h).imp_right Expr.closed_left) hl hr.2.2.2.1
        (not_besideSum_atom_mul fun h => absurd h hx)
        fun _ => ⟨fun h => (hzero rfl).1 (mt Expr.closed_left h), fun h => absurd hnil h⟩
      have hb := ihb hop (fun h => (hone h).imp_right Expr.closed_right) hl hr.2.2.2.2
        (not_besideSum_atom_mul fun h => absurd h hx)
        fun _ => ⟨fun h => (hzero rfl).1 (mt Expr.closed_right h), fun h => absurd hnil h⟩
      rw [he.length_names_of_sum hs, Expr.length_names_node]
      simp only [hnil, List.length_nil] at ha hb ⊢
      omega
  | sumMultiply hs _ _ he iha ihb _ =>
      have hx := not_isScaled_of_sum_mul hs hbeside
      have hnil := names_eq_nil_of_not_isScaled hx
      have ha := iha hop (fun h => (hone h).imp_left Expr.closed_left) hl.2.2.2.1 hr
        (not_besideSum_mul_atom fun h => absurd h hx)
        fun _ => ⟨fun h => absurd hnil h, fun h => (hzero rfl).2 (mt Expr.closed_left h)⟩
      have hb := ihb hop (fun h => (hone h).imp_left Expr.closed_right) hl.2.2.2.2 hr
        (not_besideSum_mul_atom fun h => absurd h hx)
        fun _ => ⟨fun h => absurd hnil h, fun h => (hzero rfl).2 (mt Expr.closed_right h)⟩
      rw [he.length_names_of_sum hs, Expr.length_names_node]
      simp only [hnil, List.length_nil] at ha hb ⊢
      omega
  | multiplyNumber _ ih =>
      rw [Nat.add_comm]
      exact ih hop (fun h => (hone h).symm) hr hl (not_besideSum_atom_mul fun h => h.elim)
        fun _ => (hzero rfl).symm
  | @absorbFirst n x y b e htakes hy _ ihy ihe =>
      obtain ⟨-, hinert, hpart, hx, hb⟩ := hr
      have hn : (Expr.node (.atom x) .multiply b).names ≠ [] → val n ≠ 0 := (hzero rfl).1
      have hyx := ihy hop (fun _ => .inl rfl) hl hx (not_besideSum_atom_mul fun h => h.elim)
        fun _ => ⟨fun h => hn (mt Expr.closed_left h), fun h => absurd rfl h⟩
      have he := ihe hop (fun h => (hpart h).imp_left (hy.names_eq_nil rfl))
        (hy.isTidy hops hop (fun _ => .inl rfl) hl hx) hb
        (not_besideSum_atom_mul fun _ h => hinert.not_atom_mul_sum rfl ⟨trivial, h⟩)
        fun _ => ⟨fun h => not_isZero_of_takesUp hA hy htakes ((hpart trivial).resolve_right h)
          (hn (mt Expr.closed_right h)) (hA.not_isZero (hinert.left_ne_zero rfl)),
          fun _ => hA.not_isZero (hinert.right_ne_zero rfl)⟩
      rw [Expr.length_names_node]
      omega
  | @absorbSecond n x y a e htakes hy _ ihy ihe =>
      obtain ⟨-, hinert, hpart, ha, hx⟩ := hr
      have hn : (Expr.node a .multiply (.atom x)).names ≠ [] → val n ≠ 0 := (hzero rfl).1
      have hyx := ihy hop (fun _ => .inl rfl) hl hx (not_besideSum_atom_mul fun h => h.elim)
        fun _ => ⟨fun h => hn (mt Expr.closed_right h), fun h => absurd rfl h⟩
      have he := ihe hop (fun h => (hpart h).imp_right (hy.names_eq_nil rfl)) ha
        (hy.isTidy hops hop (fun _ => .inl rfl) hl hx)
        (not_besideSum_mul_atom fun _ h => hinert.not_sum_mul_atom rfl ⟨h, trivial⟩)
        fun _ => ⟨fun _ => hA.not_isZero (hinert.left_ne_zero rfl),
          fun h => not_isZero_of_takesUp hA hy htakes ((hpart trivial).resolve_left h)
            (hn (mt Expr.closed_left h)) (hA.not_isZero (hinert.right_ne_zero rfl))⟩
      rw [Expr.length_names_node]
      omega
  | @absorbDividend n x y b e _ hy _ ihy ihe =>
      obtain ⟨hdiv, -, hpart, hx, hb⟩ := hr
      have hn : (Expr.node (.atom x) .divide b).names ≠ [] → val n ≠ 0 := (hzero rfl).1
      have hyx := ihy hop (fun _ => .inl rfl) hl hx (not_besideSum_atom_mul fun h => h.elim)
        fun _ => ⟨fun h => hn (mt Expr.closed_left h), fun h => absurd rfl h⟩
      have he := ihe hdiv (fun h => (hpart h).imp_left (hy.names_eq_nil rfl))
        (hy.isTidy hops hop (fun _ => .inl rfl) hl hx) hb (fun h => h.1)
        fun h => by cases h
      rw [Expr.length_names_node]
      omega
  | powerZero _ => exact (hops.field hop).elim
  | powerOne _ => exact (hops.field hop).elim
  | powerNumbers _ => exact (hops.field hop).elim
  | powerProduct _ _ _ _ _ _ => exact (hops.field hop).elim
  | powerQuotient _ _ _ _ _ _ => exact (hops.field hop).elim
  | powerPower _ _ _ _ => exact (hops.field hop).elim

omit [DecidableEq K] in
/-- Zero is not one. -/
theorem not_equals_one {n : α} (hn : val n = 0) : A.equals n A.one ≠ .ok true := by
  intro h
  rw [hA.eq_of_equals h, hA.one] at hn
  exact one_ne_zero hn

omit [DecidableEq K] in
/-- Zero is not different from zero. -/
theorem not_equals_zero {n : α} (hn : val n = 0) : A.equals n A.zero ≠ .ok false :=
  fun h => hA.ne_of_equals h (hn.trans hA.zero.symm)

omit [DecidableEq K] in
/-- A leaf times zero has no variables. -/
theorem names_multiplyAtoms_zero {x y : Atom α} {e : Expr α} (h : multiplyAtoms A x y = .ok e)
    (h0 : (Expr.atom x).IsZero val ∨ (Expr.atom y).IsZero val) : e.names = [] := by
  cases rewrites_of_multiplyAtoms h with
  | kept hi =>
      exact h0.elim (fun h => absurd h (hA.not_isZero (hi.left_ne_zero rfl)))
        fun h => absurd h (hA.not_isZero (hi.right_ne_zero rfl))
  | addNumbers hs _ => cases hs
  | addZero hs _ => cases hs
  | multiplyNumbers _ => rfl
  | oneMultiply h1 =>
      have hy := h0.resolve_left fun hn => not_equals_one hA hn h1
      cases y with
      | number => rfl
      | _ => exact hy.elim
  | multiplyOne h1 =>
      have hx := h0.resolve_right fun hm => not_equals_one hA hm h1
      cases x with
      | number => rfl
      | _ => exact hx.elim
  | zeroMultiply _ _ => rfl
  | multiplyZero _ _ => rfl
  | multiplySame _ _ => exact h0.elim id id |>.elim
  | multiplyScaled _ _ _ => exact h0.elim id id |>.elim
  | multiplyScaledNumber hb _ => exact absurd hb (not_equals_zero hA (h0.resolve_left id))
  | multiplyNumberScaled ha _ => exact absurd ha (not_equals_zero hA (h0.resolve_right id))

omit [DecidableEq K] in
/-- A node times zero has no variables. -/
theorem names_multiplyAtom_zero {side : Side} {x : Atom α} {a b e : Expr α} {op : Operator}
    (h : multiplyAtom A side x (.node a op b) = .ok e) (h0 : (Expr.atom x).IsZero val) :
    e.names = [] := by
  cases x with
  | number n =>
      simp only [multiplyAtom] at h
      rw [bind_eq_ok] at h
      obtain ⟨t, h1, h⟩ := h
      cases t with
      | true => exact absurd h1 (not_equals_one hA h0)
      | false =>
      simp only [Bool.false_eq_true, if_false] at h
      rw [bind_eq_ok] at h
      obtain ⟨t, h2, h⟩ := h
      cases t with
      | true =>
          obtain rfl := pure_eq_ok.mp h
          rfl
      | false => exact absurd h2 (not_equals_zero hA h0)
  | _ => exact h0.elim

omit [DecidableEq K] in
/-- A product with zero has no variables. -/
theorem names_multiply_zero {l r e : Expr α} (h : multiply A l r = .ok e)
    (h0 : l.IsZero val ∨ r.IsZero val) : e.names = [] := by
  cases l with
  | atom x =>
      cases r with
      | atom y => exact names_multiplyAtoms_zero hA h h0
      | node a op b => exact names_multiplyAtom_zero hA h (h0.resolve_right id)
  | node a op b =>
      cases r with
      | atom y => exact names_multiplyAtom_zero hA h (h0.resolve_left id)
      | node => exact h0.elim id id |>.elim

/-- **A rule loses all occurrences or none** in exact arithmetic, unless a variable is beside a
sum. -/
theorem names_eq_nil_or_le (hops : OperatorKind ops) {op : Operator} {l r e : Expr α}
    (h : rule A op l r = .ok e) (hop : ops op)
    (hone : op.IsProduct → l.names = [] ∨ r.names = []) (hl : l.IsTidy A ops)
    (hr : r.IsTidy A ops) (hbeside : ¬ BesideSum op l r) :
    e.names = [] ∨ l.names.length + r.names.length ≤ e.names.length := by
  by_cases h0 : op = .multiply ∧ (l.IsZero val ∨ r.IsZero val)
  · obtain ⟨rfl, h0⟩ := h0
    exact .inl (names_multiply_zero hA h h0)
  · refine .inr ((rewrites_of_rule h).le_length_names hA hops hop hone hl hr hbeside fun hm => ?_)
    exact ⟨fun _ hz => h0 ⟨hm, .inl hz⟩, fun _ hz => h0 ⟨hm, .inr hz⟩⟩

end Exact

end Argand
