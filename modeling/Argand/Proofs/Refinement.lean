import Argand.Answer
import Argand.Proofs.Computation

/-!
# Arithmetics that refuse more

If one arithmetic gives the results of another one or refuses, then so do simplification,
evaluation and solving with it: what it answers is the answer of the other.

## Main definitions

* `Argand.Refines`: a computation that has the results of another one.
* `Argand.Arithmetic.Refines`: an arithmetic that does.

## Main results

* `Argand.refines_answer`: the answers agree.
-/

namespace Argand

open Simplify

variable {α β γ : Type}

/-! ### Computations -/

/-- A computation **refines** another one if all its results are results of the other. -/
def Refines (x y : Except Fault β) : Prop :=
  ∀ b, x = .ok b → y = .ok b

namespace Refines

theorem refl (x : Except Fault β) : Refines x x := fun _ h => h

/-- One step after another. -/
theorem bind {x y : Except Fault β} {f g : β → Except Fault γ} (hxy : Refines x y)
    (hfg : ∀ b, Refines (f b) (g b)) : Refines (x >>= f) (y >>= g) := by
  intro c h
  obtain ⟨b, hb, h⟩ := bind_eq_ok.mp h
  exact bind_eq_ok.mpr ⟨b, hxy b hb, hfg b c h⟩

theorem map {x y : Except Fault β} (hxy : Refines x y) (f : β → γ) :
    Refines (x.map f) (y.map f) := by
  intro c h
  obtain ⟨b, hb, rfl⟩ := map_eq_ok.mp h
  rw [hxy b hb]
  rfl

theorem error (f : Fault) (y : Except Fault β) : Refines (.error f) y := nofun

/-- A loop whose steps are refined. -/
theorem foldlM {f g : β → γ → Except Fault β} (hfg : ∀ b x, Refines (f b x) (g b x))
    (xs : List γ) (b : β) : Refines (xs.foldlM f b) (xs.foldlM g b) := by
  induction xs generalizing b with
  | nil => exact .refl _
  | cons x xs ih =>
      rw [List.foldlM_cons, List.foldlM_cons]
      exact (hfg b x).bind fun b' => ih b'

/-- A **test with an early result** may be refined in both of its parts. -/
theorem test {t t' : Except Fault Bool} {early : β} {x x' : Except Fault β} (ht : Refines t t')
    (hx : Refines x x') :
    Refines (t >>= fun b => if b = true then pure early else x)
      (t' >>= fun b => if b = true then pure early else x') := by
  refine ht.bind fun b => ?_
  cases b with
  | true => exact .refl _
  | false => exact hx

end Refines

/-- An arithmetic **refines** another one if it has the same numbers and all its results are
results of the other. -/
structure Arithmetic.Refines (A B : Arithmetic α) : Prop where
  zero : A.zero = B.zero
  one : A.one = B.one
  two : A.two = B.two
  literal : A.literal = B.literal
  constant : A.constant? = B.constant?
  contents : A.contents = B.contents
  add : ∀ a b, Argand.Refines (A.add a b) (B.add a b)
  subtract : ∀ a b, Argand.Refines (A.subtract a b) (B.subtract a b)
  multiply : ∀ a b, Argand.Refines (A.multiply a b) (B.multiply a b)
  divide : ∀ a b, Argand.Refines (A.divide a b) (B.divide a b)
  power : ∀ a b, Argand.Refines (A.power a b) (B.power a b)
  negate : ∀ a, Argand.Refines (A.negate a) (B.negate a)
  log : ∀ a, Argand.Refines (A.log a) (B.log a)
  roots : ∀ a n, Argand.Refines (A.roots a n) (B.roots a n)
  equals : ∀ a b, Argand.Refines (A.equals a b) (B.equals a b)

variable {A B : Arithmetic α} (h : A.Refines B)

include h

/-! ### Sums -/

theorem refines_isNumber {a b : α} (hab : a = b) (x : Atom α) :
    Refines (isNumber A a x) (isNumber B b x) := by
  subst hab
  cases x with
  | number n => exact h.equals n a
  | _ => exact .refl _

theorem refines_isNeutral (s : Sign) (n : α) : Refines (isNeutral A s n) (isNeutral B s n) := by
  cases s with
  | plus => simpa only [isNeutral, h.zero] using h.equals n B.zero
  | minus => exact .refl _

theorem refines_signed (s : Sign) (n : α) : Refines (signed A s n) (signed B s n) := by
  cases s with
  | plus => exact .refl _
  | minus => exact h.negate n

theorem refines_apply (s : Sign) (a b : α) :
    Refines (Simplify.apply A s a b) (Simplify.apply B s a b) := by
  cases s with
  | plus => exact h.add a b
  | minus => exact h.subtract a b

theorem refines_combineNumber (s : Sign) (n : α) (r : Expr α) :
    Refines (combineNumber A s n r) (combineNumber B s n r) := by
  induction r generalizing s n with
  | atom a =>
      cases a with
      | number m => exact (refines_apply h s n m).bind fun c => .refl _
      | _ => exact (refines_isNeutral h s n).test (.refl _)
  | node a op b iha ihb =>
      unfold combineNumber
      refine (refines_isNeutral h s n).test ?_
      split
      · exact (refines_signed h _ _).bind fun x => (h.add _ _).bind fun m => ihb _ _
      · exact (refines_signed h _ _).bind fun x => (h.add _ _).bind fun m => iha _ _
      · exact .refl _

theorem refines_combine (s : Sign) (l r : Expr α) :
    Refines (combine A s l r) (combine B s l r) := by
  have hzero (m : α) : Refines (A.equals m A.zero) (B.equals m B.zero) := h.zero ▸ h.equals m _
  unfold combine
  split
  · exact refines_combineNumber h s _ _
  · exact (hzero _).test (.refl _)
  · refine (hzero _).test ?_
    split
    · exact (refines_signed h _ _).bind fun m => (h.add _ _).bind fun x =>
        refines_combineNumber h _ _ _
    · exact (refines_signed h _ _).bind fun y => (refines_signed h _ _).bind fun m =>
        (h.add _ _).bind fun x => refines_combineNumber h _ _ _
    · exact .refl _
  · exact .refl _

/-! ### Quotients -/

theorem refines_scaledBy (c : α) (e : Expr α) : Refines (scaledBy A c e) (scaledBy B c e) := by
  rw [scaledBy, h.zero, h.one]
  exact (h.equals c _).test ((h.equals c _).test (.refl _))

theorem plain_eq : plain A = plain B := by
  funext x
  rw [plain, h.one, plain]

theorem refines_divideAtoms (x y : Atom α) :
    Refines (divideAtoms A x y) (divideAtoms B x y) := by
  unfold divideAtoms
  rw [plain_eq h]
  split
  · exact (h.divide _ _).bind fun c => .refl _
  · refine (refines_isNumber h h.one y).test ?_
    split
    · refine (h.divide _ _).bind fun c => ?_
      split
      · exact .refl _
      · exact refines_scaledBy h c _
    · exact (h.divide _ _).bind fun c => .refl _
    · exact .refl _

theorem refines_divideByAtom (y : Atom α) (l : Expr α) :
    Refines (divideByAtom A y l) (divideByAtom B y l) := by
  induction l with
  | atom x => exact refines_divideAtoms h x y
  | node a op b iha ihb =>
      rw [divideByAtom]
      refine (refines_isNumber h h.one y).test ?_
      split
      · exact iha.bind fun a' => ihb.bind fun b' => refines_combine h _ a' b'
      · exact .refl _

theorem refines_divide (l r : Expr α) : Refines (divide A l r) (divide B l r) := by
  cases r with
  | atom y => exact refines_divideByAtom h y l
  | node => exact .refl _

/-! ### Products -/

theorem refines_multiplyAtoms (x y : Atom α) :
    Refines (multiplyAtoms A x y) (multiplyAtoms B x y) := by
  unfold multiplyAtoms
  rw [plain_eq h, h.zero, h.one, h.two]
  split
  · exact (h.multiply _ _).bind fun c => .refl _
  · refine (refines_isNumber h rfl x).test ((refines_isNumber h rfl y).test ?_)
    refine (refines_isNumber h rfl x).test ((refines_isNumber h rfl y).test ?_)
    split
    · refine (h.multiply _ _).bind fun c => ?_
      split <;> exact refines_scaledBy h c _
    · exact (h.multiply _ _).bind fun c => .refl _
    · exact (h.multiply _ _).bind fun c => .refl _
    · exact .refl _

theorem refines_absorb (n : α) (e : Expr α) : Refines (absorb A n e) (absorb B n e) := by
  unfold absorb
  rw [h.zero, h.one]
  split
  · exact (h.multiply _ _).bind fun c => .refl _
  · exact (h.equals n _).test ((h.equals n _).test ((h.multiply _ _).bind fun c => .refl _))
  · exact .refl _

theorem refines_multiplyAtom (side : Side) (x : Atom α) (r : Expr α) :
    Refines (multiplyAtom A side x r) (multiplyAtom B side x r) := by
  induction r generalizing side x with
  | atom y =>
      cases side with
      | left => exact refines_multiplyAtoms h x y
      | right => exact refines_multiplyAtoms h y x
  | node a op b iha ihb =>
      unfold multiplyAtom
      rw [h.zero, h.one]
      refine (refines_isNumber h rfl x).test ((refines_isNumber h rfl x).test ?_)
      split
      · exact (iha _ _).bind fun a' => (ihb _ _).bind fun b' => refines_combine h _ a' b'
      · split
        · refine (refines_absorb h _ a).bind fun t => ?_
          cases t with
          | some leaf => exact ihb _ _
          | none =>
              refine (refines_absorb h _ b).bind fun t => ?_
              cases t with
              | some leaf => exact iha _ _
              | none => exact .refl _
        · refine (refines_absorb h _ a).bind fun t => ?_
          cases t with
          | some leaf => exact refines_divide h _ b
          | none => exact .refl _
        · exact .refl _
      · exact (iha _ _).bind fun a' => (ihb _ _).bind fun b' => refines_combine h _ a' b'
      · exact .refl _

theorem refines_multiply (l r : Expr α) : Refines (multiply A l r) (multiply B l r) := by
  unfold multiply
  split
  · exact refines_multiplyAtom h _ _ _
  · exact refines_multiplyAtom h _ _ _
  · exact .refl _

/-! ### Powers and formulas -/

theorem refines_raise (l r : Expr α) : Refines (raise A l r) (raise B l r) := by
  have hnumber (a : α) (e : Expr α) : Refines (isNumberExpr A a e) (isNumberExpr B a e) := by
    cases e with
    | atom x => exact refines_isNumber h rfl x
    | node => exact .refl _
  induction l generalizing r with
  | atom x =>
      unfold raise
      rw [h.zero, h.one]
      refine (hnumber _ r).test ((hnumber _ r).test ?_)
      split
      · exact (h.power _ _).bind fun c => .refl _
      all_goals first | cases ‹Expr.atom _ = _› | exact .refl _
  | node a op b iha ihb =>
      unfold raise
      rw [h.zero, h.one]
      refine (hnumber _ r).test ((hnumber _ r).test ?_)
      cases op with
      | multiply => exact (iha r).bind fun a' => (ihb r).bind fun b' => refines_multiply h a' b'
      | divide => exact (iha r).bind fun a' => (ihb r).bind fun b' => refines_divide h a' b'
      | power => exact (refines_multiply h b r).bind fun p => iha p
      | _ => exact .refl _

theorem refines_rule (op : Operator) (l r : Expr α) : Refines (rule A op l r) (rule B op l r) := by
  cases op with
  | add => exact refines_combine h .plus l r
  | subtract => exact refines_combine h .minus l r
  | multiply => exact refines_multiply h l r
  | divide => exact refines_divide h l r
  | power => exact refines_raise h l r
  | _ => exact .refl _

omit h in
theorem refines_valueMapM {f g : α → Except Fault α} (hfg : ∀ a, Refines (f a) (g a))
    (v : Value α) : Refines (v.mapM f) (v.mapM g) := by
  cases v with
  | one a => exact (hfg a).map _
  | many items =>
      refine Refines.map ?_ _
      induction items with
      | nil => exact .refl _
      | cons a items ih =>
          rw [List.mapM_cons, List.mapM_cons]
          exact (hfg a).bind fun c => ih.bind fun cs => .refl _

/-- **Simplification** with the refined arithmetic. -/
theorem refines_simplify (scope : Scope α) (e : Expr α) :
    Refines (e.simplify A scope) (e.simplify B scope) := by
  induction e with
  | atom x =>
      cases x with
      | scaled x c =>
          simp only [Expr.simplify, Simplify.atom]
          split
          · exact .refl _
          · exact (refines_valueMapM (h.multiply c) _).bind fun w => .refl _
      | _ => exact .refl _
  | node l op r ihl ihr => exact ihl.bind fun l' => ihr.bind fun r' => refines_rule h op l' r'

/-! ### Values -/

theorem refines_keepDistinct (kept : List α) (item : α) :
    Refines (keepDistinct A.equals kept item) (keepDistinct B.equals kept item) := by
  have hany : Refines (kept.anyM (A.equals · item)) (kept.anyM (B.equals · item)) := by
    induction kept with
    | nil => exact .refl _
    | cons a kept ih =>
        refine (h.equals a item).bind fun t => ?_
        cases t with
        | true => exact .refl _
        | false => exact ih
  exact hany.bind fun t => .refl _

theorem refines_lift {f g : α → α → Except Fault (Value α)} (hfg : ∀ a b, Refines (f a b) (g a b))
    (x y : Value α) : Refines (lift A.equals f x y) (lift B.equals g x y) :=
  .foldlM (fun kept a => .foldlM (fun kept b => (hfg a b).bind fun _ =>
    .foldlM (fun kept c => refines_keepDistinct h kept c) _ kept) _ kept) _ _

theorem refines_combineValues {f g : α → α → Except Fault α} (hfg : ∀ a b, Refines (f a b) (g a b))
    (x y : Value α) :
    Refines (combineValues A.equals f x y) (combineValues B.equals g x y) := by
  unfold combineValues
  split
  · exact (hfg _ _).map _
  · exact (refines_lift h (fun a b => (hfg a b).map _) _ _).map _

theorem refines_operate (op : Operator) (x y : Value α) :
    Refines (Expr.operate A op x y) (Expr.operate B op x y) := by
  cases op with
  | add => exact refines_combineValues h h.add x y
  | subtract => exact refines_combineValues h h.subtract x y
  | multiply => exact refines_combineValues h h.multiply x y
  | divide => exact refines_combineValues h h.divide x y
  | power => exact refines_combineValues h h.power x y
  | plusMinus =>
      refine (refines_lift h (fun a b => ?_) x y).map _
      exact (h.add a b).bind fun c => (h.subtract a b).bind fun d => .refl _
  | other symbol => exact .refl _

/-- **Evaluation** with the refined arithmetic. -/
theorem refines_value (scope : Scope α) (e : Expr α) :
    Refines (e.value A scope) (e.value B scope) := by
  induction e with
  | atom x =>
      cases x with
      | number a =>
          simp only [Expr.value, Expr.atomValue, h.contents]
          exact .refl _
      | scaled x c =>
          simp only [Expr.value, Expr.atomValue]
          split
          · exact refines_valueMapM (h.multiply c) _
          · exact .refl _
      | constant x =>
          simp only [Expr.value, Expr.atomValue, h.constant]
          exact .refl _
      | list items => exact .refl _
      | stray a => exact .error _ _
  | node l op r ihl ihr => exact ihl.bind fun x => ihr.bind fun y => refines_operate h op x y

theorem refines_evaluate (scope : Scope α) (e : Expr α) :
    Refines (e.evaluate A scope) (e.evaluate B scope) := by
  unfold Expr.evaluate
  split
  · exact .error _ _
  · exact refines_value h scope e

theorem refines_roots (e : Expr α) (n : α) : Refines (e.roots A n) (e.roots B n) := by
  rw [Expr.roots]
  rw [h.contents]
  exact (refines_value h [] e).bind fun v =>
    (refines_lift h (fun a m => (h.roots a m).map _) v _).bind fun items => .refl _

theorem refines_logarithm (scope : Scope α) (e : Expr α) :
    Refines (e.logarithm A scope) (e.logarithm B scope) := by
  refine (refines_evaluate h scope e).bind fun v => ?_
  cases v with
  | one a => exact (h.log a).bind fun b => .refl _
  | many items =>
      have hmap : Refines (items.mapM A.log) (items.mapM B.log) := by
        induction items with
        | nil => exact .refl _
        | cons a items ih =>
            rw [List.mapM_cons, List.mapM_cons]
            exact (h.log a).bind fun c => ih.bind fun cs => .refl _
      exact hmap.bind fun items' => .refl _

/-! ### Equations -/

theorem refines_undo (scope : Scope α) (inFirst : Bool) (a : Expr α) (op : Operator)
    (b right : Expr α) :
    Refines (Equation.undo A scope inFirst a op b right)
      (Equation.undo B scope inFirst a op b right) := by
  unfold Equation.undo
  rw [h.zero]
  split
  · split
    · exact (refines_roots h _ _).bind fun e => .refl _
    · rw [Equation.reciprocal, h.one]
      exact .refl _
  · exact (refines_logarithm h _ _).bind fun x => (refines_logarithm h _ _).bind fun y => .refl _
  all_goals first | exact .refl _ | exact .error _ _

/-- **Solving** with the refined arithmetic. -/
theorem refines_isolate (scope : Scope α) (steps : Nat) (left right : Expr α) :
    Refines (Equation.isolate A scope steps left right).outcome
      (Equation.isolate B scope steps left right).outcome := by
  induction steps generalizing left right with
  | zero => exact .error _ _
  | succ steps ih =>
      rw [Equation.isolate, Equation.isolate, Traced.outcome_bind, Traced.outcome_bind]
      refine (Refines.refl _).bind fun _ => ?_
      split
      · exact .error _ _
      · split
        · exact .error _ _
        · rw [Traced.outcome_bind, Traced.outcome_bind]
          refine (refines_evaluate h scope right).bind fun w => ?_
          split
          · rw [Traced.outcome_bind, Traced.outcome_bind]
            refine (refines_evaluate h scope _).bind fun v => ?_
            rw [Traced.outcome_bind, Traced.outcome_bind]
            exact (refines_valueMapM (fun a => h.divide a _) v).bind fun u => .refl _
          · exact .error _ _
          · split
            · exact .error _ _
            · rw [Traced.outcome_bind, Traced.outcome_bind]
              refine (refines_undo h scope _ _ _ _ _).bind fun sides => ?_
              obtain ⟨l, r⟩ := sides
              rw [Traced.outcome_bind, Traced.outcome_bind]
              refine (refines_simplify h scope l).bind fun l' => ?_
              rw [Traced.outcome_bind, Traced.outcome_bind]
              exact (refines_simplify h scope r).bind fun r' => ih l' r'

theorem refines_answerEquation (scope : Scope α) (left right : Expr α) :
    Refines (answerEquation A scope left right).outcome
      (answerEquation B scope left right).outcome := by
  have solve (left right : Expr α) : Refines (Equation.solve A left right scope).outcome
      (Equation.solve B left right scope).outcome := by
    unfold Equation.solve
    rw [Traced.outcome_bind, Traced.outcome_bind]
    refine (refines_simplify h scope left).bind fun l => ?_
    rw [Traced.outcome_bind, Traced.outcome_bind]
    exact (refines_simplify h scope right).bind fun r => refines_isolate h scope _ l r
  unfold answerEquation
  split
  · exact solve left right
  · split
    · exact solve right left
    · exact .error _ _

/-! ### Reading -/

/-- The rules of the grammar are the same. -/
structure Grammar.Same (A B : Arithmetic α) (l : DepthLimit) (n : Nat) : Prop where
  expression : Grammar.expression A l n = Grammar.expression B l n
  addition : Grammar.addition A l n = Grammar.addition B l n
  additionLinks : Grammar.additionLinks A l n = Grammar.additionLinks B l n
  multiplication : Grammar.multiplication A l n = Grammar.multiplication B l n
  multiplicationLinks : Grammar.multiplicationLinks A l n = Grammar.multiplicationLinks B l n
  power : Grammar.power A l n = Grammar.power B l n
  powerValue : Grammar.powerValue A l n = Grammar.powerValue B l n
  value : Grammar.value A l n = Grammar.value B l n

/-- The grammar uses zero, one and numerals only. -/
theorem grammar_same (l : DepthLimit) (n : Nat) : Grammar.Same A B l n := by
  induction n with
  | zero => constructor <;> rfl
  | succ n ih =>
      constructor
      · simp only [Grammar.expression, ih.addition, ih.expression]
      · simp only [Grammar.addition, ih.multiplication, ih.additionLinks]
      · funext e
        simp only [Grammar.additionLinks, ih.multiplication, ih.additionLinks]
      · simp only [Grammar.multiplication, ih.power, ih.multiplicationLinks]
      · funext e
        simp only [Grammar.multiplicationLinks, ih.power, ih.multiplicationLinks,
          ih.multiplication]
      · simp only [Grammar.power, ih.value, ih.powerValue]
      · simp only [Grammar.powerValue, ih.power, ih.multiplication]
      · simp only [Grammar.value, ih.expression, ih.value, Grammar.variableNode, h.zero, h.one,
          h.literal]

/-- **Reading** with the refined arithmetic. -/
theorem read_eq (limit : Except Fault DepthLimit) (source : String) :
    Formula.read A limit source = Formula.read B limit source := by
  have hrule (l : DepthLimit) (any : Bool) :
      Grammar.formula A l any = Grammar.formula B l any := by
    have happly : Grammar.apply A l .expression = Grammar.apply B l .expression := by
      funext c
      simp only [Grammar.apply, Grammar.rule, (grammar_same h l _).expression]
    simp only [Grammar.formula, happly]
  simp only [Formula.read, hrule]

/-- **The answers** with the refined arithmetic are answers. -/
theorem refines_answer (limit : Except Fault DepthLimit) (source : String) (scope : Scope α) :
    Refines (answer A limit source scope).outcome (answer B limit source scope).outcome := by
  have simplified (text : String) : Refines (Formula.simplified A limit scope text).outcome
      (Formula.simplified B limit scope text).outcome := by
    unfold Formula.simplified
    rw [read_eq h, Traced.outcome_bind, Traced.outcome_bind]
    exact (Refines.refl _).bind fun e => refines_simplify h scope e
  unfold answer
  split
  · rw [Traced.outcome_bind, Traced.outcome_bind]
    refine (simplified _).bind fun l => ?_
    rw [Traced.outcome_bind, Traced.outcome_bind]
    refine (simplified _).bind fun r => ?_
    rw [Traced.outcome_bind, Traced.outcome_bind]
    exact (refines_answerEquation h scope l r).bind fun s => .refl _
  · rw [Traced.outcome_bind, Traced.outcome_bind]
    refine (simplified _).bind fun e => ?_
    rw [Traced.outcome_bind, Traced.outcome_bind]
    exact (refines_evaluate h scope e).bind fun v => .refl _
  · exact .error _ _

end Argand
