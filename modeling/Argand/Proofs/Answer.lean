import Argand.Proofs.Reader
import Argand.Proofs.Simplification.Progress
import Argand.Proofs.Simplification.Tidy

/-!
# The steps of an answer

A text is answered in steps: its sides are read and simplified, and the value of a formula is
computed or an equation is solved. This module states what the outcome of
an answer is in terms of the outcomes of these steps.

## Main results

* `Argand.outcome_evaluate`, `Argand.outcome_simplified`: a text that is read.
* `Argand.outcome_answer_formula`, `Argand.outcome_answer_equation`: the two kinds of answers.
-/

namespace Argand

variable {α : Type} {A : Arithmetic α} {limit : Except Fault DepthLimit}

/-! ### Formulas -/

/-- What can be evaluated is no stray thing. -/
theorem evaluate_eq_value {scope : Scope α} {e : Expr α} (he : ∀ a, e ≠ .atom (.stray a)) :
    e.evaluate A scope = e.value A scope := by
  unfold Expr.evaluate
  split
  · exact absurd rfl (he _)
  · rfl

/-- No entered formula is a stray thing. -/
theorem Expr.IsEntered.ne_stray {constant : String → Prop} {e : Expr α}
    (he : e.IsEntered A constant) (a : α) : e ≠ .atom (.stray a) := by
  rintro rfl
  exact he

/-- An entered formula is one over entered leaves. -/
theorem Expr.IsEntered.over {constant : String → Prop} {ops : Operator → Prop}
    (hops : OperatorKind ops) {e : Expr α} (he : e.IsEntered A constant) (h : e.HasOperators ops) :
    e.Over A (fun x => (Expr.atom x).IsEntered A constant ∧ ∀ y ∈ (Expr.atom x).names, y ∈ e.names)
      fun _ => False := by
  induction e with
  | atom x => exact .atom ⟨he, fun _ hy => hy⟩
  | node l op r ihl ihr =>
      refine .node (hops.field h.1) ((ihl he.1 h.2.1).mono ?_ fun _ => id)
        ((ihr he.2 h.2.2).mono ?_ fun _ => id)
      · exact fun x hx => ⟨hx.1, fun y hy => List.mem_append_left _ (hx.2 y hy)⟩
      · exact fun x hx => ⟨hx.1, fun y hy => List.mem_append_right _ (hx.2 y hy)⟩

/-- Entered leaves are plain. -/
theorem Atom.isPlain_of_isEntered {constant : String → Prop} {x : Atom α}
    (hx : (Expr.atom x).IsEntered A constant) : x.IsPlain := by
  cases x with
  | list items => exact hx.elim
  | stray a => exact hx.elim
  | _ => trivial

/-- **Evaluating** a text that is read takes the value of its formula. -/
theorem outcome_evaluate {source : String} {e : Expr α}
    (h : (Formula.read A limit source).outcome = .ok e) (scope : Scope α) :
    (Formula.evaluate A limit source scope).outcome = e.value A scope := by
  simp only [Formula.evaluate, Traced.outcome_bind, h]
  exact evaluate_eq_value (isEntered_of_read h).ne_stray

/-- **Simplifying** a text that is read simplifies its formula. -/
theorem outcome_simplified {source : String} {e : Expr α}
    (h : (Formula.read A limit source).outcome = .ok e) (scope : Scope α) :
    (Formula.simplified A limit scope source).outcome = e.simplify A scope := by
  simp only [Formula.simplified, Traced.outcome_bind, h]
  rfl

/-- A text that is simplified is read. -/
theorem exists_of_simplified {source : String} {scope : Scope α} {e' : Expr α}
    (h : (Formula.simplified A limit scope source).outcome = .ok e') :
    ∃ e, (Formula.read A limit source).outcome = .ok e ∧ e.simplify A scope = .ok e' := by
  rw [Formula.simplified, Traced.outcome_bind] at h
  exact bind_eq_ok.mp h

/-! ### Answers -/

/-- The answer to a text without equality sign is the **value** of its simplified formula. -/
theorem outcome_answer_formula {source formula : String} (hsides : sides source = [formula])
    (scope : Scope α) :
    (answer A limit source scope).outcome =
      ((Formula.simplified A limit scope formula).outcome >>= fun e =>
        e.evaluate A scope).map Answer.value := by
  simp only [answer, hsides, Traced.outcome_bind]
  cases (Formula.simplified A limit scope formula).outcome with
  | error fault => rfl
  | ok e =>
      show (e.evaluate A scope >>= fun v => _) = (e.evaluate A scope).map Answer.value
      cases e.evaluate A scope <;> rfl

/-- The answer to a text with one equality sign is the **solution** of its simplified sides. -/
theorem outcome_answer_equation {source left right : String}
    (hsides : sides source = [left, right]) (scope : Scope α) :
    (answer A limit source scope).outcome =
      ((Formula.simplified A limit scope left).outcome >>= fun l =>
        (Formula.simplified A limit scope right).outcome >>= fun r =>
          (answerEquation A scope l r).outcome).map Answer.solution := by
  simp only [answer, hsides, Traced.outcome_bind]
  cases (Formula.simplified A limit scope left).outcome with
  | error fault => rfl
  | ok l =>
      show ((Formula.simplified A limit scope right).outcome >>= fun r => _) = _
      cases (Formula.simplified A limit scope right).outcome with
      | error fault => rfl
      | ok r =>
          show ((answerEquation A scope l r).outcome >>= fun s => _) =
            (answerEquation A scope l r).outcome.map Answer.solution
          cases (answerEquation A scope l r).outcome <;> rfl

/-- How a solution was found. -/
theorem exists_of_answer_eq_solution {source left right : String} {scope : Scope α}
    {s : Solution α} (hsides : sides source = [left, right])
    (h : (answer A limit source scope).outcome = .ok (.solution s)) :
    ∃ L R L' R',
      ((Formula.read A limit left).outcome = .ok L ∧ L.simplify A scope = .ok L') ∧
      ((Formula.read A limit right).outcome = .ok R ∧ R.simplify A scope = .ok R') ∧
      (answerEquation A scope L' R').outcome = .ok s := by
  rw [outcome_answer_equation hsides, map_eq_ok] at h
  obtain ⟨s', h, hs⟩ := h
  obtain ⟨L', hL', h⟩ := bind_eq_ok.mp h
  obtain ⟨R', hR', h⟩ := bind_eq_ok.mp h
  obtain rfl : s' = s := by injection hs
  obtain ⟨L, hL⟩ := exists_of_simplified hL'
  obtain ⟨R, hR⟩ := exists_of_simplified hR'
  exact ⟨L, R, L', R', hL, hR, h⟩

/-! ### Numbers -/

/-- The numbers of an entered formula are numbers. -/
theorem sound_of_isEntered {ok : α → Prop} {constant : String → Prop} (hzero : ok A.zero)
    (hone : ok A.one) (hliteral : ∀ text, ok (A.literal text)) {e : Expr α}
    (he : e.IsEntered A constant) : e.Sound ok fun _ => True := by
  induction e with
  | atom x =>
      cases x with
      | number a =>
          obtain rfl | ⟨text, rfl⟩ := he
          · exact hzero
          · exact hliteral text
      | scaled x c =>
          obtain rfl := he
          exact hone
      | constant x => trivial
      | list items => exact he.elim
      | stray a => exact he.elim
  | node l op r ihl ihr => exact .any (ihl he.1) (ihr he.2)

/-! ### Kinds of answers -/

/-- The value or the solution of an answer passes the test for its kind. -/
def Answer.passes (ofValue : Value α → Bool) (ofSolution : Solution α → Bool) : Answer α → Bool
  | .value v => ofValue v
  | .solution s => ofSolution s

/-- An answer that passes a test for values only is a value. -/
theorem exists_value_of_passes {x : Except Fault (Answer α)} (test : Value α → Bool)
    (h : Yields (fun _ => False) (fun a => a.passes test (fun _ => false) = true) x) :
    ∃ v, x = .ok (.value v) ∧ test v = true := by
  obtain ⟨a, ha, htest⟩ := h.exists_ok
  cases a with
  | value v => exact ⟨v, ha, htest⟩
  | solution s => cases htest

/-- An answer that passes a test for solutions only is a solution. -/
theorem exists_solution_of_passes {x : Except Fault (Answer α)} (test : Solution α → Bool)
    (h : Yields (fun _ => False) (fun a => a.passes (fun _ => false) test = true) x) :
    ∃ s, x = .ok (.solution s) ∧ test s = true := by
  obtain ⟨a, ha, htest⟩ := h.exists_ok
  cases a with
  | value v => cases htest
  | solution s => exact ⟨s, ha, htest⟩

end Argand
