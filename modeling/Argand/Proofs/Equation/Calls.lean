import Argand.Equation
import Argand.Proofs.Simplification.Effort

/-!
# The calls of solving

Solving simplifies both sides, undoes the operator on top of the left one and solves what it gets.
`Equation.attempt` is one such call with the solver of what it gets left open, and
`Equation.Calls` says which sides it hands over. Every call hands over a left side whose simplified
form takes less effort, so the calls come to an end, and the number of steps that solving allows is
never used up: solving is the recursion that it describes.

## Main definitions

* `Argand.Equation.attempt`: one call.
* `Argand.Equation.Calls`: the call after a call.

## Main results

* `Argand.Equation.attempt_congr`: a call solves no sides but those it hands over.
* `Argand.Equation.isolate_eq_of_effort_lt`: more steps than the effort make no difference.
* `Argand.Equation.Calls.wellFounded`: there is no endless row of calls.
* `Argand.Equation.solve_terminates`: the number of calls is bounded, and they make the solution.
-/

namespace Argand

variable {α : Type}

namespace Equation

open Simplify

/-! ### One call -/

section

variable (A : Arithmetic α) (scope : Scope α)

/-- One **step** of solving from two simplified sides, where `again` solves the sides after it. -/
def step (again : Expr α → Expr α → Traced α (Solution α)) (left right : Expr α) :
    Traced α (Solution α) := do
  Traced.note (.equation left right)
  if right.hasVariable then Traced.fail .unknownOnRight
  else if !left.hasVariable then Traced.fail .noSolution
  else
    let value := Expr.ofValue (← right.evaluate A scope)
    match left with
    | .atom (.scaled name c) => do
      let v ← (value.evaluate A scope : Except Fault _)
      return ⟨name, ← (v.mapM (A.divide · c) : Except Fault _)⟩
    | .atom _ => Traced.fail .noSolution
    | .node a op b =>
      if a.hasVariable && b.hasVariable then Traced.fail (.notLinear op.symbol)
      else do
        let (left, right) ← undo A scope a.hasVariable a op b value
        again left right

/-- One **call** of solving, where `again` solves the sides that it hands over. -/
def attempt (again : Expr α → Expr α → Traced α (Solution α)) (left right : Expr α) :
    Traced α (Solution α) := do
  let left ← left.simplify A scope
  let right ← right.simplify A scope
  step A scope again left right

/-- The sides that a step from two simplified sides **hands over**: an operator with a variable in
one operand is undone. -/
inductive HandsOver : Expr α → Expr α → Expr α × Expr α → Prop
  | undone {a b right : Expr α} {op : Operator} {w : Value α} {next : Expr α × Expr α} :
      right.hasVariable = false → (a.hasVariable || b.hasVariable) = true →
      (a.hasVariable && b.hasVariable) = false → right.evaluate A scope = .ok w →
      undo A scope a.hasVariable a op b (Expr.ofValue w) = .ok next →
      HandsOver (.node a op b) right next

/-- The **call after a call**: the first one simplifies its sides and hands over the others. -/
def Calls (sides next : Expr α × Expr α) : Prop :=
  ∃ left right, sides.1.simplify A scope = .ok left ∧ sides.2.simplify A scope = .ok right ∧
    HandsOver A scope left right next

end

variable {A : Arithmetic α} {scope : Scope α}

/-- A step solves no sides but those it hands over. -/
theorem step_congr {again again' : Expr α → Expr α → Traced α (Solution α)}
    {left right : Expr α}
    (h : ∀ next, HandsOver A scope left right next → again next.1 next.2 = again' next.1 next.2) :
    step A scope again left right = step A scope again' left right := by
  refine Traced.bind_congr fun _ _ => ?_
  cases hr : right.hasVariable with
  | true => rfl
  | false =>
  cases hl : left.hasVariable with
  | false => rfl
  | true =>
  refine Traced.lift_bind_congr fun w hw => ?_
  cases left with
  | atom x => cases x <;> rfl
  | node a op b =>
      dsimp only
      cases hab : a.hasVariable && b.hasVariable with
      | true => rfl
      | false => exact Traced.lift_bind_congr fun next hnext => h next (.undone hr hl hab hw hnext)

/-- **A call solves no sides but those it hands over.** -/
theorem attempt_congr {again again' : Expr α → Expr α → Traced α (Solution α)}
    {left right : Expr α}
    (h : ∀ next, Calls A scope (left, right) next →
      again next.1 next.2 = again' next.1 next.2) :
    attempt A scope again left right = attempt A scope again' left right := by
  refine Traced.lift_bind_congr fun l hl => ?_
  refine Traced.lift_bind_congr fun r hr => ?_
  exact step_congr fun next hnext => h next ⟨l, r, hl, hr, hnext⟩

/-! ### Effort -/

/-- The left side **after one step** is the operand with the unknown, unless that is a divisor. -/
theorem undo_fst {inFirst : Bool} {a b right : Expr α} {op : Operator} {next : Expr α × Expr α}
    (h : undo A scope inFirst a op b right = .ok next) :
    next.1 = if inFirst then a else if op = .divide then .node right .multiply b else b := by
  unfold undo at h
  split at h
  · split at h
    · obtain ⟨_, -, h⟩ := bind_eq_ok.mp h
      obtain rfl := pure_eq_ok.mp h
      rfl
    · obtain rfl := pure_eq_ok.mp h
      rfl
  · obtain ⟨_, -, h⟩ := bind_eq_ok.mp h
    obtain ⟨_, -, h⟩ := bind_eq_ok.mp h
    obtain rfl := pure_eq_ok.mp h
    rfl
  all_goals cases h <;> rfl

/-- **Undoing an operator** leaves less effort: a divisor that comes to stand in a product takes two
steps of the quotient and one of the product. -/
theorem effort_undo_lt {inFirst : Bool} {a b : Expr α} {op : Operator} {w : Value α}
    {next : Expr α × Expr α} (h : undo A scope inFirst a op b (Expr.ofValue w) = .ok next) :
    next.1.effort A < (Expr.node a op b).effort A := by
  rw [undo_fst h]
  split
  · exact (Expr.effort_operand_lt a op b).1
  · split
    · have hb := b.lead_le_effort (A := A)
      subst op
      simp only [Expr.effort_multiply, Expr.effort_divide, Expr.effort_ofValue, Expr.lead_ofValue]
      omega
    · exact (Expr.effort_operand_lt a op b).2

/-- **The left side handed over** takes less effort. -/
theorem HandsOver.effort_lt {left right : Expr α} {next : Expr α × Expr α}
    (h : HandsOver A scope left right next) : next.1.effort A < left.effort A := by
  obtain ⟨-, -, -, -, hundo⟩ := h
  exact effort_undo_lt hundo

/-- The left side handed over takes less effort once it is simplified, too. -/
theorem HandsOver.effort_simplify_lt (hA : A.HasUnits) {left right l' : Expr α}
    {next : Expr α × Expr α} (h : HandsOver A scope left right next)
    (hl' : next.1.simplify A scope = .ok l') : l'.effort A < left.effort A :=
  Nat.lt_of_le_of_lt (effort_simplify_le hA hl').1 h.effort_lt

/-! ### Steps -/

/-- The number of steps that solving allows is more than the effort. -/
theorem effort_lt_stepBound (e : Expr α) : e.effort A < stepBound e := by
  have hsize := e.effort_lt_two_mul_size (A := A)
  rw [stepBound]
  omega

/-- One more step is a step whose sides are solved in the steps that remain. -/
theorem isolate_succ (steps : Nat) (left right : Expr α) :
    isolate A scope (steps + 1) left right =
      step A scope (fun l r => do
        let left ← l.simplify A scope
        let right ← r.simplify A scope
        isolate A scope steps left right) left right := by
  cases left with
  | atom x => cases x <;> rfl
  | node a op b => rfl

/-- **More steps than the effort make no difference.** -/
theorem isolate_eq_of_effort_lt (hA : A.HasUnits) {m n : Nat} {left right : Expr α}
    (hm : left.effort A < m) (hn : left.effort A < n) :
    isolate A scope m left right = isolate A scope n left right := by
  induction m generalizing n left right with
  | zero => exact absurd hm (Nat.not_lt_zero _)
  | succ m ih =>
      obtain _ | n := n
      · exact absurd hn (Nat.not_lt_zero _)
      rw [isolate_succ, isolate_succ]
      refine step_congr fun next hnext => ?_
      refine Traced.lift_bind_congr fun l' hl' => Traced.lift_bind_congr fun r' _ => ?_
      have hlt := hnext.effort_simplify_lt hA hl'
      exact ih (by omega) (by omega)

/-- **Solving is the recursion** that its calls describe. -/
theorem solve_eq_attempt (hA : A.HasUnits) (left right : Expr α) :
    solve A left right scope = attempt A scope (fun l r => solve A l r scope) left right := by
  refine Traced.lift_bind_congr fun l _ => Traced.lift_bind_congr fun r _ => ?_
  rw [stepBound, Nat.mul_succ, isolate_succ]
  refine step_congr fun next hnext => ?_
  refine Traced.lift_bind_congr fun l' hl' => Traced.lift_bind_congr fun r' _ => ?_
  have hlt := hnext.effort_simplify_lt hA hl'
  have hsize := l.effort_lt_two_mul_size (A := A)
  exact isolate_eq_of_effort_lt hA (by omega) (effort_lt_stepBound l')

/-! ### Rows of calls -/

/-- **A call hands over less effort** than it was given. -/
theorem Calls.effort_lt (hA : A.HasUnits) {sides next : Expr α × Expr α}
    (h : Calls A scope sides next) : next.1.effort A < sides.1.effort A := by
  obtain ⟨left, right, hleft, -, hnext⟩ := h
  exact Nat.lt_of_lt_of_le hnext.effort_lt (effort_simplify_le hA hleft).1

/-- **There is no endless row of calls.** -/
theorem Calls.wellFounded (hA : A.HasUnits) (scope : Scope α) :
    WellFounded fun next sides => Calls A scope sides next :=
  Subrelation.wf (Calls.effort_lt hA) (measure fun sides : Expr α × Expr α => sides.1.effort A).wf

/-- A row of calls is no longer than the effort that it is given. -/
theorem length_le_effort (hA : A.HasUnits) {calls : List (Expr α × Expr α)}
    {sides : Expr α × Expr α} (h : List.IsChain (Calls A scope) (sides :: calls)) :
    calls.length ≤ sides.1.effort A := by
  induction calls generalizing sides with
  | nil => exact Nat.zero_le _
  | cons next calls ih =>
      obtain ⟨hnext, hcalls⟩ := List.isChain_cons_cons.mp h
      have hrest := ih hcalls
      have hlt := hnext.effort_lt hA
      rw [List.length_cons]
      omega

/-- **The number of calls** after the first is bounded by the size of its simplified left side. -/
theorem length_lt_of_isChain (hA : A.HasUnits) {calls : List (Expr α × Expr α)}
    {sides : Expr α × Expr α} (h : List.IsChain (Calls A scope) (sides :: calls))
    (hne : calls ≠ []) :
    ∃ left, sides.1.simplify A scope = .ok left ∧ calls.length < 2 * left.size := by
  obtain ⟨next, calls, rfl⟩ := List.exists_cons_of_ne_nil hne
  obtain ⟨⟨left, _, hleft, -, hnext⟩, hcalls⟩ := List.isChain_cons_cons.mp h
  refine ⟨left, hleft, ?_⟩
  have hlt := hnext.effort_lt
  have hrest := length_le_effort hA hcalls
  have hsize := left.effort_lt_two_mul_size (A := A)
  rw [List.length_cons]
  omega

/-- **Solving terminates**, whatever the sides and the scope. A row of calls after the first is
shorter than twice the size of its simplified left side; a call solves no sides but those it hands
over; and solving is the recursion of the calls, with no bound in it: the number of steps that it
allows is never used up. -/
theorem solve_terminates (scope : Scope Operand) (left right : Expr Operand) :
    (∀ calls, List.IsChain (Calls calculator scope) ((left, right) :: calls) → calls ≠ [] →
      ∃ left', left.simplify calculator scope = .ok left' ∧ calls.length < 2 * left'.size) ∧
    (∀ again again', (∀ next, Calls calculator scope (left, right) next →
        again next.1 next.2 = again' next.1 next.2) →
      attempt calculator scope again left right = attempt calculator scope again' left right) ∧
    solve calculator left right scope =
      attempt calculator scope (fun l r => solve calculator l r scope) left right :=
  ⟨fun _ h hne => length_lt_of_isChain hasUnits_calculator h hne,
    fun _ _ h => attempt_congr h, solve_eq_attempt hasUnits_calculator left right⟩

/-- From `1 / x = 2` the second call gets `2 * x = 1`. -/
theorem solve_terminates_quotient :
    let one : Expr Operand := .number (.number ⟨1, 0⟩)
    let two : Expr Operand := .number (.number ⟨2, 0⟩)
    let x : Expr Operand := plain calculator "x"
    List.IsChain (Calls calculator []) [(.node one .divide x, two), (.node two .multiply x, one)] ∧
      ∃ left', (Expr.node one .divide x).simplify calculator [] = .ok left' ∧
        1 < 2 * left'.size := by
  intro one two x
  have hcalls : List.IsChain (Calls calculator [])
      [(.node one .divide x, two), (.node two .multiply x, one)] :=
    .cons_cons ⟨_, _, rfl, rfl, .undone rfl rfl rfl rfl rfl⟩ (.singleton _)
  exact ⟨hcalls, (solve_terminates [] _ two).1 _ hcalls (List.cons_ne_nil _ _)⟩

end Equation

end Argand
