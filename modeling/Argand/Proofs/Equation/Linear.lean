import Argand.Proofs.Equation.Solution
import Argand.Proofs.Equation.Termination
import Argand.Proofs.Simplification.Apart

/-!
# Linear equations

An equation without powers in which a single variable is unbound, and occurs once, is linear or
the reciprocal of a linear one. It is solved unless a division by zero stands in the way or the
variable is cancelled; but only if simplification does not spread the variable over a sum, for the
two occurrences it has then are not brought together again.

## Main results

* `Argand.isPending_simplify`: sides that keep apart become left sides of solving.
* `Argand.yields_answerEquation`: how solving such sides ends.
* `Argand.linear_equation_solved`: which linear equations are solved, and which are not.
-/

namespace Argand

open Simplify

variable {α K : Type} {A : Arithmetic α}

/-! ### Simplified sides -/

/-- The leaves of the simplified form of an entered formula are known. -/
theorem over_isKnown {constant : String → Prop} (hconst : ∀ x, constant x → (A.constant? x).isSome)
    {scope : Scope α} (hs : scope.IsSingle) {e e' : Expr α} (he : e.IsEntered A constant)
    (hops : e.HasOperators Operator.IsField) (h : e.simplify A scope = .ok e') :
    e'.Over A (Atom.IsKnown A) fun _ => True := by
  refine over_simplify (leafKind_isKnown A) (fun x hx e' h => ?_) (fun _ hx => hx.elim)
    (he.over operatorKind_isField hops) h
  obtain ⟨rfl, -⟩ | ⟨d, rfl⟩ := hs.atom_cases h
  · refine .atom ?_
    cases x with
    | number | scaled => trivial
    | constant x => exact hconst x hx.1
    | list | stray => exact hx.1.elim
  · exact .atom trivial

section Sides

variable {P : Fault → Prop} {ok : α → Prop} {scope : Scope α} {x : String}

/-- **The simplified form of a side** that keeps apart is pending. -/
theorem isPending_simplify {constant : String → Prop}
    (hconst : ∀ x, constant x → (A.constant? x).isSome) (hs : scope.IsSingle) {e e' : Expr α}
    (he : e.IsEntered A constant) (hops : e.HasOperators Operator.IsField)
    (hnames : ∀ y ∈ e.unbound scope, y = x) (hone : (e.unbound scope).length ≤ 1)
    (hk : e.KeepsApart A scope) (h : e.simplify A scope = .ok e')
    (hok : e'.Sound ok fun _ => True) : e'.IsPending A ok x := by
  obtain ⟨htidy, hmem⟩ := isTidy_simplify operatorKind_isField hops hone h
  exact ⟨htidy, over_isKnown hconst hs he hops h, hok, fun y hy => hnames y (hmem y hy),
    (length_names_simplify operatorKind_isField hops hone hk h).trans hone⟩

variable (hA : A.Handles P ok fun _ => True)
  (hs : ∀ x v, scope.value? x = some v → ∀ a ∈ v.items, ok a)

include hA hs

/-- Simplifying a side that keeps apart gives a pending one, up to faults of the arithmetic. -/
theorem yields_isPending {constant : String → Prop}
    (hconst : ∀ x, constant x → (A.constant? x).isSome) (hsingle : scope.IsSingle) {e : Expr α}
    (he : e.IsEntered A constant) (hops : e.HasOperators Operator.IsField)
    (hok : e.Sound ok fun _ => True) (hnames : ∀ y ∈ e.unbound scope, y = x)
    (hone : (e.unbound scope).length ≤ 1) (hk : e.KeepsApart A scope) :
    Yields P (fun e' => e.simplify A scope = .ok e' ∧ e'.IsPending A ok x)
      (e.simplify A scope) := by
  have hyields : Yields P (Expr.Sound ok fun _ => True) (e.simplify A scope) :=
    yields_simplify hA hs nofun (he.over operatorKind_isField hops) hok
  refine yields_iff.mpr ⟨fun e' h => ⟨h, ?_⟩, (yields_iff.mp hyields).2⟩
  exact isPending_simplify hconst hsingle he hops hnames hone hk h (hyields.of_ok h)

/-! ### Solving -/

variable (hU : A.HasUnits) (hone : ∀ a, ok a → A.contents a = .one a)
  (hconst : ∀ x a, A.constant? x = some a → ok a) (hP : P .noSolution) (hx : scope.value? x = none)

include hU hone hconst hP hx

/-- Solving ends with the unknown, or with a fault. -/
theorem yields_solve {l r : Expr α} (hl : l.IsPending A ok x) (hr : r.IsPending A ok x)
    (hclosed : r.names = []) :
    Yields P (fun s => s.name = x) (Equation.solve A l r scope).outcome := by
  rw [Equation.solve, Traced.outcome_bind]
  show Yields P _ (l.simplify A scope >>= _)
  rw [hl.simplify_eq hx]
  show Yields P _ (Traced.outcome _)
  rw [Traced.outcome_bind]
  show Yields P _ (r.simplify A scope >>= _)
  rw [hr.simplify_eq hx]
  exact yields_isolate hA hs hx hU hone hconst hP (Equation.effort_lt_stepBound l) hl
    (hr.isGround hclosed)

/-- **Solving an equation** ends with the unknown, or with a fault, if it is in one side at
most. -/
theorem yields_answerEquation {l r : Expr α} (hl : l.IsPending A ok x) (hr : r.IsPending A ok x)
    (hclosed : l.names = [] ∨ r.names = [])
    (hcancelled : l.names = [] → r.names = [] → P .notOneSided) :
    Yields P (fun s => s.name = x) (answerEquation A scope l r).outcome := by
  rw [answerEquation]
  cases hlv : l.hasVariable with
  | false =>
      cases hrv : r.hasVariable with
      | false =>
          exact hcancelled ((Expr.hasVariable_eq_false l).mp hlv)
            ((Expr.hasVariable_eq_false r).mp hrv)
      | true =>
          exact yields_solve hA hs hU hone hconst hP hx hr hl
            ((Expr.hasVariable_eq_false l).mp hlv)
  | true =>
      have hrn := hclosed.resolve_left ((Expr.hasVariable_iff l).mp hlv)
      rw [(Expr.hasVariable_eq_false r).mpr hrn]
      exact yields_solve hA hs hU hone hconst hP hx hl hr hrn

end Sides

/-- With exact arithmetic **a side that is solved** keeps apart. -/
theorem keepsApart_of_isolates [Field K] [DecidableEq K] {val : α → K} (hA : A.IsExact val)
    {scope : Scope α} {e e' right : Expr α} {s : Solution α}
    (hops : e.HasOperators Operator.IsField) (hone : (e.unbound scope).length ≤ 1)
    (h : e.simplify A scope = .ok e') (hsteps : Isolates A scope e' right s) :
    e.KeepsApart A scope := by
  by_contra hk
  obtain ⟨htidy, hmem⟩ := isTidy_simplify operatorKind_isField hops hone h
  have hsingle := hsteps.length_names_le hA htidy fun y hy => by
    simpa [Expr.unbound] using (List.mem_filter.mp (hmem y hy)).2
  obtain hnil | htwo := two_le_length_names hA operatorKind_isField hops hone hk h
  · exact hsteps.names_ne_nil hnil
  · omega

/-! ### Equations of the calculator -/

/-- The unknown of an equation is **cancelled** by simplification: its sides have no variables then.
Unless a number was rounded, one side has a zero factor. -/
def IsCancelled (scope : Scope Operand) (L R : Expr Operand) : Prop :=
  ∃ l r, L.simplify calculator scope = .ok l ∧ R.simplify calculator scope = .ok r ∧
    l.names = [] ∧ r.names = [] ∧
    (L.simplify exactCalculator scope = .ok l → R.simplify exactCalculator scope = .ok r →
      L.HasZeroFactor calculator Operand.exact scope ∨
        R.HasZeroFactor calculator Operand.exact scope)

/-- Sides without variables were cancelled. -/
theorem isCancelled_of_names_eq_nil {scope : Scope Operand} {L R l r : Expr Operand} {x : String}
    (hLops : L.HasOperators Operator.IsField) (hRops : R.HasOperators Operator.IsField)
    (hone : L.unbound scope ++ R.unbound scope = [x]) (hl : L.simplify calculator scope = .ok l)
    (hr : R.simplify calculator scope = .ok r) (hln : l.names = []) (hrn : r.names = []) :
    IsCancelled scope L R := by
  refine ⟨l, r, hl, hr, hln, hrn, fun hl hr => ?_⟩
  by_contra hz
  have hlength : (L.unbound scope).length + (R.unbound scope).length = 1 := by
    rw [← List.length_append, hone, List.length_singleton]
  have hL := length_unbound_le isExact_exactCalculator operatorKind_isField hLops (by omega)
    (fun h => hz (.inl (h.of_refines refines_exactCalculator))) hl
  have hR := length_unbound_le isExact_exactCalculator operatorKind_isField hRops (by omega)
    (fun h => hz (.inr (h.of_refines refines_exactCalculator))) hr
  simp only [hln, hrn, List.length_nil] at hL hR
  omega

section

variable {limit : Except Fault DepthLimit} {source left right : String} {L R : Expr Operand}
  {scope : Scope Operand} {x : String} (hsides : sides source = [left, right])
  (hL : (Formula.read calculator limit left).outcome = .ok L)
  (hR : (Formula.read calculator limit right).outcome = .ok R)
  (hLops : L.HasOperators Operator.IsField) (hRops : R.HasOperators Operator.IsField)
  (hone : L.unbound scope ++ R.unbound scope = [x])

include hsides hL hR hLops hRops hone

/-- How an equation ends whose sides keep apart. -/
theorem yields_linear (hscope : scope.IsNumeric)
    (hLk : L.KeepsApart calculator scope) (hRk : R.KeepsApart calculator scope) :
    Yields
      (fun f => f = .divisionByZero ∨ f = .noSolution ∨ f = .notOneSided ∧ IsCancelled scope L R)
      (fun a => ∃ s, a = .solution s ∧ s.name = x)
      (answer calculator limit source scope).outcome := by
  let P : Fault → Prop := fun f =>
    f = .divisionByZero ∨ f = .noSolution ∨ f = .notOneSided ∧ IsCancelled scope L R
  have hA : calculator.Handles P Operand.IsNumeric fun _ => True :=
    handles_calculator.mono fun f hf => .inl hf
  have hlength : (L.unbound scope).length + (R.unbound scope).length = 1 := by
    rw [← List.length_append, hone, List.length_singleton]
  have hx : scope.value? x = none := by
    have hmem : x ∈ L.unbound scope ++ R.unbound scope := hone ▸ List.mem_singleton.mpr rfl
    simpa [Expr.unbound] using
      (List.mem_append.mp hmem).elim (fun h => (List.mem_filter.mp h).2)
        fun h => (List.mem_filter.mp h).2
  have side {text : String} {e : Expr Operand}
      (h : (Formula.read calculator limit text).outcome = .ok e)
      (hops : e.HasOperators Operator.IsField) (hmem : ∀ y ∈ e.unbound scope, y = x)
      (hone : (e.unbound scope).length ≤ 1) (hk : e.KeepsApart calculator scope) :
      Yields P (fun e' => e.simplify calculator scope = .ok e' ∧
        e'.IsPending calculator Operand.IsNumeric x) (e.simplify calculator scope) := by
    have hentered := isEntered_of_read h
    have hok : e.Sound Operand.IsNumeric fun _ => True :=
      sound_of_isEntered (.number _) (.number _) (fun _ => .number _) hentered
    exact yields_isPending hA hscope.items (fun _ => isSome_constant) hscope.isSingle hentered
      hops hok hmem hone hk
  rw [outcome_answer_equation hsides, outcome_simplified hL, outcome_simplified hR]
  refine Yields.map ((side hL hLops (fun y hy => ?_) (by omega) hLk).bind fun l hl =>
    (side hR hRops (fun y hy => ?_) (by omega) hRk).bind fun r hr =>
      yields_answerEquation hA hscope.items hasUnits_calculator (fun _ h => h.contents)
        (fun _ _ => isNumeric_constant) (.inr (.inl rfl)) hx hl.2 hr.2 ?_
        fun hln hrn => .inr (.inr ⟨rfl, ?_⟩))
      fun s hs => ⟨s, rfl, hs⟩
  · exact List.mem_singleton.mp (hone ▸ List.mem_append_left _ hy)
  · exact List.mem_singleton.mp (hone ▸ List.mem_append_right _ hy)
  · exact names_eq_nil_or hlength.le (isTidy_simplify operatorKind_isField hLops (by omega) hl.1).2
      (isTidy_simplify operatorKind_isField hRops (by omega) hr.1).2
  · exact isCancelled_of_names_eq_nil hLops hRops hone hl.1 hr.1 hln hrn

/-- The sides of an equation that is solved without rounding keep apart. -/
theorem keepsApart_of_solution {s : Solution Operand}
    (h : (answer exactCalculator limit source scope).outcome = .ok (.solution s)) :
    L.KeepsApart calculator scope ∧ R.KeepsApart calculator scope := by
  have hlength : (L.unbound scope).length + (R.unbound scope).length = 1 := by
    rw [← List.length_append, hone, List.length_singleton]
  rw [← read_eq refines_exactCalculator] at hL hR
  obtain ⟨L₁, R₁, l, r, ⟨hL₁, hl⟩, ⟨hR₁, hr⟩, hanswer⟩ :=
    exists_of_answer_eq_solution hsides h
  obtain rfl := Except.ok.inj (hL₁.symm.trans hL)
  obtain rfl := Except.ok.inj (hR₁.symm.trans hR)
  obtain ⟨l₂, r₂, hl₂, hr₂, hsteps⟩ := exists_isolates hanswer
  -- simplifying a second time changes nothing
  have twice {e e' e'' : Expr Operand} (hops : e.HasOperators Operator.IsField)
      (hone : (e.unbound scope).length ≤ 1) (h : e.simplify exactCalculator scope = .ok e')
      (h' : e'.simplify exactCalculator scope = .ok e'') : e' = e'' := by
    obtain ⟨htidy, hmem⟩ := isTidy_simplify operatorKind_isField hops hone h
    rw [htidy.simplify_eq fun y hy => by
      simpa [Expr.unbound] using (List.mem_filter.mp (hmem y hy)).2] at h'
    exact Except.ok.inj h'
  obtain rfl := twice hLops (by omega) hl hl₂
  obtain rfl := twice hRops (by omega) hr hr₂
  have apart {e e' right : Expr Operand} (hops : e.HasOperators Operator.IsField)
      (hone : (e.unbound scope).length ≤ 1) (h : e.simplify exactCalculator scope = .ok e')
      (hsteps : Isolates exactCalculator scope e' right s) :
      1 ≤ (e.unbound scope).length ∧ e.KeepsApart calculator scope := by
    refine ⟨?_, (keepsApart_of_isolates isExact_exactCalculator hops hone h hsteps).of_refines
      refines_exactCalculator operatorKind_isField hops hone h⟩
    rw [Nat.one_le_iff_ne_zero, ne_eq, List.length_eq_zero_iff]
    exact fun hnone => hsteps.names_ne_nil
      (names_eq_nil_of_forall (isTidy_simplify operatorKind_isField hops hone h).2 hnone)
  have closed {e : Expr Operand} (hops : e.HasOperators Operator.IsField)
      (hnone : (e.unbound scope).length = 0) : e.KeepsApart calculator scope :=
    keepsApart_of_unbound_eq_nil operatorKind_isField hops (List.length_eq_zero_iff.mp hnone)
  obtain hsteps | hsteps := hsteps
  · obtain ⟨hsome, hk⟩ := apart hLops (by omega) hl hsteps
    exact ⟨hk, closed hRops (by omega)⟩
  · obtain ⟨hsome, hk⟩ := apart hRops (by omega) hr hsteps
    exact ⟨closed hLops (by omega), hk⟩

/-- **A linear equation is solved** for its unknown if both sides keep apart, unless a division by
zero or the loss of the unknown prevents it. And without rounding only such equations are
solved. -/
theorem linear_equation_solved (hscope : scope.IsNumeric) :
    (L.KeepsApart calculator scope → R.KeepsApart calculator scope →
      Yields
        (fun f => f = .divisionByZero ∨ f = .noSolution ∨ f = .notOneSided ∧ IsCancelled scope L R)
        (fun a => ∃ s, a = .solution s ∧ s.name = x)
        (answer calculator limit source scope).outcome) ∧
    ∀ s, (answer exactCalculator limit source scope).outcome = .ok (.solution s) →
      L.KeepsApart calculator scope ∧ R.KeepsApart calculator scope :=
  ⟨yields_linear hsides hL hR hLops hRops hone hscope,
    fun _ => keepsApart_of_solution hsides hL hR hLops hRops hone⟩

end

/-- The equation `2(x-y)/(1+i)+1=y*i` is solved for `x`, with three for `y`. -/
theorem linear_equation_solved_quotient :
    ∃ s, (answer calculator (.ok (.ofInt 120)) "2(x-y)/(1+i)+1=y*i" (.whole "y" 3)).outcome =
      .ok (.solution s) ∧ s.name = "x" := by
  obtain ⟨L, hL, hLops, hLnames, hLk⟩ := (show Yields (fun _ => False)
    (fun e => e.HasOperators Operator.IsField ∧ e.unbound (.whole "y" 3) = ["x"] ∧
      e.KeepsApart calculator (.whole "y" 3))
    (Formula.read calculator (.ok (.ofInt 120)) "2(x-y)/(1+i)+1").outcome
    by decide +kernel).exists_ok
  obtain ⟨R, hR, hRops, hRnames, hRk⟩ := (show Yields (fun _ => False)
    (fun e => e.HasOperators Operator.IsField ∧ e.unbound (.whole "y" 3) = [] ∧
      e.KeepsApart calculator (.whole "y" 3))
    (Formula.read calculator (.ok (.ofInt 120)) "y*i").outcome by decide +kernel).exists_ok
  have hsides : sides "2(x-y)/(1+i)+1=y*i" = ["2(x-y)/(1+i)+1", "y*i"] := by decide +kernel
  have hyields := (linear_equation_solved hsides hL hR hLops hRops
    (by rw [hLnames, hRnames]; rfl) (Scope.isNumeric_whole ⟨_, rfl⟩)).1 hLk hRk
  obtain ⟨a, ha, -⟩ := (show Yields (fun _ => False) (fun _ => True)
    (answer calculator (.ok (.ofInt 120)) "2(x-y)/(1+i)+1=y*i" (.whole "y" 3)).outcome
    by decide +kernel).exists_ok
  obtain ⟨s, rfl, hname⟩ := hyields.of_ok ha
  exact ⟨s, ha, hname⟩

/-- The equation `(1+i)x=2` is not solved: the unknown is spread over the sum in front of it. -/
theorem sum_times_unknown_not_solved :
    (answer calculator (.ok (.ofInt 120)) "(1+i)x=2" []).outcome = .error (.notLinear "+") := by
  obtain ⟨f, hf, rfl⟩ := (show Yields (fun f => f = .notLinear "+") (fun _ => False)
    (answer calculator (.ok (.ofInt 120)) "(1+i)x=2" []).outcome by decide +kernel).exists_error
  exact hf

end Argand
