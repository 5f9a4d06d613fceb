import Argand.Proofs.Answer
import Argand.Proofs.ExactCalculator
import Argand.Proofs.Values

/-!
# Solutions of entered equations

An entered equation is read, simplified, simplified again on the way to its solution, and solved
step by step. Its solution solves the equation as it was entered, as far as both sides of it have
a value there: simplification may have cancelled a divisor that is zero at the solution.

## Main results

* `Argand.solution_solves_equation`: when both sides have a value at a solution, and that the
  values are equal if nothing was rounded.
-/

namespace Argand

open Simplify

variable {α K : Type}

/-! ### The steps of an answer -/

/-- A solution is reached by steps from the simplified sides, in one order or the other. -/
theorem exists_isolates {A : Arithmetic α} {scope : Scope α} {l r : Expr α} {s : Solution α}
    (h : (answerEquation A scope l r).outcome = .ok s) :
    ∃ l' r', l.simplify A scope = .ok l' ∧ r.simplify A scope = .ok r' ∧
      (Isolates A scope l' r' s ∨ Isolates A scope r' l' s) := by
  have solved {l r : Expr α} (h : (Equation.solve A l r scope).outcome = .ok s) :
      ∃ l' r', l.simplify A scope = .ok l' ∧ r.simplify A scope = .ok r' ∧
        Isolates A scope l' r' s := by
    rw [Equation.solve, Traced.outcome_bind] at h
    obtain ⟨l', hl', h⟩ := bind_eq_ok.mp h
    rw [Traced.outcome_bind] at h
    obtain ⟨r', hr', h⟩ := bind_eq_ok.mp h
    exact ⟨l', r', hl', hr', isolates_of_isolate h⟩
  rw [answerEquation] at h
  split at h
  · obtain ⟨l', r', hl', hr', hs⟩ := solved h
    exact ⟨l', r', hl', hr', .inl hs⟩
  · split at h
    · obtain ⟨r', l', hr', hl', hs⟩ := solved h
      exact ⟨l', r', hl', hr', .inr hs⟩
    · cases h

/-! ### Exact solutions -/

variable [Field K] [DecidableEq K]

/-- **A solution of an exact arithmetic solves the equation**: where both sides as entered have
readings, they have the same. -/
theorem reads_eq_of_solution {A : Arithmetic α} {val : α → K} (hA : A.IsExactSolver val)
    {scope : Scope α} (hs : scope.HasNumbers A) {L R L' R' : Expr α} (hL : L.IsRational)
    (hR : R.IsRational) (hLn : L.HasNumbers A) (hRn : R.HasNumbers A)
    (hLs : L.simplify A scope = .ok L') (hRs : R.simplify A scope = .ok R') {s : Solution α}
    (h : (answerEquation A scope L' R').outcome = .ok s) {c : α} (hc : c ∈ s.value.items)
    {x y : K} (hx : Reads A val ((scope.bind ⟨s.name, .one c⟩).readings val) L x)
    (hy : Reads A val ((scope.bind ⟨s.name, .one c⟩).readings val) R y) : x = y := by
  obtain ⟨L'', R'', hLs', hRs', hsteps⟩ := exists_isolates h
  have hLo : L.Over A Atom.IsPlain (fun _ => False) := hL.over
  have hRo : R.Over A Atom.IsPlain (fun _ => False) := hR.over
  -- the sides are reduced formulas of numbers, however often they are simplified
  have hLr := hL.isReduced hs.isSingle hLs
  have hRr := hR.isReduced hs.isSingle hRs
  have numbers {e e' : Expr α} (he : e.IsRational) (hen : e.HasNumbers A)
      (h : e.simplify A scope = .ok e') : e'.HasNumbers A := by
    have hover : e.Over A Atom.IsPlain fun x => scope.value? x = none := he.over
    exact hasNumbers_simplify hA hs hover hen h
  have hLn' := numbers hL hLn hLs
  have hRn' := numbers hR hRn hRs
  have hLr' := isReduced_simplify hA hLr hLs'
  have hRr' := isReduced_simplify hA hRr hRs'
  have hLn'' := hasNumbers_simplify hA hs hLr hLn' hLs'
  have hRn'' := hasNumbers_simplify hA hs hRr hRn' hRs'
  have hname : scope.value? s.name = none :=
    hsteps.elim (fun h => (h.sound hA hs hLr' hRr' hLn'' hRn'').1)
      fun h => (h.sound hA hs hRr' hLr' hRn'' hLn'').1
  have hρ := respects_bind val hname c
  have simplified {e e' e'' : Expr α} (he : e.IsRational) (h : e.simplify A scope = .ok e')
      (h' : e'.simplify A scope = .ok e'') {v : K}
      (hv : Reads A val ((scope.bind ⟨s.name, .one c⟩).readings val) e v) :
      Reads A val ((scope.bind ⟨s.name, .one c⟩).readings val) e'' v := by
    have hover : e.Over A Atom.IsPlain (fun _ => False) := he.over
    refine reads_simplify_reduced hA hρ (he.isReduced hs.isSingle h) h' ?_
    exact (reads_simplify hA.exact hρ nofun hover h hv).mono
      fun _ _ hb => (Scope.mem_of_mem_free hb).2
  have hx' := simplified hL hLs hLs' hx
  have hy' := simplified hR hRs hRs' hy
  obtain hsteps | hsteps := hsteps
  · exact (hsteps.sound hA hs hLr' hRr' hLn'' hRn'').2 c hc x y hx' hy'
  · exact ((hsteps.sound hA hs hRr' hLr' hRn'' hLn'').2 c hc y x hy' hx').symm

/-! ### Solutions of the calculator -/

/-- The numbers of a solution are numbers of the calculator. -/
theorem Isolates.isNumeric {scope : Scope Operand} {left right : Expr Operand}
    {s : Solution Operand} (h : Isolates calculator scope left right s) :
    ∀ c ∈ s.value.items, c.IsNumeric := by
  induction h with
  | alone _ _ _ hu =>
      intro c hc
      obtain ⟨a, -, hac⟩ := mem_valueMapM hu hc
      obtain ⟨z, rfl⟩ := exists_number hac
      exact .number z
  | undone _ _ _ _ _ _ _ _ ih => exact ih

/-- One of the numbers of a solution as a solution. -/
def Solution.single (s : Solution α) (c : α) : Solution α :=
  ⟨s.name, .one c⟩

section

variable {limit : Except Fault DepthLimit} {source left right : String} {L R : Expr Operand}
  {scope : Scope Operand} {s : Solution Operand} (hsides : sides source = [left, right])
  (hL : (Formula.read calculator limit left).outcome = .ok L)
  (hR : (Formula.read calculator limit right).outcome = .ok R)
  (hscope : scope.IsNumeric)
  (h : (answer calculator limit source scope).outcome = .ok (.solution s)) {c : Operand}
  (hc : c ∈ s.value.items)

include hsides hL hR h

include hscope hc

omit hL hR in
/-- A scope of numbers stays one when a solution is bound. -/
theorem isNumeric_bind : (scope.bind (s.single c)).IsNumeric := by
  obtain ⟨_, _, _, _, -, -, hanswer⟩ := exists_of_answer_eq_solution hsides h
  intro x v hv
  rw [Scope.value?_bind] at hv
  split at hv
  · obtain rfl := Option.some.inj hv
    obtain ⟨_, _, -, -, hsteps⟩ := exists_isolates hanswer
    exact ⟨c, rfl, hsteps.elim (fun h => h.isNumeric c hc) fun h => h.isNumeric c hc⟩
  · exact hscope x v hv

/-- **Both sides have a value** at a number of a solution exactly if they are defined there. -/
theorem exists_values_iff_isDefined (hLr : L.IsRational) (hRr : R.IsRational) :
    (∃ v w,
        (Formula.evaluate calculator limit left (scope.bind (s.single c))).outcome = .ok v ∧
        (Formula.evaluate calculator limit right (scope.bind (s.single c))).outcome = .ok w) ↔
      L.IsDefined (scope.bind (s.single c)) ∧ R.IsDefined (scope.bind (s.single c)) := by
  have hat := isNumeric_bind hsides hscope h hc
  have numeric {text : String} {e : Expr Operand}
      (h : (Formula.read calculator limit text).outcome = .ok e) :
      e.Sound Operand.IsNumeric fun _ => True :=
    sound_of_isEntered (.number _) (.number _) (fun _ => .number _) (isEntered_of_read h)
  rw [outcome_evaluate hL, outcome_evaluate hR,
    ← exists_value_iff_isDefined hat hLr (numeric hL),
    ← exists_value_iff_isDefined hat hRr (numeric hR)]
  exact ⟨fun ⟨v, w, hv, hw⟩ => ⟨⟨v, hv⟩, w, hw⟩, fun ⟨⟨v, hv⟩, w, hw⟩ => ⟨v, w, hv, hw⟩⟩

/-- **The values of both sides are equal** at a number of a solution, if nothing was rounded. -/
theorem exact_eq_of_solution (hLr : L.IsRational) (hRr : R.IsRational)
    (hexact : (answer exactCalculator limit source scope).outcome = .ok (.solution s))
    {v w : Value Operand}
    (hv : (Formula.evaluate exactCalculator limit left (scope.bind (s.single c))).outcome = .ok v)
    (hw : (Formula.evaluate exactCalculator limit right (scope.bind (s.single c))).outcome =
      .ok w) :
    ∃ a b, v = .one a ∧ w = .one b ∧ a.exact = b.exact := by
  have hat := isNumeric_bind hsides hscope h hc
  rw [← read_eq refines_exactCalculator] at hL hR
  rw [outcome_evaluate hL] at hv
  rw [outcome_evaluate hR] at hw
  obtain ⟨L', R', l, r, ⟨hL', hLs⟩, ⟨hR', hRs⟩, hanswer⟩ :=
    exists_of_answer_eq_solution hsides hexact
  obtain rfl := Except.ok.inj (hL'.symm.trans hL)
  obtain rfl := Except.ok.inj (hR'.symm.trans hR)
  have hA := isExactSolver_exactCalculator
  have hone : ∀ a, exactCalculator.IsNumber a → exactCalculator.contents a = .one a :=
    fun _ ha => ha
  have hs : scope.HasNumbers exactCalculator := fun x v hv => by
    obtain ⟨a, rfl, ha⟩ := hscope x v hv
    exact ⟨a, rfl, ha.contents⟩
  have numbers {text : String} {e : Expr Operand}
      (h : (Formula.read exactCalculator limit text).outcome = .ok e) :
      e.HasNumbers exactCalculator :=
    sound_of_isEntered (isNumber_number _) (isNumber_number _) (fun _ => isNumber_number _)
      (isEntered_of_read h)
  obtain ⟨a, rfl⟩ := exists_one_of_value hone hat.isSingle hLr (numbers hL) hv
  obtain ⟨b, rfl⟩ := exists_one_of_value hone hat.isSingle hRr (numbers hR) hw
  have reads {e : Expr Operand} (he : e.IsRational) (hen : e.HasNumbers exactCalculator)
      {d : Operand} (h : e.value exactCalculator (scope.bind (s.single c)) = .ok (.one d)) :
      Reads exactCalculator Operand.exact ((scope.bind (s.single c)).readings Operand.exact) e
        d.exact := by
    have hover : e.Over exactCalculator Atom.IsPlain (fun _ => False) := he.over
    exact reads_of_value hA.exact hone rfl hover hen h d (List.mem_singleton.mpr rfl)
  exact ⟨a, b, rfl, rfl, reads_eq_of_solution hA hs hLr hRr (numbers hL) (numbers hR) hLs hRs
    hanswer hc (reads hLr (numbers hL) hv) (reads hRr (numbers hR) hw)⟩

/-- **A solution solves the entered equation.** At each of its numbers both sides have a value
exactly if every variable of theirs is bound there and no divisor is zero; and if the calculator
has not rounded, neither in solving nor in evaluating, the two values are equal. -/
theorem solution_solves_equation (hLr : L.IsRational) (hRr : R.IsRational) :
    ((∃ v w,
        (Formula.evaluate calculator limit left (scope.bind (s.single c))).outcome = .ok v ∧
        (Formula.evaluate calculator limit right (scope.bind (s.single c))).outcome = .ok w) ↔
      L.IsDefined (scope.bind (s.single c)) ∧ R.IsDefined (scope.bind (s.single c))) ∧
    ((answer exactCalculator limit source scope).outcome = .ok (.solution s) → ∀ v w,
      (Formula.evaluate exactCalculator limit left (scope.bind (s.single c))).outcome = .ok v →
      (Formula.evaluate exactCalculator limit right (scope.bind (s.single c))).outcome = .ok w →
      ∃ a b, v = .one a ∧ w = .one b ∧ a.exact = b.exact) :=
  ⟨exists_values_iff_isDefined hsides hL hR hscope h hc hLr hRr,
    fun hexact _ _ hv hw => exact_eq_of_solution hsides hL hR hscope h hc hLr hRr hexact hv hw⟩

end

/-- The equation `y / x = 3` for `y = 6` is solved without rounding. -/
theorem solution_solves_quotient :
    ∃ s a b, (answer exactCalculator (.ok (.ofInt 120)) "y/x=3" (.whole "y" 6)).outcome =
        .ok (.solution s) ∧
      (Formula.evaluate exactCalculator (.ok (.ofInt 120)) "y/x"
        (Scope.bind (.whole "y" 6) s)).outcome = .ok (.one a) ∧
      (Formula.evaluate exactCalculator (.ok (.ofInt 120)) "3"
        (Scope.bind (.whole "y" 6) s)).outcome = .ok (.one b) ∧
      a.exact = b.exact := by
  obtain ⟨s, hs, htest⟩ := exists_solution_of_passes
    (fun s => !s.value.isList &&
      decide (Yields (fun _ => False) (fun _ => True)
        (Formula.evaluate exactCalculator (.ok (.ofInt 120)) "y/x"
          (Scope.bind (.whole "y" 6) s)).outcome) &&
      decide (Yields (fun _ => False) (fun _ => True)
        (Formula.evaluate exactCalculator (.ok (.ofInt 120)) "3"
          (Scope.bind (.whole "y" 6) s)).outcome))
    (show Yields _ _ (answer exactCalculator (.ok (.ofInt 120)) "y/x=3" (.whole "y" 6)).outcome
      by decide +kernel)
  obtain ⟨L, hL, hLr⟩ := (show Yields (fun _ => False) (fun e => e.IsRational)
    (Formula.read calculator (.ok (.ofInt 120)) "y/x").outcome by decide +kernel).exists_ok
  obtain ⟨R, hR, hRr⟩ := (show Yields (fun _ => False) (fun e => e.IsRational)
    (Formula.read calculator (.ok (.ofInt 120)) "3").outcome by decide +kernel).exists_ok
  obtain ⟨name, value⟩ := s
  cases value with
  | many items => cases htest
  | one c =>
      simp only [Bool.and_eq_true, decide_eq_true_eq] at htest
      obtain ⟨v, hv, -⟩ := htest.1.2.exists_ok
      obtain ⟨w, hw, -⟩ := htest.2.exists_ok
      obtain ⟨a, b, rfl, rfl, hab⟩ := (solution_solves_equation (by decide +kernel) hL hR
        (Scope.isNumeric_whole ⟨_, rfl⟩) (refines_answer refines_exactCalculator _ _ _ _ hs)
        (List.mem_singleton.mpr rfl) hLr hRr).2 hs v w hv hw
      exact ⟨⟨name, .one c⟩, a, b, hs, hv, hw, hab⟩

/-- Zero over the unknown is never five, but zero is found as a solution: multiplying with the
unknown has cancelled the divisor. -/
theorem solution_of_cancelled_divisor :
    ∃ s, (answer calculator (.ok (.ofInt 120)) "0/x=5" []).outcome = .ok (.solution s) ∧
      (Formula.evaluate calculator (.ok (.ofInt 120)) "0/x" (Scope.bind [] s)).outcome =
        .error .divisionByZero := by
  obtain ⟨s, hs, htest⟩ := exists_solution_of_passes
    (fun s => decide (Yields (fun f => f = .divisionByZero) (fun _ => False)
      (Formula.evaluate calculator (.ok (.ofInt 120)) "0/x" (Scope.bind [] s)).outcome))
    (show Yields _ _ (answer calculator (.ok (.ofInt 120)) "0/x=5" []).outcome by decide +kernel)
  obtain ⟨f, hf, rfl⟩ := (of_decide_eq_true htest).exists_error
  exact ⟨s, hs, hf⟩

end Argand
