import Argand.Proofs.Calculation
import Argand.Proofs.Equation.Calls
import Argand.Proofs.Simplification.Settled

/-!
# What can go wrong with an equation

Three things hold from call to call of solving: both sides can be calculated with, the right one has
no variable, and the left one keeps its unknown when it is simplified. So of the faults that solving
has of its own only two come about: the unknown may stand on both sides of an operator, and it may
cancel out when it is in a divisor that is moved over. All other faults are those of arithmetic, or
of sides that cannot be read or simplified.

## Main definitions

* `Argand.Equation.Ready`: sides that can be solved.
* `Argand.Equation.LosesUnknown`: sides whose unknown cancels out when a divisor is moved over.
* `Argand.Equation.Fails`: the faults of solving.
* `Argand.Fault.IsOfSide`: the faults of a side.

## Main results

* `Argand.Equation.yields_solve`: solving fails in these ways only.
* `Argand.yields_equation`: what can go wrong with an equation.
* `Argand.resolve_equation_faults`: the same, by codes.
-/

namespace Argand

open Relation Simplify

variable {α : Type}

namespace Equation

/-! ### Sides -/

section

variable (A : Arithmetic α) (ok : α → Prop) (scope : Scope α)

/-- Sides that are **ready** to be solved: they can be calculated with, and the right one has no
variable. -/
structure Ready (sides : Expr α × Expr α) : Prop where
  left : sides.1.Calculable A ok
  right : sides.2.Calculable A ok
  closed : sides.2.names = []

/-- A formula that **keeps its unknown** when it is simplified. -/
def KeepsUnknown (e : Expr α) : Prop :=
  ∀ e', e.simplify A scope = .ok e' → e'.hasVariable = true

/-- Sides that **lose their unknown**: it stands in the divisor of the simplified left side, and the
product of that divisor and the value of the right side has no variable. -/
inductive LosesUnknown : Expr α × Expr α → Prop
  | divisor {left right a b right' e : Expr α} {w : Value α} :
      left.simplify A scope = .ok (.node a .divide b) → a.hasVariable = false →
      b.hasVariable = true → right.simplify A scope = .ok right' →
      right'.evaluate A scope = .ok w →
      (Expr.node (Expr.ofValue w) .multiply b).simplify A scope = .ok e →
      e.hasVariable = false → LosesUnknown (left, right)

/-- How solving **fails**: in a calculation, at an operator with the unknown on both sides, or
because some call loses the unknown. -/
inductive Fails (P : Fault → Prop) (sides : Expr α × Expr α) : Fault → Prop
  | calculation {f : Fault} : P f → Fails P sides f
  | notLinear (op : String) : Fails P sides (.notLinear op)
  | lost {sides' : Expr α × Expr α} : ReflTransGen (Calls A scope) sides sides' →
      LosesUnknown A scope sides' → Fails P sides .noSolution

end

variable {A : Arithmetic α} {ok : α → Prop} {P : Fault → Prop} {scope : Scope α}

/-- A settled formula without bound variables **keeps its unknown**. -/
theorem keepsUnknown_of_settled (hU : A.HasUnits) (hK : A.KeepsMultiples) {e : Expr α}
    (he : e.AllNodes (Settled A)) (hnames : ∀ y ∈ e.names, scope.value? y = none)
    (hvar : e.hasVariable = true) : KeepsUnknown A scope e := by
  intro e' h
  rw [Expr.hasVariable_iff] at hvar ⊢
  rwa [names_simplify_settled hU hK he hnames h]

/-! ### One step -/

section

variable (hA : A.Calculates ok P)

include hA

/-- **Undoing an operator** succeeds, and leaves sides ready. -/
theorem yields_undo {a b : Expr α} {op : Operator} {w : Value α} (hop : op.IsKnown)
    (ha : a.Calculable A ok) (hb : b.Calculable A ok) (hw : ∀ c ∈ w.items, ok c)
    (hone : (a.hasVariable && b.hasVariable) = false) :
    Yields P (Ready A ok) (undo A scope a.hasVariable a op b (Expr.ofValue w)) := by
  have hvalue : (Expr.ofValue w).Calculable A ok := .ofValue hw
  have hclosed := names_ofValue w
  have hnumber {c : α} (hc : ok c) : (Expr.number c).Calculable A ok := .number hc
  cases hvar : a.hasVariable with
  | true =>
      have hbclosed : b.names = [] := by
        rw [← Expr.hasVariable_eq_false]
        simpa [hvar] using hone
      have moved {op' : Operator} (hop' : op'.IsKnown) :
          Ready A ok (a, .node (Expr.ofValue w) op' b) :=
        ⟨ha, hvalue.node hop' hb, by simp [Expr.names, hbclosed]⟩
      cases op with
      | add => exact moved trivial
      | subtract => exact moved trivial
      | multiply => exact moved trivial
      | divide => exact moved trivial
      | plusMinus => exact moved trivial
      | other symbol => exact hop.elim
      | power =>
          have power : Ready A ok (a, .node (Expr.ofValue w) .power (reciprocal A b)) :=
            ⟨ha, hvalue.node trivial ((hnumber hA.gives.one).node trivial hb),
              by simp [Expr.names, reciprocal, hbclosed]⟩
          cases b with
          | node => exact power
          | atom y =>
              cases y with
              | number n =>
                  exact (yields_roots hA hvalue hclosed hb.numbers).bind fun r hr =>
                    ⟨ha, hr.1, hr.2⟩
              | _ => exact power
  | false =>
      have haclosed : a.names = [] := (Expr.hasVariable_eq_false a).mp hvar
      have moved {op' : Operator} (hop' : op'.IsKnown) :
          Ready A ok (b, .node (Expr.ofValue w) op' a) :=
        ⟨hb, hvalue.node hop' ha, by simp [Expr.names, haclosed]⟩
      cases op with
      | add => exact moved trivial
      | subtract => exact ⟨hb, ha.node trivial hvalue, by simp [Expr.names, haclosed]⟩
      | multiply => exact moved trivial
      | divide => exact ⟨hvalue.node trivial hb, ha, haclosed⟩
      | plusMinus =>
          exact ⟨hb, (hnumber hA.gives.zero).node trivial (hvalue.node trivial ha),
            by simp [Expr.names, haclosed]⟩
      | other symbol => exact hop.elim
      | power =>
          refine (yields_logarithm hA hvalue hclosed).bind fun x hx => ?_
          refine (yields_logarithm hA ha haclosed).bind fun y hy => ?_
          exact ⟨hb, hx.1.node trivial hy.1, by simp [Expr.names, hx.2, hy.2]⟩

end

/-- **What a call hands over keeps its unknown**, unless a divisor was moved that loses it. -/
theorem losesUnknown_of_calls (hU : A.HasUnits) (hK : A.KeepsMultiples)
    {sides next : Expr α × Expr α} (h : Calls A scope sides next)
    (hgone : ¬ KeepsUnknown A scope next.1) :
    LosesUnknown A scope sides := by
  obtain ⟨l, r, hl, hr, hnext⟩ := h
  cases hnext with
  | @undone a b _ op w _ hrvar hvar hone hw hundo =>
  obtain ⟨-, ha, hb⟩ := settled_simplify hU hl
  have hunbound := fun y hy => (unbound_of_simplify hl y hy).2
  rw [undo_fst hundo] at hgone
  cases havar : a.hasVariable with
  | true =>
      rw [havar, if_pos rfl] at hgone
      exact absurd (keepsUnknown_of_settled hU hK ha
        (fun y hy => hunbound y (List.mem_append_left _ hy)) havar) hgone
  | false =>
      have hbvar : b.hasVariable = true := by simpa [havar] using hvar
      rw [havar, if_neg nofun] at hgone
      split at hgone
      · subst op
        simp only [KeepsUnknown, not_forall, Bool.not_eq_true] at hgone
        obtain ⟨e, he, hevar⟩ := hgone
        exact .divisor hl havar hbvar hr hw he hevar
      · exact absurd (keepsUnknown_of_settled hU hK hb
          (fun y hy => hunbound y (List.mem_append_right _ hy)) hbvar) hgone

/-- **A step fails** in a calculation, at an operator with the unknown on both sides, because the
unknown is gone, or later. -/
theorem yields_step (hA : A.Calculates ok P) {F : Fault → Prop} (hP : ∀ f, P f → F f)
    (hF : ∀ op, F (.notLinear op)) {again : Expr α → Expr α → Traced α (Solution α)}
    {left right : Expr α} (hl : left.Calculable A ok) (hr : right.Calculable A ok)
    (hclosed : right.names = []) (hgone : left.hasVariable = false → F .noSolution)
    (hagain : ∀ next, HandsOver A scope left right next → Ready A ok next →
      Yields F (fun _ => True) (again next.1 next.2).outcome) :
    Yields F (fun _ => True) (step A scope again left right).outcome := by
  have hrvar : right.hasVariable = false := (Expr.hasVariable_eq_false right).mpr hclosed
  simp only [step, Traced.outcome_bind, hrvar]
  show Yields F _ (if _ then _ else _ : Traced α (Solution α)).outcome
  cases hlvar : left.hasVariable with
  | false => exact hgone hlvar
  | true =>
  show Yields F _ (Traced.lift (right.evaluate A scope) >>= _ : Traced α (Solution α)).outcome
  rw [Traced.outcome_bind]
  refine ((yields_evaluate hA hr hclosed).and_eq.mono_fault hP).bind fun w ⟨hw, hweq⟩ => ?_
  cases left with
  | atom x =>
      cases x with
      | scaled name c =>
          have hc : ok c := hl.numbers
          have hagain : Yields P (fun v => ∀ a ∈ v.items, ok a)
              ((Expr.ofValue w).evaluate A scope) :=
            yields_evaluate hA (.ofValue hw) (names_ofValue w)
          simp only [Traced.outcome_bind]
          refine (hagain.mono_fault hP).bind fun v hv => ?_
          have hquotient := yields_valueMapM fun a ha => hA.handles.divide (hv a ha) hc trivial
          exact (hquotient.mono_fault hP).bind fun _ _ => trivial
      | _ => cases hlvar
  | node a op b =>
      show Yields F _ (if _ then _ else _ : Traced α (Solution α)).outcome
      split
      · exact hF op.symbol
      · rename_i hone
        have hone : (a.hasVariable && b.hasVariable) = false := Bool.eq_false_iff.mpr hone
        have hundo : Yields P (Ready A ok) (undo A scope a.hasVariable a op b (Expr.ofValue w)) :=
          yields_undo hA hl.operators.1 hl.left hl.right hw hone
        rw [Traced.outcome_bind]
        refine (hundo.and_eq.mono_fault hP).bind fun next ⟨hready, hnext⟩ => ?_
        exact hagain next (.undone hrvar hlvar hone hweq hnext) hready

/-- **Solving fails** in these ways only, unless the unknown was gone from the beginning. -/
theorem yields_solve (hU : A.HasUnits) (hK : A.KeepsMultiples) (hA : A.Calculates ok P)
    (hs : ∀ x v, scope.value? x = some v → ∀ a ∈ v.items, ok a) {sides : Expr α × Expr α}
    (h : Ready A ok sides) :
    Yields (fun f => Fails A scope P sides f ∨ f = .noSolution ∧ ¬ KeepsUnknown A scope sides.1)
      (fun _ => True) (solve A sides.1 sides.2 scope).outcome := by
  induction sides using (Calls.wellFounded hU scope).induction with
  | _ sides ih =>
  have simplified {e : Expr α} (he : e.Calculable A ok) :
      Yields (fun f => Fails A scope P sides f ∨ f = .noSolution ∧ ¬ KeepsUnknown A scope sides.1)
        (fun e' => e'.Calculable A ok ∧ e.simplify A scope = .ok e') (e.simplify A scope) :=
    (yields_calculable hA hs he).and_eq.mono_fault fun _ hf => .inl (.calculation hf)
  rw [solve_eq_attempt hU, attempt]
  simp only [Traced.outcome_bind]
  refine (simplified h.left).bind fun l ⟨hl, hleft⟩ => ?_
  refine (simplified h.right).bind fun r ⟨hr, hright⟩ => ?_
  have hrclosed : r.names = [] :=
    names_eq_nil_of_forall (fun y hy => (unbound_of_simplify hright y hy).1) h.closed
  refine yields_step hA (fun _ hf => .inl (.calculation hf)) (fun op => .inl (.notLinear op)) hl hr
    hrclosed (fun hlvar => .inr ⟨rfl, fun hkeeps => ?_⟩) fun next hnext hready => ?_
  · cases (hkeeps l hleft).symm.trans hlvar
  · have hcalls : Calls A scope sides next := ⟨l, r, hleft, hright, hnext⟩
    refine (ih next hcalls hready).mono_fault fun f hf => .inl ?_
    obtain (hf | ⟨op⟩ | ⟨hrow, hlost⟩) | ⟨rfl, hgone⟩ := hf
    · exact .calculation hf
    · exact .notLinear op
    · exact .lost (.head hcalls hrow) hlost
    · exact .lost .refl (losesUnknown_of_calls hU hK hcalls hgone)

/-- The sides of an equation, that **with the unknown first**. -/
def oriented (left right : Expr α) : Expr α × Expr α :=
  if left.hasVariable then (left, right) else (right, left)

end Equation

/-! ### Simplified sides -/

/-- A fault **of a side** of an equation: one of syntax or of arithmetic, or a mishap without a
code. -/
def Fault.IsOfSide (f : Fault) : Prop :=
  f.IsSyntax ∨ f.IsArithmetic ∨ f.isOwn = false

/-- A fault of a side is not one of the faults of solving, and nothing is unbound, unknown or no
number. -/
theorem Fault.IsOfSide.code?_ne {f : Fault} (h : f.IsOfSide) (code : String)
    (hcode : code ∈ ["3004", "3005", "3014", "3031", "3034", "3035", "3036", "3037"]) :
    f.code? ≠ some code := by
  intro hf
  obtain h | h | h := h
  · cases f <;> simp [IsSyntax, faultClass] at h <;> cases hf <;> simp at hcode
  · cases h <;> cases hf <;> simp at hcode
  · simp [isOwn, hf] at h

section

variable (A : Arithmetic α) (ok : α → Prop) (scope : Scope α)

/-- A **simplified side** of an equation. -/
structure Expr.IsSide (e : Expr α) : Prop where
  calculable : e.Calculable A ok
  settled : e.AllNodes (Settled A)
  unbound : ∀ y ∈ e.names, scope.value? y = none

end

section

variable {A : Arithmetic α} {ok : α → Prop} {scope : Scope α} {limit : Except Fault DepthLimit}

/-- **A side** is read and simplified, or has a fault of its own. -/
theorem yields_side (hU : A.HasUnits) (hA : A.Calculates ok Fault.IsArithmetic)
    (hconstant : ∀ x ∈ ["i", "e", "π"], (A.constant? x).isSome)
    (hs : ∀ x v, scope.value? x = some v → ∀ a ∈ v.items, ok a)
    (hlimit : Yields Fault.IsOfSide (fun l => l.fault.IsOfSide) limit) (side : String) :
    Yields Fault.IsOfSide (Expr.IsSide A ok scope)
      (Formula.simplified A limit scope side).outcome := by
  simp only [Formula.simplified, Traced.outcome_bind]
  refine (yields_read A (fun _ => .inl) hlimit side).and_eq.bind fun e hread => ?_
  have he : e.Calculable A ok := calculable_of_read hA.gives hconstant hread.2
  refine (yields_calculable hA hs he).and_eq.mono (fun _ hf => .inr (.inl hf)) ?_
  rintro e₁ ⟨h₁, heq⟩
  exact ⟨h₁, settled_simplify hU heq, fun y hy => (unbound_of_simplify heq y hy).2⟩

/-- **An equation** with simplified sides fails because of its shape, or as solving does. -/
theorem Equation.yields_answer (hU : A.HasUnits) (hK : A.KeepsMultiples)
    (hA : A.Calculates ok Fault.IsArithmetic)
    (hs : ∀ x v, scope.value? x = some v → ∀ a ∈ v.items, ok a) {l r : Expr α}
    (hl : l.IsSide A ok scope) (hr : r.IsSide A ok scope) :
    Yields (fun f => f = .notOneSided ∧ l.hasVariable = r.hasVariable ∨
        Equation.Fails A scope Fault.IsArithmetic (Equation.oriented l r) f)
      (fun _ => True) (answerEquation A scope l r).outcome := by
  have solved {l r : Expr α} (hl : l.IsSide A ok scope) (hr : r.IsSide A ok scope)
      (hlvar : l.hasVariable = true) (hrvar : r.hasVariable = false) :
      Yields (Equation.Fails A scope Fault.IsArithmetic (l, r)) (fun _ => True)
        (Equation.solve A l r scope).outcome := by
    have hready : Equation.Ready A ok (l, r) :=
      ⟨hl.calculable, hr.calculable, (Expr.hasVariable_eq_false r).mp hrvar⟩
    refine (Equation.yields_solve hU hK hA hs hready).mono_fault fun f hf => hf.resolve_right ?_
    exact fun h => h.2 (Equation.keepsUnknown_of_settled hU hK hl.settled hl.unbound hlvar)
  unfold answerEquation Equation.oriented
  cases hlvar : l.hasVariable <;> cases hrvar : r.hasVariable
  · exact .inl ⟨rfl, rfl⟩
  · exact (solved hr hl hrvar hlvar).mono_fault fun _ => .inr
  · exact (solved hl hr hlvar hrvar).mono_fault fun _ => .inr
  · exact .inl ⟨rfl, rfl⟩

end

/-! ### Texts -/

/-- A text has one side more than equality signs. -/
theorem length_sides (source : String) :
    (sides source).length = source.toList.count '=' + 1 := by
  rw [sides, List.length_map]
  induction source.toList with
  | nil => rfl
  | cons c cs ih =>
      rw [List.splitOn_cons_eq_if_modifyHead]
      split <;> simp_all

/-- A text with one equality sign is an equation. -/
theorem exists_sides_eq {source : String} (h : source.toList.count '=' = 1) :
    ∃ left right, sides source = [left, right] :=
  List.length_eq_two.mp (by rw [length_sides, h])

/-- Resolving a text fails as answering it does. -/
theorem resolve_eq_error {A : Arithmetic α} {limit : Except Fault DepthLimit} {source : String}
    {scope : Scope α} {f : Fault} : (resolve A limit source scope).outcome = .error f ↔
      (answer A limit source scope).outcome = .error f := by
  rw [resolve, Resolution.ofAnswer]
  cases (answer A limit source scope).outcome <;> simp

/-- **What can go wrong with an equation**: a side has a fault of its own, or solving calculates
with numbers that have no result; or the unknown stands on both sides of an operator; or both sides
are simplified, and the equation has not one unknown on one side, or a call loses it. -/
theorem yields_equation (file : SettingsFile) {source left right : String}
    (hsides : sides source = [left, right]) {scope : Scope Operand}
    (hs : ∀ x v, scope.value? x = some v → ∀ a ∈ v.items, a.IsNumeric) :
    Yields (fun f => f.IsOfSide ∨ (∃ op, f = .notLinear op) ∨ ∃ l r,
        (Formula.simplified calculator file.depthLimit scope left).outcome = .ok l ∧
        (Formula.simplified calculator file.depthLimit scope right).outcome = .ok r ∧
        (f = .notOneSided ∧ l.hasVariable = r.hasVariable ∨ f = .noSolution ∧ ∃ sides',
          ReflTransGen (Equation.Calls calculator scope) (Equation.oriented l r) sides' ∧
          Equation.LosesUnknown calculator scope sides'))
      (fun _ => True) (answer calculator file.depthLimit source scope).outcome := by
  have hlimit : Yields Fault.IsOfSide (fun l => l.fault.IsOfSide) file.depthLimit :=
    (yields_depthLimit file).mono (fun _ hf => hf.imp_right .inr) fun _ hl => hl.imp_right .inr
  have side (text : String) := (yields_side hasUnits_calculator calculates_calculator
    (fun _ => isSome_constant) hs hlimit text).and_eq
  rw [outcome_answer_equation hsides]
  refine Yields.map ?_ fun _ (_ : True) => trivial
  refine ((side left).mono_fault fun _ => .inl).bind fun l hl => ?_
  refine ((side right).mono_fault fun _ => .inl).bind fun r hr => ?_
  refine (Equation.yields_answer hasUnits_calculator keepsMultiples_calculator
    calculates_calculator hs hl.1 hr.1).mono_fault ?_
  rintro f (⟨rfl, hvar⟩ | ⟨hf⟩ | ⟨op⟩ | ⟨hrow, hlost⟩)
  · exact .inr (.inr ⟨l, r, hl.2, hr.2, .inl ⟨rfl, hvar⟩⟩)
  · exact .inl (.inr (.inl hf))
  · exact .inr (.inl ⟨op, rfl⟩)
  · exact .inr (.inr ⟨l, r, hl.2, hr.2, .inr ⟨rfl, _, hrow, hlost⟩⟩)

/-- The **shape** of an equation is wrong if both simplified sides have a variable, or none. -/
theorem notOneSided_of_simplified {A : Arithmetic α} {limit : Except Fault DepthLimit}
    {source left right : String} (hsides : sides source = [left, right]) {scope : Scope α}
    {l r : Expr α} (hl : (Formula.simplified A limit scope left).outcome = .ok l)
    (hr : (Formula.simplified A limit scope right).outcome = .ok r)
    (h : l.hasVariable = r.hasVariable) :
    (resolve A limit source scope).outcome = .error .notOneSided := by
  have hshape : (answerEquation A scope l r).outcome = .error .notOneSided := by
    unfold answerEquation
    rw [h]
    cases r.hasVariable <;> rfl
  rw [resolve_eq_error, outcome_answer_equation hsides, hl, hr]
  show (answerEquation A scope l r).outcome.map Answer.solution = _
  rw [hshape]
  rfl

/-- **Only the intended errors come out of an equation.** Nothing in it is unbound, unknown or no
number, no unknown is on the right side, and some rule isolates every unknown. The shape of the
equation is wrong exactly if both sides are simplified and either both or none have a variable; and
there is no solution only if a call loses the unknown by moving a divisor. -/
theorem resolve_equation_faults (file : SettingsFile) {source : String}
    (hone : source.toList.count '=' = 1) {scope : Scope Operand}
    (hs : ∀ x v, scope.value? x = some v → ∀ a ∈ v.items, a.IsNumeric) :
    let outcome := (resolve calculator file.depthLimit source scope).outcome
    let simplified := fun side => (Formula.simplified calculator file.depthLimit scope side).outcome
    ∃ left right, sides source = [left, right] ∧
      (∀ f, outcome = .error f →
        f.code? ∉ [some "3034", some "3035", some "3004", some "3036", some "3031"] ∧
        f ≠ .unknownOnRight ∧ ∀ text, f ≠ .notIsolable text) ∧
      ((∃ f, outcome = .error f ∧ f.code? = some "3037") ↔
        ∃ l r, simplified left = .ok l ∧ simplified right = .ok r ∧
          l.hasVariable = r.hasVariable) ∧
      ∀ f, outcome = .error f → f.code? = some "3014" →
        ∃ l r sides', simplified left = .ok l ∧ simplified right = .ok r ∧
          ReflTransGen (Equation.Calls calculator scope) (Equation.oriented l r) sides' ∧
          Equation.LosesUnknown calculator scope sides' := by
  intro outcome simplified
  obtain ⟨left, right, hsides⟩ := exists_sides_eq hone
  have fault {f : Fault} (hf : outcome = .error f) :=
    (yields_equation file hsides hs).of_error (resolve_eq_error.mp hf)
  refine ⟨left, right, hsides, fun f hf => ?_, ⟨?_, ?_⟩, fun f hf hcode => ?_⟩
  · obtain hside | ⟨op, rfl⟩ | ⟨l, r, -, -, ⟨rfl, -⟩ | ⟨rfl, -⟩⟩ := fault hf
    · refine ⟨?_, ?_, ?_⟩
      · simp [hside.code?_ne]
      · rintro rfl
        exact hside.code?_ne "3037" (by simp) rfl
      · rintro text rfl
        exact hside.code?_ne "3005" (by simp) rfl
    · exact ⟨by simp [Fault.code?], nofun, nofun⟩
    · exact ⟨by simp [Fault.code?], nofun, nofun⟩
    · exact ⟨by simp [Fault.code?], nofun, nofun⟩
  · rintro ⟨f, hf, hcode⟩
    obtain hside | ⟨op, rfl⟩ | ⟨l, r, hl, hr, ⟨rfl, hvar⟩ | ⟨rfl, -⟩⟩ := fault hf
    · exact absurd hcode (hside.code?_ne _ (by simp))
    · simp [Fault.code?] at hcode
    · exact ⟨l, r, hl, hr, hvar⟩
    · simp [Fault.code?] at hcode
  · rintro ⟨l, r, hl, hr, hvar⟩
    exact ⟨.notOneSided, notOneSided_of_simplified hsides hl hr hvar, rfl⟩
  · obtain hside | ⟨op, rfl⟩ | ⟨l, r, hl, hr, ⟨rfl, -⟩ | ⟨rfl, sides', hrow, hlost⟩⟩ := fault hf
    · exact absurd hcode (hside.code?_ne _ (by simp))
    · simp [Fault.code?] at hcode
    · simp [Fault.code?] at hcode
    · exact ⟨l, r, sides', hl, hr, hrow, hlost⟩

/-- With two values of `a`, the equation `a/x=0` has no solution: moving the divisor leaves `0`. -/
theorem resolve_equation_faults_divisor :
    let scope : Scope Operand := [("a", some (.many [.number ⟨2, 0⟩, .number ⟨3, 0⟩])), ("b", none)]
    let limit := (SettingsFile.mk none true).depthLimit
    (resolve calculator limit "a/x=0" scope).outcome = .error .noSolution ∧
      ∃ l r sides', (Formula.simplified calculator limit scope "a/x").outcome = .ok l ∧
        (Formula.simplified calculator limit scope "0").outcome = .ok r ∧
        ReflTransGen (Equation.Calls calculator scope) (Equation.oriented l r) sides' ∧
        Equation.LosesUnknown calculator scope sides' := by
  intro scope limit
  obtain ⟨f, hf, rfl⟩ := (show Yields (fun f => f = .noSolution) (fun _ => False)
    (resolve calculator limit "a/x=0" scope).outcome by decide +kernel).exists_error
  have hs : ∀ x v, scope.value? x = some v → ∀ a ∈ v.items, a.IsNumeric := by
    intro x v hv a ha
    obtain ⟨-, rfl⟩ : x = "a" ∧ v = .many [.number ⟨2, 0⟩, .number ⟨3, 0⟩] := by
      simpa [scope] using Scope.mem_of_value? hv
    obtain rfl | ha := List.mem_cons.mp ha
    · exact .number _
    · obtain rfl := List.mem_singleton.mp ha
      exact .number _
  have hone : "a/x=0".toList.count '=' = 1 := by decide
  obtain ⟨left, right, hsides, -, -, h⟩ := resolve_equation_faults ⟨none, true⟩ hone hs
  obtain ⟨rfl, rfl⟩ : left = "a/x" ∧ right = "0" := by
    have htext : sides "a/x=0" = ["a/x", "0"] := by decide
    simpa using hsides.symm.trans htext
  exact ⟨hf, h _ hf rfl⟩

end Argand
