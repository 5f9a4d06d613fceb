import Argand.Proofs.Equation.Calls
import Argand.Proofs.Equation.Isolation
import Argand.Proofs.Evaluation
import Argand.Proofs.Simplification.Meaning
import Argand.Proofs.Simplification.Occurrences

/-!
# Solving does not get stuck

As long as the unknown occurs once on the left, each step undoes an operator around it and leaves
a left side that takes less effort. So the steps end with the unknown alone, unless a division by
zero or the loss of the unknown stops them before; and the number of steps that solving allows is
enough.

## Main definitions

* `Argand.Expr.IsGround`: formulas without variables that have a value.
* `Argand.Expr.IsPending`: left sides with one occurrence of the unknown at most.

## Main results

* `Argand.Expr.IsPending.yields_undo`: what one step leaves.
* `Argand.yields_isolate`: how solving ends.
* `Argand.Isolates.length_names_le`: with exact arithmetic nothing else is solved.
-/

namespace Argand

open Simplify

variable {α K : Type}

variable {A : Arithmetic α}

/-! ### Formulas without variables -/

/-- A leaf without variables that **has a value**. -/
def Atom.IsGround (A : Arithmetic α) : Atom α → Prop
  | .number _ => True
  | .constant x => (A.constant? x).isSome
  | .scaled .. | .list _ | .stray _ => False

/-- A **known** leaf: a number, a multiple of a variable or a constant with a value. -/
def Atom.IsKnown (A : Arithmetic α) : Atom α → Prop
  | .number _ | .scaled .. => True
  | .constant x => (A.constant? x).isSome
  | .list _ | .stray _ => False

theorem leafKind_isGround (A : Arithmetic α) : LeafKind (Atom.IsGround A) fun _ => False :=
  ⟨fun _ => trivial, fun _ => id, id⟩

theorem leafKind_isKnown (A : Arithmetic α) : LeafKind (Atom.IsKnown A) fun _ => True :=
  ⟨fun _ => trivial, fun _ _ => trivial, fun _ => trivial⟩

/-- A formula is **ground** if it has no variables and all its constants and numbers have values. -/
structure Expr.IsGround (A : Arithmetic α) (ok : α → Prop) (e : Expr α) : Prop where
  leaves : e.Over A (Atom.IsGround A) fun _ => False
  sound : e.Sound ok fun _ => True

/-- A formula over known leaves without variables is one over ground leaves. -/
theorem Expr.Over.isGround {squared : String → Prop} {e : Expr α}
    (h : e.Over A (Atom.IsKnown A) squared) (hnames : e.names = []) :
    e.Over A (Atom.IsGround A) fun _ => False := by
  induction h with
  | @atom x hx =>
      cases x with
      | scaled => cases hnames
      | number | constant => exact .atom hx
      | list | stray => exact hx.elim
  | node hop _ _ ihl ihr =>
      obtain ⟨hl, hr⟩ := Expr.names_eq_nil_of_node hnames
      exact .node hop (ihl hl) (ihr hr)
  | square _ => cases hnames

variable {P : Fault → Prop} {ok : α → Prop}

/-- A ground formula has no variables. -/
theorem Expr.IsGround.names_eq_nil {e : Expr α} (h : e.IsGround A ok) : e.names = [] := by
  obtain ⟨hover, -⟩ := h
  induction hover with
  | @atom x hx =>
      cases x with
      | scaled => exact hx.elim
      | _ => rfl
  | node _ _ _ ihl ihr => simp [Expr.names, ihl, ihr]
  | square hx => exact hx.elim

/-- A number is ground. -/
theorem Expr.IsGround.number {a : α} (ha : ok a) : (Expr.number a).IsGround A ok :=
  ⟨.atom trivial, ha⟩

/-- Ground operands give a ground formula. -/
theorem Expr.IsGround.node {l r : Expr α} {op : Operator} (hop : op.IsField)
    (hl : l.IsGround A ok) (hr : r.IsGround A ok) : (Expr.node l op r).IsGround A ok :=
  ⟨.node hop hl.leaves hr.leaves, hl.sound, hr.sound, fun _ => r.divides_true⟩

section Handles

variable (hA : A.Handles P ok fun _ => True)

include hA

/-- An operator of a field gives a single number for single numbers. -/
theorem yields_operate_one {op : Operator} (hop : op.IsField) {a b : α} (ha : ok a) (hb : ok b) :
    Yields P (fun w => ∃ c, w = .one c ∧ ok c) (Expr.operate A op (.one a) (.one b)) := by
  rw [operate_eq_combineValues hop]
  exact (yields_onNumbers hA hop ha hb fun _ => trivial).map fun c hc => ⟨c, rfl, hc⟩

/-- **A ground formula has a single number as value**, up to faults of the arithmetic. -/
theorem Expr.IsGround.yields_evaluate (hone : ∀ a, ok a → A.contents a = .one a)
    (hconst : ∀ x a, A.constant? x = some a → ok a) {scope : Scope α} {e : Expr α}
    (he : e.IsGround A ok) : Yields P (fun w => ∃ a, w = .one a ∧ ok a) (e.evaluate A scope) := by
  have hvalue : Yields P (fun w => ∃ a, w = .one a ∧ ok a) (e.value A scope) := by
    obtain ⟨hover, hok⟩ := he
    induction hover with
    | @atom x hx =>
        cases x with
        | number a => exact ⟨a, hone a hok, hok⟩
        | constant x =>
            obtain ⟨a, ha⟩ := Option.isSome_iff_exists.mp hx
            simp only [Expr.value, Expr.atomValue, ha]
            exact ⟨a, rfl, hconst x a ha⟩
        | scaled | list | stray => exact hx.elim
    | node hop _ _ ihl ihr =>
        refine (ihl hok.1).bind fun x hx => (ihr hok.2.1).bind fun y hy => ?_
        obtain ⟨a, rfl, ha⟩ := hx
        obtain ⟨b, rfl, hb⟩ := hy
        exact yields_operate_one hA hop ha hb
    | square hx => exact hx.elim
  unfold Expr.evaluate
  split
  · exact he.leaves.leaf_of.elim
  · exact hvalue

/-- **A ground formula is simplified to a ground formula**, up to faults of the arithmetic. -/
theorem Expr.IsGround.yields_simplify {scope : Scope α}
    (hs : ∀ x v, scope.value? x = some v → ∀ a ∈ v.items, ok a) {e : Expr α}
    (he : e.IsGround A ok) : Yields P (Expr.IsGround A ok) (e.simplify A scope) := by
  refine ((Argand.yields_simplify hA hs nofun he.leaves he.sound).and_of_ok fun e' h => ?_).mono
    (fun _ => id) fun e' h => ⟨h.2, h.1⟩
  refine over_simplify (leafKind_isGround A) (fun x hx e h => ?_) nofun he.leaves h
  cases x with
  | number | constant =>
      obtain rfl := Except.ok.inj h
      exact .atom hx
  | scaled | list | stray => exact hx.elim

end Handles

/-! ### Left sides -/

/-- A left side is **pending** if it is tidy, its leaves are known, and the unknown `x` occurs in
it once at most. -/
structure Expr.IsPending (A : Arithmetic α) (ok : α → Prop) (x : String) (e : Expr α) :
    Prop where
  tidy : e.IsTidy A Operator.IsField
  leaves : e.Over A (Atom.IsKnown A) fun _ => True
  sound : e.Sound ok fun _ => True
  names : ∀ y ∈ e.names, y = x
  single : e.names.length ≤ 1

namespace Expr.IsPending

variable {x : String} {a b e : Expr α} {op : Operator}

theorem isField (h : (Expr.node a op b).IsPending A ok x) : op.IsField :=
  h.tidy.1

/-- The operands of a left side. -/
theorem operands (h : (Expr.node a op b).IsPending A ok x) :
    a.IsPending A ok x ∧ b.IsPending A ok x := by
  obtain ⟨hop, -, -, hat, hbt⟩ := h.tidy
  obtain ⟨hao, hbo⟩ := h.leaves.operands hop
  have hsingle : a.names.length + b.names.length ≤ 1 := by
    have := h.single
    rwa [Expr.names, List.length_append] at this
  exact ⟨⟨hat, hao, h.sound.1, fun y hy => h.names y (List.mem_append_left _ hy), by omega⟩,
    ⟨hbt, hbo, h.sound.2.1, fun y hy => h.names y (List.mem_append_right _ hy), by omega⟩⟩

/-- A left side without the unknown is ground. -/
theorem isGround (h : e.IsPending A ok x) (hnames : e.names = []) : e.IsGround A ok :=
  ⟨h.leaves.isGround hnames, h.sound⟩

theorem isGround_of_not (h : e.IsPending A ok x) (hnot : e.hasVariable = false) :
    e.IsGround A ok :=
  h.isGround ((Expr.hasVariable_eq_false e).mp hnot)

/-- The unknown is not in both operands of a left side. -/
theorem not_both (h : (Expr.node a op b).IsPending A ok x) :
    (a.hasVariable && b.hasVariable) = false := by
  rw [Bool.eq_false_iff, ne_eq, Bool.and_eq_true, Expr.hasVariable_iff, Expr.hasVariable_iff]
  rintro ⟨ha, hb⟩
  have hsingle := h.single
  rw [Expr.names, List.length_append] at hsingle
  have := List.length_pos_iff.mpr ha
  have := List.length_pos_iff.mpr hb
  omega

/-- A left side is simplified already. -/
theorem simplify_eq (h : e.IsPending A ok x) {scope : Scope α} (hx : scope.value? x = none) :
    e.simplify A scope = .ok e :=
  h.tidy.simplify_eq fun y hy => by rw [h.names y hy, hx]

/-- A number times a left side is a left side. -/
theorem yields_multiply (hA : A.Handles P ok fun _ => True) {r : α} (hr : ok r)
    (h : e.IsPending A ok x) :
    Yields P (Expr.IsPending A ok x) (rule A .multiply (.number r) e) := by
  have hnumber : (Expr.number r).Sound ok fun _ => True := hr
  have hyields : Yields P (Expr.Sound ok fun _ => True) (rule A .multiply (.number r) e) :=
    yields_rule hA nofun hnumber h.sound nofun
  refine yields_iff.mpr ⟨fun e' he' => ?_, (yields_iff.mp hyields).2⟩
  have hrw := rewrites_of_rule he'
  have hone : Operator.IsProduct .multiply → (Expr.number r).names = [] ∨ e.names = [] :=
    fun _ => .inl rfl
  have hlength := hrw.length_names_le operatorKind_isField trivial hone trivial h.tidy
    (not_besideSum_atom_mul fun h => h.elim)
  refine ⟨hrw.isTidy operatorKind_isField trivial hone trivial h.tidy,
    hrw.over (leafKind_isKnown A) trivial (.atom trivial) h.leaves, hyields.of_ok he',
    fun y hy => ?_, ?_⟩
  · exact h.names y (by simpa [Expr.names] using hrw.names_subset hy)
  · exact hlength.trans (by simpa [Expr.names] using h.single)

end Expr.IsPending

/-- **One step** leaves one operand of the left side, or the divisor times the right side; the
right side takes up the other operand. -/
theorem undo_of_isField (A : Arithmetic α) (scope : Scope α) {op : Operator} (hop : op.IsField)
    (inFirst : Bool) (a b right : Expr α) :
    ∃ l r, Equation.undo A scope inFirst a op b right = .ok (l, r) ∧
      ((l = bif inFirst then a else b) ∧ (∃ op' : Operator, op'.IsField ∧
          (r = .node right op' (bif inFirst then b else a) ∨
            r = .node (bif inFirst then b else a) op' right)) ∨
        (op = .divide ∧ inFirst = false ∧ l = .node right .multiply b ∧ r = a)) := by
  cases op with
  | add =>
      cases inFirst with
      | true => exact ⟨_, _, rfl, .inl ⟨rfl, .subtract, trivial, .inl rfl⟩⟩
      | false => exact ⟨_, _, rfl, .inl ⟨rfl, .subtract, trivial, .inl rfl⟩⟩
  | subtract =>
      cases inFirst with
      | true => exact ⟨_, _, rfl, .inl ⟨rfl, .add, trivial, .inl rfl⟩⟩
      | false => exact ⟨_, _, rfl, .inl ⟨rfl, .subtract, trivial, .inr rfl⟩⟩
  | multiply =>
      cases inFirst with
      | true => exact ⟨_, _, rfl, .inl ⟨rfl, .divide, trivial, .inl rfl⟩⟩
      | false => exact ⟨_, _, rfl, .inl ⟨rfl, .divide, trivial, .inl rfl⟩⟩
  | divide =>
      cases inFirst with
      | true => exact ⟨_, _, rfl, .inl ⟨rfl, .multiply, trivial, .inl rfl⟩⟩
      | false => exact ⟨_, _, rfl, .inr ⟨rfl, rfl, rfl, rfl⟩⟩
  | power => exact hop.elim
  | plusMinus => exact hop.elim
  | other => exact hop.elim

section Steps

variable (hA : A.Handles P ok fun _ => True) {scope : Scope α}
  (hs : ∀ x v, scope.value? x = some v → ∀ a ∈ v.items, ok a) {x : String}
  (hx : scope.value? x = none)

include hA hs hx

/-- **One step** leaves a pending left side and a ground right side. -/
theorem Expr.IsPending.yields_undo {a b : Expr α} {op : Operator}
    (h : (Expr.node a op b).IsPending A ok x) {r : α} (hr : ok r) :
    ∃ l r', Equation.undo A scope a.hasVariable a op b (Expr.ofValue (.one r)) = .ok (l, r') ∧
      Yields P (Expr.IsPending A ok x) (l.simplify A scope) ∧
      Yields P (Expr.IsGround A ok) (r'.simplify A scope) := by
  obtain ⟨ha, hb⟩ := h.operands
  have hab := h.not_both
  obtain ⟨l, r', hundo, hstep⟩ := undo_of_isField A scope h.isField a.hasVariable a b
    (Expr.ofValue (.one r))
  refine ⟨l, r', hundo, ?_, ?_⟩
  · obtain ⟨rfl, -⟩ | ⟨rfl, -, rfl, -⟩ := hstep
    · cases a.hasVariable with
      | true =>
          rw [cond_true, ha.simplify_eq hx]
          exact ha
      | false =>
          rw [cond_false, hb.simplify_eq hx]
          exact hb
    · -- the divisor stands in a product now, which is simplified
      have hmultiply : (Expr.node (Expr.ofValue (.one r)) .multiply b).simplify A scope =
          rule A .multiply (.number r) b := by
        simp only [Expr.simplify, hb.simplify_eq hx]
        rfl
      rw [hmultiply]
      exact hb.yields_multiply hA hr
  · refine Expr.IsGround.yields_simplify hA hs ?_
    have hnumber : (Expr.ofValue (.one r)).IsGround A ok := .number hr
    have hother : (bif a.hasVariable then b else a).IsGround A ok := by
      cases hav : a.hasVariable with
      | true => exact hb.isGround_of_not (by simpa [hav] using hab)
      | false => exact ha.isGround_of_not hav
    obtain ⟨-, op', hop', rfl | rfl⟩ | ⟨-, hav, -, rfl⟩ := hstep
    · exact .node hop' hnumber hother
    · exact .node hop' hother hnumber
    · exact ha.isGround_of_not hav

/-- **Solving ends** with the unknown, or with a fault of the arithmetic or the loss of the
unknown. -/
theorem yields_isolate (hU : A.HasUnits) (hone : ∀ a, ok a → A.contents a = .one a)
    (hconst : ∀ x a, A.constant? x = some a → ok a) (hP : P .noSolution) {steps : Nat}
    {left right : Expr α} (hsteps : left.effort A < steps) (hleft : left.IsPending A ok x)
    (hright : right.IsGround A ok) :
    Yields P (fun s => s.name = x) (Equation.isolate A scope steps left right).outcome := by
  induction steps generalizing left right with
  | zero => omega
  | succ steps ih =>
      have hclosed := (Expr.hasVariable_eq_false right).mpr hright.names_eq_nil
      rw [Equation.isolate, Traced.outcome_bind, Traced.outcome_note]
      show Yields P _ (ite _ _ _ : Traced α (Solution α)).outcome
      simp only [hclosed, Bool.false_eq_true, if_false]
      cases hl : left.hasVariable with
      | false => simpa using hP
      | true =>
      simp only [Bool.not_true, Bool.false_eq_true, if_false, Traced.outcome_bind]
      refine (hright.yields_evaluate hA hone hconst).bind fun w hw => ?_
      obtain ⟨r, rfl, hr⟩ := hw
      cases left with
      | atom y =>
          cases y with
          | scaled y c =>
              have hvalue : Yields P (fun w => ∃ a, w = .one a ∧ ok a)
                  ((Expr.number r).evaluate A scope) :=
                (Expr.IsGround.number hr).yields_evaluate hA hone hconst
              simp only [Traced.outcome_bind, Traced.outcome_pure]
              refine hvalue.bind fun v hv => ?_
              obtain ⟨a, rfl, ha⟩ := hv
              have hquotient : Yields P (fun _ => True) ((Value.one a).mapM (A.divide · c)) :=
                (hA.divide ha hleft.sound trivial).map fun _ _ => trivial
              refine hquotient.bind fun u _ => ?_
              exact hleft.names y (List.mem_singleton.mpr rfl)
          | _ => cases hl
      | node a op b =>
          obtain ⟨l, r', hundo, hl', hr'⟩ := hleft.yields_undo hA hs hx hr
          simp only [hleft.not_both, Bool.false_eq_true, if_false, Traced.outcome_bind]
          show Yields P _ (Equation.undo A scope a.hasVariable a op b (Expr.ofValue (.one r)) >>= _)
          rw [hundo]
          have hlt : l.effort A < (Expr.node a op b).effort A := Equation.effort_undo_lt hundo
          have hl' := hl'.and_of_ok fun l' h => (effort_simplify_le hU h).1
          exact hl'.bind fun l' hl' => hr'.bind fun r' hr' => ih (by omega) hl'.1 hr'

end Steps

/-! ### What is not solved -/

/-- A left side that is solved has a variable. -/
theorem Isolates.names_ne_nil {scope : Scope α} {left right : Expr α} {s : Solution α}
    (h : Isolates A scope left right s) : left.names ≠ [] := by
  cases h with
  | alone _ _ _ _ => exact List.cons_ne_nil _ _
  | undone _ hl _ _ _ _ _ _ => exact (Expr.hasVariable_iff _).mp hl

/-- A value is neither a variable nor a sum. -/
theorem not_besideSum_ofValue_mul (v : Value α) {r : Expr α} :
    ¬ BesideSum .multiply (Expr.ofValue v) r := by
  cases v with
  | one a => exact not_besideSum_atom_mul fun h => h.elim
  | many items =>
      rcases items with - | ⟨a, - | ⟨b, rest⟩⟩ <;> exact not_besideSum_atom_mul fun h => h.elim

/-- **With exact arithmetic** an equation is solved only if the unknown occurs once on the left. -/
theorem Isolates.length_names_le [Field K] [DecidableEq K] {val : α → K} (hA : A.IsExact val)
    {scope : Scope α} {left right : Expr α} {s : Solution α} (h : Isolates A scope left right s)
    (hleft : left.IsTidy A Operator.IsField)
    (hnames : ∀ y ∈ left.names, scope.value? y = none) : left.names.length ≤ 1 := by
  induction h with
  | alone _ _ _ _ => exact le_rfl
  | @undone a b right l r l' r' op w s _ _ hab _ hundo hl hr hsteps ih =>
      obtain ⟨hop, -, hone, ha, hb⟩ := hleft
      have hna := fun y hy => hnames y (List.mem_append_left b.names hy)
      have hnb := fun y hy => hnames y (List.mem_append_right a.names hy)
      rw [Expr.names, List.length_append]
      have nil {e : Expr α} (h : e.hasVariable = false) : e.names.length = 0 := by
        rwa [Expr.hasVariable_eq_false, ← List.length_eq_zero_iff] at h
      obtain ⟨l₁, r₁, hundo₁, hstep⟩ :=
        undo_of_isField A scope hop a.hasVariable a b (Expr.ofValue w)
      obtain ⟨rfl, rfl⟩ := Prod.mk.inj (Except.ok.inj (hundo₁.symm.trans hundo))
      obtain ⟨rfl, -⟩ | ⟨rfl, hav, rfl, -⟩ := hstep
      · cases hav : a.hasVariable with
        | true =>
            rw [hav, cond_true, ha.simplify_eq hna] at hl
            obtain rfl := Except.ok.inj hl
            have := ih ha hna
            have := nil (show b.hasVariable = false by simpa [hav] using hab)
            omega
        | false =>
            rw [hav, cond_false, hb.simplify_eq hnb] at hl
            obtain rfl := Except.ok.inj hl
            have := ih hb hnb
            have := nil hav
            omega
      · -- multiplying the divisor loses all of its variables or none
        have hone' : Operator.IsProduct .multiply → (Expr.ofValue w).names = [] ∨ b.names = [] :=
          fun _ => .inl (names_ofValue w)
        have hw : (Expr.ofValue w).IsTidy A Operator.IsField := isTidy_ofValue w
        have hmultiply : rule A .multiply (Expr.ofValue w) b = .ok l' := by
          rw [Expr.simplify, hw.simplify_eq fun y hy => by simp at hy, hb.simplify_eq hnb] at hl
          exact hl
        have hrw := rewrites_of_rule hmultiply
        have hl' := hrw.isTidy operatorKind_isField trivial hone' hw hb
        have hsingle := ih hl' fun y hy => hnb y (by simpa using hrw.names_subset hy)
        have hle := names_eq_nil_or_le hA operatorKind_isField hmultiply trivial hone' hw hb
          (not_besideSum_ofValue_mul w)
        have := hle.resolve_left hsteps.names_ne_nil
        have := nil hav
        omega

end Argand
