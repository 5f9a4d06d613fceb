import Argand.Proofs.Equation.Calls
import Argand.Proofs.Resolution

/-!
# Bindings that do not matter

A scope is only ever asked for the names that occur in a formula, and no step of simplifying or
solving brings in a name. So what two scopes bind to other names makes no difference: it does not
change a value, a fault or a solution, and a solution does not change it.

## Main definitions

* `Argand.Scope.AgreesOn`: scopes with the same values of some names.
* `Argand.Scope.DiffersAt`: scopes that differ at one name only.
* `Argand.lettersOf`: the letters of a text as names.

## Main results

* `Argand.value_congr`, `Argand.simplify_congr`: formulas in scopes that agree on their names.
* `Argand.Equation.isolate_congr`: equations in such scopes.
* `Argand.answer_congr`: texts in scopes that agree on their letters.
* `Argand.irrelevant_binding`: a binding of a name that does not occur.
-/

namespace Argand

variable {α : Type} {A : Arithmetic α} {scope scope' : Scope α}

/-! ### Scopes that agree -/

/-- Two scopes **agree on** some names if these have the same values in both. -/
def Scope.AgreesOn (names : List String) (scope scope' : Scope α) : Prop :=
  ∀ x ∈ names, scope'.value? x = scope.value? x

/-- Scopes that agree on some names agree on part of them. -/
theorem Scope.AgreesOn.mono {xs ys : List String} (h : Scope.AgreesOn xs scope scope')
    (hys : ys ⊆ xs) : Scope.AgreesOn ys scope scope' :=
  fun x hx => h x (hys hx)

/-- Scopes that agree on two lists of names agree on both together. -/
theorem Scope.AgreesOn.append {xs ys : List String} (hxs : Scope.AgreesOn xs scope scope')
    (hys : Scope.AgreesOn ys scope scope') : Scope.AgreesOn (xs ++ ys) scope scope' :=
  fun x hx => (List.mem_append.mp hx).elim (hxs x) (hys x)

/-- One scope differs from another **only at** a name, which it binds to `v`. -/
structure Scope.DiffersAt (name : String) (v : Option (Value α)) (scope scope' : Scope α) :
    Prop where
  others : ∀ x ≠ name, Entries.get? scope' x = Entries.get? scope x
  bound : Entries.get? scope' name = some v

/-- A scope differs from itself with one more binding only at the name of that. -/
theorem Scope.differsAt_insert (scope : Scope α) (name : String) (v : Option (Value α)) :
    Scope.DiffersAt name v scope (Entries.insert scope name v) where
  others _ hx := Entries.get?_insert_of_ne hx
  bound := Entries.get?_insert_self _ _ _

namespace Scope.DiffersAt

variable {name : String} {v : Option (Value α)}

/-- Such scopes agree on other names. -/
theorem agreesOn (h : Scope.DiffersAt name v scope scope') {names : List String}
    (hname : name ∉ names) : Scope.AgreesOn names scope scope' := by
  intro x hx
  have hne : x ≠ name := fun heq => hname (heq ▸ hx)
  rw [Scope.value?, Scope.value?, h.others x hne]

/-- They still differ only there when a solution for another name is bound in both. -/
theorem bind (h : Scope.DiffersAt name v scope scope') {s : Solution α} (hs : s.name ≠ name) :
    Scope.DiffersAt name v (scope.bind s) (scope'.bind s) where
  others x hx := by
    rw [Scope.bind, Scope.bind, Entries.get?_insert, Entries.get?_insert, h.others x hx]
  bound := by
    rw [Scope.bind, Entries.get?_insert_of_ne hs.symm, h.bound]

end Scope.DiffersAt

/-! ### Formulas -/

/-- **The value of a formula** depends on the values of its names only. -/
theorem value_congr {e : Expr α} (h : Scope.AgreesOn e.names scope scope') :
    e.value A scope' = e.value A scope := by
  induction e with
  | atom x =>
      cases x with
      | scaled name c =>
          simp only [Expr.value, Expr.atomValue, h name (List.mem_singleton.mpr rfl)]
      | _ => rfl
  | node l op r ihl ihr =>
      rw [Expr.value, Expr.value, ihl (h.mono (List.subset_append_left _ _)),
        ihr (h.mono (List.subset_append_right _ _))]

theorem evaluate_congr {e : Expr α} (h : Scope.AgreesOn e.names scope scope') :
    e.evaluate A scope' = e.evaluate A scope := by
  unfold Expr.evaluate
  split
  · rfl
  · exact value_congr h

/-- **What a formula is simplified to** depends on the values of its names only. -/
theorem simplify_congr {e : Expr α} (h : Scope.AgreesOn e.names scope scope') :
    e.simplify A scope' = e.simplify A scope := by
  induction e with
  | atom x =>
      cases x with
      | scaled name c =>
          simp only [Expr.simplify, Simplify.atom, h name (List.mem_singleton.mpr rfl)]
      | _ => rfl
  | node l op r ihl ihr =>
      rw [Expr.simplify, Expr.simplify, ihl (h.mono (List.subset_append_left _ _)),
        ihr (h.mono (List.subset_append_right _ _))]

theorem logarithm_congr {e : Expr α} (h : Scope.AgreesOn e.names scope scope') :
    e.logarithm A scope' = e.logarithm A scope := by
  rw [Expr.logarithm, Expr.logarithm, evaluate_congr h]

/-! ### Equations -/

namespace Equation

/-- A value as a formula has no names to agree on. -/
theorem agreesOn_ofValue (v : Value α) :
    Scope.AgreesOn (Expr.ofValue v).names scope scope' := by
  simp [Scope.AgreesOn]

/-- Undoing an operator depends on the values of the names around it only. -/
theorem undo_congr {inFirst : Bool} {a b : Expr α} {op : Operator} {w : Value α}
    (h : Scope.AgreesOn (a.names ++ b.names) scope scope') :
    undo A scope' inFirst a op b (Expr.ofValue w) =
      undo A scope inFirst a op b (Expr.ofValue w) := by
  cases op with
  | power =>
      cases inFirst with
      | true => rfl
      | false =>
          rw [undo, undo, logarithm_congr (agreesOn_ofValue w),
            logarithm_congr (h.mono (List.subset_append_left _ _))]
  | _ => cases inFirst <;> rfl

/-- A step depends on the values of the names on both sides only. -/
theorem step_scope_congr {again : Expr α → Expr α → Traced α (Solution α)} {left right : Expr α}
    (h : Scope.AgreesOn (left.names ++ right.names) scope scope') :
    step A scope' again left right = step A scope again left right := by
  refine Traced.bind_congr fun _ _ => ?_
  cases right.hasVariable with
  | true => rfl
  | false =>
  cases left.hasVariable with
  | false => rfl
  | true =>
  rw [evaluate_congr (h.mono (List.subset_append_right _ _))]
  refine Traced.lift_bind_congr fun w _ => ?_
  cases left with
  | atom x =>
      cases x with
      | scaled name c =>
          have hvalue : (Expr.ofValue w).evaluate A scope' = (Expr.ofValue w).evaluate A scope :=
            evaluate_congr (agreesOn_ofValue w)
          simp only [hvalue]
      | _ => rfl
  | node a op b =>
      simp only [undo_congr (h.mono (List.subset_append_left _ _))]

/-- What a step hands over has no names but those on its sides. -/
theorem HandsOver.names_subset {left right : Expr α} {next : Expr α × Expr α}
    (h : HandsOver A scope left right next) : next.1.names ++ next.2.names ⊆ left.names := by
  cases h with
  | undone _ _ _ _ hundo => exact names_undo hundo

/-- Two sides have no other names once they are simplified. -/
theorem names_simplify_subset {l r l' r' : Expr α} (hl : l.simplify A scope = .ok l')
    (hr : r.simplify A scope = .ok r') : l'.names ++ r'.names ⊆ l.names ++ r.names := by
  have hl' : l'.names ⊆ l.names := fun y hy => (unbound_of_simplify hl y hy).1
  have hr' : r'.names ⊆ r.names := fun y hy => (unbound_of_simplify hr y hy).1
  exact List.append_subset.mpr
    ⟨List.subset_append_of_subset_left _ hl', List.subset_append_of_subset_right _ hr'⟩

/-- **The unknown is isolated** in the same way in scopes that agree on the names of both sides. -/
theorem isolate_congr {steps : Nat} {left right : Expr α}
    (h : Scope.AgreesOn (left.names ++ right.names) scope scope') :
    isolate A scope' steps left right = isolate A scope steps left right := by
  induction steps generalizing left right with
  | zero => rfl
  | succ steps ih =>
      rw [isolate_succ, isolate_succ, step_scope_congr h]
      refine step_congr fun next hnext => ?_
      have hsides := h.mono (List.Subset.trans hnext.names_subset (List.subset_append_left _ _))
      have hleft := hsides.mono (List.subset_append_left _ _)
      have hright := hsides.mono (List.subset_append_right _ _)
      rw [simplify_congr hleft, simplify_congr hright]
      refine Traced.lift_bind_congr fun l hl => Traced.lift_bind_congr fun r hr => ?_
      exact ih (hsides.mono (names_simplify_subset hl hr))

/-- **An equation is solved** in the same way in scopes that agree on the names of both sides. -/
theorem solve_congr {left right : Expr α}
    (h : Scope.AgreesOn (left.names ++ right.names) scope scope') :
    solve A left right scope' = solve A left right scope := by
  rw [solve, solve, simplify_congr (h.mono (List.subset_append_left _ _)),
    simplify_congr (h.mono (List.subset_append_right _ _))]
  refine Traced.lift_bind_congr fun l hl => Traced.lift_bind_congr fun r hr => ?_
  exact isolate_congr (h.mono (names_simplify_subset hl hr))

end Equation

/-! ### Texts -/

/-- The characters of a text in lower case, as names. Its variables are among them. -/
def lettersOf (source : String) : List String :=
  source.toList.map fun c => c.toLower.toString

/-- The letters of a side are letters of the text. -/
theorem lettersOf_subset {source side : String} (h : side ∈ sides source) :
    lettersOf side ⊆ lettersOf source :=
  List.map_subset _ fun _ hc => mem_of_mem_sides h hc

variable {limit : Except Fault DepthLimit} {source : String}

/-- The names in a formula that was read are letters of the text. -/
theorem names_of_read {e : Expr α} (h : (Formula.read A limit source).outcome = .ok e) :
    e.names ⊆ lettersOf source :=
  fun y hy => List.mem_map.mpr (letter_of_read h y hy).2

/-- The names that simplification leaves are letters of the text. -/
theorem names_of_simplified {e : Expr α}
    (h : (Formula.simplified A limit scope source).outcome = .ok e) :
    e.names ⊆ lettersOf source := by
  obtain ⟨_, hread, he⟩ := exists_of_simplified h
  exact fun y hy => names_of_read hread (unbound_of_simplify he y hy).1

/-- The formula of a text is simplified in the same way in scopes that agree on its letters. -/
theorem simplified_congr (h : Scope.AgreesOn (lettersOf source) scope scope') :
    Formula.simplified A limit scope' source = Formula.simplified A limit scope source := by
  refine Traced.bind_congr fun e he => ?_
  rw [simplify_congr (h.mono (names_of_read he))]

/-- Whichever side has the unknown, scopes that agree on the names of both have one solution. -/
theorem answerEquation_congr {left right : Expr α}
    (hleft : Scope.AgreesOn left.names scope scope')
    (hright : Scope.AgreesOn right.names scope scope') :
    answerEquation A scope' left right = answerEquation A scope left right := by
  rw [answerEquation, answerEquation, Equation.solve_congr (hleft.append hright),
    Equation.solve_congr (hright.append hleft)]

/-- **A text is answered** in the same way in scopes that agree on its letters. -/
theorem answer_congr (h : Scope.AgreesOn (lettersOf source) scope scope') :
    answer A limit source scope' = answer A limit source scope := by
  have agrees {side : String} (hside : side ∈ sides source) :
      Scope.AgreesOn (lettersOf side) scope scope' := h.mono (lettersOf_subset hside)
  unfold answer
  split
  case h_1 left right hsides =>
    have hleft : Scope.AgreesOn (lettersOf left) scope scope' := agrees (by simp [hsides])
    have hright : Scope.AgreesOn (lettersOf right) scope scope' := agrees (by simp [hsides])
    rw [simplified_congr hleft, simplified_congr hright]
    refine Traced.bind_congr fun l hl => Traced.bind_congr fun r hr => ?_
    rw [answerEquation_congr (hleft.mono (names_of_simplified hl))
      (hright.mono (names_of_simplified hr))]
  case h_2 formula hsides =>
    have hformula : Scope.AgreesOn (lettersOf formula) scope scope' := agrees (by simp [hsides])
    rw [simplified_congr hformula]
    refine Traced.bind_congr fun e he => ?_
    rw [evaluate_congr (hformula.mono (names_of_simplified he))]
  case h_3 => rfl

/-- The scopes **after** an answer differ where those before it did, unless that is the unknown. -/
theorem Answer.differsAt_scopeAfter {name : String} {v : Option (Value α)} {a : Answer α}
    (h : Scope.DiffersAt name v scope scope') (ha : ∀ s, a = .solution s → s.name ≠ name) :
    Scope.DiffersAt name v (a.scopeAfter scope) (a.scopeAfter scope') := by
  cases a with
  | value _ => exact h
  | solution s => exact h.bind (ha s rfl)

/-- **A binding that does not matter**: a name that is no letter of a text, in either case, can be
bound to anything, valid or not. The answer, its fault and the steps remain what they are; every
other name is bound to the same afterwards, and the name to what it was bound to before. Likewise, a
name that does not occur in a formula can be bound to anything without an effect on its value and
its simplified form. -/
theorem irrelevant_binding (A : Arithmetic α) (limit : Except Fault DepthLimit) (source : String)
    (scope : Scope α) (name : String) (v : Option (Value α)) :
    ((∀ c ∈ source.toList, c.toLower.toString ≠ name) →
      let first := resolve A limit source scope
      let second := resolve A limit source (Entries.insert scope name v)
      second.outcome = first.outcome ∧ second.notes = first.notes ∧
        Scope.DiffersAt name v first.scope second.scope) ∧
    ∀ e : Expr α, name ∉ e.names →
      e.evaluate A (Entries.insert scope name v) = e.evaluate A scope ∧
      e.simplify A (Entries.insert scope name v) = e.simplify A scope := by
  have hdiffers := Scope.differsAt_insert scope name v
  refine ⟨fun hname => ?_, fun e he => ?_⟩
  · have hletters : name ∉ lettersOf source := by
      intro hmem
      obtain ⟨c, hc, hlower⟩ := List.mem_map.mp hmem
      exact hname c hc hlower
    have hanswer : answer A limit source (Entries.insert scope name v) =
        answer A limit source scope := answer_congr (hdiffers.agreesOn hletters)
    -- the unknown of an equation is one of its letters
    have hunknown {s : Solution α}
        (hs : (answer A limit source scope).outcome = .ok (.solution s)) : s.name ≠ name := by
      obtain ⟨-, -, c, hc, hlower⟩ := unknown_of_answer hs
      exact hlower ▸ hname c hc
    simp only [resolve, Resolution.ofAnswer, hanswer]
    cases ha : (answer A limit source scope).outcome with
    | error f => exact ⟨rfl, rfl, hdiffers⟩
    | ok a =>
        refine ⟨rfl, rfl, Answer.differsAt_scopeAfter hdiffers ?_⟩
        rintro s rfl
        exact hunknown ha
  · have hagrees := hdiffers.agreesOn he
    exact ⟨evaluate_congr hagrees, simplify_congr hagrees⟩

/-- With `y = 1`, the equation `2X+y=7` is solved although `z` is bound to a text, which is no
number, and stays so; and `y` has its value and its simplified form. -/
theorem irrelevant_binding_text :
    let one := Scope.whole "y" 1
    let more := Entries.insert one "z" (some (.one (.other (.text "seven"))))
    let first := resolve calculator (.ok (.ofInt 120)) "2X+y=7" one
    let second := resolve calculator (.ok (.ofInt 120)) "2X+y=7" more
    let y := Expr.scaled "y" calculator.one
    (∃ a, first.outcome = .ok a ∧ second.outcome = .ok a) ∧
      Scope.DiffersAt "z" (some (.one (.other (.text "seven")))) first.scope second.scope ∧
      y.evaluate calculator more = y.evaluate calculator one ∧
      y.simplify calculator more = y.simplify calculator one := by
  have hagree := irrelevant_binding calculator (.ok (.ofInt 120)) "2X+y=7" (.whole "y" 1) "z"
    (some (.one (.other (.text "seven"))))
  have hletters : ("2X+y=7".toList.all fun c => c.toLower.toString != "z") = true := by
    decide +kernel
  obtain ⟨houtcome, -, hdiffers⟩ := hagree.1 fun c hc => by
    simpa using List.all_eq_true.mp hletters c hc
  obtain ⟨a, ha, -⟩ := (show Yields (fun _ => False) (fun _ => True)
    (resolve calculator (.ok (.ofInt 120)) "2X+y=7" (.whole "y" 1)).outcome
    by decide +kernel).exists_ok
  exact ⟨⟨a, ha, houtcome.trans ha⟩, hdiffers, hagree.2 _ (by decide +kernel)⟩

end Argand
