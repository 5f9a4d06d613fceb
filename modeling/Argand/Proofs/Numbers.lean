import Argand.Proofs.Valid

/-!
# Numbers, whatever the scope

A scope may bind its names to anything. But a variable counts with its coefficient, and a product
is a number or a fault. So whatever stands in the scope, formulas are made of numbers, and so are
answers: they may be empty lists, but they are not lists of anything else.

## Main definitions

* `Argand.Atom.Holds`: a leaf that holds numbers only, if it holds any.

## Main results

* `Argand.items_of_value`: the value of a formula of numbers has numbers for items.
* `Argand.holds_simplify`: simplification keeps formulas made of numbers.
* `Argand.items_of_answer`: an answer has numbers for items.
-/

namespace Argand

variable {α : Type} {A : Arithmetic α} {ok : α → Prop}

/-- A leaf that **holds numbers** of a kind only. -/
def Atom.Holds (ok : α → Prop) : Atom α → Prop
  | .number a => ok a
  | .list items => ∀ a ∈ items, ok a
  | .scaled .. | .constant _ | .stray _ => True

/-- A formula that **holds numbers** of a kind only. -/
abbrev Expr.Holds (ok : α → Prop) (e : Expr α) : Prop :=
  e.HasLeaves (Atom.Holds ok)

/-- A value with numbers for items as a formula. -/
theorem Expr.holds_ofValue {v : Value α} (h : ∀ a ∈ v.items, ok a) : (Expr.ofValue v).Holds ok := by
  cases v with
  | one a => exact h a (List.mem_singleton.mpr rfl)
  | many items =>
      show (Expr.ofItems items).Holds ok
      unfold Expr.ofItems
      split
      · exact h _ (List.mem_singleton.mpr rfl)
      · exact h

section Values

variable (hA : A.Gives ok)

include hA

/-- The numbers of an operator's result are numbers of the kind. -/
theorem items_of_operate {op : Operator} {x y w : Value α} (h : Expr.operate A op x y = .ok w) :
    ∀ c ∈ w.items, ok c := by
  intro c hc
  cases op with
  | add => exact (mem_combineValues h hc).elim fun a ⟨_, b, _, hf⟩ => hA.add hf
  | subtract => exact (mem_combineValues h hc).elim fun a ⟨_, b, _, hf⟩ => hA.subtract hf
  | multiply => exact (mem_combineValues h hc).elim fun a ⟨_, b, _, hf⟩ => hA.multiply hf
  | divide => exact (mem_combineValues h hc).elim fun a ⟨_, b, _, hf⟩ => hA.divide hf
  | power => exact (mem_combineValues h hc).elim fun a ⟨_, b, _, hf⟩ => hA.power hf
  | plusMinus =>
      obtain ⟨items, hitems, rfl⟩ := map_eq_ok.mp h
      obtain ⟨a, -, b, -, w, hw, hc⟩ := isCombination_of_lift hitems c hc
      exact (isValid_of_plusMinus hA hw).items c hc
  | other symbol => cases h

/-- A variable counts with its coefficient, which makes it a number. -/
theorem items_of_scaled {v w : Value α} {c : α} (h : v.mapM (A.multiply c) = .ok w) :
    ∀ a ∈ w.items, ok a := by
  intro a ha
  obtain ⟨_, -, hmultiply⟩ := mem_valueMapM h ha
  exact hA.multiply hmultiply

/-- **The value of a formula** that holds numbers has numbers for items. -/
theorem items_of_value {scope : Scope α} {e : Expr α} (he : e.Holds ok) {v : Value α}
    (h : e.value A scope = .ok v) : ∀ c ∈ v.items, ok c := by
  cases e with
  | node l op r =>
      obtain ⟨x, -, h⟩ := bind_eq_ok.mp h
      obtain ⟨y, -, h⟩ := bind_eq_ok.mp h
      exact items_of_operate hA h
  | atom x =>
      cases evaluates_of_atomValue h with
      | number a =>
          rw [hA.contents he]
          exact fun c hc => List.mem_singleton.mp hc ▸ he
      | scaled _ hw => exact items_of_scaled hA hw
      | constant ha => exact fun c hc => List.mem_singleton.mp hc ▸ hA.constant ha
      | list items => exact he

/-- **Simplification** keeps formulas that hold numbers. -/
theorem holds_simplify {scope : Scope α} {e e' : Expr α} (he : e.Holds ok)
    (h : e.simplify A scope = .ok e') : e'.Holds ok :=
  hasLeaves_simplify hA (fun _ => id) (fun _ _ => trivial)
    (fun _ hw => Expr.holds_ofValue (items_of_scaled hA hw)) he h

/-- A solution is a quotient, so its items are numbers. -/
theorem Isolates.items {scope : Scope α} {left right : Expr α} {s : Solution α}
    (h : Isolates A scope left right s) : ∀ c ∈ s.value.items, ok c := by
  induction h with
  | alone _ _ _ hu =>
      intro c hc
      obtain ⟨a, -, hdivide⟩ := mem_valueMapM hu hc
      exact hA.divide hdivide
  | undone _ _ _ _ _ _ _ _ ih => exact ih

/-- **An answer has numbers for items**, whatever the scope. -/
theorem items_of_answer {limit : Except Fault DepthLimit} {source : String} {scope : Scope α}
    {a : Answer α} (h : (answer A limit source scope).outcome = .ok a) :
    ∀ c ∈ a.result.items, ok c := by
  obtain ⟨v, formula, rfl, hsides⟩ | ⟨s, left, right, rfl, hsides⟩ := sides_of_answer h
  · rw [outcome_answer_formula hsides, map_eq_ok] at h
    obtain ⟨w, h, hw⟩ := h
    obtain rfl : w = v := by injection hw
    obtain ⟨e, he, hv⟩ := bind_eq_ok.mp h
    obtain ⟨e₀, hread, hsimplify⟩ := exists_of_simplified he
    have hread : e₀.Holds ok :=
      hasLeaves_of_read hA.zero hA.literal (fun _ _ => trivial) (fun _ _ _ _ => trivial) hread
    exact items_of_value hA (holds_simplify hA hread hsimplify) (value_of_evaluate hv)
  · obtain ⟨_, _, _, _, -, -, hanswer⟩ := exists_of_answer_eq_solution hsides h
    obtain ⟨_, _, -, -, hsteps⟩ := exists_isolates hanswer
    exact hsteps.elim (fun h => h.items hA) fun h => h.items hA

end Values

end Argand
