import Argand.Proofs.Lifting
import Argand.Proofs.Numbers

/-!
# How many values a formula has

Each operator decides for itself whether its value is a list: if one of its operands is, or if the
operator is `±`. So lists come from the leaves and from `±`, and they spread to everything above.
Such a list has no two equal numbers, and dropping repeats leaves at least one number of any. So it
is empty only if some list below it was.

## Main definitions

* `Argand.Expr.IsPlural`: formulas in which a list or `±` occurs.
* `Argand.Expr.HasEmptyList`: formulas in which an empty list occurs.

## Main results

* `Argand.isList_of_operate`, `Argand.isList_iff_isPlural`: which values are lists.
* `Argand.items_eq_nil_of_operate`, `Argand.items_eq_nil_iff_hasEmptyList`: which are empty.
* `Argand.value_is_list_iff`: the values of formulas with the numbers of the calculator.
-/

namespace Argand

variable {α : Type} {A : Arithmetic α} {ok : α → Prop} {scope : Scope α}

/-! ### Lists in formulas -/

/-- The **list that a leaf stands for**, if it stands for one: several values, or a variable that is
bound to such. -/
def Atom.list? (scope : Scope α) : Atom α → Option (List α)
  | .list items => some items
  | .scaled name _ =>
    match scope.value? name with
    | some (.many items) => some items
    | _ => none
  | _ => none

/-- A formula is **plural** if a list or the operator `±` occurs in it. -/
def Expr.IsPlural (scope : Scope α) : Expr α → Prop
  | .atom x => (x.list? scope).isSome
  | .node l op r => l.IsPlural scope ∨ op = .plusMinus ∨ r.IsPlural scope

/-- A formula in which an **empty list** occurs. -/
def Expr.HasEmptyList (scope : Scope α) : Expr α → Prop
  | .atom x => x.list? scope = some []
  | .node l _ r => l.HasEmptyList scope ∨ r.HasEmptyList scope

/-- A leaf that is a number has one of a kind. -/
def Atom.NumberIs (ok : α → Prop) (x : Atom α) : Prop :=
  ∀ a, x = .number a → ok a

/-! ### Operators -/

/-- A combination is a list if one of the two values is. -/
theorem isList_of_combineValues {equals : α → α → Except Fault Bool} {f : α → α → Except Fault α}
    {x y w : Value α} (h : combineValues equals f x y = .ok w) :
    w.isList = (x.isList || y.isList) := by
  unfold combineValues at h
  split at h
  · obtain ⟨_, -, rfl⟩ := map_eq_ok.mp h
    rfl
  · rename_i hmany
    obtain ⟨_, -, rfl⟩ := map_eq_ok.mp h
    cases x with
    | many _ => rfl
    | one a =>
        cases y with
        | many _ => rfl
        | one b => exact absurd rfl (hmany a b rfl)

/-- **An operator makes a list** of a list, and `±` makes one of any values. -/
theorem isList_of_operate {op : Operator} {x y w : Value α} (h : Expr.operate A op x y = .ok w) :
    w.isList = true ↔ x.isList = true ∨ op = .plusMinus ∨ y.isList = true := by
  cases op with
  | plusMinus =>
      obtain ⟨_, -, rfl⟩ := map_eq_ok.mp h
      simp [Value.isList]
  | other symbol => cases h
  | _ => simp [isList_of_combineValues h]

/-- A lifted operation has no results if a value has no numbers, and only then. -/
theorem lift_eq_nil_iff {equals : α → α → Except Fault Bool}
    {f : α → α → Except Fault (Value α)} {x y : Value α} {items : List α}
    (hf : ∀ a b w, f a b = .ok w → w.IsValid ok) (h : lift equals f x y = .ok items) :
    items = [] ↔ x.items = [] ∨ y.items = [] := by
  constructor
  · intro hnil
    by_contra hne
    obtain ⟨hx, hy⟩ := not_or.mp hne
    exact (isValid_of_lift hx hy hf h).ne_nil hnil
  · intro hempty
    refine List.eq_nil_iff_forall_not_mem.mpr fun c hc => ?_
    obtain ⟨a, ha, b, hb, -⟩ := isCombination_of_lift h c hc
    obtain hx | hy := hempty
    · exact List.ne_nil_of_mem ha hx
    · exact List.ne_nil_of_mem hb hy

section Gives

variable (hA : A.Gives ok)

include hA

/-- A list that an operator makes is that of a **lifted operation** with valid results. -/
theorem exists_lift_of_operate {op : Operator} {x y : Value α} {items : List α}
    (h : Expr.operate A op x y = .ok (.many items)) :
    ∃ f, (∀ a b w, f a b = .ok w → w.IsValid ok) ∧ lift A.equals f x y = .ok items := by
  have single {f : α → α → Except Fault α} (hf : ∀ a b c, f a b = .ok c → ok c)
      (h : combineValues A.equals f x y = .ok (.many items)) :
      ∃ f, (∀ a b w, f a b = .ok w → w.IsValid ok) ∧ lift A.equals f x y = .ok items := by
    unfold combineValues at h
    split at h
    · obtain ⟨_, -, h⟩ := map_eq_ok.mp h
      cases h
    · obtain ⟨_, hitems, h⟩ := map_eq_ok.mp h
      cases h
      refine ⟨_, fun a b w hw => ?_, hitems⟩
      obtain ⟨c, hc, rfl⟩ := map_eq_ok.mp hw
      exact Value.isValid_one (hf a b c hc)
  cases op with
  | add => exact single (fun _ _ _ => hA.add) h
  | subtract => exact single (fun _ _ _ => hA.subtract) h
  | multiply => exact single (fun _ _ _ => hA.multiply) h
  | divide => exact single (fun _ _ _ => hA.divide) h
  | power => exact single (fun _ _ _ => hA.power) h
  | plusMinus =>
      obtain ⟨_, hitems, h⟩ := map_eq_ok.mp h
      cases h
      exact ⟨_, fun _ _ _ => isValid_of_plusMinus hA, hitems⟩
  | other symbol => cases h

/-- **An operator makes no numbers** of no numbers, and only of such. -/
theorem items_eq_nil_of_operate {op : Operator} {x y w : Value α}
    (h : Expr.operate A op x y = .ok w) : w.items = [] ↔ x.items = [] ∨ y.items = [] := by
  cases w with
  | many items =>
      obtain ⟨f, hf, hlift⟩ := exists_lift_of_operate hA h
      exact lift_eq_nil_iff hf hlift
  | one c =>
      -- a single number is made of single numbers only
      have hsingle := (not_congr (isList_of_operate h)).mp (by simp [Value.isList])
      cases x with
      | many _ => simp [Value.isList] at hsingle
      | one a =>
          cases y with
          | many _ => simp [Value.isList] at hsingle
          | one b => simp [Value.items]

/-! ### Formulas -/

/-- **The value of a leaf** is a list if the leaf stands for one, with as many items, else a single
number of the kind. -/
theorem atomValue_cases {x : Atom α} (hx : x.NumberIs ok) {v : Value α}
    (h : Expr.atomValue A scope x = .ok v) :
    (x.list? scope = none ∧ ∃ a, v = .one a ∧ ok a) ∨
      ∃ items items', x.list? scope = some items ∧ v = .many items' ∧
        items'.length = items.length := by
  cases evaluates_of_atomValue h with
  | number a => exact .inl ⟨rfl, a, hA.contents (hx a rfl), hx a rfl⟩
  | @scaled name c u w hu hw =>
      cases u with
      | one b =>
          obtain ⟨a, hmultiply, rfl⟩ := map_eq_ok.mp hw
          exact .inl ⟨by rw [Atom.list?, hu], a, rfl, hA.multiply hmultiply⟩
      | many items =>
          obtain ⟨items', hitems, rfl⟩ := map_eq_ok.mp hw
          exact .inr ⟨items, items', by rw [Atom.list?, hu], rfl,
            (mapM_eq_ok.mp hitems).length_eq.symm⟩
  | constant ha => exact .inl ⟨rfl, _, rfl, hA.constant ha⟩
  | list items => exact .inr ⟨items, items, rfl, rfl, rfl⟩

/-- **The value of a formula is a list** if the formula is plural, and only then. -/
theorem isList_iff_isPlural {e : Expr α} (he : e.HasLeaves (Atom.NumberIs ok)) {v : Value α}
    (h : e.value A scope = .ok v) : v.isList = true ↔ e.IsPlural scope := by
  induction e generalizing v with
  | atom x =>
      obtain ⟨hlist, a, rfl, -⟩ | ⟨items, items', hlist, rfl, -⟩ := atomValue_cases hA he h <;>
        simp [Value.isList, Expr.IsPlural, hlist]
  | node l op r ihl ihr =>
      obtain ⟨x, hx, h⟩ := bind_eq_ok.mp h
      obtain ⟨y, hy, h⟩ := bind_eq_ok.mp h
      rw [isList_of_operate h, ihl he.1 hx, ihr he.2 hy]
      rfl

/-- **The value of a formula is empty** if an empty list occurs in the formula, and only then. -/
theorem items_eq_nil_iff_hasEmptyList {e : Expr α} (he : e.HasLeaves (Atom.NumberIs ok))
    {v : Value α} (h : e.value A scope = .ok v) : v.items = [] ↔ e.HasEmptyList scope := by
  induction e generalizing v with
  | atom x =>
      obtain ⟨hlist, a, rfl, -⟩ | ⟨items, items', hlist, rfl, hlength⟩ := atomValue_cases hA he h
      · simp [Value.items, Expr.HasEmptyList, hlist]
      · simp only [Value.items, Expr.HasEmptyList, hlist, Option.some.injEq,
          ← List.length_eq_zero_iff, hlength]
  | node l op r ihl ihr =>
      obtain ⟨x, hx, h⟩ := bind_eq_ok.mp h
      obtain ⟨y, hy, h⟩ := bind_eq_ok.mp h
      rw [items_eq_nil_of_operate hA h, ihl he.1 hx, ihr he.2 hy]
      rfl

/-- A single value is a number of the kind, whatever stands in lists. -/
theorem ok_of_value_eq_one {e : Expr α} (he : e.HasLeaves (Atom.NumberIs ok)) {a : α}
    (h : e.value A scope = .ok (.one a)) : ok a := by
  cases e with
  | atom x =>
      obtain ⟨-, b, hb, hok⟩ | ⟨_, _, -, hmany, -⟩ := atomValue_cases hA he h
      · exact Value.one.inj hb ▸ hok
      · cases hmany
  | node l op r =>
      obtain ⟨x, -, h⟩ := bind_eq_ok.mp h
      obtain ⟨y, -, h⟩ := bind_eq_ok.mp h
      exact items_of_operate hA h a (List.mem_singleton.mpr rfl)

end Gives

/-! ### The calculator -/

/-- A **number of the calculator**, and not something that is only taken as one. -/
def Operand.IsNumber (x : Operand) : Prop :=
  ∃ z, x = .number z

/-- The results of the calculator are such. -/
theorem gives_isNumber : calculator.Gives Operand.IsNumber :=
  gives_of_number (fun z => ⟨z, rfl⟩) (by rintro _ ⟨z, rfl⟩; rfl)

/-- **How many values a formula has**: a list if a list or `±` occurs in it, whatever the operators
above, and else a single number of the calculator. The list that an operator makes has no two equal
numbers, and it is empty only if an empty list occurs below the operator. -/
theorem value_is_list_iff {e : Expr Operand} {scope : Scope Operand} {v : Value Operand}
    (he : e.HasLeaves (Atom.NumberIs Operand.IsNumber))
    (h : e.evaluate calculator scope = .ok v) :
    ((∃ items, v = .many items) ↔ e.IsPlural scope) ∧
    ((∃ z, v = .one (.number z)) ↔ ¬ e.IsPlural scope) ∧
    ∀ l op r items, e = .node l op r → v = .many items →
      (items.Pairwise fun a b =>
        Primitive.equals a b = .ok false ∧ Primitive.equals b a = .ok false) ∧
      (items = [] ↔ e.HasEmptyList scope) := by
  have hvalue := value_of_evaluate h
  have hplural := isList_iff_isPlural gives_isNumber he hvalue
  refine ⟨?_, ?_, ?_⟩
  · rw [← hplural]
    cases v <;> simp [Value.isList]
  · rw [← hplural]
    cases v with
    | many items => simp [Value.isList]
    | one a =>
        obtain ⟨z, rfl⟩ := ok_of_value_eq_one gives_isNumber he hvalue
        simp [Value.isList]
  · rintro l op r items rfl rfl
    refine ⟨?_, items_eq_nil_iff_hasEmptyList gives_isNumber he hvalue⟩
    obtain ⟨x, -, hvalue⟩ := bind_eq_ok.mp hvalue
    obtain ⟨y, -, hvalue⟩ := bind_eq_ok.mp hvalue
    obtain ⟨f, hf, hlift⟩ := exists_lift_of_operate gives_calculator hvalue
    obtain ⟨_, -, hkept⟩ := exists_results_of_lift (fun a _ b _ w hw => (hf a b w hw).items) hlift
    exact hkept.apart

/-- With `x` bound to `[1, -1]`, the value of `x ± 1` is the list of `2`, `0` and `-2`: the second
zero is a repeat. -/
theorem value_is_list_plusMinus :
    let x : Expr Operand := .scaled "x" calculator.one
    let scope : Scope Operand := [("x", some (.many [.whole 1, .whole (-1)]))]
    ∃ items, (Expr.node x .plusMinus (.number calculator.one)).evaluate calculator scope =
        .ok (.many items) ∧ items.length = 3 ∧
      items.Pairwise fun a b =>
        Primitive.equals a b = .ok false ∧ Primitive.equals b a = .ok false := by
  intro x scope
  obtain ⟨v, hv, hlength⟩ : ∃ v, (Expr.node x .plusMinus (.number calculator.one)).evaluate
      calculator scope = .ok v ∧ v.items.length = 3 := Yields.exists_ok (by decide +kernel)
  have hnumbers : (Expr.node x .plusMinus (.number calculator.one)).HasLeaves
      (Atom.NumberIs Operand.IsNumber) :=
    ⟨nofun, fun _ h => ⟨_, (Atom.number.inj h).symm⟩⟩
  obtain ⟨hlist, -, hnode⟩ := value_is_list_iff hnumbers hv
  obtain ⟨items, rfl⟩ := hlist.mpr (.inr (.inl rfl))
  exact ⟨items, hv, hlength, (hnode _ _ _ items rfl rfl).1⟩

end Argand
