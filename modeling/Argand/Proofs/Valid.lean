import Argand.Proofs.Answer
import Argand.Proofs.Calculator
import Argand.Proofs.Equation.Isolation
import Argand.Proofs.Evaluation
import Argand.Proofs.Resolution

/-!
# Valid values

A value may be an empty list, and an item of it may be no number. Neither comes about by
calculating: what is read holds numbers only, every operation gives numbers, and a list of roots
has one at least. So the answers to texts are valid values as long as the scope binds its names
to such.

## Main definitions

* `Argand.Value.IsValid`: a value of one number or more.
* `Argand.Scope.IsValid`: a scope that binds its names to such values.
* `Argand.Arithmetic.Gives`: an arithmetic whose results are numbers of a kind.

## Main results

* `Argand.isValid_of_value`: the value of a formula with valid leaves is valid.
* `Argand.isValid_simplify`: simplification keeps leaves valid.
* `Argand.Isolates.isValid`: a solution is valid.
* `Argand.isValid_of_answer`: an answer is.
-/

namespace Argand

open Simplify

variable {α : Type}

/-! ### Values -/

/-- A value of **one number or more**, all of a kind. -/
structure Value.IsValid (ok : α → Prop) (v : Value α) : Prop where
  ne_nil : v.items ≠ []
  items : ∀ a ∈ v.items, ok a

/-- A scope that **binds its names** to such values. -/
def Scope.IsValid (ok : α → Prop) (scope : Scope α) : Prop :=
  ∀ entry ∈ scope, ∃ v, entry.2 = some v ∧ v.IsValid ok

/-- An arithmetic whose **results are numbers** of a kind. -/
structure Arithmetic.Gives (A : Arithmetic α) (ok : α → Prop) : Prop where
  zero : ok A.zero
  one : ok A.one
  two : ok A.two
  literal : ∀ text, ok (A.literal text)
  constant : ∀ {x a}, A.constant? x = some a → ok a
  contents : ∀ {a}, ok a → A.contents a = .one a
  add : ∀ {a b c}, A.add a b = .ok c → ok c
  subtract : ∀ {a b c}, A.subtract a b = .ok c → ok c
  multiply : ∀ {a b c}, A.multiply a b = .ok c → ok c
  divide : ∀ {a b c}, A.divide a b = .ok c → ok c
  power : ∀ {a b c}, A.power a b = .ok c → ok c
  log : ∀ {a c}, A.log a = .ok c → ok c
  roots : ∀ {a n rs}, A.roots a n = .ok rs → rs ≠ [] ∧ ∀ c ∈ rs, ok c

variable {A : Arithmetic α} {ok : α → Prop}

/-- A single number is a valid value. -/
theorem Value.isValid_one {a : α} (h : ok a) : (Value.one a).IsValid ok :=
  ⟨List.cons_ne_nil _ _, fun _ hb => List.mem_singleton.mp hb ▸ h⟩

/-- The value of a name in a valid scope. -/
theorem Scope.IsValid.value? {scope : Scope α} (h : scope.IsValid ok) {name : String}
    {v : Value α} (hv : scope.value? name = some v) : v.IsValid ok := by
  obtain ⟨w, hw, hvalid⟩ := h _ (Scope.mem_of_value? hv)
  obtain rfl : v = w := Option.some.inj hw
  exact hvalid

/-- A set value is the new one or an old one. -/
theorem Entries.mem_insert {β : Type} {entries : Entries β} {key : String} {value : β}
    {entry : String × β} (h : entry ∈ Entries.insert entries key value) :
    entry.2 = value ∨ entry ∈ entries := by
  induction entries with
  | nil =>
      obtain rfl := List.mem_singleton.mp h
      exact .inl rfl
  | cons e rest ih =>
      obtain ⟨k, v⟩ := e
      rw [Entries.insert] at h
      split at h
      · obtain rfl | h := List.mem_cons.mp h
        · exact .inl rfl
        · exact .inr (List.mem_cons_of_mem _ h)
      · obtain rfl | h := List.mem_cons.mp h
        · exact .inr List.mem_cons_self
        · exact (ih h).imp_right (List.mem_cons_of_mem _)

/-- A valid solution may be bound. -/
theorem Scope.IsValid.bind {scope : Scope α} (h : scope.IsValid ok) {s : Solution α}
    (hs : s.value.IsValid ok) : (scope.bind s).IsValid ok := by
  intro entry hentry
  obtain hvalue | hentry := Entries.mem_insert hentry
  · exact ⟨s.value, hvalue, hs⟩
  · exact h entry hentry

/-! ### Combinations -/

/-- A number is kept, or an equal one was. -/
theorem keepDistinct_ne_nil {equals : α → α → Except Fault Bool} {kept kept' : List α} {item : α}
    (h : keepDistinct equals kept item = .ok kept') : kept' ≠ [] := by
  rw [keepDistinct] at h
  obtain ⟨ht, rfl⟩ | ⟨-, h⟩ := test_eq_ok.mp h
  · rintro rfl
    cases ht
  · obtain rfl := pure_eq_ok.mp h
    simp

/-- A loop over a list ends in what its steps give, if there is a step. -/
theorem foldlM_ne_nil {β : Type} {f : List α → β → Except Fault (List α)} {xs : List β}
    (hne : xs ≠ []) (hf : ∀ x ∈ xs, ∀ kept kept', f kept x = .ok kept' → kept' ≠ [])
    {kept kept' : List α} (h : xs.foldlM f kept = .ok kept') : kept' ≠ [] := by
  cases xs with
  | nil => exact absurd rfl hne
  | cons x xs =>
      rw [List.foldlM_cons, bind_eq_ok] at h
      obtain ⟨kept₁, h₁, h⟩ := h
      exact foldlM_eq_ok_induction (Q := (· ≠ [])) h (hf x List.mem_cons_self kept kept₁ h₁)
        fun y hy kept kept' _ hstep => hf y (List.mem_cons_of_mem _ hy) kept kept' hstep

/-- **A lifted operation on valid values** gives a valid one, if the operation does. -/
theorem isValid_of_lift {equals : α → α → Except Fault Bool} {f : α → α → Except Fault (Value α)}
    {x y : Value α} {items : List α} (hx : x.items ≠ []) (hy : y.items ≠ [])
    (hf : ∀ a b w, f a b = .ok w → w.IsValid ok) (h : lift equals f x y = .ok items) :
    (Value.many items).IsValid ok := by
  refine ⟨?_, fun c hc => ?_⟩
  · refine foldlM_ne_nil hx (fun a _ kept kept' hstep => ?_) h
    refine foldlM_ne_nil hy (fun b _ kept kept' hstep => ?_) hstep
    obtain ⟨w, hw, hstep⟩ := bind_eq_ok.mp hstep
    exact foldlM_ne_nil (hf a b w hw).ne_nil (fun c _ _ _ => keepDistinct_ne_nil) hstep
  · obtain ⟨a, -, b, -, w, hw, hc⟩ := isCombination_of_lift h c hc
    exact (hf a b w hw).items c hc

/-- **A combination of valid values** is valid, if the results of the operation are numbers. -/
theorem isValid_of_combineValues {equals : α → α → Except Fault Bool} {f : α → α → Except Fault α}
    {x y w : Value α} (hx : x.items ≠ []) (hy : y.items ≠ []) (hf : ∀ a b c, f a b = .ok c → ok c)
    (h : combineValues equals f x y = .ok w) : w.IsValid ok := by
  unfold combineValues at h
  split at h
  · obtain ⟨c, hc, rfl⟩ := map_eq_ok.mp h
    exact Value.isValid_one (hf _ _ c hc)
  · obtain ⟨items, hitems, rfl⟩ := map_eq_ok.mp h
    refine isValid_of_lift hx hy (fun a b w hw => ?_) hitems
    obtain ⟨c, hc, rfl⟩ := map_eq_ok.mp hw
    exact Value.isValid_one (hf a b c hc)

/-- A mapped value has as many items. -/
theorem isValid_of_valueMapM {f : α → Except Fault α} {v w : Value α} (hv : v.items ≠ [])
    (hf : ∀ a c, f a = .ok c → ok c) (h : v.mapM f = .ok w) : w.IsValid ok := by
  refine ⟨?_, fun c hc => ?_⟩
  · cases v with
    | one a =>
        obtain ⟨b, -, rfl⟩ := map_eq_ok.mp h
        exact List.cons_ne_nil _ _
    | many as =>
        obtain ⟨bs, hbs, rfl⟩ := map_eq_ok.mp h
        rintro rfl
        exact hv (List.forall₂_nil_right_iff.mp (mapM_eq_ok.mp hbs))
  · obtain ⟨a, -, hac⟩ := mem_valueMapM h hc
    exact hf a c hac

/-! ### Formulas -/

/-- A leaf that is **no empty list** and holds numbers of the kind. -/
def Atom.IsValid (ok : α → Prop) : Atom α → Prop
  | .number a => ok a
  | .list items => (Value.many items).IsValid ok
  | .scaled .. | .constant _ | .stray _ => True

/-- A formula whose leaves are **valid**. -/
abbrev Expr.IsValid (ok : α → Prop) (e : Expr α) : Prop :=
  e.HasLeaves (Atom.IsValid ok)

/-- A valid value as a formula. -/
theorem Expr.isValid_ofItems {items : List α} (h : (Value.many items).IsValid ok) :
    (Expr.ofItems items).IsValid ok := by
  unfold Expr.ofItems
  split
  · exact h.items _ (List.mem_singleton.mpr rfl)
  · exact h

/-- A valid value as a formula. -/
theorem Expr.isValid_ofValue {v : Value α} (h : v.IsValid ok) :
    (Expr.ofValue v).IsValid ok := by
  cases v with
  | one a => exact h.items a (List.mem_singleton.mpr rfl)
  | many items => exact Expr.isValid_ofItems h

variable (hA : A.Gives ok)

include hA

/-- The sum and the difference are a valid value. -/
theorem isValid_of_plusMinus {a b : α} {w : Value α} (h : Expr.plusMinus A a b = .ok w) :
    w.IsValid ok := by
  obtain ⟨c, hc, h⟩ := bind_eq_ok.mp h
  obtain ⟨d, hd, h⟩ := bind_eq_ok.mp h
  obtain rfl := pure_eq_ok.mp h
  exact ⟨List.cons_ne_nil _ _, by simp [Value.items, hA.add hc, hA.subtract hd]⟩

/-- **The value of a formula** with valid leaves is valid. -/
theorem isValid_of_value {scope : Scope α} (hs : scope.IsValid ok) {e : Expr α}
    (he : e.IsValid ok) {v : Value α} (h : e.value A scope = .ok v) : v.IsValid ok := by
  induction e generalizing v with
  | atom x =>
      cases evaluates_of_atomValue h with
      | number a =>
          rw [hA.contents he]
          exact Value.isValid_one he
      | scaled hv hw => exact isValid_of_valueMapM (hs.value? hv).ne_nil (fun _ _ => hA.multiply) hw
      | constant ha => exact Value.isValid_one (hA.constant ha)
      | list items => exact he
  | node l op r ihl ihr =>
      obtain ⟨x, hx, h⟩ := bind_eq_ok.mp h
      obtain ⟨y, hy, h⟩ := bind_eq_ok.mp h
      have hxne := (ihl he.1 hx).ne_nil
      have hyne := (ihr he.2 hy).ne_nil
      cases op with
      | add => exact isValid_of_combineValues hxne hyne (fun _ _ _ => hA.add) h
      | subtract => exact isValid_of_combineValues hxne hyne (fun _ _ _ => hA.subtract) h
      | multiply => exact isValid_of_combineValues hxne hyne (fun _ _ _ => hA.multiply) h
      | divide => exact isValid_of_combineValues hxne hyne (fun _ _ _ => hA.divide) h
      | power => exact isValid_of_combineValues hxne hyne (fun _ _ _ => hA.power) h
      | plusMinus =>
          obtain ⟨items, hitems, rfl⟩ := map_eq_ok.mp h
          exact isValid_of_lift hxne hyne (fun _ _ _ => isValid_of_plusMinus hA) hitems
      | other symbol => cases h

/-! ### Simplification -/

section Leaves

variable {leaf : Atom α → Prop} (hnumber : ∀ a, ok a → leaf (.number a))
  (hscaled : ∀ x c, leaf (.scaled x c))

include hnumber

/-- A number in front of a formula. -/
theorem hasLeaves_of_scaledBy {c : α} {e e' : Expr α} (h : scaledBy A c e = .ok e') (hc : ok c)
    (he : e.HasLeaves leaf) : e'.HasLeaves leaf := by
  obtain ⟨-, rfl⟩ | ⟨-, rfl⟩ | ⟨-, -, rfl⟩ := scaledBy_cases h
  · exact hnumber _ hA.zero
  · exact he
  · exact ⟨hnumber c hc, he⟩

include hscaled

/-- **An identity keeps the kind of leaves**, if numbers and scaled variables are of it. -/
theorem Rewrites.hasLeaves {op : Operator} {l r e : Expr α} (h : Rewrites A op l r e)
    (hl : l.HasLeaves leaf) (hr : r.HasLeaves leaf) : e.HasLeaves leaf := by
  induction h with
  | kept _ => exact ⟨hl, hr⟩
  | @addNumbers op s a b c _ h =>
      cases s with
      | plus => exact hnumber c (hA.add h)
      | minus => exact hnumber c (hA.subtract h)
  | zeroAdd _ => exact hr
  | addZero _ _ => exact hl
  | foldOuterFirst _ _ _ ht _ ih => exact ih (hnumber _ (hA.add ht)) hr.2
  | foldOuterSecond _ _ _ ht _ ih => exact ih (hnumber _ (hA.add ht)) hr.1
  | foldInnerFirst _ _ _ ht _ ih => exact ih (hnumber _ (hA.add ht)) hl.2
  | foldInnerSecond _ _ _ _ ht _ ih => exact ih (hnumber _ (hA.add ht)) hl.1
  | divideNumbers h => exact hnumber _ (hA.divide h)
  | divideOne _ => exact hl
  | divideSame h => exact hnumber _ (hA.divide h)
  | divideScaled _ h he =>
      exact hasLeaves_of_scaledBy hA hnumber he (hA.divide h) ⟨hscaled _ _, hscaled _ _⟩
  | divideScaledNumber _ => exact hscaled _ _
  | divideSum _ _ _ _ iha ihb ihe => exact ihe (iha hl.1 hr) (ihb hl.2 hr)
  | multiplyNumbers h => exact hnumber _ (hA.multiply h)
  | oneMultiply _ => exact hr
  | multiplyOne _ => exact hl
  | zeroMultiply _ _ => exact hnumber _ hA.zero
  | multiplyZero _ _ => exact hnumber _ hA.zero
  | multiplySame h he =>
      exact hasLeaves_of_scaledBy hA hnumber he (hA.multiply h) ⟨hscaled _ _, hnumber _ hA.two⟩
  | multiplyScaled _ h he =>
      exact hasLeaves_of_scaledBy hA hnumber he (hA.multiply h) ⟨hscaled _ _, hscaled _ _⟩
  | multiplyScaledNumber _ _ => exact hscaled _ _
  | multiplyNumberScaled _ _ => exact hscaled _ _
  | multiplySum _ _ _ _ iha ihb ihe => exact ihe (iha hl hr.1) (ihb hl hr.2)
  | sumMultiply _ _ _ _ iha ihb ihe => exact ihe (iha hl.1 hr) (ihb hl.2 hr)
  | multiplyNumber _ ih => exact ih hr hl
  | absorbFirst _ _ _ ihy ihe => exact ihe (ihy hl hr.1) hr.2
  | absorbSecond _ _ _ ihy ihe => exact ihe hr.1 (ihy hl hr.2)
  | absorbDividend _ _ _ ihy ihe => exact ihe (ihy hl hr.1) hr.2
  | powerZero _ => exact hnumber _ hA.one
  | powerOne _ => exact hl
  | powerNumbers h => exact hnumber _ (hA.power h)
  | powerProduct _ _ _ iha ihb ihe => exact ihe (iha hl.1 hr) (ihb hl.2 hr)
  | powerQuotient _ _ _ iha ihb ihe => exact ihe (iha hl.1 hr) (ihb hl.2 hr)
  | powerPower _ _ ihp ihe => exact ihe hl.1 (ihp hl.2 hr)

/-- **Simplification keeps the kind of leaves**, if the values it puts in are of it. -/
theorem hasLeaves_simplify {scope : Scope α}
    (hvalue : ∀ {x c v w}, scope.value? x = some v → v.mapM (A.multiply c) = .ok w →
      (Expr.ofValue w).HasLeaves leaf)
    {e e' : Expr α} (he : e.HasLeaves leaf) (h : e.simplify A scope = .ok e') :
    e'.HasLeaves leaf := by
  induction e generalizing e' with
  | atom x =>
      obtain ⟨rfl, -⟩ | ⟨y, c, v, w, -, hv, hw, rfl⟩ := atom_cases h
      · exact he
      · exact hvalue hv hw
  | node l op r ihl ihr =>
      obtain ⟨l', r', hl, hr, hrw⟩ := rewrites_of_simplify h
      exact hrw.hasLeaves hA hnumber hscaled (ihl he.1 hl) (ihr he.2 hr)

end Leaves

/-- **Simplification keeps leaves valid.** -/
theorem isValid_simplify {scope : Scope α} (hs : scope.IsValid ok) {e e' : Expr α}
    (he : e.IsValid ok) (h : e.simplify A scope = .ok e') : e'.IsValid ok := by
  refine hasLeaves_simplify hA (fun _ => id) (fun _ _ => trivial) (fun hv hw => ?_) he h
  have hne := (hs.value? hv).ne_nil
  exact Expr.isValid_ofValue (isValid_of_valueMapM hne (fun _ _ => hA.multiply) hw)

/-! ### Solutions -/

/-- What can be evaluated has a valid value. -/
theorem isValid_of_evaluate {scope : Scope α} (hs : scope.IsValid ok) {e : Expr α}
    (he : e.IsValid ok) {v : Value α} (h : e.evaluate A scope = .ok v) : v.IsValid ok :=
  isValid_of_value hA hs he (value_of_evaluate h)

/-- The roots of a formula are valid. -/
theorem isValid_of_roots {e e' : Expr α} {n : α} (he : e.IsValid ok) (hn : ok n)
    (h : e.roots A n = .ok e') : e'.IsValid ok := by
  obtain ⟨v, hv, h⟩ := bind_eq_ok.mp h
  obtain ⟨items, hitems, h⟩ := bind_eq_ok.mp h
  obtain rfl := pure_eq_ok.mp h
  have hempty : Scope.IsValid ok ([] : Scope α) := nofun
  have hv := isValid_of_value hA hempty he hv
  have hindex : (Value.one n).items ≠ [] := List.cons_ne_nil _ _
  rw [hA.contents hn] at hitems
  refine Expr.isValid_ofItems (isValid_of_lift hv.ne_nil hindex (fun a n w hw => ?_) hitems)
  obtain ⟨rs, hrs, rfl⟩ := map_eq_ok.mp hw
  exact ⟨(hA.roots hrs).1, (hA.roots hrs).2⟩

/-- The logarithms of a formula are valid. -/
theorem isValid_of_logarithm {scope : Scope α} (hs : scope.IsValid ok) {e e' : Expr α}
    (he : e.IsValid ok) (h : e.logarithm A scope = .ok e') : e'.IsValid ok := by
  obtain ⟨v, hv, h⟩ := bind_eq_ok.mp h
  have hvalid := isValid_of_evaluate hA hs he hv
  cases v with
  | one a =>
      obtain ⟨c, hc, h⟩ := bind_eq_ok.mp h
      obtain rfl := pure_eq_ok.mp h
      exact hA.log hc
  | many items =>
      obtain ⟨logs, hlogs, h⟩ := bind_eq_ok.mp h
      obtain rfl := pure_eq_ok.mp h
      have hmany : (Value.many items).mapM A.log = .ok (.many logs) :=
        map_eq_ok.mpr ⟨logs, hlogs, rfl⟩
      exact isValid_of_valueMapM hvalid.ne_nil (fun _ _ => hA.log) hmany

/-- **Undoing an operator** keeps leaves valid. -/
theorem isValid_undo {scope : Scope α} (hs : scope.IsValid ok) {inFirst : Bool}
    {a b right l r : Expr α} {op : Operator} (ha : a.IsValid ok) (hb : b.IsValid ok)
    (hr : right.IsValid ok) (h : Equation.undo A scope inFirst a op b right = .ok (l, r)) :
    l.IsValid ok ∧ r.IsValid ok := by
  unfold Equation.undo at h
  split at h
  · split at h
    · obtain ⟨e, he, h⟩ := bind_eq_ok.mp h
      cases h
      exact ⟨ha, isValid_of_roots hA hr hb he⟩
    · cases h
      exact ⟨ha, hr, hA.one, hb⟩
  · obtain ⟨x, hx, h⟩ := bind_eq_ok.mp h
    obtain ⟨y, hy, h⟩ := bind_eq_ok.mp h
    cases h
    exact ⟨hb, isValid_of_logarithm hA hs hr hx, isValid_of_logarithm hA hs ha hy⟩
  · cases h
    exact ⟨ha, hr, hb⟩
  · cases h
    exact ⟨hb, hr, ha⟩
  · cases h
    exact ⟨ha, hr, hb⟩
  · cases h
    exact ⟨⟨hr, hb⟩, ha⟩
  · cases h
    exact ⟨ha, hr, hb⟩
  · cases h
    exact ⟨hb, hr, ha⟩
  · cases h
    exact ⟨ha, hr, hb⟩
  · cases h
    exact ⟨hb, ha, hr⟩
  · cases h
    exact ⟨ha, hr, hb⟩
  · cases h
    exact ⟨hb, hA.zero, hr, ha⟩
  · cases h

/-- **A solution is valid**, if the sides of the equation are. -/
theorem Isolates.isValid {scope : Scope α} (hs : scope.IsValid ok) {left right : Expr α}
    {s : Solution α} (h : Isolates A scope left right s) (hl : left.IsValid ok)
    (hr : right.IsValid ok) : s.value.IsValid ok := by
  induction h with
  | alone _ hw hv hu =>
      have hvalue := Expr.isValid_ofValue (isValid_of_evaluate hA hs hr hw)
      exact isValid_of_valueMapM (isValid_of_evaluate hA hs hvalue hv).ne_nil
        (fun _ _ => hA.divide) hu
  | undone _ _ _ hw hundo hl' hr' _ ih =>
      have hvalue := Expr.isValid_ofValue (isValid_of_evaluate hA hs hr hw)
      obtain ⟨hleft, hright⟩ := isValid_undo hA hs hl.1 hl.2 hvalue hundo
      exact ih (isValid_simplify hA hs hleft hl') (isValid_simplify hA hs hright hr')

/-! ### Answers -/

/-- What is read has valid leaves. -/
theorem isValid_of_read {limit : Except Fault DepthLimit} {source : String} {e : Expr α}
    (h : (Formula.read A limit source).outcome = .ok e) : e.IsValid ok :=
  hasLeaves_of_read hA.zero hA.literal (fun _ _ => trivial) (fun _ _ _ _ => trivial) h

/-- A simplified text has valid leaves. -/
theorem isValid_of_simplified {limit : Except Fault DepthLimit} {scope : Scope α}
    (hs : scope.IsValid ok) {source : String} {e : Expr α}
    (h : (Formula.simplified A limit scope source).outcome = .ok e) : e.IsValid ok := by
  obtain ⟨e₀, hread, hsimplify⟩ := exists_of_simplified h
  exact isValid_simplify hA hs (isValid_of_read hA hread) hsimplify

/-- The value of an **answer**. -/
def Answer.result : Answer α → Value α
  | .value v => v
  | .solution s => s.value

/-- **An answer is valid.** -/
theorem isValid_of_answer {limit : Except Fault DepthLimit} {source : String} {scope : Scope α}
    (hs : scope.IsValid ok) {a : Answer α}
    (h : (answer A limit source scope).outcome = .ok a) : a.result.IsValid ok := by
  obtain ⟨v, formula, rfl, hsides⟩ | ⟨s, left, right, rfl, hsides⟩ := sides_of_answer h
  · rw [outcome_answer_formula hsides, map_eq_ok] at h
    obtain ⟨w, h, hw⟩ := h
    obtain rfl : w = v := by injection hw
    obtain ⟨e, he, hv⟩ := bind_eq_ok.mp h
    exact isValid_of_evaluate hA hs (isValid_of_simplified hA hs he) hv
  · obtain ⟨L, R, L', R', ⟨hL, hLs⟩, ⟨hR, hRs⟩, hanswer⟩ :=
      exists_of_answer_eq_solution hsides h
    have hL' := isValid_simplify hA hs (isValid_of_read hA hL) hLs
    have hR' := isValid_simplify hA hs (isValid_of_read hA hR) hRs
    obtain ⟨l, r, hl, hr, hsteps⟩ := exists_isolates hanswer
    have hl := isValid_simplify hA hs hL' hl
    have hr := isValid_simplify hA hs hR' hr
    exact hsteps.elim (fun h => h.isValid hA hs hl hr) fun h => h.isValid hA hs hr hl

end Argand
