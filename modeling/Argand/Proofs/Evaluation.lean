import Argand.Expr.Evaluation
import Argand.Proofs.Reading
import Argand.Proofs.Simplification.Leaves
import Argand.Proofs.Simplification.Progress

/-!
# Values and readings

With exact arithmetic every number in the value of a formula is one of its readings.

## Main definitions

* `Argand.IsCombination`: the results of an operation on two values.
* `Argand.Scope.IsSingle`: scopes in which every variable has one value at most.
* `Argand.Scope.readings`: the readings of the variables in a scope.

## Main results

* `Argand.isCombination_of_lift`: where the numbers of a lifted operation come from.
* `Argand.reads_of_value`: the numbers of a value are readings.
-/

namespace Argand

open Simplify

variable {α K : Type}

/-! ### Leaves -/

/-- A leaf **evaluates** to a value: what a number stands for, the multiple of the value of a
variable, a constant or a list. -/
inductive Atom.Evaluates (A : Arithmetic α) (scope : Scope α) : Atom α → Value α → Prop
  | number (a : α) : Evaluates A scope (.number a) (A.contents a)
  | scaled {x : String} {c : α} {v w : Value α} : scope.value? x = some v →
      v.mapM (A.multiply c) = .ok w → Evaluates A scope (.scaled x c) w
  | constant {x : String} {a : α} : A.constant? x = some a → Evaluates A scope (.constant x) (.one a)
  | list (items : List α) : Evaluates A scope (.list items) (.many items)

/-- A leaf has **no values but these**. -/
theorem evaluates_of_atomValue {A : Arithmetic α} {scope : Scope α} {x : Atom α} {v : Value α}
    (h : Expr.atomValue A scope x = .ok v) : x.Evaluates A scope v := by
  cases x with
  | number a =>
      obtain rfl := Except.ok.inj h
      exact .number a
  | scaled y c =>
      simp only [Expr.atomValue] at h
      split at h
      · exact .scaled ‹_› h
      · cases h
  | constant y =>
      simp only [Expr.atomValue] at h
      split at h
      · obtain rfl := Except.ok.inj h
        exact .constant ‹_›
      · cases h
  | list items =>
      obtain rfl := Except.ok.inj h
      exact .list items
  | stray a => cases h

/-! ### Combinations -/

/-- A number kept was kept before or is the new one. -/
theorem mem_keepDistinct {equals : α → α → Except Fault Bool} {kept kept' : List α} {item : α}
    (h : keepDistinct equals kept item = .ok kept') {c : α} (hc : c ∈ kept') :
    c ∈ kept ∨ c = item := by
  rw [keepDistinct] at h
  obtain ⟨-, rfl⟩ | ⟨-, h⟩ := test_eq_ok.mp h
  · exact .inl hc
  · obtain rfl := pure_eq_ok.mp h
    simpa using hc

/-- A number that an operation gives for **some combination** of the numbers of two values. -/
def IsCombination (f : α → α → Except Fault (Value α)) (x y : Value α) (c : α) : Prop :=
  ∃ a ∈ x.items, ∃ b ∈ y.items, ∃ w, f a b = .ok w ∧ c ∈ w.items

/-- A number of a **lifted operation** comes from some combination. -/
theorem isCombination_of_lift {equals : α → α → Except Fault Bool}
    {f : α → α → Except Fault (Value α)} {x y : Value α} {items : List α}
    (h : lift equals f x y = .ok items) : ∀ c ∈ items, IsCombination f x y c := by
  refine foldlM_eq_ok_induction (Q := fun kept => ∀ c ∈ kept, IsCombination f x y c) h
    (fun _ hc => absurd hc List.not_mem_nil) fun a ha kept kept' hkept hstep => ?_
  refine foldlM_eq_ok_induction (Q := fun kept => ∀ c ∈ kept, IsCombination f x y c) hstep
    hkept fun b hb kept kept' hkept hstep => ?_
  obtain ⟨w, hw, hstep⟩ := bind_eq_ok.mp hstep
  refine foldlM_eq_ok_induction (Q := fun kept => ∀ c ∈ kept, IsCombination f x y c) hstep
    hkept fun c hc kept kept' hkept hstep d hd => ?_
  obtain hd | rfl := mem_keepDistinct hstep hd
  · exact hkept d hd
  · exact ⟨a, ha, b, hb, w, hw, hc⟩

/-- A number of a combined value is a result of the operation for some combination. -/
theorem mem_combineValues {equals : α → α → Except Fault Bool} {f : α → α → Except Fault α}
    {x y w : Value α} (h : combineValues equals f x y = .ok w) {c : α} (hc : c ∈ w.items) :
    ∃ a ∈ x.items, ∃ b ∈ y.items, f a b = .ok c := by
  unfold combineValues at h
  split at h
  · obtain ⟨d, hd, rfl⟩ := map_eq_ok.mp h
    obtain rfl := List.mem_singleton.mp hc
    exact ⟨_, List.mem_singleton.mpr rfl, _, List.mem_singleton.mpr rfl, hd⟩
  · obtain ⟨items, hitems, rfl⟩ := map_eq_ok.mp h
    obtain ⟨a, ha, b, hb, v, hv, hcv⟩ := isCombination_of_lift hitems c hc
    obtain ⟨d, hd, rfl⟩ := map_eq_ok.mp hv
    obtain rfl := List.mem_singleton.mp hcv
    exact ⟨a, ha, b, hb, hd⟩

/-- The numbers of a mapped value are the images of its numbers. -/
theorem mem_valueMapM {f : α → Except Fault α} {v w : Value α} (h : v.mapM f = .ok w) {c : α}
    (hc : c ∈ w.items) : ∃ a ∈ v.items, f a = .ok c := by
  cases v with
  | one a =>
      obtain ⟨d, hd, rfl⟩ := map_eq_ok.mp h
      obtain rfl := List.mem_singleton.mp hc
      exact ⟨a, List.mem_singleton.mpr rfl, hd⟩
  | many as =>
      obtain ⟨ds, hds, rfl⟩ := map_eq_ok.mp h
      exact exists_of_mem_mapM hds hc

/-! ### Operators on numbers -/

/-- An **operator on two numbers**, if it is one of a field. -/
def Operator.onNumbers (A : Arithmetic α) : Operator → α → α → Except Fault α
  | .add => A.add
  | .subtract => A.subtract
  | .multiply => A.multiply
  | .divide => A.divide
  | op => fun _ _ => .error (.unknownOperator op.symbol)

/-- An operator of a field is carried out on all combinations. -/
theorem operate_eq_combineValues {A : Arithmetic α} {op : Operator} (hop : op.IsField)
    (x y : Value α) :
    Expr.operate A op x y = combineValues A.equals (op.onNumbers A) x y := by
  cases op with
  | power => exact hop.elim
  | plusMinus => exact hop.elim
  | other => exact hop.elim
  | _ => rfl

/-! ### Evaluation does not get stuck -/

section Yields

variable {A : Arithmetic α} {P : Fault → Prop} {ok divisor : α → Prop}

/-- Looking for an equal number succeeds. -/
theorem yields_keepDistinct (hA : A.Handles P ok divisor) {kept : List α}
    (hkept : ∀ c ∈ kept, ok c) {item : α} (hitem : ok item) :
    Yields P (fun kept => ∀ c ∈ kept, ok c) (keepDistinct A.equals kept item) := by
  have hany : Yields P (fun _ => True) (kept.anyM (A.equals · item)) := by
    induction kept with
    | nil => trivial
    | cons a kept ih =>
        refine (hA.equals (hkept a List.mem_cons_self) hitem).bind fun t _ => ?_
        cases t with
        | true => trivial
        | false => exact ih fun c hc => hkept c (List.mem_cons_of_mem _ hc)
  refine hany.test hkept ?_
  intro c hc
  obtain hc | rfl : c ∈ kept ∨ c = item := by simpa using hc
  · exact hkept c hc
  · exact hitem

/-- **An operation on all combinations** succeeds if it does on each of them. -/
theorem yields_lift (hA : A.Handles P ok divisor) {f : α → α → Except Fault (Value α)}
    {x y : Value α} (hf : ∀ a ∈ x.items, ∀ b ∈ y.items,
      Yields P (fun w => ∀ c ∈ w.items, ok c) (f a b)) :
    Yields P (fun kept => ∀ c ∈ kept, ok c) (lift A.equals f x y) := by
  refine Yields.foldlM (fun c hc => absurd hc List.not_mem_nil) fun a ha kept hkept => ?_
  refine Yields.foldlM hkept fun b hb kept hkept => ?_
  refine (hf a ha b hb).bind fun w hw => ?_
  exact Yields.foldlM hkept fun c hc kept hkept => yields_keepDistinct hA hkept (hw c hc)

/-- An operation with single results on all combinations succeeds if it does on each of them. -/
theorem yields_combineValues (hA : A.Handles P ok divisor)
    {f : α → α → Except Fault α} {x y : Value α}
    (hf : ∀ a ∈ x.items, ∀ b ∈ y.items, Yields P ok (f a b)) :
    Yields P (fun w => ∀ c ∈ w.items, ok c) (combineValues A.equals f x y) := by
  have hone {a b : α} (h : Yields P ok (f a b)) :
      Yields P (fun w : Value α => ∀ c ∈ w.items, ok c) ((f a b).map .one) :=
    h.map fun c hc d hd => List.mem_singleton.mp hd ▸ hc
  unfold combineValues
  split
  · exact hone (hf _ (List.mem_singleton.mpr rfl) _ (List.mem_singleton.mpr rfl))
  · exact (yields_lift hA fun a ha b hb => hone (hf a ha b hb)).map fun items hitems => hitems

/-- An operator of a field succeeds on two numbers that the arithmetic handles. -/
theorem yields_onNumbers (hA : A.Handles P ok divisor) {op : Operator} (hop : op.IsField) {a b : α}
    (ha : ok a) (hb : ok b) (hd : op = .divide → divisor b) :
    Yields P ok (op.onNumbers A a b) := by
  cases op with
  | add => exact hA.add ha hb
  | subtract => exact hA.subtract ha hb
  | multiply => exact hA.multiply ha hb
  | divide => exact hA.divide ha hb (hd rfl)
  | power => exact hop.elim
  | plusMinus => exact hop.elim
  | other => exact hop.elim

/-- An operator of a field succeeds on values whose numbers the arithmetic handles. -/
theorem yields_operate (hA : A.Handles P ok divisor) {op : Operator} (hop : op.IsField)
    {x y : Value α} (hx : ∀ a ∈ x.items, ok a) (hy : ∀ b ∈ y.items, ok b)
    (hd : op = .divide → ∀ b ∈ y.items, divisor b) :
    Yields P (fun w => ∀ c ∈ w.items, ok c) (Expr.operate A op x y) := by
  rw [operate_eq_combineValues hop]
  exact yields_combineValues hA fun a ha b hb =>
    yields_onNumbers hA hop (hx a ha) (hy b hb) fun h => hd h b hb

/-- The value of a leaf has `ok` numbers. -/
theorem ok_of_atomValue (hA : A.Handles P ok divisor) (hone : ∀ a, ok a → A.contents a = .one a)
    (hconst : ∀ x a, A.constant? x = some a → ok a) {scope : Scope α} {x : Atom α}
    (hs : ∀ y c, x = .scaled y c → ∀ v, scope.value? y = some v → ∀ a ∈ v.items, ok a)
    (hx : x.All ok) {w : Value α} (h : Expr.atomValue A scope x = .ok w) : ∀ c ∈ w.items, ok c := by
  cases evaluates_of_atomValue h with
  | number a =>
      rw [hone a hx]
      exact fun c hc => List.mem_singleton.mp hc ▸ hx
  | scaled hv hw =>
      exact (yields_valueMapM fun a ha => hA.multiply hx (hs _ _ rfl _ hv a ha)).of_ok hw
  | constant ha => exact fun c hc => List.mem_singleton.mp hc ▸ hconst _ _ ha
  | list items => exact hx

/-- The value of a sound formula without squares has `ok` numbers. -/
theorem ok_of_value (hA : A.Handles P ok fun _ => True)
    (hone : ∀ a, ok a → A.contents a = .one a) (hconst : ∀ x a, A.constant? x = some a → ok a)
    {scope : Scope α} {leaf : Atom α → Prop}
    (hs : ∀ x c, leaf (.scaled x c) → ∀ v, scope.value? x = some v → ∀ a ∈ v.items, ok a)
    {e : Expr α} (he : e.Over A leaf fun _ => False)
    (hok : e.Sound ok divisor) {w : Value α} (h : e.value A scope = .ok w) :
    ∀ c ∈ w.items, ok c := by
  induction he generalizing w with
  | atom hx => exact ok_of_atomValue hA hone hconst (fun y c hy => hs y c (hy ▸ hx)) hok h
  | node hop _ _ ihl ihr =>
      obtain ⟨x, hx, h⟩ := bind_eq_ok.mp h
      obtain ⟨y, hy, h⟩ := bind_eq_ok.mp h
      exact (yields_operate hA hop (ihl hok.1 hx) (ihr hok.2.1 hy) fun _ _ _ => trivial).of_ok h
  | square hx => exact hx.elim

end Yields

/-! ### Single values -/

/-- A scope is **single** if every variable in it has one value. -/
def Scope.IsSingle (scope : Scope α) : Prop :=
  ∀ x v, scope.value? x = some v → ∃ a, v = .one a

/-- What is found under a key stands in one of the entries. -/
theorem Entries.mem_of_get? {β : Type} {entries : Entries β} {x : String} {b : β}
    (h : Entries.get? entries x = some b) : (x, b) ∈ entries := by
  obtain ⟨⟨y, c⟩, hfind, rfl⟩ := Option.map_eq_some_iff.mp h
  obtain rfl : y = x := by simpa using List.find?_some hfind
  exact List.mem_of_find?_eq_some hfind

/-- A value in a scope stands in one of its entries. -/
theorem Scope.mem_of_value? {scope : Scope α} {x : String} {v : Value α}
    (h : scope.value? x = some v) : (x, some v) ∈ scope :=
  Entries.mem_of_get? (Option.join_eq_some_iff.mp h)

section Single

variable {A : Arithmetic α} {ok divisor : α → Prop}

/-- An operator of a field on single numbers gives a single number. -/
theorem exists_one_of_operate {op : Operator} (hop : op.IsField) {a b : α} {w : Value α}
    (h : Expr.operate A op (.one a) (.one b) = .ok w) : ∃ c, w = .one c := by
  rw [operate_eq_combineValues hop] at h
  obtain ⟨c, -, rfl⟩ := map_eq_ok.mp h
  exact ⟨c, rfl⟩

/-- In a single scope a rational formula has a single value. -/
theorem exists_one_of_value (hone : ∀ a, ok a → A.contents a = .one a) {scope : Scope α}
    (hs : scope.IsSingle) {e : Expr α} (he : e.IsRational) (hok : e.Sound ok divisor)
    {w : Value α} (h : e.value A scope = .ok w) : ∃ a, w = .one a := by
  induction e generalizing w with
  | atom x =>
      cases evaluates_of_atomValue h with
      | number a => exact ⟨a, hone a hok⟩
      | scaled hv hw =>
          obtain ⟨a, rfl⟩ := hs _ _ hv
          obtain ⟨d, -, rfl⟩ := map_eq_ok.mp hw
          exact ⟨d, rfl⟩
      | constant ha => exact ⟨_, rfl⟩
      | list items => exact he.elim
  | node l op r ihl ihr =>
      obtain ⟨x, hx, h⟩ := bind_eq_ok.mp h
      obtain ⟨y, hy, h⟩ := bind_eq_ok.mp h
      obtain ⟨a, rfl⟩ := ihl he.2.1 hok.1 hx
      obtain ⟨b, rfl⟩ := ihr he.2.2 hok.2.1 hy
      exact exists_one_of_operate he.1 h

end Single

/-! ### Values are readings -/

/-- The **readings of the variables** in a scope. -/
def Scope.readings (val : α → K) (scope : Scope α) (x : String) : List K :=
  ((scope.value? x).map (·.items.map val)).getD []

variable [Field K] [DecidableEq K] {A : Arithmetic α} {val : α → K} (hA : A.IsExact val)

include hA

/-- An operator of a field is exact on two numbers. -/
theorem result?_of_onNumbers {op : Operator} {a b c : α} (h : op.onNumbers A a b = .ok c) :
    op.result? (val a) (val b) = some (val c) := by
  cases op with
  | add => simp [Operator.result?, hA.add h]
  | subtract => simp [Operator.result?, hA.subtract h]
  | multiply => simp [Operator.result?, hA.multiply h]
  | divide => exact Operator.result?_divide.mpr ⟨hA.divisor_ne_zero h, (hA.divide h).symm⟩
  | power => cases h
  | plusMinus => cases h
  | other => cases h

/-- An operator of a field is exact on every combination. -/
theorem result?_of_operate {op : Operator} (hop : op.IsField) {x y w : Value α}
    (h : Expr.operate A op x y = .ok w) {c : α} (hc : c ∈ w.items) :
    ∃ a ∈ x.items, ∃ b ∈ y.items, op.result? (val a) (val b) = some (val c) := by
  rw [operate_eq_combineValues hop] at h
  obtain ⟨a, ha, b, hb, hab⟩ := mem_combineValues h hc
  exact ⟨a, ha, b, hb, result?_of_onNumbers hA hab⟩

variable {ok divisor : α → Prop} (hone : ∀ a, ok a → A.contents a = .one a)

include hone

/-- **The numbers of a value are readings** of the formula, if each of its numbers stands for
itself. -/
theorem reads_of_value (htwo : ok A.two) {scope : Scope α} {leaf : Atom α → Prop}
    {squared : String → Prop} {e : Expr α} (he : e.Over A leaf squared) (hok : e.Sound ok divisor)
    {w : Value α} (h : e.value A scope = .ok w) :
    ∀ c ∈ w.items, Reads A val (scope.readings val) e (val c) := by
  have variable_ {x : String} {k : α} {w : Value α} (h : (Expr.scaled x k).value A scope = .ok w) :
      ∀ c ∈ w.items, Reads A val (scope.readings val) (.scaled x k) (val c) := by
    intro c hc
    cases evaluates_of_atomValue h with
    | scaled hv hw =>
        obtain ⟨a, ha, hac⟩ := mem_valueMapM hw hc
        rw [hA.multiply hac]
        exact .scaled (by simpa [Scope.readings, hv] using ⟨a, ha, rfl⟩)
  induction he generalizing w with
  | @atom x _ =>
      intro c hc
      cases evaluates_of_atomValue h with
      | number a =>
          rw [hone a hok] at hc
          obtain rfl := List.mem_singleton.mp hc
          exact .number _
      | scaled => exact variable_ h c hc
      | constant ha =>
          obtain rfl := List.mem_singleton.mp hc
          exact .constant ha
      | list items => exact .list hc
  | node hop _ _ ihl ihr =>
      intro c hc
      obtain ⟨x, hx, h⟩ := bind_eq_ok.mp h
      obtain ⟨y, hy, h⟩ := bind_eq_ok.mp h
      obtain ⟨a, ha, b, hb, hab⟩ := result?_of_operate hA hop h hc
      exact .node (ihl hok.1 hx a ha) (ihr hok.2.1 hy b hb) hab
  | square _ =>
      intro c hc
      obtain ⟨x, hx, h⟩ := bind_eq_ok.mp h
      obtain ⟨y, hy, h⟩ := bind_eq_ok.mp h
      have hy : A.contents A.two = y := Except.ok.inj hy
      rw [hone _ htwo] at hy
      subst hy
      obtain ⟨a, ha, b, hb, hab⟩ := mem_combineValues h hc
      obtain rfl := List.mem_singleton.mp hb
      refine .node (variable_ hx a ha) (.number _) ?_
      rw [hA.square hab]
      simp [Operator.result?, hA.two]

end Argand
