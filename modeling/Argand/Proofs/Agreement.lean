import Argand.Proofs.Answer
import Argand.Proofs.ExactCalculator
import Argand.Proofs.Simplification.Lists

/-!
# Evaluating with and without simplification

A formula can be evaluated as it stands, and it is answered by the value of its simplified form.
Without division both have a value whenever every variable is bound, and without rounding every
number of the one is a number of the other. They are the same value if the formula keeps its
lists.

## Main definitions

* `Argand.Scope.values`: the values of the variables in a scope, read in a field.
* `Argand.Value.IsProper`: values that are no lists of one and have no repeats.

## Main results

* `Argand.distinct_value`: the value of a formula is its meaning, up to repeats.
* `Argand.answer_agrees_with_evaluate`: when an answer is the value of the formula as it stands.
-/

namespace Argand

variable {α K : Type}

/-! ### Which formulas have a value -/

/-- A leaf that **has a value** in a scope. -/
def Atom.HasValue (A : Arithmetic α) (scope : Scope α) : Atom α → Prop
  | .number _ | .list _ => True
  | .scaled x _ => (scope.value? x).isSome
  | .constant x => (A.constant? x).isSome
  | .stray _ => False

section Yields

variable {A : Arithmetic α} {P : Fault → Prop} {ok divisor : α → Prop}

/-- A formula without division is sound for any divisors. -/
theorem Expr.Sound.of_isRing {e : Expr α} {divisor' : α → Prop} (h : e.Sound ok divisor)
    (he : e.HasOperators Operator.IsRing) : e.Sound ok divisor' := by
  induction e with
  | atom x => exact h
  | node l op r ihl ihr =>
      refine ⟨ihl h.1 he.2.1, ihr h.2.1 he.2.2, ?_⟩
      rintro rfl
      exact he.1.elim

/-- An entered leaf has a value if its variable is bound. -/
theorem Atom.hasValue_of_isEntered {constant : String → Prop}
    (hconst : ∀ x, constant x → (A.constant? x).isSome) {scope : Scope α} {x : Atom α}
    (hx : (Expr.atom x).IsEntered A constant)
    (hbound : ∀ y ∈ (Expr.atom x).names, (scope.value? y).isSome) : x.HasValue A scope := by
  cases x with
  | number a => trivial
  | scaled x c => exact hbound x (List.mem_singleton.mpr rfl)
  | constant x => exact hconst x hx
  | list items => exact hx.elim
  | stray a => exact hx.elim

/-- A leaf with a value in the empty scope has it in every scope. -/
theorem Atom.HasValue.mono {x : Atom α} (scope : Scope α) (h : x.HasValue A []) :
    x.HasValue A scope := by
  cases x with
  | scaled x c => exact absurd h Bool.false_ne_true
  | _ => exact h

/-- The leaves of the simplified form of an entered formula have a value, whatever the scope, if its
variables are bound. -/
theorem over_hasValue {constant : String → Prop}
    (hconst : ∀ x, constant x → (A.constant? x).isSome) {scope : Scope α} {e e' : Expr α}
    (he : e.IsEntered A constant) (hring : e.HasOperators Operator.IsRing)
    (hbound : ∀ x ∈ e.names, (scope.value? x).isSome) (h : e.simplify A scope = .ok e') :
    e'.Over A (Atom.HasValue A []) fun _ => False := by
  have hk : LeafKind (Atom.HasValue A []) fun _ => False :=
    ⟨fun _ => trivial, fun _ h => h, fun h => Bool.false_ne_true h⟩
  refine over_simplify hk (fun x hx e' h => ?_) (fun _ hx => hx.elim)
    (he.over operatorKind_isRing hring) h
  cases x with
  | scaled x c =>
      obtain ⟨v, hv⟩ := Option.isSome_iff_exists.mp (hbound x (hx.2 x (List.mem_singleton.mpr rfl)))
      simp only [Simplify.atom, hv] at h
      obtain ⟨w, -, h⟩ := bind_eq_ok.mp h
      obtain rfl := pure_eq_ok.mp h
      rcases w with b | (- | ⟨b, - | ⟨c, rest⟩⟩) <;> exact .atom trivial
  | number a =>
      obtain rfl := Except.ok.inj h
      exact .atom trivial
  | constant x =>
      obtain rfl := Except.ok.inj h
      exact .atom (hconst x hx.1)
  | list items => exact hx.1.elim
  | stray a => exact hx.1.elim

variable (hA : A.Handles P ok divisor)

include hA

/-- **Simplification succeeds** without division. -/
theorem yields_simplify_of_isRing {scope : Scope α}
    (hs : ∀ x v, scope.value? x = some v → ∀ a ∈ v.items, ok a) {e : Expr α}
    (he : e.HasOperators Operator.IsRing) (hok : e.Sound ok divisor) :
    Yields P (Expr.Sound ok divisor) (e.simplify A scope) := by
  induction e with
  | atom x => exact yields_atom hA hs hok
  | node l op r ihl ihr =>
      have hfield := operatorKind_isRing.field he.1
      refine (ihl he.2.1 hok.1).bind fun l' hl => (ihr he.2.2 hok.2.1).bind fun r' hr =>
        yields_rule hA hfield.ne_power hl hr ?_
      rintro rfl
      exact he.1.elim

/-- **Evaluation succeeds** without division, if every leaf has a value. -/
theorem yields_value_of_isRing (hone : ∀ a, ok a → A.contents a = .one a)
    (hconst : ∀ x a, A.constant? x = some a → ok a) {scope : Scope α}
    (hs : ∀ x v, scope.value? x = some v → ∀ a ∈ v.items, ok a) {e : Expr α}
    {squared : String → Prop} (he : e.Over A (Atom.HasValue A scope) squared)
    (hring : e.HasOperators Operator.IsRing) (hok : e.Sound ok divisor) :
    Yields P (fun w => ∀ c ∈ w.items, ok c) (e.value A scope) := by
  induction he with
  | @atom x hx =>
      cases x with
      | number a =>
          show ∀ c ∈ (A.contents a).items, ok c
          rw [hone a hok]
          exact fun c hc => List.mem_singleton.mp hc ▸ hok
      | scaled x c =>
          obtain ⟨v, hv⟩ := Option.isSome_iff_exists.mp hx
          simp only [Expr.value, Expr.atomValue, hv]
          exact yields_valueMapM fun a ha => hA.multiply hok (hs x v hv a ha)
      | constant x =>
          obtain ⟨a, ha⟩ := Option.isSome_iff_exists.mp hx
          simp only [Expr.value, Expr.atomValue, ha]
          exact fun c hc => List.mem_singleton.mp hc ▸ hconst x a ha
      | list items => exact hok
      | stray a => exact hx.elim
  | node _ _ _ ihl ihr =>
      refine (ihl hring.2.1 hok.1).bind fun x hx => (ihr hring.2.2 hok.2.1).bind fun y hy =>
        yields_operate hA (operatorKind_isRing.field hring.1) hx hy ?_
      rintro rfl
      exact hring.1.elim
  | square _ => exact hring.1.elim

end Yields

/-! ### Values and meanings -/

/-- The **values of the variables** in a scope. -/
def Scope.values (val : α → K) (scope : Scope α) (x : String) : Value K :=
  ((scope.value? x).map fun v => v.map val).getD (.many [])

/-- A **proper** value is no list of one and has no repeats. -/
structure Value.IsProper (val : α → K) (v : Value α) : Prop where
  ne_singleton : ∀ a, v ≠ .many [a]
  nodup : (v.map val).items.Nodup

/-- A leaf that is no list **with repeats**. -/
def Atom.IsDistinct (val : α → K) : Atom α → Prop
  | .list items => (items.map val).Nodup
  | _ => True

section Meaning

variable [Field K] [DecidableEq K] {A : Arithmetic α} {val : α → K}

/-- The numbers that a formula means depend on the numbers of its variables. -/
theorem items_meaning_congr {ρ ρ' : String → Value K} (hρ : ∀ x, (ρ x).items = (ρ' x).items)
    (e : Expr α) : (e.meaning A val ρ).items = (e.meaning A val ρ').items := by
  induction e with
  | atom x =>
      cases x with
      | scaled x c => simp [Expr.meaning, hρ]
      | _ => rfl
  | node l op r ihl ihr => simp [Expr.meaning, ihl, ihr]

/-- A reading of a formula without division is one of the numbers that it means. -/
theorem mem_meaning_of_reads {ρ : String → List K} {ρ' : String → Value K}
    (hρ : ∀ x, ∀ b ∈ ρ x, b ∈ (ρ' x).items) {e : Expr α} (he : e.HasOperators Operator.IsRing)
    {u : K} (h : Reads A val ρ e u) : u ∈ (e.meaning A val ρ').items := by
  induction h with
  | number a => exact List.mem_singleton.mpr rfl
  | scaled hb =>
      rw [Expr.meaning, Value.items_map]
      exact List.mem_map.mpr ⟨_, hρ _ _ hb, rfl⟩
  | constant ha => simp [Expr.meaning, ha, Value.items]
  | list ha => exact List.mem_map.mpr ⟨_, ha, rfl⟩
  | @node l r op a b v _ _ hv ihl ihr =>
      obtain rfl : op.result a b = v := by simp [Operator.result, hv]
      rw [Expr.meaning, Value.items_product]
      exact List.mem_flatMap.mpr ⟨a, ihl he.2.1, List.mem_map.mpr ⟨b, ihr he.2.2, rfl⟩⟩

variable (hA : A.IsExact val) {ok divisor : α → Prop} (hone : ∀ a, ok a → A.contents a = .one a)

include hA

/-- The value of an operator is its results for all combinations without repeats. -/
theorem map_eq_of_operate {op : Operator} (hop : op.IsRing) {x y w : Value α}
    (h : Expr.operate A op x y = .ok w) :
    w.map val = (Value.product op.result (x.map val) (y.map val)).distinct := by
  rw [operate_eq_combineValues (operatorKind_isRing.field hop)] at h
  refine map_eq_of_combineValues hA (fun a b c hc => ?_) h
  simp [Operator.result, result?_of_onNumbers hA hc]

/-- The value of a node has no repeats. -/
theorem nodup_of_value_node {scope : Scope α} {l r : Expr α} {op : Operator} (hop : op.IsRing)
    {w : Value α} (h : (Expr.node l op r).value A scope = .ok w) : (w.map val).items.Nodup := by
  obtain ⟨x, -, h⟩ := bind_eq_ok.mp h
  obtain ⟨y, -, h⟩ := bind_eq_ok.mp h
  rw [map_eq_of_operate hA hop h, Value.items_distinct]
  exact nodup_eraseDups _

include hone

/-- **The value of a formula** without division is its meaning, up to repeats. -/
theorem distinct_value {scope : Scope α} {e : Expr α} (he : e.HasOperators Operator.IsRing)
    (hok : e.Sound ok divisor) {w : Value α} (h : e.value A scope = .ok w) :
    (w.map val).distinct = (e.meaning A val (scope.values val)).distinct := by
  induction e generalizing w with
  | atom x =>
      cases evaluates_of_atomValue h with
      | number a =>
          rw [hone a hok]
          rfl
      | scaled hv hw =>
          rw [map_eq_of_valueMapM (fun _ _ => hA.multiply) hw]
          simp [Expr.meaning, Scope.values, hv]
      | constant ha => simp [Expr.meaning, ha, Value.map]
      | list items => rfl
  | node l op r ihl ihr =>
      obtain ⟨x, hx, h⟩ := bind_eq_ok.mp h
      obtain ⟨y, hy, h⟩ := bind_eq_ok.mp h
      rw [map_eq_of_operate hA he.1 h, Value.distinct_distinct, ← Value.distinct_product,
        ihl he.2.1 hok.1 hx, ihr he.2.2 hok.2.1 hy, Value.distinct_product]
      rfl

/-! ### Repeats -/

omit [Field K] [DecidableEq K] hA hone in
/-- Proper values mean themselves. -/
theorem values_eq_meanings {scope : Scope α}
    (hs : ∀ x v, scope.value? x = some v → v.IsProper val) :
    scope.values val = scope.meanings val := by
  funext x
  unfold Scope.values Scope.meanings
  cases hx : scope.value? x with
  | none => rfl
  | some v =>
      refine (Value.unwrapped_eq_self fun a hv => ?_).symm
      rcases v with b | (- | ⟨b, - | ⟨c, rest⟩⟩)
      · cases hv
      · cases hv
      · exact (hs x _ hx).ne_singleton b rfl
      · cases hv

/-- The value of an entered formula has no repeats if the lists in scope have none. -/
theorem nodup_of_value {scope : Scope α} (hs : ∀ x v, scope.value? x = some v → v.IsProper val)
    {constant : String → Prop} {e : Expr α} (he : e.IsEntered A constant)
    (hring : e.HasOperators Operator.IsRing) (hok : e.Sound ok divisor) {w : Value α}
    (h : e.value A scope = .ok w) : (w.map val).items.Nodup := by
  cases e with
  | atom x =>
      cases evaluates_of_atomValue h with
      | number a =>
          rw [hone a hok]
          exact List.nodup_singleton _
      | scaled hv hw =>
          obtain rfl := he
          rw [map_eq_of_valueMapM (fun _ _ => hA.multiply) hw]
          simpa [hA.one] using (hs _ _ hv).nodup
      | constant ha => exact List.nodup_singleton _
      | list items => exact he.elim
  | node l op r => exact nodup_of_value_node hA hring.1 h

omit [DecidableEq K] hone in
/-- The lists in the simplified form of an entered formula have no repeats. -/
theorem over_isDistinct {scope : Scope α} (hs : ∀ x v, scope.value? x = some v → v.IsProper val)
    {constant : String → Prop} {e e' : Expr α} (he : e.IsEntered A constant)
    (hring : e.HasOperators Operator.IsRing) (h : e.simplify A scope = .ok e') :
    e'.Over A (Atom.IsDistinct val) fun _ => True := by
  have hk : LeafKind (Atom.IsDistinct val) fun _ => True :=
    ⟨fun _ => trivial, fun _ _ => trivial, fun _ => trivial⟩
  refine over_simplify hk (fun x hx e' h => ?_) (fun _ hx => hx.elim)
    (he.over operatorKind_isRing hring) h
  obtain ⟨rfl, -⟩ | ⟨y, c, v, w, rfl, hv, hw, rfl⟩ := atom_cases h
  · refine .atom ?_
    cases x with
    | list items => exact hx.1.elim
    | _ => trivial
  · obtain rfl := hx.1
    have hnodup : (w.map val).items.Nodup := by
      rw [map_eq_of_valueMapM (fun _ _ => hA.multiply) hw]
      simpa [hA.one] using (hs y v hv).nodup
    rcases w with b | (- | ⟨b, - | ⟨c, rest⟩⟩)
    · exact .atom trivial
    · exact .atom hnodup
    · exact .atom trivial
    · exact .atom hnodup

/-! ### Agreement -/

section

variable {scope : Scope α} {constant : String → Prop} {e e' : Expr α} {v w : Value α}
  (he : e.IsEntered A constant) (hring : e.HasOperators Operator.IsRing)
  (hbound : e.unbound scope = []) (hok : e.Sound ok divisor) (hok' : e'.Sound ok divisor)
  (h : e.simplify A scope = .ok e') (hv : e.value A scope = .ok v)
  (hw : e'.value A scope = .ok w)

include hring hbound hok hok' h hv hw

/-- Every number of the value is one **of the simplified form**. -/
theorem exists_mem_value_simplify (he : e.IsEntered A constant) (htwo : ok A.two) :
    ∀ a ∈ v.items, ∃ b ∈ w.items, val a = val b := by
  intro a ha
  have hover := (he.over operatorKind_isRing hring).mono
    (fun _ hx => Atom.isPlain_of_isEntered hx.1) fun _ => id
  have hρ : scope.Respects val (scope.readings val) := by
    refine ⟨fun hx => by simp [Scope.readings, hx], fun hx b hb => ?_⟩
    simp [Scope.readings, hx] at hb
  have hread := reads_simplify hA hρ (fun _ hx => hx.elim) hover h
    (reads_of_value hA hone htwo hover hok hv a ha)
  have hring' := (isTidy_simplify operatorKind_isRing hring (by simp [hbound]) h).1.hasOperators
  have hvalues : ∀ x, ∀ b ∈ scope.free (scope.readings val) x,
      b ∈ (scope.values val x).items := by
    intro x b hb
    replace hb := (Scope.mem_of_mem_free hb).2
    unfold Scope.readings at hb
    unfold Scope.values
    cases hx : scope.value? x with
    | none => simp [hx] at hb
    | some u => simpa [hx] using hb
  have hmem := mem_meaning_of_reads hvalues hring' hread
  rw [← List.mem_eraseDups, ← Value.items_distinct, ← distinct_value hA hone hring' hok' hw,
    Value.items_distinct, List.mem_eraseDups, Value.items_map] at hmem
  obtain ⟨b, hb, hba⟩ := List.mem_map.mp hmem
  exact ⟨b, hb, hba.symm⟩

/-- A formula that keeps its lists has the numbers of its simplified form **in the same order**, up
to repeats. -/
theorem eraseDups_value_simplify (hk : e.KeepsLists A val scope) :
    (v.items.map val).eraseDups = (w.items.map val).eraseDups := by
  obtain ⟨hsettled, hmeaning⟩ := meaning_simplify hA (ρ := scope.values val) hring hbound hk h
  have hitems : ∀ x, (scope.values val x).items = (scope.meanings val x).items := by
    intro x
    unfold Scope.values Scope.meanings
    cases scope.value? x <;> simp
  have hv := congrArg Value.items (distinct_value hA hone hring hok hv)
  have hw := congrArg Value.items (distinct_value hA hone hsettled.tidy.hasOperators hok' hw)
  rw [hmeaning] at hw
  simp only [Value.items_distinct, Value.items_map] at hv hw
  rw [hv, hw, items_meaning_congr hitems]

/-- It has **the same value** as its simplified form, if the lists in scope are proper. -/
theorem map_value_simplify (he : e.IsEntered A constant) (hk : e.KeepsLists A val scope)
    (hs : ∀ x v, scope.value? x = some v → v.IsProper val) : v.map val = w.map val := by
  obtain ⟨hsettled, hmeaning⟩ := meaning_simplify hA (ρ := scope.values val) hring hbound hk h
  have hring' := hsettled.tidy.hasOperators
  have hwnodup : (w.map val).items.Nodup := by
    have hdistinct := over_isDistinct hA hs he hring h
    cases e' with
    | atom x =>
        cases evaluates_of_atomValue hw with
        | number a =>
            rw [hone a hok']
            exact List.nodup_singleton _
        | scaled => cases hsettled.closed
        | constant ha => exact List.nodup_singleton _
        | list items => exact hdistinct.leaf_of
    | node l op r => exact nodup_of_value_node hA hring'.1 hw
  calc v.map val = (v.map val).distinct :=
        (Value.distinct_eq_self (nodup_of_value hA hone hs he hring hok hv)).symm
    _ = (e.meaning A val (scope.values val)).distinct := distinct_value hA hone hring hok hv
    _ = (e'.meaning A val (scope.values val)).distinct := by rw [hmeaning, values_eq_meanings hs]
    _ = (w.map val).distinct := (distinct_value hA hone hring' hok' hw).symm
    _ = w.map val := Value.distinct_eq_self hwnodup

end

end Meaning

/-! ### The calculator -/

/-- A formula keeps its lists with a refined arithmetic too. -/
theorem Expr.KeepsLists.of_refines [Field K] {A B : Arithmetic α} (hAB : A.Refines B) {val : α → K}
    {scope : Scope α} {e : Expr α} (h : e.KeepsLists B val scope) : e.KeepsLists A val scope := by
  induction e with
  | atom x => trivial
  | node l op r ihl ihr =>
      refine ⟨ihl h.1, ihr h.2.1, fun hop => yields_iff.mpr ⟨fun l' hl => ?_, fun _ _ => trivial⟩⟩
      refine yields_iff.mpr ⟨fun r' hr => ?_, fun _ _ => trivial⟩
      exact ((h.2.2 hop).of_ok (refines_simplify hAB scope l l' hl)).of_ok
        (refines_simplify hAB scope r r' hr)

section

variable {limit : Except Fault DepthLimit} {source : String} {e : Expr Operand}
  {scope : Scope Operand} (hsides : sides source = [source])
  (hread : (Formula.read calculator limit source).outcome = .ok e)
  (hring : e.HasOperators Operator.IsRing)
  (hbound : ∀ x ∈ e.names, (scope.value? x).isSome)
  (hscope : ∀ x v, scope.value? x = some v → ∀ a ∈ v.items, a.IsNumeric)

include hsides hread hring hbound hscope

/-- Evaluation and answering **both succeed** without division. -/
theorem exists_value_and_answer :
    ∃ v w, (Formula.evaluate calculator limit source scope).outcome = .ok v ∧
      (answer calculator limit source scope).outcome = .ok (.value w) := by
  have hentered := isEntered_of_read hread
  have hA := handles_calculator_nonzero
  have hone : ∀ a : Operand, a.IsNumeric → calculator.contents a = .one a :=
    fun a ha => ha.contents
  have hconst : ∀ x a, calculator.constant? x = some a → a.IsNumeric :=
    fun _ _ => isNumeric_constant
  have hsound : e.Sound Operand.IsNumeric Operand.IsNonzero :=
    (sound_of_isEntered (.number _) (.number _) (fun _ => .number _) hentered).of_isRing hring
  have hover : e.Over calculator (Atom.HasValue calculator scope) fun _ => False :=
    (hentered.over operatorKind_isRing hring).mono (fun x hx => Atom.hasValue_of_isEntered
      (fun _ => isSome_constant) hx.1 fun y hy => hbound y (hx.2 y hy)) fun _ => id
  obtain ⟨v, hv, -⟩ := (yields_value_of_isRing hA hone hconst hscope hover hring
    hsound).exists_ok
  obtain ⟨e', h, hsound'⟩ := (yields_simplify_of_isRing hA hscope hring hsound).exists_ok
  have hover' := over_hasValue (fun _ => isSome_constant) hentered hring hbound h
  have hunbound := Expr.unbound_eq_nil.mpr hbound
  have hring' := (isTidy_simplify operatorKind_isRing hring (by simp [hunbound]) h).1.hasOperators
  obtain ⟨w, hw, -⟩ := (yields_value_of_isRing hA hone hconst hscope
    (hover'.mono (fun _ => Atom.HasValue.mono scope) fun _ => id) hring' hsound').exists_ok
  refine ⟨v, w, by rw [outcome_evaluate hread, hv], ?_⟩
  have hne : ∀ a, e' ≠ .atom (.stray a) := by
    rintro a rfl
    exact hover'.leaf_of
  rw [outcome_answer_formula hsides, outcome_simplified hread, h]
  show (e'.evaluate calculator scope).map Answer.value = _
  rw [evaluate_eq_value hne, hw]
  rfl

/-- Without rounding the answer **has the numbers** of the value, and they are the same for a formula
that keeps its lists. -/
theorem numbers_eq_of_exact {v w : Value Operand}
    (hv : (Formula.evaluate exactCalculator limit source scope).outcome = .ok v)
    (hw : (answer exactCalculator limit source scope).outcome = .ok (.value w)) :
    (∀ a ∈ v.items, ∃ b ∈ w.items, a.exact = b.exact) ∧
    (e.KeepsLists calculator Operand.exact scope →
      (v.items.map Operand.exact).eraseDups = (w.items.map Operand.exact).eraseDups ∧
      ((∀ x v, scope.value? x = some v → v.IsProper Operand.exact) →
        v.map Operand.exact = w.map Operand.exact)) := by
  have hA := isExactSolver_exactCalculator
  have hone : ∀ a, exactCalculator.IsNumber a → exactCalculator.contents a = .one a :=
    fun _ ha => ha
  have hnumbers : ∀ x v, scope.value? x = some v → ∀ a ∈ v.items, exactCalculator.IsNumber a :=
    fun x v hv a ha => (hscope x v hv a ha).contents
  rw [← read_eq refines_exactCalculator] at hread
  have hentered := isEntered_of_read hread
  have hok : e.Sound exactCalculator.IsNumber fun _ => True :=
    sound_of_isEntered (isNumber_number _) (isNumber_number _) (fun _ => isNumber_number _)
      hentered
  have hunbound := Expr.unbound_eq_nil.mpr hbound
  rw [outcome_evaluate hread] at hv
  rw [outcome_answer_formula hsides, outcome_simplified hread, map_eq_ok] at hw
  obtain ⟨w', hw, hw'⟩ := hw
  obtain ⟨e', h, hw⟩ := bind_eq_ok.mp hw
  obtain rfl : w' = w := by injection hw'
  have hw := value_of_evaluate hw
  have hok' := (yields_simplify_of_isRing hA.handles hnumbers hring hok).of_ok h
  refine ⟨exists_mem_value_simplify hA.exact hone hring hunbound hok hok' h hv hw hentered rfl,
    fun hk => ?_⟩
  have hk := hk.of_refines refines_exactCalculator
  exact ⟨eraseDups_value_simplify hA.exact hone hring hunbound hok hok' h hv hw hk,
    map_value_simplify hA.exact hone hring hunbound hok hok' h hv hw hentered hk⟩

/-- **An answer agrees with evaluation.** Without division both succeed if all variables are bound
to numbers or lists of numbers. If neither rounds, every number of the value is one of the answer;
and for a formula that keeps its lists the two have the same numbers in the same order, and are
the same if no list in scope has just one item or repeats. -/
theorem answer_agrees_with_evaluate :
    (∃ v w, (Formula.evaluate calculator limit source scope).outcome = .ok v ∧
      (answer calculator limit source scope).outcome = .ok (.value w)) ∧
    ∀ v w, (Formula.evaluate exactCalculator limit source scope).outcome = .ok v →
      (answer exactCalculator limit source scope).outcome = .ok (.value w) →
      (∀ a ∈ v.items, ∃ b ∈ w.items, a.exact = b.exact) ∧
      (e.KeepsLists calculator Operand.exact scope →
        (v.items.map Operand.exact).eraseDups = (w.items.map Operand.exact).eraseDups ∧
        ((∀ x v, scope.value? x = some v → v.IsProper Operand.exact) →
          v.map Operand.exact = w.map Operand.exact)) :=
  ⟨exists_value_and_answer hsides hread hring hbound hscope,
    fun _ _ => numbers_eq_of_exact hsides hread hring hbound hscope⟩

end

/-- The unknown `x` is one or two, and `y` is three. -/
def oneOrTwo : Scope Operand :=
  [("x", some (.many [.whole 1, .whole 2])), ("y", some (.one (.whole 3)))]

/-- The values in this scope. -/
theorem value?_oneOrTwo {x : String} {v : Value Operand} (h : oneOrTwo.value? x = some v) :
    v = .many [.whole 1, .whole 2] ∨ v = .one (.whole 3) := by
  obtain ⟨-, rfl⟩ | ⟨-, rfl⟩ : x = "x" ∧ v = .many [.whole 1, .whole 2] ∨
      x = "y" ∧ v = .one (.whole 3) := by
    simpa [oneOrTwo] using Scope.mem_of_value? h
  · exact .inl rfl
  · exact .inr rfl

/-- The two values of `2(x+y)-i` are its answer. -/
theorem answer_agrees_with_evaluate_double :
    ∃ v w, (Formula.evaluate exactCalculator (.ok (.ofInt 120)) "2(x+y)-i" oneOrTwo).outcome =
        .ok v ∧
      (answer exactCalculator (.ok (.ofInt 120)) "2(x+y)-i" oneOrTwo).outcome = .ok (.value w) ∧
      v.items.length = 2 ∧ v.map Operand.exact = w.map Operand.exact := by
  obtain ⟨e, hread, hring, hbound, hk⟩ := (show Yields (fun _ => False)
    (fun e => e.HasOperators Operator.IsRing ∧ (∀ x ∈ e.names, (oneOrTwo.value? x).isSome) ∧
      e.KeepsLists calculator Operand.exact oneOrTwo)
    (Formula.read calculator (.ok (.ofInt 120)) "2(x+y)-i").outcome by decide +kernel).exists_ok
  obtain ⟨v, hv, hlength⟩ := (show Yields (fun _ => False) (fun v => v.items.length = 2)
    (Formula.evaluate exactCalculator (.ok (.ofInt 120)) "2(x+y)-i" oneOrTwo).outcome
    by decide +kernel).exists_ok
  obtain ⟨w, hw, -⟩ := exists_value_of_passes (fun _ => true) (show Yields _ _
    (answer exactCalculator (.ok (.ofInt 120)) "2(x+y)-i" oneOrTwo).outcome by decide +kernel)
  have hscope : ∀ x v, oneOrTwo.value? x = some v → ∀ a ∈ v.items, a.IsNumeric := by
    intro x v hv a ha
    obtain rfl | rfl := value?_oneOrTwo hv
    · simp only [Value.items, List.mem_cons, List.not_mem_nil, or_false] at ha
      obtain rfl | rfl := ha <;> exact ⟨_, rfl⟩
    · obtain rfl := List.mem_singleton.mp ha
      exact ⟨_, rfl⟩
  have hproper : ∀ x v, oneOrTwo.value? x = some v → v.IsProper Operand.exact := by
    intro x v hv
    obtain rfl | rfl := value?_oneOrTwo hv
    · exact ⟨fun a h => (by cases h), by decide +kernel⟩
    · exact ⟨fun a h => (by cases h), List.nodup_singleton _⟩
  exact ⟨v, w, hv, hw, hlength, (((answer_agrees_with_evaluate (by decide +kernel) hread hring
    hbound hscope).2 v w hv hw).2 hk).2 hproper⟩

/-- In `x(1+i)` simplification copies the two values of `x`, so that the answer has four numbers;
in `0x` it loses them, so that the answer is no list. -/
theorem answer_differs_from_evaluate :
    (∃ v w, (Formula.evaluate calculator (.ok (.ofInt 120)) "x(1+i)" oneOrTwo).outcome = .ok v ∧
      (answer calculator (.ok (.ofInt 120)) "x(1+i)" oneOrTwo).outcome = .ok (.value w) ∧
      v.items.length = 2 ∧ w.items.length = 4) ∧
    ∃ v w, (Formula.evaluate calculator (.ok (.ofInt 120)) "0x" oneOrTwo).outcome = .ok v ∧
      (answer calculator (.ok (.ofInt 120)) "0x" oneOrTwo).outcome = .ok (.value w) ∧
      v.isList ∧ ¬ w.isList := by
  constructor
  · obtain ⟨v, hv, hlength⟩ := (show Yields (fun _ => False) (fun v => v.items.length = 2)
      (Formula.evaluate calculator (.ok (.ofInt 120)) "x(1+i)" oneOrTwo).outcome
      by decide +kernel).exists_ok
    obtain ⟨w, hw, hlength'⟩ := exists_value_of_passes (fun w => decide (w.items.length = 4))
      (show Yields _ _ (answer calculator (.ok (.ofInt 120)) "x(1+i)" oneOrTwo).outcome
        by decide +kernel)
    exact ⟨v, w, hv, hw, hlength, of_decide_eq_true hlength'⟩
  · obtain ⟨v, hv, hlist⟩ := (show Yields (fun _ => False) (fun v => v.isList = true)
      (Formula.evaluate calculator (.ok (.ofInt 120)) "0x" oneOrTwo).outcome
      by decide +kernel).exists_ok
    obtain ⟨w, hw, hnone⟩ := exists_value_of_passes (fun w => !w.isList)
      (show Yields _ _ (answer calculator (.ok (.ofInt 120)) "0x" oneOrTwo).outcome
        by decide +kernel)
    exact ⟨v, w, hv, hw, hlist, by simpa using hnone⟩

end Argand
