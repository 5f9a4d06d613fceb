import Argand.Proofs.Equation.Solution

/-!
# What resolving does to a scope

Resolving a text changes the scope at one name at most, and only if the text is an equation that
has a solution. The name is that of the unknown: simplification has replaced every variable that
has a value, so it had none, and as nothing brings in variables, it is a letter of the text.

## Main results

* `Argand.Isolates.mem_names`: the unknown is a variable of the side it was isolated from.
* `Argand.unknown_of_answer`: the unknown is an unbound letter of the text.
* `Argand.resolve_binds_unknown`: resolving binds the unknown, and nothing else.
-/

namespace Argand

variable {α : Type} {A : Arithmetic α}

/-! ### The unknown -/

/-- Roots are no variables. -/
theorem names_roots {w : Value α} {n : α} {r : Expr α}
    (h : (Expr.ofValue w).roots A n = .ok r) : r.names = [] := by
  obtain ⟨_, -, h⟩ := bind_eq_ok.mp h
  obtain ⟨items, -, h⟩ := bind_eq_ok.mp h
  obtain rfl := pure_eq_ok.mp h
  exact names_ofValue (.many items)

/-- Logarithms are no variables. -/
theorem names_logarithm {scope : Scope α} {e r : Expr α} (h : e.logarithm A scope = .ok r) :
    r.names = [] := by
  obtain ⟨v, -, h⟩ := bind_eq_ok.mp h
  cases v with
  | one a =>
      obtain ⟨_, -, h⟩ := bind_eq_ok.mp h
      obtain rfl := pure_eq_ok.mp h
      rfl
  | many items =>
      obtain ⟨_, -, h⟩ := bind_eq_ok.mp h
      obtain rfl := pure_eq_ok.mp h
      rfl

/-- Undoing an operator brings in no variables, on either side. -/
theorem names_undo {scope : Scope α} {inFirst : Bool} {a b l r : Expr α} {op : Operator}
    {w : Value α} (h : Equation.undo A scope inFirst a op b (Expr.ofValue w) = .ok (l, r)) :
    l.names ++ r.names ⊆ a.names ++ b.names := by
  unfold Equation.undo at h
  split at h
  · split at h
    · obtain ⟨roots, hroots, h⟩ := bind_eq_ok.mp h
      cases h
      simp [names_roots hroots]
    · cases h
      simp [Expr.names, Equation.reciprocal]
  · obtain ⟨x, hx, h⟩ := bind_eq_ok.mp h
    obtain ⟨y, hy, h⟩ := bind_eq_ok.mp h
    cases h
    simp [Expr.names, names_logarithm hx, names_logarithm hy]
  all_goals cases h
  -- what moves over stands beside a value, which has no variables
  all_goals simp [Expr.names]

/-- **The unknown is a variable** of the side it was isolated from. -/
theorem Isolates.mem_names {scope : Scope α} {left right : Expr α} {s : Solution α}
    (h : Isolates A scope left right s) : s.name ∈ left.names := by
  induction h with
  | alone => exact List.mem_singleton.mpr rfl
  | undone _ _ _ _ hundo hl _ _ ih =>
      exact names_undo hundo (List.mem_append_left _ (unbound_of_simplify hl _ ih).1)

/-! ### Texts -/

/-- A part of some characters has no others. -/
theorem subset_of_mem_splitOn {a : Char} {cs part : List Char} (h : part ∈ cs.splitOn a) :
    part ⊆ cs := by
  induction cs generalizing part with
  | nil =>
      obtain rfl : part = [] := by simpa using h
      exact List.Subset.refl _
  | cons c cs ih =>
      rw [List.splitOn_cons_eq_if_modifyHead] at h
      split at h
      · obtain rfl | h := List.mem_cons.mp h
        · exact List.nil_subset _
        · exact List.Subset.trans (ih h) (List.subset_cons_self _ _)
      · cases hparts : cs.splitOn a with
        | nil => exact absurd hparts (List.splitOn_ne_nil a cs)
        | cons first rest =>
            rw [hparts, List.modifyHead_cons] at h
            obtain rfl | h := List.mem_cons.mp h
            · exact List.cons_subset_cons c (ih (hparts ▸ List.mem_cons_self))
            · exact List.Subset.trans (ih (hparts ▸ List.mem_cons_of_mem _ h))
                (List.subset_cons_self _ _)

/-- The sides of a text have no other characters than it. -/
theorem mem_of_mem_sides {source side : String} (h : side ∈ sides source) {c : Char}
    (hc : c ∈ side.toList) : c ∈ source.toList := by
  obtain ⟨part, hpart, rfl⟩ := List.mem_map.mp h
  rw [String.toList_ofList] at hc
  exact subset_of_mem_splitOn hpart hc

/-- A text without equality sign is its only side. -/
theorem sides_of_not_mem {source : String} (h : '=' ∉ source.toList) :
    sides source = [source] := by
  rw [sides, List.splitOn_eq_singleton h, List.map_singleton, String.ofList_toList]

/-- A text with an equality sign has two sides or more. -/
theorem two_le_length_sides {source : String} (h : '=' ∈ source.toList) :
    2 ≤ (sides source).length := by
  obtain ⟨before, after, hsource⟩ := List.append_of_mem h
  have hbefore := List.length_pos_of_ne_nil (List.splitOn_ne_nil '=' before)
  have hafter := List.length_pos_of_ne_nil (List.splitOn_ne_nil '=' after)
  rw [sides, hsource, List.splitOn_append_cons_self, List.length_map, List.length_append]
  omega

variable {limit : Except Fault DepthLimit} {source : String} {scope : Scope α}

/-- A text with one side has a value, one with two sides a solution, and no other has an answer. -/
theorem sides_of_answer {a : Answer α} (h : (answer A limit source scope).outcome = .ok a) :
    (∃ v formula, a = .value v ∧ sides source = [formula]) ∨
      ∃ s left right, a = .solution s ∧ sides source = [left, right] := by
  unfold answer at h
  split at h
  · simp only [Traced.outcome_bind] at h
    obtain ⟨l, -, h⟩ := bind_eq_ok.mp h
    obtain ⟨r, -, h⟩ := bind_eq_ok.mp h
    obtain ⟨s, -, h⟩ := bind_eq_ok.mp h
    cases h
    exact .inr ⟨s, _, _, rfl, ‹_›⟩
  · simp only [Traced.outcome_bind] at h
    obtain ⟨e, -, h⟩ := bind_eq_ok.mp h
    obtain ⟨v, -, h⟩ := bind_eq_ok.mp h
    cases h
    exact .inl ⟨v, _, rfl, ‹_›⟩
  · cases h

/-- A solution is one of two sides. -/
theorem sides_of_solution {s : Solution α}
    (h : (answer A limit source scope).outcome = .ok (.solution s)) :
    ∃ left right, sides source = [left, right] := by
  obtain ⟨v, formula, ha, -⟩ | ⟨s', left, right, -, hsides⟩ := sides_of_answer h
  · cases ha
  · exact ⟨left, right, hsides⟩

/-- **The unknown is an unbound letter** of the text, in either case. -/
theorem unknown_of_answer {s : Solution α}
    (h : (answer A limit source scope).outcome = .ok (.solution s)) :
    scope.value? s.name = none ∧ s.name ∈ Grammar.variableNames ∧
      ∃ c ∈ source.toList, c.toLower.toString = s.name := by
  obtain ⟨left, right, hsides⟩ := sides_of_solution h
  obtain ⟨L, R, L', R', ⟨hL, hLs⟩, ⟨hR, hRs⟩, h⟩ := exists_of_answer_eq_solution hsides h
  obtain ⟨L'', R'', hLs', hRs', hsteps⟩ := exists_isolates h
  -- a variable of a side after two simplifications was one when it was read
  have letter {side : String} {e e' e'' : Expr α} (hside : side ∈ sides source)
      (hread : (Formula.read A limit side).outcome = .ok e) (he : e.simplify A scope = .ok e')
      (he' : e'.simplify A scope = .ok e'') (hname : s.name ∈ e''.names) :
      scope.value? s.name = none ∧ s.name ∈ Grammar.variableNames ∧
        ∃ c ∈ source.toList, c.toLower.toString = s.name := by
    obtain ⟨hname, hunbound⟩ := unbound_of_simplify he' _ hname
    obtain ⟨hmem, c, hc, hlower⟩ := letter_of_read hread _ (unbound_of_simplify he _ hname).1
    exact ⟨hunbound, hmem, c, mem_of_mem_sides hside hc, hlower⟩
  obtain hsteps | hsteps := hsteps
  · exact letter (by simp [hsides]) hL hLs hLs' hsteps.mem_names
  · exact letter (by simp [hsides]) hR hRs hRs' hsteps.mem_names

/-! ### Scopes -/

/-- One scope differs from another in that it **binds just** one name more. -/
structure Scope.BindsJust (name : String) (scope scope' : Scope α) : Prop where
  unbound : scope.value? name = none
  bound : ∃ v, Entries.get? scope' name = some (some v)
  others : ∀ x ≠ name, Entries.get? scope' x = Entries.get? scope x

/-- A solution for an unbound name binds just that. -/
theorem Scope.bindsJust_bind {s : Solution α} (h : scope.value? s.name = none) :
    Scope.BindsJust s.name scope (scope.bind s) where
  unbound := h
  bound := ⟨s.value, Entries.get?_insert_self _ _ _⟩
  others _ hx := Entries.get?_insert_of_ne hx

/-- Values are kept if just one name more is bound. -/
theorem Scope.BindsJust.value? {name : String} {scope' : Scope α}
    (h : Scope.BindsJust name scope scope') {x : String} {v : Value α}
    (hv : scope.value? x = some v) : scope'.value? x = some v := by
  have hne : x ≠ name := by
    rintro rfl
    cases h.unbound.symm.trans hv
  rw [Scope.value?, h.others x hne]
  exact hv

variable (A limit source scope)

/-- What resolving does: without a solution it leaves the scope as it was. -/
theorem resolve_cases :
    (∃ f, (resolve A limit source scope).outcome = .error f ∧
      (resolve A limit source scope).scope = scope) ∨
    (∃ v, (answer A limit source scope).outcome = .ok (.value v) ∧
      (resolve A limit source scope).outcome = .ok (.value v) ∧
      (resolve A limit source scope).scope = scope) ∨
    ∃ s, (answer A limit source scope).outcome = .ok (.solution s) ∧
      (resolve A limit source scope).outcome = .ok (.solution s) ∧
      (resolve A limit source scope).scope = scope.bind s := by
  cases h : (answer A limit source scope).outcome with
  | error f => exact .inl ⟨f, by simp only [resolve, Resolution.ofAnswer, h, and_self]⟩
  | ok a =>
      cases a with
      | value v =>
          refine .inr (.inl ⟨v, rfl, ?_⟩)
          simp only [resolve, Resolution.ofAnswer, h, Answer.scopeAfter, and_self]
      | solution s =>
          refine .inr (.inr ⟨s, rfl, ?_⟩)
          simp only [resolve, Resolution.ofAnswer, h, Answer.scopeAfter, and_self]

/-- **Resolving binds the unknown, and nothing else**: a text that has no answer leaves the scope as
it was, and so does a formula. An equation that has one binds just one name more, that of a
variable which stands in the text in either case. No value is lost. -/
theorem resolve_binds_unknown :
    (∀ f, (resolve A limit source scope).outcome = .error f →
      (resolve A limit source scope).scope = scope) ∧
    ('=' ∉ source.toList → (resolve A limit source scope).scope = scope) ∧
    ('=' ∈ source.toList → ∀ a, (resolve A limit source scope).outcome = .ok a →
      ∃ name ∈ Grammar.variableNames, (∃ c ∈ source.toList, c.toLower.toString = name) ∧
        Scope.BindsJust name scope (resolve A limit source scope).scope) ∧
    ∀ x v, scope.value? x = some v →
      (resolve A limit source scope).scope.value? x = some v := by
  obtain ⟨f, hf, hscope⟩ | ⟨v, ha, hv, hscope⟩ | ⟨s, ha, hs, hscope⟩ :=
    resolve_cases A limit source scope
  · refine ⟨fun _ _ => hscope, fun _ => hscope, fun _ a ha => ?_, fun x v hv => by rwa [hscope]⟩
    cases hf.symm.trans ha
  · refine ⟨fun _ _ => hscope, fun _ => hscope, fun heq _ _ => ?_, fun x v hv => by rwa [hscope]⟩
    obtain ⟨_, formula, -, hsides⟩ | ⟨s, _, _, hs, -⟩ := sides_of_answer ha
    · have hlength := two_le_length_sides heq
      rw [hsides] at hlength
      simp at hlength
    · cases hs
  · obtain ⟨hunbound, hname, hletter⟩ := unknown_of_answer ha
    have hbinds : Scope.BindsJust s.name scope (resolve A limit source scope).scope :=
      hscope ▸ Scope.bindsJust_bind hunbound
    refine ⟨fun f hf => ?_, fun hne => ?_, fun _ _ _ => ⟨s.name, hname, hletter, hbinds⟩,
      fun _ _ => hbinds.value?⟩
    · cases hs.symm.trans hf
    · obtain ⟨left, right, hsides⟩ := sides_of_solution ha
      cases (sides_of_not_mem hne).symm.trans hsides

/-- With `y = 1`, the equation `2X+y=7` binds just one name, and one has a value already. -/
theorem resolve_binds_unknown_linear :
    ∃ name ∈ Grammar.variableNames, (∃ c ∈ "2X+y=7".toList, c.toLower.toString = name) ∧
      Scope.BindsJust name (.whole "y" 1)
        (resolve calculator (.ok (.ofInt 120)) "2X+y=7" (.whole "y" 1)).scope := by
  obtain ⟨a, ha, -⟩ := (show Yields (fun _ => False) (fun _ => True)
    (resolve calculator (.ok (.ofInt 120)) "2X+y=7" (.whole "y" 1)).outcome
    by decide +kernel).exists_ok
  exact (resolve_binds_unknown calculator _ _ _).2.2.1 (by decide +kernel) a ha

end Argand
