import Argand.Proofs.Display.Shown
import Argand.Proofs.Roots
import Argand.Proofs.Settings
import Argand.Proofs.Values
import Argand.Session

/-!
# Calculating in a session

Calculating a text leaves the scope alone or binds a solution in it. A solution is shown as the
names that are bound anew, which are found by comparing the scope with the one before. As the
unknown had no value and nothing else is bound, these are its name alone, whatever the scope holds.

With a settings file that sets a count of places every answer can be shown, and so the scope is
left alone whenever an error is reported. This needs the count not to be negative: rounding before
the point may pass the largest float, and then a solution is bound although it cannot be shown.

## Main results

* `Argand.Scope.BindsJust.boundAnew_eq`: the names that are bound anew.
* `Argand.calculate_stages`: what comes of a text, stage by stage.
* `Argand.calculateOn_eq_or`: a stack only refuses.
* `Argand.isValid_calculate`: calculating keeps a scope valid.
* `Argand.calculate_cases`: with a count of places, a text has an error and binds nothing, or a
  value and binds nothing, or a solution that is bound.
* `Argand.scope_of_report`, `Argand.isTrimmed_of_result`: what follows for errors and for results.
-/

namespace Argand

open Text

/-! ### Names that are bound anew -/

/-- If one scope binds just one name more than another, that is the name with another binding. -/
theorem Scope.BindsJust.get?_ne_iff {α : Type} {name : String} {before after : Scope α}
    (h : Scope.BindsJust name before after) (x : String) :
    Entries.get? after x ≠ Entries.get? before x ↔ x = name := by
  refine ⟨fun hne => ?_, ?_⟩
  · by_contra hx
    exact hne (h.others x hx)
  · rintro rfl heq
    obtain ⟨v, hv⟩ := h.bound
    have hunbound := h.unbound
    rw [Scope.value?, ← heq, hv] at hunbound
    cases hunbound

/-- **Just that name is bound anew**, and it is found once, whatever the others are bound to. -/
theorem Scope.BindsJust.boundAnew_eq {name : String} {before after : Scope Operand}
    (h : Scope.BindsJust name before after) : Scope.boundAnew before after = [name] := by
  have hmem (x : String) : x ∈ Scope.boundAnew before after ↔ x = name := by
    rw [Scope.boundAnew, List.mem_filter, List.mem_eraseDups, decide_eq_true_iff, h.get?_ne_iff]
    refine ⟨And.right, ?_⟩
    rintro rfl
    obtain ⟨v, hv⟩ := h.bound
    exact ⟨List.mem_map_of_mem (Entries.mem_of_get? hv), rfl⟩
  have hnodup : (Scope.boundAnew before after).Nodup := (nodup_eraseDups _).filter _
  refine List.perm_singleton.mp ((List.perm_ext_iff_of_nodup hnodup ?_).mpr fun x => ?_)
  · exact List.nodup_singleton name
  · rw [hmem, List.mem_singleton]

/-- One shown name is one line. -/
theorem ofNames_singleton (name : String) (shown : Shown) :
    Result.ofNames [(name, shown)] =
      ⟨shown.line name, if shown.rounded then .roundedSolution else .exactSolution⟩ := by
  simp [Result.ofNames]

/-- What an answer **reports**: its value, or its solution as a line with the name. -/
def Answer.report (places : Places) : Answer Operand → Except Fault Result
  | .value v => (showValue places v).map .ofValue
  | .solution s => (showValue places s.value).map fun shown => .ofNames [(s.name, shown)]

/-- **What is shown of an answer** is the answer: the names that are bound anew are that of the
solution, as it had no value before. -/
theorem Answer.shown_eq_report {limit : Except Fault DepthLimit} {source : String}
    {scope : Scope Operand} {a : Answer Operand}
    (h : (answer calculator limit source scope).outcome = .ok a) (places : Places) :
    a.shown places scope (a.scopeAfter scope) = a.report places := by
  cases a with
  | value v => rfl
  | solution s =>
      have hbound : Entries.get? (scope.bind s) s.name = some (some s.value) :=
        Entries.get?_insert_self _ _ _
      rw [shown, scopeAfter, (Scope.bindsJust_bind (unknown_of_answer h).1).boundAnew_eq, report,
        List.mapM_cons, List.mapM_nil, hbound, Option.join_some, showBinding]
      cases showValue places s.value <;> rfl

/-! ### Calculations -/

variable {file : SettingsFile} {problem : String} {scope : Scope Operand}

variable (file problem scope) in
/-- **The stages of a calculation**: the settings are read, the text is answered, and the answer
stays in the scope and is reported. -/
theorem calculate_stages :
    (∃ f, file.all = .error f ∧ (calculate file problem scope).outcome = .error ⟨f, none⟩ ∧
      (calculate file problem scope).scope = scope) ∨
    ∃ settings, file.all = .ok settings ∧
      ((∃ f, (calculate file problem scope).outcome = .error (.ofFault problem f) ∧
        (calculate file problem scope).scope = scope) ∨
      ∃ a, (answer calculator file.depthLimit problem scope).outcome = .ok a ∧
        (calculate file problem scope).outcome =
          (a.report (placesOf settings)).mapError (.ofFault problem) ∧
        (calculate file problem scope).scope = a.scopeAfter scope) := by
  cases hall : file.all with
  | error f =>
      exact .inl ⟨f, rfl, by simp only [calculate, Calculation.ofResolution, hall, and_self]⟩
  | ok settings =>
      refine .inr ⟨settings, rfl, ?_⟩
      cases ha : (answer calculator file.depthLimit problem scope).outcome with
      | error f =>
          refine .inl ⟨f, ?_⟩
          simp only [calculate, Calculation.ofResolution, hall, resolve, Resolution.ofAnswer, ha,
            and_self]
      | ok a =>
          refine .inr ⟨a, rfl, ?_⟩
          simp only [calculate, Calculation.ofResolution, hall, resolve, Resolution.ofAnswer, ha,
            a.shown_eq_report ha, and_self]

variable (file problem scope) in
/-- **A stack only refuses.** What is calculated on a stack is what is calculated without an end to
the stack, or an error that leaves the scope alone. -/
theorem calculateOn_eq_or (holds : Bool) :
    calculateOn holds file problem scope = calculate file problem scope ∨
      calculateOn holds file problem scope =
        ⟨.error (.ofFault problem .nestingExhausted), scope, []⟩ := by
  cases holds with
  | true => exact .inl rfl
  | false =>
      cases hall : file.all with
      | error f =>
          left
          simp only [calculateOn, calculate, Calculation.ofResolution, hall]
      | ok settings =>
          right
          simp only [calculateOn, Calculation.ofResolution, hall]
          rfl

/-- The scope after a calculation: it is left alone, or a **valid solution is bound**. -/
theorem scope_calculate (hs : scope.IsValid Operand.IsNumeric) :
    (calculate file problem scope).scope = scope ∨
      ∃ s, s.value.IsValid Operand.IsNumeric ∧
        (calculate file problem scope).scope = scope.bind s := by
  obtain ⟨f, -, -, hscope⟩ | ⟨settings, -, ⟨f, -, hscope⟩ | ⟨a, ha, -, hscope⟩⟩ :=
    calculate_stages file problem scope
  · exact .inl hscope
  · exact .inl hscope
  · cases a with
    | value v => exact .inl hscope
    | solution s => exact .inr ⟨s, isValid_of_answer gives_calculator hs ha, hscope⟩

/-- **Calculating keeps a scope valid**, whatever comes of it. -/
theorem isValid_calculate (hs : scope.IsValid Operand.IsNumeric) :
    (calculate file problem scope).scope.IsValid Operand.IsNumeric := by
  obtain hscope | ⟨s, hvalid, hscope⟩ := @scope_calculate file problem scope hs
  · rw [hscope]
    exact hs
  · rw [hscope]
    exact hs.bind hvalid

/-! ### With a count of places -/

/-- All names of variables are solid texts. -/
theorem isSolid_of_mem_variableNames : ∀ name ∈ Grammar.variableNames, IsSolid name := by
  decide +kernel

/-- The line of a name is trimmed: it begins with the name and ends with its value. -/
theorem isTrimmed_line {name : String} (hname : name ∈ Grammar.variableNames) {shown : Shown}
    (h : IsTrimmed shown.text) : IsTrimmed (shown.line name) := by
  have hjoined := (isSolid_of_mem_variableNames name hname).isTrimmed.append
    (m := " " ++ (if shown.rounded then approximately else "=") ++ " ") h
  simpa [Shown.line, String.append_assoc] using hjoined

/-- The places of all settings are the count that the file sets. -/
theorem placesOf_eq_count {n : Int} (hfile : file.get "decimal_places" = .ok (.whole n)) :
    ∃ settings, file.all = .ok settings ∧ placesOf settings = .count n := by
  obtain ⟨settings, hall, hget⟩ := SettingsFile.get?_of_get hfile (by decide)
  exact ⟨settings, hall, by rw [placesOf, hget]; rfl⟩

section Places

variable {n : Int} (hn : 0 ≤ n) (hfile : file.get "decimal_places" = .ok (.whole n))
  (hs : scope.IsValid Operand.IsNumeric)

include hn hfile hs

/-- **What comes of a text** with a count of places: an error, a value or a solution, and only
the solution is bound. -/
theorem calculate_cases :
    (∃ r, (calculate file problem scope).outcome = .error r ∧
      (calculate file problem scope).scope = scope) ∨
    (∃ shown, (calculate file problem scope).outcome = .ok (.ofValue shown) ∧
      (calculate file problem scope).scope = scope ∧ IsTrimmed shown.text) ∨
    ∃ s shown, (calculate file problem scope).outcome = .ok (.ofNames [(s.name, shown)]) ∧
      (calculate file problem scope).scope = scope.bind s ∧ IsTrimmed (shown.line s.name) := by
  obtain ⟨settings, hall, hplaces⟩ := placesOf_eq_count hfile
  obtain ⟨f, herror, -⟩ | ⟨settings', hall', ⟨f, houtcome, hscope⟩ | ⟨a, ha, houtcome, hscope⟩⟩ :=
    calculate_stages file problem scope
  · cases hall.symm.trans herror
  · exact .inl ⟨_, houtcome, hscope⟩
  · obtain rfl := Except.ok.inj (hall'.symm.trans hall)
    obtain ⟨shown, hshown, htrimmed⟩ :=
      (showValue_isTrimmed hn (isValid_of_answer gives_calculator hs ha)).exists_ok
    cases a with
    | value v =>
        rw [Answer.report, hplaces, show showValue (.count n) v = .ok shown from hshown] at houtcome
        exact .inr (.inl ⟨shown, houtcome, hscope, htrimmed⟩)
    | solution s =>
        rw [Answer.report, hplaces,
          show showValue (.count n) s.value = .ok shown from hshown] at houtcome
        obtain ⟨-, hname, -⟩ := unknown_of_answer ha
        exact .inr (.inr ⟨s, shown, houtcome, hscope, isTrimmed_line hname htrimmed⟩)

/-- **A text without a result** leaves the scope alone. -/
theorem scope_of_report {r : Report} (h : (calculate file problem scope).outcome = .error r) :
    (calculate file problem scope).scope = scope := by
  obtain ⟨-, -, hscope⟩ | ⟨shown, houtcome, -⟩ | ⟨s, shown, houtcome, -⟩ :=
    @calculate_cases file problem scope n hn hfile hs
  · exact hscope
  · cases houtcome.symm.trans h
  · cases houtcome.symm.trans h

/-- **The text of a result** is trimmed. -/
theorem isTrimmed_of_result {r : Result} (h : (calculate file problem scope).outcome = .ok r) :
    IsTrimmed r.text := by
  obtain ⟨r', houtcome, -⟩ | ⟨shown, houtcome, -, htrimmed⟩ | ⟨s, shown, houtcome, -, htrimmed⟩ :=
    @calculate_cases file problem scope n hn hfile hs
  · cases houtcome.symm.trans h
  · obtain rfl := Except.ok.inj (houtcome.symm.trans h)
    exact htrimmed
  · obtain rfl := Except.ok.inj (houtcome.symm.trans h)
    rwa [ofNames_singleton]

end Places

end Argand
