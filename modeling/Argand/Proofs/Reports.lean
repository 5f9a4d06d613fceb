import Argand.Proofs.Numbers
import Argand.Proofs.Session

/-!
# What calculating reports

A result reports what was found. That of an equation is one line with the one name that is newly
bound and its values; its sign and its mode tell whether rounding changed any part of them. That
of a formula shows the values of it. All of this holds in every scope, whatever its names are
bound to.

An error leaves the scope as it was, with one exception: a solution is bound before it is shown,
so it stays bound if it cannot be shown. This takes a setting for the places that is no count, or
a count before the point.

## Main definitions

* `Argand.Value.IsShownAs`, `Argand.Value.ChangedBy`: a shown value, and one that rounding changes.
* `Argand.Result.ReportsSolution`, `Argand.Result.ReportsValue`: what a result says.
* `Argand.scopeAfter`: the scope after texts that were calculated one after another.
* `Argand.StaysUnshown`: a solution is bound that could not be shown.

## Main results

* `Argand.calculate_reports`: a result reports what was found.
* `Argand.run_reports`: so does every result of a run.
* `Argand.scope_of_error`: what is left in the scope when an error is reported.
-/

namespace Argand

open Text

/-! ### Shown values -/

/-- A number **rounds to** another one: each of its parts does. -/
structure Number.RoundsTo (places : Places) (z w : Number) : Prop where
  re : places.round z.re = .ok w.re
  im : places.round z.im = .ok w.im

/-- Rounding **changes** a number: a part of it is not the one it rounds to. NaN is not rounded. -/
def Number.ChangedBy (places : Places) (z : Number) : Prop :=
  z.isNaN = false ∧ ∃ w, z.RoundsTo places w ∧ (w.re != z.re || w.im != z.im) = true

/-- A number **is shown as** a text: that of the snapped number it rounds to. -/
def Number.IsShownAs (places : Places) (z : Number) (text : String) : Prop :=
  z.isNaN = true ∧ text = "NaN" ∨
    z.isNaN = false ∧ ∃ w, z.RoundsTo places w ∧ text = w.snap.text

/-- Rounding changes **some number** of a value. -/
def Value.ChangedBy (places : Places) (v : Value Operand) : Prop :=
  ∃ x ∈ v.items, ∃ z, x.toNumber = .ok z ∧ z.ChangedBy places

/-- A value **is shown as** a text: those of its numbers in order, separated by commas. -/
def Value.IsShownAs (places : Places) (v : Value Operand) (text : String) : Prop :=
  ∃ texts, text = ", ".intercalate texts ∧
    List.Forall₂ (fun x t => ∃ z, x.toNumber = .ok z ∧ z.IsShownAs places t) v.items texts

variable {places : Places}

/-- The text of a shown number has no blanks. -/
theorem Number.IsShownAs.hasNoBlanks {z : Number} {text : String} (h : z.IsShownAs places text) :
    HasNoBlanks text := by
  obtain ⟨-, rfl⟩ | ⟨-, w, -, rfl⟩ := h
  · decide
  · exact (isSolid_text _).hasNoBlanks

/-- Texts without blanks, separated by commas, are **one line**. -/
theorem not_mem_intercalate {texts : List String} (h : ∀ t ∈ texts, HasNoBlanks t) :
    '\n' ∉ (", ".intercalate texts).toList := by
  have hline {t : String} (ht : HasNoBlanks t) : '\n' ∉ t.toList := by
    intro hmem
    cases ht _ hmem
  induction texts with
  | nil => decide
  | cons t rest ih =>
      have ht := hline (h t List.mem_cons_self)
      cases rest with
      | nil => rwa [String.intercalate_singleton]
      | cons u rest =>
          have hrest := ih fun s hs => h s (List.mem_cons_of_mem _ hs)
          rw [String.intercalate_cons_cons]
          simp only [String.toList_append, List.mem_append, not_or]
          exact ⟨⟨ht, by decide⟩, hrest⟩

/-- A shown value is one line. -/
theorem Value.IsShownAs.not_mem {v : Value Operand} {text : String} (h : v.IsShownAs places text) :
    '\n' ∉ text.toList := by
  obtain ⟨texts, rfl, htexts⟩ := h
  generalize v.items = items at htexts
  have hall : ∀ t ∈ texts, HasNoBlanks t := by
    induction htexts with
    | nil => exact List.forall_mem_nil _
    | cons hx _ ih =>
        obtain ⟨z, -, hz⟩ := hx
        exact List.forall_mem_cons.mpr ⟨hz.hasNoBlanks, ih⟩
  exact not_mem_intercalate hall

/-- A shown number. -/
theorem showNumber_spec {z : Number} {shown : Shown} (h : showNumber places z = .ok shown) :
    z.IsShownAs places shown.text ∧ (shown.rounded = true ↔ z.ChangedBy places) := by
  rw [showNumber] at h
  split at h
  · rename_i hnan
    obtain rfl := pure_eq_ok.mp h
    refine ⟨.inl ⟨hnan, rfl⟩, nofun, fun hchanged => ?_⟩
    cases hnan.symm.trans hchanged.1
  · rename_i hnan
    have hnan : z.isNaN = false := Bool.eq_false_iff.mpr hnan
    obtain ⟨re, hre, h⟩ := bind_eq_ok.mp h
    obtain ⟨im, him, h⟩ := bind_eq_ok.mp h
    obtain rfl := pure_eq_ok.mp h
    have hrounds : z.RoundsTo places ⟨re, im⟩ := ⟨hre, him⟩
    refine ⟨.inr ⟨hnan, ⟨re, im⟩, hrounds, rfl⟩, fun hchanged => ⟨hnan, _, hrounds, hchanged⟩, ?_⟩
    rintro ⟨-, ⟨re', im'⟩, hrounds', hchanged⟩
    obtain rfl := Except.ok.inj (hre.symm.trans hrounds'.re)
    obtain rfl := Except.ok.inj (him.symm.trans hrounds'.im)
    exact hchanged

/-- A shown operand is a shown number. -/
theorem showOperand_eq {x : Operand} {z : Number} (hz : x.toNumber = .ok z) :
    showOperand places x = showNumber places z := by
  cases x with
  | list items => cases hz
  | _ => simp only [showOperand, hz]; rfl

/-- Shown numbers, one by one. -/
theorem forall₂_of_showItems {items : List Operand} (hitems : ∀ x ∈ items, x.IsNumeric)
    {shown : List Shown} (h : showItems places items = .ok shown) :
    List.Forall₂ (fun x s => ∃ z, x.toNumber = .ok z ∧ showNumber places z = .ok s)
      items shown := by
  induction items generalizing shown with
  | nil =>
      obtain rfl := Except.ok.inj h
      exact .nil
  | cons x rest ih =>
      obtain ⟨first, hfirst, h⟩ := bind_eq_ok.mp h
      obtain ⟨others, hothers, h⟩ := bind_eq_ok.mp h
      obtain rfl := pure_eq_ok.mp h
      obtain ⟨z, hz⟩ := hitems x List.mem_cons_self
      rw [showOperand_eq hz] at hfirst
      exact .cons ⟨z, hz, hfirst⟩ (ih (fun y hy => hitems y (List.mem_cons_of_mem _ hy)) hothers)

/-- What is shown of a value: each of its numbers. -/
theorem forall₂_of_showValue {v : Value Operand} (hv : ∀ x ∈ v.items, x.IsNumeric) {shown : Shown}
    (h : showValue places v = .ok shown) :
    ∃ parts, shown = Shown.join parts ∧ List.Forall₂
      (fun x s => ∃ z, x.toNumber = .ok z ∧ showNumber places z = .ok s) v.items parts := by
  cases v with
  | one x =>
      obtain ⟨z, hz⟩ := hv x (List.mem_singleton.mpr rfl)
      rw [showValue, showOperand_eq hz] at h
      refine ⟨[shown], ?_, .cons ⟨z, hz, h⟩ .nil⟩
      simp [Shown.join]
  | many items =>
      obtain ⟨parts, hparts, rfl⟩ := map_eq_ok.mp h
      exact ⟨parts, rfl, forall₂_of_showItems hv hparts⟩

/-- Rounding changes some number of several if it changes one of them. -/
theorem any_rounded_iff {items : List Operand} {parts : List Shown} (h : List.Forall₂
      (fun x s => ∃ z, x.toNumber = .ok z ∧ showNumber places z = .ok s) items parts) :
    parts.any (·.rounded) = true ↔
      ∃ x ∈ items, ∃ z, x.toNumber = .ok z ∧ z.ChangedBy places := by
  induction h with
  | nil => simp
  | @cons x s items parts hx _ ih =>
      obtain ⟨z, hz, hs⟩ := hx
      have hfirst : s.rounded = true ↔ ∃ z, x.toNumber = .ok z ∧ z.ChangedBy places := by
        refine (showNumber_spec hs).2.trans ⟨fun h => ⟨z, hz, h⟩, ?_⟩
        rintro ⟨z', hz', h⟩
        obtain rfl := Except.ok.inj (hz.symm.trans hz')
        exact h
      rw [List.any_cons, Bool.or_eq_true, hfirst, ih, List.exists_mem_cons_iff]

/-- **A shown value** shows its numbers, and tells whether rounding changed one. -/
theorem showValue_spec {v : Value Operand} (hv : ∀ x ∈ v.items, x.IsNumeric) {shown : Shown}
    (h : showValue places v = .ok shown) :
    v.IsShownAs places shown.text ∧ (shown.rounded = true ↔ v.ChangedBy places) := by
  obtain ⟨parts, rfl, hparts⟩ := forall₂_of_showValue hv h
  refine ⟨⟨parts.map (·.text), rfl, ?_⟩, any_rounded_iff hparts⟩
  rw [List.forall₂_map_right_iff]
  exact hparts.imp fun x s ⟨z, hz, hs⟩ => ⟨z, hz, (showNumber_spec hs).1⟩

/-- A value of numbers **can be shown** with any number of places after the point. -/
theorem exists_showValue {n : Int} (hn : 0 ≤ n) {v : Value Operand}
    (hv : ∀ x ∈ v.items, x.IsNumeric) : ∃ shown, showValue (.count n) v = .ok shown := by
  cases v with
  | one x =>
      obtain ⟨shown, hshown, -⟩ :=
        (showOperand_isSolid hn (hv x (List.mem_singleton.mpr rfl))).exists_ok
      exact ⟨shown, hshown⟩
  | many items =>
      obtain ⟨parts, hparts, -⟩ := (showItems_isSolid hn hv).exists_ok
      exact ⟨Shown.join parts, map_eq_ok.mpr ⟨parts, hparts, rfl⟩⟩

/-! ### Results -/

/-- A result **reports a value**: its text shows it, and its mode is 3 if rounding changed some
number of it, otherwise 4. -/
structure Result.ReportsValue (places : Places) (v : Value Operand) (r : Result) : Prop where
  shown : v.IsShownAs places r.text
  mode : v.ChangedBy places ∧ r.mode.number = 3 ∨ ¬ v.ChangedBy places ∧ r.mode.number = 4

/-- A result **reports a solution** between two scopes: it is one line with the one name that is
bound anew, and found to be, a sign, and its value; the sign is `≈` and the mode 1 if rounding
changed some number of the value, otherwise they are `=` and 2. -/
structure Result.ReportsSolution (places : Places) (before after : Scope Operand) (name : String)
    (v : Value Operand) (r : Result) : Prop where
  bound : Entries.get? after name = some (some v)
  found : Scope.boundAnew before after = [name]
  anew : ∀ x, Entries.get? after x ≠ Entries.get? before x ↔ x = name
  one_line : '\n' ∉ r.text.toList
  shown : ∃ text, v.IsShownAs places text ∧
    (v.ChangedBy places ∧ r.text = name ++ " ≈ " ++ text ∧ r.mode.number = 1 ∨
      ¬ v.ChangedBy places ∧ r.text = name ++ " = " ++ text ∧ r.mode.number = 2)

/-- A shown value that was found **is reported**. -/
theorem reportsValue_ofValue {v : Value Operand} (hv : ∀ x ∈ v.items, x.IsNumeric) {shown : Shown}
    (h : showValue places v = .ok shown) : (Result.ofValue shown).ReportsValue places v := by
  obtain ⟨hshown, hrounded⟩ := showValue_spec hv h
  refine ⟨hshown, ?_⟩
  by_cases hr : shown.rounded = true
  · exact .inl ⟨hrounded.mp hr, by simp [Result.ofValue, hr, Mode.number]⟩
  · exact .inr ⟨mt hrounded.mpr hr, by simp [Result.ofValue, hr, Mode.number]⟩

/-- A shown solution that was bound **is reported**. -/
theorem reportsSolution_ofSolution {scope : Scope Operand} {s : Solution Operand}
    (hunbound : scope.value? s.name = none) (hname : HasNoBlanks s.name)
    (hv : ∀ x ∈ s.value.items, x.IsNumeric) {shown : Shown}
    (h : showValue places s.value = .ok shown) :
    (Result.ofNames [(s.name, shown)]).ReportsSolution places scope (scope.bind s) s.name
      s.value := by
  obtain ⟨hshown, hrounded⟩ := showValue_spec hv h
  rw [ofNames_singleton]
  have hline : '\n' ∉ s.name.toList := fun hmem => by cases hname _ hmem
  have hbinds := Scope.bindsJust_bind hunbound
  refine ⟨?_, hbinds.boundAnew_eq, hbinds.get?_ne_iff, ?_, shown.text, hshown, ?_⟩
  · exact Entries.get?_insert_self _ _ _
  · have hsign : '\n' ∉ (if shown.rounded then approximately else "=").toList := by
      split <;> decide
    simp only [Shown.line, String.toList_append, List.mem_append, not_or]
    exact ⟨⟨⟨⟨hline, by decide⟩, hsign⟩, by decide⟩, hshown.not_mem⟩
  · by_cases hr : shown.rounded = true
    · refine .inl ⟨hrounded.mp hr, ?_⟩
      simp [Shown.line, hr, Mode.number, approximately, String.append_assoc]
    · refine .inr ⟨mt hrounded.mpr hr, ?_⟩
      simp [Shown.line, hr, Mode.number, String.append_assoc]

section Calculate

variable (file : SettingsFile) (problem : String) (scope : Scope Operand)

/-- What a result comes from: an answer that is shown. -/
theorem exists_of_result {r : Result} (h : (calculate file problem scope).outcome = .ok r) :
    ∃ settings a, file.all = .ok settings ∧
      (answer calculator file.depthLimit problem scope).outcome = .ok a ∧
      a.report (placesOf settings) = .ok r ∧
      (calculate file problem scope).scope = a.scopeAfter scope := by
  obtain ⟨f, -, houtcome, -⟩ | ⟨settings, hall, ⟨f, houtcome, -⟩ | ⟨a, ha, houtcome, hscope⟩⟩ :=
    calculate_stages file problem scope
  · cases houtcome.symm.trans h
  · cases houtcome.symm.trans h
  · refine ⟨settings, a, hall, ha, ?_, hscope⟩
    cases hshown : a.report (placesOf settings) with
    | error f => rw [hshown] at houtcome; cases houtcome.symm.trans h
    | ok r' =>
        rw [hshown] at houtcome
        obtain rfl := Except.ok.inj (houtcome.symm.trans h)
        rfl

/-- **A result reports what was found**, with the places of the settings: the result of an equation
the solution that is bound, the result of a formula its value, and no binding changes. -/
theorem calculate_reports {r : Result} (h : (calculate file problem scope).outcome = .ok r) :
    ∃ settings, file.all = .ok settings ∧
      ('=' ∈ problem.toList → ∃ name v, r.ReportsSolution (placesOf settings) scope
        (calculate file problem scope).scope name v) ∧
      ('=' ∉ problem.toList → (calculate file problem scope).scope = scope ∧
        ∃ v, (resolve calculator file.depthLimit problem scope).outcome = .ok (.value v) ∧
          r.ReportsValue (placesOf settings) v) := by
  obtain ⟨settings, a, hall, ha, hshown, hscope⟩ := exists_of_result file problem scope h
  refine ⟨settings, hall, ?_⟩
  have hitems := items_of_answer gives_calculator ha
  obtain ⟨v, formula, rfl, hsides⟩ | ⟨s, left, right, rfl, hsides⟩ := sides_of_answer ha
  · obtain ⟨shown, hvalue, rfl⟩ := map_eq_ok.mp hshown
    have hvalue' : (resolve calculator file.depthLimit problem scope).outcome = .ok (.value v) := by
      simp only [resolve, Resolution.ofAnswer, ha]
    refine ⟨fun heq => ?_, fun _ => ⟨hscope, v, hvalue', ?_⟩⟩
    · have hlength := two_le_length_sides heq
      rw [hsides] at hlength
      simp at hlength
    · exact reportsValue_ofValue hitems hvalue
  · obtain ⟨shown, hvalue, rfl⟩ := map_eq_ok.mp hshown
    obtain ⟨hunbound, hname, -⟩ := unknown_of_answer ha
    refine ⟨fun _ => ⟨s.name, s.value, ?_⟩, fun hne => ?_⟩
    · rw [hscope]
      have hname := (isSolid_of_mem_variableNames s.name hname).hasNoBlanks
      exact reportsSolution_ofSolution hunbound hname hitems hvalue
    · cases (sides_of_not_mem hne).symm.trans hsides

/-! ### Runs -/

/-- **A value stays** what it is, whatever is calculated. -/
theorem value?_calculate {x : String} {v : Value Operand} (h : scope.value? x = some v) :
    (calculate file problem scope).scope.value? x = some v := by
  obtain ⟨f, -, -, hscope⟩ | ⟨settings, -, ⟨f, -, hscope⟩ | ⟨a, ha, -, hscope⟩⟩ :=
    calculate_stages file problem scope
  · rwa [hscope]
  · rwa [hscope]
  · rw [hscope]
    cases a with
    | value w => exact h
    | solution s => exact (Scope.bindsJust_bind (unknown_of_answer ha).1).value? h

/-- The scope **after a run**: each text, with the settings file of its time, meets the scope that
the one before it left. -/
def scopeAfter (scope : Scope Operand) (run : List (SettingsFile × String)) : Scope Operand :=
  run.foldl (fun scope entered => (calculate entered.1 entered.2 scope).scope) scope

variable {scope} in
/-- Values stay in a run. -/
theorem value?_scopeAfter {x : String} {v : Value Operand} (run : List (SettingsFile × String))
    (h : scope.value? x = some v) : (scopeAfter scope run).value? x = some v := by
  induction run generalizing scope with
  | nil => exact h
  | cons entered rest ih => exact ih (value?_calculate _ _ _ h)

/-- **Every result of a run reports what was found.** An equation that has a result binds one name
anew, and its result is a line with that name and its value, which stay bound until the end of the
run. A formula that has a result has a value, which is shown, and leaves the scope as it was. -/
theorem run_reports (run rest : List (SettingsFile × String)) {r : Result}
    (h : (calculate file problem (scopeAfter scope run)).outcome = .ok r) :
    ∃ settings, file.all = .ok settings ∧
      ('=' ∈ problem.toList → ∃ name v,
        r.ReportsSolution (placesOf settings) (scopeAfter scope run)
          (calculate file problem (scopeAfter scope run)).scope name v ∧
        (scopeAfter (calculate file problem (scopeAfter scope run)).scope rest).value? name =
          some v) ∧
      ('=' ∉ problem.toList →
        (calculate file problem (scopeAfter scope run)).scope = scopeAfter scope run ∧
        ∃ v, (resolve calculator file.depthLimit problem (scopeAfter scope run)).outcome =
            .ok (.value v) ∧
          r.ReportsValue (placesOf settings) v) := by
  obtain ⟨settings, hall, hsolution, hvalue⟩ := calculate_reports file problem _ h
  refine ⟨settings, hall, fun heq => ?_, hvalue⟩
  obtain ⟨name, v, hreports⟩ := hsolution heq
  refine ⟨name, v, hreports, value?_scopeAfter rest ?_⟩
  rw [Scope.value?, hreports.bound]
  rfl

/-- With `x` bound to nothing, `y=l` for a list `l` and then `x=y/3` are reported; `x` is rounded,
and keeps its value while `z` is solved. -/
theorem run_reports_third :
    let before := scopeAfter [("x", none), ("l", some (.many [.whole 1, .whole 2]))]
      [(.shipped, "y=l")]
    let after := (calculate .shipped "x=y/3" before).scope
    ∃ settings name v,
      Result.ReportsSolution (placesOf settings) before after name v
        ⟨"x ≈ 0.3333333333, 0.6666666667", .roundedSolution⟩ ∧
      (scopeAfter after [(.shipped, "z=x")]).value? name = some v := by
  intro before after
  have h : (calculate .shipped "x=y/3" before).outcome =
      .ok ⟨"x ≈ 0.3333333333, 0.6666666667", .roundedSolution⟩ := by decide +kernel
  obtain ⟨settings, -, hsolution, -⟩ := run_reports _ _ _ _ [(.shipped, "z=x")] h
  obtain ⟨name, v, hreports, hstays⟩ := hsolution (by decide)
  exact ⟨settings, name, v, hreports, hstays⟩

/-! ### Errors -/

/-- A solution **stays unshown**: it is bound, and the error comes from showing it. -/
def StaysUnshown (r : Report) : Prop :=
  ∃ settings s f, file.all = .ok settings ∧
    (answer calculator file.depthLimit problem scope).outcome = .ok (.solution s) ∧
    showValue (placesOf settings) s.value = .error f ∧ r = .ofFault problem f ∧
    (calculate file problem scope).scope = scope.bind s

/-- An error of any other stage leaves the scope as it was. -/
theorem scope_eq_or_staysUnshown {r : Report}
    (h : (calculate file problem scope).outcome = .error r) :
    (calculate file problem scope).scope = scope ∨ StaysUnshown file problem scope r := by
  obtain ⟨f, -, -, hscope⟩ | ⟨settings, hall, ⟨f, -, hscope⟩ | ⟨a, ha, houtcome, hscope⟩⟩ :=
    calculate_stages file problem scope
  · exact .inl hscope
  · exact .inl hscope
  · cases a with
    | value v => exact .inl hscope
    | solution s =>
        cases hshown : showValue (placesOf settings) s.value with
        | ok shown =>
            rw [Answer.report, hshown] at houtcome
            cases houtcome.symm.trans h
        | error f =>
            rw [Answer.report, hshown] at houtcome
            refine .inr ⟨settings, s, f, hall, ha, hshown, ?_, hscope⟩
            exact (Except.error.inj (houtcome.symm.trans h)).symm

/-- **An error leaves the scope as it was** if the places are a count that is not negative, whatever
stage failed. With other places the only exception is a solution that cannot be shown. -/
theorem scope_of_error {r : Report} (h : (calculate file problem scope).outcome = .error r) :
    ((∀ settings, file.all = .ok settings → ∃ n, 0 ≤ n ∧ placesOf settings = .count n) →
      (calculate file problem scope).scope = scope) ∧
    ((calculate file problem scope).scope = scope ∨ StaysUnshown file problem scope r) := by
  have hcases := scope_eq_or_staysUnshown file problem scope h
  refine ⟨fun hplaces => ?_, hcases⟩
  obtain hscope | ⟨settings, s, f, hall, ha, hshown, -⟩ := hcases
  · exact hscope
  · obtain ⟨n, hn, hcount⟩ := hplaces settings hall
    obtain ⟨shown, hok⟩ := exists_showValue hn (items_of_answer gives_calculator ha)
    rw [hcount] at hshown
    cases hok.symm.trans hshown

end Calculate

/-- A settings file with a text in it. -/
def SettingsFile.ofText (text : String) : SettingsFile :=
  ⟨some text, true⟩

/-- With a count of places, a division by zero leaves `y = 1` as it was. -/
theorem scope_of_error_division :
    (calculate (.ofText "\x7b\"decimal_places\": 3\x7d") "x=y/0" (.whole "y" 1)).outcome =
        .error ⟨.divisionByZero, some "x=y/0"⟩ ∧
      (calculate (.ofText "\x7b\"decimal_places\": 3\x7d") "x=y/0" (.whole "y" 1)).scope =
        .whole "y" 1 := by
  have houtcome : (calculate (.ofText "\x7b\"decimal_places\": 3\x7d") "x=y/0"
      (.whole "y" 1)).outcome = .error ⟨.divisionByZero, some "x=y/0"⟩ := by decide +kernel
  obtain ⟨settings, hall, hplaces⟩ :=
    @placesOf_eq_count (.ofText "\x7b\"decimal_places\": 3\x7d") 3 rfl
  refine ⟨houtcome, (scope_of_error _ _ _ houtcome).1 fun settings' hall' => ?_⟩
  obtain rfl := Except.ok.inj (hall.symm.trans hall')
  exact ⟨3, by decide, hplaces⟩

/-- **A solution that cannot be shown stays bound**: the settings are a record, with a text for the
places. -/
theorem solution_kept_unshown :
    (SettingsFile.ofText "\x7b\"decimal_places\": \"2\"\x7d").value =
        .ok (.record [("decimal_places", .text "2")]) ∧
      (calculate (.ofText "\x7b\"decimal_places\": \"2\"\x7d") "x=1" []).outcome =
        .error ⟨.unexpected "'str' object cannot be interpreted as an integer", some "x=1"⟩ ∧
      (calculate (.ofText "\x7b\"decimal_places\": \"2\"\x7d") "x=1" []).scope ≠ [] := by
  refine ⟨rfl, by decide +kernel, fun h => ?_⟩
  have hbound : (calculate (.ofText "\x7b\"decimal_places\": \"2\"\x7d") "x=1"
      []).scope.isEmpty = false := by decide +kernel
  rw [h] at hbound
  cases hbound

end Argand
