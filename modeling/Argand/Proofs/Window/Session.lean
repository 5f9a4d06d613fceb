import Argand.Proofs.Window.SingleFlight

/-!
# Entering texts

If variables are kept and no calculation waits, the window does what calculating the entered texts
in turn does, in one scope that is empty at first. It works on copies of the scope and takes them
over, while calculating in turn goes on with the scope left behind; the two agree because a text
without a result leaves the scope alone.

## Main definitions

* `Argand.Session`: what calculating texts in turn comes to.
* `Argand.problemsOf`: the texts that are entered.
* `Argand.Desk.Follows`: the window shows a session.

## Main results

* `Argand.Desk.Follows.enter`: entering a text keeps the window following.
* `Argand.window_follows_session`: the window follows the entered texts.
-/

namespace Argand

/-! ### Sessions -/

/-- What **calculating texts in turn** comes to. -/
structure Session where
  scope : Scope Operand
  last : Option (Except Report Result)
  /-- The text of the last result, if there was one. -/
  copied : Option String

namespace Session

/-- Before the first text. -/
def empty : Session :=
  ⟨[], none, none⟩

/-- **One more text** is calculated. -/
def enter (file : SettingsFile) (t : Session) (problem : String) : Session :=
  let c := calculate file problem t.scope
  { scope := c.scope
    last := some c.outcome
    copied :=
      match c.outcome with
      | .ok r => some r.text
      | .error _ => t.copied }

/-- Texts calculated **in turn**. -/
def ofTexts (file : SettingsFile) (problems : List String) : Session :=
  problems.foldl (enter file) empty

/-- A text **without a result** changes nothing but what came of the last text. -/
theorem enter_of_report {file : SettingsFile} {n : Int} (hn : 0 ≤ n)
    (hfile : file.get "decimal_places" = .ok (.whole n)) {t : Session}
    (hs : t.scope.IsValid Operand.IsNumeric) {problem : String} {r : Report}
    (h : (calculate file problem t.scope).outcome = .error r) :
    t.enter file problem = { t with last := some (.error r) } := by
  simp only [enter, h, scope_of_report hn hfile hs h]

/-- What is shown of the last text: a solution as it is, a value after a sign. -/
def label (t : Session) : String :=
  match t.last with
  | some (.ok r) =>
    match r.mode.number with
    | 1 | 2 => r.text
    | 3 => "≈ " ++ r.text
    | _ => "= " ++ r.text
  | _ => ""

end Session

/-! ### Entered texts -/

/-- Whether an event **enters texts**: the input line is replaced or return is pressed. -/
def WindowEvent.isEntry : WindowEvent → Bool
  | .typed _ => true
  | e => e.isReturn

/-- The texts that are **entered**: what stands in the input line, without outer blanks, whenever
return is pressed, unless it is blank. -/
def problemsOf (display : String) : List WindowEvent → List String
  | [] => []
  | .typed text :: rest => problemsOf text rest
  | e :: rest =>
    if e.isReturn && !(Text.trim display).isEmpty then
      Text.trim display :: problemsOf display rest
    else problemsOf display rest

/-- Texts that are typed and entered one after another. -/
theorem problemsOf_typed (display : String) (texts : List String) :
    problemsOf display (texts.flatMap fun text => [.typed text, .enter]) =
      (texts.map Text.trim).filter fun text => !text.isEmpty := by
  induction texts generalizing display with
  | nil => rfl
  | cons text rest ih =>
      rw [List.map_cons, List.filter_cons, ← ih text]
      rfl

/-- What return enters. -/
theorem problemsOf_return {e : WindowEvent} (h : e.isReturn = true) (display : String)
    (rest : List WindowEvent) :
    problemsOf display (e :: rest) =
      if !(Text.trim display).isEmpty then Text.trim display :: problemsOf display rest
      else problemsOf display rest := by
  cases e with
  | enter => rfl
  | press button =>
      rw [problemsOf, h, Bool.true_and]
      exact nofun
  | _ => cases h

/-! ### The window -/

namespace Desk

/-- Return starts a calculation. -/
theorem react_of_isReturn {d : Desk} {e : WindowEvent} (h : e.isReturn = true) :
    d.react e = d.startCalculation := by
  cases e with
  | enter => rfl
  | press button =>
      obtain rfl : button = "⏎" := of_decide_eq_true h
      rfl
  | _ => cases h

section Places

variable {d : Desk} {job : Job} {n : Int} (hn : 0 ≤ n)
  (hfile : d.file.get "decimal_places" = .ok (.whole n))

/-- The desk once a calculation **ended with a report**. -/
theorem desk_finishJob_report {r : Report}
    (h : (calculate d.file job.problem job.scope).outcome = .error r) :
    (d.finishJob job).desk =
      d.onWindow fun w => { w with busy := false, resultLabel := "" }.withButton := by
  simp only [finishJob, h]
  split <;> rfl

include hn hfile in
/-- The desk once a calculation **ended with a result**. -/
theorem desk_finishJob_result (hs : job.scope.IsValid Operand.IsNumeric) {r : Result}
    (h : (calculate d.file job.problem job.scope).outcome = .ok r) (hkeeps : d.window.keepsScope) :
    ∃ text, showScope (.count n) (calculate d.file job.problem job.scope).scope = .ok text ∧
      (d.finishJob job).desk =
        d.onWindow fun w =>
          { w with
            busy := false, lastResult := Text.trim r.text, resultLabel := resultText r,
            scope := (calculate d.file job.problem job.scope).scope,
            scopeLabel := text }.withButton := by
  have hvalid := @isValid_calculate d.file job.problem _ hs
  obtain ⟨text, htext⟩ := exists_showScope hn hvalid
  refine ⟨text, htext, ?_⟩
  have hreceived : (d.finishJob job).desk =
      (d.receiveResult r (calculate d.file job.problem job.scope).scope).desk := by
    simp only [finishJob, h, fault_receiveResult hn hfile hvalid r]
  have hlabel : d.status.labelOf (calculate d.file job.problem job.scope).scope = text := by
    refine Status.labelOf_eq ?_
    rw [SettingsFile.scopeText, show d.status.file = d.file from rfl, hfile]
    exact htext
  rw [hreceived, receiveResult, desk_showingScope, ← hlabel]
  simp only [onWindow, hkeeps, if_true]
  rfl

end Places

/-- The label of a result whose text has no outer blanks. -/
theorem resultText_eq_label {r : Result} (h : Text.IsTrimmed r.text) {scope : Scope Operand}
    {copied : Option String} : resultText r = Session.label ⟨scope, some (.ok r), copied⟩ := by
  obtain ⟨text, mode⟩ := r
  rw [resultText, h.trim]
  cases mode with
  | roundedValue => exact congrArg (· ++ text) (show approximately ++ " " = "≈ " from rfl)
  | _ => rfl

/-- The window **shows a session** with a count of places, waits for no calculation and keeps
variables. -/
structure Follows (d : Desk) (file : SettingsFile) (n : Int) (display : String)
    (t : Session) : Prop where
  display : d.window.display = display
  file : d.file = file
  deferring : d.deferring = false
  shift : d.shift = false
  busy : d.window.busy = false
  keepsScope : d.window.keepsScope = true
  isValid : t.scope.IsValid Operand.IsNumeric
  scope : d.window.scope = t.scope
  scopeLabel : showScope (.count n) t.scope = .ok d.window.scopeLabel
  resultLabel : d.window.resultLabel = t.label
  lastResult : d.window.lastResult = t.copied.getD ""
  copied : t.copied ≠ some ""

namespace Follows

variable {d : Desk} {file : SettingsFile} {n : Int} {display : String} {t : Session}
  (h : d.Follows file n display t)

include h

/-- The text in the input line is replaced. -/
theorem typed (text : String) :
    (d.onWindow fun w => { w with display := text }).Follows file n text t :=
  ⟨rfl, h.file, h.deferring, h.shift, h.busy, h.keepsScope, h.isValid, h.scope, h.scopeLabel,
    h.resultLabel, h.lastResult, h.copied⟩

/-- A **text is entered**: it is one more text of the session. -/
theorem enter (hn : 0 ≤ n) (hfile : file.get "decimal_places" = .ok (.whole n))
    (haccepts : d.accepts = true) :
    d.startCalculation.desk.Follows file n display (t.enter file (Text.trim display)) := by
  have hbegun : d.begun.file = file := h.file
  have hkeeps : d.begun.window.keepsScope = true := h.keepsScope
  have hjob : d.nextJob = ⟨Text.trim display, t.scope⟩ := by
    rw [nextJob, h.keepsScope, h.scope, h.display]
    rfl
  rw [startCalculation_of_accepts haccepts, h.deferring, if_neg Bool.false_ne_true, hjob]
  generalize Text.trim display = problem
  cases houtcome : (calculate file problem t.scope).outcome with
  | error r =>
      have hdesk := @desk_finishJob_report d.begun ⟨problem, t.scope⟩ r (hbegun ▸ houtcome)
      rw [Session.enter_of_report hn hfile h.isValid houtcome, hdesk]
      exact ⟨h.display, h.file, h.deferring, h.shift, rfl, h.keepsScope, h.isValid, h.scope,
        h.scopeLabel, rfl, h.lastResult, h.copied⟩
  | ok r =>
      have htrimmed := isTrimmed_of_result hn hfile h.isValid houtcome
      have hentered : t.enter file problem =
          ⟨(calculate file problem t.scope).scope, some (.ok r), some r.text⟩ := by
        simp only [Session.enter, houtcome]
      obtain ⟨text, htext, hdesk⟩ := @desk_finishJob_result d.begun ⟨problem, t.scope⟩ n hn
        (hbegun ▸ hfile) h.isValid r (hbegun ▸ houtcome) hkeeps
      rw [hbegun] at htext hdesk
      rw [hentered, hdesk]
      exact ⟨h.display, h.file, h.deferring, h.shift, rfl, h.keepsScope,
        isValid_calculate h.isValid, rfl, htext, resultText_eq_label htrimmed, htrimmed.trim,
        fun hempty => htrimmed.ne_empty (Option.some.inj hempty)⟩

/-- **Return is pressed**: the text in the input line is one more text, unless it is blank. -/
theorem startCalculation (hn : 0 ≤ n) (hfile : file.get "decimal_places" = .ok (.whole n)) :
    d.startCalculation.desk.Follows file n display
      (if !(Text.trim display).isEmpty then t.enter file (Text.trim display) else t) := by
  cases hblank : (Text.trim display).isEmpty with
  | true =>
      rw [startCalculation_of_blank (h.display ▸ hblank)]
      exact h
  | false => exact h.enter hn hfile (accepts_iff.mpr ⟨h.display ▸ hblank, h.busy⟩)

/-- A text that **ends in an error** changes neither the scope nor its label nor the last
result. -/
theorem kept_of_report (hn : 0 ≤ n) (hfile : file.get "decimal_places" = .ok (.whole n))
    {r : Report}
    (hr : (calculate file (Text.trim d.window.display) d.window.scope).outcome = .error r) :
    d.startCalculation.desk.window.scope = d.window.scope ∧
    d.startCalculation.desk.window.scopeLabel = d.window.scopeLabel ∧
    d.startCalculation.desk.window.lastResult = d.window.lastResult := by
  rw [h.display, h.scope] at hr
  have hentered := h.startCalculation hn hfile
  rw [Session.enter_of_report hn hfile h.isValid hr] at hentered
  obtain ⟨last, hentered⟩ : ∃ last, d.startCalculation.desk.Follows file n display
      { t with last := last } := by
    split at hentered
    · exact ⟨_, hentered⟩
    · exact ⟨t.last, hentered⟩
  exact ⟨hentered.scope.trans h.scope.symm,
    Except.ok.inj (hentered.scopeLabel.symm.trans h.scopeLabel),
    hentered.lastResult.trans h.lastResult.symm⟩

/-- The **clipboard button** copies the text of the last result, if there was one. -/
theorem clipboardButton :
    d.clipboardButton = { d with clipboard := t.copied.getD d.clipboard } := by
  have hcopies : ((d.window.setting "shift_to_copy").isSet && d.shift) = false := by
    rw [h.shift, Bool.and_false]
  rw [Desk.clipboardButton, hcopies, if_neg Bool.false_ne_true, h.lastResult]
  cases hcopied : t.copied with
  | none => rfl
  | some text =>
      have hne : text.isEmpty = false := by
        simpa [hcopied] using h.copied
      rw [Option.getD_some, hne, if_neg Bool.false_ne_true]
      rfl

/-- **Texts are entered** one after another. -/
theorem after (hn : 0 ≤ n) (hfile : file.get "decimal_places" = .ok (.whole n))
    {events : List WindowEvent} (hevents : ∀ e ∈ events, e.isEntry = true) :
    ∃ display', (d.after events).Follows file n display'
      ((problemsOf display events).foldl (Session.enter file) t) := by
  induction events generalizing d display t with
  | nil => exact ⟨display, h⟩
  | cons e rest ih =>
      have hrest : ∀ e ∈ rest, e.isEntry = true :=
        fun e he => hevents e (List.mem_cons_of_mem _ he)
      by_cases hreturn : e.isReturn = true
      · have hentered := ih (h.startCalculation hn hfile) hrest
        rw [after_cons, react_of_isReturn hreturn, problemsOf_return hreturn]
        split at hentered
        · rename_i hblank
          rw [if_pos hblank]
          exact hentered
        · rename_i hblank
          rw [if_neg hblank]
          exact hentered
      · cases e with
        | typed text => exact ih (h.typed text) hrest
        | _ => exact absurd (hevents _ List.mem_cons_self) hreturn

end Follows

/-- A new desk follows the empty session. -/
theorem follows_of_ofFiles {file : SettingsFile} {labels : Option String} {d : Desk} {n : Int}
    (h : Desk.ofFiles file labels = .ok d) (hkeeps : d.window.keepsScope = true) :
    d.Follows file n "" .empty := by
  obtain ⟨settings, -, rfl⟩ := Desk.eq_of_ofFiles h
  exact ⟨rfl, rfl, rfl, rfl, rfl, hkeeps, fun entry h => absurd h List.not_mem_nil, rfl,
    showScope_nil _, rfl, rfl, nofun⟩

end Desk

/-- **The window follows the entered texts.** With variables kept and a count of places, whatever
texts are typed and entered, the window shows what calculating them in turn comes to: the scope
they share, the label of it, the last answer, and the last result for the clipboard. A text that
ends in an error changes none of them but the answer. -/
theorem window_follows_session {file : SettingsFile} {labels : Option String} {d₀ : Desk}
    (h : Desk.ofFiles file labels = .ok d₀) (hkeeps : d₀.window.keepsScope = true) {n : Int}
    (hn : 0 ≤ n) (hfile : file.get "decimal_places" = .ok (.whole n)) {events : List WindowEvent}
    (hevents : ∀ e ∈ events, e.isEntry = true) :
    let d := d₀.after events
    let t := Session.ofTexts file (problemsOf "" events)
    d.window.scope = t.scope ∧
    showScope (.count n) t.scope = .ok d.window.scopeLabel ∧
    d.window.resultLabel = t.label ∧
    d.window.lastResult = t.copied.getD "" ∧
    (d.react (.press "📋")).desk = { d with clipboard := t.copied.getD d.clipboard } ∧
    ∀ e, e.isReturn = true → ∀ r,
      (calculate file (Text.trim d.window.display) d.window.scope).outcome = .error r →
      (d.react e).desk.window.scope = d.window.scope ∧
      (d.react e).desk.window.scopeLabel = d.window.scopeLabel ∧
      (d.react e).desk.window.lastResult = d.window.lastResult := by
  intro d t
  have hafter : ∃ display, d.Follows file n display t :=
    (Desk.follows_of_ofFiles h hkeeps).after hn hfile hevents
  obtain ⟨display, hfollows⟩ := hafter
  refine ⟨hfollows.scope, hfollows.scopeLabel, hfollows.resultLabel, hfollows.lastResult,
    hfollows.clipboardButton, fun e he r hr => ?_⟩
  rw [Desk.react_of_isReturn he]
  exact hfollows.kept_of_report hn hfile hr

/-- A solution, a blank text, a text that is no formula, and a value. -/
theorem window_follows_session_value :
    let events := ["x=1", " ", "x+", "x+1"].flatMap fun text => [WindowEvent.typed text, .enter]
    let t := Session.ofTexts ⟨none, true⟩ ["x=1", "x+", "x+1"]
    (Desk.plain.after events).window.scope = t.scope ∧
    showScope (.count 10) t.scope = .ok (Desk.plain.after events).window.scopeLabel ∧
    (Desk.plain.after events).window.resultLabel = "= 2" ∧
    ((Desk.plain.after events).react (.press "📋")).desk.clipboard = "2" := by
  intro events t
  have hproblems : problemsOf "" events = ["x=1", "x+", "x+1"] := by
    rw [problemsOf_typed]
    decide +kernel
  have hshown : t.label = "= 2" ∧ t.copied = some "2" := by decide +kernel
  obtain ⟨hscope, hscopeLabel, hresultLabel, -, hclipboard, -⟩ :=
    @window_follows_session _ _ _ Desk.ofFiles_none (by decide +kernel) 10 (by decide) rfl events
      (by decide +kernel)
  rw [hproblems] at hscope hscopeLabel hresultLabel hclipboard
  refine ⟨hscope, hscopeLabel, hresultLabel.trans hshown.1, ?_⟩
  rw [hclipboard]
  exact congrArg (Option.getD · (Desk.plain.after events).clipboard) hshown.2

end Argand
