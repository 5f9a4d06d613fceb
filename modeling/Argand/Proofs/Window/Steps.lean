import Argand.Proofs.Computation
import Argand.Window.Basic

/-!
# What events do to calculations and variables

Of all that a desk holds, only its status matters to calculations and variables: the scope and
its label, the settings, whether a calculation runs, the return button, the calculations that
were started and have not ended, and the settings file. An event changes the status in moves, one
after another. Moves are recorded in a history, from which it can be read off which calculations
were started and which have ended.

## Main definitions

* `Argand.Status`: what matters of a desk.
* `Argand.Ending`: a calculation that ends, and the desk at which it ends.
* `Argand.Move`, `Argand.Step`, `Argand.Steps`: the moves, and how they change the status.
* `Argand.Desk.after`, `Argand.Desk.history`: the desk after some events, and the moves made.
* `Argand.Status.IsSingle`: at most one calculation runs, and the window shows whether one does.

## Main results

* `Argand.Desk.startedIn_moves`: what an event starts.
* `Argand.Desk.status_finishJob`: what the end of a calculation changes.
* `Argand.Steps.keeps`: what every step keeps holds along a history.
* `Argand.steps_of_history`: the moves of a history lead from its first status to its last one.
-/

namespace Argand

/-! ### Status -/

/-- What **matters** of a desk to calculations and variables. -/
structure Status where
  scope : Scope Operand
  label : String
  settings : Settings
  busy : Bool
  button : String
  running : List Job
  file : SettingsFile

/-- The **status** of a desk. -/
def Desk.status (d : Desk) : Status :=
  ⟨d.window.scope, d.window.scopeLabel, d.window.settings, d.window.busy, d.window.enterButton,
    d.running, d.file⟩

/-- A setting of the window. -/
def Status.setting (s : Status) (key : String) : Json :=
  (Entries.get? s.settings key).getD .null

/-- Whether solved variables are kept. -/
def Status.keepsScope (s : Status) : Bool :=
  (s.setting "keep_scope").isSet

/-- Whether solved variables are forgotten when the settings dialog is closed. -/
def Status.forgets (s : Status) : Bool :=
  (s.setting "keep_scope").isUnset

/-- A scope shown with the places of the settings file. -/
def SettingsFile.scopeText (file : SettingsFile) (scope : Scope Operand) : Except Fault String := do
  showScope (.ofJson (← file.get "decimal_places")) scope

/-- The label once it was to show a scope: it stays as it is if the scope cannot be shown. -/
def Status.labelOf (s : Status) (scope : Scope Operand) : String :=
  match s.file.scopeText scope with
  | .ok text => text
  | .error _ => s.label

/-- The label of a scope that can be shown. -/
theorem Status.labelOf_eq {s : Status} {scope : Scope Operand} {text : String}
    (h : s.file.scopeText scope = .ok text) : s.labelOf scope = text := by
  rw [labelOf, h]

/-- The text of the return button. -/
def buttonOf (busy : Bool) : String :=
  if busy then busyButton else idleButton

/-- A calculation that **ends**, and the desk at which it ends. -/
structure Ending where
  desk : Desk
  job : Job

namespace Ending

/-- What came of the calculation. -/
def calculation (e : Ending) : Calculation :=
  calculate e.desk.file e.job.problem e.job.scope

/-- The scope of the window afterwards. -/
def scope (e : Ending) : Scope Operand :=
  match e.calculation.outcome with
  | .ok _ => if e.desk.window.keepsScope then e.calculation.scope else []
  | .error _ => e.desk.window.scope

/-- The label of the scope afterwards. -/
def label (e : Ending) : String :=
  match e.calculation.outcome with
  | .ok _ => e.desk.status.labelOf e.scope
  | .error _ => e.desk.window.scopeLabel

end Ending

/-! ### Moves -/

/-- A **move** of the status. -/
inductive Move where
  | replace (file : SettingsFile)
  | start (job : Job)
  | finish (ending : Ending)
  | forget
  | load (settings : Settings)

/-- The calculation that a move starts. -/
def Move.started? : Move → Option Job
  | start job => some job
  | _ => none

/-- The calculation that a move ends. -/
def Move.ending? : Move → Option Ending
  | finish ending => some ending
  | _ => none

/-- The calculations **started** in a history. -/
def startedIn (moves : List Move) : List Job :=
  moves.filterMap Move.started?

/-- The calculations that **ended** in a history. -/
def endingsIn (moves : List Move) : List Ending :=
  moves.filterMap Move.ending?

@[simp] theorem startedIn_append (ms ns : List Move) :
    startedIn (ms ++ ns) = startedIn ms ++ startedIn ns :=
  List.filterMap_append

@[simp] theorem endingsIn_append (ms ns : List Move) :
    endingsIn (ms ++ ns) = endingsIn ms ++ endingsIn ns :=
  List.filterMap_append

/-- How a move **changes the status**. -/
inductive Step : Status → Move → Status → Prop
  | replace {s : Status} (file : SettingsFile) : Step s (.replace file) { s with file := file }
  | start {s : Status} {job : Job} : s.busy = false →
      job.scope = (if s.keepsScope then s.scope else []) →
      Step s (.start job)
        { s with busy := true, button := busyButton, running := s.running ++ [job] }
  | finish {s : Status} {e : Ending} {rest : List Job} : s.running = e.job :: rest →
      e.desk.status = { s with running := rest } →
      Step s (.finish e)
        { s with busy := false, button := idleButton, running := rest, scope := e.scope,
                 label := e.label }
  | forget {s : Status} : Step s .forget { s with scope := [], label := s.labelOf [] }
  | load {s : Status} {settings : Settings} : s.file.all = .ok settings →
      Step s (.load settings)
        { s with
          settings := settings
          scope := if Status.forgets { s with settings := settings } then [] else s.scope
          label := if Status.forgets { s with settings := settings } then s.labelOf []
            else s.label }

/-- Several moves **in turn**. -/
inductive Steps : Status → List Move → Status → Prop
  | nil {s : Status} : Steps s [] s
  | cons {s t u : Status} {m : Move} {ms : List Move} :
      Step s m t → Steps t ms u → Steps s (m :: ms) u

/-- One move. -/
theorem Step.steps {s t : Status} {m : Move} (h : Step s m t) : Steps s [m] t :=
  .cons h .nil

/-- Moves after moves. -/
theorem Steps.append {s t u : Status} {ms ns : List Move} (h : Steps s ms t)
    (h' : Steps t ns u) : Steps s (ms ++ ns) u := by
  induction h with
  | nil => exact h'
  | cons hstep _ ih => exact .cons hstep (ih h')

/-- **What every step keeps** holds along a history. What is kept may speak of the moves made so
far. -/
theorem Steps.keeps {P : List Move → Status → Prop}
    (step : ∀ {done s m t}, Step s m t → P done s → P (done ++ [m]) t) {s t : Status}
    {ms : List Move} (h : Steps s ms t) (done : List Move) (hs : P done s) :
    P (done ++ ms) t := by
  induction h generalizing done with
  | nil => rwa [List.append_nil]
  | cons hstep _ ih =>
      rw [← List.singleton_append, ← List.append_assoc]
      exact ih _ (step hstep hs)

/-- Whether an event is the return key or the return button. -/
def WindowEvent.isReturn : WindowEvent → Bool
  | .enter => true
  | .press button => button = "⏎"
  | _ => false

/-! ### Reactions -/

namespace Desk

/-- The desk at which a calculation was started. -/
def begun (d : Desk) : Desk :=
  d.onWindow fun w => { w with busy := true, resultLabel := "..." }.withButton

/-- The calculation that may be started: of the text in the input line. -/
def nextJob (d : Desk) : Job :=
  ⟨Text.trim d.window.display, if d.window.keepsScope then d.window.scope else []⟩

/-- Whether a calculation may be started: there is a text, and none runs. -/
def accepts (d : Desk) : Bool :=
  !(Text.trim d.window.display).isEmpty && !d.window.busy

/-- The moves of the return button. -/
def startMoves (d : Desk) : List Move :=
  if d.accepts then
    .start d.nextJob :: (if d.deferring then [] else [.finish ⟨d.begun, d.nextJob⟩])
  else []

/-- The moves when calculations end in turn. -/
def finishMoves (d : Desk) : List Job → List Move
  | [] => []
  | job :: rest => .finish ⟨d, job⟩ :: finishMoves (d.finishJob job).desk rest

/-- The moves of closing the settings dialog. -/
def loadMoves (d : Desk) : List Move :=
  match d.file.all with
  | .ok settings => [.load settings]
  | .error _ => []

/-- The moves of the settings dialog. -/
def dialogMoves (d : Desk) (edits : List (Key × Edit)) : Leaving → List Move
  | .ok =>
    match Dialog.ofFile d.file d.labels with
    | .error _ => []
    | .ok dialog =>
      let p := (edits.foldl (fun dialog (key, e) => dialog.edit key e) dialog).ok d.file
      .replace p.file :: (if p.fault.isSome then [] else { d with file := p.file }.loadMoves)
  | .cancel | .close =>
    match Dialog.ofFile d.file d.labels with
    | .error _ => []
    | .ok _ => d.loadMoves

/-- The **moves** of an event. -/
def moves (d : Desk) : WindowEvent → List Move
  | .press button =>
    if button = "⏎" then d.startMoves else if button = "↺" then [.forget] else []
  | .enter => d.startMoves
  | .finish => finishMoves { d with running := [] } d.running
  | .settings edits leaving => d.dialogMoves edits leaving
  | .file file => [.replace file]
  | _ => []

/-- The desk **after** some events, whether or not reactions break off. -/
def after (d : Desk) (events : List WindowEvent) : Desk :=
  events.foldl (fun d e => (d.react e).desk) d

/-- The **moves made** in the course of some events. -/
def history (d : Desk) : List WindowEvent → List Move
  | [] => []
  | e :: rest => d.moves e ++ (d.react e).desk.history rest

@[simp] theorem after_cons (d : Desk) (e : WindowEvent) (events : List WindowEvent) :
    d.after (e :: events) = (d.react e).desk.after events := rfl

@[simp] theorem after_append (d : Desk) (before events : List WindowEvent) :
    d.after (before ++ events) = (d.after before).after events :=
  List.foldl_append

/-- A history in two parts. -/
theorem history_append (d : Desk) (before events : List WindowEvent) :
    d.history (before ++ events) = d.history before ++ (d.after before).history events := by
  induction before generalizing d with
  | nil => rfl
  | cons e rest ih => simp [history, ih]

/-! ### What an event starts -/

/-- The moves of the return button. -/
theorem startMoves_cases (d : Desk) :
    d.startMoves = [] ∨ d.startMoves = [.start d.nextJob] ∨
      d.startMoves = [.start d.nextJob, .finish ⟨d.begun, d.nextJob⟩] := by
  unfold startMoves
  cases d.accepts with
  | false => exact .inl rfl
  | true =>
      cases d.deferring with
      | true => exact .inr (.inl rfl)
      | false => exact .inr (.inr rfl)

/-- The moves of closing the settings dialog. -/
theorem loadMoves_cases (d : Desk) :
    d.loadMoves = [] ∨ ∃ settings, d.loadMoves = [.load settings] := by
  unfold loadMoves
  cases d.file.all with
  | error f => exact .inl rfl
  | ok settings => exact .inr ⟨settings, rfl⟩

/-- The moves of the **settings dialog**: it may replace the file, and then it may be closed. -/
theorem dialogMoves_cases (d : Desk) (edits : List (Key × Edit)) (leaving : Leaving) :
    ∃ replaced loaded, d.dialogMoves edits leaving = replaced ++ loaded ∧
      (replaced = [] ∨ ∃ dialog : Dialog, replaced = [.replace (dialog.ok d.file).file]) ∧
      (loaded = [] ∨ ∃ settings, loaded = [.load settings]) := by
  unfold dialogMoves
  cases Dialog.ofFile d.file d.labels with
  | error f => cases leaving <;> exact ⟨[], [], rfl, .inl rfl, .inl rfl⟩
  | ok dialog =>
      cases leaving with
      | ok =>
          refine ⟨_, _, List.singleton_append.symm, .inr ⟨_, rfl⟩, ?_⟩
          split
          · exact .inl rfl
          · exact loadMoves_cases _
      | cancel => exact ⟨[], _, rfl, .inl rfl, loadMoves_cases d⟩
      | close => exact ⟨[], _, rfl, .inl rfl, loadMoves_cases d⟩

/-- The return button **starts** the calculation of the text, if it starts one. -/
theorem startedIn_startMoves (d : Desk) :
    startedIn d.startMoves = if d.accepts then [d.nextJob] else [] := by
  unfold startMoves
  split
  · split <;> rfl
  · rfl

/-- Calculations that end start none. -/
theorem startedIn_finishMoves (d : Desk) (jobs : List Job) :
    startedIn (d.finishMoves jobs) = [] := by
  induction jobs generalizing d with
  | nil => rfl
  | cons job rest ih => exact ih _

/-- The settings dialog starts none. -/
theorem startedIn_dialogMoves (d : Desk) (edits : List (Key × Edit)) (leaving : Leaving) :
    startedIn (d.dialogMoves edits leaving) = [] := by
  obtain ⟨replaced, loaded, hmoves, hreplaced, hloaded⟩ := d.dialogMoves_cases edits leaving
  rw [hmoves, startedIn_append]
  obtain rfl | ⟨dialog, rfl⟩ := hreplaced <;> obtain rfl | ⟨settings, rfl⟩ := hloaded <;> rfl

/-- **What an event starts**: nothing, or the calculation of the text in the input line. -/
theorem startedIn_moves (d : Desk) (e : WindowEvent) :
    startedIn (d.moves e) = if e.isReturn && d.accepts then [d.nextJob] else [] := by
  cases e with
  | press button =>
      rw [moves, WindowEvent.isReturn]
      by_cases hreturn : button = "⏎"
      · rw [if_pos hreturn, decide_eq_true hreturn, Bool.true_and]
        exact startedIn_startMoves d
      · rw [if_neg hreturn, decide_eq_false hreturn, Bool.false_and, if_neg Bool.false_ne_true]
        split <;> rfl
  | enter =>
      rw [WindowEvent.isReturn, Bool.true_and]
      exact startedIn_startMoves d
  | finish => exact startedIn_finishMoves _ d.running
  | settings edits leaving => exact startedIn_dialogMoves d edits leaving
  | _ => rfl

/-! ### What reactions change -/

/-- The scope label is replaced if the scope can be shown. -/
theorem desk_showingScope (d : Desk) :
    d.showingScope.desk =
      d.onWindow fun w => { w with scopeLabel := d.status.labelOf d.window.scope } := by
  have htext : d.scopeText = d.file.scopeText d.window.scope := rfl
  have hlabel : d.status.labelOf d.window.scope =
      match d.scopeText with
      | .ok text => text
      | .error _ => d.window.scopeLabel := rfl
  unfold showingScope
  rw [hlabel]
  cases d.scopeText <;> rfl

/-- The status once a report was received. -/
theorem status_receiveReport (d : Desk) (r : Report) :
    (d.receiveReport r).desk.status = { d.status with busy := false, button := idleButton } := rfl

/-- The status once a result was received. -/
theorem status_receiveResult (d : Desk) (r : Result) (scope : Scope Operand) :
    (d.receiveResult r scope).desk.status =
      { d.status with
        busy := false, button := idleButton, scope := if d.window.keepsScope then scope else [],
        label := d.status.labelOf (if d.window.keepsScope then scope else []) } := by
  rw [receiveResult, desk_showingScope]
  rfl

/-- **The end of a calculation** changes the flag, the button, the scope and its label. -/
theorem status_finishJob (d : Desk) (job : Job) :
    (d.finishJob job).desk.status =
      { d.status with
        busy := false, button := idleButton, scope := Ending.scope ⟨d, job⟩,
        label := Ending.label ⟨d, job⟩ } := by
  simp only [finishJob, Ending.label, Ending.scope, Ending.calculation]
  cases (calculate d.file job.problem job.scope).outcome with
  | error report =>
      dsimp only
      split <;> rfl
  | ok result =>
      have hreceived :=
        status_receiveResult d result (calculate d.file job.problem job.scope).scope
      dsimp only
      split
      · exact hreceived
      · rw [status_receiveReport, hreceived]

/-- **Forgetting** the variables. -/
theorem status_forgotten (d : Desk) :
    ((d.onWindow fun w => { w with scope := [] }).showingScope).desk.status =
      { d.status with scope := [], label := d.status.labelOf [] } := by
  rw [desk_showingScope]
  rfl

/-- A reaction after one that may break off. -/
theorem desk_andThen (r : Reaction) (next : Desk → Reaction) :
    (r.andThen next).desk = if r.fault.isSome then r.desk else (next r.desk).desk := by
  unfold Reaction.andThen
  cases r.fault <;> rfl

/-- A calculation is started of a text, and only if none runs. -/
theorem accepts_iff {d : Desk} :
    d.accepts = true ↔
      (Text.trim d.window.display).isEmpty = false ∧ d.window.busy = false := by
  simp [accepts]

/-- Nothing happens to a **blank** text. -/
theorem startCalculation_of_blank {d : Desk}
    (h : (Text.trim d.window.display).isEmpty = true) : d.startCalculation = .quiet d := by
  rw [startCalculation]
  dsimp only
  rw [if_pos h]

/-- While a calculation runs **only a report is shown**. -/
theorem startCalculation_of_busy {d : Desk}
    (hblank : (Text.trim d.window.display).isEmpty = false) (hbusy : d.window.busy = true) :
    d.startCalculation =
      .showing d (reportBox d.window ⟨.busy, some (Text.trim d.window.display)⟩) := by
  rw [startCalculation]
  dsimp only
  rw [if_neg (by simp [hblank]), if_pos hbusy]

/-- A calculation that is not started changes nothing. -/
theorem desk_of_not_accepts {d : Desk} (h : ¬ d.accepts = true) : d.startCalculation.desk = d := by
  cases hblank : (Text.trim d.window.display).isEmpty with
  | true => rw [startCalculation_of_blank hblank, Reaction.quiet]
  | false =>
      cases hbusy : d.window.busy with
      | true => rw [startCalculation_of_busy hblank hbusy, Reaction.showing]
      | false => exact absurd (accepts_iff.mpr ⟨hblank, hbusy⟩) h

/-- A calculation is **started**. One that does not wait ends at once. -/
theorem startCalculation_of_accepts {d : Desk} (h : d.accepts = true) :
    d.startCalculation =
      if d.deferring then .quiet { d.begun with running := d.running ++ [d.nextJob] }
      else d.begun.finishJob d.nextJob := by
  obtain ⟨hblank, hbusy⟩ := accepts_iff.mp h
  rw [startCalculation]
  dsimp only
  rw [if_neg (by simp [hblank]), if_neg (by simp [hbusy])]
  rfl

/-- The style does not matter, if the return button shows whether a calculation runs. -/
theorem status_styled {r : Reaction} (h : r.desk.status.button = buttonOf r.desk.status.busy) :
    (r.andThen fun d => .quiet (d.onWindow Window.withStyle)).desk.status = r.desk.status := by
  rw [desk_andThen]
  split
  · rfl
  · show { r.desk.status with button := buttonOf r.desk.status.busy } = r.desk.status
    rw [← h]

/-- The clipboard does not matter. -/
theorem status_clipboardButton (d : Desk) : d.clipboardButton.status = d.status := by
  unfold clipboardButton
  split <;> split <;> rfl

/-! ### Single flight -/

end Desk

/-- At most one calculation runs, and the window **shows whether one does**. -/
structure Status.IsSingle (s : Status) : Prop where
  length_running : s.running.length = if s.busy then 1 else 0
  button_eq : s.button = buttonOf s.busy

namespace Status.IsSingle

/-- While no calculation runs, none waits to end. -/
theorem running_eq_nil {s : Status} (h : s.IsSingle) (hbusy : s.busy = false) :
    s.running = [] := by
  have hlength := h.length_running
  rw [hbusy] at hlength
  exact List.length_eq_zero_iff.mp hlength

/-- None runs or one does. -/
theorem running_cases {s : Status} (h : s.IsSingle) :
    s.running = [] ∨ ∃ job, s.running = [job] := by
  cases hbusy : s.busy with
  | false => exact .inl (h.running_eq_nil hbusy)
  | true =>
      have hlength := h.length_running
      rw [hbusy] at hlength
      exact .inr (List.length_eq_one_iff.mp hlength)

/-- **A step keeps** that at most one calculation runs. -/
theorem step {s t : Status} {m : Move} (hstep : Step s m t) (h : s.IsSingle) : t.IsSingle := by
  cases hstep with
  | replace file => exact ⟨h.length_running, h.button_eq⟩
  | start hbusy hscope =>
      refine ⟨?_, rfl⟩
      rw [h.running_eq_nil hbusy]
      rfl
  | @finish e rest hrunning hdesk =>
      refine ⟨?_, rfl⟩
      have hlength := h.length_running
      rw [hrunning, List.length_cons] at hlength
      show rest.length = 0
      split at hlength <;> omega
  | forget => exact ⟨h.length_running, h.button_eq⟩
  | load hall => exact ⟨h.length_running, h.button_eq⟩

/-- So does a history. -/
theorem steps {s t : Status} {ms : List Move} (hsteps : Steps s ms t) (h : s.IsSingle) :
    t.IsSingle :=
  hsteps.keeps (P := fun _ s => s.IsSingle) (fun hstep h => step hstep h) [] h

end Status.IsSingle

/-- A **new desk**. -/
theorem Desk.eq_of_ofFiles {file : SettingsFile} {labels : Option String} {d : Desk}
    (h : Desk.ofFiles file labels = .ok d) :
    ∃ settings, file.all = .ok settings ∧
      d = ⟨Window.ofSettings settings, file, labels, "", false, false, []⟩ := by
  obtain ⟨settings, hall, h⟩ := bind_eq_ok.mp h
  exact ⟨settings, hall, (pure_eq_ok.mp h).symm⟩

/-- The new desk when there are **no files**: all settings are the defaults. -/
def Desk.plain : Desk :=
  ⟨Window.ofSettings defaultSettings, ⟨none, true⟩, none, "", false, false, []⟩

theorem Desk.ofFiles_none : Desk.ofFiles ⟨none, true⟩ none = .ok Desk.plain := rfl

/-- A new desk has no calculations. -/
theorem running_of_ofFiles {file : SettingsFile} {labels : Option String} {d : Desk}
    (h : Desk.ofFiles file labels = .ok d) : d.status.running = [] := by
  obtain ⟨settings, -, rfl⟩ := Desk.eq_of_ofFiles h
  rfl

/-- A new desk is idle and shows it. -/
theorem isSingle_of_ofFiles {file : SettingsFile} {labels : Option String} {d : Desk}
    (h : Desk.ofFiles file labels = .ok d) : d.status.IsSingle := by
  obtain ⟨settings, -, rfl⟩ := Desk.eq_of_ofFiles h
  exact ⟨rfl, rfl⟩

/-! ### The moves of an event -/

namespace Desk

variable {d : Desk} (h : d.status.IsSingle)

include h

/-- Starting a calculation. One that does not wait ends at once. -/
theorem steps_start : Steps d.status d.startMoves d.startCalculation.desk.status := by
  rw [startMoves]
  by_cases haccepts : d.accepts = true
  · obtain ⟨hblank, hbusy⟩ := accepts_iff.mp haccepts
    have hstart : Step d.status (.start d.nextJob)
        { d.status with
          busy := true, button := busyButton, running := d.status.running ++ [d.nextJob] } :=
      .start hbusy rfl
    rw [if_pos haccepts, startCalculation_of_accepts haccepts]
    cases d.deferring with
    | true => exact hstart.steps
    | false =>
        have hnil : d.running = [] := h.running_eq_nil hbusy
        refine .cons hstart (Step.steps ?_)
        rw [if_neg Bool.false_ne_true, status_finishJob]
        have hbegun : d.begun.status =
            { d.status with busy := true, button := busyButton, running := [] } := by
          rw [← hnil]
          rfl
        have hrunning : d.status.running = [] := hnil
        rw [hrunning, hbegun]
        exact .finish rfl hbegun
  · rw [if_neg haccepts, desk_of_not_accepts haccepts]
    exact .nil

/-- Closing the settings dialog. -/
theorem steps_load : Steps d.status d.loadMoves d.dialogClosed.desk.status := by
  unfold loadMoves dialogClosed
  cases hall : d.file.all with
  | error f => exact .nil
  | ok settings =>
      refine Step.steps ?_
      have hload := Step.load (s := d.status) hall
      by_cases hforgets : Status.forgets { d.status with settings := settings } = true
      · have hunset : ((d.onWindow fun w => { w with settings := settings }).window.setting
            "keep_scope").isUnset = true := hforgets
        rw [if_pos hforgets, if_pos hforgets] at hload
        dsimp only
        rw [if_pos hunset, status_styled, status_forgotten]
        · exact hload
        · rw [status_forgotten]
          exact h.button_eq
      · have hkept : ¬ ((d.onWindow fun w => { w with settings := settings }).window.setting
            "keep_scope").isUnset = true := hforgets
        rw [if_neg hforgets, if_neg hforgets] at hload
        dsimp only
        rw [if_neg hkept, status_styled h.button_eq]
        exact hload

/-- The settings dialog. -/
theorem steps_dialog (edits : List (Key × Edit)) (leaving : Leaving) :
    Steps d.status (d.dialogMoves edits leaving) (d.settingsDialog edits leaving).desk.status := by
  unfold dialogMoves settingsDialog
  cases hdialog : Dialog.ofFile d.file d.labels with
  | error f => cases leaving <;> exact .nil
  | ok dialog =>
      dsimp only
      rw [desk_andThen]
      cases leaving with
      | cancel => exact steps_load h
      | close => exact steps_load h
      | ok =>
          dsimp only
          generalize Dialog.ok _ _ = p
          refine .cons (.replace p.file) ?_
          split
          · exact .nil
          · exact steps_load (d := { d with file := p.file }) (h.step (.replace p.file))

omit h in
/-- When the calculation ends that runs alone. -/
theorem desk_finishAll {job : Job} (hrunning : d.running = [job]) :
    d.finishAll.desk = ({ d with running := [] }.finishJob job).desk := by
  rw [finishAll, hrunning]
  rfl

omit h in
/-- When no calculation runs that could end. -/
theorem desk_finishAll_of_idle (hrunning : d.running = []) : d.finishAll.desk = d := by
  rw [finishAll, hrunning]
  show { d with running := [] } = d
  rw [← hrunning]

/-- No calculation runs once all have ended. -/
theorem running_finishAll : d.finishAll.desk.running = [] := by
  obtain hrunning | ⟨job, hrunning⟩ := h.running_cases
  · rw [desk_finishAll_of_idle hrunning]
    exact hrunning
  · rw [desk_finishAll hrunning]
    exact congrArg Status.running (status_finishJob _ job)

/-- The end of the running calculation, if there is one. -/
theorem steps_finish : Steps d.status (d.moves .finish) d.finishAll.desk.status := by
  obtain hrunning | ⟨job, hrunning⟩ := h.running_cases
  · rw [desk_finishAll_of_idle hrunning, moves, show d.running = [] from hrunning]
    exact .nil
  · rw [desk_finishAll hrunning, moves, show d.running = [job] from hrunning, status_finishJob]
    exact Step.steps (.finish hrunning rfl)

/-- Buttons. -/
theorem steps_press (button : String) :
    Steps d.status (d.moves (.press button)) (d.press button).desk.status := by
  unfold press
  split
  · rw [moves, if_pos rfl]
    exact steps_start h
  · rw [moves, if_neg (by decide), if_neg (by decide), Reaction.quiet, status_clipboardButton]
    exact .nil
  · rw [moves, if_neg (by decide), if_pos rfl, status_forgotten]
    exact Step.steps .forget
  · rw [moves, if_neg (by decide), if_neg (by decide)]
    exact .nil
  · rw [moves, if_neg (by decide), if_neg (by decide)]
    exact .nil
  · rename_i hstart _ hforget _ _
    rw [moves, if_neg hstart, if_neg hforget]
    exact .nil

/-- **The moves of an event** lead to the status after it. -/
theorem steps_react (e : WindowEvent) : Steps d.status (d.moves e) (d.react e).desk.status := by
  cases e with
  | press button => exact steps_press h button
  | enter => exact steps_start h
  | finish => exact steps_finish h
  | settings edits leaving => exact steps_dialog h edits leaving
  | file file => exact Step.steps (.replace file)
  | _ => exact .nil

end Desk

/-- **The moves of a history** lead from its first status to its last one. -/
theorem steps_of_history {d : Desk} (h : d.status.IsSingle) (events : List WindowEvent) :
    Steps d.status (d.history events) (d.after events).status := by
  induction events generalizing d with
  | nil => exact .nil
  | cons e rest ih =>
      have hreact := Desk.steps_react h e
      exact hreact.append (ih (h.steps hreact))

end Argand
