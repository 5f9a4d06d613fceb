import Argand.Session
import Argand.Window.Dialog

/-!
# The calculator window

The window has an input line, a label for the result, a label for the solved variables, and
buttons. A calculation that is started works on its own copy of the scope; while it runs no
other can be started, and when it ends its result and its scope are taken over. Everything the
window reacts to is an event, and everything it does in reaction is data.

## Main definitions

* `Argand.Window`: the state of the window.
* `Argand.Desk`: the window and what is around it.
* `Argand.WindowEvent`: the events.
* `Argand.Reaction`: the desk afterwards, the boxes shown, and a fault if the reaction broke off.
* `Argand.Desk.react`: the reaction to an event.
-/

namespace Argand

/-! ### State -/

/-- A **started calculation**: the text and the scope it works on. -/
structure Job where
  problem : String
  scope : Scope Operand

/-- The state of the **window**. -/
structure Window where
  display : String
  resultLabel : String
  scopeLabel : String
  lastResult : String
  scope : Scope Operand
  /-- The settings as last loaded. -/
  settings : Settings
  busy : Bool
  enterButton : String
  dark : Bool

/-- The window and what is **around** it. -/
structure Desk where
  window : Window
  file : SettingsFile
  /-- The text of the file of labels. -/
  labels : Option String
  clipboard : String
  shift : Bool
  /-- Whether started calculations wait. -/
  deferring : Bool
  running : List Job

/-- What the window **does** in reaction to an event. -/
structure Reaction where
  desk : Desk
  boxes : List Box
  notes : List (Note Operand)
  dialog : Option Dialog
  /-- The fault that broke the reaction off, if one did. -/
  fault : Option Fault

namespace Reaction

/-- The desk changes and nothing else happens. -/
def quiet (d : Desk) : Reaction :=
  ⟨d, [], [], none, none⟩

/-- A box is shown. -/
def showing (d : Desk) (b : Box) : Reaction :=
  ⟨d, [b], [], none, none⟩

/-- The reaction breaks off. -/
def broken (d : Desk) (f : Fault) : Reaction :=
  ⟨d, [], [], none, some f⟩

/-- One reaction after another; nothing follows one that broke off. -/
def andThen (r : Reaction) (next : Desk → Reaction) : Reaction :=
  match r.fault with
  | some _ => r
  | none =>
    let s := next r.desk
    ⟨s.desk, r.boxes ++ s.boxes, r.notes ++ s.notes, s.dialog.orElse fun _ => r.dialog, s.fault⟩

end Reaction

/-! ### Buttons and labels -/

/-- The text of the return button while idle. -/
def idleButton : String := "⏎"

/-- The text of the return button while a calculation runs. -/
def busyButton : String := "X"

namespace Window

/-- A setting of the window. -/
def setting (w : Window) (key : String) : Json :=
  (Entries.get? w.settings key).getD .null

/-- Whether solved variables are kept. -/
def keepsScope (w : Window) : Bool :=
  (w.setting "keep_scope").isSet

/-- The return button shows whether a calculation runs. -/
def withButton (w : Window) : Window :=
  { w with enterButton := if w.busy then busyButton else idleButton }

/-- The style follows the settings. -/
def withStyle (w : Window) : Window :=
  { w with dark := isDark w.settings }.withButton

/-- The window when it is **opened**. -/
def ofSettings (settings : Settings) : Window :=
  { display := "", resultLabel := "", scopeLabel := "", lastResult := "", scope := [],
    settings := settings, busy := false, enterButton := idleButton, dark := false : Window
    }.withStyle

end Window

namespace Desk

/-- The desk with its window changed. -/
def onWindow (d : Desk) (f : Window → Window) : Desk :=
  { d with window := f d.window }

/-- The desk with a new window on some files. -/
def ofFiles (file : SettingsFile) (labels : Option String) : Except Fault Desk := do
  let settings ← file.all
  return ⟨Window.ofSettings settings, file, labels, "", false, false, []⟩

/-- The text of the scope label, with the places of the settings file. -/
def scopeText (d : Desk) : Except Fault String := do
  showScope (.ofJson (← d.file.get "decimal_places")) d.window.scope

/-- The **scope label** shows the scope. -/
def showingScope (d : Desk) : Reaction :=
  match d.scopeText with
  | .ok text => .quiet (d.onWindow fun w => { w with scopeLabel := text })
  | .error f => .broken d f

/-! ### Calculations -/

/-- The box of a report. -/
def reportBox (w : Window) (r : Report) : Box :=
  let code := r.fault.code?.getD "9999"
  .calculation
    ("Error " ++ code ++ ": " ++ (Entries.get? codeTexts code).getD "Unknown error")
    ("Details: " ++ r.fault.message ++ "\nEquation: " ++ r.equation.getD "None")
    (isDark w.settings)

/-- A calculation **ended** with a report. -/
def receiveReport (d : Desk) (r : Report) : Reaction :=
  let d := d.onWindow fun w => { w with busy := false, resultLabel := "" }.withButton
  .showing d (reportBox d.window r)

/-- The result label of a result. -/
def resultText (r : Result) : String :=
  let text := Text.trim r.text
  match r.mode with
  | .roundedSolution | .exactSolution => text
  | .roundedValue => approximately ++ " " ++ text
  | .exactValue => "= " ++ text

/-- A calculation **ended** with a result and the scope it left. -/
def receiveResult (d : Desk) (r : Result) (scope : Scope Operand) : Reaction :=
  showingScope <| d.onWindow fun w =>
    { w with
      busy := false
      lastResult := Text.trim r.text
      resultLabel := resultText r
      scope := if w.keepsScope then scope else [] }.withButton

/-- The report of a fault that is not one of a calculation itself. -/
def crashReport (problem : String) (f : Fault) : Report :=
  if f.isOwn then ⟨f, none⟩ else ⟨.unexpected ("Unexpected crash: " ++ f.message), some problem⟩

/-- A started calculation is carried out and **ends**. If its result cannot be taken over, a
report of that follows. -/
def finishJob (d : Desk) (job : Job) : Reaction :=
  let c := calculate d.file job.problem job.scope
  let ended :=
    match c.outcome with
    | .ok result =>
      let received := d.receiveResult result c.scope
      match received.fault with
      | none => received
      | some f => received.desk.receiveReport (crashReport job.problem f)
    | .error report =>
      if report.fault.isOwn then d.receiveReport report
      else d.receiveReport (crashReport job.problem report.fault)
  { ended with notes := c.notes }

/-- All running calculations **end**, in the order in which they were started. -/
def finishAll (d : Desk) : Reaction :=
  d.running.foldl (fun r job => r.andThen (·.finishJob job)) (.quiet { d with running := [] })

/-- A calculation of the entered text is **started**, unless the text is blank or another one is
running. -/
def startCalculation (d : Desk) : Reaction :=
  let w := d.window
  let problem := Text.trim w.display
  if problem.isEmpty then .quiet d
  else if w.busy then .showing d (reportBox w ⟨.busy, some problem⟩)
  else
    let job : Job := ⟨problem, if w.keepsScope then w.scope else []⟩
    let d := d.onWindow fun w => { w with busy := true, resultLabel := "..." }.withButton
    if d.deferring then .quiet { d with running := d.running ++ [job] }
    else d.finishJob job

/-! ### Buttons -/

/-- The clipboard button: the last result is copied. With the setting for it and the shift key
held, the clipboard is pasted instead. -/
def clipboardButton (d : Desk) : Desk :=
  if (d.window.setting "shift_to_copy").isSet && d.shift then
    if d.clipboard.isEmpty then d
    else d.onWindow fun w => { w with display := w.display ++ Text.trim d.clipboard }
  else if d.window.lastResult.isEmpty then d
  else { d with clipboard := d.window.lastResult }

/-- A **button** is pressed. -/
def press (d : Desk) (button : String) : Reaction :=
  match button with
  | "⏎" => d.startCalculation
  | "📋" => .quiet d.clipboardButton
  | "↺" => (d.onWindow fun w => { w with scope := [] }).showingScope
  | "<" =>
    .quiet (d.onWindow fun w =>
      { w with display := String.ofList w.display.toList.dropLast })
  | "C" => .quiet (d.onWindow fun w => { w with display := "", resultLabel := "" })
  | text => .quiet (d.onWindow fun w => { w with display := w.display ++ text })

/-! ### Settings -/

/-- How the user leaves the settings dialog. -/
inductive Leaving where
  | ok
  | cancel
  | close
deriving DecidableEq, Repr

/-- The dialog is closed: the settings are loaded again. If solved variables are not kept they
are forgotten. -/
def dialogClosed (d : Desk) : Reaction :=
  match d.file.all with
  | .error f => .broken d f
  | .ok settings =>
    let d := d.onWindow fun w => { w with settings := settings }
    let forgotten : Reaction :=
      if (d.window.setting "keep_scope").isUnset then
        (d.onWindow fun w => { w with scope := [] }).showingScope
      else .quiet d
    forgotten.andThen fun d => .quiet (d.onWindow Window.withStyle)

/-- The **settings dialog** is opened, edited and left. -/
def settingsDialog (d : Desk) (edits : List (Key × Edit)) (leaving : Leaving) : Reaction :=
  match Dialog.ofFile d.file d.labels with
  | .error f => .broken d f
  | .ok dialog =>
    let dialog := edits.foldl (fun dialog (key, e) => dialog.edit key e) dialog
    let left : Reaction :=
      match leaving with
      | .ok =>
        let p := dialog.ok d.file
        ⟨{ d with file := p.file }, p.boxes, [], some p.dialog, p.fault⟩
      | .cancel => ⟨d, [], [], some dialog.cancel, none⟩
      | .close => ⟨d, [], [], some dialog, none⟩
    left.andThen dialogClosed

end Desk

/-! ### Events -/

/-- What the window **reacts** to. -/
inductive WindowEvent where
  | press (button : String)
  | typed (text : String)
  | enter
  /-- The running calculations end. -/
  | finish
  | settings (edits : List (Key × Edit)) (leaving : Desk.Leaving)
  | shift (held : Bool)
  | clipboard (text : String)
  /-- From now on started calculations wait, or do not. -/
  | defer (deferring : Bool)
  | file (file : SettingsFile)
  | labels (text : Option String)
deriving Repr

/-- The **reaction** to an event. -/
def Desk.react (d : Desk) : WindowEvent → Reaction
  | .press button => d.press button
  | .typed text => .quiet (d.onWindow fun w => { w with display := text })
  | .enter => d.startCalculation
  | .finish => d.finishAll
  | .settings edits leaving => d.settingsDialog edits leaving
  | .shift held => .quiet { d with shift := held }
  | .clipboard text => .quiet { d with clipboard := text }
  | .defer deferring => .quiet { d with deferring := deferring }
  | .file file => .quiet { d with file := file }
  | .labels text => .quiet { d with labels := text }

/-- The reaction to **several** events in turn. -/
def Desk.reactAll (d : Desk) (events : List WindowEvent) : Reaction :=
  events.foldl (fun r e => r.andThen (·.react e)) (.quiet d)

end Argand
