import Argand.Settings

/-!
# The settings dialog

The dialog shows a check box for every flag and a field for every whole number among the
settings as they are when it is opened; other settings have no control. Pressing OK goes through
the controls in order and takes over their states, up to the first field that holds no
acceptable number. If all fields are acceptable the settings are saved and the dialog is closed.

## Main definitions

* `Argand.Control`: a check box or a field.
* `Argand.Box`: a message box.
* `Argand.Dialog`: the dialog, with `Dialog.ofFile`, `edit`, `ok` and `cancel`.
-/

namespace Argand

/-- A **message box**. -/
inductive Box where
  | calculation (text info : String) (dark : Bool)
  | settings (title text : String)
deriving DecidableEq, Repr

/-- A **control** of the dialog. -/
inductive Control where
  | flag (label : Json) (checked : Bool)
  /-- A field: the setting as it was, and what is written in the field. -/
  | field (shown : String) (text : String)
deriving Repr

/-- An **edit** of a control. -/
inductive Edit where
  | check (checked : Bool)
  | write (text : String)
deriving DecidableEq, Repr

/-- A control after an edit; an edit of the wrong kind does nothing. -/
def Control.edited : Control → Edit → Control
  | flag label _, .check checked => flag label checked
  | field shown _, .write text => field shown text
  | c, _ => c

/-- What a control shows: its label, or the setting as it was. -/
def Control.shown : Control → Json
  | flag label _ => label
  | field shown _ => .text shown

/-- How the dialog was closed. -/
inductive Closing where
  | accepted
  | rejected
deriving DecidableEq, Repr

/-- The **settings dialog**. -/
structure Dialog where
  /-- The settings as they would be saved. -/
  settings : Settings
  controls : List (Key × Control)
  dark : Bool
  closing : Option Closing
deriving Repr

/-- Whether the dark style is set. -/
def isDark (settings : Settings) : Bool :=
  ((Entries.get? settings "darkmode").getD .null).isSet

/-- The smallest accepted value of a whole-number setting. -/
def minimumOf : Key → Int
  | .text "decimal_places" => 2
  | .text "max_depth" => 10
  | _ => 0

namespace Dialog

/-- The controls for some settings. -/
def controlsFor (labels : Json) : Settings → Except Fault (List (Key × Control))
  | [] => .ok []
  | (key, v) :: rest => do
    let label ← labelIn labels key key.toJson
    let others ← controlsFor labels rest
    match v with
    | .truth b => return (key, .flag label b) :: others
    | .whole n => return (key, .field (toString n) "") :: others
    | _ => return others

/-- The dialog **opened** on the settings of a file. -/
def ofFile (file : SettingsFile) (labels : Option String) : Except Fault Dialog := do
  let settings ← file.all
  let labels ← allLabels labels
  let controls ← controlsFor labels settings
  return ⟨settings, controls, isDark settings, none⟩

/-- The dialog after an edit of a control. -/
def edit (d : Dialog) (key : Key) (e : Edit) : Dialog :=
  { d with controls := d.controls.map fun (k, c) => (k, if k == key then c.edited e else c) }

/-- The number in a field: a whole number that is not too small. -/
def fieldValue (key : Key) (text : String) : Except Fault Int := do
  let n ← Text.readWhole text
  let minimum := minimumOf key
  if n < minimum then throw (.belowMinimum n minimum)
  return n

/-- The settings after the controls' states are taken over, and the key and fault of the first
field that was not acceptable. A blank field leaves its setting as it is. -/
def takeOver (settings : Settings) :
    List (Key × Control) → Settings × Option (Key × Fault)
  | [] => (settings, none)
  | (key, .flag _ checked) :: rest => takeOver (Entries.insert settings key (.truth checked)) rest
  | (key, .field _ text) :: rest =>
    let text := Text.trim text
    if text.isEmpty then takeOver settings rest
    else
      match fieldValue key text with
      | .ok n => takeOver (Entries.insert settings key (.whole n)) rest
      | .error f => (settings, some (key, f))

/-- The box for a field that was not acceptable. -/
def refusalBox (key : Key) (f : Fault) : Box :=
  .settings "Invalid Input:"
    ("Error 4501: " ++ ((Entries.get? codeTexts "4501").getD "") ++ key.shown ++ "\n\n" ++
      f.message ++ "\n\nPlease correct your input.")

/-- The box for settings that could not be saved. -/
def unsavedBox : Box :=
  .settings "Error" "Settings could not be saved (error in config_manager)."

/-- What pressing a button of the dialog leads to. -/
structure Pressed where
  dialog : Dialog
  file : SettingsFile
  boxes : List Box
  /-- A fault of writing that no box is shown for. -/
  fault : Option Fault

/-- **OK** is pressed. -/
def ok (d : Dialog) (file : SettingsFile) : Pressed :=
  let (settings, refused) := takeOver d.settings d.controls
  let d := { d with settings := settings }
  match refused with
  | some (key, f) => ⟨d, file, [refusalBox key f], none⟩
  | none =>
    match file.save settings with
    | (file, .ok []) => ⟨d, file, [unsavedBox], none⟩
    | (file, .ok _) => ⟨{ d with closing := some .accepted }, file, [], none⟩
    | (file, .error f) => ⟨d, file, [], some f⟩

/-- **Cancel** is pressed. -/
def cancel (d : Dialog) : Dialog :=
  { d with closing := some .rejected }

end Dialog

end Argand
