import Argand.Expr.Grammar
import Argand.Json.Reader
import Argand.Settings.Key

/-!
# Settings

The settings are a record kept as text in a file. A missing file, or one that does not hold
structured text, counts as an empty record; a setting that is not there has its default value.
A file may also hold something other than a record. Then no single setting can be read, while
all settings together are the defaults overlaid with its pairs, if it is a list of pairs; the
keys of such pairs need not be texts.

## Main definitions

* `Argand.defaultSettings`: the defaults.
* `Argand.SettingsFile`: the text of the file, and whether it can be written.
* `Argand.SettingsFile.get`, `all`, `save`: one setting, all settings, and writing them.
* `Argand.describeSetting`: the label of a setting, from the file of labels.
* `Argand.DepthLimit.ofSetting`: the depth limit that a setting gives.
-/

namespace Argand

/-- The **default** settings. -/
def defaultSettings : Settings :=
  [ ("decimal_places", .whole 10),
    ("darkmode", .truth false),
    ("shift_to_copy", .truth true),
    ("keep_scope", .truth true),
    ("debug", .truth false),
    ("max_depth", .whole 120) ]

/-- The settings file. -/
structure SettingsFile where
  text : Option String
  /-- Whether its directory is there. -/
  inDirectory : Bool
deriving Repr, DecidableEq

/-- The settings file as it comes with the program. -/
def SettingsFile.shipped : SettingsFile :=
  ⟨some (Json.draft Json.Layout.indented (Settings.toJson defaultSettings)).1, true⟩

/-- The value in a text, if there is a text and it has one. -/
def valueOf (text : Option String) : Except Fault (Option Json) :=
  match text with
  | some s => Json.read s
  | none => .ok none

/-! ### Pairs -/

/-- The entry given by the parts of a pair at an index. -/
def pairOf (index : Nat) : List Json → Except Fault (Key × Json)
  | [k, v] => return (← Key.ofJson k, v)
  | parts => .error (.notAPair index parts.length)

/-- The entry given by a value at an index of a list of pairs. A text counts as its characters
and a record as its keys. -/
def entryOf (index : Nat) : Json → Except Fault (Key × Json)
  | .list parts => pairOf index parts
  | .text s => pairOf index (s.toList.map fun c => .text c.toString)
  | .record entries => pairOf index (entries.map fun (k, _) => .text k)
  | _ => .error (.notASequence index)

/-- The entries given by a list of pairs. -/
def entriesOf : Nat → List Json → Except Fault Settings
  | _, [] => .ok []
  | index, v :: rest => do
    let entry ← entryOf index v
    return entry :: (← entriesOf (index + 1) rest)

/-- Settings overlaid with what a settings file holds. -/
def overlaidWith (below : Settings) : Json → Except Fault Settings
  | .record entries => .ok (Entries.overlay below (Settings.ofEntries entries))
  | .list items => (entriesOf 0 items).map (Entries.overlay below)
  | .text s =>
    (entriesOf 0 (s.toList.map fun c => .text c.toString)).map (Entries.overlay below)
  | v => .error (.notIterable v.kind)

/-! ### Reading and writing -/

namespace SettingsFile

/-- What the file holds; an empty record if it is missing or not structured text. -/
def value (f : SettingsFile) : Except Fault Json := do
  return (← valueOf f.text).getD (.record [])

/-- **One setting**: its value in the file, else its default, else zero. -/
def get (f : SettingsFile) (key : Key) : Except Fault Json := do
  match ← f.value with
  | .record entries =>
    return (Entries.get? (Settings.ofEntries entries) key).getD
      ((Entries.get? defaultSettings key).getD (.whole 0))
  | v => throw (.noMember v.kind "get")

/-- **All settings**: the defaults overlaid with what the file holds. -/
def all (f : SettingsFile) : Except Fault Settings := do
  overlaidWith defaultSettings (← f.value)

/-- Settings **saved**: the file afterwards, and the settings if all of them were written.
Without a directory nothing is written; at a value without written form writing stops. In both
cases no settings come back. -/
def save (f : SettingsFile) (settings : Settings) : SettingsFile × Except Fault Settings :=
  if !f.inDirectory then (f, .ok [])
  else
    let (text, fault) := Json.draft Json.Layout.indented settings.toJson
    let f := { f with text := some text }
    match fault with
    | none => (f, .ok settings)
    | some fault => (f, if fault.faultClass = .wrongKind then .ok [] else .error fault)

end SettingsFile

/-! ### Labels -/

/-- The labels as they come with the program. -/
def shippedLabels : String :=
  (Json.draft Json.Layout.indented (.record
    [ ("decimal_places", .text "Decimal places"),
      ("darkmode", .text "Dark mode"),
      ("shift_to_copy", .text "Shift + clipboard button pastes instead of copying"),
      ("keep_scope", .text "Keep solved variables for the next equation"),
      ("debug", .text "Print debug output to the console"),
      ("max_depth", .text "Maximum nesting depth") ])).1

/-- All labels, from the text of the file of labels. -/
def allLabels (labels : Option String) : Except Fault Json := do
  return (← valueOf labels).getD (.record [])

/-- The value under a key in what the file of labels holds. -/
def labelIn (held : Json) (key : Key) (default : Json) : Except Fault Json :=
  match held with
  | .record entries => .ok ((Entries.get? (Settings.ofEntries entries) key).getD default)
  | v => .error (.noMember v.kind "get")

/-- The **label** of a setting, zero if it has none. Without a readable file every label is an
empty record. -/
def describeSetting (labels : Option String) (key : Key) : Except Fault Json := do
  match ← valueOf labels with
  | none => return .record []
  | some held => labelIn held key (.whole 0)

/-! ### The depth limit -/

/-- The depth limit when none is set. -/
def defaultDepth : Int := 120

/-- The limit that a value gives. A float counts with its fraction in the fault only, and a
value that is no number is a fault wherever formulas nest. -/
def DepthLimit.ofJson : Json → DepthLimit
  | .whole n => .ofInt n
  | .truth b => ⟨some (if b then 1 else 0), .tooDeep (Json.truth b).describe⟩
  | .real x =>
    let fault := Fault.tooDeep (floatText x)
    if x.isNaN || (x.isInf && 0 < x) then ⟨none, fault⟩
    else if x.isInf then ⟨some (-1), fault⟩
    else
      let (n, d) := (Magnitude.ofFloat x).scaled 0
      let signed : Int := if isNegative x then -(n : Int) else n
      ⟨some (signed.fdiv d), fault⟩
  | v => ⟨some 0, .notComparable v.kind⟩

/-- The **depth limit** that a setting gives; a void one gives the default. -/
def DepthLimit.ofSetting (v : Json) : DepthLimit :=
  if v.isVoid then .ofInt defaultDepth else .ofJson v

/-- The depth limit of the settings. -/
def SettingsFile.depthLimit (f : SettingsFile) : Except Fault DepthLimit :=
  return .ofSetting (← f.get "max_depth")

end Argand
