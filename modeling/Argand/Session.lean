import Argand.Answer
import Argand.Display
import Argand.Settings

/-!
# Sessions

A session answers entered texts one after another. Solutions are kept in its scope, so that a
later text may use them.

## Main definitions

* `Argand.Result`: the shown answer to a text.
* `Argand.Calculation`: result or report, the scope afterwards, and the notes.
* `Argand.Scope.boundAnew`: the names that are bound anew.
* `Argand.calculate`: one text.
-/

namespace Argand

/-- The **mode** of a result. -/
inductive Mode where
  | roundedSolution
  | exactSolution
  | roundedValue
  | exactValue
deriving DecidableEq, Repr

/-- The number of a mode. -/
def Mode.number : Mode → Nat
  | roundedSolution => 1
  | exactSolution => 2
  | roundedValue => 3
  | exactValue => 4

/-- The sign of an equality that holds only up to rounding. -/
def approximately : String := "≈"

/-- The **shown answer** to a text. -/
structure Result where
  text : String
  mode : Mode
deriving DecidableEq, Repr

/-- The line that shows what a name is bound to. -/
def Shown.line (name : String) (shown : Shown) : String :=
  name ++ " " ++ (if shown.rounded then approximately else "=") ++ " " ++ shown.text

/-- Shown names, a line for each; they count as rounded if one of them is. -/
def Result.ofNames (shown : List (String × Shown)) : Result :=
  ⟨"\n".intercalate (shown.map fun (name, s) => s.line name),
    if shown.any (·.2.rounded) then .roundedSolution else .exactSolution⟩

/-- A shown value. -/
def Result.ofValue (shown : Shown) : Result :=
  ⟨shown.text, if shown.rounded then .roundedValue else .exactValue⟩

/-- What came of **calculating** a text. -/
structure Calculation where
  outcome : Except Report Result
  scope : Scope Operand
  notes : List (Note Operand)

/-- A fault as reported for an entered text. A plain mishap is reported as unexpected. -/
def Report.ofFault (problem : String) (f : Fault) : Report :=
  ⟨if f.isOwn then f else .unexpected (Text.trim f.message), some problem⟩

/-- The places of the settings. -/
def placesOf (settings : Settings) : Places :=
  .ofJson ((Entries.get? settings "decimal_places").getD .null)

/-- The names that are **bound anew** between two scopes: what they are bound to is not what they
were bound to before. Bindings are compared part by part. Whether equal things are kept in one place
makes no difference, as a name that is not bound anew keeps the very thing it is bound to, and one
that is had no value. -/
def Scope.boundAnew (before after : Scope Operand) : List String :=
  (after.map (·.1)).eraseDups.filter fun name => Entries.get? after name ≠ Entries.get? before name

/-- An answer shown, given the scopes before and after it. A solution is not looked at: it is shown
as the names that are bound anew. -/
def Answer.shown (places : Places) (before after : Scope Operand) :
    Answer Operand → Except Fault Result
  | .value v => (showValue places v).map Result.ofValue
  | .solution _ => do
    let shown ← (Scope.boundAnew before after).mapM fun name => do
      return (name, ← showBinding places (Entries.get? after name).join)
    return .ofNames shown

/-- What comes of a text that was **resolved** in a scope, with the settings of a file. A fault of
the settings themselves is reported as it is; all others belong to the text. A solution stays in the
scope even if it cannot be shown. -/
def Calculation.ofResolution (file : SettingsFile) (problem : String) (before : Scope Operand)
    (resolved : Resolution Operand) : Calculation :=
  match file.all with
  | .error f => ⟨.error ⟨f, none⟩, before, []⟩
  | .ok settings =>
    let outcome :=
      match resolved.outcome with
      | .error f => .error (.ofFault problem f)
      | .ok a =>
        (a.shown (placesOf settings) before resolved.scope).mapError (.ofFault problem)
    ⟨outcome, resolved.scope, resolved.notes⟩

/-- One entered text **calculated** in a scope. -/
def calculate (file : SettingsFile) (problem : String) (scope : Scope Operand) : Calculation :=
  .ofResolution file problem scope (resolve calculator file.depthLimit problem scope)

/-- One entered text calculated **on a stack** that holds the calls for its answer or does not. -/
def calculateOn (holds : Bool) (file : SettingsFile) (problem : String) (scope : Scope Operand) :
    Calculation :=
  let answered := (answer calculator file.depthLimit problem scope).onStack holds
  .ofResolution file problem scope (.ofAnswer scope answered)

end Argand
