import Argand.Primitive

/-!
# Display

Values are shown rounded to a number of decimal places, the values of a list separated by
commas. It is also told whether rounding changed any part.

## Main definitions

* `Argand.Places`: a count of decimal places as given.
* `Argand.Shown`: a shown value.
* `Argand.showValue`: a value shown.
* `Argand.showScope`: all bound names with their values.
-/

namespace Argand

/-- A **count of places** as given. -/
inductive Places where
  /-- A count; a negative one rounds before the point. -/
  | count (n : Int)
  /-- None: to whole numbers, which NaN and the infinities are not. -/
  | toWhole
  | invalid (kind : String)
deriving DecidableEq, Repr

/-- The count that a setting gives; truth values count as zero and one. -/
def Places.ofJson : Json → Places
  | .whole n => count n
  | .truth b => count (if b then 1 else 0)
  | .null => toWhole
  | v => invalid v.kind

/-- The count that an operand gives. -/
def Places.ofOperand : Operand → Places
  | .whole n => count n
  | .other v => ofJson v
  | v => invalid v.kind

/-- A part rounded to places. -/
def Places.round (places : Places) (x : Float) : Except Fault Float :=
  match places with
  | count n => Primitive.roundPart x n
  | toWhole => do
    let _ ← Primitive.truncate x
    return roundToPlaces x 0
  | invalid kind => .error (.notAnIndex kind)

/-- A **shown** value: its text, and whether rounding changed it. -/
structure Shown where
  text : String
  rounded : Bool
deriving DecidableEq, Repr

/-- Several shown values as one. -/
def Shown.join (shown : List Shown) : Shown :=
  ⟨", ".intercalate (shown.map (·.text)), shown.any (·.rounded)⟩

/-- A snapped number shown. -/
def showNumber (places : Places) (z : Number) : Except Fault Shown := do
  if z.isNaN then return ⟨"NaN", false⟩
  let re ← places.round z.re
  let im ← places.round z.im
  return ⟨(⟨re, im⟩ : Number).snap.text, re != z.re || im != z.im⟩

mutual

/-- An operand shown; the items of a list one by one. -/
def showOperand (places : Places) : Operand → Except Fault Shown
  | .list items => (showItems places items).map Shown.join
  | .number z => do showNumber places (← (Operand.number z).toNumber)
  | .pair z => do showNumber places (← (Operand.pair z).toNumber)
  | .whole n => do showNumber places (← (Operand.whole n).toNumber)
  | .real x => do showNumber places (← (Operand.real x).toNumber)
  | .other v => do showNumber places (← (Operand.other v).toNumber)

/-- Operands shown one by one. -/
def showItems (places : Places) : List Operand → Except Fault (List Shown)
  | [] => .ok []
  | x :: rest => do
    let first ← showOperand places x
    return first :: (← showItems places rest)

end

/-- A **value shown**. -/
def showValue (places : Places) : Value Operand → Except Fault Shown
  | .one x => showOperand places x
  | .many items => (showItems places items).map Shown.join

/-- What a name is bound to, shown; being bound to nothing is not a number. -/
def showBinding (places : Places) : Option (Value Operand) → Except Fault Shown
  | some v => showValue places v
  | none => .error (.notANumber Json.null.describe)

/-- Names in the order of their characters. -/
def sortedNames (scope : Scope Operand) : List String :=
  (scope.map (·.1)).mergeSort fun a b => decide (a ≤ b)

/-- All **bound names** with their values, in the order of the names. -/
def showScope (places : Places) (scope : Scope Operand) : Except Fault String := do
  let parts ← (sortedNames scope).mapM fun name => do
    let shown ← showBinding places ((Entries.get? scope name).join)
    return name ++ " = " ++ shown.text
  return "   ".intercalate parts

/-- All bound names of a scope with their values; the scope has to be there. -/
def showScope? (places : Places) : Option (Scope Operand) → Except Fault String
  | some scope => showScope places scope
  | none => .error (.notIterable Json.null.kind)

end Argand
