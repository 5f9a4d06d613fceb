import Argand.Fault
import Argand.Text.Blank
import Argand.Text.Digit

/-!
# Whole numbers as typed

Reading a whole number from a settings field: blanks around it, a sign, digits of any script,
underscores between digits and leading zeros are all accepted. The digits are looked at first:
too many of them are refused before what follows them is.

## Main definitions

* `Argand.Text.readWhole`: the whole number a text denotes, or the fault that names the text.
-/

namespace Argand.Text

/-- Numerals with more digits than this are refused. -/
def mostWholeDigits : Nat := 4300

/-- The value of a run of ASCII digits, refused if it is too long. -/
def boundedDigits (digits : List Char) : Except Fault Nat :=
  if mostWholeDigits < digits.length then .error (.tooManyDigits digits.length)
  else .ok (digitsToNat digits)

/-- A character of the digits of a whole number. -/
def isWholeChar (c : Char) : Bool :=
  isAsciiDigit c || c = '_'

/-- The **whole number** a text denotes. -/
def readWhole (s : String) : Except Fault Int :=
  let cs := (toAsciiDigits s.toList).dropWhile isMargin
  let (negative, cs) :=
    match cs with
    | '-' :: rest => (true, rest)
    | '+' :: rest => (false, rest)
    | _ => (false, cs)
  let (run, rest) := cs.span isWholeChar
  match dropUnderscores? ' ' run with
  | none | some [] => .error (.notAWhole s)
  | some digits => do
    let n ← boundedDigits digits
    if rest.all isMargin then return if negative then -(n : Int) else n
    else throw (.notAWhole s)

end Argand.Text
