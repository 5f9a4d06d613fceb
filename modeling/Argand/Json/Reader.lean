import Argand.Json.Token

/-!
# Reading settings texts

The tokens of a settings text are put together by a machine with a stack of unfinished lists
and records. It takes one token at a time, so reading ends with the tokens. The text of a
single value is accepted and nothing else; of entries with the same key the last counts.

## Main definitions

* `Argand.Json.Reading`: the states of the machine.
* `Argand.Json.read`: the value of a settings text, `none` if it has no such form.
-/

namespace Argand.Json

/-- An **unfinished** list or record that waits for a value; its parts are kept newest first. -/
inductive Frame where
  | items (done : List Json)
  | entries (done : List (String × Json)) (key : String)

/-- What the machine waits for, and the unfinished values around it, innermost first. -/
inductive Reading where
  | value (stack : List Frame)
  | firstItem (stack : List Frame)
  | afterItem (done : List Json) (stack : List Frame)
  | firstKey (stack : List Frame)
  | nextKey (done : List (String × Json)) (stack : List Frame)
  | colon (key : String) (done : List (String × Json)) (stack : List Frame)
  | afterEntry (done : List (String × Json)) (stack : List Frame)
  | finished (value : Json)

/-- Why reading stops before the end of the text. -/
inductive Reading.Stop where
  | malformed
  | tooLong (digits : Nat)

/-- A finished value goes into the innermost unfinished one, or is the value of the text. -/
def deliver (v : Json) : List Frame → Reading
  | [] => .finished v
  | .items done :: stack => .afterItem (v :: done) stack
  | .entries done key :: stack => .afterEntry ((key, v) :: done) stack

/-- A token where a value is wanted. -/
def readValue (stack : List Frame) : Token → Except Reading.Stop Reading
  | .scalar v => .ok (deliver v stack)
  | .text s => .ok (deliver (.text s) stack)
  | .openList => .ok (.firstItem stack)
  | .openRecord => .ok (.firstKey stack)
  | .tooLong digits => .error (.tooLong digits)
  | _ => .error .malformed

/-- One token. -/
def Reading.next : Reading → Token → Except Stop Reading
  | .value stack, t => readValue stack t
  | .firstItem stack, .closeList => .ok (deliver (.list []) stack)
  | .firstItem stack, t => readValue (.items [] :: stack) t
  | .afterItem done stack, .comma => .ok (.value (.items done :: stack))
  | .afterItem done stack, .closeList => .ok (deliver (.list done.reverse) stack)
  | .firstKey stack, .closeRecord => .ok (deliver (.record []) stack)
  | .firstKey stack, .text key => .ok (.colon key [] stack)
  | .nextKey done stack, .text key => .ok (.colon key done stack)
  | .colon key done stack, .colon => .ok (.value (.entries done key :: stack))
  | .afterEntry done stack, .comma => .ok (.nextKey done stack)
  | .afterEntry done stack, .closeRecord =>
    .ok (deliver (.record (Entries.ofPairs done.reverse)) stack)
  | _, _ => .error .malformed

/-- All tokens of a text from some state on. -/
def Reading.run : Reading → List Token → Except Stop Json
  | .finished v, [] => .ok v
  | _, [] => .error .malformed
  | r, t :: rest =>
    match r.next t with
    | .ok r => r.run rest
    | .error stop => .error stop

/-- The **value of a settings text**: `none` if the text is not of the form, a fault if a number
in it is too long. -/
def read (s : String) : Except Fault (Option Json) :=
  match (Reading.value []).run (tokens s) with
  | .ok v => .ok (some v)
  | .error .malformed => .ok none
  | .error (.tooLong digits) => .error (.tooManyDigits digits)

end Argand.Json
