import Argand.Json.Basic
import Argand.Text.Whole

/-!
# Writing settings texts

A structured value is written piece by piece. A value without written form ends the text at its
place: what was written before it stays. All characters outside printable ASCII are escaped.

## Main definitions

* `Argand.Json.Layout`: line breaks between the parts of a list or record.
* `Argand.Json.pieces`: the pieces of a written value, with faults at unwritable places.
* `Argand.Json.draft`: the text up to the first fault, and the fault.
-/

namespace Argand.Json

/-- What stands between the parts of a list or record at a nesting depth. -/
structure Layout where
  lineBreak : Nat → String
  afterKey : String

/-- One part a line, four blanks for each depth. -/
def Layout.indented : Layout :=
  ⟨fun depth => "\n" ++ String.ofList (List.replicate (4 * depth) ' '), ": "⟩

/-- Everything on one line, without blanks. -/
def Layout.flat : Layout :=
  ⟨fun _ => "", ":"⟩

/-- An escape by code: four hexadecimal digits. -/
def escapeUnit (n : Nat) : List Char :=
  '\\' :: 'u' :: Text.hexDigits 4 n

/-- One character of a written text. -/
def escapeChar (c : Char) : List Char :=
  if c = '"' then ['\\', '"']
  else if c = '\\' then ['\\', '\\']
  else if c = '\n' then ['\\', 'n']
  else if c = '\r' then ['\\', 'r']
  else if c = '\t' then ['\\', 't']
  else if c = '\x0c' then ['\\', 'f']
  else if c = '\x08' then ['\\', 'b']
  else if 0x20 ≤ c.toNat && c.toNat ≤ 0x7E then [c]
  else if c.toNat < 0x10000 then escapeUnit c.toNat
  else
    let n := c.toNat - 0x10000
    escapeUnit (0xD800 + n / 0x400) ++ escapeUnit (0xDC00 + n % 0x400)

/-- A written text: quotes around its characters. -/
def textPiece (s : String) : String :=
  String.ofList ('"' :: s.toList.flatMap escapeChar ++ ['"'])

/-- A written float. -/
def realPiece (x : Float) : String :=
  if x.isNaN then "NaN"
  else if x.isInf then (if isNegative x then "-Infinity" else "Infinity")
  else floatText x

/-- A written whole number. -/
def wholePiece (n : Int) : Except Fault String :=
  if Text.mostWholeDigits < (toString n.natAbs).length then .error .tooLongToWrite
  else .ok (toString n)

mutual

/-- The **pieces** of a written value at a nesting depth. -/
def pieces (l : Layout) (depth : Nat) : Json → List (Except Fault String)
  | null => [.ok "null"]
  | truth b => [.ok (if b then "true" else "false")]
  | whole n => [wholePiece n]
  | real x => [.ok (realPiece x)]
  | text s => [.ok (textPiece s)]
  | list [] => [.ok "[]"]
  | list items =>
    .ok ("[" ++ l.lineBreak (depth + 1)) :: itemPieces l (depth + 1) items ++
      [.ok (l.lineBreak depth ++ "]")]
  | record [] => [.ok "\x7b\x7d"]
  | record entries =>
    .ok ("\x7b" ++ l.lineBreak (depth + 1)) :: entryPieces l (depth + 1) entries ++
      [.ok (l.lineBreak depth ++ "\x7d")]
  | foreign => [.error (.notWritable foreign.kind)]

/-- The pieces of the items of a list. -/
def itemPieces (l : Layout) (depth : Nat) : List Json → List (Except Fault String)
  | [] => []
  | [x] => pieces l depth x
  | x :: rest => pieces l depth x ++ .ok ("," ++ l.lineBreak depth) :: itemPieces l depth rest

/-- The pieces of the entries of a record. -/
def entryPieces (l : Layout) (depth : Nat) : List (String × Json) → List (Except Fault String)
  | [] => []
  | [(k, v)] => .ok (textPiece k ++ l.afterKey) :: pieces l depth v
  | (k, v) :: rest =>
    .ok (textPiece k ++ l.afterKey) :: pieces l depth v ++
      .ok ("," ++ l.lineBreak depth) :: entryPieces l depth rest

end

/-- The pieces before the first fault. -/
def writtenPieces : List (Except Fault String) → List String
  | .ok s :: rest => s :: writtenPieces rest
  | _ => []

/-- The first fault among some pieces. -/
def firstFault? : List (Except Fault String) → Option Fault
  | [] => none
  | .ok _ :: rest => firstFault? rest
  | .error f :: _ => some f

/-- A value **as written**, up to the first unwritable place in it, and the fault there. -/
def draft (l : Layout) (v : Json) : String × Option Fault :=
  let ps := pieces l 0 v
  (String.join (writtenPieces ps), firstFault? ps)

/-- A value on one line. -/
def flat (v : Json) : String :=
  (draft Layout.flat v).1

end Argand.Json
