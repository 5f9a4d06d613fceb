import Argand.Decimal.Shortest
import Argand.Text.Blank
import Argand.Text.Digit

/-!
# Numerals

Floats as text and text as floats. A float is written with its shortest digits: positionally
while its decimal point stays near them, otherwise in scientific notation with at least two
digits of exponent.

## Main definitions

* `Argand.Layout`: where positional notation ends, and whether a whole number keeps a point.
* `Argand.writeFloat`: a float as text in a given layout.
* `Argand.floatText`: a float as text in the layout of all messages and results.
* `Argand.readNumeral?`: the decimal number denoted by a plain numeral.
* `Argand.readFloat?`: the float denoted by a text a user may have typed.
-/

namespace Argand

/-! ### Writing -/

/-- The choices of a written float. -/
structure Layout where
  positionalFrom : Int
  positionalBelow : Int
  /-- What follows the digits of a whole number in positional notation. -/
  wholeEnd : String
deriving Repr

/-- Results and messages: positional from `1e-4` to below `1e16`, whole numbers end in `.0`. -/
def Layout.standard : Layout := ⟨-4, 16, ".0"⟩

/-- Parts of a complex literal: as `Layout.standard`, but whole numbers end bare. -/
def Layout.bare : Layout := ⟨-4, 16, ""⟩

/-- A text of zeros. -/
def zeros (n : Nat) : String :=
  String.ofList (List.replicate n '0')

/-- The exponent of scientific notation: a sign and at least two digits. -/
def exponentText (e : Int) : String :=
  let digits := toString e.natAbs
  (if e < 0 then "e-" else "e+") ++ zeros (2 - digits.length) ++ digits

/-- The digits of a decimal number with its point in place, no sign. -/
def Layout.digits (l : Layout) (d : Decimal) : String :=
  let ds := Nat.toDigits 10 d.coefficient
  let order : Int := ds.length - 1 + d.exponent
  if l.positionalFrom ≤ order && order < l.positionalBelow then
    if order < 0 then
      "0." ++ zeros (-order - 1).toNat ++ String.ofList ds
    else if 0 ≤ d.exponent then
      String.ofList ds ++ zeros d.exponent.toNat ++ l.wholeEnd
    else
      let whole := (order + 1).toNat
      String.ofList (ds.take whole) ++ "." ++ String.ofList (ds.drop whole)
  else
    let fraction := ds.drop 1
    String.ofList (ds.take 1) ++
      (if fraction.isEmpty then "" else "." ++ String.ofList fraction) ++ exponentText order

/-- A float **as text**: its shortest digits in the given layout. -/
def writeFloat (l : Layout) (x : Float) : String :=
  if x.isNaN then "nan"
  else
    let sign := if isNegative x then "-" else ""
    if x.isInf then sign ++ "inf"
    else if x == 0 then sign ++ "0" ++ l.wholeEnd
    else sign ++ l.digits (shortestDecimal x)

/-- A float as text in results and messages. -/
def floatText (x : Float) : String :=
  writeFloat Layout.standard x

/-! ### Reading -/

/-- A leading sign and the rest: `true` for a minus sign. -/
def readSign : List Char → Bool × List Char
  | '-' :: rest => (true, rest)
  | '+' :: rest => (false, rest)
  | cs => (false, cs)

/-- The exponent part of a numeral, which ends the text: nothing, or `e`, a sign and digits. -/
def readExponent? : List Char → Option Int
  | [] => some 0
  | c :: rest =>
    if c = 'e' || c = 'E' then
      let (negative, digits) := readSign rest
      if !digits.isEmpty && digits.all Text.isAsciiDigit then
        let n : Int := Text.digitsToNat digits
        some (if negative then -n else n)
      else none
    else none

/-- The part of a numeral after the point: the digits, and what follows them. -/
def readFraction : List Char → List Char × List Char
  | '.' :: rest => rest.span Text.isAsciiDigit
  | cs => ([], cs)

/-- The decimal number of a **numeral** without sign: digits, a point and digits, an exponent;
at least one digit before the exponent. -/
def readUnsigned? (negative : Bool) (cs : List Char) : Option Decimal :=
  let (whole, rest) := cs.span Text.isAsciiDigit
  let (fraction, rest) := readFraction rest
  if whole.isEmpty && fraction.isEmpty then none
  else
    (readExponent? rest).map fun e =>
      ⟨negative, Text.digitsToNat (whole ++ fraction), e - fraction.length⟩

/-- The decimal number of a numeral with an optional sign. -/
def readNumeral? (cs : List Char) : Option Decimal :=
  let (negative, rest) := readSign cs
  readUnsigned? negative rest

/-- The words that name a float without digits, lower case. -/
def namedFloat? (word : String) : Option Float :=
  if word = "inf" || word = "infinity" then some (1.0 / 0.0)
  else if word = "nan" then some (0.0 / 0.0)
  else none

/-- The float denoted by a text: a numeral or a named float with blanks around it, digits of any
script, and underscores between digits. -/
def readFloat? (s : String) : Option Float :=
  let digits := Text.toAsciiDigits (Text.trimChars Text.isMargin s.toList)
  (Text.dropUnderscores? ' ' digits).bind fun cs =>
    let (negative, rest) := readSign cs
    match namedFloat? (String.ofList (rest.map Char.toLower)) with
    | some x => some (if negative then -x else x)
    | none => (readNumeral? cs).map Decimal.toFloat

end Argand
