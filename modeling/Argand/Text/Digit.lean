/-!
# Decimal digits

Digits in the numerals a user may type into a settings field come from any script: each script
has ten consecutive code points, from its zero to its nine (Unicode 14).

## Main definitions

* `Argand.Text.digitZeros`: the code points of the zeros.
* `Argand.Text.digitValue?`: the value of a decimal digit of any script.
* `Argand.Text.toAsciiDigits`, `Argand.Text.dropUnderscores?`: a numeral as typed, made plain.
-/

namespace Argand.Text

/-- The code points of the digit **zero** in each script, in increasing order. -/
def digitZeros : List Nat :=
  [ 48, 1632, 1776, 1984, 2406, 2534, 2662, 2790, 2918, 3046, 3174, 3302, 3430, 3558, 3664,
    3792, 3872, 4160, 4240, 6112, 6160, 6470, 6608, 6784, 6800, 6992, 7088, 7232, 7248, 42528,
    43216, 43264, 43472, 43504, 43600, 44016, 65296, 66720, 68912, 69734, 69872, 69942, 70096,
    70384, 70736, 70864, 71248, 71360, 71472, 71904, 72016, 72784, 73040, 73120, 92768, 92864,
    93008, 120782, 120792, 120802, 120812, 120822, 123200, 123632, 125264, 130032 ]

/-- The value of a decimal digit of any script, if the character is one. -/
def digitValue? (c : Char) : Option Nat :=
  (digitZeros.find? fun first => first ≤ c.toNat && c.toNat ≤ first + 9).map (c.toNat - ·)

/-- An ASCII digit. Formulas and settings files know no others. -/
def isAsciiDigit (c : Char) : Bool :=
  '0' ≤ c && c ≤ '9'

/-- The number that a run of ASCII digits denotes, most significant digit first. -/
def digitsToNat (cs : List Char) : Nat :=
  cs.foldl (fun n c => 10 * n + (c.toNat - '0'.toNat)) 0

/-- The ASCII digit of a value below ten. -/
def digitChar (n : Nat) : Char :=
  Char.ofNat ('0'.toNat + n)

/-- A numeral with every digit of another script replaced by the ASCII digit of its value. -/
def toAsciiDigits (cs : List Char) : List Char :=
  cs.map fun c => ((digitValue? c).map digitChar).getD c

/-- A numeral without its underscores, each of which must stand between two digits. `previous`
is the character before the text. -/
def dropUnderscores? (previous : Char) : List Char → Option (List Char)
  | [] => if previous = '_' then none else some []
  | c :: rest =>
    if c = '_' then
      if isAsciiDigit previous then dropUnderscores? c rest else none
    else if previous = '_' && !isAsciiDigit c then none
    else (dropUnderscores? c rest).map (c :: ·)

end Argand.Text
