import Argand.Text.Printable

/-!
# Quoted text

How a text is shown inside a message: between quotes, with everything that could be misread
escaped. Single quotes are used unless the text holds a single quote and no double quote.

## Main definitions

* `Argand.Text.quote`: the quoted form of a text.
* `Argand.Text.quoteUpTo`: the same, cut to a length.
-/

namespace Argand.Text

/-- The hexadecimal digits of a number, lower case, filled up with zeros to a width. -/
def hexDigits (width n : Nat) : List Char :=
  let digits := Nat.toDigits 16 n
  List.replicate (width - digits.length) '0' ++ digits

/-- One character of a quoted text: a backslash before the enclosing quote and the backslash,
names for the three common controls, codes for other unprintable characters. -/
def quoteChar (enclosing c : Char) : List Char :=
  if c = enclosing || c = '\\' then ['\\', c]
  else if c = '\n' then ['\\', 'n']
  else if c = '\r' then ['\\', 'r']
  else if c = '\t' then ['\\', 't']
  else if isPrintable c then [c]
  else if c.toNat < 0x100 then '\\' :: 'x' :: hexDigits 2 c.toNat
  else if c.toNat < 0x10000 then '\\' :: 'u' :: hexDigits 4 c.toNat
  else '\\' :: 'U' :: hexDigits 8 c.toNat

/-- A text **in quotes**: single ones, or double ones for a text that holds a single quote and
no double quote. -/
def quote (s : String) : String :=
  let cs := s.toList
  let enclosing := if cs.contains '\'' && !cs.contains '"' then '"' else '\''
  String.ofList (enclosing :: cs.flatMap (quoteChar enclosing) ++ [enclosing])

/-- A text in quotes, **cut** after a number of characters. -/
def quoteUpTo (most : Nat) (s : String) : String :=
  String.ofList ((quote s).toList.take most)

end Argand.Text
