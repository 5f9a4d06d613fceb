/-!
# Blank characters

White space in formulas, settings fields and entered lines: the ASCII blanks and controls that
separate text, and the space characters of Unicode.

## Main definitions

* `Argand.Text.isBlank`: the class of blank characters.
* `Argand.Text.isMargin`: the blanks around a numeral.
* `Argand.Text.trim`: a text without the blanks at its two ends.
-/

namespace Argand.Text

/-- A **blank**: tab to carriage return, the four information separators, the space, next line,
the no-break spaces, and the space and line separators of Unicode. -/
def isBlank (c : Char) : Bool :=
  let n := c.toNat
  (9 ≤ n && n ≤ 13) || (28 ≤ n && n ≤ 32) || n = 0x85 || n = 0xA0 || n = 0x1680 ||
    (0x2000 ≤ n && n ≤ 0x200A) || n = 0x2028 || n = 0x2029 || n = 0x202F || n = 0x205F ||
    n = 0x3000

/-- A blank that may stand around a **numeral**: any but the information separators. -/
def isMargin (c : Char) : Bool :=
  isBlank c && !(28 ≤ c.toNat && c.toNat ≤ 31)

/-- Some characters without those of a class at their two ends. -/
def trimChars (p : Char → Bool) (cs : List Char) : List Char :=
  (((cs.dropWhile p).reverse).dropWhile p).reverse

/-- A text without the blanks at its two ends. -/
def trim (s : String) : String :=
  String.ofList (trimChars isBlank s.toList)

end Argand.Text
