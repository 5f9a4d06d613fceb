import Argand.Fault
import Argand.Text.Blank
import Argand.Text.Digit

/-!
# Tokens

A formula is cut into tokens: numerals, operators, brackets of three kinds, the constants `i`,
`e` and `π`, and variables of one letter. Blanks separate tokens and are dropped. A token keeps
its text as written and its position, counted in characters from zero.

## Main definitions

* `Argand.Bracket`, `Argand.TokenKind`, `Argand.Token`.
* `Argand.scanNumeral`: the numeral at the start of some characters.
* `Argand.Token.ofChars`, `Argand.tokenize`: the tokens of a text.
-/

namespace Argand

/-- The kinds of **brackets**. -/
inductive Bracket where
  | paren
  | square
  | brace
deriving DecidableEq, Repr

/-- The kinds of **tokens**. -/
inductive TokenKind where
  | number
  | operator
  | opening (b : Bracket)
  | closing (b : Bracket)
  | constant
  | letter
deriving DecidableEq, Repr

/-- A **token**. -/
structure Token where
  kind : TokenKind
  text : String
  position : Nat
deriving DecidableEq, Repr

/-! ### Classes of characters -/

/-- The opening and closing brackets. -/
def bracketKind? : Char → Option TokenKind
  | '(' => some (.opening .paren)
  | ')' => some (.closing .paren)
  | '[' => some (.opening .square)
  | ']' => some (.closing .square)
  | '{' => some (.opening .brace)
  | '}' => some (.closing .brace)
  | _ => none

/-- The operators. -/
def isOperator (c : Char) : Bool :=
  c = '+' || c = '-' || c = '*' || c = '/' || c = '^'

/-- The constants. -/
def isConstant (c : Char) : Bool :=
  c = 'i' || c = 'e' || c = 'π'

/-- The letters that name variables. -/
def isLetter (c : Char) : Bool :=
  ('a' ≤ c && c ≤ 'z') || ('A' ≤ c && c ≤ 'Z')

/-- The characters that continue a numeral. -/
def isNumeralChar (c : Char) : Bool :=
  Text.isAsciiDigit c || c = '.'

/-- The kind of a token that is the single character `c`, if there is one. -/
def singleKind? (c : Char) : Option TokenKind :=
  match bracketKind? c with
  | some k => some k
  | none =>
    if isOperator c then some .operator
    else if isConstant c then some .constant
    else if isLetter c then some .letter
    else none

/-! ### Numerals -/

/-- The index of the **second point** among some characters; `seen` tells whether there was one
before them, and `index` how many characters. -/
def secondPoint? (seen : Bool) (index : Nat) : List Char → Option Nat
  | [] => none
  | c :: rest =>
    if c = '.' then
      if seen then some index else secondPoint? true (index + 1) rest
    else secondPoint? seen (index + 1) rest

/-- The longest run of digits and points at the start of some characters, which begin at a
position. It must not hold two points. -/
def scanNumeral (position : Nat) (cs : List Char) : Except Fault (List Char) :=
  let block := cs.takeWhile isNumeralChar
  match secondPoint? false 0 block with
  | some k => .error (.secondPoint (position + k) (String.ofList (block.take (k + 1))))
  | none => .ok block

/-! ### Texts -/

/-- The **tokens** of some characters that begin at a position. -/
def Token.ofChars (position : Nat) (cs : List Char) : Except Fault (List Token) :=
  match cs with
  | [] => .ok []
  | c :: rest =>
    match singleKind? c with
    | some kind => do
      return ⟨kind, c.toString, position⟩ :: (← Token.ofChars (position + 1) rest)
    | none =>
      if Text.isAsciiDigit c then do
        let numeral ← scanNumeral position (c :: rest)
        return ⟨.number, String.ofList numeral, position⟩ ::
          (← Token.ofChars (position + numeral.length) (rest.dropWhile isNumeralChar))
      else if Text.isBlank c then Token.ofChars (position + 1) rest
      else .error (.unknownCharacter c position)
termination_by cs.length
decreasing_by
  · simp
  · exact Nat.lt_succ_of_le (List.dropWhile_sublist _).length_le
  · simp

/-- The **tokens** of a text. -/
def tokenize (source : String) : Except Fault (List Token) :=
  Token.ofChars 0 source.toList

/-! ### Description -/

/-- The name of a kind as messages show it. -/
def TokenKind.name : TokenKind → String
  | number => "Number"
  | operator => "Operator"
  | opening .paren => "OpenParen"
  | closing .paren => "CloseParen"
  | opening .square => "OpenBracket"
  | closing .square => "CloseBracket"
  | opening .brace => "OpenBrace"
  | closing .brace => "CloseBrace"
  | constant => "Constant"
  | letter => "Variable"

/-- The kind with a given name. -/
def TokenKind.ofName? (name : String) : Option TokenKind :=
  [ number, operator, opening .paren, closing .paren, opening .square, closing .square,
    opening .brace, closing .brace, constant, letter ].find? (·.name == name)

/-- A token as messages show it. -/
def Token.describe (t : Token) : String :=
  s!"Token({t.kind.name}, {Text.quote t.text}, {t.position})"

/-- Several tokens as messages show them. -/
def describeTokens (ts : List Token) : String :=
  "[" ++ ", ".intercalate (ts.map Token.describe) ++ "]"

end Argand
