import Argand.Json.Basic
import Argand.Text.Whole

/-!
# Tokens of a settings text

A settings text is cut into tokens by a machine that reads one character at a time: it is
between tokens, inside a text, inside an escape of a text, or inside a run of other characters,
which should be one of a few words or a number. Of another run the longest number at its front
is taken. A place where no token can be is marked by the token `bad`, so that the reader stops
there and not earlier.

## Main definitions

* `Argand.Json.Token`: the tokens.
* `Argand.Json.Token.ofScalar`: the tokens of a run of characters outside quotes.
* `Argand.Json.tokens`: the tokens of a text.
-/

namespace Argand.Json

/-- A **token** of a settings text. -/
inductive Token where
  | openList
  | closeList
  | openRecord
  | closeRecord
  | comma
  | colon
  | text (s : String)
  /-- A number or a word. -/
  | scalar (value : Json)
  | tooLong (digits : Nat)
  /-- A place where no token can be. -/
  | bad
deriving Inhabited, Repr

/-! ### Numbers and words -/

/-- The whole part at the front: a zero alone, or all digits up to another character. -/
def splitWhole : List Char → List Char × List Char
  | '0' :: rest => (['0'], rest)
  | cs => cs.span Text.isAsciiDigit

/-- The fraction at the front, if there is one: a point and at least one digit. -/
def splitFraction (cs : List Char) : List Char × List Char :=
  let (digits, rest) := readFraction cs
  if digits.isEmpty then ([], cs) else ('.' :: digits, rest)

/-- The exponent at the front, if there is one: `e`, perhaps a sign, and at least one digit. It
is given with its sign. -/
def splitExponent : List Char → List Char × List Char
  | [] => ([], [])
  | c :: cs =>
    let (negative, rest) := readSign cs
    let (digits, rest) := rest.span Text.isAsciiDigit
    if (c = 'e' || c = 'E') && !digits.isEmpty then
      ('e' :: (if negative then '-' else '+') :: digits, rest)
    else ([], c :: cs)

/-- The token of a whole number. -/
def Token.ofWhole (negative : Bool) (digits : List Char) : Token :=
  match Text.boundedDigits digits with
  | .ok n => .scalar (.whole (if negative then -(n : Int) else n))
  | .error _ => .tooLong digits.length

/-- The token of a float. -/
def Token.ofReal (negative : Bool) (numeral : List Char) : Token :=
  match readUnsigned? negative numeral with
  | some d => .scalar (.real d.toFloat)
  | none => .bad

/-- The tokens of a number without its sign. A number with a fraction or an exponent is a float.
What follows the longest number at the front is no token. -/
def Token.ofNumber (negative : Bool) (cs : List Char) : List Token :=
  let (digits, rest) := splitWhole cs
  let (fraction, rest) := splitFraction rest
  let (exponent, rest) := splitExponent rest
  if digits.isEmpty then [.bad]
  else
    (if fraction.isEmpty && exponent.isEmpty then .ofWhole negative digits
      else .ofReal negative (digits ++ fraction ++ exponent)) ::
      (if rest.isEmpty then [] else [.bad])

/-- The **tokens of a run** of characters outside quotes: a word or a number. -/
def Token.ofScalar (cs : List Char) : List Token :=
  match String.ofList cs with
  | "null" => [.scalar .null]
  | "true" => [.scalar (.truth true)]
  | "false" => [.scalar (.truth false)]
  | "NaN" => [.scalar (.real (0.0 / 0.0))]
  | "Infinity" => [.scalar (.real (1.0 / 0.0))]
  | "-Infinity" => [.scalar (.real (-1.0 / 0.0))]
  | _ =>
    match cs with
    | '-' :: rest => Token.ofNumber true rest
    | _ => Token.ofNumber false cs

/-! ### Quoted texts -/

/-- The first of two units that stand for one character beyond the basic plane. -/
def isHighSurrogate (n : Nat) : Bool :=
  0xD800 ≤ n && n ≤ 0xDBFF

/-- The second of two units that stand for one character beyond the basic plane. -/
def isLowSurrogate (n : Nat) : Bool :=
  0xDC00 ≤ n && n ≤ 0xDFFF

/-- The character of a unit. A lone surrogate is no character: texts here consist of characters, so
the replacement character stands in its place, where a text made of units would keep it. -/
def unitChar (n : Nat) : Char :=
  if isHighSurrogate n || isLowSurrogate n then '\uFFFD' else Char.ofNat n

/-- The characters of a list of units, surrogate pairs joined. -/
def joinSurrogates : List Nat → List Char
  | [] => []
  | [n] => [unitChar n]
  | n :: m :: rest =>
    if isHighSurrogate n && isLowSurrogate m then
      Char.ofNat (0x10000 + (n - 0xD800) * 0x400 + (m - 0xDC00)) :: joinSurrogates rest
    else unitChar n :: joinSurrogates (m :: rest)

/-- The unit that a one-letter escape stands for. -/
def escapedUnit? : Char → Option Nat
  | '"' => some 0x22
  | '\\' => some 0x5C
  | '/' => some 0x2F
  | 'b' => some 0x08
  | 'f' => some 0x0C
  | 'n' => some 0x0A
  | 'r' => some 0x0D
  | 't' => some 0x09
  | _ => none

/-- The value of a hexadecimal digit. -/
def hexValue? (c : Char) : Option Nat :=
  if '0' ≤ c && c ≤ '9' then some (c.toNat - '0'.toNat)
  else if 'a' ≤ c && c ≤ 'f' then some (c.toNat - 'a'.toNat + 10)
  else if 'A' ≤ c && c ≤ 'F' then some (c.toNat - 'A'.toNat + 10)
  else none

/-! ### The machine -/

/-- Where the machine is. Units of a text and characters of a run are kept newest first. -/
inductive Place where
  | between
  | inText (units : List Nat)
  | escape (units : List Nat)
  | code (units : List Nat) (missing : Nat) (value : Nat)
  /-- Inside a run of other characters. -/
  | run (characters : List Char)
  /-- After a place where no token can be. -/
  | lost
deriving Repr

/-- The blanks of a settings text. -/
def isGap (c : Char) : Bool :=
  c = ' ' || c = '\t' || c = '\n' || c = '\r'

/-- The token of a single mark. -/
def markToken? : Char → Option Token
  | '[' => some .openList
  | ']' => some .closeList
  | '{' => some .openRecord
  | '}' => some .closeRecord
  | ',' => some .comma
  | ':' => some .colon
  | _ => none

/-- One character between two tokens. -/
def stepBetween (c : Char) : Place × List Token :=
  if isGap c then (.between, [])
  else if c = '"' then (.inText [], [])
  else match markToken? c with
    | some t => (.between, [t])
    | none => (.run [c], [])

/-- A character that ends a run. -/
def endsRun (c : Char) : Bool :=
  isGap c || c = '"' || (markToken? c).isSome

/-- One character: the new place, and the tokens that it completes. -/
def step (place : Place) (c : Char) : Place × List Token :=
  match place with
  | .between => stepBetween c
  | .inText units =>
    if c = '"' then (.between, [.text (String.ofList (joinSurrogates units.reverse))])
    else if c = '\\' then (.escape units, [])
    else if c.toNat < 0x20 then (.lost, [.bad])
    else (.inText (c.toNat :: units), [])
  | .escape units =>
    if c = 'u' then (.code units 4 0, [])
    else match escapedUnit? c with
      | some n => (.inText (n :: units), [])
      | none => (.lost, [.bad])
  | .code units missing value =>
    match hexValue? c with
    | none => (.lost, [.bad])
    | some d =>
      let value := 16 * value + d
      if missing ≤ 1 then (.inText (value :: units), []) else (.code units (missing - 1) value, [])
  | .run characters =>
    if endsRun c then
      let (place, out) := stepBetween c
      (place, Token.ofScalar characters.reverse ++ out)
    else (.run (c :: characters), [])
  | .lost => (.lost, [])

/-- The tokens completed by the end of the text. -/
def finish : Place → List Token
  | .between | .lost => []
  | .run characters => Token.ofScalar characters.reverse
  | _ => [.bad]

/-- The tokens of a text that begins at some place. -/
def tokensFrom (place : Place) : List Char → List Token
  | [] => finish place
  | c :: rest =>
    let (next, out) := step place c
    out ++ tokensFrom next rest

/-- The **tokens** of a text. -/
def tokens (s : String) : List Token :=
  tokensFrom .between s.toList

end Argand.Json
