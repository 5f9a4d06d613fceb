import Argand.Text.Quoted

/-!
# Faults

Everything that can go wrong, one constructor per cause, and the fixed texts that go with it.
A fault belongs to a class; the classes of the calculator's own faults form a small tree, and
only they carry a four-digit code. The first digit of a code is its area.

## Main definitions

* `Argand.FaultClass`: the classes of faults, with `FaultClass.parent?`.
* `Argand.Fault`: the causes.
* `Argand.Fault.faultClass`, `Argand.Fault.code?`, `Argand.Fault.message`: what is reported.
* `Argand.codeTexts`, `Argand.areaTexts`: the tables shown next to a code.
* `Argand.Report`: a fault together with the entered text it belongs to.
-/

namespace Argand

/-! ### Classes -/

/-- The **classes** of faults: first the calculator's own, then those of plain mishaps. -/
inductive FaultClass where
  | general
  | expression
  | token
  | grammar
  | calculation
  | unboundVariable
  | unknownConstant
  | invalidValue
  | solving
  | equationShape
  | wrongKind
  | badValue
  | overflow
  /-- A division by zero outside the calculator's own division. -/
  | zeroDivision
  | noMember
  | endOfInput
deriving DecidableEq, Repr

/-- The class directly above a class of the calculator's own faults. -/
def FaultClass.parent? : FaultClass → Option FaultClass
  | .expression | .calculation | .solving => some .general
  | .token | .grammar => some .expression
  | .unboundVariable | .unknownConstant | .invalidValue => some .calculation
  | .equationShape => some .solving
  | _ => none

/-- A class and all classes above it; the tree is three levels high. -/
def FaultClass.lineage (c : FaultClass) : List FaultClass :=
  match c.parent? with
  | none => [c]
  | some p => c :: p :: p.parent?.toList

/-! ### Causes -/

/-- The **causes** of faults. Positions count characters from zero. -/
inductive Fault where
  /-- A second point in a number; `text` is the number up to it. -/
  | secondPoint (position : Nat) (text : String)
  | unknownCharacter (character : Char) (position : Nat)
  | missingNumber
  | missingClosing (bracket : String) (position : Nat)
  | missingOpening (bracket : String) (position : Nat)
  | unexpectedToken (token : String) (position : Nat)
  | reservedName (name : String) (position : Nat)
  | tooDeep (limit : String)
  /-- The formula is nested deeper than the stack of calls can follow. -/
  | nestingExhausted
  | divisionByZero
  | tooLarge
  | logarithmOfZero
  | unknownOperator (symbol : String)
  | invalidNode (description : String)
  | notANumber (description : String)
  | unbound (name : String)
  | noSuchConstant (name : String)
  | noSolution
  | notLinear (operator : String)
  | notIsolable (description : String)
  | unknownOnRight
  | notOneSided
  | severalEqualities (source : String)
  | busy
  /-- A mishap that is none of the calculator's own faults, by its text. -/
  | unexpected (text : String)
  | wholeTooLarge
  | infinityToWhole
  | nanToWhole
  | roundingTooLarge
  | absoluteTooLarge
  | outOfRange
  | outOfDomain
  /-- A power of zero, or of a number that underflowed to it, that is not defined. -/
  | zeroPower
  /-- A count of places that is not a whole number. -/
  | notAnIndex (kind : String)
  /-- A depth limit that is not a number. -/
  | notComparable (kind : String)
  | notReal (kind : String)
  | notANumeral (text : String)
  | notAWhole (text : String)
  | tooManyDigits (count : Nat)
  | tooLongToWrite
  | notWritable (kind : String)
  | belowMinimum (value : Int) (minimum : Int)
  | noMember (kind member : String)
  | notIterable (kind : String)
  | notASequence (index : Nat)
  | notAPair (index length : Nat)
  | notAKey (kind : String)
  | notAScope (kind : String)
  | immutable
  | endOfInput
deriving DecidableEq, Repr

namespace Fault

/-- The class of a fault. -/
def faultClass : Fault → FaultClass
  | secondPoint .. | unknownCharacter .. => .token
  | missingNumber | missingClosing .. | missingOpening .. | unexpectedToken .. | reservedName ..
  | tooDeep .. => .grammar
  | nestingExhausted | divisionByZero | tooLarge | logarithmOfZero | unknownOperator ..
  | invalidNode .. => .calculation
  | notANumber .. => .invalidValue
  | unbound .. => .unboundVariable
  | noSuchConstant .. => .unknownConstant
  | noSolution | notLinear .. | notIsolable .. => .solving
  | unknownOnRight | notOneSided | severalEqualities .. => .equationShape
  | busy | unexpected .. => .general
  | wholeTooLarge | infinityToWhole | roundingTooLarge | absoluteTooLarge | outOfRange =>
    .overflow
  | nanToWhole | outOfDomain | notANumeral .. | notAWhole .. | tooManyDigits ..
  | tooLongToWrite | belowMinimum .. | notAPair .. => .badValue
  | zeroPower => .zeroDivision
  | notAnIndex .. | notComparable .. | notReal .. | notIterable .. | notASequence ..
  | notAKey .. | notAScope .. | notWritable .. => .wrongKind
  | noMember .. | immutable => .noMember
  | endOfInput => .endOfInput

/-- The **code** of one of the calculator's own faults. -/
def code? : Fault → Option String
  | secondPoint .. => some "3008"
  | unknownCharacter .. => some "3011"
  | missingNumber => some "3027"
  | missingClosing .. => some "3009"
  | missingOpening .. => some "3010"
  | unexpectedToken .. | severalEqualities .. => some "3012"
  | reservedName .. => some "3032"
  | tooDeep .. | nestingExhausted => some "3033"
  | divisionByZero => some "3003"
  | tooLarge => some "3026"
  | logarithmOfZero => some "2002"
  | unknownOperator .. => some "3004"
  | invalidNode .. => some "3036"
  | notANumber .. => some "3031"
  | unbound .. => some "3034"
  | noSuchConstant .. => some "3035"
  | noSolution => some "3014"
  | notLinear .. | notIsolable .. => some "3005"
  | unknownOnRight | notOneSided => some "3037"
  | busy => some "4002"
  | unexpected .. => some "9999"
  | _ => none

/-- So many characters of a text that is not a whole number are shown, its quotes included. -/
def mostQuoted : Nat := 200

/-- The **text** of a fault. -/
def message : Fault → String
  | secondPoint position text =>
    s!"Invalid number, second decimal point at position {position}: {text}"
  | unknownCharacter character position =>
    s!"Unknown character '{character}' at position {position}"
  | missingNumber => "Missing Number."
  | missingClosing bracket position =>
    s!"Missing closing bracket for '{bracket}' at position {position}"
  | missingOpening bracket position =>
    s!"Missing opening bracket for '{bracket}' at position {position}"
  | unexpectedToken token position => s!"Unexpected token: '{token}' at position {position}"
  | reservedName name position => s!"'{name}' at position {position} is a reserved constant"
  | tooDeep limit => s!"Expression nested deeper than {limit} levels."
  | nestingExhausted => "Expression nested too deeply."
  | divisionByZero => "Division by zero"
  | tooLarge => "Number too large (Arithmetic overflow)."
  | logarithmOfZero => "Logarithm of zero."
  | unknownOperator symbol => s!"Unknown operator: {symbol}"
  | invalidNode description => s!"Invalid expression node: {description}"
  | notANumber description => s!"Invalid value: {description}"
  | unbound name => s!"Variable {name} not found"
  | noSuchConstant name => s!"Constant {name} not found"
  | noSolution => "No Solution"
  | notLinear operator => s!"Non linear problem: variable on both sides of '{operator}'"
  | notIsolable description =>
    s!"Non linear problem: cannot isolate the variable in {description}"
  | unknownOnRight => "Cannot resolve equation with variable on the right side"
  | notOneSided => "Exactly one side of the equation needs a variable."
  | severalEqualities source => s!"Invalid equation, more than one '=': {source}"
  | busy => "A calculation is already running!"
  | unexpected text => text
  | wholeTooLarge => "int too large to convert to float"
  | infinityToWhole => "cannot convert float infinity to integer"
  | nanToWhole => "cannot convert float NaN to integer"
  | roundingTooLarge => "rounded value too large to represent"
  | absoluteTooLarge => "absolute value too large"
  | outOfRange => "math range error"
  | outOfDomain => "math domain error"
  | zeroPower => "0.0 to a negative or complex power"
  | notAnIndex kind => s!"'{kind}' object cannot be interpreted as an integer"
  | notComparable kind => s!"'>' not supported between instances of 'int' and '{kind}'"
  | notReal kind => s!"float() argument must be a string or a real number, not '{kind}'"
  | notANumeral text => "could not convert string to float: " ++ Text.quote text
  | notAWhole text =>
    "invalid literal for int() with base 10: " ++ Text.quoteUpTo mostQuoted text
  | tooManyDigits count =>
    s!"Exceeds the limit (4300 digits) for integer string conversion: value has {count} digits" ++
      "; use sys.set_int_max_str_digits() to increase the limit"
  | tooLongToWrite => "Exceeds the limit (4300 digits) for integer string conversion"
  | notWritable kind => s!"Object of type {kind} is not JSON serializable"
  | belowMinimum value minimum => s!"'{value}' is too small. Minimum is {minimum}."
  | noMember kind member => s!"'{kind}' object has no attribute '{member}'"
  | notIterable kind => s!"'{kind}' object is not iterable"
  | notASequence index =>
    s!"cannot convert dictionary update sequence element #{index} to a sequence"
  | notAPair index length =>
    s!"dictionary update sequence element #{index} has length {length}; 2 is required"
  | notAKey kind => s!"unhashable type: '{kind}'"
  | notAScope kind => s!"'{kind}' object does not support item assignment"
  | immutable => "ComplexNumber is immutable"
  | endOfInput => "EOF when reading a line"

/-- One of the calculator's own faults, as opposed to a plain mishap. -/
def isOwn (f : Fault) : Bool :=
  f.code?.isSome

end Fault

/-! ### Tables and reports -/

/-- The text shown next to each **code**. -/
def codeTexts : List (String × String) :=
  [ ("2002", "Logarithm of zero is undefined."),
    ("2004", "Unable to identify given Operation: "),
    ("3003", "Division by Zero"),
    ("3004", "Invalid Operator: "),
    ("3005", "Non linear problem. "),
    ("3008", "More than one '.' in one number."),
    ("3009", "Missing ')'. "),
    ("3010", "Missing '('. "),
    ("3011", "Unknown character: "),
    ("3012", "Invalid equation:  "),
    ("3014", "No Solution"),
    ("3026", "Number too big."),
    ("3027", "Missing Number."),
    ("3031", "Invalid numeric value: "),
    ("3032", "'e' and 'i' are reserved constants."),
    ("3033", "Expression nested too deeply."),
    ("3034", "Variable has no value: "),
    ("3035", "Unknown constant: "),
    ("3036", "Expression could not be evaluated."),
    ("3037", "Exactly one side of the equation needs a variable."),
    ("4002", "Calculation already Running!"),
    ("4501", "Not all Settings could be saved: "),
    ("9999", "Unexpected Error: ") ]

/-- The text of each **area**, by the first digit of the codes in it. -/
def areaTexts : List (String × String) :=
  [ ("1", "Missing Files"),
    ("2", "Scientific Calculation Error"),
    ("3", "Calculator Error"),
    ("4", "UI Error"),
    ("5", "Configuration Error"),
    ("9", "Unexpected Error") ]

/-- A fault with the entered text it belongs to, if it is known. -/
structure Report where
  fault : Fault
  /-- The text that was being calculated. -/
  equation : Option String
deriving DecidableEq, Repr

end Argand
