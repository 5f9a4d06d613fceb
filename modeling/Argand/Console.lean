import Argand.Session

/-!
# The console

The console reads lines until an empty one and answers each in turn; all answers share one
scope. It ends early when the input does, and when the settings cannot be read.

## Main definitions

* `Argand.Transcript`: what was written, and why the console ended early if it did.
* `Argand.Console.reply`: what one line leads to.
* `Argand.Console.run`: the console on some lines.
* `Argand.Console.start`: the same after a line that shows the settings, if they ask for it.
-/

namespace Argand

/-- What the console **wrote**, and the fault that ended it, if one did. -/
structure Transcript where
  output : String
  fault : Option Fault
deriving DecidableEq, Repr

namespace Console

/-- A written line. -/
def line (s : String) : String := s ++ "\n"

/-- The first line. -/
def header : String := line "Enter the problem (empty line quits): "

/-- What stands before an entered line. -/
def prompt : String := "> "

/-- The text of a report: its code, the text of the code, and its own text. -/
def reportText (r : Report) (code : String) : String :=
  "Error " ++ code ++ ": " ++ ((Entries.get? codeTexts code).getD "") ++ r.fault.message

/-- The notes as written, if the console is watched. -/
def notesText (watched : Bool) (notes : List (Note Operand)) : String :=
  if watched then String.join ((notes.flatMap (Note.lines calculator)).map line) else ""

/-- What follows an entered line: the next one, in the scope left by this one, or the end, with
the fault that caused it if one did. -/
inductive Next where
  | more (scope : Scope Operand)
  | ended (fault : Option Fault)

/-- What is written for an entered line, and what follows. -/
structure Reply where
  output : String
  next : Next

/-- The **reply** to an entered line. A blank line ends the console; a report of the settings,
which has no code, does too. -/
def reply (file : SettingsFile) (watched : Bool) (scope : Scope Operand) (entered : String) :
    Reply :=
  let problem := Text.trim entered
  if problem.isEmpty then ⟨"", .ended none⟩
  else
    let c := calculate file problem scope
    let notes := notesText watched c.notes
    match c.outcome with
    | .ok result => ⟨notes ++ line result.text, .more c.scope⟩
    | .error report =>
      match report.fault.code? with
      | some code => ⟨notes ++ line (reportText report code), .more c.scope⟩
      | none => ⟨notes, .ended (some report.fault)⟩

/-- The console from some scope on. -/
def loop (file : SettingsFile) (watched : Bool) (scope : Scope Operand) :
    List String → Transcript
  | [] => ⟨prompt, some .endOfInput⟩
  | entered :: rest =>
    let r := reply file watched scope entered
    match r.next with
    | .more scope =>
      let after := loop file watched scope rest
      { after with output := prompt ++ r.output ++ after.output }
    | .ended fault => ⟨prompt ++ r.output, fault⟩

/-- The **console** on some lines. -/
def run (file : SettingsFile) (watched : Bool) (lines : List String) : Transcript :=
  let t := loop file watched [] lines
  { t with output := header ++ t.output }

/-- What is written before the console starts: the settings, if their flag `debug` is set. -/
def opening (file : SettingsFile) : Except Fault String := do
  let settings ← file.all
  if ((Entries.get? settings "debug").getD .null).isSet then
    return line ("Config loaded: " ++ settings.describe)
  return ""

/-- The console **started** with its settings. -/
def start (file : SettingsFile) (watched : Bool) (lines : List String) : Transcript :=
  match opening file with
  | .error f => ⟨"", some f⟩
  | .ok shown =>
    let t := run file watched lines
    { t with output := shown ++ t.output }

end Console

end Argand
