import Argand.Console
import Argand.Inventory

/-!
# The command line

The calculator at the terminal: the console on the lines of standard input, with the settings
file of the working directory. Every reply is a call of `Argand.Console.reply`.
-/

namespace Argand.CommandLine

/-- The settings file. -/
def settingsPath : String := "config.json"

/-- The file of labels. -/
def labelsPath : String := "ui_strings.json"

/-- The text of a file, if there is one that can be read. -/
def readText? (path : String) : IO (Option String) := do
  try
    let text ← IO.FS.readFile path
    return some text
  catch _ => return none

/-- Text is written at once. -/
def say (text : String) : IO Unit := do
  let out ← IO.getStdout
  out.putStr text
  out.flush

/-- Lines are answered until the console ends. -/
partial def converse (file : SettingsFile) (scope : Scope Operand) : IO (Option Fault) := do
  say Console.prompt
  let entered ← (← IO.getStdin).getLine
  if entered.isEmpty then return some .endOfInput
  let reply := Console.reply file false scope entered
  say reply.output
  match reply.next with
  | .more scope => converse file scope
  | .ended fault => return fault

/-- A fault that ends the program, as an exit code. -/
def exitWith : Option Fault → IO UInt32
  | none => return 0
  | some fault => do
    (← IO.getStderr).putStrLn fault.message
    return 1

/-- The console on the settings of a file. -/
def runConsole (file : SettingsFile) : IO UInt32 := do
  match Console.opening file with
  | .error fault => exitWith (some fault)
  | .ok shown => do
    say (shown ++ Console.header)
    exitWith (← converse file [])

end Argand.CommandLine

open Argand in
/-- The files of the working directory are checked; then the console runs. -/
def main : IO UInt32 := do
  let settings ← CommandLine.readText? CommandLine.settingsPath
  let labels ← CommandLine.readText? CommandLine.labelsPath
  let found := [(CommandLine.settingsPath, settings), (CommandLine.labelsPath, labels)]
  let inventory : Inventory :=
    ⟨found.map (·.1), (found.filter (·.2.isSome)).map (·.1)⟩
  if inventory.isComplete then CommandLine.runConsole ⟨settings, true⟩
  else
    CommandLine.say inventory.report
    return 1
