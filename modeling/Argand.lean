import Argand.Main
import Argand.Window.Basic
import Argand.Proofs.Grammar.Scanner
import Argand.Proofs.Grammar.Transcript
import Argand.Proofs.Grammar.Depth
import Argand.Proofs.Grammar.Limits
import Argand.Proofs.Grammar.Printing
import Argand.Proofs.Grammar.Tiling
import Argand.Proofs.Grammar.Spelling
import Argand.Proofs.Simplification.Field
import Argand.Proofs.Simplification.Normal
import Argand.Proofs.Equation.Solution
import Argand.Proofs.Agreement
import Argand.Proofs.Simplification.Apart
import Argand.Proofs.Simplification.Folding
import Argand.Proofs.Equation.Linear
import Argand.Proofs.Resolution
import Argand.Proofs.Irrelevance
import Argand.Proofs.Multiplicity
import Argand.Proofs.Window.Forgetting
import Argand.Proofs.Window.Session
import Argand.Proofs.Reports
import Argand.Proofs.Saved
import Argand.Proofs.Console
import Argand.Proofs.Window.Dialog
import Argand.Proofs.Display.ReadBack
import Argand.Proofs.Equation.Faults
import Argand.Proofs.RootList
import Argand.Proofs.Display.Exact
import Argand.Proofs.Unsaved
import Argand.Proofs.Display.Construction
import Argand.Proofs.Grammar.Stopping
import Argand.Proofs.Grammar.Progress
import Argand.Proofs.Simplification.Termination
