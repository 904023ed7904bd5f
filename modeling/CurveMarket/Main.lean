import CurveMarket.Calculator.Run

/-!
# The command line of the calculator

Reads the document that the options name, runs the calculator and prints what it gives.
-/

namespace CurveMarket.Calculator

/-- The characters of a text, with a replacement for each that cannot be printed. -/
def printable (t : Text) : String :=
  String.ofList (t.points.map fun p => if p.isSurrogate then '\uFFFD' else Char.ofNat p.val)

/-- The document that a command line names; an empty one when it names none. -/
def readDocument (arguments : List Text) : IO String :=
  match Options.ofArguments arguments with
  | .ok o => if o.config.isEmpty then pure "" else IO.FS.readFile (printable o.config)
  | .error _ => pure ""

def perform (arguments : List Text) : IO UInt32 := do
  let document ← readDocument arguments
  match run (fun _ => Settings.parse document) arguments with
  | .ok outcome =>
    IO.print (printable outcome.output)
    match outcome.exit with
    | .code n => return n.toUInt32
    | .reason t =>
      IO.eprintln (printable t)
      return 1
  | .error e =>
    IO.eprintln (printable e.message)
    return 1

end CurveMarket.Calculator

def main (arguments : List String) : IO UInt32 :=
  CurveMarket.Calculator.perform (arguments.map CurveMarket.Text.ofString)
