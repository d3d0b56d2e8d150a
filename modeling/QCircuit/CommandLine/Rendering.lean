import QCircuit.Gate.Codec
import QCircuit.Gate.Text
import QCircuit.Program.Interpreter
import QCircuit.Register.Report
/-! What commands print. -/
namespace QCircuit.CommandLine
open Decimal

/-- An amplitude with six places and the sign of both parts. -/
def amplitudeText (z : Complex Float) : String :=
  fixed .hidden 6 z.re ++ fixed .shown 6 z.im ++ "i"

def padLeft (width : Nat) (s : String) : String :=
  String.ofList (List.replicate (width - s.length) ' ') ++ s

/-- The nearest count to a number, a half counting in full. -/
def nearestCount (x : Float) : Nat :=
  match Binary64.ofFloat x with
  | .finite false mantissa exponent =>
    let (numerator, denominator) := Binary64.fraction mantissa exponent
    roundDiv .away numerator denominator
  | _ => 0

-- One block of the bar stands for two percent.
def barText (percent : Float) : String :=
  String.ofList (List.replicate (nearestCount (percent / 2.0)) '█')

def entryLine (e : BasisEntry Float) : String :=
  let percent := e.probability * 100.0
  "  " ++ padLeft 22 (amplitudeText e.amplitude) ++ " |" ++ e.label ++ ">  " ++
    padLeft 7 (fixed .hidden 3 percent) ++ "% " ++ barText percent

/-- A table does not show probabilities up to this one unless all are asked for. -/
def shownThreshold : Float := 1e-12

def tableLines (report : Report Float) (all : Bool) : List String :=
  let entries := if all then report.entries else report.above shownThreshold
  ["", "✓ Final state (" ++ toString report.numQubits ++ " qubits):"] ++ entries.map entryLine

def runLine (input : String) (p : Program) : String :=
  "→ Ran " ++ input ++ " (" ++ toString p.numQubits ++ " qubits, " ++ toString p.primitiveCount ++
    " gates)"

def listingLine (entry : Nat × Gate Float) : String :=
  String.ofList (List.replicate (2 * entry.1) ' ') ++ entry.2.text

/-- The gates of a program, the members of a group two spaces deeper than the group. -/
def listingLines (p : Program) : List String := (Gate.listingOf 1 p.gates).map listingLine

def summaryLines (input : String) (p : Program) : List String :=
  ["✓ " ++ input ++ " is valid", "  Qubits: " ++ toString p.numQubits,
    "  Gates:  " ++ toString p.gates.length ++ " top-level, " ++ toString p.primitiveCount ++
      " after expansion", ""] ++ listingLines p

def programJson (p : Program) : Json := .array (Gate.toJsonAll p.gates)

def toolVersion : String := "0.1.0"

def toolVersionLine : String := "quill " ++ toolVersion

def versionLines : List String :=
  ["quill v" ++ toolVersion ++ " - quantum circuit language interpreter and simulator", "",
    "Components:",
    "  quill-ir    Gate catalog and composite gates",
    "  quill-sim   Statevector execution engine",
    "  quill-lang  Directive interpreter and expression evaluator",
    "  quill-cli   Command-line interface", "",
    "License: Apache-2.0"]

def usageLines : List String :=
  ["Usage: quill [-v]... run -i FILE [-f table|json] [--all] [--max-qubits N]",
    "       quill [-v]... check -i FILE [-f summary|json] [--max-qubits N]",
    "       quill version",
    "       quill --version"]

end QCircuit.CommandLine
