import QCircuit.Program.Directive
import QCircuit.Text.Blank
/-! Source text.

A line counts if it has a word and its first word does not begin with `//`. Lines are numbered
from one, the others included. -/
namespace QCircuit
open Text

structure Line where
  number : Nat
  head : String
  operands : List String
deriving DecidableEq, Repr

def Line.role (line : Line) : Role := Role.ofWord line.head

/-- The line with these words, if it counts. -/
def Line.ofWords? (number : Nat) : List (List Char) → Option Line
  | [] => none
  | head :: operands =>
    if startsComment head then none
    else some ⟨number, String.ofList head, operands.map String.ofList⟩

structure Source where
  /-- The number of all lines. -/
  lineCount : Nat
  /-- The lines that count. -/
  lines : List Line
deriving DecidableEq, Repr

def Source.ofText (text : String) : Source :=
  let all := Text.lines text.toList
  ⟨all.length, (all.zipIdx 1).filterMap fun (line, number) => Line.ofWords? number (words line)⟩

end QCircuit
