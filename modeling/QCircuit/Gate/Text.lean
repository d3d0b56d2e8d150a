import QCircuit.Gate.Basic
import QCircuit.Decimal.Layout
/-! Gates as text.

An operation is written as a line of source text that places it again: the name, with a `C` in
front if there are controls, the target, the partner or the angle, and the controls after a bar. A
group is written as its name and the number of its operations. -/
namespace QCircuit

def controlsText (controls : Controls) : String :=
  if controls.isEmpty then ""
  else " |" ++ String.join (controls.qubits.map fun q => " " ++ q.text)

def Operation.text (op : Operation Float) : String :=
  let head := (if op.controls.isEmpty then "" else "C") ++ op.gate.name
  let partner := match op.gate.partner? with
    | some q => " " ++ q.text
    | none => ""
  let angle := match op.gate.angle? with
    | some a => " " ++ Decimal.plainText a
    | none => ""
  head ++ " " ++ op.target.text ++ partner ++ angle ++ controlsText op.controls

def Gate.text : Gate Float → String
  | standard op => op.text
  | composite name members => name ++ " [" ++ toString (primitiveCountOf members) ++ " gates]"

end QCircuit
