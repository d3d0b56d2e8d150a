import QCircuit.Qubit
/-! The catalog of gates.

A kind says which gate is meant before its operands are known; its shape says which operands it
takes besides the controls. -/
namespace QCircuit

inductive Shape where
  | single
  | angle
  | pair
deriving DecidableEq, Repr

inductive GateKind where
  | i
  | h
  | x
  | y
  | z
  | p
  | rx
  | ry
  | rz
  | swap
deriving DecidableEq, Repr

namespace GateKind

/-- The name of the uncontrolled gate in source text. -/
def name : GateKind → String
  | i => "I"
  | h => "H"
  | x => "X"
  | y => "Y"
  | z => "Z"
  | p => "P"
  | rx => "RX"
  | ry => "RY"
  | rz => "RZ"
  | swap => "SWAP"

def ofName? : String → Option GateKind
  | "I" => some i
  | "H" => some h
  | "X" => some x
  | "Y" => some y
  | "Z" => some z
  | "P" => some p
  | "RX" => some rx
  | "RY" => some ry
  | "RZ" => some rz
  | "SWAP" => some swap
  | _ => none

def shape : GateKind → Shape
  | i | h | x | y | z => .single
  | p | rx | ry | rz => .angle
  | swap => .pair

end GateKind

/-- A gate with its parameter. Angles are in radians. -/
inductive StandardGate (R : Type) where
  | i
  | h
  | x
  | y
  | z
  | p (angle : R)
  | rx (angle : R)
  | ry (angle : R)
  | rz (angle : R)
  | swap (partner : Qubit)
deriving DecidableEq, Repr

namespace StandardGate
variable {R : Type}

def kind : StandardGate R → GateKind
  | i => .i
  | h => .h
  | x => .x
  | y => .y
  | z => .z
  | p _ => .p
  | rx _ => .rx
  | ry _ => .ry
  | rz _ => .rz
  | swap _ => .swap

def name (gate : StandardGate R) : String := gate.kind.name

def angle? : StandardGate R → Option R
  | p a | rx a | ry a | rz a => some a
  | _ => none

def partner? : StandardGate R → Option Qubit
  | swap q => some q
  | _ => none

end StandardGate

/-- The gate of a kind, if exactly the operand that fits its shape is given. -/
def GateKind.instantiate? {R : Type} (kind : GateKind) (angle? : Option R)
    (partner? : Option Qubit) : Option (StandardGate R) :=
  match kind, angle?, partner? with
  | .i, none, none => some .i
  | .h, none, none => some .h
  | .x, none, none => some .x
  | .y, none, none => some .y
  | .z, none, none => some .z
  | .p, some a, none => some (.p a)
  | .rx, some a, none => some (.rx a)
  | .ry, some a, none => some (.ry a)
  | .rz, some a, none => some (.rz a)
  | .swap, none, some q => some (.swap q)
  | _, _, _ => none

end QCircuit
