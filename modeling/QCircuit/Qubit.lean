/-! Qubits and control sets.

Qubits are numbered from one. Qubit `q` is bit `q - 1` of the index of a basis state. -/
namespace QCircuit

structure Qubit where
  number : Nat
deriving DecidableEq, Repr

/-- Why qubits do not fit a gate or a register. A gate's name is given where it is known. -/
inductive GateError where
  | zeroQubit
  | outOfRange (qubit : Qubit) (width : Nat) (gate? : Option String)
  | repeatedControl (qubit : Qubit) (gate? : Option String)
  | controlIsActive (qubit : Qubit) (gate : String)
  | swapWithItself (qubit : Qubit)
deriving DecidableEq, Repr

namespace Qubit

def text (q : Qubit) : String := toString q.number

def bit (q : Qubit) : Nat := q.number - 1

/-- The index in which this qubit alone is set. -/
def mask (q : Qubit) : Nat := 1 <<< q.bit

def isSet (q : Qubit) (index : Nat) : Bool := index.testBit q.bit

def checkRange (q : Qubit) (width : Nat) : Except GateError Unit :=
  if q.number = 0 then .error .zeroQubit
  else if width < q.number then .error (.outOfRange q width none)
  else .ok ()

end Qubit

namespace GateError

def context : Option String → String
  | some name => " (gate: " ++ name ++ ")"
  | none => ""

def message : GateError → String
  | zeroQubit => "Qubit numbers start at 1, got 0"
  | outOfRange qubit width gate? =>
    "Qubit " ++ qubit.text ++ " is out of range: register has " ++ toString width ++ " qubits" ++
      context gate?
  | repeatedControl qubit gate? => "Repeated control qubit " ++ qubit.text ++ context gate?
  | controlIsActive qubit gate =>
    "Control qubit " ++ qubit.text ++ " is also an active qubit" ++ context (some gate)
  | swapWithItself qubit =>
    "SWAP requires two distinct qubits, got " ++ qubit.text ++ " twice"

end GateError

/-- Control qubits in the order in which they are written. -/
structure Controls where
  qubits : List Qubit
deriving DecidableEq, Repr

namespace Controls

def none : Controls := ⟨[]⟩

def isEmpty (controls : Controls) : Bool := controls.qubits.isEmpty

def contains (controls : Controls) (q : Qubit) : Bool := controls.qubits.contains q

-- The first qubit of a list that is `seen` already or stands earlier in the list.
def firstRepeated (seen : List Qubit) : List Qubit → Option Qubit
  | [] => Option.none
  | q :: rest => if seen.contains q then some q else firstRepeated (q :: seen) rest

def firstDuplicate (controls : Controls) : Option Qubit := firstRepeated [] controls.qubits

-- Refuses the first qubit that is zero, is `seen` already or stands earlier in the list.
def checkFrom (seen : List Qubit) : List Qubit → Except GateError Unit
  | [] => .ok ()
  | q :: rest =>
    if q.number = 0 then .error .zeroQubit
    else if seen.contains q then .error (.repeatedControl q Option.none)
    else checkFrom (q :: seen) rest

/-- A control set without repetition. -/
def ofQubits (qubits : List Qubit) : Except GateError Controls := do
  checkFrom [] qubits
  pure ⟨qubits⟩

/-- The index in which the controls alone are set. -/
def mask (controls : Controls) : Nat := controls.qubits.foldl (fun m q => m ||| q.mask) 0

/-- Whether every control is set in an index. -/
def isSatisfied (controls : Controls) (index : Nat) : Bool :=
  index &&& controls.mask == controls.mask

end Controls
end QCircuit
