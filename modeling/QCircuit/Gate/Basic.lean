import QCircuit.Gate.Kind
/-! Gates on qubits.

An operation is one gate of the catalog on given qubits. A gate is an operation or a named group
of gates, whose operations in order are its leaves. -/
namespace QCircuit

structure Operation (R : Type) where
  gate : StandardGate R
  target : Qubit
  controls : Controls
deriving DecidableEq, Repr

inductive Gate (R : Type) where
  | standard (op : Operation R)
  | composite (name : String) (members : List (Gate R))

namespace Operation
variable {R : Type}

/-- The qubits that the gate changes: the target, and the partner of a swap. -/
def active (op : Operation R) : List Qubit := op.target :: op.gate.partner?.toList

/-- Every qubit of the operation, the controls last. -/
def qubits (op : Operation R) : List Qubit := op.active ++ op.controls.qubits

def checkPartner (op : Operation R) : Except GateError Unit :=
  match op.gate.partner? with
  | none => .ok ()
  | some partner =>
    if partner.number = 0 then .error .zeroQubit
    else if partner = op.target then .error (.swapWithItself op.target)
    else .ok ()

/-- Refuses a qubit zero among the active ones and a qubit that occurs twice. -/
def checkDistinct (op : Operation R) : Except GateError Unit := do
  if op.target.number = 0 then .error .zeroQubit
  op.checkPartner
  match op.active.find? op.controls.contains with
  | some q => .error (.controlIsActive q op.gate.name)
  | none =>
    match op.controls.firstDuplicate with
    | some q => .error (.repeatedControl q (some op.gate.name))
    | none => .ok ()

-- The range check of a qubit, with the gate named in the error.
def checkQubit (op : Operation R) (width : Nat) (q : Qubit) : Except GateError Unit :=
  match q.checkRange width with
  | .error (.outOfRange q width _) => .error (.outOfRange q width (some op.gate.name))
  | result => result

/-- Refuses an operation whose qubits are not distinct qubits of the register. -/
def validate (op : Operation R) (width : Nat) : Except GateError Unit := do
  op.checkDistinct
  op.qubits.forM (op.checkQubit width)

/-- An operation whose qubits are distinct. -/
def make (gate : StandardGate R) (target : Qubit) (controls : Controls) :
    Except GateError (Operation R) := do
  let op : Operation R := ⟨gate, target, controls⟩
  op.checkDistinct
  pure op

end Operation

namespace Gate
variable {R : Type}

def name : Gate R → String
  | standard op => op.gate.name
  | composite name _ => name

mutual

/-- The operations of a gate, from left to right. -/
def leaves : Gate R → List (Operation R)
  | standard op => [op]
  | composite _ members => leavesOf members

def leavesOf : List (Gate R) → List (Operation R)
  | [] => []
  | g :: rest => g.leaves ++ leavesOf rest

end

mutual

/-- The number of operations of a gate. -/
def primitiveCount : Gate R → Nat
  | standard _ => 1
  | composite _ members => primitiveCountOf members

def primitiveCountOf : List (Gate R) → Nat
  | [] => 0
  | g :: rest => g.primitiveCount + primitiveCountOf rest

end

mutual

/-- Refuses a gate with an operation that does not fit the register; the first one is named. -/
def validate (width : Nat) : Gate R → Except GateError Unit
  | standard op => op.validate width
  | composite _ members => validateAll width members

def validateAll (width : Nat) : List (Gate R) → Except GateError Unit
  | [] => .ok ()
  | g :: rest => do
    g.validate width
    validateAll width rest

end

mutual

/-- A gate and, one level deeper, the members of a group, in order. -/
def listing (depth : Nat) : Gate R → List (Nat × Gate R)
  | standard op => [(depth, standard op)]
  | composite name members => (depth, composite name members) :: listingOf (depth + 1) members

def listingOf (depth : Nat) : List (Gate R) → List (Nat × Gate R)
  | [] => []
  | g :: rest => g.listing depth ++ listingOf depth rest

end

end Gate
end QCircuit
