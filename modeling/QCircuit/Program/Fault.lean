import QCircuit.Expr.Parser
import QCircuit.Qubit
/-! Why a program is refused.

A fault has a line and a cause. Causes are of five kinds: a directive where the scope forbids it, a
bad name, bad operands, an expression without a value, and a word without a meaning. -/
namespace QCircuit

/-- What a qubit does in a gate. -/
inductive QubitRole where
  | active
  | second
  | control
deriving DecidableEq, Repr

def QubitRole.text : QubitRole → String
  | active => "Active"
  | second => "Second"
  | control => "Control"

inductive FaultKind where
  | scope
  | name
  | argument
  | evaluation
  | lookup
deriving DecidableEq, Repr

inductive Cause where
  | initInLoop
  | initInDefinition
  | alreadyInitialised
  | notInitialised
  | neverInitialised
  | defineInLoop
  | defineInDefinition
  | endDefineInLoop
  | noDefinitionOpen
  | noLoopOpen
  | loopNotClosed
  | definitionNotClosed (name : String)
  | emptyName
  | nameTaken (name : String)
  | numericName (name : String)
  | invalidName (name : String)
  | selfInvocation (name : String)
  | noQubitCount
  | invalidQubitCount (word : String)
  | zeroQubitCount
  | qubitCountAboveLimit (count limit : Nat)
  | unexpectedWord (word : String)
  | invalidParameter (word : String)
  | repeatedParameter (word : String)
  | noLoopVariable
  | invalidLoopVariable (word : String)
  | noRangeSeparator
  | fractionalBound (value : Float)
  | argumentCount (name : String) (expected given : Nat)
  | noControls
  | missingControls (head : String)
  | unwantedControls (head : String)
  | noActiveQubit
  | noAngle
  | noSecondQubit
  | fractionalQubit (role : QubitRole) (value : Float)
  | qubitOutOfRange (role : QubitRole) (width : Nat) (value : Float)
  | invalidGate (e : GateError)
  | invalidExpression (e : ExprError)
  | unknownSymbol (symbol : String)
deriving DecidableEq

namespace Cause

def kind : Cause → FaultKind
  | initInLoop | initInDefinition | alreadyInitialised | notInitialised | neverInitialised
  | defineInLoop | defineInDefinition | endDefineInLoop | noDefinitionOpen | noLoopOpen
  | loopNotClosed | definitionNotClosed _ => .scope
  | emptyName | nameTaken _ | numericName _ | invalidName _ | selfInvocation _ => .name
  | invalidExpression _ => .evaluation
  | unknownSymbol _ => .lookup
  | _ => .argument

def quoted (text : String) : String := "'" ++ text ++ "'"

def message : Cause → String
  | initInLoop => "init cannot be declared in loop"
  | initInDefinition => "init cannot be declared in definition"
  | alreadyInitialised => "Circuit already initialised"
  | notInitialised => "Circuit must be initialised"
  | neverInitialised => "EOF - circuit was never initialised"
  | defineInLoop => "def cannot be declared in loop"
  | defineInDefinition => "def cannot be declared in definition"
  | endDefineInLoop => "endef cannot be declared in loop"
  | noDefinitionOpen => "No function defined"
  | noLoopOpen => "No loop defined"
  | loopNotClosed => "EOF - loop not closed"
  | definitionNotClosed name => "EOF - definition " ++ quoted name ++ " not closed"
  | emptyName => "empty def name"
  | nameTaken name => "Name already defined - " ++ quoted name
  | numericName name => "Invalid name, name can't be a number - " ++ quoted name
  | invalidName name => "Invalid name - " ++ quoted name
  | selfInvocation name => "Definition cannot invoke itself - " ++ quoted name
  | noQubitCount => "no number of qubits given"
  | invalidQubitCount word => "number of qubits must be a positive integer, got " ++ quoted word
  | zeroQubitCount => "number of qubits must be greater than zero"
  | qubitCountAboveLimit count limit =>
    "number of qubits " ++ toString count ++ " exceeds the limit of " ++ toString limit
  | unexpectedWord word => "invalid syntax: unexpected " ++ quoted word
  | invalidParameter word => "parameter " ++ quoted word ++ " must be a '$' variable"
  | repeatedParameter word => "Repeated parameter - " ++ quoted word
  | noLoopVariable => "No loop variable given"
  | invalidLoopVariable word => "loop variable " ++ quoted word ++ " must be a '$' variable"
  | noRangeSeparator => "Start and End must be separated by ':'"
  | fractionalBound value => "loop bounds must be integers, got " ++ Decimal.plainText value
  | argumentCount name expected given =>
    "invalid number of vars: " ++ quoted name ++ " expects " ++ toString expected ++ ", got " ++
      toString given
  | noControls => "Requires control qubit(s)"
  | missingControls head => head ++ " needs '|' followed by control qubits"
  | unwantedControls head =>
    head ++ " is not a controlled gate; use C" ++ head ++ " for control qubits"
  | noActiveQubit => "Requires active qubit"
  | noAngle => "Requires angle to be given"
  | noSecondQubit => "Requires second qubit"
  | fractionalQubit role value =>
    role.text ++ " qubit number must be integer, got " ++ Decimal.plainText value
  | qubitOutOfRange role width value =>
    role.text ++ " qubit number must be between 1 and " ++ toString width ++ ", got " ++
      Decimal.plainText value
  | invalidGate e => e.message
  | invalidExpression e => "Invalid expression: " ++ e.message
  | unknownSymbol symbol => "Symbol not found - " ++ quoted symbol

end Cause

structure Fault where
  line : Nat
  cause : Cause
deriving DecidableEq

def Fault.message (fault : Fault) : String :=
  fault.cause.message ++ " (line " ++ toString fault.line ++ ")"

end QCircuit
