import QCircuit.Gate.Text
import QCircuit.Text.Quoted
/-! What happens on the way, for the log.

A log at a level shows the events of that level and of those before it. -/
namespace QCircuit

inductive Level where
  | warn
  | info
  | debug
  | trace
deriving DecidableEq, Repr

namespace Level

def text : Level → String
  | warn => "WARN"
  | info => "INFO"
  | debug => "DEBUG"
  | trace => "TRACE"

def rank : Level → Nat
  | warn => 0
  | info => 1
  | debug => 2
  | trace => 3

def ofVerbosity : Nat → Level
  | 0 => warn
  | 1 => info
  | 2 => debug
  | _ => trace

end Level

inductive Event where
  | registerInitialised (qubits : Nat)
  | definitionRegistered (name : String) (params : List String) (lines : Nat)
  | gatePlaced (line : Nat) (op : Operation Float)
  | emptyLoop (line : Nat) (start stop : Int)
  | loopUnrolled (counter : String) (start stop : Int) (depth : Nat)
  | macroExpanded (name : String) (arguments gates : Nat)
  | programInterpreted (qubits gates definitions : Nat)
  | programStarted (input : String) (qubits gates : Nat)
  | gateApplied (gate : Gate Float)
  | gatesExecuted (gates qubits : Nat)
  | programExecuted (qubits gates : Nat)

namespace Event

def level : Event → Level
  | emptyLoop .. => .warn
  | registerInitialised .. | programInterpreted .. | programStarted .. | programExecuted .. => .info
  | definitionRegistered .. | loopUnrolled .. | macroExpanded .. | gatesExecuted .. => .debug
  | gatePlaced .. | gateApplied .. => .trace

def field (name value : String) : String := " " ++ name ++ "=" ++ value

def count (name : String) (n : Nat) : String := field name (toString n)

def listText (items : List String) : String := "[" ++ ", ".intercalate items ++ "]"

def text : Event → String
  | registerInitialised qubits => "register initialised" ++ count "qubits" qubits
  | definitionRegistered name params lines =>
    "definition registered" ++ field "name" name ++
      field "params" (listText (params.map Text.quoted)) ++ count "lines" lines
  | gatePlaced line op => "gate" ++ count "line" line ++ field "op" op.text
  | emptyLoop line start stop =>
    "empty loop range, body skipped" ++ count "line" line ++ field "start" (toString start) ++
      field "end" (toString stop)
  | loopUnrolled counter start stop depth =>
    "unrolling loop" ++ field "variable" counter ++ field "start" (toString start) ++
      field "end" (toString stop) ++ count "depth" depth
  | macroExpanded name arguments gates =>
    "macro expanded" ++ field "name" (Text.quoted name) ++ count "arguments" arguments ++
      count "gates" gates
  | programInterpreted qubits gates definitions =>
    "program interpreted" ++ count "qubits" qubits ++ count "gates" gates ++
      count "definitions" definitions
  | programStarted input qubits gates =>
    "running program" ++ field "input" (Text.quoted input) ++ count "qubits" qubits ++
      count "gates" gates
  | gateApplied gate => "applying gate" ++ field "gate" gate.text
  | gatesExecuted gates qubits =>
    "gate list executed" ++ count "gates" gates ++ count "qubits" qubits
  | programExecuted qubits gates =>
    "program executed" ++ count "qubits" qubits ++ count "gates" gates

/-- The log line of an event. -/
def line (e : Event) : String := e.level.text ++ " " ++ e.text

end Event

/-- The lines of a log at a level. -/
def shownLog (level : Level) (log : List Event) : List String :=
  (log.filter fun e => e.level.rank ≤ level.rank).map Event.line

end QCircuit
