import QCircuit.Json.Printer
import QCircuit.Json.Reader
import QCircuit.Register.Basic
import QCircuit.Text.Blank
/-! Limits of an interpretation. -/
namespace QCircuit

structure Config where
  maxQubits : Nat
deriving DecidableEq, Repr

namespace Config

def defaultMaxQubits : Nat := 24

/-- The variable of the environment that gives the width allowed by default. -/
def variableName : String := "QUILL_MAX_QUBITS"

/-- The configuration for a value of the variable. A text that is no count is passed over. -/
def ofVariable (value? : Option String) : Config :=
  ⟨(value?.bind fun text => Text.word32? (Text.trim text.toList)).getD defaultMaxQubits⟩

/-- The widest register that a program may ask for. -/
def qubitLimit (config : Config) : Nat := min config.maxQubits (Register.maxQubits)

def toJson (config : Config) : Json := .object [("max_qubits", .natural config.maxQubits)]

def ofJson? : Json → Option Config
  | .object members =>
    match Json.valuesOf members "max_qubits" with
    | [value] => value.asWord32?.map Config.mk
    | _ => none
  | .array [value] => value.asWord32?.map Config.mk
  | _ => none

def parse? (text : String) : Option Config := (Json.parse? text).bind ofJson?

end Config
end QCircuit
