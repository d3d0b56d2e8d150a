import QCircuit.Register.Basic
import QCircuit.Json.Value
/-! Reports on a register.

A report has one entry for each basis state, in the order of the indices. -/
namespace QCircuit

/-- An index in binary, padded with zeros to the number of qubits; qubit one is rightmost. -/
def basisLabel (index numQubits : Nat) : String :=
  let digits := Nat.toDigits 2 index
  String.ofList (List.replicate (numQubits - digits.length) '0' ++ digits)

structure BasisEntry (R : Type) where
  index : Nat
  label : String
  amplitude : Complex R
  probability : R
deriving DecidableEq, Repr

structure Report (R : Type) where
  numQubits : Nat
  entries : List (BasisEntry R)
deriving DecidableEq, Repr

namespace Report
variable {R : Type} [Scalar R]

def ofRegister (r : Register R) : Report R :=
  let pairs := r.amplitudes.toList.zip r.probabilities.toList
  ⟨r.numQubits, pairs.zipIdx.map fun ((z, p), n) => ⟨n, basisLabel n r.numQubits, z, p⟩⟩

/-- The entries whose probability is above a threshold. -/
def above (report : Report R) (threshold : R) : List (BasisEntry R) :=
  report.entries.filter fun e => Scalar.less threshold e.probability

def get? (report : Report R) (label : String) : Option (BasisEntry R) :=
  report.entries.find? (·.label == label)

end Report

def BasisEntry.toJson (e : BasisEntry Float) : Json :=
  .object [("index", .natural e.index), ("label", .string e.label),
    ("amplitude", .array [.float e.amplitude.re, .float e.amplitude.im]),
    ("probability", .float e.probability)]

def Report.toJson (report : Report Float) : Json :=
  .object [("num_qubits", .natural report.numQubits),
    ("entries", .array (report.entries.map BasisEntry.toJson))]

end QCircuit
