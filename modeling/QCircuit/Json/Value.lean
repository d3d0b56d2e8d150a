/-! JSON values.

A number is an integer of 64 bits, signed or unsigned, or else a double. An object keeps its
members in the order in which they are written. Text can hold a string, or the name of a member,
with half of a surrogate pair; the string or the object is then garbled, and a reader of values can
only pass over it. -/
namespace QCircuit

inductive Json where
  | null
  | bool (b : Bool)
  | integer (n : Int)
  | float (x : Float)
  | string (s : String)
  | array (items : List Json)
  | object (members : List (String × Json))
  | garbled

namespace Json

/-- Integers that are read as such; any other number is read as a double. -/
def holdsInteger (n : Int) : Bool := -0x8000000000000000 ≤ n && n < 0x10000000000000000

def natural (n : Nat) : Json := .integer n

/-- The values of the members of a name, in order. -/
def valuesOf (members : List (String × Json)) (name : String) : List Json :=
  (members.filter fun m => m.1 == name).map (·.2)

def asString? : Json → Option String
  | string s => some s
  | _ => none

def asArray? : Json → Option (List Json)
  | array items => some items
  | _ => none

-- A count or a qubit number: an integer of 32 bits without a sign.
def asWord32? : Json → Option Nat
  | integer n => if 0 ≤ n ∧ n < 0x100000000 then some n.toNat else none
  | _ => none

-- A number beyond the finite doubles is no double.
def asFloat? : Json → Option Float
  | integer n => some (Float.ofInt n)
  | float x => if x.isFinite then some x else none
  | _ => none

end Json
end QCircuit
