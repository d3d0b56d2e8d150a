import QCircuit.Gate.Basic
import QCircuit.Json.Value
/-! Gates as JSON.

A variant is an object with its name as the one member, or the bare name if it has no content.
A record is an object with a member for each field, or an array of the fields in order; further
members are ignored, and a field must not occur twice. Empty controls are left out. Reading checks
no qubit. -/
namespace QCircuit

/-- The one value of a field that occurs exactly once. -/
def Json.field? (members : List (String × Json)) (name : String) : Option Json :=
  match valuesOf members name with
  | [value] => some value
  | _ => none

namespace StandardGate

def toJson : StandardGate Float → Json
  | i => .string "I"
  | h => .string "H"
  | x => .string "X"
  | y => .string "Y"
  | z => .string "Z"
  | p a => .object [("P", .float a)]
  | rx a => .object [("Rx", .float a)]
  | ry a => .object [("Ry", .float a)]
  | rz a => .object [("Rz", .float a)]
  | swap q => .object [("Swap", .natural q.number)]

def ofBareName? : String → Option (StandardGate Float)
  | "I" => some i
  | "H" => some h
  | "X" => some x
  | "Y" => some y
  | "Z" => some z
  | _ => none

def ofMember? (name : String) (content : Json) : Option (StandardGate Float) :=
  match name with
  | "P" => content.asFloat?.map p
  | "Rx" => content.asFloat?.map rx
  | "Ry" => content.asFloat?.map ry
  | "Rz" => content.asFloat?.map rz
  | "Swap" => content.asWord32?.map fun n => swap ⟨n⟩
  | name =>
    match content with
    | .null => ofBareName? name
    | _ => none

def ofJson? : Json → Option (StandardGate Float)
  | .string name => ofBareName? name
  | .object [(name, content)] => ofMember? name content
  | _ => none

end StandardGate

namespace Controls

def toJson (controls : Controls) : Json :=
  .array (controls.qubits.map fun q => .natural q.number)

def ofJson? (json : Json) : Option Controls := do
  let items ← json.asArray?
  let numbers ← items.mapM Json.asWord32?
  pure ⟨numbers.map Qubit.mk⟩

end Controls

namespace Operation

def toJson (op : Operation Float) : Json :=
  .object ([("gate", op.gate.toJson), ("target", .natural op.target.number)] ++
    if op.controls.isEmpty then [] else [("controls", op.controls.toJson)])

def ofFields? (gate target : Json) (controls? : Option Json) : Option (Operation Float) := do
  let gate ← StandardGate.ofJson? gate
  let target ← target.asWord32?
  let controls ← match controls? with
    | none => some Controls.none
    | some json => Controls.ofJson? json
  pure ⟨gate, ⟨target⟩, controls⟩

def ofJson? : Json → Option (Operation Float)
  | .object members => do
    let gate ← Json.field? members "gate"
    let target ← Json.field? members "target"
    match Json.valuesOf members "controls" with
    | [] => ofFields? gate target none
    | [controls] => ofFields? gate target (some controls)
    | _ => none
  | .array [gate, target] => ofFields? gate target none
  | .array [gate, target, controls] => ofFields? gate target (some controls)
  | _ => none

end Operation

namespace Gate

mutual

def toJson : Gate Float → Json
  | standard op => .object [("Standard", op.toJson)]
  | composite name members =>
    .object [("Composite", .object [("name", .string name), ("gates", .array (toJsonAll members))])]

def toJsonAll : List (Gate Float) → List Json
  | [] => []
  | g :: rest => g.toJson :: toJsonAll rest

end

mutual

def ofJson? : Json → Option (Gate Float)
  | .object [(variant, content)] =>
    if variant = "Standard" then (Operation.ofJson? content).map standard
    else if variant = "Composite" then compositeOfJson? content
    else none
  | _ => none

def compositeOfJson? : Json → Option (Gate Float)
  | .object members =>
    match fieldsOfJson? members with
    | some ([name], [gates]) => some (composite name gates)
    | _ => none
  | .array [name, gates] => do
    let name ← name.asString?
    let gates ← membersOfJson? gates
    pure (composite name gates)
  | _ => none

-- The values of the fields `name` and `gates` of a group, each as often as it occurs.
def fieldsOfJson? : List (String × Json) → Option (List String × List (List (Gate Float)))
  | [] => some ([], [])
  | (field, value) :: rest => do
    let (names, groups) ← fieldsOfJson? rest
    if field = "name" then
      let name ← value.asString?
      pure (name :: names, groups)
    else if field = "gates" then
      let gates ← membersOfJson? value
      pure (names, gates :: groups)
    else pure (names, groups)

def membersOfJson? : Json → Option (List (Gate Float))
  | .array items => ofJsonAll? items
  | _ => none

def ofJsonAll? : List Json → Option (List (Gate Float))
  | [] => some []
  | item :: rest => do
    let g ← ofJson? item
    let gates ← ofJsonAll? rest
    pure (g :: gates)

end

end Gate
end QCircuit
