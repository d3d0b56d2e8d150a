import QCircuit.Program.Config
/-! Arguments of the command line.

Options stand before or behind the name of the command; only the verbosity may stand in front of it.
A long option takes its value behind an equals sign or as the next argument. Short options may be
put together, and the last of them takes the rest as its value. Each option but the verbosity is
given at most once. -/
namespace QCircuit.CommandLine

inductive Command where
  | run (input format : String) (all : Bool) (config : Config)
  | check (input format : String) (config : Config)
  | version
deriving DecidableEq, Repr

/-- What a command line asks for. -/
inductive Invocation where
  | command (verbosity : Nat) (c : Command)
  | toolVersion
  | help
  | misuse
deriving DecidableEq, Repr

inductive Flag where
  | verbose
  | all
  | version
  | help
deriving DecidableEq, Repr

inductive ValueOption where
  | input
  | format
  | maxQubits
deriving DecidableEq, Repr

inductive AnyOption where
  | flag (f : Flag)
  | value (o : ValueOption)
deriving DecidableEq, Repr

/-- Where an option is read: in front of the command, or behind it. -/
inductive Place where
  | front
  | run
  | check
  | version
deriving DecidableEq, Repr

namespace Place

def long? : Place → String → Option AnyOption
  | _, "verbose" => some (.flag .verbose)
  | _, "help" => some (.flag .help)
  | front, "version" => some (.flag .version)
  | run, "all" => some (.flag .all)
  | run, "input" | check, "input" => some (.value .input)
  | run, "format" | check, "format" => some (.value .format)
  | run, "max-qubits" | check, "max-qubits" => some (.value .maxQubits)
  | _, _ => none

def short? : Place → Char → Option AnyOption
  | _, 'v' => some (.flag .verbose)
  | _, 'h' => some (.flag .help)
  | front, 'V' => some (.flag .version)
  | run, 'i' | check, 'i' => some (.value .input)
  | run, 'f' | check, 'f' => some (.value .format)
  | _, _ => none

end Place

/-- The options that have been read. -/
structure Options where
  verbosity : Nat
  all : Bool
  input? : Option String
  format? : Option String
  maxQubits? : Option Nat
deriving DecidableEq, Repr

def Options.none : Options := ⟨0, false, Option.none, Option.none, Option.none⟩

abbrev Outcome (α : Type) := Except Invocation α

/-- The widths that may be asked for. -/
def widthOfText? (text : String) : Option Nat :=
  match Text.signed? text.toList with
  | some n => if 1 ≤ n ∧ n ≤ Register.maxQubits then some n.toNat else none
  | none => none

def Options.setFlag (o : Options) : Flag → Outcome Options
  | .verbose => .ok { o with verbosity := o.verbosity + 1 }
  | .all => if o.all then .error .misuse else .ok { o with all := true }
  | .version => .error .toolVersion
  | .help => .error .help

def Options.setValue (o : Options) : ValueOption → String → Outcome Options
  | .input, v => if o.input?.isSome then .error .misuse else .ok { o with input? := some v }
  | .format, v => if o.format?.isSome then .error .misuse else .ok { o with format? := some v }
  | .maxQubits, v =>
    match o.maxQubits?, widthOfText? v with
    | Option.none, some n => .ok { o with maxQubits? := some n }
    | _, _ => .error .misuse

-- Short options put together. The last may still wait for its value.
def readCluster (place : Place) (o : Options) : List Char → Outcome (Options × Option ValueOption)
  | [] => .ok (o, none)
  | c :: rest =>
    match place.short? c with
    | none => .error .misuse
    | some (.flag f) => do
      let o ← o.setFlag f
      readCluster place o rest
    | some (.value option) =>
      match rest with
      | [] => .ok (o, some option)
      | '=' :: v => do
        let o ← o.setValue option (String.ofList v)
        .ok (o, none)
      | v => do
        let o ← o.setValue option (String.ofList v)
        .ok (o, none)

-- The name of a long option, and the value behind an equals sign.
def splitEquals : List Char → List Char × Option (List Char)
  | [] => ([], none)
  | c :: rest =>
    if c = '=' then ([], some rest) else (c :: (splitEquals rest).1, (splitEquals rest).2)

def readLong (place : Place) (o : Options) (text : List Char) :
    Outcome (Options × Option ValueOption) :=
  let (name, v?) := splitEquals text
  match place.long? (String.ofList name), v? with
  | some (.flag f), none => do
    let o ← o.setFlag f
    .ok (o, none)
  | some (.value option), some v => do
    let o ← o.setValue option (String.ofList v)
    .ok (o, none)
  | some (.value option), none => .ok (o, some option)
  | _, _ => .error .misuse

/-- An argument as an option: what it sets, and the option that takes the next argument. -/
def readOption (place : Place) (o : Options) : List Char → Outcome (Options × Option ValueOption)
  | '-' :: '-' :: name => readLong place o name
  | '-' :: cluster => readCluster place o cluster
  | _ => .error .misuse

/-- Whether an argument is read as an option. A dash alone is not. -/
def isOption (arg : String) : Bool :=
  match arg.toList with
  | '-' :: _ :: _ => true
  | _ => false

-- The options behind a command, which takes no other argument. Two dashes end them.
def readOptions (place : Place) (o : Options) : List String → Outcome Options
  | [] => .ok o
  | ["--"] => .ok o
  | arg :: rest =>
    if !isOption arg then .error .misuse
    else do
      let (o, pending) ← readOption place o arg.toList
      match pending, rest with
      | none, rest => readOptions place o rest
      | some option, v :: rest =>
        if isOption v then .error .misuse
        else do
          let o ← o.setValue option v
          readOptions place o rest
      | some _, [] => .error .misuse

/-- The configuration for an option, or else for the variable of the environment. -/
def configOf (o : Options) (limit? : Option String) : Outcome Config :=
  match o.maxQubits?, limit? with
  | some n, _ => .ok ⟨n⟩
  | none, some text =>
    match widthOfText? text with
    | some n => .ok ⟨n⟩
    | none => .error .misuse
  | none, none => .ok (Config.ofVariable none)

def inputOf (o : Options) : Outcome String :=
  match o.input? with
  | some input => .ok input
  | none => .error .misuse

/-- The verbosity behind the command counts if there is one, and else the one in front of it. -/
def verbosityOf (front behind : Options) : Nat :=
  if behind.verbosity = 0 then front.verbosity else behind.verbosity

/-- Whether there is help on these words: on the tool, or on one of its commands. -/
def isTopic : List String → Bool
  | [] => true
  | [name] => name ∈ ["run", "check", "version", "help"]
  | _ => false

def readCommand (front : Options) (limit? : Option String) (name : String)
    (rest : List String) : Outcome Invocation :=
  match name with
  | "run" => do
    let o ← readOptions .run Options.none rest
    let input ← inputOf o
    let config ← configOf o limit?
    .ok (.command (verbosityOf front o) (.run input (o.format?.getD "table") o.all config))
  | "check" => do
    let o ← readOptions .check Options.none rest
    let input ← inputOf o
    let config ← configOf o limit?
    .ok (.command (verbosityOf front o) (.check input (o.format?.getD "summary") config))
  | "version" => do
    let o ← readOptions .version Options.none rest
    .ok (.command (verbosityOf front o) .version)
  | "help" => if isTopic rest then .ok .help else .error .misuse
  | _ => .error .misuse

def readFront (limit? : Option String) (front : Options) : List String → Outcome Invocation
  | [] => .error .misuse
  | arg :: rest =>
    if isOption arg then do
      let (front, _) ← readOption .front front arg.toList
      readFront limit? front rest
    else readCommand front limit? arg rest

/-- What arguments ask for, given the variable of the environment that limits the width. -/
def invocationOf (args : List String) (limit? : Option String) : Invocation :=
  match readFront limit? Options.none args with
  | .ok invocation => invocation
  | .error invocation => invocation

end QCircuit.CommandLine
