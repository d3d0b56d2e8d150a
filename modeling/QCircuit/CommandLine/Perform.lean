import QCircuit.CommandLine.Arguments
import QCircuit.CommandLine.Rendering
/-! Carrying out a command.

A command depends on the world through the content of its input file only. It prints either its
whole output or one line that says why there is none. -/
namespace QCircuit.CommandLine

/-- What is found under the path of an input file. -/
inductive Content where
  | missing
  | unreadable (reason : String)
  | bytes (data : ByteArray)

/-- The lines that a command writes, and its exit status. -/
structure Printed where
  output : List String
  messages : List String
  status : Nat
deriving DecidableEq, Repr

def failure (log : List String) (message : String) : Printed :=
  ⟨[], log ++ ["Error: " ++ message], 1⟩

def loadSource (path : String) : Content → Except String String
  | .missing => .error ("File not found: " ++ path)
  | .unreadable reason => .error ("Failed to read file: " ++ path ++ ": " ++ reason)
  | .bytes data =>
    match String.fromUTF8? data with
    | some text => .ok text
    | none =>
      .error ("Failed to read file: " ++ path ++ ": stream did not contain valid UTF-8")

-- JSON is printed in its pretty form, as one piece.
def jsonLines (json : Json) : List String := [json.pretty]

def unknownFormat (format available : String) : Printed :=
  failure [] ("Unknown format: '" ++ format ++ "'. Available: " ++ available)

/-- Loads a program and goes on with it and the log so far. -/
def withProgram (level : Level) (path : String) (config : Config) (content : Content)
    (next : Program → List String → Printed) : Printed :=
  match loadSource path content with
  | .error message => failure [] message
  | .ok text =>
    let run := interpret config text
    let log := shownLog level run.log
    match run.result with
    | .error fault => failure log ("Parse error: " ++ fault.message)
    | .ok program => next program log

def performRun (level : Level) (input format : String) (all : Bool) (config : Config)
    (content : Content) : Printed :=
  if format ≠ "table" ∧ format ≠ "json" then unknownFormat format "table, json"
  else withProgram level input config content fun program log =>
    let started := Event.programStarted input program.numQubits program.primitiveCount
    let log := log ++ shownLog level (started :: program.executionLog)
    match program.execute with
    | (_, some e) => failure log ("Execution failed: " ++ e.message)
    | (r, none) =>
      let report := Report.ofRegister r
      if format = "json" then ⟨jsonLines report.toJson, log, 0⟩
      else ⟨runLine input program :: tableLines report all, log, 0⟩

def performCheck (level : Level) (input format : String) (config : Config) (content : Content) :
    Printed :=
  if format ≠ "summary" ∧ format ≠ "json" then unknownFormat format "summary, json"
  else withProgram level input config content fun program log =>
    if format = "json" then ⟨jsonLines (programJson program), log, 0⟩
    else ⟨summaryLines input program, log, 0⟩

/-- The path whose content a command needs. -/
def Command.input? : Command → Option String
  | .run input _ _ _ => some input
  | .check input _ _ => some input
  | .version => none

def Command.perform (c : Command) (verbosity : Nat) (content : Content) : Printed :=
  match c with
  | .run input format all config =>
    performRun (Level.ofVerbosity verbosity) input format all config content
  | .check input format config =>
    performCheck (Level.ofVerbosity verbosity) input format config content
  | .version => ⟨versionLines, [], 0⟩

/-- The path whose content an invocation needs. -/
def Invocation.input? : Invocation → Option String
  | .command _ c => c.input?
  | _ => none

def Invocation.perform (invocation : Invocation) (content : Content) : Printed :=
  match invocation with
  | .command verbosity c => c.perform verbosity content
  | .toolVersion => ⟨[toolVersionLine], [], 0⟩
  | .help => ⟨usageLines, [], 0⟩
  | .misuse => ⟨[], usageLines, 2⟩

def Printed.outputText (p : Printed) : String := String.join (p.output.map fun line => line ++ "\n")

end QCircuit.CommandLine
