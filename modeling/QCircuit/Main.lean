import QCircuit.CommandLine.Perform
/-! The command line tool. -/
open QCircuit CommandLine

namespace QCircuit.Tool

def contentOf (path : String) : IO Content := do
  try
    return .bytes (← IO.FS.readBinFile path)
  catch e =>
    match e with
    | .noFileOrDirectory .. => return .missing
    | e => return .unreadable e.toString

def printAll (p : Printed) : IO UInt32 := do
  let errors ← IO.getStderr
  p.messages.forM fun line => errors.putStrLn line
  IO.print p.outputText
  return p.status.toUInt32

end QCircuit.Tool

def main (args : List String) : IO UInt32 := do
  let limit? ← IO.getEnv Config.variableName
  let invocation := invocationOf args limit?
  let content ← match invocation.input? with
    | some path => Tool.contentOf path
    | none => pure .missing
  Tool.printAll (invocation.perform content)
