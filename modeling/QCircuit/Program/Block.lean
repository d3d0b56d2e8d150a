import QCircuit.Program.GateLine
import QCircuit.Program.Loop
/-! Running lines in an initialised circuit.

A definition sees the definitions before it, so the lines that a call leads to, together with those
of the definitions that are left, are fewer than the definitions had, and a loop leads to fewer
lines. This is why every block comes to an end. -/
namespace QCircuit

/-- A definition that has been closed, with the lines on which it begins and ends. -/
structure Macro where
  name : String
  params : List String
  body : List Line
  openedAt : Nat
  closedAt : Nat
deriving DecidableEq, Repr

/-- The definition of a name and those before it. Definitions are given latest first. -/
def findMacro (name : String) : List Macro → Option (Macro × List Macro)
  | [] => none
  | m :: older => if m.name = name then some (m, older) else findMacro name older

/-- The number of lines of definitions, the first lines included. -/
def linesOf : List Macro → Nat
  | [] => 0
  | m :: older => m.body.length + 1 + linesOf older

theorem findMacro_shorter {name : String} {macros older : List Macro} {m : Macro}
    (found : findMacro name macros = some (m, older)) :
    m.body.length + linesOf older < linesOf macros := by
  induction macros with
  | nil => simp [findMacro] at found
  | cons first rest ih =>
    unfold findMacro at found
    split at found
    · simp only [Option.some.injEq, Prod.mk.injEq] at found
      obtain ⟨rfl, rfl⟩ := found
      simp only [linesOf]
      omega
    · have := ih found
      simp only [linesOf]
      omega

/-- The values of operands, from left to right. -/
def argumentValues (line : Line) (env : Environment) : Except Fault (List Float) :=
  line.operands.mapM (evalOperand line.number env)

/-- The environment of a call, in which the parameters alone are bound. -/
def bindArguments (env : Environment) (line : Line) (m : Macro) : Except Fault Environment :=
  if line.operands.length ≠ m.params.length then
    refuse line.number (.argumentCount line.head m.params.length line.operands.length)
  else do
    let values ← argumentValues line env
    .ok (Environment.ofBindings (m.params.zip values))

set_option linter.unusedVariables false in
/-- The gates of lines in a circuit of `width` qubits, inside `depth` loops. -/
def runBlock (width : Nat) (macros : List Macro) (depth : Nat) (env : Environment) :
    List Line → Logged (List (Gate Float))
  | [] => pure []
  | line :: rest =>
    match line.role with
    | .keyword .init => .refuse line.number .initInLoop
    | .keyword .define => .refuse line.number .defineInLoop
    | .keyword .endDefine => .refuse line.number .endDefineInLoop
    | .keyword .endLoop => .refuse line.number .noLoopOpen
    | .keyword .loop =>
      match opened : openLoop env line rest with
      | .error fault => ⟨[], .error fault⟩
      | .ok loop => do
        let inner ← unroll line.number (depth + 1) loop.header fun k =>
          runBlock width macros (depth + 1) (env.bind loop.header.counter (Float.ofInt k)) loop.body
        let later ← runBlock width macros depth env loop.after
        pure (inner ++ later)
    | .gate m => do
      let op ← Logged.ofResult (placeGate width env line m)
      Logged.emit (.gatePlaced line.number op)
      let later ← runBlock width macros depth env rest
      pure (.standard op :: later)
    | .name =>
      match found : findMacro line.head macros with
      | none => .refuse line.number (.unknownSymbol line.head)
      | some (m, older) => do
        let bound ← Logged.ofResult (bindArguments env line m)
        let members ← runBlock width older depth bound m.body
        Logged.emit (.macroExpanded line.head line.operands.length members.length)
        let later ← runBlock width macros depth env rest
        pure (.composite m.name members :: later)
termination_by lines => linesOf macros + lines.length
decreasing_by
  · have := (openLoop_shorter opened).1
    simp only [List.length_cons]
    omega
  · have := (openLoop_shorter opened).2
    simp only [List.length_cons]
    omega
  · simp only [List.length_cons]
    omega
  · have := findMacro_shorter found
    omega
  · simp only [List.length_cons]
    omega

end QCircuit
