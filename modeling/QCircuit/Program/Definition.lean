import QCircuit.Program.Block
/-! Definitions.

The lines of a definition are not run when they are read. They are checked so that no call can be
refused for its structure: every word that begins a line has to be known by then, loops have to be
closed, and neither a circuit nor a definition may begin inside. -/
namespace QCircuit

/-- A definition whose end has not been reached. -/
structure OpenDefinition where
  name : String
  params : List String
  openedAt : Nat
  /-- The number of loops that are open. -/
  depth : Nat
  /-- The lines so far, the latest first. -/
  captured : List Line
deriving DecidableEq, Repr

def checkName (macros : List Macro) (line : Nat) (name : String) : Except Fault Unit :=
  let cs := name.toList
  if isReserved name || (findMacro name macros).isSome then refuse line (.nameTaken name)
  else if cs.all Text.isDigit then refuse line (.numericName name)
  else if ['$'].isPrefixOf cs || startsComment cs || name == "|" then refuse line (.invalidName name)
  else .ok ()

-- Refuses the first word that is no variable, is `seen` already or stands earlier in the list.
def checkParams (line : Nat) (seen : List String) : List String → Except Fault Unit
  | [] => .ok ()
  | word :: rest =>
    if !Expr.isVariable word then refuse line (.invalidParameter word)
    else if seen.contains word then refuse line (.repeatedParameter word)
    else checkParams line (word :: seen) rest

/-- The definition that a line opens. -/
def openDefinition (macros : List Macro) (line : Line) : Except Fault OpenDefinition :=
  match line.operands with
  | [] => refuse line.number .emptyName
  | name :: params => do
    checkName macros line.number name
    checkParams line.number [] params
    .ok ⟨name, params, line.number, 0, []⟩

inductive Capture where
  | more (d : OpenDefinition)
  | closed (m : Macro)

def OpenDefinition.close (d : OpenDefinition) (line : Nat) : Macro :=
  ⟨d.name, d.params, d.captured.reverse, d.openedAt, line⟩

-- Takes a line into a definition inside `depth` loops.
def OpenDefinition.take (d : OpenDefinition) (line : Line) (depth : Nat) : Capture :=
  .more { d with depth := depth, captured := line :: d.captured }

/-- Checks a line of a definition, which is taken into it or closes it. -/
def captureLine (macros : List Macro) (d : OpenDefinition) (line : Line) : Except Fault Capture :=
  match line.role with
  | .keyword .init => refuse line.number .initInDefinition
  | .keyword .define => refuse line.number .defineInDefinition
  | .keyword .loop => .ok (d.take line (d.depth + 1))
  | .keyword .endLoop =>
    match d.depth with
    | 0 => refuse line.number .noLoopOpen
    | depth + 1 => .ok (d.take line depth)
  | .keyword .endDefine =>
    if 0 < d.depth then refuse line.number .endDefineInLoop
    else do
      refuseTrailing line.number line.operands
      .ok (.closed (d.close line.number))
  | .gate _ => .ok (d.take line d.depth)
  | .name =>
    if line.head = d.name then refuse line.number (.selfInvocation line.head)
    else if (findMacro line.head macros).isSome then .ok (d.take line d.depth)
    else refuse line.number (.unknownSymbol line.head)

/-- The number of source lines between the first and the last line of a definition. -/
def Macro.lineCount (m : Macro) : Nat := m.closedAt - 1 - m.openedAt

end QCircuit
