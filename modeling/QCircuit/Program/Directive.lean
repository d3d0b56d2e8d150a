import QCircuit.Gate.Kind
/-! The first word of a line.

It is a keyword, the mnemonic of a gate, or a name that a definition may have given. A mnemonic is
the name of a gate, or that name after a `C` for the gate with controls. -/
namespace QCircuit

inductive Keyword where
  | init
  | define
  | endDefine
  | loop
  | endLoop
deriving DecidableEq, Repr

def Keyword.ofWord? : String → Option Keyword
  | "init" => some init
  | "def" => some define
  | "endef" => some endDefine
  | "for" => some loop
  | "endfor" => some endLoop
  | _ => none

structure Mnemonic where
  kind : GateKind
  controlled : Bool
deriving DecidableEq, Repr

namespace Mnemonic

def shape (m : Mnemonic) : Shape := m.kind.shape

-- The uncontrolled gate is looked for first.
def ofWord? (word : String) : Option Mnemonic :=
  match GateKind.ofName? word with
  | some kind => some ⟨kind, false⟩
  | none =>
    match word.toList with
    | 'C' :: rest => (GateKind.ofName? (String.ofList rest)).map fun kind => ⟨kind, true⟩
    | _ => none

end Mnemonic

/-- Whether a word has a meaning of its own, so that no definition may take it as its name. -/
def isReserved (word : String) : Bool :=
  (Keyword.ofWord? word).isSome || (Mnemonic.ofWord? word).isSome

/-- Whether a text begins with the mark of a comment. -/
def startsComment (text : List Char) : Bool := ['/', '/'].isPrefixOf text

/-- Whether a trimmed line has nothing to interpret. -/
def isSkippable (text : List Char) : Bool := text.isEmpty || startsComment text

inductive Role where
  | keyword (k : Keyword)
  | gate (m : Mnemonic)
  | name
deriving DecidableEq, Repr

def Role.ofWord (word : String) : Role :=
  match Keyword.ofWord? word with
  | some k => .keyword k
  | none =>
    match Mnemonic.ofWord? word with
    | some m => .gate m
    | none => .name

end QCircuit
