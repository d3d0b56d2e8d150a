import QCircuit.Json.Value
import QCircuit.Decimal.Layout
/-! JSON text.

Compact text has no space. Pretty text has one item a line, two spaces for each level, and a space
after the colon; an empty array or object stays on its line. -/
namespace QCircuit.Json
open Decimal

/-- Numbers in JSON text: at least one place, and an exponent outside `1e-5` to `1e15`. -/
def layout : Layout := ⟨.toEven, some (-5, 15), true, true⟩

-- JSON has no text for a value that is not finite.
def floatText (x : Float) : String := if x.isFinite then layout.text x else "null"

def hexDigit (n : Nat) : Char := Nat.digitChar n

-- A quote, a backslash and the control characters are escaped, and nothing else is.
def escape (c : Char) : List Char :=
  if c = '"' then ['\\', '"']
  else if c = '\\' then ['\\', '\\']
  else if c = '\n' then ['\\', 'n']
  else if c = '\r' then ['\\', 'r']
  else if c = '\t' then ['\\', 't']
  else if c = '\x08' then ['\\', 'b']
  else if c = '\x0c' then ['\\', 'f']
  else if c.toNat < 32 then
    ['\\', 'u', '0', '0', hexDigit (c.toNat / 16), hexDigit (c.toNat % 16)]
  else [c]

def quote (s : String) : List Char := '"' :: s.toList.flatMap escape ++ ['"']

-- The text of a value that has no parts.
def scalarChars : Json → List Char
  | bool b => if b then ['t', 'r', 'u', 'e'] else ['f', 'a', 'l', 's', 'e']
  | integer n => (toString n).toList
  | float x => (floatText x).toList
  | string s => quote s
  | _ => ['n', 'u', 'l', 'l']

mutual

def compactChars : Json → List Char
  | array [] => ['[', ']']
  | array (item :: rest) => '[' :: compactChars item ++ compactItems rest ++ [']']
  | object [] => ['\x7b', '\x7d']
  | object ((name, value) :: rest) =>
    '\x7b' :: quote name ++ ':' :: compactChars value ++ compactMembers rest ++ ['\x7d']
  | json => scalarChars json

def compactItems : List Json → List Char
  | [] => []
  | item :: rest => ',' :: compactChars item ++ compactItems rest

def compactMembers : List (String × Json) → List Char
  | [] => []
  | (name, value) :: rest => ',' :: quote name ++ ':' :: compactChars value ++ compactMembers rest

end

def compact (json : Json) : String := String.ofList (compactChars json)

def newline (level : Nat) : List Char := '\n' :: List.replicate (2 * level) ' '

mutual

def prettyChars (level : Nat) : Json → List Char
  | array [] => ['[', ']']
  | array (item :: rest) =>
    '[' :: newline (level + 1) ++ prettyChars (level + 1) item ++ prettyItems (level + 1) rest ++
      newline level ++ [']']
  | object [] => ['\x7b', '\x7d']
  | object ((name, value) :: rest) =>
    '\x7b' :: newline (level + 1) ++ quote name ++ ':' :: ' ' :: prettyChars (level + 1) value ++
      prettyMembers (level + 1) rest ++ newline level ++ ['\x7d']
  | json => scalarChars json

def prettyItems (level : Nat) : List Json → List Char
  | [] => []
  | item :: rest => ',' :: newline level ++ prettyChars level item ++ prettyItems level rest

def prettyMembers (level : Nat) : List (String × Json) → List Char
  | [] => []
  | (name, value) :: rest =>
    ',' :: newline level ++ quote name ++ ':' :: ' ' :: prettyChars level value ++
      prettyMembers level rest

end

def pretty (json : Json) : String := String.ofList (prettyChars 0 json)

end QCircuit.Json
