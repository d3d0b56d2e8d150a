import QCircuit.Text.Extending
import QCircuit.Text.Ignorable
import QCircuit.Text.Unprintable
/-! Quoted text in log lines.

Quotes, backslashes and line breaks are escaped by a backslash. A character that cannot be printed,
that extends the one in front of it or that shows nothing is written as its code point in braces. -/
namespace QCircuit.Text

-- Most text is ASCII, for which no table is needed.
def isHidden (c : Char) : Bool :=
  if c.toNat < 0x7f then c.toNat < 0x20 else isIgnorable c || isExtending c || isUnprintable c

def escapeQuoted (c : Char) : List Char :=
  if c = '"' then ['\\', '"']
  else if c = '\\' then ['\\', '\\']
  else if c = '\n' then ['\\', 'n']
  else if c = '\r' then ['\\', 'r']
  else if c = '\t' then ['\\', 't']
  else if c = '\x00' then ['\\', '0']
  else if isHidden c then '\\' :: 'u' :: '\x7b' :: Nat.toDigits 16 c.toNat ++ ['\x7d']
  else [c]

def quoted (s : String) : String :=
  String.ofList ('"' :: s.toList.flatMap escapeQuoted ++ ['"'])

end QCircuit.Text
