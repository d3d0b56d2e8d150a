import QCircuit.Decimal.Layout
/-! Tokens of an operand expression. -/
namespace QCircuit.Expr

inductive Token where
  | pi
  | number (value : Float)
  | var (name : String)
  | plus
  | minus
  | star
  | slash
  | leftParen
  | rightParen
deriving DecidableEq

/-- The text of a token. A number is written as its value. -/
def Token.text : Token → String
  | pi => "pi"
  | number value => Decimal.plainText value
  | var name => name
  | plus => "+"
  | minus => "-"
  | star => "*"
  | slash => "/"
  | leftParen => "("
  | rightParen => ")"

/-- A piece of a text: a token, or one character that starts no token. -/
inductive Piece where
  | token (t : Token)
  | stray (c : Char)
deriving DecidableEq

/-- A piece and the bytes of the text that it covers. -/
structure Lexeme where
  piece : Piece
  start : Nat
  stop : Nat
deriving DecidableEq

end QCircuit.Expr
