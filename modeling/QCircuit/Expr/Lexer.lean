import QCircuit.Expr.Token
import QCircuit.Text.Numeral
/-! Splitting a text into tokens.

Only the space, the tab, the carriage return and the line feed are skipped. Where several tokens
fit, the longest is taken. A character at which no token starts is a piece of its own, and reading
goes on after it. -/
namespace QCircuit.Expr
open Text

def isSkipped (c : Char) : Bool := c == ' ' || c == '\t' || c == '\r' || c == '\n'

def isLetter (c : Char) : Bool := ('A' ≤ c && c ≤ 'Z') || ('a' ≤ c && c ≤ 'z')

def isNameStart (c : Char) : Bool := isLetter c || c == '_'

def isNameChar (c : Char) : Bool := isNameStart c || isDigit c

/-- The value of a number with this whole part and these places: the nearest double. -/
def numberValue (whole places : List Char) : Float :=
  Float.ofScientific (numeral (whole ++ places)) (decide (places ≠ [])) places.length

-- A number has digits in front of a point, behind it, or on both sides. The pair is the token and
-- the number of characters it takes.
def numberToken? (cs : List Char) : Option (Token × Nat) :=
  let whole := cs.takeWhile isDigit
  match cs.dropWhile isDigit with
  | '.' :: rest =>
    let places := rest.takeWhile isDigit
    if whole = [] ∧ places = [] then none
    else some (.number (numberValue whole places), whole.length + 1 + places.length)
  | _ => if whole = [] then none else some (.number (numberValue whole []), whole.length)

def variableToken? : List Char → Option (Token × Nat)
  | '$' :: c :: rest =>
    if isNameStart c then
      let name := '$' :: c :: rest.takeWhile isNameChar
      some (.var (String.ofList name), name.length)
    else none
  | _ => none

/-- The longest token at the start of a text, and its length in characters. -/
def longestToken? (cs : List Char) : Option (Token × Nat) :=
  match cs with
  | 'p' :: 'i' :: _ => some (.pi, 2)
  | '+' :: _ => some (.plus, 1)
  | '-' :: _ => some (.minus, 1)
  | '*' :: _ => some (.star, 1)
  | '/' :: _ => some (.slash, 1)
  | '(' :: _ => some (.leftParen, 1)
  | ')' :: _ => some (.rightParen, 1)
  | '$' :: _ => variableToken? cs
  | _ => numberToken? cs

def byteSize : List Char → Nat
  | [] => 0
  | c :: rest => c.utf8Size + byteSize rest

-- Pieces of the text that begins at byte `start`.
def lexemesFrom (start : Nat) : List Char → List Lexeme
  | [] => []
  | c :: rest =>
    if isSkipped c then lexemesFrom (start + c.utf8Size) rest
    else match longestToken? (c :: rest) with
      | some (t, length) =>
        let stop := start + byteSize (c :: rest.take (length - 1))
        ⟨.token t, start, stop⟩ :: lexemesFrom stop (rest.drop (length - 1))
      | none =>
        let stop := start + c.utf8Size
        ⟨.stray c, start, stop⟩ :: lexemesFrom stop rest
termination_by cs => cs.length
decreasing_by
  · simp
  · simp only [List.length_drop, List.length_cons]; omega
  · simp

def lexemes (text : String) : List Lexeme := lexemesFrom 0 text.toList

/-- Whether a word is one variable and nothing else. -/
def isVariable (word : String) : Bool :=
  match lexemes word with
  | [⟨.token (.var _), _, _⟩] => true
  | _ => false

end QCircuit.Expr
