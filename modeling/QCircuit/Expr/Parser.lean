import QCircuit.Expr.Basic
import QCircuit.Expr.Lexer
/-! Reading an expression.

Tokens are read one by one onto a stack of unfinished constructs. While no operand is at hand, a
sign or an opening parenthesis goes onto the stack and a primary becomes the operand, with the
signs in front of it applied. With an operand at hand, a binary operator first finishes those on
the stack that bind as tightly or tighter, and waits for its right side; a closing parenthesis
finishes all of them up to its opening one. A token that fits neither is refused at once, and
whatever is on the stack can always be finished, so an error is reported at the first token that
no expression can have there. -/
namespace QCircuit.Expr

/-- What may stand where reading stopped. -/
inductive Expected where
  | operand
  | closing
  | ending
deriving DecidableEq, Repr

def Expected.text : Expected → String
  | operand => "operand"
  | closing => "')'"
  | ending => "end of expression"

inductive ReadError where
  | empty
  | invalidToken (position : Nat) (text : String)
  | unexpectedToken (expected : Expected) (found : Token)
  | unexpectedEnd (expected : Expected)
deriving DecidableEq

def ReadError.message : ReadError → String
  | empty => "Empty expression"
  | invalidToken position text => "Invalid token '" ++ text ++ "' at position " ++ toString position
  | unexpectedToken expected found =>
    "Expected " ++ expected.text ++ ", found '" ++ found.text ++ "'"
  | unexpectedEnd expected => "Unexpected end of expression: expected " ++ expected.text

inductive Frame where
  | group
  | negate
  | binary (op : BinaryOp) (left : Expr)
deriving DecidableEq

/-- What has been read: the unfinished constructs, innermost first, and the operand if one is at
hand. -/
structure Reading where
  stack : List Frame
  operand? : Option Expr

-- Applies the signs directly in front of an operand.
def applySigns : List Frame → Expr → Reading
  | .negate :: stack, e => applySigns stack (.negate e)
  | stack, e => ⟨stack, some e⟩

-- Finishes the binary operators on top of the stack that bind at least as tightly as `level`.
def finishTo (level : Nat) : List Frame → Expr → List Frame × Expr
  | .binary op left :: stack, e =>
    if level ≤ op.level then finishTo level stack (.binary op left e)
    else (.binary op left :: stack, e)
  | stack, e => (stack, e)

def binaryOp? : Token → Option BinaryOp
  | .plus => some .add
  | .minus => some .sub
  | .star => some .mul
  | .slash => some .div
  | _ => none

def readOperand (stack : List Frame) : Token → Except ReadError Reading
  | .number value => .ok (applySigns stack (.number value))
  | .pi => .ok (applySigns stack .pi)
  | .var name => .ok (applySigns stack (.var name))
  | .minus => .ok ⟨.negate :: stack, none⟩
  | .plus => .ok ⟨stack, none⟩
  | .leftParen => .ok ⟨.group :: stack, none⟩
  | found => .error (.unexpectedToken .operand found)

def readOperator (stack : List Frame) (e : Expr) (found : Token) : Except ReadError Reading :=
  match binaryOp? found with
  | some op =>
    let (stack, left) := finishTo op.level stack e
    .ok ⟨.binary op left :: stack, none⟩
  | none =>
    match finishTo 0 stack e with
    | (.group :: stack, inner) =>
      if found = .rightParen then .ok (applySigns stack inner)
      else .error (.unexpectedToken .closing found)
    | _ => .error (.unexpectedToken .ending found)

def step (reading : Reading) (t : Token) : Except ReadError Reading :=
  match reading.operand? with
  | none => readOperand reading.stack t
  | some e => readOperator reading.stack e t

def finish (reading : Reading) : Except ReadError Expr :=
  match reading.operand? with
  | none => .error (.unexpectedEnd .operand)
  | some e =>
    match finishTo 0 reading.stack e with
    | ([], whole) => .ok whole
    | _ => .error (.unexpectedEnd .closing)

def ofTokens (tokens : List Token) : Except ReadError Expr :=
  if tokens = [] then .error .empty
  else do
    let reading ← tokens.foldlM step ⟨[], none⟩
    finish reading

-- The tokens of a text, unless some piece of it is none.
def tokensOf : List Lexeme → Except ReadError (List Token)
  | [] => .ok []
  | ⟨.token t, _, _⟩ :: rest => do
    let tokens ← tokensOf rest
    .ok (t :: tokens)
  | ⟨.stray c, start, _⟩ :: _ => .error (.invalidToken start (String.singleton c))

def parse (text : String) : Except ReadError Expr := do
  let tokens ← tokensOf (lexemes text)
  ofTokens tokens

end QCircuit.Expr

namespace QCircuit
open QCircuit.Expr

/-- Why a text has no value. -/
inductive ExprError where
  | reading (e : Expr.ReadError)
  | evaluation (e : EvalError)
deriving DecidableEq

def ExprError.message : ExprError → String
  | reading e => e.message
  | evaluation e => e.message

/-- The value of an expression given as text. -/
def evaluate (text : String) (env : Environment) : Except ExprError Float :=
  match Expr.parse text with
  | .error e => .error (.reading e)
  | .ok expr =>
    match expr.eval env with
    | .error e => .error (.evaluation e)
    | .ok value => .ok value

end QCircuit
