import QCircuit.Expr.Token
/-! Expressions and their values.

An expression is evaluated from left to right, and every value on the way has to be finite. -/
namespace QCircuit

inductive BinaryOp where
  | add
  | sub
  | mul
  | div
deriving DecidableEq, Repr

namespace BinaryOp

def symbol : BinaryOp → String
  | add => "+"
  | sub => "-"
  | mul => "*"
  | div => "/"

/-- Operators of a higher level bind tighter. -/
def level : BinaryOp → Nat
  | add => 0
  | sub => 0
  | mul => 1
  | div => 1

def apply : BinaryOp → Float → Float → Float
  | add, x, y => x + y
  | sub, x, y => x - y
  | mul, x, y => x * y
  | div, x, y => x / y

end BinaryOp

inductive Expr where
  | number (value : Float)
  | pi
  | var (name : String)
  | negate (inner : Expr)
  | binary (op : BinaryOp) (left right : Expr)
deriving DecidableEq

/-- Values of variables, the latest binding first; a name is bound at most once. -/
structure Environment where
  bindings : List (String × Float)

namespace Environment

def empty : Environment := ⟨[]⟩

/-- Binds a name, in place of any earlier binding of it. -/
def bind (env : Environment) (name : String) (value : Float) : Environment :=
  ⟨(name, value) :: env.bindings.filter fun b => b.1 != name⟩

def ofBindings (bindings : List (String × Float)) : Environment :=
  bindings.foldl (fun env b => env.bind b.1 b.2) empty

def get? (env : Environment) (name : String) : Option Float := env.bindings.lookup name

/-- Environments agree if they bind the same names to equal numbers. A zero equals its negative,
and a value that is no number equals nothing. -/
def agrees (a b : Environment) : Bool :=
  a.bindings.length == b.bindings.length &&
    a.bindings.all fun (name, value) => (b.get? name).any (value == ·)

theorem get?_bind_self (env : Environment) (name : String) (value : Float) :
    (env.bind name value).get? name = some value := by
  simp [bind, get?]

theorem get?_bind_of_ne (env : Environment) (name other : String) (value : Float)
    (distinct : other ≠ name) : (env.bind name value).get? other = env.get? other := by
  have tail : ∀ bindings : List (String × Float),
      (bindings.filter fun b => b.1 != name).lookup other = bindings.lookup other := by
    intro bindings
    induction bindings with
    | nil => rfl
    | cons b rest ih =>
      obtain ⟨bound, x⟩ := b
      by_cases same : bound = name
      · simp [same, ih, List.lookup_cons, beq_false_of_ne distinct]
      · simp [same, ih, List.lookup_cons]
  simp [bind, get?, List.lookup_cons, beq_false_of_ne distinct, tail]

end Environment

inductive EvalError where
  | undefinedVariable (name : String)
  | nonFinite
deriving DecidableEq

def EvalError.message : EvalError → String
  | undefinedVariable name => "Undefined variable '" ++ name ++ "'"
  | nonFinite => "Expression does not evaluate to a finite number"

namespace Expr

def finite (x : Float) : Except EvalError Float :=
  if x.isFinite then .ok x else .error .nonFinite

/-- The double nearest to the circle constant. -/
def piValue : Float := 3.141592653589793

def eval (env : Environment) : Expr → Except EvalError Float
  | number value => finite value
  | pi => finite piValue
  | var name =>
    match env.get? name with
    | none => .error (.undefinedVariable name)
    | some value => finite value
  | negate inner => do
    let x ← inner.eval env
    finite (-x)
  | binary op left right => do
    let x ← left.eval env
    let y ← right.eval env
    finite (op.apply x y)

/-- Text with each operator in front of its operands. -/
def operatorFirst : Expr → String
  | number value => Decimal.plainText value
  | pi => "pi"
  | var name => name
  | negate inner => "(neg " ++ inner.operatorFirst ++ ")"
  | binary op left right =>
    "(" ++ op.symbol ++ " " ++ left.operatorFirst ++ " " ++ right.operatorFirst ++ ")"

end Expr
end QCircuit
