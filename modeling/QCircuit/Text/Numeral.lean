/-! Decimal numerals.

A numeral is one or more ASCII digits. A signed one may have a sign in front; an unsigned one may
have a plus sign only. -/
namespace QCircuit.Text

def isDigit (c : Char) : Bool := '0' ≤ c && c ≤ '9'

def digitValue (c : Char) : Nat := c.toNat - '0'.toNat

-- The number that digits write, after `start` for the digits before them.
def numeralFrom (start : Nat) (digits : List Char) : Nat :=
  digits.foldl (fun n c => 10 * n + digitValue c) start

def numeral (digits : List Char) : Nat := numeralFrom 0 digits

def natural? (cs : List Char) : Option Nat :=
  if cs ≠ [] ∧ cs.all isDigit then some (numeral cs) else none

def unsigned? : List Char → Option Nat
  | '+' :: digits => natural? digits
  | cs => natural? cs

def signed? : List Char → Option Int
  | '-' :: digits => (natural? digits).map fun n => -(n : Int)
  | cs => (unsigned? cs).map Int.ofNat

/-- Counts and qubit numbers are held in 32 bits. -/
def wordLimit : Nat := 0x100000000

def word32? (cs : List Char) : Option Nat :=
  (unsigned? cs).filter (· < wordLimit)

end QCircuit.Text
