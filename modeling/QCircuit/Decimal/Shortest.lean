import QCircuit.Decimal.Binary64
import QCircuit.Decimal.Rounding
/-! The fewest digits that read back.

A decimal is `digits * 10 ^ exponent`. For one digit, two digits and so on up to seventeen, the
two neighbours of the value on that decimal grid are read back as doubles; the first grid on which
one of them gives the double again wins, and of two such neighbours the nearer. -/
namespace QCircuit.Decimal

structure Scientific where
  digits : Nat
  exponent : Int
deriving DecidableEq, Repr

namespace Scientific

/-- The double nearest to a decimal. -/
def toFloat (d : Scientific) : Float :=
  Float.ofScientific d.digits (decide (d.exponent < 0)) d.exponent.natAbs

-- Moves the zeros at the end of the digits into the exponent, at most `fuel` of them.
def strip : Nat → Scientific → Scientific
  | 0, d => d
  | fuel + 1, d =>
    if d.digits ≠ 0 ∧ d.digits % 10 = 0 then strip fuel ⟨d.digits / 10, d.exponent + 1⟩ else d

end Scientific

/-- The `p` with `10 ^ (p - 1) ≤ numerator / denominator < 10 ^ p`. Below one, the digits of the
inverted quotient are counted instead, and a double below one is no power of ten. -/
def pointPosition (numerator denominator : Nat) : Int :=
  if denominator ≤ numerator then (Nat.toDigits 10 (numerator / denominator)).length
  else 1 - (Nat.toDigits 10 (denominator / numerator)).length

-- The neighbours of the value with `count` digits that read back as `x`, the better one first.
def candidate? (tie : Tie) (x : Float) (numerator denominator : Nat) (count : Nat) :
    Option Scientific :=
  let exponent := pointPosition numerator denominator - count
  let top := if exponent < 0 then numerator * Nat.pow 10 exponent.natAbs else numerator
  let bottom := if exponent < 0 then denominator else denominator * Nat.pow 10 exponent.natAbs
  let floor := top / bottom
  let below : Scientific := ⟨floor, exponent⟩
  let above : Scientific := ⟨floor + 1, exponent⟩
  let order :=
    if roundsUp tie floor (top % bottom) bottom then [above, below] else [below, above]
  order.find? fun d => d.toFloat == x

def search (tie : Tie) (x : Float) (numerator denominator : Nat) : Nat → Nat → Option Scientific
  | _, 0 => none
  | count, fuel + 1 =>
    match candidate? tie x numerator denominator count with
    | some d => some (d.strip count)
    | none => search tie x numerator denominator (count + 1) fuel

/-- The shortest decimal that reads back as the magnitude of a finite double. -/
def shortest (tie : Tie) (x : Float) : Scientific :=
  match Binary64.ofFloat x with
  | .finite _ 0 _ => ⟨0, 0⟩
  | .finite _ mantissa exponent =>
    let (numerator, denominator) := Binary64.fraction mantissa exponent
    (search tie x.abs numerator denominator 1 17).getD ⟨0, 0⟩
  | _ => ⟨0, 0⟩

end QCircuit.Decimal
